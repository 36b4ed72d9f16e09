/-
# `TypedTemplate.Expr.Read` — from tokens to an expression

    expr    := '!' expr | postfix
    postfix := primary ( '.' name [ '(' args ')' ] )*
    primary := literal | name [ '(' args ')' ] | '(' expr ')' | '[' [ args ] ']'
    args    := expr ( ',' expr )*
    loop    := name ':' expr

The tokens are read once, from the left, and none is looked at before its turn.  A
`State` says what has been read: whether an operand has to begin, or a member name,
or an operand stands complete; and, innermost first, the constructions around it
that are not finished (`Frame`).  `State.step` takes one token.  It fails exactly
where no expression begins with the tokens up to this one, so the place of a fault
is the first token that could not be right.

A `!` is looser than `.`: negations wait in the frames until their operand can grow
no further.
-/
import TypedTemplate.Fault
import TypedTemplate.Expr.Basic
import TypedTemplate.Expr.Fault
import TypedTemplate.Expr.Scan

namespace TypedTemplate.Expr

/-! ## Unfinished constructions -/

/-- What arguments are given to. -/
inductive Callee where
  /-- A method of the context; the span is that of its name. -/
  | root (method : String) (span : Span)
  /-- A method of a value. -/
  | member (base : Expr) (method : String) (span : Span)

/-- The field or name that the callee is if no arguments follow. -/
def Callee.plain : Callee → Expr
  | .root method span => .ident method span
  | .member base method span => .fieldOf base method (base.span.join span)

/-- The call with its arguments; `close` is the span of the closing parenthesis. -/
def Callee.apply (args : List Expr) (close : Span) : Callee → Expr
  | .root method span => .rootCall method args (span.join close)
  | .member base method _ => .methodOf base method args (base.span.join close)

/-- A construction that is not finished. -/
inductive Frame where
  /-- A `!` that waits for its operand. -/
  | negation (bang : Span)
  /-- An open parenthesis that groups. -/
  | group
  /-- A list with its items so far, last first. -/
  | list (bracket : Span) (items : List Expr)
  /-- A call with its arguments so far, last first. -/
  | arguments (callee : Callee) (args : List Expr)

/-- What has been read. -/
inductive State where
  /-- An operand has to begin. -/
  | operand (frames : List Frame)
  /-- A list or call has just been opened: an operand has to begin, or the end of it. -/
  | opened (frames : List Frame)
  /-- A name has been read, which arguments may follow. -/
  | named (callee : Callee) (frames : List Frame)
  /-- A point has been read after `base`, and a member name has to follow. -/
  | member (base : Expr) (frames : List Frame)
  /-- An operand is complete as far as it goes. -/
  | complete (e : Expr) (frames : List Frame)

/-- Nothing has been read. -/
def State.start : State := .operand []

/-! ## One token -/

/-- The operand with the negations that waited for it, and the frames around them. -/
def negate (e : Expr) : List Frame → Expr × List Frame
  | .negation bang :: frames => negate (.negation e (bang.join e.span)) frames
  | frames => (e, frames)

/-- What has to follow an operand that can grow no further. -/
def expectedAfter : List Frame → Expected
  | [] => .stop
  | .negation _ :: frames => expectedAfter frames
  | .group :: _ => .closeParen
  | .list _ _ :: _ => .commaOrCloseBracket
  | .arguments _ _ :: _ => .commaOrCloseParen

/-- A token that cannot be right. -/
def unexpected {α : Type} (expected : Expected) (t : Token) : Except (Fault Cause) α :=
  .error ⟨.unexpectedToken expected t.kind, t.span⟩

/-- Takes a token where an operand has to begin. -/
def beginOperand (frames : List Frame) (t : Token) : Except (Fault Cause) State :=
  match t.kind with
  | .bang => .ok (.operand (.negation t.span :: frames))
  | .literal l => .ok (.complete (.constant l t.span) frames)
  | .name word => .ok (.named (.root word t.span) frames)
  | .openParen => .ok (.operand (.group :: frames))
  | .openBracket => .ok (.opened (.list t.span [] :: frames))
  | _ => unexpected .expression t

/-- Takes a token after an operand that can grow no further, the negations already applied. -/
def afterOperand (e : Expr) (frames : List Frame) (t : Token) : Except (Fault Cause) State :=
  match frames, t.kind with
  | .group :: outer, .closeParen => .ok (.complete e outer)
  | .list bracket items :: outer, .comma => .ok (.operand (.list bracket (e :: items) :: outer))
  | .list bracket items :: outer, .closeBracket =>
    .ok (.complete (.listing (e :: items).reverse (bracket.join t.span)) outer)
  | .arguments callee args :: outer, .comma =>
    .ok (.operand (.arguments callee (e :: args) :: outer))
  | .arguments callee args :: outer, .closeParen =>
    .ok (.complete (callee.apply (e :: args).reverse t.span) outer)
  | frames, _ => unexpected (expectedAfter frames) t

/-- Takes a token after an operand. -/
def continueOperand (e : Expr) (frames : List Frame) (t : Token) : Except (Fault Cause) State :=
  match t.kind with
  | .dot => .ok (.member e frames)
  | _ => afterOperand (negate e frames).1 (negate e frames).2 t

/-- Takes a token. -/
def State.step (s : State) (t : Token) : Except (Fault Cause) State :=
  match s with
  | operand frames => beginOperand frames t
  | opened frames =>
    match frames, t.kind with
    | .list bracket [] :: outer, .closeBracket =>
      .ok (.complete (.listing [] (bracket.join t.span)) outer)
    | .arguments callee [] :: outer, .closeParen => .ok (.complete (callee.apply [] t.span) outer)
    | frames, _ => beginOperand frames t
  | named callee frames =>
    match t.kind with
    | .openParen => .ok (.opened (.arguments callee [] :: frames))
    | _ => continueOperand callee.plain frames t
  | member base frames =>
    match t.kind with
    | .name word => .ok (.named (.member base word t.span) frames)
    | _ => unexpected .memberName t
  | complete e frames => continueOperand e frames t

/-! ## All tokens -/

/-- What has been read when the tokens end; `stop` stands for their end. -/
def State.finish (s : State) (stop : Token) : Except (Fault Cause) Expr :=
  let done (e : Expr) (frames : List Frame) : Except (Fault Cause) Expr :=
    match negate e frames with
    | (e, []) => .ok e
    | (_, frames) => unexpected (expectedAfter frames) stop
  match s with
  | operand _ => unexpected .expression stop
  | opened _ => unexpected .expression stop
  | named callee frames => done callee.plain frames
  | member _ _ => unexpected .memberName stop
  | complete e frames => done e frames

/-- Reads on from a state to the end. -/
def readFrom (s : State) (stop : Token) : List Token → Except (Fault Cause) Expr
  | [] => s.finish stop
  | t :: ts =>
    match s.step t with
    | .ok s => readFrom s stop ts
    | .error fault => .error fault

/-- The expression that the tokens of an excerpt form. -/
def ofTokens (e : Excerpt) (ts : List Token) : Except (Fault Cause) Expr :=
  readFrom .start (.stop e) ts

/-- The expression that stands in an excerpt. -/
def read (e : Excerpt) : Except (Fault Cause) Expr := do ofTokens e (← tokens e)

end TypedTemplate.Expr

namespace TypedTemplate.LoopHeader

open TypedTemplate.Expr

/-- The names that a loop may bind: ASCII letters and digits only. -/
def isLoopName (word : String) : Bool := word.toList.all Char.isAlphanum

/-- The loop header that the tokens of an excerpt form. -/
def ofTokens (e : Excerpt) : List Token → Except (Fault Cause) LoopHeader
  | ⟨.name word, _⟩ :: ⟨.colon, _⟩ :: t :: ts =>
    if isLoopName word then (Expr.ofTokens e (t :: ts)).map fun list => ⟨word, list⟩
    else .error ⟨.malformedLoop (String.ofList e.chars), e.span⟩
  | _ => .error ⟨.malformedLoop (String.ofList e.chars), e.span⟩

/-- The loop header that stands in an excerpt. -/
def read (e : Excerpt) : Except (Fault Cause) LoopHeader := do ofTokens e (← tokens e)

end TypedTemplate.LoopHeader
