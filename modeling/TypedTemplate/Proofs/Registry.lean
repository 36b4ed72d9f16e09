/-
# `TypedTemplate.Proofs.Registry` — a registry answers as its history does

A registry is asked to add, to render, to look up and to list, in any order.  `serve` is
one such request and `serveAll` a run of them.  What a registry has under a name is what
the last add of that name that compiled has put there (`get?_serveAll`), so every answer
can be read off the requests made so far: `answer` says how, and mentions no registry.
An add that does not compile is in no way part of that history but for its own answer.

Two registries that have the same templates answer alike from then on (`Same.serveAll`),
in whatever order they came to them.  This is the sense in which adds commute: the entries
themselves are kept in the order in which they were first made.
-/
import Mathlib.Data.List.Dedup
import TypedTemplate.Proofs.Except
import TypedTemplate.Registry

namespace TypedTemplate

namespace Registry

/-! ## Requests -/

/-- What a registry can be asked for. -/
inductive Request where
  | add (name text : String) (context : ObjectTy)
  | render (name : String) (context : Value)
  | get (name : String)
  | contains (name : String)
  | names

/-- What a registry answers. -/
inductive Reply where
  /-- Nothing more is said of a template that was added. -/
  | added (result : Except Diagnostic Unit)
  | rendered (result : Except RegistryError String)
  | found (template : Option Template)
  | contained (present : Bool)
  | listed (names : List String)

/-- The registry after a request, and its answer. -/
def serve (r : Registry) : Request → Registry × Reply
  | .add name text context =>
    match r.add name text context with
    | .ok r' => (r', .added (.ok ()))
    | .error d => (r, .added (.error d))
  | .render name context => (r, .rendered (r.render name context))
  | .get name => (r, .found (r.get? name))
  | .contains name => (r, .contained (r.contains name))
  | .names => (r, .listed r.names)

/-- The registry after some requests, and its answers. -/
def serveAll (r : Registry) : List Request → Registry × List Reply
  | [] => (r, [])
  | request :: rest =>
    let (r', reply) := r.serve request
    let (r'', replies) := r'.serveAll rest
    (r'', reply :: replies)

/-- The registry that was empty before some requests. -/
def after (config : Config) (history : List Request) : Registry :=
  (serveAll { config := config } history).1

/-! ## What the history says -/

/-- The name and the template that a request adds; none if it does not compile. -/
def Request.adds? (config : Config) : Request → Option (String × Template)
  | .add name text context =>
    (Template.compile config (.ofString name text) context).toOption.map (name, ·)
  | _ => none

/-- The template that a request puts under a name. -/
def Request.puts? (config : Config) (name : String) (request : Request) : Option Template :=
  (request.adds? config).bind fun added => if added.1 = name then some added.2 else none

/-- The template that was put under a name last. -/
def last? (config : Config) (name : String) (history : List Request) : Option Template :=
  history.reverse.findSome? (Request.puts? config name)

/-- The names under which something was put, each once, in the order of their code points. -/
def addedNames (config : Config) (history : List Request) : List String :=
  ((history.filterMap (Request.adds? config)).map Prod.fst).dedup.mergeSort
    fun a b => decide (a ≤ b)

/-- The answer to a request after some others. -/
def answer (config : Config) (history : List Request) : Request → Reply
  | .add name text context =>
    .added ((Template.compile config (.ofString name text) context).map fun _ => ())
  | .render name context =>
    .rendered <|
      match last? config name history with
      | none => .error (.notFound name)
      | some template => (template.render context).mapError .failed
  | .get name => .found (last? config name history)
  | .contains name => .contained (last? config name history).isSome
  | .names => .listed (addedNames config history)

theorem last?_cons (config : Config) (name : String) (request : Request)
    (rest : List Request) : last? config name (request :: rest) =
      (last? config name rest).or (request.puts? config name) := by
  rw [last?, List.reverse_cons, List.findSome?_append, List.findSome?_singleton]
  rfl

/-! ## One request -/

section

variable {r : Registry} {request : Request} {name text : String} {context : ObjectTy}

theorem serve_of_adds? {template : Template}
    (h : request.adds? r.config = some (name, template)) :
    (r.serve request).1 = { r with templates := r.templates.put name template } := by
  cases request with
  | add key text context =>
      obtain ⟨t, hcompile, heq⟩ := Option.map_eq_some_iff.1 h
      cases heq
      simp only [serve, add, Except.toOption_eq_some.1 hcompile, Except.map]
  | _ => cases h

/-- A request that adds nothing changes nothing. -/
theorem serve_of_adds?_eq_none (h : request.adds? r.config = none) : (r.serve request).1 = r := by
  cases request with
  | add key text context =>
      cases hcompile : Template.compile r.config (.ofString key text) context with
      | ok t =>
          rw [Request.adds?, hcompile] at h
          cases h
      | error d => simp only [serve, add, hcompile, Except.map]
  | _ => rfl

@[simp] theorem config_serve (r : Registry) (request : Request) :
    (r.serve request).1.config = r.config := by
  cases h : request.adds? r.config with
  | none => rw [serve_of_adds?_eq_none h]
  | some added => rw [serve_of_adds? h]

/-- A request changes the template of a name exactly if it puts one there. -/
theorem get?_serve (r : Registry) (request : Request) (name : String) :
    (r.serve request).1.get? name = (request.puts? r.config name).or (r.get? name) := by
  rw [Request.puts?]
  cases h : request.adds? r.config with
  | none =>
      rw [serve_of_adds?_eq_none h]
      rfl
  | some added =>
      obtain ⟨key, template⟩ := added
      rw [serve_of_adds? h, get?, Fields.get?_put]
      by_cases hkey : key = name
      · subst hkey
        simp
      · have hne : name ≠ key := fun heq => hkey heq.symm
        simp [hkey, hne, get?]

/-- The answer to an add depends on nothing but the options. -/
theorem reply_add (r : Registry) (name text : String) (context : ObjectTy) :
    (r.serve (.add name text context)).2 =
      .added ((Template.compile r.config (.ofString name text) context).map fun _ => ()) := by
  rw [serve, add]
  cases Template.compile r.config (.ofString name text) context <;> rfl

end

/-! ## A run of requests -/

section

variable (r : Registry) (requests : List Request)

theorem serveAll_cons (request : Request) : r.serveAll (request :: requests) =
    (((r.serve request).1.serveAll requests).1,
      (r.serve request).2 :: ((r.serve request).1.serveAll requests).2) := rfl

theorem config_serveAll : (r.serveAll requests).1.config = r.config := by
  induction requests generalizing r with
  | nil => rfl
  | cons request rest ih => rw [serveAll_cons, ih, config_serve]

/-- What is under a name is what was put there last, or what was there before. -/
theorem get?_serveAll (name : String) :
    (r.serveAll requests).1.get? name = (last? r.config name requests).or (r.get? name) := by
  induction requests generalizing r with
  | nil => rfl
  | cons request rest ih =>
      rw [serveAll_cons, ih, get?_serve, config_serve, last?_cons, Option.or_assoc]

end

/-! ## Answers -/

/-- Two lists without repetitions that have the same entries are sorted into the same list. -/
theorem mergeSort_eq_of_mem_iff {xs ys : List String} (hx : xs.Nodup) (hy : ys.Nodup)
    (h : ∀ a, a ∈ xs ↔ a ∈ ys) : (xs.mergeSort fun a b => decide (a ≤ b)) =
      ys.mergeSort fun a b => decide (a ≤ b) := by
  have hsorted : ∀ zs : List String,
      (zs.mergeSort fun a b => decide (a ≤ b)).Pairwise fun a b => decide (a ≤ b) = true := by
    intro zs
    refine List.pairwise_mergeSort ?_ ?_ zs
    · intro a b c hab hbc
      exact decide_eq_true (String.le_trans (of_decide_eq_true hab) (of_decide_eq_true hbc))
    · intro a b
      simpa using String.le_total a b
  refine List.Perm.eq_of_pairwise ?_ (hsorted xs) (hsorted ys) ?_
  · intro a b _ _ hab hba
    exact String.le_antisymm (of_decide_eq_true hab) (of_decide_eq_true hba)
  · calc
      (xs.mergeSort fun a b => decide (a ≤ b)).Perm xs := List.mergeSort_perm _ _
      xs.Perm ys := (List.perm_ext_iff_of_nodup hx hy).2 h
      ys.Perm (ys.mergeSort fun a b => decide (a ≤ b)) := (List.mergeSort_perm _ _).symm

/-- Two registries with the same options have the same template under every name. -/
structure Same (r r' : Registry) : Prop where
  config : r.config = r'.config
  get? : ∀ name, r.get? name = r'.get? name

namespace Same

variable {r r' : Registry}

theorem names (h : Same r r') : r.names = r'.names := by
  refine mergeSort_eq_of_mem_iff r.templates.distinct r'.templates.distinct ?_
  intro name
  have hget : r.templates.get? name = r'.templates.get? name := h.get? name
  rw [Fields.mem_names, Fields.mem_names, hget]

/-- They answer a request alike, and are the same again after it. -/
theorem serve (h : Same r r') (request : Request) :
    (r.serve request).2 = (r'.serve request).2 ∧ Same (r.serve request).1 (r'.serve request).1 := by
  constructor
  · cases request with
    | add name text context =>
        rw [reply_add, reply_add, h.config]
    | render name context => simp only [Registry.serve, render, h.get?]
    | get name => simp only [Registry.serve, h.get?]
    | contains name => simp only [Registry.serve, contains, h.get?]
    | names => simp only [Registry.serve, h.names]
  · refine ⟨?_, ?_⟩
    · rw [config_serve, config_serve, h.config]
    · intro name
      rw [get?_serve, get?_serve, h.config, h.get?]

/-- They cannot be told apart by any further requests. -/
theorem serveAll (h : Same r r') (requests : List Request) :
    (r.serveAll requests).2 = (r'.serveAll requests).2 := by
  induction requests generalizing r r' with
  | nil => rfl
  | cons request rest ih =>
      obtain ⟨hreply, hafter⟩ := h.serve request
      rw [serveAll_cons, serveAll_cons, hreply, ih hafter]

end Same

/-- A request puts nothing under a name that it does not add. -/
theorem puts?_add_of_ne {config : Config} {key name : String} (hne : name ≠ key) (text : String)
    (context : ObjectTy) : Request.puts? config key (.add name text context) = none := by
  simp [Request.puts?, Request.adds?, hne]

section

variable (r : Registry) {name name' : String} (hne : name ≠ name') (text text' : String)
  (context context' : ObjectTy)

include hne

/-- Adds under different names lead to the same registry in either order. -/
theorem same_of_adds :
    Same (r.serveAll [.add name text context, .add name' text' context']).1
      (r.serveAll [.add name' text' context', .add name text context]).1 := by
  refine ⟨?_, ?_⟩
  · rw [config_serveAll, config_serveAll]
  · intro key
    simp only [get?_serveAll, last?_cons]
    by_cases hkey : name = key
    · have hkey' : name' ≠ key := fun h => hne (hkey.trans h.symm)
      rw [puts?_add_of_ne hkey' text' context', Option.or_none, Option.or_none]
    · rw [puts?_add_of_ne hkey text context, Option.or_none, Option.or_none]

/-- They are answered alike in either order, and so is everything after them. -/
theorem replies_of_adds (rest : List Request) : ∃ reply reply' replies,
    (r.serveAll (.add name text context :: .add name' text' context' :: rest)).2 =
        reply :: reply' :: replies ∧
      (r.serveAll (.add name' text' context' :: .add name text context :: rest)).2 =
        reply' :: reply :: replies := by
  have hrest := (same_of_adds r hne text text' context context').serveAll rest
  refine ⟨(r.serve (.add name text context)).2, (r.serve (.add name' text' context')).2,
    ((r.serveAll [.add name text context, .add name' text' context']).1.serveAll rest).2, ?_, ?_⟩
  · rw [serveAll_cons, serveAll_cons, reply_add, reply_add, reply_add, config_serve]
    rfl
  · rw [hrest, serveAll_cons, serveAll_cons, reply_add, reply_add, reply_add, config_serve]
    rfl

end

/-! ## The history and the registry -/

section

variable {config : Config} {name : String} {history : List Request}

theorem isSome_puts? {request : Request} : (request.puts? config name).isSome = true ↔
    ∃ template, request.adds? config = some (name, template) := by
  rw [Request.puts?]
  cases request.adds? config with
  | none => simp
  | some added =>
      obtain ⟨key, template⟩ := added
      simp only [Option.bind_some, Option.some.injEq, Prod.mk.injEq]
      split
      · rename_i hkey
        exact iff_of_true rfl ⟨template, hkey, rfl⟩
      · rename_i hkey
        refine iff_of_false Bool.false_ne_true ?_
        rintro ⟨template', heq, -⟩
        exact hkey heq

/-- A name has a template in the end exactly if some add of it compiled. -/
theorem isSome_last? : (last? config name history).isSome = true ↔ ∃ text context,
    .add name text context ∈ history ∧
      (Template.compile config (.ofString name text) context).Succeeds := by
  rw [last?, List.findSome?_isSome_iff]
  constructor
  · rintro ⟨request, hmem, hputs⟩
    obtain ⟨template, hadds⟩ := isSome_puts?.1 hputs
    cases request with
    | add key text context =>
        obtain ⟨t, hcompile, heq⟩ := Option.map_eq_some_iff.1 hadds
        obtain ⟨rfl, -⟩ := Prod.mk.inj heq
        exact ⟨text, context, List.mem_reverse.1 hmem, t, Except.toOption_eq_some.1 hcompile⟩
    | _ => cases hadds
  · rintro ⟨text, context, hmem, t, hcompile⟩
    refine ⟨_, List.mem_reverse.2 hmem, isSome_puts?.2 ⟨t, ?_⟩⟩
    rw [Request.adds?, hcompile]
    rfl

theorem mem_added : name ∈ (history.filterMap (Request.adds? config)).map Prod.fst ↔
    (last? config name history).isSome = true := by
  rw [last?, List.findSome?_isSome_iff]
  simp only [List.mem_map, List.mem_filterMap, List.mem_reverse, isSome_puts?]
  constructor
  · rintro ⟨⟨key, template⟩, ⟨request, hmem, hadds⟩, rfl⟩
    exact ⟨request, hmem, template, hadds⟩
  · rintro ⟨request, hmem, template, hadds⟩
    exact ⟨(name, template), ⟨request, hmem, hadds⟩, rfl⟩

theorem config_after : (after config history).config = config := config_serveAll _ _

theorem get?_after (name : String) :
    (after config history).get? name = last? config name history := by
  rw [after, get?_serveAll]
  exact Option.or_none

theorem names_after : (after config history).names = addedNames config history := by
  refine mergeSort_eq_of_mem_iff (after config history).templates.distinct (List.nodup_dedup _) ?_
  intro name
  rw [List.mem_dedup, mem_added, Fields.mem_names, Option.isSome_iff_exists, ← get?_after]
  rfl

/-- Every answer is the one that the history gives. -/
theorem reply_after (request : Request) :
    ((after config history).serve request).2 = answer config history request := by
  cases request with
  | add name text context =>
      simp only [serve, add, config_after, answer]
      cases Template.compile config (.ofString name text) context <;> rfl
  | render name context =>
      cases hlast : last? config name history with
      | none => simp only [serve, render, get?_after, answer, hlast]
      | some template => simp only [serve, render, get?_after, answer, hlast]
  | get name => simp only [serve, get?_after, answer]
  | contains name => simp only [serve, contains, get?_after, answer]
  | names => simp only [serve, names_after, answer]

end

/-- After any requests, a name has the template that the last add of it that compiled has put
there, and has one exactly if some add of it compiled.  Every further request is answered as the
requests before it say, and changes nothing unless it adds a template.  Two adds under different
names may change places; no request after them is answered differently. -/
theorem serve_after (config : Config) (history : List Request) :
    (∀ name, (after config history).get? name = last? config name history ∧
      ((after config history).contains name = true ↔ ∃ text context,
        .add name text context ∈ history ∧
          (Template.compile config (.ofString name text) context).Succeeds)) ∧
    (∀ request, ((after config history).serve request).2 = answer config history request ∧
      (request.adds? config = none →
        ((after config history).serve request).1 = after config history)) ∧
    ∀ {name name' : String}, name ≠ name' → ∀ text text' context context' rest,
      ∃ reply reply' replies,
        ((after config history).serveAll
          (.add name text context :: .add name' text' context' :: rest)).2 =
            reply :: reply' :: replies ∧
        ((after config history).serveAll
          (.add name' text' context' :: .add name text context :: rest)).2 =
            reply' :: reply :: replies := by
  refine ⟨fun name => ⟨get?_after name, ?_⟩, fun request => ⟨reply_after request, ?_⟩, ?_⟩
  · rw [contains, get?_after]
    exact isSome_last?
  · intro hadds
    exact serve_of_adds?_eq_none (by rwa [config_after])
  · intro name name' hne text text' context context' rest
    exact replies_of_adds _ hne text text' context context' rest

/-! ## A notice board -/

namespace Board

/-- A notice has a title. -/
def notice : ObjectTy := (ObjectTy.empty "Notice").withField "title" .string

/-- A notice is put up, taken for another one that does not compile, and read. -/
def history : List Request := [
  .add "notice" "<p>#\x7btitle\x7d</p>" notice,
  .add "notice" "<p>#\x7bauthor\x7d</p>" notice,
  .render "notice" (.object [("title", .string "Closed")])]

/-- The first notice is still there; what does not compile leaves everything as it was, and a page
and a footer may be put up in either order. -/
theorem serve_after_board :
    (after {} history).contains "notice" = true ∧
    ((after {} history).serve (.add "notice" "<DIV>" notice)).1 = after {} history ∧
    ∀ rest, ∃ reply reply' replies,
      ((after {} history).serveAll
        (.add "page" "<h1>Notices</h1>" notice :: .add "footer" "<hr>" notice :: rest)).2 =
          reply :: reply' :: replies ∧
      ((after {} history).serveAll
        (.add "footer" "<hr>" notice :: .add "page" "<h1>Notices</h1>" notice :: rest)).2 =
          reply' :: reply :: replies := by
  have hcompile :
      (Template.compile {} (.ofString "notice" "<p>#\x7btitle\x7d</p>") notice).Succeeds ∧
        (Request.adds? {} (.add "notice" "<DIV>" notice)).isNone = true := by decide +kernel
  obtain ⟨hfirst, hbroken⟩ := hcompile
  obtain ⟨htemplates, hanswers, hcommute⟩ := serve_after {} history
  refine ⟨(htemplates "notice").2.2 ⟨_, notice, List.mem_cons_self, hfirst⟩, ?_, ?_⟩
  · exact (hanswers _).2 (Option.isNone_iff_eq_none.1 hbroken)
  · intro rest
    exact hcommute (by decide) _ _ _ _ rest

end Board

end Registry

end TypedTemplate
