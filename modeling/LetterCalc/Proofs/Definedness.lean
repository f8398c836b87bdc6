import LetterCalc.Proofs.Evaluation
import Mathlib.Data.Finset.Insert
import Mathlib.Data.Finset.Dedup

/-!
# Which variables a line needs

Whether a line has a value, and which variable it lacks if it has none, depends on the names that
are bound and not on their values.

`Tree.accesses` lists what a tree does with variables, in the order in which evaluation does it, and
`walk` goes through such a list with nothing but a set of names.  The walk stops at the first name
that is needed and not in the set.  Evaluation stops at the same place, and the names bound in the
store are then those that the walk has reached (`eval_foretold`).
-/

namespace LetterCalc

/-! ## The bound names -/

namespace Store

variable {ν : Type}

/-- The names that have a value. -/
def names (s : Store ν) : Finset Char := (s.bindings.map Prod.fst).toFinset

theorem mem_names_iff {s : Store ν} {name : Char} : name ∈ s.names ↔ (s.get? name).isSome := by
  rw [names, List.mem_toFinset, List.mem_map, get?, List.lookup_isSome_iff]
  constructor
  · rintro ⟨binding, hb, rfl⟩
    exact ⟨binding, hb, beq_self_eq_true binding.1⟩
  · rintro ⟨binding, hb, he⟩
    exact ⟨binding, hb, (beq_iff_eq.1 he).symm⟩

theorem mem_names_of_get? {s : Store ν} {name : Char} {value : ν} (h : s.get? name = some value) :
    name ∈ s.names := by
  rw [mem_names_iff, h]
  rfl

theorem not_mem_names_iff {s : Store ν} {name : Char} : name ∉ s.names ↔ s.get? name = none := by
  rw [mem_names_iff, Option.not_isSome_iff_eq_none]

theorem names_set (s : Store ν) (name : Char) (value : ν) :
    (s.set name value).names = Insert.insert name s.names := by
  ext key
  rw [Finset.mem_insert, mem_names_iff, mem_names_iff, get?_set]
  by_cases h : key = name <;> simp [h]

end Store

/-! ## The walk -/

/-- What a tree does with a variable. -/
inductive Access where
  /-- The variable is read, which it has to be bound for. -/
  | need (name : Char)
  /-- The variable is bound from here on. -/
  | bind (name : Char)
deriving DecidableEq, Repr

/-- What evaluation does with variables, in order.  An assignment binds its variable after it has
the value, and an increment needs a variable that is bound already. -/
def Tree.accesses : Tree → List Access
  | literal _ => []
  | letter name => [.need name]
  | binary _ left right => left.accesses ++ right.accesses
  | assign target value => value.accesses ++ [.bind target]
  | postIncrement name => [.need name]

/-- Goes through a list of accesses, given the names that are bound.  Answers the first name that is
needed without being bound, if there is one, and the names that are bound by then. -/
def walk (bound : Finset Char) : List Access → Except Char Unit × Finset Char
  | [] => (.ok (), bound)
  | .need name :: later => if name ∈ bound then walk bound later else (.error name, bound)
  | .bind name :: later => walk (insert name bound) later

/-- A walk goes through the first part of a list and, if nothing is missing there, through the
second. -/
theorem walk_append (bound : Finset Char) (first later : List Access) :
    walk bound (first ++ later) = andThen (walk bound first) fun _ bound => walk bound later := by
  fun_induction walk bound first with
  | case1 bound => rfl
  | case2 bound name rest hm ih => rw [List.cons_append, walk, if_pos hm, ih]
  | case3 bound name rest hm =>
    rw [List.cons_append, walk, if_neg hm]
    rfl
  | case4 bound name rest ih => rw [List.cons_append, walk, ih]

/-- No name is lost on the walk. -/
theorem subset_walk (bound : Finset Char) (accesses : List Access) :
    bound ⊆ (walk bound accesses).2 := by
  fun_induction walk bound accesses with
  | case1 bound => exact Finset.Subset.refl bound
  | case2 bound name later hm ih => exact ih
  | case3 bound name later hm => exact Finset.Subset.refl bound
  | case4 bound name later ih => exact (Finset.subset_insert name bound).trans ih

/-- The name that is missing is not bound where the walk stops. -/
theorem not_mem_walk {bound : Finset Char} {accesses : List Access} {name : Char}
    (h : (walk bound accesses).1 = .error name) : name ∉ (walk bound accesses).2 := by
  fun_induction walk bound accesses with
  | case1 bound => cases h
  | case2 bound needed later hm ih => exact ih h
  | case3 bound needed later hm =>
    cases h
    exact hm
  | case4 bound target later ih => exact ih h

/-! ## Evaluation walks through the accesses -/

/-- An effect is foretold by a walk: it has a value if the walk misses nothing, it lacks the variable
that the walk misses otherwise, and it leaves the names bound that the walk reaches. -/
abbrev Foretold {α : Type} :
    Except Failure α × Store Value → Except Char Unit × Finset Char → Prop :=
  Corresponds (fun _ _ => True) (fun failure name => failure = .undefinedVariable name)
    (fun s bound => s.names = bound)

theorem fetch_foretold (s : Store Value) (name : Char) :
    Foretold (s.fetch name) (walk s.names [.need name]) := by
  cases hg : s.get? name with
  | some value =>
    rw [Store.fetch_of_some hg, walk, if_pos (Store.mem_names_of_get? hg)]
    exact .ok trivial rfl
  | none =>
    rw [Store.fetch_of_none hg, walk, if_neg (Store.not_mem_names_iff.2 hg)]
    exact .error rfl rfl

namespace Foretold

variable {α : Type} {effect effect' : Except Failure α × Store Value}
  {walked : Except Char Unit × Finset Char}

theorem undefined_iff (h : Foretold effect walked) (name : Char) :
    effect.1 = .error (.undefinedVariable name) ↔ walked.1 = .error name := by
  cases h with
  | ok _ _ => simp
  | error hf _ => simp [hf]

theorem ok_iff (h : Foretold effect walked) :
    (∃ value, effect.1 = .ok value) ↔ walked.1 = .ok () := by
  cases h with
  | ok _ _ => simp
  | error _ _ => simp

theorem ne_invalid (h : Foretold effect walked) : effect.1 ≠ .error .invalidExpression := by
  cases h with
  | ok _ _ => simp
  | error hf _ => simp [hf]

/-- What the same walk foretells is alike but for the values. -/
theorem map_eq_map (h : Foretold effect walked) (h' : Foretold effect' walked) :
    effect.1.map (fun _ => ()) = effect'.1.map (fun _ => ()) := by
  cases h with
  | ok _ _ =>
    cases h' with
    | ok _ _ => rfl
  | error hf _ =>
    cases h' with
    | error hf' _ => rw [hf, hf']

end Foretold

/-- Evaluation does what the walk foretells. -/
theorem Tree.eval_foretold (tree : Tree) (s : Store Value) :
    Foretold (tree.eval s) (walk s.names tree.accesses) := by
  rw [eval_eq_evalOver]
  induction tree generalizing s with
  | literal value => exact .ok trivial rfl
  | letter name => exact fetch_foretold s name
  | binary op left right ihl ihr =>
    rw [evalOver, accesses, walk_append]
    refine (ihl s).andThen fun x _ s _ _ hs => ?_
    subst hs
    rw [← andThen_pure (walk s.names right.accesses)]
    exact (ihr s).andThen fun y _ s _ _ hs => .ok trivial hs
  | assign target value ih =>
    rw [evalOver, accesses, walk_append]
    refine (ih s).andThen fun x _ s _ _ hs => .ok trivial ?_
    rw [Store.names_set, hs]
  | postIncrement name =>
    -- The increment binds a name that was bound already, so the walk need not know of it.
    cases hg : s.get? name with
    | some value =>
      have hm := Store.mem_names_of_get? hg
      rw [evalOver, Store.fetch_of_some hg, accesses, walk, if_pos hm]
      refine .ok trivial ?_
      rw [Store.names_set, Finset.insert_eq_of_mem hm]
    | none =>
      rw [evalOver, Store.fetch_of_none hg, accesses, walk, if_neg (Store.not_mem_names_iff.2 hg)]
      exact .error rfl rfl

/-! ## Lines -/

namespace Calculator

theorem effect_foretold {line : String} {tree : Tree} (h : tree? line = some tree)
    (s : Store Value) : Foretold (effect s line) (walk s.names tree.accesses) := by
  rw [effect_eq, h]
  exact tree.eval_foretold s

theorem effect_of_none {line : String} (h : tree? line = none) (s : Store Value) :
    effect s line = (.error .invalidExpression, s) := by
  rw [effect_eq, h]

/-- A line is invalid exactly if it has no tree. -/
theorem invalid_iff (s : Store Value) (line : String) :
    (effect s line).1 = .error .invalidExpression ↔ tree? line = none := by
  cases ht : tree? line with
  | none => simp [effect_of_none ht s]
  | some tree => simp [(effect_foretold ht s).ne_invalid]

/-- A variable is undefined for a line only if it is bound neither before the line nor after. -/
theorem get?_of_undefined {s : Store Value} {line : String} {name : Char}
    (h : (effect s line).1 = .error (.undefinedVariable name)) :
    s.get? name = none ∧ (effect s line).2.get? name = none := by
  cases ht : tree? line with
  | none => simp [effect_of_none ht s] at h
  | some tree =>
    have hf := effect_foretold ht s
    have hm := not_mem_walk ((hf.undefined_iff name).1 h)
    have hs : (effect s line).2.names = _ := hf.state
    rw [← Store.not_mem_names_iff, ← Store.not_mem_names_iff, hs]
    exact ⟨fun hb => hm (subset_walk _ _ hb), hm⟩

/-- With the same names bound a line comes to the same end, whatever their values. -/
theorem effect_eq_of_names {s s' : Store Value} (h : s'.names = s.names) (line : String) :
    (effect s' line).1.map (fun _ => ()) = (effect s line).1.map (fun _ => ()) ∧
      (effect s' line).2.names = (effect s line).2.names := by
  cases ht : tree? line with
  | none =>
    rw [effect_of_none ht s, effect_of_none ht s']
    exact ⟨rfl, h⟩
  | some tree =>
    have hf := effect_foretold ht s
    have hf' := effect_foretold ht s'
    rw [h] at hf'
    exact ⟨hf'.map_eq_map hf, hf'.state.trans hf.state.symm⟩

/-- What comes of a line is decided by the line and by the names that are bound.

The line is invalid exactly if it is not accepted or cannot be read, and then nothing changes.
Otherwise it lacks exactly the variable that the walk through its tree misses first, which is bound
neither before nor after, and it has a value exactly if the walk misses none.  Either way it leaves
those names bound that the walk has reached. -/
theorem outcome_decided_by_bound_names (s : Store Value) (line : String) :
    ((runLine s line).result = .error .invalidExpression ↔
      Validation.check line ≠ .ok () ∨ ∃ error, (Tree.ofLine line).result = .error error) ∧
    ((runLine s line).result = .error .invalidExpression → (runLine s line).store = s) ∧
    (∀ tree, Validation.check line = .ok () → (Tree.ofLine line).result = .ok tree →
      (∀ name, (runLine s line).result = .error (.undefinedVariable name) ↔
        (walk s.names tree.accesses).1 = .error name) ∧
      ((∃ value, (runLine s line).result = .ok value) ↔
        (walk s.names tree.accesses).1 = .ok ()) ∧
      (runLine s line).store.names = (walk s.names tree.accesses).2) ∧
    (∀ name, (runLine s line).result = .error (.undefinedVariable name) →
      s.get? name = none ∧ (runLine s line).store.get? name = none) ∧
    ∀ s' : Store Value, s'.names = s.names →
      (runLine s' line).result.map (fun _ => ()) = (runLine s line).result.map (fun _ => ()) ∧
      (runLine s' line).store.names = (runLine s line).store.names := by
  refine ⟨?_, ?_, ?_, fun name => get?_of_undefined, fun s' h => effect_eq_of_names h line⟩
  · rw [← tree?_eq_none_iff]
    exact invalid_iff s line
  · intro h
    exact congrArg Prod.snd (effect_of_none ((invalid_iff s line).1 h) s)
  · intro tree hc hr
    have hf := effect_foretold (tree?_eq_some_iff.2 ⟨hc, hr⟩) s
    exact ⟨hf.undefined_iff, hf.ok_iff, hf.state⟩

/-- In `z = (y = 1) + w` the inner assignment is done before `w` is found to be missing. -/
theorem outcome_of_missing_name :
    Validation.check "z = (y = 1) + w" = .ok () ∧
      (runLine .empty "z = (y = 1) + w").result = .error (.undefinedVariable 'w') ∧
      (runLine .empty "z = (y = 1) + w").store.names = {'y'} := by
  have hc : Validation.check "z = (y = 1) + w" = .ok () := by decide +kernel
  have hr : (Tree.ofLine "z = (y = 1) + w").result = .ok (.assign 'z' (.binary .add
      (.assign 'y' (.literal 1)) (.letter 'w'))) := by decide +kernel
  obtain ⟨hundefined, -, hnames⟩ := (outcome_decided_by_bound_names .empty _).2.2.1 _ hc hr
  exact ⟨hc, (hundefined 'w').2 (by decide), hnames.trans (by decide)⟩

end Calculator

end LetterCalc
