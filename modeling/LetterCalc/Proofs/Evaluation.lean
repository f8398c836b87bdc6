import LetterCalc.Calculator
import Mathlib.Data.List.Forall2

/-!
# The effect of lines

The effect of a line is its result together with the store that it leaves.  This file brings it into
the form in which two calculations can be compared while they run side by side.

`andThen` goes on where something has a value and stops where it failed, and evaluation is nothing
but that (`eval_eq_evalOver`).  What corresponds before one step corresponds after it
(`Corresponds.andThen`), and what each line keeps is kept by any list of lines
(`effects_correspond`).  A comparison is therefore proved node by node for the trees, and it holds
for whole runs without a further induction.

Of a line the effect depends on its tree only, if it has one (`effect_eq`).
-/

namespace LetterCalc

/-! ## Results that leave a state -/

section Effects

variable {ε φ α β γ δ σ τ ι κ : Type}

/-- Goes on with a value and the state it was found in, or stops with the failure. -/
def andThen (first : Except ε α × σ) (next : α → σ → Except ε β × σ) : Except ε β × σ :=
  match first with
  | (.ok x, s) => next x s
  | (.error failure, s) => (.error failure, s)

@[simp] theorem andThen_ok (x : α) (s : σ) (next : α → σ → Except ε β × σ) :
    andThen (.ok x, s) next = next x s := rfl

/-- Going on with nothing to do changes nothing. -/
theorem andThen_pure (effect : Except ε α × σ) :
    andThen effect (fun x s => (.ok x, s)) = effect := by
  rcases effect with ⟨failure | x, s⟩ <;> rfl

/-- What holds of the state where the first part ends, and is kept by all that can follow, holds of
the state in the end. -/
theorem andThen_keeps (P : σ → Prop) {first : Except ε α × σ}
    {next : α → σ → Except ε β × σ} (h : P first.2) (hnext : ∀ x s, P s → P (next x s).2) :
    P (andThen first next).2 := by
  rcases first with ⟨failure | x, s⟩
  · exact h
  · exact hnext x s h

/-- Two effects correspond: either both have a value or both fail, the values or the failures are
related as given, and so are the states. -/
inductive Corresponds (V : α → β → Prop) (F : ε → φ → Prop) (S : σ → τ → Prop) :
    Except ε α × σ → Except φ β × τ → Prop
  | ok {x : α} {y : β} {s : σ} {t : τ} (value : V x y) (state : S s t) :
      Corresponds V F S (.ok x, s) (.ok y, t)
  | error {e : ε} {f : φ} {s : σ} {t : τ} (failure : F e f) (state : S s t) :
      Corresponds V F S (.error e, s) (.error f, t)

variable {V : α → β → Prop} {W : γ → δ → Prop} {F : ε → φ → Prop} {S : σ → τ → Prop}

theorem Corresponds.state {x : Except ε α × σ} {y : Except φ β × τ} (h : Corresponds V F S x y) :
    S x.2 y.2 := by
  cases h with
  | ok _ hs => exact hs
  | error _ hs => exact hs

/-- Effects that correspond by equality have the same result. -/
theorem Corresponds.result_eq {x : Except ε α × σ} {y : Except ε α × τ}
    (h : Corresponds Eq Eq S x y) : x.1 = y.1 := by
  cases h with
  | ok hv _ => rw [hv]
  | error hf _ => rw [hf]

/-- Effects that correspond go on to effects that correspond. -/
theorem Corresponds.andThen {x : Except ε α × σ} {y : Except φ β × τ}
    {next : α → σ → Except ε γ × σ} {next' : β → τ → Except φ δ × τ}
    (h : Corresponds V F S x y)
    (hnext : ∀ a b s t, V a b → S s t → Corresponds W F S (next a s) (next' b t)) :
    Corresponds W F S (andThen x next) (andThen y next') := by
  cases h with
  | ok hv hs => exact hnext _ _ _ _ hv hs
  | error hf hs => exact .error hf hs

/-- The effects of one input after another, each on the state that the one before has left. -/
def effects (step : σ → ι → Except ε α × σ) : σ → List ι → List (Except ε α × σ)
  | _, [] => []
  | s, input :: inputs => step s input :: effects step (step s input).2 inputs

/-- Two runs correspond if their steps do. -/
theorem effects_correspond {step : σ → ι → Except ε α × σ} {step' : τ → κ → Except φ β × τ}
    (f : ι → κ)
    (hstep : ∀ s t input, S s t → Corresponds V F S (step s input) (step' t (f input)))
    (inputs : List ι) {s : σ} {t : τ} (h : S s t) :
    List.Forall₂ (Corresponds V F S) (effects step s inputs)
      (effects step' t (inputs.map f)) := by
  induction inputs generalizing s t with
  | nil => exact .nil
  | cons input inputs ih =>
    have hfirst := hstep s t input h
    exact .cons hfirst (ih hfirst.state)

end Effects

/-! ## Evaluation -/

namespace Store

variable {ν : Type} {s : Store ν} {name : Char}

/-- Reads a variable. -/
def fetch (s : Store ν) (name : Char) : Except Failure ν × Store ν :=
  match s.get? name with
  | some value => (.ok value, s)
  | none => (.error (.undefinedVariable name), s)

theorem fetch_of_some {value : ν} (h : s.get? name = some value) :
    s.fetch name = (.ok value, s) := by
  rw [fetch, h]

theorem fetch_of_none (h : s.get? name = none) :
    s.fetch name = (.error (.undefinedVariable name), s) := by
  rw [fetch, h]

/-- Reading a variable in one store corresponds to reading one in another if their values do. -/
theorem fetch_corresponds {μ : Type} {t : Store μ} {name' : Char} {V : ν → μ → Prop}
    {F : Failure → Failure → Prop} {S : Store ν → Store μ → Prop} (hs : S s t)
    (hv : Option.Rel V (s.get? name) (t.get? name'))
    (hf : F (.undefinedVariable name) (.undefinedVariable name')) :
    Corresponds V F S (s.fetch name) (t.fetch name') := by
  unfold fetch
  generalize s.get? name = x, t.get? name' = y at hv
  cases hv with
  | some hv => exact .ok hv hs
  | none => exact .error hf hs

theorem fetch_eq_lookup (s : Store Value) (name : Char) : s.fetch name = (s.lookup name, s) := by
  rw [fetch, lookup]
  cases s.get? name <;> rfl

end Store

namespace Tree

/-- Evaluation over any kind of values, where `ofValue` says what a literal stands for. -/
def evalOver {ν : Type} [Add ν] [Sub ν] [Mul ν] [OfNat ν 1] (ofValue : Value → ν) :
    Tree → Store ν → Except Failure ν × Store ν
  | literal value, s => (.ok (ofValue value), s)
  | letter name, s => s.fetch name
  | binary op left right, s =>
    andThen (left.evalOver ofValue s) fun x s =>
      andThen (right.evalOver ofValue s) fun y s => (.ok (op.apply x y), s)
  | assign target value, s =>
    andThen (value.evalOver ofValue s) fun x s => (.ok x, s.set target x)
  | postIncrement name, s => andThen (s.fetch name) fun x s => (.ok x, s.set name (x + 1))

/-- Evaluation is evaluation over 64-bit words. -/
theorem eval_eq_evalOver (tree : Tree) (s : Store Value) : tree.eval s = tree.evalOver id s := by
  induction tree generalizing s with
  | literal value => rfl
  | letter name => rw [eval, evalOver, Store.fetch_eq_lookup]
  | binary op left right ihl ihr =>
    rw [eval, evalOver, ← ihl]
    rcases left.eval s with ⟨failure | x, t⟩
    · rfl
    · simp only [andThen_ok, ← ihr]
      rcases right.eval t with ⟨failure | y, u⟩ <;> rfl
  | assign target value ih =>
    rw [eval, evalOver, ← ih]
    rcases value.eval s with ⟨failure | x, t⟩ <;> rfl
  | postIncrement name =>
    rw [eval, evalOver, Store.fetch_eq_lookup]
    cases s.lookup name <;> rfl

end Tree

/-! ## Lines -/

namespace Calculator

/-- The tree that a line runs, provided that it is accepted and can be read. -/
def tree? (line : String) : Option Tree :=
  match Validation.check line with
  | .ok () => (Tree.ofLine line).result.toOption
  | .error _ => none

theorem tree?_eq_some_iff {line : String} {tree : Tree} : tree? line = some tree ↔
    Validation.check line = .ok () ∧ (Tree.ofLine line).result = .ok tree := by
  unfold tree?
  cases hc : Validation.check line with
  | error reason => simp
  | ok _ => cases hr : (Tree.ofLine line).result <;> simp [Except.toOption]

theorem tree?_eq_none_iff {line : String} : tree? line = none ↔
    Validation.check line ≠ .ok () ∨ ∃ error, (Tree.ofLine line).result = .error error := by
  unfold tree?
  cases hc : Validation.check line with
  | error reason => simp
  | ok _ => cases hr : (Tree.ofLine line).result <;> simp [Except.toOption]

/-- What a line answers and the store that it leaves. -/
def effect (s : Store Value) (line : String) : Except Failure Value × Store Value :=
  ((runLine s line).result, (runLine s line).store)

/-- The effect of a line is that of its tree; without one, the line is invalid and changes
nothing. -/
theorem effect_eq (s : Store Value) (line : String) :
    effect s line =
      match tree? line with
      | some tree => tree.eval s
      | none => (.error .invalidExpression, s) := by
  unfold effect runLine accepts tree?
  cases hc : Validation.check line with
  | error reason => rfl
  | ok _ =>
    cases hr : (Tree.ofLine line).result with
    | error error => simp [hr, Except.toOption, Failure.ofReadError]
    | ok tree => simp [hr, Except.toOption, evaluate]

/-- An accepted line that has a tree does what the tree does. -/
theorem runLine_of_result {line : String} {tree : Tree}
    (hc : Validation.check line = .ok ()) (h : (Tree.ofLine line).result = .ok tree)
    (s : Store Value) :
    (runLine s line).result = (tree.eval s).1 ∧ (runLine s line).store = (tree.eval s).2 := by
  simp [runLine, accepts, hc, h, evaluate]

end Calculator

end LetterCalc
