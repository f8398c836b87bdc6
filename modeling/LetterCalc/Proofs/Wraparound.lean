import LetterCalc.Proofs.Evaluation

/-!
# Wraparound is reduction

The calculator computes with signed words of 64 bits, and every operation wraps around.  Over a
whole run this is the same as computing with unbounded integers and reducing what is to be seen
modulo `2 ^ 64` into the signed range.

Reduction respects the operations (`Reduces.apply`), so it can be put off from one operation to the
next, through the store and from line to line.  What does not depend on values is the same in both
runs: which lines are accepted, which trees they have and which variables are undefined.
-/

namespace LetterCalc

/-! ## Reduction -/

/-- The number of words, which is `2 ^ 64`. -/
def Value.modulus : Nat := 18446744073709551616

/-- The word `value` is what is left of the integer `x` after reduction modulo `2 ^ 64` into the
signed range. -/
def Reduces (x : Int) (value : Value) : Prop := value.toInt = x.bmod Value.modulus

namespace Reduces

theorem iff_eq_ofInt {x : Int} {value : Value} : Reduces x value ↔ value = Int64.ofInt x := by
  have hmodulus : Value.modulus = Int64.size := rfl
  rw [Reduces, hmodulus, ← Int64.toInt_ofInt, Int64.toInt_inj]

theorem toInt (value : Value) : Reduces value.toInt value :=
  iff_eq_ofInt.2 (Int64.ofInt_toInt value).symm

/-- Reduction can be put off until after an operation. -/
theorem apply {x y : Int} {v w : Value} (op : Arith) (hx : Reduces x v) (hy : Reduces y w) :
    Reduces (op.apply x y) (op.apply v w) := by
  rw [iff_eq_ofInt] at hx hy ⊢
  subst hx hy
  cases op with
  | add => exact (Int64.ofInt_add x y).symm
  | sub => exact (Int64.ofInt_sub x y).symm
  | mul => exact (Int64.ofInt_mul x y).symm

theorem succ {x : Int} {v : Value} (h : Reduces x v) : Reduces (x + 1) (v + 1) :=
  apply .add h (toInt 1)

end Reduces

/-- The same names are bound, and the words are the reduced integers. -/
def ReducesAll (ideal : Store Int) (s : Store Value) : Prop :=
  ∀ name, Option.Rel Reduces (ideal.get? name) (s.get? name)

namespace ReducesAll

variable {ideal : Store Int} {s : Store Value}

theorem empty : ReducesAll .empty .empty := fun _ => .none

theorem set {x : Int} {value : Value} (h : ReducesAll ideal s) (hv : Reduces x value)
    (name : Char) : ReducesAll (ideal.set name x) (s.set name value) := by
  intro key
  rw [Store.get?_set, Store.get?_set]
  split
  · exact .some hv
  · exact h key

theorem fetch (h : ReducesAll ideal s) (name : Char) :
    Corresponds Reduces Eq ReducesAll (ideal.fetch name) (s.fetch name) :=
  Store.fetch_corresponds h (h name) rfl

end ReducesAll

/-! ## Evaluation -/

namespace Tree

/-- Evaluation over the integers, without a word size. -/
def evalExact (tree : Tree) (ideal : Store Int) : Except Failure Int × Store Int :=
  tree.evalOver Int64.toInt ideal

/-- Evaluation over words is evaluation over the integers, reduced. -/
theorem evalExact_reduces (tree : Tree) {ideal : Store Int} {s : Store Value}
    (h : ReducesAll ideal s) :
    Corresponds Reduces Eq ReducesAll (tree.evalExact ideal) (tree.eval s) := by
  rw [eval_eq_evalOver, evalExact]
  induction tree generalizing ideal s with
  | literal value => exact .ok (.toInt value) h
  | letter name => exact h.fetch name
  | binary op left right ihl ihr =>
    refine (ihl h).andThen fun x v _ _ hx h => ?_
    exact (ihr h).andThen fun y w _ _ hy h => .ok (hx.apply op hy) h
  | assign target value ih =>
    exact (ih h).andThen fun x v _ _ hx h => .ok hx (h.set hx target)
  | postIncrement name =>
    exact (h.fetch name).andThen fun x v _ _ hx h => .ok hx (h.set hx.succ name)

end Tree

/-! ## Lines -/

namespace Calculator

/-- The effect of a line if values are not limited.  The line is checked and read as ever, and a
number in it has to fit into a word, but its tree is evaluated over the integers. -/
def exactEffect (ideal : Store Int) (line : String) : Except Failure Int × Store Int :=
  match tree? line with
  | some tree => tree.evalExact ideal
  | none => (.error .invalidExpression, ideal)

theorem exactEffect_reduces {ideal : Store Int} {s : Store Value} (line : String)
    (h : ReducesAll ideal s) :
    Corresponds Reduces Eq ReducesAll (exactEffect ideal line) (effect s line) := by
  rw [effect_eq, exactEffect]
  cases tree? line with
  | none => exact .error rfl h
  | some tree => exact tree.evalExact_reduces h

/-- Over any list of lines the calculator does what it would do over the integers, reduced.  Each
line has a value in both runs or fails in both for the same reason.  The value is the reduced value,
and the store binds the same names, each to the reduced value. -/
theorem run_reduces_exact_run (lines : List String) :
    List.Forall₂ (Corresponds Reduces Eq ReducesAll)
      (effects exactEffect .empty lines) (effects effect .empty lines) := by
  have hrun := effects_correspond id (fun _ _ line => exactEffect_reduces line) lines
    ReducesAll.empty
  rwa [List.map_id] at hrun

-- The overflow of the first line is fed back through the store and undone by the second.
example :
    (effects effect .empty ["y = x = 9223372036854775807 + 1", "z = x - 1"]).map Prod.fst =
        [.ok (-9223372036854775808), .ok 9223372036854775807] ∧
      (effects exactEffect .empty ["y = x = 9223372036854775807 + 1", "z = x - 1"]).map Prod.fst =
        [.ok 9223372036854775808, .ok 9223372036854775807] := by
  decide +kernel

end Calculator

end LetterCalc
