/-!
# Values and operators

The calculator computes with signed words of 64 bits.  A number in a line is read as a natural
number first and has a value only if that number fits.

Two kinds of operator stand between the operands of a line: the arithmetic operations, which
combine two values, and the two assignments, which take a variable on their left.
-/

namespace LetterCalc

/-! ## Values -/

/-- What a variable holds and a line yields: a signed word of 64 bits. -/
abbrev Value := Int64

namespace Value

/-- The decimal form of a value, with `-` before a negative one. -/
def text (value : Value) : String := toString value.toInt

/-- The number that a run of digits stands for. -/
def natOfDigits (digits : String) : Nat := Nat.ofDigitChars 10 digits.toList 0

/-- The largest value, which is `2 ^ 63 - 1`. -/
def largest : Nat := 9223372036854775807

/-- The value of a run of digits, provided that it is not too large. -/
def ofDigits? (digits : String) : Option Value :=
  if natOfDigits digits ≤ largest then some (Int64.ofNat (natOfDigits digits)) else none

/-- A number that has a value is that value. -/
theorem toInt_of_ofDigits? {digits : String} {value : Value} (h : ofDigits? digits = some value) :
    value.toInt = natOfDigits digits := by
  unfold ofDigits? at h
  split at h
  · next hn =>
    cases h
    exact Int64.toInt_ofNat_of_lt (Nat.lt_succ_of_le hn)
  · cases h

/-- Reading the decimal form of a natural number gives the number back. -/
theorem natOfDigits_toString (n : Nat) : natOfDigits (toString n) = n := by
  rw [natOfDigits, Nat.toString_eq_ofList_toDigits, String.toList_ofList]
  exact Nat.ofDigitChars_ten_toDigits

end Value

/-! ## Operators -/

/-- The arithmetic operations. -/
inductive Arith where
  | add
  | sub
  | mul
deriving DecidableEq, Repr

namespace Arith

/-- The value of an operation.  Over 64-bit words it is reduced modulo `2 ^ 64` into the signed
range. -/
def apply {ν : Type} [Add ν] [Sub ν] [Mul ν] : Arith → ν → ν → ν
  | add, x, y => x + y
  | sub, x, y => x - y
  | mul, x, y => x * y

/-- The sign of an operation. -/
def symbol : Arith → String
  | add => "+"
  | sub => "-"
  | mul => "*"

end Arith

/-- The operators of the language. -/
inductive Operator where
  /-- One of the arithmetic operations. -/
  | arith (op : Arith)
  /-- Stores the right side in the variable on the left. -/
  | assign
  /-- Adds the right side to the variable on the left. -/
  | addAssign
deriving DecidableEq, Repr

namespace Operator

/-- How an operator is written. -/
def symbol : Operator → String
  | arith op => op.symbol
  | assign => "="
  | addAssign => "+="

/-- The operator that a word spells, if it spells one. -/
def ofText? (text : String) : Option Operator :=
  match text with
  | "+" => some (arith .add)
  | "-" => some (arith .sub)
  | "*" => some (arith .mul)
  | "=" => some assign
  | "+=" => some addAssign
  | _ => none

@[simp] theorem ofText?_symbol (op : Operator) : ofText? op.symbol = some op := by
  rcases op with ⟨⟨⟩⟩ | _ | _ <;> rfl

theorem symbol_of_ofText? {text : String} {op : Operator} (h : ofText? text = some op) :
    op.symbol = text := by
  unfold ofText? at h
  split at h <;> cases h <;> rfl

/-- A word spells an operator exactly when it is the operator's symbol. -/
theorem ofText?_eq_some_iff {text : String} {op : Operator} :
    ofText? text = some op ↔ op.symbol = text :=
  ⟨symbol_of_ofText?, fun h => h ▸ ofText?_symbol op⟩

end Operator

end LetterCalc
