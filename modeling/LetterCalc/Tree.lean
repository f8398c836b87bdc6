import LetterCalc.Store

/-!
# Trees

A line is evaluated through its tree.  There are five kinds of node; adding to a variable and
incrementing it before reading have none of their own, since both are assignments of a sum.

A tree has a text, in which every operation is printed in parentheses, so that the text shows the
shape of the tree: `x = 10 - 2 - 3` reads as a tree whose text is `x = (10 - (2 - 3))`.  An
assignment needs them only where it is an operand.

A tree is evaluated against a store, from left to right, and each of its effects happens once.
Evaluation stops at the first variable without a value, and the store then holds what was stored
up to there.
-/

namespace LetterCalc

/-- What a line asks the calculator to do. -/
inductive Tree where
  /-- A fixed value. -/
  | literal (value : Value)
  /-- The value of a variable. -/
  | letter (name : Char)
  /-- An operation on the values of two trees, of which the left one comes first. -/
  | binary (op : Arith) (left right : Tree)
  /-- Stores the value of a tree in a variable, and has that value. -/
  | assign (target : Char) (value : Tree)
  /-- Adds one to a variable, and has the value from before. -/
  | postIncrement (name : Char)
deriving DecidableEq, Repr

namespace Tree

/-- Adds the value of a tree to a variable: `x += e` is `x = x + e`. -/
def addAssign (target : Char) (value : Tree) : Tree :=
  assign target (binary .add (letter target) value)

/-- Adds one to a variable, and has the value from after: `++x` is `x = 1 + x`. -/
def preIncrement (name : Char) : Tree :=
  assign name (binary .add (literal 1) (letter name))

/-! ## The text of a tree -/

/-- Puts parentheses around the text of an operand if the operand is an assignment. -/
def wrapOperand (operand : Tree) (text : String) : String :=
  match operand with
  | assign _ _ => "(" ++ text ++ ")"
  | _ => text

/-- How a tree is written. -/
def text : Tree → String
  | literal value => Value.text value
  | letter name => String.singleton name
  | binary op left right =>
    "(" ++ left.wrapOperand left.text ++ " " ++ op.symbol ++ " " ++ right.wrapOperand right.text
      ++ ")"
  | assign target value => String.singleton target ++ " = " ++ value.text
  | postIncrement name => String.singleton name ++ "++"

/-! ## Evaluation -/

/-- The value of a tree, and the store afterwards. -/
def eval : Tree → Store Value → Except Failure Value × Store Value
  | literal value, s => (.ok value, s)
  | letter name, s => (s.lookup name, s)
  | binary op left right, s =>
    match left.eval s with
    | (.error failure, s) => (.error failure, s)
    | (.ok x, s) =>
      match right.eval s with
      | (.error failure, s) => (.error failure, s)
      | (.ok y, s) => (.ok (op.apply x y), s)
  | assign target value, s =>
    match value.eval s with
    | (.error failure, s) => (.error failure, s)
    | (.ok x, s) => (.ok x, s.set target x)
  | postIncrement name, s =>
    match s.lookup name with
    | .error failure => (.error failure, s)
    | .ok x => (.ok x, s.set name (x + 1))

end Tree

end LetterCalc
