import LetterCalc.Arithmetic
import LetterCalc.Cursor.Text

/-!
# Words and tokens

A line is cut into words at separators.  A parenthesis is always a word of its own, whatever
stands beside it: the words of `(x+1)` are `(`, `x+1` and `)`.

A word means something to the calculator when it is, as a whole, a number, a letter, a letter
with `++` before or behind it, an operator or a parenthesis.  Each of these shapes is recognised by
reading it off a cursor and asking that nothing is left.

A token is a word together with what it means.  Every word is a token: one of no known shape is
kept as it stands, since a reader may still want to name it in a message.
-/

namespace LetterCalc

/-! ## The words of a line -/

/-- Reads the next word: one parenthesis, or everything up to a separator or a parenthesis.
There is none when only separators are left. -/
def nextWord (c : Cursor Char) : Option String × Cursor Char :=
  let accepted := c.forgetSeparators.acceptAny Text.parens
  match accepted.1 with
  | some _ => (some accepted.2.takeText.1, accepted.2.takeText.2)
  | none =>
    let moved := accepted.2.skipUntil Text.stops
    if moved.1 then (some moved.2.takeText.1, moved.2.takeText.2) else (none, moved.2)

/-- Every word takes at least one character off the stock. -/
theorem length_stock_nextWord_lt {c : Cursor Char} {word : String}
    (h : (nextWord c).1 = some word) : (nextWord c).2.stock.length < c.stock.length := by
  refine Nat.lt_of_lt_of_le ?_ c.length_stock_forgetSeparators_le
  have hs := c.forgetSeparators.stock_acceptAny Text.parens
  unfold nextWord at h ⊢
  simp only at h ⊢
  split
  · next a ha =>
    have hl := Cursor.length_stock_forget_lt (Cursor.view_acceptIf_ne_nil ha)
    rwa [show (c.forgetSeparators.acceptIf _).2.stock = _ from hs] at hl
  · next ha =>
    rw [ha] at h
    have hu := (c.forgetSeparators.acceptAny Text.parens).2.stock_skipUntil Text.stops
    split
    · next hm =>
      have hl := Cursor.length_stock_forget_lt (Cursor.view_ne_nil_of_skipUntil hm)
      rwa [hu, hs] at hl
    · next hm =>
      simp [hm] at h

/-- The words that a cursor has still to deliver. -/
def wordsFrom (c : Cursor Char) : List String :=
  match _h : (nextWord c).1 with
  | some word => word :: wordsFrom (nextWord c).2
  | none => []
termination_by c.stock.length
decreasing_by exact length_stock_nextWord_lt (by assumption)

/-- The words of a line, from left to right. -/
def words (line : String) : List String := wordsFrom (Cursor.ofString line)

/-! ## The shapes of words -/

namespace Shape

/-- What `scan` finds in a word, provided that it reads the word to its end. -/
def whole {β : Type} (word : String) (scan : Cursor Char → Option β × Cursor Char) : Option β :=
  let scanned := scan (Cursor.ofString word)
  if scanned.2.atEnd.1 then scanned.1 else none

/-- Reads `++` and a letter. -/
def scanPreIncrement (c : Cursor Char) : Option Char × Cursor Char :=
  let accepted := c.acceptText "++"
  if accepted.1 then accepted.2.scanLetter else (none, accepted.2)

/-- Reads a letter and `++`. -/
def scanPostIncrement (c : Cursor Char) : Option Char × Cursor Char :=
  let scanned := c.scanLetter
  match scanned.1 with
  | some letter =>
    let accepted := scanned.2.acceptText "++"
    (if accepted.1 then some letter else none, accepted.2)
  | none => (none, scanned.2)

/-- The letter that a word consists of. -/
def letter? (word : String) : Option Char := whole word Cursor.scanLetter

/-- The letter of a word such as `++x`. -/
def preIncrement? (word : String) : Option Char := whole word scanPreIncrement

/-- The letter of a word such as `x++`. -/
def postIncrement? (word : String) : Option Char := whole word scanPostIncrement

/-- Whether a word is a number: one or more digits. -/
def isNumber (word : String) : Bool := (whole word Cursor.scanDigits).isSome

/-- Whether a word is a variable. -/
def isLetter (word : String) : Bool := (letter? word).isSome

/-- Whether a word increments a variable before reading it. -/
def isPreIncrement (word : String) : Bool := (preIncrement? word).isSome

/-- Whether a word increments a variable after reading it. -/
def isPostIncrement (word : String) : Bool := (postIncrement? word).isSome

/-- Whether a word increments a variable. -/
def isIncrement (word : String) : Bool := isPreIncrement word || isPostIncrement word

/-- Whether a word is an operator. -/
def isOperator (word : String) : Bool := (Operator.ofText? word).isSome

/-- Whether a word opens a group. -/
def isOpenParen (word : String) : Bool := word = "("

/-- Whether a word closes a group. -/
def isCloseParen (word : String) : Bool := word = ")"

/-- Whether a word is an operand: a number, a variable or an increment. -/
def isOperand (word : String) : Bool := isNumber word || isLetter word || isIncrement word

end Shape

/-! ## Tokens -/

/-- A word, classified by its shape. -/
inductive Token where
  /-- A run of digits. -/
  | number (digits : String)
  /-- A variable. -/
  | letter (name : Char)
  /-- A variable with `++` before it. -/
  | preIncrement (name : Char)
  /-- A variable with `++` behind it. -/
  | postIncrement (name : Char)
  /-- An operator. -/
  | operator (op : Operator)
  /-- The parenthesis that opens a group. -/
  | openParen
  /-- The parenthesis that closes a group. -/
  | closeParen
  /-- A word of no known shape. -/
  | other (text : String)
deriving DecidableEq, Repr

namespace Token

/-- Classifies a word. -/
def ofText (word : String) : Token :=
  if Shape.isNumber word then number word
  else if let some name := Shape.letter? word then letter name
  else if let some name := Shape.preIncrement? word then preIncrement name
  else if let some name := Shape.postIncrement? word then postIncrement name
  else if let some op := Operator.ofText? word then operator op
  else if Shape.isOpenParen word then openParen
  else if Shape.isCloseParen word then closeParen
  else other word

/-- How a token is written. -/
def text : Token → String
  | number digits => digits
  | letter name => String.singleton name
  | preIncrement name => "++" ++ String.singleton name
  | postIncrement name => String.singleton name ++ "++"
  | operator op => op.symbol
  | openParen => "("
  | closeParen => ")"
  | other text => text

/-- Whether a token stands for a value by itself. -/
def isOperand : Token → Bool
  | number _ | letter _ | preIncrement _ | postIncrement _ => true
  | operator _ | openParen | closeParen | other _ => false

/-- The tokens of a line. -/
def ofLine (line : String) : List Token := (words line).map ofText

end Token

end LetterCalc
