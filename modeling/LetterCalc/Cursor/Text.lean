import LetterCalc.Cursor.Matching
import LetterCalc.Text.Alphabet

/-!
# A cursor over characters

The operations that read text: words of a fixed spelling, separators, runs of digits and single
letters.  They come in two kinds.  `acceptText` and `skipSeparators` only move the cursor;
`scanDigits` and `scanLetter` also start a new view behind what they have read.
-/

namespace LetterCalc

namespace Cursor

/-- A cursor before the first character of a text. -/
def ofString (text : String) : Cursor Char := ofList text.toList

/-- Answers what has been read as a text and forgets it. -/
def takeText (c : Cursor Char) : String × Cursor Char := (String.ofList c.view, c.forget)

/-- Moves over the given text or not at all, and says which. -/
def acceptText (c : Cursor Char) (text : String) : Bool × Cursor Char :=
  c.acceptSeq text.toList

/-- Moves over all separators that come next, and says whether there was one. -/
def skipSeparators (c : Cursor Char) : Bool × Cursor Char := c.skipOver Text.separators

/-- Moves over all separators that come next and forgets everything read so far. -/
def forgetSeparators (c : Cursor Char) : Cursor Char := c.skipSeparators.2.forget

/-- Moves over the digits that come next and, if there are any, takes the text of everything read
since the last `forget`, whether or not it is digits. -/
def scanDigits (c : Cursor Char) : Option String × Cursor Char :=
  let skipped := c.skipOver Text.digits
  if skipped.1 then (some skipped.2.takeText.1, skipped.2.takeText.2)
  else (none, skipped.2)

/-- Moves over one letter and forgets everything read so far; answers the letter. -/
def scanLetter (c : Cursor Char) : Option Char × Cursor Char :=
  let accepted := c.acceptAny Text.letters
  match accepted.1 with
  | some letter => (some letter, accepted.2.forget)
  | none => (none, accepted.2)

@[simp] theorem stock_ofString (text : String) : (ofString text).stock = text.toList := rfl

@[simp] theorem pending_ofString (text : String) : (ofString text).pending = text.toList := rfl

@[simp] theorem stock_acceptText (c : Cursor Char) (text : String) :
    (c.acceptText text).2.stock = c.stock :=
  c.stock_acceptSeq _

@[simp] theorem stock_skipSeparators (c : Cursor Char) : c.skipSeparators.2.stock = c.stock :=
  c.stock_skipOver _

/-- Forgetting a view that holds an item leaves a smaller stock. -/
theorem length_stock_forget_lt {α : Type} {c : Cursor α} (h : c.view ≠ []) :
    c.forget.stock.length < c.stock.length := by
  have hl := congrArg List.length c.view_append_stock_forget
  have hv := List.length_pos_iff.2 h
  rw [List.length_append] at hl
  omega

/-- Forgetting never adds to the stock. -/
theorem length_stock_forget_le {α : Type} (c : Cursor α) :
    c.forget.stock.length ≤ c.stock.length := by
  have hl := congrArg List.length c.view_append_stock_forget
  rw [List.length_append] at hl
  omega

theorem length_stock_forgetSeparators_le (c : Cursor Char) :
    c.forgetSeparators.stock.length ≤ c.stock.length := by
  have h := c.skipSeparators.2.length_stock_forget_le
  rwa [stock_skipSeparators] at h

end Cursor

end LetterCalc
