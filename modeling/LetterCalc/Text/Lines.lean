/-!
# The lines of a text

A line ends at a line feed, and a carriage return right before the line feed belongs to the end of
the line.  What follows the last line feed is a line too unless it is empty; it keeps a carriage
return at its end, since no line feed follows.

A text that is made by ending lines has these lines (`lines_unlines`), provided that no line holds a
line feed or ends in a carriage return, since then it would look as if it were ended before.
-/

namespace LetterCalc

namespace Text

/-- Drops one carriage return from the end of a reversed line. -/
def dropReturn : List Char → List Char
  | '\r' :: reversed => reversed
  | reversed => reversed

/-- The lines of a text, given the characters of the current line from last to first. -/
def linesFrom (reversed : List Char) : List Char → List String
  | [] => if reversed.isEmpty then [] else [String.ofList reversed.reverse]
  | c :: chars =>
    if c = '\n' then String.ofList (dropReturn reversed).reverse :: linesFrom [] chars
    else linesFrom (c :: reversed) chars

/-- The lines of a text, without their ends. -/
def lines (text : String) : List String := linesFrom [] text.toList

/-- The text in which each of the lines is followed by a line feed. -/
def unlines (lines : List String) : String := String.join (lines.map (· ++ "\n"))

/-! ## Ended lines -/

/-- The characters up to a line feed belong to the current line. -/
theorem linesFrom_append {run : List Char} (h : '\n' ∉ run) (reversed rest : List Char) :
    linesFrom reversed (run ++ rest) = linesFrom (run.reverse ++ reversed) rest := by
  induction run generalizing reversed with
  | nil => rfl
  | cons c run ih =>
    rw [List.mem_cons, not_or] at h
    rw [List.cons_append, linesFrom, if_neg (Ne.symm h.1), ih h.2, List.reverse_cons,
      List.append_assoc, List.singleton_append]

theorem dropReturn_of_head? {reversed : List Char} (h : reversed.head? ≠ some '\r') :
    dropReturn reversed = reversed := by
  unfold dropReturn
  split
  · exact absurd rfl h
  · rfl

/-- A line with its end comes off the front of a text, unless the line itself looks as if it were
ended. -/
theorem linesFrom_line {line : List Char} (hfeed : '\n' ∉ line)
    (hreturn : line.getLast? ≠ some '\r') (rest : List Char) :
    linesFrom [] (line ++ '\n' :: rest) = String.ofList line :: linesFrom [] rest := by
  have hdrop : dropReturn line.reverse = line.reverse :=
    dropReturn_of_head? (by rwa [List.head?_reverse])
  rw [linesFrom_append hfeed, List.append_nil, linesFrom, if_pos rfl, hdrop, List.reverse_reverse]

theorem toList_unlines (ls : List String) :
    (unlines ls).toList = ls.flatMap fun line => line.toList ++ ['\n'] := by
  simp [unlines, String.toList_join, List.flatMap_map]

/-- Lines that are ended in a text are the lines of the text. -/
theorem lines_unlines {ls : List String} (hfeed : ∀ line ∈ ls, '\n' ∉ line.toList)
    (hreturn : ∀ line ∈ ls, line.toList.getLast? ≠ some '\r') : lines (unlines ls) = ls := by
  rw [lines, toList_unlines]
  induction ls with
  | nil => rfl
  | cons line ls ih =>
    rw [List.forall_mem_cons] at hfeed hreturn
    rw [List.flatMap_cons, List.append_assoc, List.singleton_append,
      linesFrom_line hfeed.1 hreturn.1, ih hfeed.2 hreturn.2, String.ofList_toList]

end Text

end LetterCalc
