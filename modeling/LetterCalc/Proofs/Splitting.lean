import LetterCalc.Proofs.Words
import Mathlib.Logic.Function.Iterate

/-!
# Words as the pieces of a spaced text

The words of a line can be found without a cursor: put a space before and after every parenthesis,
split the text at the separators, and leave out the empty pieces.  `wordsOf_eq_pieces` says that
this gives the words, by the induction that follows the words of a text.

What a caller sees is one answer after another.  Asking for a word answers the first of the words
that are left and leaves the others (`nextWord_eq_head?`), also when there is none.  So the words of
the line come one by one, and after the last of them there is never another.
-/

namespace LetterCalc

namespace Text

/-- The characters with a space put before and after every parenthesis. -/
def spaced (chars : List Char) : List Char :=
  chars.flatMap fun a => if a ∈ parens then [' ', a, ' '] else [a]

/-- The pieces that the separators leave of a text, without the empty ones. -/
def pieces (chars : List Char) : List (List Char) :=
  (chars.splitOnP (· ∈ separators)).filter (· ≠ [])

/-! ## Pieces -/

theorem pieces_nil : pieces [] = [] := rfl

/-- A text is split where a separator stands. -/
theorem pieces_append_separator {a : Char} (ha : a ∈ separators) (chars chars' : List Char) :
    pieces (chars ++ a :: chars') = pieces chars ++ pieces chars' := by
  have hsplit : (chars ++ a :: chars').splitOnP (· ∈ separators) =
      chars.splitOnP (· ∈ separators) ++ chars'.splitOnP (· ∈ separators) :=
    List.splitOnP_append_cons chars chars' (decide_eq_true ha)
  rw [pieces, hsplit, List.filter_append]
  rfl

/-- A separator before a text adds no piece. -/
theorem pieces_separator {a : Char} (ha : a ∈ separators) (chars : List Char) :
    pieces (a :: chars) = pieces chars :=
  pieces_append_separator ha [] chars

/-- Characters without a separator among them are one piece. -/
theorem pieces_run {run : List Char} (hne : run ≠ []) (hrun : ∀ a ∈ run, a ∉ separators) :
    pieces run = [run] := by
  have hsplit : run.splitOnP (· ∈ separators) = [run] :=
    List.splitOnP_eq_singleton fun a ha => by simpa using hrun a ha
  unfold pieces
  rw [hsplit]
  simp [hne]

/-- A piece goes on up to a separator. -/
theorem pieces_run_append {run rest : List Char} (hne : run ≠ [])
    (hrun : ∀ a ∈ run, a ∉ separators) (hrest : ∀ a ∈ rest.head?, a ∈ separators) :
    pieces (run ++ rest) = run :: pieces rest := by
  cases rest with
  | nil => rw [List.append_nil, pieces_run hne hrun, pieces_nil]
  | cons b bs =>
    have hb : b ∈ separators := hrest b rfl
    rw [pieces_append_separator hb, pieces_run hne hrun, pieces_separator hb]
    rfl

/-! ## Spacing -/

theorem spaced_append (chars chars' : List Char) :
    spaced (chars ++ chars') = spaced chars ++ spaced chars' :=
  List.flatMap_append

theorem spaced_paren {a : Char} (ha : a ∈ parens) (rest : List Char) :
    spaced (a :: rest) = ' ' :: a :: ' ' :: spaced rest := by
  simp [spaced, ha]

/-- Where no parenthesis stands nothing is put in. -/
theorem spaced_run {run : List Char} (hrun : ∀ a ∈ run, a ∉ parens) : spaced run = run := by
  induction run with
  | nil => rfl
  | cons a as ih =>
    have ha : a ∉ parens := hrun a List.mem_cons_self
    have has : spaced as = as := ih fun b hb => hrun b (List.mem_cons_of_mem a hb)
    rw [spaced, List.flatMap_cons, if_neg ha, ← spaced, has]
    rfl

theorem spaced_separator {a : Char} (ha : a ∈ separators) (rest : List Char) :
    spaced (a :: rest) = a :: spaced rest := by
  have hparen : ∀ b ∈ [a], b ∉ parens := by
    intro b hb hp
    rw [List.mem_singleton.1 hb] at hp
    exact not_mem_separators_of_mem_parens hp ha
  rw [← List.singleton_append, spaced_append, spaced_run hparen, List.singleton_append]

/-- Where a word ends, a separator comes next once the text is spaced. -/
theorem head?_spaced {rest : List Char} (hrest : EndsWord rest) :
    ∀ a ∈ (spaced rest).head?, a ∈ separators := by
  cases rest with
  | nil => simp [spaced]
  | cons b bs =>
    have hb : b ∈ separators ∨ b ∈ parens := List.mem_append.1 (hrest b rfl)
    intro a ha
    rcases hb with hb | hb
    · rw [spaced_separator hb, List.head?_cons, Option.mem_some_iff] at ha
      exact ha ▸ hb
    · rw [spaced_paren hb, List.head?_cons, Option.mem_some_iff] at ha
      rw [← ha]
      decide

end Text

/-! ## Words -/

/-- The words of a text are the pieces of the spaced text. -/
theorem wordsOf_eq_pieces (chars : List Char) :
    wordsOf chars = (Text.pieces (Text.spaced chars)).map String.ofList := by
  induction chars using wordsOf_induction with
  | nil => exact wordsOf_nil
  | separator a rest ha ih =>
    rw [wordsOf_separator ha, ih, Text.spaced_separator ha, Text.pieces_separator ha]
  | paren a rest ha ih =>
    have hspace : ' ' ∈ Text.separators := by decide
    have hsep : ∀ b ∈ [a], b ∉ Text.separators := by
      intro b hb
      rw [List.mem_singleton.1 hb]
      exact Text.not_mem_separators_of_mem_parens ha
    have hpieces : Text.pieces (Text.spaced (a :: rest)) =
        [a] :: Text.pieces (Text.spaced rest) := by
      rw [Text.spaced_paren ha, Text.pieces_separator hspace, ← List.singleton_append,
        Text.pieces_append_separator hspace, Text.pieces_run (List.cons_ne_nil a []) hsep,
        List.singleton_append]
    rw [wordsOf_paren ha, ih, hpieces, List.map_cons, String.singleton_eq_ofList]
  | run run rest hne hrun hrest ih =>
    have hsep : ∀ a ∈ run, a ∉ Text.separators :=
      fun a ha hs => hrun a ha (List.mem_append_left _ hs)
    have hparen : ∀ a ∈ run, a ∉ Text.parens :=
      fun a ha hp => hrun a ha (List.mem_append_right _ hp)
    rw [wordsOf_run hne hrun hrest, ih, Text.spaced_append, Text.spaced_run hparen,
      Text.pieces_run_append hne hsep (Text.head?_spaced hrest), List.map_cons]

/-! ## One answer after another -/

theorem dropWhile_of_firstWord?_eq_none {chars : List Char} (h : firstWord? chars = none) :
    chars.dropWhile (· ∈ Text.separators) = [] := by
  unfold firstWord? at h
  split at h
  · next hd => exact hd
  · next a as hd => split at h <;> cases h

/-- A settled cursor that is asked for a word answers the first of those it has still to deliver.
It leaves the others and is settled again, so that it can be asked once more. -/
theorem nextWord_eq_head? {c : Cursor Char} (hc : c.Settled) :
    (nextWord c).1 = (wordsFrom c).head? ∧ (nextWord c).2.Settled ∧
      wordsFrom (nextWord c).2 = (wordsFrom c).tail := by
  cases hw : firstWord? c.pending with
  | none =>
    obtain ⟨hfirst, hsettled, hpending⟩ :=
      nextWord_of_nil hc (dropWhile_of_firstWord?_eq_none hw)
    have hagain : (nextWord (nextWord c).2).1 = none := by
      rw [nextWord_fst hsettled, hpending]
      rfl
    rw [wordsFrom_of_none hfirst, wordsFrom_of_none hagain]
    exact ⟨hfirst, hsettled, rfl⟩
  | some found =>
    have hfirst : (nextWord c).1 = some found.1 := by
      rw [nextWord_fst hc, hw]
      rfl
    rw [wordsFrom_of_some hfirst]
    exact ⟨hfirst, (nextWord_snd hc hw).1, rfl⟩

/-- Of the answers that a settled cursor gives one after another, the one with number `k` is the
word with that number. -/
theorem nextWord_iterate {c : Cursor Char} (hc : c.Settled) (k : Nat) :
    (nextWord ((fun d => (nextWord d).2)^[k] c)).1 = (wordsFrom c)[k]? := by
  induction k generalizing c with
  | zero => rw [Function.iterate_zero_apply, (nextWord_eq_head? hc).1, List.head?_eq_getElem?]
  | succ k ih =>
    obtain ⟨-, hsettled, hwords⟩ := nextWord_eq_head? hc
    rw [Function.iterate_succ_apply, ih hsettled, hwords, List.getElem?_tail]

/-- The words of a line are what is left of it after a space has been put before and after every
parenthesis, the text has been split at separators and empty pieces have been left out.  Asked for
words again and again, a cursor on the line answers these in their order, and `none` ever after. -/
theorem words_eq_pieces_of_spaced (line : String) :
    words line = (Text.pieces (Text.spaced line.toList)).map String.ofList ∧
    ∀ k, (nextWord ((fun d => (nextWord d).2)^[k] (Cursor.ofString line))).1 =
      (words line)[k]? := by
  refine ⟨?_, ?_⟩
  · rw [words_eq_wordsOf]
    exact wordsOf_eq_pieces line.toList
  · intro k
    exact nextWord_iterate (Cursor.settled_ofList line.toList) k

end LetterCalc
