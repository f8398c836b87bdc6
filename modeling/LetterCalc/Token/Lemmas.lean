import LetterCalc.Cursor.Lemmas
import LetterCalc.Token

/-!
# How words are spelled

A word has a shape exactly when it is spelled that way as a whole: `letter?_eq_some_iff`,
`preIncrement?_eq_some_iff`, `postIncrement?_eq_some_iff` and `isNumber_iff` say so.  Hence nothing
of a word is lost when it is classified: the text of a word's token is the word (`text_ofText`).
-/

namespace LetterCalc

namespace Cursor

/-! ## Reading letters, digits and fixed texts -/

theorem atEnd_fst {α : Type} (c : Cursor α) : c.atEnd.1 = c.pending.isEmpty := by
  rw [atEnd, peek_fst]
  cases c.pending <;> rfl

theorem scanLetter_fst (c : Cursor Char) :
    c.scanLetter.1 = c.pending.head?.filter (· ∈ Text.letters) := by
  rw [← acceptIf_fst, scanLetter]
  show _ = (c.acceptAny Text.letters).1
  cases (c.acceptAny Text.letters).1 <;> rfl

/-- Reading a letter leaves what comes behind it, with a new view. -/
theorem scanLetter_snd {c : Cursor Char} {letter : Char} (hc : c.Settled)
    (h : c.scanLetter.1 = some letter) :
    c.scanLetter.2.Settled ∧ c.scanLetter.2.pending = c.pending.tail := by
  have ha : (c.acceptAny Text.letters).1 = some letter := by
    rw [acceptAny, acceptIf_fst, ← scanLetter_fst, h]
  have hs : (c.acceptAny Text.letters).2.Settled := settled_acceptIf _ hc
  have he : c.scanLetter.2 = (c.acceptAny Text.letters).2.forget := by
    unfold scanLetter
    simp only [ha]
  rw [he]
  refine ⟨settled_forget _, ?_⟩
  rw [pending_forget hs, acceptAny, (next_of_acceptIf ha).2.2, pending_next]

/-- Digits are found exactly when the next character is one. -/
theorem scanDigits_fst (c : Cursor Char) :
    c.scanDigits.1.isSome = c.pending.head?.any (· ∈ Text.digits) := by
  rw [← skipOver_fst, scanDigits]
  cases (c.skipOver Text.digits).1 <;> rfl

/-- Reading digits leaves what comes behind them. -/
theorem pending_scanDigits {c : Cursor Char} (hc : c.Settled) :
    c.scanDigits.2.pending = c.pending.dropWhile (· ∈ Text.digits) := by
  rw [← pending_skipOver Text.digits hc, scanDigits]
  cases (c.skipOver Text.digits).1
  · rfl
  · exact pending_forget (settled_skipOver Text.digits hc)

theorem acceptText_fst_iff {c : Cursor Char} {text : String} :
    (c.acceptText text).1 = true ↔ ∃ rest, c.pending = text.toList ++ rest := by
  rw [acceptText, acceptSeq_fst_iff]
  exact ⟨fun ⟨rest, h⟩ => ⟨rest, h.symm⟩, fun ⟨rest, h⟩ => ⟨rest, h.symm⟩⟩

theorem pending_acceptText {c : Cursor Char} {text : String} {rest : List Char}
    (h : c.pending = text.toList ++ rest) : (c.acceptText text).2.pending = rest :=
  pending_acceptSeq h

theorem settled_ofString (text : String) : (ofString text).Settled := settled_ofList _

end Cursor

namespace Shape

/-! ## What a word of each shape looks like -/

/-- A scan finds something in a whole word exactly when it finds it and leaves nothing. -/
theorem whole_eq_some_iff {β : Type} {word : String}
    {scan : Cursor Char → Option β × Cursor Char} {found : β} :
    whole word scan = some found ↔
      (scan (Cursor.ofString word)).1 = some found ∧
        (scan (Cursor.ofString word)).2.pending = [] := by
  have he := (scan (Cursor.ofString word)).2.atEnd_fst
  simp only [whole, he, List.isEmpty_iff]
  by_cases hp : (scan (Cursor.ofString word)).2.pending = [] <;> simp [hp]

/-- A letter and nothing else is read off exactly when the letter is all that is pending. -/
theorem scanLetter_nil_iff {c : Cursor Char} {letter : Char} (hc : c.Settled) :
    (c.scanLetter.1 = some letter ∧ c.scanLetter.2.pending = []) ↔
      letter ∈ Text.letters ∧ c.pending = [letter] := by
  constructor
  · rintro ⟨h, hp⟩
    rw [(Cursor.scanLetter_snd hc h).2] at hp
    rw [Cursor.scanLetter_fst] at h
    obtain ⟨hq, hl⟩ := Option.filter_eq_some_iff.1 h
    obtain ⟨rest, hr⟩ := List.head?_eq_some_iff.1 hq
    rw [hr, List.tail_cons] at hp
    exact ⟨by simpa using hl, by rw [hr, hp]⟩
  · rintro ⟨hl, hq⟩
    have h : c.scanLetter.1 = some letter := by
      rw [Cursor.scanLetter_fst, hq]
      simp [hl]
    exact ⟨h, by rw [(Cursor.scanLetter_snd hc h).2, hq]; rfl⟩

/-- A word is a variable exactly when it is one letter. -/
theorem letter?_eq_some_iff {word : String} {letter : Char} :
    letter? word = some letter ↔ letter ∈ Text.letters ∧ word.toList = [letter] := by
  unfold letter?
  rw [whole_eq_some_iff, scanLetter_nil_iff (Cursor.settled_ofString word),
    Cursor.pending_ofString]

/-- A word increments a variable before reading it exactly when it is `++` and one letter. -/
theorem preIncrement?_eq_some_iff {word : String} {letter : Char} :
    preIncrement? word = some letter ↔
      letter ∈ Text.letters ∧ word.toList = ['+', '+', letter] := by
  have hs : ((Cursor.ofString word).acceptText "++").2.Settled :=
    Cursor.settled_acceptSeq _ (Cursor.settled_ofString word)
  unfold preIncrement?
  rw [whole_eq_some_iff]
  unfold scanPreIncrement
  by_cases ha : ((Cursor.ofString word).acceptText "++").1 = true
  · obtain ⟨rest, hr⟩ := Cursor.acceptText_fst_iff.1 ha
    simp only [ha, ↓reduceIte]
    rw [scanLetter_nil_iff hs, Cursor.pending_acceptText hr, ← Cursor.pending_ofString word, hr]
    simp
  · simp only [ha]
    constructor
    · rintro ⟨h, -⟩
      cases h
    · rintro ⟨-, hw⟩
      refine absurd (Cursor.acceptText_fst_iff.2 ⟨[letter], ?_⟩) ha
      rw [Cursor.pending_ofString, hw]
      simp

theorem scanPostIncrement_of_none {c : Cursor Char} (h : c.scanLetter.1 = none) :
    (scanPostIncrement c).1 = none := by
  unfold scanPostIncrement
  simp only [h]

theorem scanPostIncrement_of_some {c : Cursor Char} {letter : Char}
    (h : c.scanLetter.1 = some letter) :
    scanPostIncrement c =
      (if (c.scanLetter.2.acceptText "++").1 then some letter else none,
        (c.scanLetter.2.acceptText "++").2) := by
  unfold scanPostIncrement
  simp only [h]

/-- A word increments a variable after reading it exactly when it is one letter and `++`. -/
theorem postIncrement?_eq_some_iff {word : String} {letter : Char} :
    postIncrement? word = some letter ↔
      letter ∈ Text.letters ∧ word.toList = [letter, '+', '+'] := by
  unfold postIncrement?
  rw [whole_eq_some_iff]
  cases hl : (Cursor.ofString word).scanLetter.1 with
  | none =>
    rw [scanPostIncrement_of_none hl]
    refine ⟨fun h => absurd h.1 (by simp), ?_⟩
    rintro ⟨hm, hw⟩
    rw [Cursor.scanLetter_fst, Cursor.pending_ofString, hw] at hl
    simp [hm] at hl
  | some found =>
    have ht := (Cursor.scanLetter_snd (Cursor.settled_ofString word) hl).2
    rw [scanPostIncrement_of_some hl]
    rw [Cursor.scanLetter_fst, Cursor.pending_ofString] at hl
    obtain ⟨hq, hm⟩ := Option.filter_eq_some_iff.1 hl
    obtain ⟨rest, hr⟩ := List.head?_eq_some_iff.1 hq
    rw [Cursor.pending_ofString, hr, List.tail_cons] at ht
    rw [hr]
    constructor
    · rintro ⟨hf, hp⟩
      by_cases ha : ((Cursor.ofString word).scanLetter.2.acceptText "++").1 = true
      · rw [if_pos ha, Option.some.injEq] at hf
        obtain ⟨after, hafter⟩ := Cursor.acceptText_fst_iff.1 ha
        rw [Cursor.pending_acceptText hafter] at hp
        rw [ht, hp] at hafter
        rw [← hf, hafter]
        exact ⟨by simpa using hm, by simp⟩
      · rw [if_neg ha] at hf
        cases hf
    · rintro ⟨-, hw⟩
      rw [List.cons.injEq] at hw
      have ha : (Cursor.ofString word).scanLetter.2.pending = "++".toList ++ [] := by
        rw [ht, hw.2]
        simp
      rw [if_pos (Cursor.acceptText_fst_iff.2 ⟨[], ha⟩), hw.1]
      exact ⟨rfl, Cursor.pending_acceptText ha⟩

/-- Nothing is left behind a run of digits exactly when there is nothing but digits. -/
theorem dropWhile_digits_eq_nil_iff {chars : List Char} :
    chars.dropWhile (· ∈ Text.digits) = [] ↔ ∀ c ∈ chars, c ∈ Text.digits := by
  induction chars with
  | nil => simp
  | cons a as ih =>
    rw [List.dropWhile_cons, List.forall_mem_cons]
    by_cases h : a ∈ Text.digits <;> simp [h, ih]

/-- A word is a number exactly when it consists of one or more digits. -/
theorem isNumber_iff {word : String} :
    isNumber word = true ↔ word.toList ≠ [] ∧ ∀ c ∈ word.toList, c ∈ Text.digits := by
  have hc := Cursor.settled_ofString word
  have hf := (Cursor.ofString word).scanDigits_fst
  have hp := Cursor.pending_scanDigits hc
  rw [Cursor.pending_ofString] at hf hp
  rw [isNumber, Option.isSome_iff_exists]
  simp only [whole_eq_some_iff, exists_and_right, ← Option.isSome_iff_exists, hf, hp,
    dropWhile_digits_eq_nil_iff]
  cases word.toList with
  | nil => simp
  | cons a as =>
    refine ⟨fun h => ⟨nofun, h.2⟩, fun h => ⟨?_, h.2⟩⟩
    simpa using h.2 a List.mem_cons_self

end Shape

namespace Token

/-- Classifying a word loses nothing of it. -/
@[simp] theorem text_ofText (word : String) : (ofText word).text = word := by
  unfold ofText
  split
  · rfl
  split
  · next name h =>
    rw [text, String.singleton_eq_ofList, ← (Shape.letter?_eq_some_iff.1 h).2, String.ofList_toList]
  split
  · next name h =>
    refine String.toList_injective ?_
    rw [(Shape.preIncrement?_eq_some_iff.1 h).2, text]
    simp
  split
  · next name h =>
    refine String.toList_injective ?_
    rw [(Shape.postIncrement?_eq_some_iff.1 h).2, text]
    simp
  split
  · next op h => exact Operator.symbol_of_ofText? h
  split
  · next h => exact (of_decide_eq_true h).symm
  split
  · next h => exact (of_decide_eq_true h).symm
  · rfl

end Token

end LetterCalc
