import LetterCalc.Proofs.Evaluation
import LetterCalc.Proofs.Language

/-!
# Layout

How the words of a line are laid out does not matter, provided that there are at least two of them.

The reader sees nothing but the words.  Validation looks at the line itself in three places, and
each time it overlooks the separators: they all belong to the alphabet, they are all blank, and the
text of an increment is a single word.  What is left of a line without its separators are the
characters of its words in order (`flatMap_wordsOf`), so each of the three answers can be given by
the words.
-/

namespace LetterCalc

/-- The words of a text hold its characters in order, without the separators. -/
theorem flatMap_wordsOf (chars : List Char) :
    (wordsOf chars).flatMap String.toList = chars.filter (· ∉ Text.separators) := by
  induction chars using wordsOf_induction with
  | nil => rw [wordsOf_nil, List.flatMap_nil, List.filter_nil]
  | separator a rest ha ih =>
    rw [wordsOf_separator ha, ih, List.filter_cons_of_neg (by simpa using ha)]
  | paren a rest ha ih =>
    have hs : a ∉ Text.separators := Text.not_mem_separators_of_mem_parens ha
    rw [wordsOf_paren ha, List.flatMap_cons, ih, List.filter_cons_of_pos (by simpa using hs)]
    simp
  | run run rest hne hrun hrest ih =>
    have hs : run.filter (· ∉ Text.separators) = run := by
      refine List.filter_eq_self.2 fun a ha => ?_
      have hstop := hrun a ha
      simp only [Text.stops, List.mem_append, not_or] at hstop
      simpa using hstop.1
    rw [wordsOf_run hne hrun hrest, List.flatMap_cons, ih, List.filter_append, hs,
      String.toList_ofList]

/-- The characters of a line that can be seen. -/
def visible (line : String) : List Char := (words line).flatMap String.toList

theorem visible_eq_filter (line : String) :
    visible line = line.toList.filter (· ∉ Text.separators) := by
  rw [visible, words_eq_wordsOf, flatMap_wordsOf]

/-- Separators are blank, so it is for the visible characters to say whether a line is. -/
theorem isBlank_eq_visible (line : String) :
    Text.isBlank line = (visible line).all Text.isWhiteSpace := by
  have hblank : (fun c => !decide (c ∉ Text.separators) || Text.isWhiteSpace c) =
      Text.isWhiteSpace := by
    funext c
    by_cases hc : c ∈ Text.separators
    · simp [hc, Text.isWhiteSpace_of_mem_separators hc]
    · simp [hc]
  rw [visible_eq_filter, List.all_filter, hblank, Text.isBlank]

namespace Validation

/-- Separators belong to the alphabet, so the first character that does not is a visible one. -/
theorem find?_visible (line : String) :
    (visible line).find? (fun c => !isAllowed c) = line.toList.find? fun c => !isAllowed c := by
  have hallowed : (fun c => decide (decide (c ∉ Text.separators) = true ∧ (!isAllowed c) = true)) =
      fun c => !isAllowed c := by
    funext c
    by_cases hc : c ∈ Text.separators
    · simp [hc, isAllowed_of_mem_separators hc]
    · simp [hc]
  rw [visible_eq_filter, List.find?_filter, hallowed]

theorem checkAlphabet_eq_visible {line : String} (h : words line ≠ []) :
    checkAlphabet line =
      match (visible line).find? fun c => !isAllowed c with
      | some c => .error (.invalidCharacter c)
      | none => .ok () := by
  rw [find?_visible, checkAlphabet]
  split
  · next hl => exact absurd (by rw [words_eq_wordsOf, hl, wordsOf_nil]) h
  · rfl

/-- The words of a line say what it assigns to, unless it is a bare increment. -/
theorem checkTarget_eq_isAssignment {line : String} (h : 2 ≤ (words line).length) :
    checkTarget line =
      if isAssignment (Token.ofLine line) then .ok () else .error .notAnAssignment := by
  rw [checkTarget, isIncrement_eq_false h, Bool.false_or]

/-- Validation says the same of two lines that have the same words, two of them or more. -/
theorem check_eq_of_words {line line' : String} (h : words line = words line')
    (htwo : 2 ≤ (words line).length) : check line = check line' := by
  have hne : words line ≠ [] := by
    rintro hnil
    simp [hnil] at htwo
  have hv : visible line = visible line' := by rw [visible, visible, h]
  have ht : Token.ofLine line = Token.ofLine line' := by rw [Token.ofLine, Token.ofLine, h]
  have halphabet : checkAlphabet line = checkAlphabet line' := by
    rw [checkAlphabet_eq_visible hne, checkAlphabet_eq_visible (h ▸ hne), hv]
  have hbalance : checkBalance line = checkBalance line' := by
    rw [checkBalance, checkBalance, ht]
  have htarget : checkTarget line = checkTarget line' := by
    rw [checkTarget_eq_isAssignment htwo, checkTarget_eq_isAssignment (h ▸ htwo), ht]
  have hturns : checkTurns line = checkTurns line' := by
    rw [checkTurns, checkTurns, isBlank_eq_visible, isBlank_eq_visible, hv, ht]
  rw [check, check, halphabet, hbalance, htarget, hturns]

end Validation

/-- Two lines with the same words, two of them or more, are accepted or rejected alike, for the same
reason if they are rejected; they have the same reading, and they do the same to every store. -/
theorem same_words_run_alike {line line' : String} (h : words line = words line')
    (htwo : 2 ≤ (words line).length) :
    Validation.check line = Validation.check line' ∧
    Tree.ofLine line = Tree.ofLine line' ∧
    ∀ s : Store Value,
      (Calculator.runLine s line).result = (Calculator.runLine s line').result ∧
      (Calculator.runLine s line).store = (Calculator.runLine s line').store := by
  have hc := Validation.check_eq_of_words h htwo
  have hr : Tree.ofLine line = Tree.ofLine line' := by
    rw [Tree.ofLine, Tree.ofLine, Token.ofLine, Token.ofLine, h]
  refine ⟨hc, hr, fun s => ?_⟩
  have ht : Calculator.tree? line = Calculator.tree? line' := by
    rw [Calculator.tree?, Calculator.tree?, hc, hr]
  have he : Calculator.effect s line = Calculator.effect s line' := by
    rw [Calculator.effect_eq, Calculator.effect_eq, ht]
  exact ⟨congrArg Prod.fst he, congrArg Prod.snd he⟩

/-- Separators can stand where there are none, also next to a parenthesis. -/
theorem spread_line_runs_alike :
    words "x = (1 + 2)" = words "\tx  =( 1 +\r\n2 ) " ∧
      2 ≤ (words "x = (1 + 2)").length ∧
      Validation.check "x = (1 + 2)" = Validation.check "\tx  =( 1 +\r\n2 ) " ∧
      (Calculator.runLine .empty "x = (1 + 2)").result =
        (Calculator.runLine .empty "\tx  =( 1 +\r\n2 ) ").result := by
  have h : words "x = (1 + 2)" = words "\tx  =( 1 +\r\n2 ) " := by decide +kernel
  have htwo : 2 ≤ (words "x = (1 + 2)").length := by decide +kernel
  obtain ⟨hc, -, hrun⟩ := same_words_run_alike h htwo
  exact ⟨h, htwo, hc, (hrun .empty).1⟩

-- A line of one word is another matter: a bare increment has nothing around it.
example : words "x++" = words " x++" ∧
    Validation.check "x++" = .ok () ∧ Validation.check " x++" = .error .notAnAssignment := by
  decide +kernel

end LetterCalc
