import LetterCalc.Proofs.Language

/-!
# Balanced parentheses

Validation counts parentheses word by word, and a word that merely holds a parenthesis would not be
counted.  There is no such word: a text is cut before and behind every parenthesis, whatever stands
beside it.  The count over the words is therefore the count over the characters.

The rule for characters speaks of every front part of the text (`Text.Matched`).  To follow it along
the words, it is stated for a text that stands inside some open groups, and one equation says what
each character does to their number.
-/

namespace LetterCalc

namespace Text

/-- The parentheses of a text match, if `depth` groups are open before it. -/
structure Matched (depth : Nat) (chars : List Char) : Prop where
  /-- In no front part are more groups closed than there are. -/
  closed_le : ∀ front, front <+: chars → front.count ')' ≤ depth + front.count '('
  /-- In the end all groups are closed. -/
  closed_eq : chars.count ')' = depth + chars.count '('

variable {depth depth' : Nat} {a : Char} {rest : List Char}

theorem matched_nil : Matched depth [] ↔ depth = 0 := by
  constructor
  · intro h
    have heq : 0 = depth + 0 := h.closed_eq
    omega
  · rintro rfl
    refine ⟨fun front hf => ?_, rfl⟩
    rw [List.prefix_nil.1 hf]
    exact Nat.le_refl 0

/-- The first character opens a group, or closes one, or does neither, and the rest of the text is
counted from there. -/
theorem matched_cons (h : depth + [a].count '(' = depth' + [a].count ')') :
    Matched depth (a :: rest) ↔ Matched depth' rest := by
  have hcount : ∀ (b : Char) (cs : List Char), (a :: cs).count b = [a].count b + cs.count b :=
    fun b cs => (List.count_append : ([a] ++ cs).count b = _)
  constructor
  · rintro ⟨hle, heq⟩
    refine ⟨fun front hf => ?_, ?_⟩
    · have hfront := hle (a :: front) ((List.prefix_cons_inj a).2 hf)
      have := hcount '(' front
      have := hcount ')' front
      omega
    · have := hcount '(' rest
      have := hcount ')' rest
      omega
  · rintro ⟨hle, heq⟩
    refine ⟨fun front hf => ?_, ?_⟩
    · obtain rfl | ⟨front, rfl, hf'⟩ := List.prefix_cons_iff.1 hf
      · exact Nat.zero_le _
      · have hfront := hle front hf'
        have := hcount '(' front
        have := hcount ')' front
        omega
    · have := hcount '(' rest
      have := hcount ')' rest
      omega

theorem matched_open : Matched depth ('(' :: rest) ↔ Matched (depth + 1) rest := matched_cons rfl

theorem matched_close : Matched (depth + 1) (')' :: rest) ↔ Matched depth rest := matched_cons rfl

/-- No group can be closed where none is open. -/
theorem not_matched_close : ¬ Matched 0 (')' :: rest) := by
  intro h
  have hle := h.closed_le [')'] ((List.prefix_cons_inj ')').2 List.nil_prefix)
  cases hle

/-- Characters that are no parentheses do not count. -/
theorem matched_append {run : List Char} (h : ∀ a ∈ run, a ∉ parens) :
    Matched depth (run ++ rest) ↔ Matched depth rest := by
  induction run with
  | nil => rfl
  | cons a run ih =>
    obtain ⟨ha, hrun⟩ := List.forall_mem_cons.1 h
    have hne : a ≠ '(' ∧ a ≠ ')' := by simpa [parens] using ha
    have hcons : Matched depth (a :: (run ++ rest)) ↔ Matched depth (run ++ rest) :=
      matched_cons (by simp [hne])
    rw [List.cons_append, hcons, ih hrun]

end Text

namespace Validation

/-- Only a parenthesis that is a word of its own is counted. -/
theorem isBalanced_word {word : String} (h : ∀ a ∈ word.toList, a ∉ Text.parens) (depth : Nat)
    (tokens : List Token) :
    isBalanced depth (Token.ofText word :: tokens) = isBalanced depth tokens := by
  have htext := Token.text_ofText word
  cases htoken : Token.ofText word with
  | openParen =>
    rw [htoken] at htext
    exact absurd (by decide) (h '(' (htext ▸ by decide))
  | closeParen =>
    rw [htoken] at htext
    exact absurd (by decide) (h ')' (htext ▸ by decide))
  | number _ | letter _ | preIncrement _ | postIncrement _ | operator _ | other _ => rfl

/-- Counting over the words of a text is counting over its characters. -/
theorem isBalanced_wordsOf_iff (chars : List Char) (depth : Nat) :
    isBalanced depth ((wordsOf chars).map Token.ofText) = true ↔ Text.Matched depth chars := by
  induction chars using wordsOf_induction generalizing depth with
  | nil => rw [wordsOf_nil, Text.matched_nil, List.map_nil, isBalanced, decide_eq_true_iff]
  | separator a rest ha ih =>
    have hparen : ∀ b ∈ [a], b ∉ Text.parens := by
      rintro b hb hparen
      rw [List.mem_singleton.1 hb] at hparen
      exact Text.not_mem_separators_of_mem_parens hparen ha
    rw [wordsOf_separator ha, ih, ← List.singleton_append, Text.matched_append hparen]
  | paren a rest ha ih =>
    rw [wordsOf_paren ha, List.map_cons]
    obtain rfl | rfl : a = '(' ∨ a = ')' := by simpa [Text.parens] using ha
    · rw [show Token.ofText (String.singleton '(') = .openParen from Token.ofText_openParen,
        Text.matched_open, ← ih]
      rfl
    · rw [show Token.ofText (String.singleton ')') = .closeParen from Token.ofText_closeParen]
      cases depth with
      | zero =>
        exact ⟨fun h => absurd h Bool.false_ne_true, fun h => absurd h Text.not_matched_close⟩
      | succ depth =>
        rw [Text.matched_close, ← ih]
        rfl
  | run run rest hne hrun hrest ih =>
    have hparen : ∀ b ∈ run, b ∉ Text.parens := fun b hb hp =>
      hrun b hb (List.mem_append_right _ hp)
    rw [wordsOf_run hne hrun hrest, List.map_cons, Text.matched_append hparen, ← ih,
      isBalanced_word (by simpa using hparen)]

/-- Parentheses are balanced exactly by the rule for characters: no front part of the line holds
more closing parentheses than opening ones, and the whole line holds as many of both. -/
theorem balanced_iff_characters_match (line : String) : checkBalance line = .ok () ↔
    (∀ front, front <+: line.toList → front.count ')' ≤ front.count '(') ∧
      line.toList.count '(' = line.toList.count ')' := by
  rw [checkBalance_eq_ok_iff, Token.ofLine, words_eq_wordsOf, isBalanced_wordsOf_iff]
  constructor
  · rintro ⟨hle, heq⟩
    simp only [Nat.zero_add] at hle heq
    exact ⟨hle, heq.symm⟩
  · rintro ⟨hle, heq⟩
    refine ⟨fun front hf => ?_, ?_⟩
    · rw [Nat.zero_add]
      exact hle front hf
    · rw [Nat.zero_add, heq]

-- The parentheses of `a(b))(` are counted though no separator stands beside them.
example : words "a(b))(" = ["a", "(", "b", ")", ")", "("] ∧
    checkBalance "a(b))(" = .error .unbalancedParens := by
  decide +kernel

end Validation

end LetterCalc
