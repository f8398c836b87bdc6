import LetterCalc.Proofs.RoundTrip

/-!
# Other words for the same line

A line can be put differently and still be read as the same.  What `+=` and `++` before a variable
stand for can be written out (`Token.desugar`), and parentheses can be put around an operand or
around everything that the line assigns.

In each case the tokens of a phrase become those of another phrase, so it is phrases that are
compared.  Two of them are read alike (`Phrase.ReadAlike`) if they have the same result behind every
factor.  The factor has to be arbitrary, since the reader multiplies the first atom of a phrase to
what stands before it and only then looks at the operator behind.  Phrases whose parts are read
alike are read alike, and from there each change is an induction over the phrase that finds the
place of the change among the tokens.

An error is a result like a tree is, so that a line which cannot be read is refused for the same
reason when it is put differently.
-/

namespace LetterCalc

/-! ## Phrases that are read alike -/

/-- Two phrases have the same result, whatever their first atom is to be multiplied to. -/
def Phrase.ReadAlike (e e' : Phrase) : Prop :=
  ∀ factor, e.resultAfter factor = e'.resultAfter factor

namespace Phrase.ReadAlike

theorem atom {head head' : Atom} (h : head.result = head'.result) :
    ReadAlike (.atom head) (.atom head') := by
  intro factor
  rw [resultAfter, resultAfter, h]

theorem chain {head head' : Atom} {tail tail' : Phrase} (hhead : head.result = head'.result)
    (op : Operator) (htail : ReadAlike tail tail') :
    ReadAlike (.chain head op tail) (.chain head' op tail') := by
  intro factor
  simp only [Reader.resultAfter_chain, hhead, htail _]

theorem group {e e' : Phrase} (h : ReadAlike e e') :
    (Atom.group e).result = (Atom.group e').result := by
  rw [Atom.result, Atom.result, h none]

/-- No factor stands before the right side of an operator other than `*`, so only its own result
matters. -/
theorem of_result {tail tail' : Phrase} (h : tail.result = tail'.result) (head : Atom)
    {op : Operator} (hop : op ≠ .arith .mul) :
    ReadAlike (.chain head op tail) (.chain head op tail') := by
  rw [result, result] at h
  intro factor
  rcases op with ⟨⟨⟩⟩ | _ | _
  · simp only [resultAfter, h]
  · simp only [resultAfter, h]
  · exact absurd rfl hop
  · simp only [resultAfter, h]
  · simp only [resultAfter, h]

/-- Adding to a variable is assigning it a sum that starts with it.  Where more than the variable
stands left of the operator, both are refused with the same error. -/
theorem addAssign (name : Char) (spelled : name ∈ Text.letters) {tail tail' : Phrase}
    (h : ReadAlike tail tail') :
    ReadAlike (.chain (.operand (.letter name spelled)) .addAssign tail)
      (.chain (.operand (.letter name spelled)) .assign
        (.chain (.operand (.letter name spelled)) (.arith .add) tail')) := by
  intro factor
  simp only [resultAfter, h none]
  cases factor with
  | none => cases tail'.resultAfter none <;> rfl
  | some left => rfl

end Phrase.ReadAlike

/-! ## Lines that say the same -/

mutual

theorem Atom.exists_spells : ∀ a : Atom, ∃ text, Spells text (a.tokens.map Token.text)
  | .operand operand => ⟨_, operand.spells⟩
  | .group inner => by
    obtain ⟨text, h⟩ := Phrase.exists_spells inner
    exact ⟨_, Atom.spells_group h⟩

/-- Every phrase can be written. -/
theorem Phrase.exists_spells : ∀ e : Phrase, ∃ text, Spells text e.words
  | .atom head => Atom.exists_spells head
  | .chain head op tail => by
    obtain ⟨text, h⟩ := Atom.exists_spells head
    obtain ⟨text', h'⟩ := Phrase.exists_spells tail
    exact ⟨_, Phrase.spells_chain op h h'⟩

end

theorem Phrase.exists_line (e : Phrase) : ∃ line, Token.ofLine line = e.tokens := by
  obtain ⟨text, h⟩ := e.exists_spells
  refine ⟨String.ofList text, words_eq_iff.1 ?_⟩
  rw [words_eq_wordsOf, String.toList_ofList, h.wordsOf_eq]

/-- The tokens say what the line says: they can be written as a line, every line that has them is
accepted, and what the reader makes of them, a tree or an error, is what it makes of the line. -/
structure Restates (tokens : List Token) (line : String) : Prop where
  written : ∃ line', Token.ofLine line' = tokens
  accepted : ∀ line', Token.ofLine line' = tokens → Validation.check line' = .ok ()
  result_eq : (Tree.read tokens).result = (Tree.ofLine line).result

theorem Restates.of_line {tokens : List Token} {line line' : String} (h : Restates tokens line)
    (hline : Token.ofLine line' = tokens) :
    Validation.check line' = .ok () ∧ (Tree.ofLine line').result = (Tree.ofLine line).result := by
  refine ⟨h.accepted line' hline, ?_⟩
  rw [Tree.ofLine, hline, h.result_eq]

/-- A phrase that assigns says what a line says if it is read like the phrase of the line. -/
theorem Phrase.ReadAlike.restates {e e' : Phrase} {line : String} (h : e.ReadAlike e')
    (hline : Token.ofLine line = e.tokens) (ha : Validation.isAssignment e'.tokens = true) :
    Restates e'.tokens line := by
  refine ⟨e'.exists_line, fun line' hl => ?_, ?_⟩
  · rw [← hl] at ha
    exact Validation.check_eq_ok_iff.2 ⟨⟨e', Phrase.words_eq_iff.2 hl⟩, Or.inr ha⟩
  · rw [Tree.ofLine, hline, e.result_read, e'.result_read]
    exact (h none).symm

/-- An accepted line of two words or more assigns a phrase to a variable. -/
theorem Validation.exists_assignment_of_check {line : String} (h : check line = .ok ())
    (htwo : 2 ≤ (Token.ofLine line).length) :
    ∃ name, ∃ spelled : name ∈ Text.letters, ∃ op, (op = .assign ∨ op = .addAssign) ∧
      ∃ tail, Token.ofLine line =
        (Phrase.chain (.operand (.letter name spelled)) op tail).tokens := by
  obtain ⟨⟨e, he⟩, hkind⟩ := check_eq_ok_iff.1 h
  have hi : Shape.isIncrement line = false :=
    isIncrement_eq_false (by simpa [Token.ofLine] using htwo)
  have ht := Phrase.words_eq_iff.1 he
  rw [hi, ht] at hkind
  have ha : isAssignment e.tokens = true := hkind.resolve_left Bool.false_ne_true
  obtain ⟨name, spelled, op, hop, tail, rfl⟩ := exists_tail_of_isAssignment ha
  exact ⟨name, spelled, op, hop, tail, ht⟩

/-! ## Writing out -/

namespace Token

/-- Writes out what `+=` and `++` before a variable stand for: `x +=` as `x = x +`, and `++x` as
`( x = 1 + x )`. -/
def desugar : List Token → List Token
  | .letter name :: .operator .addAssign :: rest =>
    .letter name :: .operator .assign :: .letter name :: .operator (.arith .add) :: desugar rest
  | .preIncrement name :: rest =>
    .openParen :: .letter name :: .operator .assign :: .number "1" :: .operator (.arith .add) ::
      .letter name :: .closeParen :: desugar rest
  | token :: rest => token :: desugar rest
  | [] => []

/-- A variable stays if it is not added to. -/
theorem desugar_letter (name : Char) {rest : List Token}
    (h : rest.head? ≠ some (.operator .addAssign)) :
    desugar (.letter name :: rest) = .letter name :: desugar rest := by
  rw [desugar]
  · rintro _ _ - rfl
    exact h rfl
  · nofun

end Token

/-- The number by which `++` increments. -/
def Operand.one : Operand := .number "1" (Shape.isNumber_iff.1 (by decide +kernel))

/-- Incrementing a variable before reading it is a group that assigns the variable a sum. -/
theorem Operand.result_preIncrement (name : Char) (spelled : name ∈ Text.letters) :
    (preIncrement name spelled).result =
      (Atom.group (.chain (.operand (.letter name spelled)) .assign
        (.chain (.operand .one) (.arith .add) (.atom (.operand (.letter name spelled)))))).result :=
  rfl

mutual

/-- Writing out an atom gives an atom of the same result.  What follows is written out by itself,
except for an `+=` right behind a variable. -/
theorem Atom.exists_desugared : ∀ a : Atom, ∃ a' : Atom, a.result = a'.result ∧
    ∀ rest, (∀ name spelled, a = .operand (.letter name spelled) →
      rest.head? ≠ some (.operator .addAssign)) →
      Token.desugar (a.tokens ++ rest) = a'.tokens ++ Token.desugar rest
  | .operand operand => by
    cases operand with
    | number digits spelled => exact ⟨_, rfl, fun _ _ => rfl⟩
    | letter name spelled =>
      exact ⟨_, rfl, fun _ h => Token.desugar_letter name (h name spelled rfl)⟩
    | preIncrement name spelled =>
      exact ⟨_, Operand.result_preIncrement name spelled, fun _ _ => rfl⟩
    | postIncrement name spelled => exact ⟨_, rfl, fun _ _ => rfl⟩
  | .group inner => by
    obtain ⟨e, he, hinner⟩ := Phrase.exists_desugared inner
    refine ⟨.group e, he.group, fun rest _ => ?_⟩
    have hclose := hinner (.closeParen :: rest) (by simp)
    simp [Atom.tokens, Token.desugar, hclose]

/-- Writing out a phrase gives a phrase that is read alike. -/
theorem Phrase.exists_desugared : ∀ e : Phrase, ∃ e' : Phrase, e.ReadAlike e' ∧
    ∀ rest, rest.head? ≠ some (.operator .addAssign) →
      Token.desugar (e.tokens ++ rest) = e'.tokens ++ Token.desugar rest
  | .atom head => by
    obtain ⟨a, ha, hhead⟩ := Atom.exists_desugared head
    exact ⟨.atom a, .atom ha, fun rest h => hhead rest fun _ _ _ => h⟩
  | .chain head op tail => by
    obtain ⟨a, ha, hhead⟩ := Atom.exists_desugared head
    obtain ⟨e, he, htail⟩ := Phrase.exists_desugared tail
    -- Only a variable and an `+=` behind it are written out together, so only there the phrase
    -- changes where the head meets the operator.
    by_cases hsugar : op = .addAssign ∧ ∃ name spelled, head = .operand (.letter name spelled)
    · obtain ⟨rfl, name, spelled, rfl⟩ := hsugar
      refine ⟨_, he.addAssign name spelled, fun rest h => ?_⟩
      simp [Phrase.tokens, Atom.tokens, Operand.token, Token.desugar, htail rest h]
    · refine ⟨.chain a op e, .chain ha op he, fun rest h => ?_⟩
      have hop := hhead (.operator op :: (tail.tokens ++ rest)) fun name spelled hletter heq =>
        hsugar ⟨by simpa using heq, name, spelled, hletter⟩
      have hrest : Token.desugar (.operator op :: (tail.tokens ++ rest)) =
          .operator op :: (e.tokens ++ Token.desugar rest) := by
        rw [← htail rest h]
        rfl
      rw [Phrase.tokens, List.append_assoc, List.cons_append, hop, hrest, Phrase.tokens,
        List.append_assoc, List.cons_append]

end

/-- The sugar of a line is rewriting and nothing else.  If an accepted line of two words or more is
written out, the new tokens make an accepted line again, and the reader makes the same of them, be
it a tree or an error. -/
theorem desugar_restates {line : String} (h : Validation.check line = .ok ())
    (htwo : 2 ≤ (Token.ofLine line).length) :
    Restates (Token.desugar (Token.ofLine line)) line := by
  obtain ⟨name, spelled, op, hop, tail, hline⟩ := Validation.exists_assignment_of_check h htwo
  obtain ⟨e, he, htokens⟩ :=
    Phrase.exists_desugared (.chain (.operand (.letter name spelled)) op tail)
  have hdesugar := htokens [] (by simp)
  rw [List.append_nil, Token.desugar, List.append_nil] at hdesugar
  rw [hline, hdesugar]
  refine he.restates hline ?_
  rw [← hdesugar]
  rcases hop with rfl | rfl <;> rfl

/-- In `x += ++z * y += 2` the second `+=` is written out like the first, though it has more than a
variable on its left, and the line is refused for that before and after. -/
theorem desugar_restates_refused_line :
    Validation.check "x += ++z * y += 2" = .ok () ∧
    Validation.check "x = x + (z = 1 + z) * y = y + 2" = .ok () ∧
    (Tree.ofLine "x = x + (z = 1 + z) * y = y + 2").result =
      (Tree.ofLine "x += ++z * y += 2").result ∧
    (Tree.ofLine "x += ++z * y += 2").result =
      .error (.notAssignable (.binary .mul (.preIncrement 'z') (.letter 'y'))) := by
  have h : Validation.check "x += ++z * y += 2" = .ok () := by decide +kernel
  have hline : Token.ofLine "x = x + (z = 1 + z) * y = y + 2" =
      Token.desugar (Token.ofLine "x += ++z * y += 2") := by decide +kernel
  obtain ⟨haccepted, hresult⟩ := (desugar_restates h (by decide +kernel)).of_line hline
  exact ⟨h, haccepted, hresult, by decide +kernel⟩

/-! ## Parentheses -/

section Places

variable {α : Type} {a b : α} {xs ys before after : List α}

/-- The place of an item behind another one. -/
theorem exists_place_of_cons (h : b :: xs = before ++ a :: after) (hne : a ≠ b) :
    ∃ between, before = b :: between ∧ xs = between ++ a :: after := by
  obtain ⟨rfl, hxs⟩ | hcut := List.cons_eq_append_iff.1 h
  · exact absurd (List.cons.inj hxs).1 hne
  · exact hcut

/-- The place of an item of two lists is in one of them. -/
theorem exists_place_of_append (h : xs ++ ys = before ++ a :: after) :
    (∃ rest, xs = before ++ a :: rest ∧ after = rest ++ ys) ∨
      ∃ rest, before = xs ++ rest ∧ ys = rest ++ a :: after := by
  obtain hright | ⟨rest, hxs, hrest⟩ := List.append_eq_append_iff.1 h
  · exact Or.inr hright
  · obtain ⟨rfl, rfl⟩ | ⟨rest, rfl, rfl⟩ := List.cons_eq_append_iff.1 hrest
    · exact Or.inr ⟨[], by simpa using hxs.symm, rfl⟩
    · exact Or.inl ⟨rest, hxs, rfl⟩

end Places

theorem Token.ne_of_isOperand {token other : Token} (h : token.isOperand = true)
    (hother : other.isOperand = false) : token ≠ other := by
  rintro rfl
  cases h.symm.trans hother

mutual

theorem Atom.exists_enclosed {token : Token} (h : token.isOperand = true) :
    ∀ (a : Atom) {before after : List Token}, a.tokens = before ++ token :: after →
      ∃ a' : Atom, a.result = a'.result ∧
        a'.tokens = before ++ .openParen :: token :: .closeParen :: after
  | .operand operand, before, after, ht => by
    obtain ⟨rfl, ht⟩ | ⟨_, -, ht⟩ := List.cons_eq_append_iff.1 ht
    · obtain ⟨rfl, rfl⟩ := List.cons.inj ht
      exact ⟨.group (.atom (.operand operand)), (Phrase.result_atom _).symm, rfl⟩
    · simp at ht
  | .group inner, before, after, ht => by
    obtain ⟨between, rfl, hbetween⟩ := exists_place_of_cons ht (Token.ne_of_isOperand h rfl)
    obtain ⟨rest, hinner, rfl⟩ | ⟨rest, -, hend⟩ := exists_place_of_append hbetween
    · obtain ⟨e, he, htokens⟩ := Phrase.exists_enclosed h inner hinner
      refine ⟨.group e, he.group, ?_⟩
      simp [Atom.tokens, htokens]
    · obtain ⟨_, -, hend⟩ := exists_place_of_cons hend (Token.ne_of_isOperand h rfl)
      simp at hend

/-- Parentheses can be put around any operand of a phrase. -/
theorem Phrase.exists_enclosed {token : Token} (h : token.isOperand = true) :
    ∀ (e : Phrase) {before after : List Token}, e.tokens = before ++ token :: after →
      ∃ e' : Phrase, e.ReadAlike e' ∧
        e'.tokens = before ++ .openParen :: token :: .closeParen :: after
  | .atom head, before, after, ht => by
    obtain ⟨a, ha, htokens⟩ := Atom.exists_enclosed h head ht
    exact ⟨.atom a, .atom ha, htokens⟩
  | .chain head op tail, before, after, ht => by
    obtain ⟨rest, hhead, rfl⟩ | ⟨rest, rfl, hrest⟩ := exists_place_of_append ht
    · obtain ⟨a, ha, htokens⟩ := Atom.exists_enclosed h head hhead
      refine ⟨.chain a op tail, .chain ha op fun _ => rfl, ?_⟩
      simp [Phrase.tokens, htokens]
    · obtain ⟨between, rfl, htail⟩ := exists_place_of_cons hrest (Token.ne_of_isOperand h rfl)
      obtain ⟨e, he, htokens⟩ := Phrase.exists_enclosed h tail htail
      refine ⟨.chain head op e, .chain rfl op he, ?_⟩
      simp [Phrase.tokens, htokens]

end

/-- What an accepted line assigns can be replaced by any phrase of the same result. -/
theorem exists_assigned_of_check {line : String} {target op : Token} {value : List Token}
    (h : Validation.check line = .ok ()) (hline : Token.ofLine line = target :: op :: value) :
    ∃ tail : Phrase, tail.tokens = value ∧ ∀ tail' : Phrase, tail.result = tail'.result →
      Restates (target :: op :: tail'.tokens) line := by
  have htwo : 2 ≤ (Token.ofLine line).length := by simp [hline]
  obtain ⟨name, spelled, assignment, hop, tail, hassigns⟩ :=
    Validation.exists_assignment_of_check h htwo
  obtain ⟨rfl, hrest⟩ := List.cons.inj (hline.symm.trans hassigns)
  obtain ⟨rfl, rfl⟩ := List.cons.inj hrest
  have hmul : assignment ≠ .arith .mul := by rcases hop with rfl | rfl <;> nofun
  refine ⟨tail, rfl, fun tail' hresult => ?_⟩
  refine (Phrase.ReadAlike.of_result hresult (.operand (.letter name spelled)) hmul).restates
    hassigns ?_
  rcases hop with rfl | rfl <;> rfl

/-- Parentheses that are not needed do no harm.  Put around an operand of an accepted line, behind
its first two tokens, or around everything behind those two, they give an accepted line again, and
the reader makes the same of it, be it a tree or an error. -/
theorem redundant_parens_restate {line : String} (h : Validation.check line = .ok ()) :
    (∀ (before : List Token) (token : Token) (after : List Token),
      Token.ofLine line = before ++ token :: after → 2 ≤ before.length → token.isOperand = true →
      Restates (before ++ .openParen :: token :: .closeParen :: after) line) ∧
    ∀ (target op : Token) (value : List Token), Token.ofLine line = target :: op :: value →
      Restates (target :: op :: .openParen :: (value ++ [.closeParen])) line := by
  constructor
  · intro before token after hline htwo hoperand
    rcases before with _ | ⟨target, _ | ⟨op, before⟩⟩
    · simp at htwo
    · simp at htwo
    obtain ⟨tail, htail, hrestates⟩ := exists_assigned_of_check h hline
    obtain ⟨e, he, henclosed⟩ := Phrase.exists_enclosed hoperand tail htail
    have hresult := hrestates e (he none)
    rwa [henclosed] at hresult
  · intro target op value hline
    obtain ⟨tail, rfl, hrestates⟩ := exists_assigned_of_check h hline
    exact hrestates (.atom (.group tail)) (Phrase.result_atom (.group tail)).symm

/-- In `x = y = 3` parentheses can stand around the variable that is assigned to, and around the
whole inner assignment. -/
theorem parens_around_inner_assignment :
    Validation.check "x = y = 3" = .ok () ∧
    Validation.check "x = (y) = 3" = .ok () ∧
    (Tree.ofLine "x = (y) = 3").result = (Tree.ofLine "x = y = 3").result ∧
    Validation.check "x = (y = 3)" = .ok () ∧
    (Tree.ofLine "x = (y = 3)").result = (Tree.ofLine "x = y = 3").result := by
  have h : Validation.check "x = y = 3" = .ok () := by decide +kernel
  have hline : Token.ofLine "x = y = 3" = [.letter 'x', .operator .assign] ++
      .letter 'y' :: [.operator .assign, .number "3"] := by decide +kernel
  have htarget : Token.ofLine "x = (y) = 3" = [.letter 'x', .operator .assign] ++
      .openParen :: .letter 'y' :: .closeParen :: [.operator .assign, .number "3"] := by
    decide +kernel
  have hinner : Token.ofLine "x = (y = 3)" = .letter 'x' :: .operator .assign :: .openParen ::
      ([.letter 'y', .operator .assign, .number "3"] ++ [.closeParen]) := by decide +kernel
  obtain ⟨hoperand, hall⟩ := redundant_parens_restate h
  obtain ⟨hc, hr⟩ := (hoperand _ _ _ hline (by decide) rfl).of_line htarget
  obtain ⟨hc', hr'⟩ := (hall _ _ _ hline).of_line hinner
  exact ⟨h, hc, hr, hc', hr'⟩

end LetterCalc
