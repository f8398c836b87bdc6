import LetterCalc.Proofs.Phrase
import LetterCalc.Proofs.Words
import LetterCalc.Validation

/-!
# The language that validation accepts

Validation counts parentheses with one loop and lets operands and operators take turns with
another that has no stack.  Together the two accept exactly the tokens of a phrase
(`exists_phrase_iff`): the turns say what can follow what, and the count pairs the parentheses.

The two remaining checks add that the line is an assignment, and nothing else: a line with the
tokens of a phrase holds no character from outside the language and is not blank
(`check_eq_ok_iff`).
-/

namespace LetterCalc

/-! ## Computations that can fail -/

theorem bind_eq_ok_iff {ε α β : Type} {x : Except ε α} {f : α → Except ε β} {b : β} :
    (x >>= f) = .ok b ↔ ∃ a, x = .ok a ∧ f a = .ok b := by
  cases x with
  | error e => simp [bind, Except.bind]
  | ok a => simp [bind, Except.bind]

theorem bind_eq_error_iff {ε α β : Type} {x : Except ε α} {f : α → Except ε β} {e : ε} :
    (x >>= f) = .error e ↔ x = .error e ∨ ∃ a, x = .ok a ∧ f a = .error e := by
  cases x with
  | error e' => simp [bind, Except.bind]
  | ok a => simp [bind, Except.bind]

namespace Token

/-- The kinds of tokens, as far as validation tells them apart. -/
theorem kind (token : Token) : token.isOperand = true ∨ (∃ op, token = .operator op) ∨
    token = .openParen ∨ token = .closeParen ∨ ∃ text, token = .other text := by
  cases token with
  | number digits => exact Or.inl rfl
  | letter name => exact Or.inl rfl
  | preIncrement name => exact Or.inl rfl
  | postIncrement name => exact Or.inl rfl
  | operator op => exact Or.inr (Or.inl ⟨op, rfl⟩)
  | openParen => exact Or.inr (Or.inr (Or.inl rfl))
  | closeParen => exact Or.inr (Or.inr (Or.inr (Or.inl rfl)))
  | other text => exact Or.inr (Or.inr (Or.inr (Or.inr ⟨text, rfl⟩)))

end Token

theorem Operand.isOperand_token (operand : Operand) : operand.token.isOperand = true := by
  cases operand <;> rfl

namespace Validation

variable {previous : Option Token} {depth : Nat} {tokens : List Token}

/-! ## One token -/

theorem isBalanced_operand {token : Token} (h : token.isOperand = true) :
    isBalanced depth (token :: tokens) = isBalanced depth tokens := by
  cases token with
  | number _ | letter _ | preIncrement _ | postIncrement _ => rfl
  | operator _ | openParen | closeParen | other _ => cases h

/-- An operand can stand where one is due, unless the token before already ends one. -/
theorem takeTurns_operand {token : Token} (h : token.isOperand = true) (expecting : Bool) :
    takeTurns previous expecting (token :: tokens) =
      if !expecting || endsOperand previous then .error (.unexpectedOperand previous token)
      else takeTurns (some token) false tokens := by
  cases token with
  | number _ | letter _ | preIncrement _ | postIncrement _ => rfl
  | operator _ | openParen | closeParen | other _ => cases h

theorem takeTurns_of_operand {token : Token} {expecting : Bool} (h : token.isOperand = true)
    (hok : takeTurns previous expecting (token :: tokens) = .ok ()) :
    expecting = true ∧ takeTurns (some token) false tokens = .ok () := by
  rw [takeTurns_operand h] at hok
  split at hok
  · cases hok
  · next hc => exact ⟨by simp_all, hok⟩

theorem takeTurns_of_openParen
    (hok : takeTurns previous true (.openParen :: tokens) = .ok ()) :
    takeTurns (some .openParen) true tokens = .ok () := by
  simp only [takeTurns] at hok
  split at hok
  · cases hok
  · exact hok

theorem takeTurns_of_closeParen
    (hok : takeTurns previous false (.closeParen :: tokens) = .ok ()) :
    takeTurns (some .closeParen) false tokens = .ok () := by
  simp only [takeTurns] at hok
  split at hok
  · cases hok
  · exact hok

/-! ## A phrase takes turns and is balanced -/

mutual

theorem isBalanced_atom (depth : Nat) (rest : List Token) : ∀ a : Atom,
    isBalanced depth (a.tokens ++ rest) = isBalanced depth rest
  | .operand operand => isBalanced_operand operand.isOperand_token
  | .group inner => by
    have h := isBalanced_phrase (depth + 1) (.closeParen :: rest) inner
    rw [Atom.tokens, List.cons_append, List.append_assoc]
    exact h

/-- The parentheses of a phrase cancel out. -/
theorem isBalanced_phrase (depth : Nat) (rest : List Token) : ∀ e : Phrase,
    isBalanced depth (e.tokens ++ rest) = isBalanced depth rest
  | .atom head => isBalanced_atom depth rest head
  | .chain head op tail => by
    have hh := isBalanced_atom depth (.operator op :: (tail.tokens ++ rest)) head
    have ht := isBalanced_phrase depth rest tail
    rw [Phrase.tokens, List.append_assoc, List.cons_append, hh]
    exact ht

end

mutual

theorem takeTurns_atom (rest : List Token) : ∀ (a : Atom) (previous : Option Token),
    endsOperand previous = false → ∃ last, last ≠ .openParen ∧
      takeTurns previous true (a.tokens ++ rest) = takeTurns (some last) false rest
  | .operand operand, previous, hp => by
    refine ⟨operand.token, ?_, ?_⟩
    · cases operand <;> nofun
    · rw [Atom.tokens, List.singleton_append, takeTurns_operand operand.isOperand_token, hp]
      rfl
  | .group inner, previous, hp => by
    obtain ⟨last, hl, h⟩ := takeTurns_phrase (.closeParen :: rest) inner (some .openParen) rfl
    refine ⟨.closeParen, nofun, ?_⟩
    rw [Atom.tokens, List.cons_append, List.append_assoc, List.singleton_append]
    simp [takeTurns, hp, h, hl]

/-- Where an operand is due, a phrase is read to its end, and an operator or the end of its group
is due behind it. -/
theorem takeTurns_phrase (rest : List Token) : ∀ (e : Phrase) (previous : Option Token),
    endsOperand previous = false → ∃ last, last ≠ .openParen ∧
      takeTurns previous true (e.tokens ++ rest) = takeTurns (some last) false rest
  | .atom head, previous, hp => takeTurns_atom rest head previous hp
  | .chain head op tail, previous, hp => by
    obtain ⟨before, -, hh⟩ :=
      takeTurns_atom (.operator op :: (tail.tokens ++ rest)) head previous hp
    obtain ⟨last, hl, ht⟩ := takeTurns_phrase rest tail (some (.operator op)) rfl
    refine ⟨last, hl, ?_⟩
    rw [Phrase.tokens, List.append_assoc, List.cons_append, hh, ← ht]
    rfl

end

/-! ## What takes turns and is balanced is a phrase -/

/-- What can stand behind a whole phrase inside `depth` groups: the parentheses that close them,
each with or without more of the phrase around it. -/
def Closes : Nat → List Token → Prop
  | 0, tokens => tokens = []
  | depth + 1, tokens => ∃ rest, tokens = .closeParen :: rest ∧
      (Closes depth rest ∨
        ∃ op e rest', rest = .operator op :: (Phrase.tokens e ++ rest') ∧ Closes depth rest')

/-- What can stand behind an atom inside `depth` groups. -/
def Continues (depth : Nat) (tokens : List Token) : Prop :=
  Closes depth tokens ∨
    ∃ op e rest, tokens = .operator op :: (Phrase.tokens e ++ rest) ∧ Closes depth rest

/-- An atom and what can stand behind it are a phrase and what can stand behind that. -/
theorem Continues.cons (a : Atom) (h : Continues depth tokens) :
    ∃ e rest, a.tokens ++ tokens = Phrase.tokens e ++ rest ∧ Closes depth rest := by
  rcases h with h | ⟨op, e, rest, rfl, h⟩
  · exact ⟨.atom a, tokens, rfl, h⟩
  · refine ⟨.chain a op e, rest, ?_, h⟩
    rw [Phrase.tokens, List.append_assoc, List.cons_append]

/-- From any point where the turns and the balance are right, the tokens go on like a phrase.  Both
expectations are followed at once, since each token may change which of them holds. -/
theorem phrase_of_takeTurns (ws : List String) :
    ∀ (depth : Nat) (previous : Option Token),
      isBalanced depth (ws.map Token.ofText) = true →
      (takeTurns previous true (ws.map Token.ofText) = .ok () →
        ∃ e rest, ws.map Token.ofText = Phrase.tokens e ++ rest ∧ Closes depth rest) ∧
      (takeTurns previous false (ws.map Token.ofText) = .ok () →
        Continues depth (ws.map Token.ofText)) := by
  induction ws with
  | nil =>
    intro depth previous hb
    refine ⟨nofun, fun _ => Or.inl ?_⟩
    obtain rfl : depth = 0 := by simpa [isBalanced] using hb
    rfl
  | cons w ws ih =>
    intro depth previous hb
    rw [List.map_cons] at hb ⊢
    rcases (Token.ofText w).kind with hk | ⟨op, hk⟩ | hk | hk | ⟨text, hk⟩
    · -- An operand: what follows it continues an atom.
      rw [isBalanced_operand hk] at hb
      constructor
      · intro ht
        obtain ⟨operand, ho⟩ := Token.exists_operand hk
        have hc := (ih depth _ hb).2 (takeTurns_of_operand hk ht).2
        rw [← ho]
        exact hc.cons (.operand operand)
      · intro ht
        cases (takeTurns_of_operand hk ht).1
    · rw [hk] at hb ⊢
      refine ⟨nofun, fun ht => Or.inr ?_⟩
      obtain ⟨e, rest, he, hc⟩ := (ih depth _ hb).1 ht
      exact ⟨op, e, rest, by rw [he], hc⟩
    · -- A group opens: the phrase in it ends at a parenthesis that leaves the depth as it was.
      rw [hk] at hb ⊢
      refine ⟨fun ht => ?_, nofun⟩
      obtain ⟨inner, _, he, rest, rfl, hc⟩ := (ih (depth + 1) _ hb).1 (takeTurns_of_openParen ht)
      have hcons := Continues.cons (.group inner) hc
      rwa [Atom.tokens, List.cons_append, List.append_assoc, List.singleton_append, ← he] at hcons
    · rw [hk] at hb ⊢
      refine ⟨nofun, fun ht => Or.inl ?_⟩
      cases depth with
      | zero => cases hb
      | succ depth => exact ⟨_, rfl, (ih depth _ hb).2 (takeTurns_of_closeParen ht)⟩
    · rw [hk]
      exact ⟨nofun, nofun⟩

/-- The turns and the balance are right exactly for the tokens of a phrase. -/
theorem exists_phrase_iff {ws : List String} :
    (isBalanced 0 (ws.map Token.ofText) = true ∧
      takeTurns none true (ws.map Token.ofText) = .ok ()) ↔
    ∃ e : Phrase, ws.map Token.ofText = e.tokens := by
  constructor
  · rintro ⟨hb, ht⟩
    obtain ⟨e, rest, he, hc⟩ := (phrase_of_takeTurns ws 0 none hb).1 ht
    have hr : rest = [] := hc
    exact ⟨e, by rw [he, hr, List.append_nil]⟩
  · rintro ⟨e, he⟩
    have hb := isBalanced_phrase 0 [] e
    obtain ⟨last, -, ht⟩ := takeTurns_phrase [] e none rfl
    rw [List.append_nil] at hb ht
    rw [he, hb, ht]
    exact ⟨rfl, rfl⟩

/-! ## The other checks -/

theorem checkAlphabet_eq_ok_iff {line : String} : checkAlphabet line = .ok () ↔
    line.toList ≠ [] ∧ ∀ c ∈ line.toList, isAllowed c = true := by
  unfold checkAlphabet
  cases h : line.toList with
  | nil => simp
  | cons a as =>
    cases hf : (a :: as).find? fun c => !isAllowed c with
    | none =>
      have hall : ∀ c ∈ a :: as, isAllowed c = true := by simpa using List.find?_eq_none.1 hf
      simp only [hf, true_iff]
      exact ⟨List.cons_ne_nil a as, hall⟩
    | some c =>
      have hc := List.find?_some hf
      have hm := List.mem_of_find?_eq_some hf
      simp only [hf, reduceCtorEq, false_iff, not_and]
      intro _ hall
      simp [hall c hm] at hc

theorem checkBalance_eq_ok_iff {line : String} :
    checkBalance line = .ok () ↔ isBalanced 0 (Token.ofLine line) = true := by
  unfold checkBalance
  split
  · next h => simp [h]
  · next h => simp [h]

theorem checkTarget_eq_ok_iff {line : String} : checkTarget line = .ok () ↔
    Shape.isIncrement line = true ∨ isAssignment (Token.ofLine line) = true := by
  unfold checkTarget
  rw [← Bool.or_eq_true]
  split
  · next h => simp [h]
  · next h => simp [h]

theorem checkTurns_eq_ok_iff {line : String} : checkTurns line = .ok () ↔
    Text.isBlank line = false ∧ takeTurns none true (Token.ofLine line) = .ok () := by
  unfold checkTurns
  split
  · next h => simp [h]
  · next h => simp [h]

/-- A line is accepted when it passes all four checks. -/
theorem check_eq_ok_iff_checks {line : String} : check line = .ok () ↔
    checkAlphabet line = .ok () ∧ checkBalance line = .ok () ∧ checkTarget line = .ok () ∧
      checkTurns line = .ok () := by
  unfold check
  constructor
  · intro h
    obtain ⟨_, ha, h⟩ := bind_eq_ok_iff.1 h
    obtain ⟨_, hb, h⟩ := bind_eq_ok_iff.1 h
    obtain ⟨_, ht, hs⟩ := bind_eq_ok_iff.1 h
    exact ⟨ha, hb, ht, hs⟩
  · rintro ⟨ha, hb, ht, hs⟩
    refine bind_eq_ok_iff.2 ⟨(), ha, bind_eq_ok_iff.2 ⟨(), hb, ?_⟩⟩
    exact bind_eq_ok_iff.2 ⟨(), ht, hs⟩

end Validation

/-! ## Every character of a phrase belongs to the language -/

namespace Validation

theorem isAllowed_of_mem_digits {c : Char} (h : c ∈ Text.digits) : isAllowed c = true :=
  Text.forall_mem_of_all (isAllowed · = true) (by decide) c h

theorem isAllowed_of_mem_letters {c : Char} (h : c ∈ Text.letters) : isAllowed c = true :=
  Text.forall_mem_of_all (isAllowed · = true) (by decide) c h

theorem isAllowed_of_mem_separators {c : Char} (h : c ∈ Text.separators) : isAllowed c = true := by
  simp [isAllowed, h]

end Validation

mutual

theorem Atom.mem_tokens {token : Token} : ∀ {a : Atom}, token ∈ a.tokens →
    (∃ operand : Operand, token = operand.token) ∨ (∃ op, token = .operator op) ∨
      token = .openParen ∨ token = .closeParen
  | .operand operand, h => Or.inl ⟨operand, by simpa [Atom.tokens] using h⟩
  | .group inner, h => by
    simp only [Atom.tokens, List.mem_cons, List.mem_append, List.not_mem_nil, or_false] at h
    rcases h with h | h | h
    · exact Or.inr (Or.inr (Or.inl h))
    · exact Phrase.mem_tokens h
    · exact Or.inr (Or.inr (Or.inr h))

/-- A phrase is made of operands, operators and parentheses. -/
theorem Phrase.mem_tokens {token : Token} : ∀ {e : Phrase}, token ∈ e.tokens →
    (∃ operand : Operand, token = operand.token) ∨ (∃ op, token = .operator op) ∨
      token = .openParen ∨ token = .closeParen
  | .atom head, h => Atom.mem_tokens (a := head) h
  | .chain head op tail, h => by
    simp only [Phrase.tokens, List.mem_cons, List.mem_append] at h
    rcases h with h | h | h
    · exact Atom.mem_tokens h
    · exact Or.inr (Or.inl ⟨op, h⟩)
    · exact Phrase.mem_tokens h

end

/-- An operand is written with digits, letters and `+`. -/
theorem Operand.mem_text (operand : Operand) {c : Char} (hc : c ∈ operand.token.text.toList) :
    c ∈ Text.digits ∨ c ∈ Text.letters ∨ c = '+' := by
  cases operand with
  | number digits spelled => exact Or.inl (spelled.2 c hc)
  | letter name spelled =>
    obtain rfl : c = name := by simpa [token, Token.text] using hc
    exact Or.inr (Or.inl spelled)
  | preIncrement name spelled =>
    have h : c = '+' ∨ c = name := by simpa [token, Token.text] using hc
    rcases h with rfl | rfl
    · exact Or.inr (Or.inr rfl)
    · exact Or.inr (Or.inl spelled)
  | postIncrement name spelled =>
    have h : c = name ∨ c = '+' := by simpa [token, Token.text] using hc
    rcases h with rfl | rfl
    · exact Or.inr (Or.inl spelled)
    · exact Or.inr (Or.inr rfl)

theorem Operand.isAllowed_of_mem (operand : Operand) {c : Char}
    (hc : c ∈ operand.token.text.toList) : Validation.isAllowed c = true := by
  rcases operand.mem_text hc with h | h | rfl
  · exact Validation.isAllowed_of_mem_digits h
  · exact Validation.isAllowed_of_mem_letters h
  · rfl

theorem Operator.isAllowed_of_mem (op : Operator) {c : Char} (hc : c ∈ op.symbol.toList) :
    Validation.isAllowed c = true := by
  refine Text.forall_mem_of_all (Validation.isAllowed · = true) ?_ c hc
  rcases op with ⟨⟨⟩⟩ | _ | _ <;> decide

/-- The words of a phrase hold only characters of the language. -/
theorem Phrase.isAllowed_of_mem {e : Phrase} {word : String} {c : Char} (hw : word ∈ e.words)
    (hc : c ∈ word.toList) : Validation.isAllowed c = true := by
  obtain ⟨token, ht, rfl⟩ := List.mem_map.1 hw
  rcases Phrase.mem_tokens ht with ⟨operand, rfl⟩ | ⟨op, rfl⟩ | rfl | rfl
  · exact operand.isAllowed_of_mem hc
  · exact op.isAllowed_of_mem hc
  · exact Text.forall_mem_of_all (Validation.isAllowed · = true) (by decide) c hc
  · exact Text.forall_mem_of_all (Validation.isAllowed · = true) (by decide) c hc

mutual

theorem Atom.exists_operand : ∀ a : Atom, ∃ operand : Operand, operand.token ∈ a.tokens
  | .operand operand => ⟨operand, List.mem_singleton_self _⟩
  | .group inner => by
    obtain ⟨operand, h⟩ := Phrase.exists_operand inner
    refine ⟨operand, ?_⟩
    rw [Atom.tokens]
    exact List.mem_cons_of_mem _ (List.mem_append_left _ h)

theorem Phrase.exists_operand : ∀ e : Phrase, ∃ operand : Operand, operand.token ∈ e.tokens
  | .atom head => Atom.exists_operand head
  | .chain head op tail => by
    obtain ⟨operand, h⟩ := Atom.exists_operand head
    refine ⟨operand, ?_⟩
    rw [Phrase.tokens]
    exact List.mem_append_left _ h

end

theorem Text.isWhiteSpace_of_mem_letters {c : Char} (h : c ∈ Text.letters) :
    Text.isWhiteSpace c = false :=
  forall_mem_of_all (Text.isWhiteSpace · = false) (by decide) c h

theorem Text.isWhiteSpace_of_mem_digits {c : Char} (h : c ∈ Text.digits) :
    Text.isWhiteSpace c = false :=
  forall_mem_of_all (Text.isWhiteSpace · = false) (by decide) c h

/-- There is something to see in an operand. -/
theorem Operand.exists_visible (operand : Operand) :
    ∃ c ∈ operand.token.text.toList, Text.isWhiteSpace c = false := by
  cases operand with
  | number digits spelled =>
    obtain ⟨c, cs, hd⟩ := List.exists_cons_of_ne_nil spelled.1
    have hc : c ∈ digits.toList := by rw [hd]; exact List.mem_cons_self
    exact ⟨c, hc, Text.isWhiteSpace_of_mem_digits (spelled.2 c hc)⟩
  | letter name spelled =>
    exact ⟨name, by simp [token, Token.text], Text.isWhiteSpace_of_mem_letters spelled⟩
  | preIncrement name spelled =>
    exact ⟨name, by simp [token, Token.text], Text.isWhiteSpace_of_mem_letters spelled⟩
  | postIncrement name spelled =>
    exact ⟨name, by simp [token, Token.text], Text.isWhiteSpace_of_mem_letters spelled⟩

theorem Text.not_mem_stops_of_mem_letters {c : Char} (h : c ∈ Text.letters) : c ∉ Text.stops :=
  forall_mem_of_all (· ∉ Text.stops) (by decide) c h

theorem Text.not_mem_stops_of_mem_digits {c : Char} (h : c ∈ Text.digits) : c ∉ Text.stops :=
  forall_mem_of_all (· ∉ Text.stops) (by decide) c h

theorem Operand.not_mem_stops (operand : Operand) {c : Char}
    (hc : c ∈ operand.token.text.toList) : c ∉ Text.stops := by
  rcases operand.mem_text hc with h | h | rfl
  · exact Text.not_mem_stops_of_mem_digits h
  · exact Text.not_mem_stops_of_mem_letters h
  · decide

/-- The text of an operand is one word. -/
theorem Operand.spells (operand : Operand) :
    Spells operand.token.text.toList [operand.token.text] := by
  obtain ⟨c, hc, -⟩ := operand.exists_visible
  exact Spells.word (List.ne_nil_of_mem hc) fun _ => operand.not_mem_stops

theorem Operand.words_text (operand : Operand) :
    words operand.token.text = (Phrase.atom (.operand operand)).words := by
  rw [words_eq_wordsOf, operand.spells.wordsOf_eq]
  rfl

/-- There is something to see in a line with the words of a phrase. -/
theorem Phrase.exists_visible {e : Phrase} {line : String} (h : LetterCalc.words line = e.words) :
    ∃ c ∈ line.toList, Text.isWhiteSpace c = false := by
  obtain ⟨operand, ho⟩ := e.exists_operand
  obtain ⟨c, hc, hv⟩ := operand.exists_visible
  have hw : operand.token.text ∈ LetterCalc.words line := by
    rw [h]
    exact List.mem_map_of_mem ho
  exact ⟨c, mem_of_mem_wordsOf hw hc, hv⟩

namespace Validation

/-! ## The accepted lines -/

/-- A line that has the tokens of a phrase passes the first check. -/
theorem checkAlphabet_of_phrase {e : Phrase} {line : String} (h : words line = e.words) :
    checkAlphabet line = .ok () := by
  refine checkAlphabet_eq_ok_iff.2 ⟨?_, ?_⟩
  · obtain ⟨c, hc, -⟩ := Phrase.exists_visible h
    exact List.ne_nil_of_mem hc
  · intro c hc
    rcases mem_separators_or_mem_wordsOf hc with hs | ⟨word, hw, hcw⟩
    · exact isAllowed_of_mem_separators hs
    · rw [← words_eq_wordsOf, h] at hw
      exact Phrase.isAllowed_of_mem hw hcw

/-- A line is accepted exactly when it has the tokens of a phrase and is an assignment. -/
theorem check_eq_ok_iff {line : String} : check line = .ok () ↔
    (∃ e : Phrase, words line = e.words) ∧
      (Shape.isIncrement line = true ∨ isAssignment (Token.ofLine line) = true) := by
  rw [check_eq_ok_iff_checks, checkBalance_eq_ok_iff, checkTarget_eq_ok_iff, checkTurns_eq_ok_iff]
  constructor
  · rintro ⟨-, hb, ht, -, hs⟩
    obtain ⟨e, he⟩ := exists_phrase_iff.1 ⟨hb, hs⟩
    exact ⟨⟨e, Phrase.words_eq_iff.2 he⟩, ht⟩
  · rintro ⟨⟨e, he⟩, ht⟩
    obtain ⟨hb, hs⟩ := exists_phrase_iff.2 ⟨e, Phrase.words_eq_iff.1 he⟩
    refine ⟨checkAlphabet_of_phrase he, hb, ht, ?_, hs⟩
    obtain ⟨c, hc, hv⟩ := Phrase.exists_visible he
    refine Bool.eq_false_iff.2 fun hblank => ?_
    have := List.all_eq_true.1 hblank c hc
    simp [hv] at this

/-- The tokens of an assignment are a variable, an assignment operator and a phrase. -/
theorem exists_tail_of_isAssignment {e : Phrase} (h : isAssignment e.tokens = true) :
    ∃ name, ∃ spelled : name ∈ Text.letters, ∃ op, (op = .assign ∨ op = .addAssign) ∧
      ∃ tail, e = .chain (.operand (.letter name spelled)) op tail := by
  rcases e with ⟨operand | inner⟩ | ⟨operand | inner, op, tail⟩
  · cases operand <;> cases h
  · cases h
  · cases operand with
    | letter name spelled =>
      cases op with
      | arith op => cases h
      | assign => exact ⟨name, spelled, .assign, Or.inl rfl, tail, rfl⟩
      | addAssign => exact ⟨name, spelled, .addAssign, Or.inr rfl, tail, rfl⟩
    | number _ _ | preIncrement _ _ | postIncrement _ _ => cases h
  · cases h

theorem isIncrement_iff {line : String} : Shape.isIncrement line = true ↔
    ∃ name ∈ Text.letters,
      line.toList = ['+', '+', name] ∨ line.toList = [name, '+', '+'] := by
  simp only [Shape.isIncrement, Shape.isPreIncrement, Shape.isPostIncrement, Bool.or_eq_true,
    Option.isSome_iff_exists, Shape.preIncrement?_eq_some_iff, Shape.postIncrement?_eq_some_iff]
  constructor
  · rintro (⟨name, hn, h⟩ | ⟨name, hn, h⟩)
    · exact ⟨name, hn, Or.inl h⟩
    · exact ⟨name, hn, Or.inr h⟩
  · rintro ⟨name, hn, h | h⟩
    · exact Or.inl ⟨name, hn, h⟩
    · exact Or.inr ⟨name, hn, h⟩

/-- An increment with nothing around it is a phrase of one operand. -/
theorem exists_phrase_of_isIncrement {line : String} (h : Shape.isIncrement line = true) :
    ∃ name, ∃ spelled : name ∈ Text.letters,
      words line = (Phrase.atom (.operand (.preIncrement name spelled))).words ∨
        words line = (Phrase.atom (.operand (.postIncrement name spelled))).words := by
  obtain ⟨name, hn, hline | hline⟩ := isIncrement_iff.1 h
  · have ht : line = (Operand.preIncrement name hn).token.text :=
      String.toList_injective (by simp [hline, Operand.token, Token.text])
    exact ⟨name, hn, Or.inl (by rw [ht, Operand.words_text])⟩
  · have ht : line = (Operand.postIncrement name hn).token.text :=
      String.toList_injective (by simp [hline, Operand.token, Token.text])
    exact ⟨name, hn, Or.inr (by rw [ht, Operand.words_text])⟩

/-- A line of two words or more is no bare increment. -/
theorem isIncrement_eq_false {line : String} (h : 2 ≤ (words line).length) :
    Shape.isIncrement line = false := by
  refine Bool.eq_false_iff.2 fun hi => ?_
  obtain ⟨name, spelled, hw | hw⟩ := exists_phrase_of_isIncrement hi
  · simp [hw, Phrase.words, Phrase.tokens, Atom.tokens] at h
  · simp [hw, Phrase.words, Phrase.tokens, Atom.tokens] at h

/-- Validation accepts exactly its language: a bare increment of three characters, or a line whose
words are a variable, `=` or `+=`, and the words of a phrase. -/
theorem accepts_iff_mem_language (line : String) : check line = .ok () ↔
    (∃ name ∈ Text.letters,
      line.toList = ['+', '+', name] ∨ line.toList = [name, '+', '+']) ∨
    ∃ name ∈ Text.letters, ∃ op, (op = "=" ∨ op = "+=") ∧
      ∃ e : Phrase, words line = String.singleton name :: op :: e.words := by
  rw [check_eq_ok_iff, ← isIncrement_iff]
  constructor
  · rintro ⟨⟨e, he⟩, hi | ha⟩
    · exact Or.inl hi
    · rw [Phrase.words_eq_iff.1 he] at ha
      obtain ⟨name, spelled, op, hop, tail, rfl⟩ := exists_tail_of_isAssignment ha
      refine Or.inr ⟨name, spelled, op.symbol, ?_, tail, he⟩
      rcases hop with rfl | rfl
      · exact Or.inl rfl
      · exact Or.inr rfl
  · rintro (hi | ⟨name, hn, op, hop, e, he⟩)
    · obtain ⟨name, spelled, hw | hw⟩ := exists_phrase_of_isIncrement hi
      · exact ⟨⟨_, hw⟩, Or.inl hi⟩
      · exact ⟨⟨_, hw⟩, Or.inl hi⟩
    · have hphrase : ∀ op' : Operator, op'.symbol = op →
          words line = (Phrase.chain (.operand (.letter name hn)) op' e).words := by
        intro op' hs
        rw [he, ← hs]
        rfl
      rcases hop with rfl | rfl
      · have hw := hphrase .assign rfl
        exact ⟨⟨_, hw⟩, Or.inr (by rw [Phrase.words_eq_iff.1 hw]; rfl)⟩
      · have hw := hphrase .addAssign rfl
        exact ⟨⟨_, hw⟩, Or.inr (by rw [Phrase.words_eq_iff.1 hw]; rfl)⟩

end Validation

end LetterCalc
