import LetterCalc.Token.Lemmas

/-!
# The phrases of the language

A phrase is a derivation in the grammar

* `E → A | A o E`
* `A → number | letter | ++letter | letter++ | ( E )`

where `o` is one of the operators.  It is kept as a tree, `Phrase` for `E` and `Atom` for `A`, and
`tokens` and `words` are what it derives.  An operand carries the proof that it is spelled as its
kind demands, so that no phrase derives a token that no word stands for: a line has the words of a
phrase exactly when it has its tokens (`words_eq_iff`).
-/

namespace LetterCalc

/-- An operand of the language, with the proof that it is spelled like one. -/
inductive Operand where
  /-- One or more digits. -/
  | number (digits : String)
      (spelled : digits.toList ≠ [] ∧ ∀ c ∈ digits.toList, c ∈ Text.digits)
  /-- A variable. -/
  | letter (name : Char) (spelled : name ∈ Text.letters)
  /-- A variable with `++` before it. -/
  | preIncrement (name : Char) (spelled : name ∈ Text.letters)
  /-- A variable with `++` behind it. -/
  | postIncrement (name : Char) (spelled : name ∈ Text.letters)

/-- The token of an operand. -/
def Operand.token : Operand → Token
  | number digits _ => .number digits
  | letter name _ => .letter name
  | preIncrement name _ => .preIncrement name
  | postIncrement name _ => .postIncrement name

mutual

/-- What can stand between two operators: an operand or a phrase in parentheses. -/
inductive Atom where
  | operand (operand : Operand)
  | group (inner : Phrase)

/-- Atoms with operators between them. -/
inductive Phrase where
  | atom (head : Atom)
  | chain (head : Atom) (op : Operator) (tail : Phrase)

end

mutual

/-- The tokens that an atom derives. -/
def Atom.tokens : Atom → List Token
  | .operand operand => [operand.token]
  | .group inner => .openParen :: (inner.tokens ++ [.closeParen])

/-- The tokens that a phrase derives. -/
def Phrase.tokens : Phrase → List Token
  | .atom head => head.tokens
  | .chain head op tail => head.tokens ++ .operator op :: tail.tokens

end

/-- The words that a phrase derives. -/
def Phrase.words (e : Phrase) : List String := e.tokens.map Token.text

/-! ## How tokens are spelled -/

namespace Text

theorem not_mem_digits_of_mem_letters {c : Char} (h : c ∈ letters) : c ∉ digits :=
  forall_mem_of_all (· ∉ digits) (by decide) c h

theorem ne_plus_of_mem_letters {c : Char} (h : c ∈ letters) : c ≠ '+' :=
  forall_mem_of_all (· ≠ '+') (by decide) c h

end Text

namespace Token

theorem ofText_number {word : String}
    (h : word.toList ≠ [] ∧ ∀ c ∈ word.toList, c ∈ Text.digits) : ofText word = number word := by
  unfold ofText
  rw [if_pos (Shape.isNumber_iff.2 h)]

/-- A word with a character that is no digit is no number. -/
theorem isNumber_eq_false {word : String} {c : Char} (hc : c ∈ word.toList)
    (hd : c ∉ Text.digits) : Shape.isNumber word = false := by
  refine Bool.eq_false_iff.2 fun h => ?_
  exact hd ((Shape.isNumber_iff.1 h).2 c hc)

/-- A word of two or more characters is no variable. -/
theorem letter?_eq_none {word : String} (h : word.toList.length ≠ 1) :
    Shape.letter? word = none := by
  refine Option.eq_none_iff_forall_ne_some.2 fun name hn => ?_
  rw [(Shape.letter?_eq_some_iff.1 hn).2] at h
  exact h rfl

theorem ofText_letter {word : String} {name : Char} (h : name ∈ Text.letters)
    (hw : word.toList = [name]) : ofText word = letter name := by
  have hn : Shape.isNumber word = false :=
    isNumber_eq_false (c := name) (by simp [hw]) (Text.not_mem_digits_of_mem_letters h)
  have hl : Shape.letter? word = some name := Shape.letter?_eq_some_iff.2 ⟨h, hw⟩
  simp [ofText, hn, hl]

theorem ofText_preIncrement {word : String} {name : Char} (h : name ∈ Text.letters)
    (hw : word.toList = ['+', '+', name]) : ofText word = preIncrement name := by
  have hn : Shape.isNumber word = false :=
    isNumber_eq_false (c := '+') (by simp [hw]) (by decide)
  have hl : Shape.letter? word = none := letter?_eq_none (by simp [hw])
  have hp : Shape.preIncrement? word = some name := Shape.preIncrement?_eq_some_iff.2 ⟨h, hw⟩
  simp [ofText, hn, hl, hp]

theorem ofText_postIncrement {word : String} {name : Char} (h : name ∈ Text.letters)
    (hw : word.toList = [name, '+', '+']) : ofText word = postIncrement name := by
  have hn : Shape.isNumber word = false :=
    isNumber_eq_false (c := '+') (by simp [hw]) (by decide)
  have hl : Shape.letter? word = none := letter?_eq_none (by simp [hw])
  have hpre : Shape.preIncrement? word = none := by
    refine Option.eq_none_iff_forall_ne_some.2 fun found hf => ?_
    have ht := (Shape.preIncrement?_eq_some_iff.1 hf).2
    rw [hw, List.cons.injEq] at ht
    exact Text.ne_plus_of_mem_letters h ht.1
  have hp : Shape.postIncrement? word = some name := Shape.postIncrement?_eq_some_iff.2 ⟨h, hw⟩
  simp [ofText, hn, hl, hpre, hp]

/-- A word without digits and letters is no operand. -/
theorem ofText_of_not_operand {word : String} (hne : word.toList ≠ [])
    (h : ∀ c ∈ word.toList, c ∉ Text.digits ∧ c ∉ Text.letters) :
    ofText word =
      match Operator.ofText? word with
      | some op => operator op
      | none =>
        if Shape.isOpenParen word then openParen
        else if Shape.isCloseParen word then closeParen else other word := by
  obtain ⟨c, cs, hw⟩ := List.exists_cons_of_ne_nil hne
  have hn : Shape.isNumber word = false :=
    isNumber_eq_false (c := c) (by simp [hw]) (h c (by simp [hw])).1
  have hl : Shape.letter? word = none := by
    refine Option.eq_none_iff_forall_ne_some.2 fun name hs => ?_
    obtain ⟨hm, ht⟩ := Shape.letter?_eq_some_iff.1 hs
    exact (h name (by simp [ht])).2 hm
  have hpre : Shape.preIncrement? word = none := by
    refine Option.eq_none_iff_forall_ne_some.2 fun name hs => ?_
    obtain ⟨hm, ht⟩ := Shape.preIncrement?_eq_some_iff.1 hs
    exact (h name (by simp [ht])).2 hm
  have hpost : Shape.postIncrement? word = none := by
    refine Option.eq_none_iff_forall_ne_some.2 fun name hs => ?_
    obtain ⟨hm, ht⟩ := Shape.postIncrement?_eq_some_iff.1 hs
    exact (h name (by simp [ht])).2 hm
  cases ho : Operator.ofText? word <;> simp [ofText, hn, hl, hpre, hpost, ho]

theorem ofText_operator (op : Operator) : ofText op.symbol = operator op := by
  have hne : op.symbol.toList ≠ [] := by rcases op with ⟨⟨⟩⟩ | _ | _ <;> decide
  rw [ofText_of_not_operand hne, Operator.ofText?_symbol]
  refine Text.forall_mem_of_all _ ?_
  rcases op with ⟨⟨⟩⟩ | _ | _ <;> decide

theorem ofText_openParen : ofText "(" = openParen := by
  rw [ofText_of_not_operand (by decide) (Text.forall_mem_of_all _ (by decide))]
  rfl

theorem ofText_closeParen : ofText ")" = closeParen := by
  rw [ofText_of_not_operand (by decide) (Text.forall_mem_of_all _ (by decide))]
  rfl

/-- Every operand token of a word is the token of an operand: it is spelled as its kind demands. -/
theorem exists_operand {word : String} :
    (ofText word).isOperand = true → ∃ operand : Operand, operand.token = ofText word := by
  unfold ofText
  split
  · next h => exact fun _ => ⟨.number word (Shape.isNumber_iff.1 h), rfl⟩
  split
  · next name h => exact fun _ => ⟨.letter name (Shape.letter?_eq_some_iff.1 h).1, rfl⟩
  split
  · next name h => exact fun _ => ⟨.preIncrement name (Shape.preIncrement?_eq_some_iff.1 h).1, rfl⟩
  split
  · next name h =>
    exact fun _ => ⟨.postIncrement name (Shape.postIncrement?_eq_some_iff.1 h).1, rfl⟩
  split
  · nofun
  split
  · nofun
  split <;> nofun

end Token

/-- An operand is read back from its text. -/
theorem Operand.ofText_text (operand : Operand) :
    Token.ofText operand.token.text = operand.token := by
  cases operand with
  | number digits spelled => exact Token.ofText_number spelled
  | letter name spelled => exact Token.ofText_letter spelled (by simp [token, Token.text])
  | preIncrement name spelled =>
    exact Token.ofText_preIncrement spelled (by simp [token, Token.text])
  | postIncrement name spelled =>
    exact Token.ofText_postIncrement spelled (by simp [token, Token.text])

mutual

theorem Atom.map_ofText_tokens : ∀ a : Atom,
    (a.tokens.map Token.text).map Token.ofText = a.tokens
  | .operand operand => by simp [Atom.tokens, operand.ofText_text]
  | .group inner => by
    have h := inner.map_ofText_tokens
    simp only [Atom.tokens, List.map_cons, List.map_append, List.map_nil, h]
    rw [Token.text, Token.text, Token.ofText_openParen, Token.ofText_closeParen]

/-- The tokens of a phrase are those of its words. -/
theorem Phrase.map_ofText_tokens : ∀ e : Phrase,
    (e.tokens.map Token.text).map Token.ofText = e.tokens
  | .atom head => by simpa only [Phrase.tokens] using head.map_ofText_tokens
  | .chain head op tail => by
    have hh := head.map_ofText_tokens
    have ht := tail.map_ofText_tokens
    simp only [Phrase.tokens, List.map_cons, List.map_append, hh, ht]
    rw [Token.text, Token.ofText_operator]

end

theorem Phrase.map_ofText_words (e : Phrase) : e.words.map Token.ofText = e.tokens :=
  e.map_ofText_tokens

/-- Words and tokens of a list of words determine each other. -/
theorem Token.map_text_map_ofText (ws : List String) :
    (ws.map Token.ofText).map Token.text = ws := by
  have h : ws.map (Token.text ∘ Token.ofText) = ws.map id :=
    List.map_congr_left fun w _ => Token.text_ofText w
  rw [List.map_map, h, List.map_id]

/-- A line has the words of a phrase exactly when it has the tokens of the phrase. -/
theorem Phrase.words_eq_iff {e : Phrase} {line : String} :
    LetterCalc.words line = e.words ↔ Token.ofLine line = e.tokens := by
  constructor
  · intro h
    rw [Token.ofLine, h, map_ofText_words]
  · intro h
    rw [words, ← h, Token.ofLine, Token.map_text_map_ofText]

end LetterCalc
