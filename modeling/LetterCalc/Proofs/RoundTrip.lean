import LetterCalc.Proofs.Evaluation
import LetterCalc.Proofs.Reading

/-!
# Printing and reading are inverse

A tree is plain if a text can say it: its names are letters of the language and its literals are
not negative.  The text of a plain tree is read as that tree, and it is accepted exactly when the
tree is a statement, that is, when an assignment or an increment is at its root.

The printer puts parentheses where the tree is an operand, and the reader reads more into what is
not in parentheses.  The induction therefore carries two facts about a tree: as an operand it is
written as an atom (`WritesAtom`), and by itself it is written as a phrase (`WritesPhrase`).

In the other direction, the reader makes nothing but plain statements of accepted lines, so a line
can be replaced by the text of its tree.
-/

namespace LetterCalc

namespace Tree

/-- Whether all names are letters of the language and no literal is negative. -/
def IsPlain : Tree → Prop
  | literal value => 0 ≤ value.toInt
  | letter name => name ∈ Text.letters
  | binary _ left right => left.IsPlain ∧ right.IsPlain
  | assign target value => target ∈ Text.letters ∧ value.IsPlain
  | postIncrement name => name ∈ Text.letters

instance decidableIsPlain : (tree : Tree) → Decidable tree.IsPlain
  | literal value => inferInstanceAs (Decidable (0 ≤ value.toInt))
  | letter name => inferInstanceAs (Decidable (name ∈ Text.letters))
  | binary _ left right =>
    have := left.decidableIsPlain
    have := right.decidableIsPlain
    inferInstanceAs (Decidable (left.IsPlain ∧ right.IsPlain))
  | assign target value =>
    have := value.decidableIsPlain
    inferInstanceAs (Decidable (target ∈ Text.letters ∧ value.IsPlain))
  | postIncrement name => inferInstanceAs (Decidable (name ∈ Text.letters))

/-- Whether the root of a tree is an assignment or an increment. -/
def IsStatement : Tree → Prop
  | assign _ _ | postIncrement _ => True
  | literal _ | letter _ | binary _ _ _ => False

end Tree

/-! ## The text of a value -/

namespace Value

/-- A value that is not negative is written as a natural number that fits. -/
theorem exists_nat_of_nonneg {value : Value} (h : 0 ≤ value.toInt) :
    ∃ n : Nat, n ≤ largest ∧ value = Int64.ofNat n ∧ text value = toString n := by
  obtain ⟨n, hn⟩ := Int.eq_ofNat_of_zero_le h
  have hlt : n < 2 ^ 63 := by
    have := value.toInt_lt
    omega
  refine ⟨n, Nat.le_of_lt_succ hlt, ?_, ?_⟩
  · rw [← Int64.toInt_inj, hn, Int64.toInt_ofNat_of_lt hlt]
  · rw [text, hn]
    rfl

theorem ofDigits?_text {value : Value} (h : 0 ≤ value.toInt) :
    ofDigits? (text value) = some value := by
  obtain ⟨n, hn, rfl, ht⟩ := exists_nat_of_nonneg h
  rw [ht, ofDigits?, natOfDigits_toString, if_pos hn]

theorem spelled_text {value : Value} (h : 0 ≤ value.toInt) :
    (text value).toList ≠ [] ∧ ∀ c ∈ (text value).toList, c ∈ Text.digits := by
  obtain ⟨n, -, -, ht⟩ := exists_nat_of_nonneg h
  rw [ht, Nat.toString_eq_ofList_toDigits, String.toList_ofList]
  refine ⟨Nat.toDigits_ne_nil, fun c hc => ?_⟩
  exact Text.mem_digits_iff.2 (Nat.isDigit_of_mem_toDigits (by decide) (by decide) hc)

end Value

/-! ## The texts of phrases -/

theorem Operator.spells (op : Operator) : Spells op.symbol.toList [op.symbol] := by
  have hne : op.symbol.toList ≠ [] := by rcases op with ⟨⟨⟩⟩ | _ | _ <;> decide
  have hstops : ∀ c ∈ op.symbol.toList, c ∉ Text.stops := by
    refine Text.forall_mem_of_all _ ?_
    rcases op with ⟨⟨⟩⟩ | _ | _ <;> decide
  exact Spells.word hne hstops

theorem Phrase.spells_chain {head : Atom} {tail : Phrase} {text text' : List Char} (op : Operator)
    (h : Spells text (head.tokens.map Token.text)) (h' : Spells text' tail.words) :
    Spells (text ++ ' ' :: (op.symbol.toList ++ ' ' :: text')) (chain head op tail).words := by
  have hspace : ' ' ∈ Text.separators := by decide
  have hstop : ' ' ∈ Text.stops := by decide
  have hop := op.spells.append (h'.separator hspace) hstop
  have hchain := h.append (hop.separator hspace) hstop
  rw [words, tokens, List.map_append]
  exact hchain

theorem Atom.spells_group {inner : Phrase} {text : List Char} (h : Spells text inner.words) :
    Spells ('(' :: (text ++ [')'])) ((group inner).tokens.map Token.text) := by
  have hclose : Spells [')'] [")"] := Spells.nil.paren (by decide)
  have hgroup := (h.append hclose (by decide)).paren (a := '(') (by decide)
  rw [tokens, List.map_cons, List.map_append]
  exact hgroup

/-! ## From a tree to its text and back -/

/-- The text spells an atom that is read as the tree. -/
def WritesAtom (text : String) (tree : Tree) : Prop :=
  ∃ a : Atom, Spells text.toList (a.tokens.map Token.text) ∧ a.result = .ok tree

/-- The text spells a phrase that is read as the tree. -/
def WritesPhrase (text : String) (tree : Tree) : Prop :=
  ∃ e : Phrase, Spells text.toList e.words ∧ e.result = .ok tree

theorem writesAtom_operand (operand : Operand) {tree : Tree} (h : operand.result = .ok tree) :
    WritesAtom operand.token.text tree :=
  ⟨.operand operand, operand.spells, h⟩

theorem WritesAtom.phrase {text : String} {tree : Tree} (h : WritesAtom text tree) :
    WritesPhrase text tree := by
  obtain ⟨a, hs, hr⟩ := h
  exact ⟨.atom a, hs, by rw [Phrase.result_atom, hr]⟩

theorem WritesPhrase.group {text : String} {tree : Tree} (h : WritesPhrase text tree) :
    WritesAtom ("(" ++ text ++ ")") tree := by
  obtain ⟨e, hs, hr⟩ := h
  refine ⟨.group e, ?_, hr⟩
  have ht : ("(" ++ text ++ ")").toList = '(' :: (text.toList ++ [')']) := by simp
  rw [ht]
  exact Atom.spells_group hs

/-- Two operands with the sign of an operation between them. -/
theorem WritesAtom.binary {text text' : String} {left right : Tree} (op : Arith)
    (h : WritesAtom text left) (h' : WritesAtom text' right) :
    WritesPhrase (text ++ " " ++ op.symbol ++ " " ++ text') (.binary op left right) := by
  obtain ⟨a, hs, hr⟩ := h
  obtain ⟨a', hs', hr'⟩ := h'
  refine ⟨.chain a (.arith op) (.atom a'), ?_, ?_⟩
  · have ht : (text ++ " " ++ op.symbol ++ " " ++ text').toList =
        text.toList ++ ' ' :: ((Operator.arith op).symbol.toList ++ ' ' :: text'.toList) := by
      simp [Operator.symbol]
    rw [ht]
    exact Phrase.spells_chain _ hs hs'
  · have hatom : (Phrase.atom a').resultAfter none = .ok right := by
      rw [← Phrase.result, Phrase.result_atom, hr']
    have hfactor : (Phrase.atom a').resultAfter (some left) = .ok (.binary .mul left right) := by
      rw [Phrase.resultAfter, hr']
      rfl
    rw [Phrase.result, Phrase.resultAfter]
    refine bind_eq_ok_iff.2 ⟨left, hr, ?_⟩
    cases op with
    | add => exact bind_eq_ok_iff.2 ⟨right, hatom, rfl⟩
    | sub => exact bind_eq_ok_iff.2 ⟨right, hatom, rfl⟩
    | mul => exact hfactor

theorem spells_assign {target : Char} {text : String} {e : Phrase} (ht : target ∈ Text.letters)
    (h : Spells text.toList e.words) :
    Spells (String.singleton target ++ " = " ++ text).toList
      (Phrase.chain (.operand (.letter target ht)) .assign e).words := by
  have htext : (String.singleton target ++ " = " ++ text).toList =
      (String.singleton target).toList ++ ' ' :: (Operator.assign.symbol.toList ++
        ' ' :: text.toList) := by
    simp [Operator.symbol]
  rw [htext]
  exact Phrase.spells_chain .assign (Operand.letter target ht).spells h

theorem WritesPhrase.assign {target : Char} {text : String} {tree : Tree}
    (ht : target ∈ Text.letters) (h : WritesPhrase text tree) :
    WritesPhrase (String.singleton target ++ " = " ++ text) (.assign target tree) := by
  obtain ⟨e, hs, hr⟩ := h
  refine ⟨_, spells_assign ht hs, ?_⟩
  rw [Phrase.result, Phrase.resultAfter]
  refine bind_eq_ok_iff.2 ⟨.letter target, rfl, bind_eq_ok_iff.2 ⟨target, rfl, ?_⟩⟩
  exact bind_eq_ok_iff.2 ⟨tree, hr, rfl⟩

namespace Tree

/-- A plain tree is written as an atom where it is an operand, and as a phrase by itself. -/
theorem IsPlain.writes {tree : Tree} (h : tree.IsPlain) :
    WritesAtom (tree.wrapOperand tree.text) tree ∧ WritesPhrase tree.text tree := by
  induction tree with
  | literal value =>
    have hresult : (Operand.number (Value.text value) (Value.spelled_text h)).result =
        .ok (.literal value) := by
      rw [Operand.result, Value.ofDigits?_text h]
    have hatom := writesAtom_operand _ hresult
    exact ⟨hatom, hatom.phrase⟩
  | letter name =>
    have hatom := writesAtom_operand (.letter name h) rfl
    exact ⟨hatom, hatom.phrase⟩
  | binary op left right ihl ihr =>
    have hbinary := (ihl h.1).1.binary op (ihr h.2).1
    have hatom : WritesAtom (binary op left right).text (.binary op left right) := by
      have hgroup := hbinary.group
      simpa only [text, String.append_assoc] using hgroup
    exact ⟨hatom, hatom.phrase⟩
  | assign target value ih =>
    have hassign := (ih h.2).2.assign h.1
    exact ⟨hassign.group, hassign⟩
  | postIncrement name =>
    have hatom := writesAtom_operand (.postIncrement name h) rfl
    exact ⟨hatom, hatom.phrase⟩

/-- The text of a plain tree is read as the tree. -/
theorem IsPlain.result_text {tree : Tree} (h : tree.IsPlain) :
    (ofLine tree.text).result = .ok tree := by
  obtain ⟨e, hs, hr⟩ := h.writes.2
  have hw : words tree.text = e.words := by rw [words_eq_wordsOf, hs.wordsOf_eq]
  rw [Phrase.result_ofLine hw, hr]

/-- The text of a plain statement is accepted. -/
theorem IsPlain.check_text {tree : Tree} (h : tree.IsPlain) (hs : tree.IsStatement) :
    Validation.check tree.text = .ok () := by
  cases tree with
  | assign target value =>
    obtain ⟨e, hspells, -⟩ := h.2.writes.2
    have hw : words (assign target value).text =
        (Phrase.chain (.operand (.letter target h.1)) .assign e).words := by
      rw [words_eq_wordsOf]
      exact (spells_assign h.1 hspells).wordsOf_eq
    refine Validation.check_eq_ok_iff.2 ⟨⟨_, hw⟩, Or.inr ?_⟩
    rw [Phrase.words_eq_iff.1 hw]
    rfl
  | postIncrement name =>
    have hw := (Operand.postIncrement name h).words_text
    refine Validation.check_eq_ok_iff.2 ⟨⟨_, hw⟩, Or.inl ?_⟩
    exact Validation.isIncrement_iff.2 ⟨name, h, Or.inr (by simp [text])⟩
  | literal _ | letter _ | binary _ _ _ => cases hs

end Tree

/-! ## From a line to its tree -/

theorem Operand.isPlain_of_result {operand : Operand} {tree : Tree}
    (h : operand.result = .ok tree) : tree.IsPlain := by
  cases operand with
  | number digits spelled =>
    cases hv : Value.ofDigits? digits with
    | none => simp [result, hv] at h
    | some value =>
      obtain rfl : .literal value = tree := by simpa [result, hv] using h
      have hn := Value.toInt_of_ofDigits? hv
      show 0 ≤ value.toInt
      omega
  | letter name spelled =>
    cases h
    exact spelled
  | preIncrement name spelled =>
    cases h
    exact ⟨spelled, by decide, spelled⟩
  | postIncrement name spelled =>
    cases h
    exact spelled

theorem Tree.isPlain_times {factor : Option Tree} {value : Tree}
    (hf : ∀ left, factor = some left → left.IsPlain) (hv : value.IsPlain) :
    (times factor value).IsPlain := by
  cases factor with
  | none => exact hv
  | some left => exact ⟨hf left rfl, hv⟩

mutual

theorem Atom.isPlain_of_result : ∀ {a : Atom} {tree : Tree}, a.result = .ok tree → tree.IsPlain
  | .operand _, _, h => Operand.isPlain_of_result h
  | .group _, _, h => Phrase.isPlain_of_resultAfter h nofun

/-- The reader puts nothing into a tree that a phrase cannot say. -/
theorem Phrase.isPlain_of_resultAfter : ∀ {e : Phrase} {factor : Option Tree} {tree : Tree},
    e.resultAfter factor = .ok tree → (∀ left, factor = some left → left.IsPlain) → tree.IsPlain
  | .atom head, factor, tree, h, hf => by
    rw [Phrase.resultAfter] at h
    obtain ⟨value, hv, h⟩ := bind_eq_ok_iff.1 h
    cases h
    exact Tree.isPlain_times hf (Atom.isPlain_of_result hv)
  | .chain head op tail, factor, tree, h, hf => by
    rw [Phrase.resultAfter] at h
    obtain ⟨value, hv, h⟩ := bind_eq_ok_iff.1 h
    have hleft := Tree.isPlain_times hf (Atom.isPlain_of_result hv)
    generalize Tree.times factor value = left at hleft h
    have hsome : ∀ t, some left = some t → t.IsPlain := by simpa using hleft
    rcases op with ⟨⟨⟩⟩ | _ | _
    · obtain ⟨right, hr, h⟩ := bind_eq_ok_iff.1 h
      cases h
      exact ⟨hleft, Phrase.isPlain_of_resultAfter hr nofun⟩
    · obtain ⟨right, hr, h⟩ := bind_eq_ok_iff.1 h
      cases h
      exact ⟨hleft, Phrase.isPlain_of_resultAfter hr nofun⟩
    · exact Phrase.isPlain_of_resultAfter h hsome
    · obtain ⟨name, hn, hbind⟩ := bind_eq_ok_iff.1 h
      obtain ⟨right, hr, htree⟩ := bind_eq_ok_iff.1 hbind
      obtain rfl := Tree.target_eq_ok_iff.1 hn
      cases htree
      exact ⟨hleft, Phrase.isPlain_of_resultAfter hr nofun⟩
    · obtain ⟨name, hn, hbind⟩ := bind_eq_ok_iff.1 h
      obtain ⟨right, hr, htree⟩ := bind_eq_ok_iff.1 hbind
      obtain rfl := Tree.target_eq_ok_iff.1 hn
      cases htree
      exact ⟨hleft, hleft, Phrase.isPlain_of_resultAfter hr nofun⟩

end

/-- A phrase that assigns to a variable is read as an assignment to it. -/
theorem Phrase.exists_assign_of_result {name : Char} {spelled : name ∈ Text.letters}
    {op : Operator} {tail : Phrase} {tree : Tree} (hop : op = .assign ∨ op = .addAssign)
    (h : (chain (.operand (.letter name spelled)) op tail).result = .ok tree) :
    ∃ value, tree = .assign name value := by
  rw [result, resultAfter] at h
  obtain ⟨left, hleft, h⟩ := bind_eq_ok_iff.1 h
  cases hleft
  rcases hop with rfl | rfl
  all_goals
    obtain ⟨target, ht, h⟩ := bind_eq_ok_iff.1 h
    obtain ⟨right, -, h⟩ := bind_eq_ok_iff.1 h
    cases ht
    cases h
    exact ⟨_, rfl⟩

namespace Validation

/-- An accepted line has the tree of a plain statement, if it has one. -/
theorem isPlain_of_check {line : String} {tree : Tree} (hc : check line = .ok ())
    (h : (Tree.ofLine line).result = .ok tree) : tree.IsPlain ∧ tree.IsStatement := by
  have hread : ∀ e : Phrase, words line = e.words → e.result = .ok tree :=
    fun e hw => (Phrase.result_ofLine hw).symm.trans h
  obtain ⟨⟨e, hw⟩, hkind⟩ := check_eq_ok_iff.1 hc
  refine ⟨Phrase.isPlain_of_resultAfter (hread e hw) nofun, ?_⟩
  rcases hkind with hi | ha
  · obtain ⟨name, spelled, hw | hw⟩ := exists_phrase_of_isIncrement hi
    · cases hread _ hw
      trivial
    · cases hread _ hw
      trivial
  · rw [Phrase.words_eq_iff.1 hw] at ha
    obtain ⟨name, spelled, op, hop, tail, rfl⟩ := exists_tail_of_isAssignment ha
    obtain ⟨value, rfl⟩ := Phrase.exists_assign_of_result hop (hread _ hw)
    trivial

end Validation

/-- Printing and reading are inverse.  The text of a plain tree is read as the tree, and it is
accepted exactly if the tree is a statement.  The tree of an accepted line is a plain statement, and
its text answers and stores what the line does. -/
theorem text_and_reading_inverse :
    (∀ tree : Tree, tree.IsPlain →
      (Tree.ofLine tree.text).result = .ok tree ∧
      (Validation.check tree.text = .ok () ↔ tree.IsStatement)) ∧
    ∀ (line : String) (tree : Tree), Validation.check line = .ok () →
      (Tree.ofLine line).result = .ok tree →
      tree.IsPlain ∧ tree.IsStatement ∧ ∀ s : Store Value,
        (Calculator.runLine s tree.text).result = (Calculator.runLine s line).result ∧
        (Calculator.runLine s tree.text).store = (Calculator.runLine s line).store := by
  constructor
  · intro tree hp
    refine ⟨hp.result_text, fun hc => ?_, hp.check_text⟩
    exact (Validation.isPlain_of_check hc hp.result_text).2
  · intro line tree hc h
    obtain ⟨hp, hs⟩ := Validation.isPlain_of_check hc h
    refine ⟨hp, hs, fun s => ?_⟩
    obtain ⟨htr, hts⟩ := Calculator.runLine_of_result (hp.check_text hs) hp.result_text s
    obtain ⟨hlr, hls⟩ := Calculator.runLine_of_result hc h s
    exact ⟨htr.trans hlr.symm, hts.trans hls.symm⟩

/-- The line `x += 1` has the tree of `x = (x + 1)`, so the two lines do the same. -/
theorem text_of_addAssign_runs_alike :
    Validation.check "x += 1" = .ok () ∧
    (Tree.ofLine "x = (x + 1)").result = .ok (.addAssign 'x' (.literal 1)) ∧
    ∀ s : Store Value,
      (Calculator.runLine s "x = (x + 1)").result = (Calculator.runLine s "x += 1").result ∧
      (Calculator.runLine s "x = (x + 1)").store = (Calculator.runLine s "x += 1").store := by
  have hc : Validation.check "x += 1" = .ok () := by decide +kernel
  have hr : (Tree.ofLine "x += 1").result = .ok (.addAssign 'x' (.literal 1)) := by decide +kernel
  have ht : (Tree.addAssign 'x' (.literal 1)).text = "x = (x + 1)" := by decide +kernel
  have hp : (Tree.addAssign 'x' (.literal 1)).IsPlain := by decide
  rw [← ht]
  exact ⟨hc, (text_and_reading_inverse.1 _ hp).1, (text_and_reading_inverse.2 _ _ hc hr).2.2⟩

end LetterCalc
