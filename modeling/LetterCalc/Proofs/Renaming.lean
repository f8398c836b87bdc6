import LetterCalc.Proofs.Evaluation
import LetterCalc.Proofs.Language
import Mathlib.Algebra.Group.End

/-!
# Renaming the variables

The letters are interchangeable: if they are permuted in every line, the calculator does the same
with the permuted variables.

Each stage commutes with a renaming by itself, whatever it is given: cutting a text into words
(`wordsOf_rename`), classifying a word (`ofText_rename`), validation (`check_rename`), reading
(`read_rename`) and evaluation (`eval_rename`).  A renaming permutes the letters, so nothing that
is not a letter is touched, and no two variables become one.
-/

namespace LetterCalc

/-- A permutation of the letters. -/
abbrev Renaming := Equiv.Perm {c : Char // c ∈ Text.letters}

namespace Renaming

/-- A character after renaming.  Only letters change. -/
def char (p : Renaming) (c : Char) : Char := Equiv.Perm.ofSubtype p c

/-- A text after renaming. -/
def text (p : Renaming) (text : String) : String := text.map p.char

variable (p : Renaming)

/-! ## Characters -/

theorem char_of_not_mem {c : Char} (h : c ∉ Text.letters) : p.char c = c :=
  Equiv.Perm.ofSubtype_apply_of_not_mem p h

theorem char_injective : Function.Injective p.char := (Equiv.Perm.ofSubtype p).injective

@[simp] theorem char_inj {c d : Char} : p.char c = p.char d ↔ c = d := p.char_injective.eq_iff

@[simp] theorem char_inv (c : Char) : p.char (char p⁻¹ c) = c := by
  simp [char, map_inv]

@[simp] theorem char_mem_letters_iff {c : Char} : p.char c ∈ Text.letters ↔ c ∈ Text.letters := by
  by_cases h : c ∈ Text.letters
  · rw [char, Equiv.Perm.ofSubtype_apply_of_mem p h]
    exact iff_of_true (p ⟨c, h⟩).2 h
  · rw [p.char_of_not_mem h]

/-- Other kinds of characters are kept. -/
theorem char_mem_iff {kind : List Char} (hkind : ∀ c ∈ kind, c ∉ Text.letters) {c : Char} :
    p.char c ∈ kind ↔ c ∈ kind := by
  by_cases h : c ∈ Text.letters
  · exact iff_of_false (fun hc => hkind _ hc (p.char_mem_letters_iff.2 h)) fun hc => hkind c hc h
  · rw [p.char_of_not_mem h]

@[simp] theorem char_mem_separators_iff {c : Char} :
    p.char c ∈ Text.separators ↔ c ∈ Text.separators :=
  p.char_mem_iff (Text.forall_mem_of_all _ (by decide))

@[simp] theorem char_mem_parens_iff {c : Char} : p.char c ∈ Text.parens ↔ c ∈ Text.parens :=
  p.char_mem_iff (Text.forall_mem_of_all _ (by decide))

@[simp] theorem char_mem_stops_iff {c : Char} : p.char c ∈ Text.stops ↔ c ∈ Text.stops :=
  p.char_mem_iff (Text.forall_mem_of_all _ (by decide))

@[simp] theorem char_mem_digits_iff {c : Char} : p.char c ∈ Text.digits ↔ c ∈ Text.digits :=
  p.char_mem_iff (Text.forall_mem_of_all _ (by decide))

/-- What does not tell letters apart does not tell a character from the renamed one. -/
theorem apply_char {α : Type} {f : Char → α} {a : α} (hf : ∀ c ∈ Text.letters, f c = a) (c : Char) :
    f (p.char c) = f c := by
  by_cases h : c ∈ Text.letters
  · rw [hf c h, hf _ (p.char_mem_letters_iff.2 h)]
  · rw [p.char_of_not_mem h]

/-! ## Texts -/

@[simp] theorem toList_text (text : String) : (p.text text).toList = text.toList.map p.char :=
  String.toList_map

theorem text_injective : Function.Injective p.text := by
  intro a b h
  have hl := congrArg String.toList h
  rw [toList_text, toList_text] at hl
  exact String.toList_injective (p.char_injective.list_map hl)

theorem text_of_not_mem {text : String} (h : ∀ c ∈ text.toList, c ∉ Text.letters) :
    p.text text = text := by
  refine String.toList_injective ?_
  rw [toList_text, List.map_congr_left (fun c hc => p.char_of_not_mem (h c hc)), List.map_id']

/-- A text without letters stays, and no other text becomes it. -/
theorem text_eq_iff {text fixed : String} (h : ∀ c ∈ fixed.toList, c ∉ Text.letters) :
    p.text text = fixed ↔ text = fixed := by
  nth_rewrite 1 [← p.text_of_not_mem h]
  exact p.text_injective.eq_iff

end Renaming

open Renaming

variable (p : Renaming)

/-! ## Words -/

/-- A renamed text falls into the renamed words. -/
theorem wordsOf_rename (chars : List Char) :
    wordsOf (chars.map p.char) = (wordsOf chars).map p.text := by
  induction chars using wordsOf_induction with
  | nil => simp
  | separator a rest ha ih =>
    rw [List.map_cons, wordsOf_separator (p.char_mem_separators_iff.2 ha), wordsOf_separator ha, ih]
  | paren a rest ha ih =>
    have hword : String.singleton (p.char a) = p.text (String.singleton a) :=
      String.toList_injective (by simp)
    rw [List.map_cons, wordsOf_paren (p.char_mem_parens_iff.2 ha), wordsOf_paren ha, ih, hword,
      List.map_cons]
  | run run rest hne hrun hrest ih =>
    have hword : String.ofList (run.map p.char) = p.text (String.ofList run) :=
      String.toList_injective (by simp)
    have hrun' : ∀ b ∈ run.map p.char, b ∉ Text.stops := by
      simpa using hrun
    have hrest' : EndsWord (rest.map p.char) := by
      simpa [EndsWord] using hrest
    rw [List.map_append, wordsOf_run (by simpa using hne) hrun' hrest',
      wordsOf_run hne hrun hrest, ih, hword, List.map_cons]

theorem words_rename (line : String) : words (p.text line) = (words line).map p.text := by
  rw [words_eq_wordsOf, words_eq_wordsOf, toList_text, wordsOf_rename]

/-! ## Tokens -/

namespace Shape

/-- A kind of word that is made for one letter goes with the letter. -/
theorem scan_rename {scan : String → Option Char} {shape : Char → List Char}
    (hscan : ∀ {word name}, scan word = some name ↔ name ∈ Text.letters ∧ word.toList = shape name)
    (hshape : ∀ name, (shape name).map p.char = shape (p.char name)) (word : String) :
    scan (p.text word) = (scan word).map p.char := by
  ext found
  rw [Option.map_eq_some_iff, hscan]
  constructor
  · rintro ⟨hl, hw⟩
    refine ⟨char p⁻¹ found, hscan.2 ⟨?_, ?_⟩, p.char_inv found⟩
    · rwa [char_mem_letters_iff]
    · refine p.char_injective.list_map ?_
      rw [hshape, p.char_inv, ← hw, toList_text]
  · rintro ⟨name, hn, rfl⟩
    obtain ⟨hl, hw⟩ := hscan.1 hn
    exact ⟨p.char_mem_letters_iff.2 hl, by rw [toList_text, hw, hshape]⟩

theorem plus_not_mem_letters : '+' ∉ Text.letters := by decide

theorem letter?_rename (word : String) :
    letter? (p.text word) = (letter? word).map p.char :=
  scan_rename p letter?_eq_some_iff (fun name => by simp) word

theorem preIncrement?_rename (word : String) :
    preIncrement? (p.text word) = (preIncrement? word).map p.char :=
  scan_rename p preIncrement?_eq_some_iff
    (fun name => by simp [p.char_of_not_mem plus_not_mem_letters]) word

theorem postIncrement?_rename (word : String) :
    postIncrement? (p.text word) = (postIncrement? word).map p.char :=
  scan_rename p postIncrement?_eq_some_iff
    (fun name => by simp [p.char_of_not_mem plus_not_mem_letters]) word

theorem isNumber_rename (word : String) : isNumber (p.text word) = isNumber word := by
  rw [Bool.eq_iff_iff, isNumber_iff, isNumber_iff]
  simp

theorem isIncrement_rename (word : String) : isIncrement (p.text word) = isIncrement word := by
  simp only [isIncrement, isPreIncrement, isPostIncrement, preIncrement?_rename,
    postIncrement?_rename, Option.isSome_map]

end Shape

theorem Operator.not_mem_letters (op : Operator) : ∀ c ∈ op.symbol.toList, c ∉ Text.letters := by
  refine Text.forall_mem_of_all _ ?_
  rcases op with ⟨⟨⟩⟩ | _ | _ <;> decide

theorem Operator.ofText?_rename (word : String) : ofText? (p.text word) = ofText? word := by
  ext op
  rw [ofText?_eq_some_iff, ofText?_eq_some_iff, eq_comm, p.text_eq_iff op.not_mem_letters, eq_comm]

namespace Token

/-- A token after renaming. -/
def rename (p : Renaming) : Token → Token
  | number digits => number digits
  | letter name => letter (p.char name)
  | preIncrement name => preIncrement (p.char name)
  | postIncrement name => postIncrement (p.char name)
  | operator op => operator op
  | openParen => openParen
  | closeParen => closeParen
  | other text => other (p.text text)

/-- A renamed word is classified as the renamed token. -/
theorem ofText_rename (word : String) : ofText (p.text word) = (ofText word).rename p := by
  have hopen : Shape.isOpenParen (p.text word) = Shape.isOpenParen word :=
    decide_eq_decide.2 (p.text_eq_iff (Text.forall_mem_of_all _ (by decide)))
  have hclose : Shape.isCloseParen (p.text word) = Shape.isCloseParen word :=
    decide_eq_decide.2 (p.text_eq_iff (Text.forall_mem_of_all _ (by decide)))
  unfold ofText
  rw [Shape.isNumber_rename, Shape.letter?_rename, Shape.preIncrement?_rename,
    Shape.postIncrement?_rename, Operator.ofText?_rename, hopen, hclose]
  by_cases hnumber : Shape.isNumber word = true
  · have hdigits : p.text word = word := by
      refine p.text_of_not_mem fun c hc hl => ?_
      exact Text.not_mem_digits_of_mem_letters hl ((Shape.isNumber_iff.1 hnumber).2 c hc)
    simp [hnumber, hdigits, rename]
  -- The shapes are tried in the order of the definition, and each goes with the renaming.
  cases Shape.letter? word with
  | some name => simp [hnumber, rename]
  | none =>
    cases Shape.preIncrement? word with
    | some name => simp [hnumber, rename]
    | none =>
      cases Shape.postIncrement? word with
      | some name => simp [hnumber, rename]
      | none =>
        cases Operator.ofText? word with
        | some op => simp [hnumber, rename]
        | none =>
          cases Shape.isOpenParen word <;> cases Shape.isCloseParen word <;>
            simp [hnumber, rename]

theorem ofLine_rename (line : String) : ofLine (p.text line) = (ofLine line).map (rename p) := by
  rw [ofLine, ofLine, words_rename, List.map_map, List.map_map]
  exact List.map_congr_left fun word _ => ofText_rename p word

variable {token : Token}

@[simp] theorem isOperand_rename : (token.rename p).isOperand = token.isOperand := by
  cases token <;> rfl

@[simp] theorem rename_eq_openParen : token.rename p = .openParen ↔ token = .openParen := by
  cases token <;> simp [rename]

@[simp] theorem rename_eq_closeParen : token.rename p = .closeParen ↔ token = .closeParen := by
  cases token <;> simp [rename]

end Token

/-! ## Validation -/

/-- A rejection after renaming. -/
def Rejection.rename (p : Renaming) : Rejection → Rejection
  | empty => empty
  | invalidCharacter c => invalidCharacter (p.char c)
  | unbalancedParens => unbalancedParens
  | notAnAssignment => notAnAssignment
  | unexpectedOperator previous token =>
    unexpectedOperator (previous.map (Token.rename p)) (token.rename p)
  | unexpectedCloseParen previous => unexpectedCloseParen (previous.map (Token.rename p))
  | unexpectedOperand previous token =>
    unexpectedOperand (previous.map (Token.rename p)) (token.rename p)
  | invalidToken token => invalidToken (token.rename p)
  | danglingOperator => danglingOperator

theorem mapError_bind {ε φ α β : Type} (g : ε → φ) (x : Except ε α) (f : α → Except ε β) :
    (x >>= f).mapError g = x.mapError g >>= fun a => (f a).mapError g := by
  cases x <;> rfl

namespace Validation

theorem isAllowed_rename (c : Char) : isAllowed (p.char c) = isAllowed c :=
  p.apply_char (fun _ => isAllowed_of_mem_letters) c

theorem isBlank_rename (line : String) : Text.isBlank (p.text line) = Text.isBlank line := by
  rw [Text.isBlank, Text.isBlank, toList_text, List.all_map]
  congr 1
  funext c
  exact p.apply_char (fun _ => Text.isWhiteSpace_of_mem_letters) c

theorem checkAlphabet_rename (line : String) :
    checkAlphabet (p.text line) = (checkAlphabet line).mapError (Rejection.rename p) := by
  have hallowed : (fun c => !isAllowed c) ∘ p.char = fun c => !isAllowed c := by
    funext c
    rw [Function.comp_apply, isAllowed_rename]
  unfold checkAlphabet
  rw [toList_text]
  cases line.toList with
  | nil => rfl
  | cons a as =>
    have hfind := List.find?_map (p := fun c => !isAllowed c) (f := p.char) (l := a :: as)
    rw [hallowed] at hfind
    simp only [List.map_cons] at hfind ⊢
    rw [hfind]
    cases (a :: as).find? fun c => !isAllowed c <;> rfl

theorem isBalanced_rename (depth : Nat) (tokens : List Token) :
    isBalanced depth (tokens.map (Token.rename p)) = isBalanced depth tokens := by
  induction tokens generalizing depth with
  | nil => rfl
  | cons token tokens ih =>
    cases token with
    | openParen => exact ih (depth + 1)
    | closeParen =>
      cases depth with
      | zero => rfl
      | succ depth => exact ih depth
    | number _ | letter _ | preIncrement _ | postIncrement _ | operator _ | other _ =>
      exact ih depth

theorem isAssignment_rename (tokens : List Token) :
    isAssignment (tokens.map (Token.rename p)) = isAssignment tokens := by
  rcases tokens with _ | ⟨first, _ | ⟨second, rest⟩⟩
  · rfl
  · cases first <;> rfl
  cases first with
  | letter name =>
    cases second with
    | operator op => rcases op with _ | _ | _ <;> rfl
    | number _ | letter _ | preIncrement _ | postIncrement _ | openParen | closeParen | other _ =>
      rfl
  | number _ | preIncrement _ | postIncrement _ | operator _ | openParen | closeParen | other _ =>
    rfl

theorem endsOperand_rename (previous : Option Token) :
    endsOperand (previous.map (Token.rename p)) = endsOperand previous := by
  cases previous with
  | none => rfl
  | some token => simp [endsOperand]

theorem takeTurns_rename (previous : Option Token) (expecting : Bool) (tokens : List Token) :
    takeTurns (previous.map (Token.rename p)) expecting (tokens.map (Token.rename p)) =
      (takeTurns previous expecting tokens).mapError (Rejection.rename p) := by
  induction tokens generalizing previous expecting with
  | nil => cases expecting <;> rfl
  | cons token tokens ih =>
    have ih := fun expecting => ih (some token) expecting
    rw [Option.map_some] at ih
    rw [List.map_cons]
    rcases token.kind with hk | ⟨op, rfl⟩ | rfl | rfl | ⟨text, rfl⟩
    · have hk' : (token.rename p).isOperand = true := by rw [Token.isOperand_rename, hk]
      rw [takeTurns_operand hk, takeTurns_operand hk', endsOperand_rename]
      split
      · rfl
      · exact ih false
    · simp only [takeTurns, Token.rename]
      split
      · rfl
      · exact ih true
    · simp only [takeTurns, Token.rename, endsOperand_rename]
      split
      · rfl
      · exact ih expecting
    · have hprevious : (previous.map (Token.rename p)).all (· = .openParen) =
          previous.all (· = .openParen) := by
        cases previous <;> simp
      simp only [takeTurns, Token.rename, hprevious]
      split
      · rfl
      · exact ih expecting
    · rfl

/-- Validation says the same of a renamed line, with the renamed tokens in its reason. -/
theorem check_rename (line : String) :
    check (p.text line) = (check line).mapError (Rejection.rename p) := by
  have hbalance : checkBalance (p.text line) =
      (checkBalance line).mapError (Rejection.rename p) := by
    rw [checkBalance, checkBalance, Token.ofLine_rename, isBalanced_rename]
    split <;> rfl
  have htarget : checkTarget (p.text line) =
      (checkTarget line).mapError (Rejection.rename p) := by
    rw [checkTarget, checkTarget, Token.ofLine_rename, isAssignment_rename,
      Shape.isIncrement_rename]
    split <;> rfl
  have hturns : checkTurns (p.text line) = (checkTurns line).mapError (Rejection.rename p) := by
    rw [checkTurns, checkTurns, Token.ofLine_rename, isBlank_rename]
    split
    · rfl
    · exact takeTurns_rename p none true (Token.ofLine line)
  rw [check, check, mapError_bind, checkAlphabet_rename, hbalance, htarget, hturns]
  simp only [mapError_bind]

end Validation

/-! ## Reading -/

/-- A tree after renaming. -/
def Tree.rename (p : Renaming) : Tree → Tree
  | literal value => literal value
  | letter name => letter (p.char name)
  | binary op left right => binary op (left.rename p) (right.rename p)
  | assign target value => assign (p.char target) (value.rename p)
  | postIncrement name => postIncrement (p.char name)

/-- An error of the reader after renaming. -/
def ReadError.rename (p : Renaming) : ReadError → ReadError
  | unexpectedEnd => unexpectedEnd
  | notAnOperand token => notAnOperand (token.rename p)
  | literalOutOfRange digits => literalOutOfRange digits
  | notAssignable left => notAssignable (left.rename p)

/-- The result of a reading after renaming. -/
def Reading.renameResult (p : Renaming) : Except ReadError Tree → Except ReadError Tree
  | .ok tree => .ok (tree.rename p)
  | .error error => .error (error.rename p)

/-- A reading after renaming. -/
def Reading.rename (p : Renaming) (reading : Reading) : Reading where
  result := renameResult p reading.result
  rest := reading.rest.map (Token.rename p)
  dropped := reading.dropped.map (Token.rename p)
  overran := reading.overran

namespace Reader

/-- A frame after renaming. -/
def Frame.rename (p : Renaming) : Frame → Frame
  | sum op left => sum op (left.rename p)
  | assign target => assign (p.char target)
  | group factor => group (factor.map (Tree.rename p))

/-- A state of the reader after renaming. -/
def State.rename (p : Renaming) : State → State
  | operand stack factor => operand (stack.map (Frame.rename p)) (factor.map (Tree.rename p))
  | operator stack left product => operator (stack.map (Frame.rename p)) (left.rename p) product

/-- A step of the reader after renaming. -/
def Step.rename (p : Renaming) : Step → Step
  | use state => use (state.rename p)
  | drop state => drop (state.rename p)
  | stop tree => stop (tree.rename p)
  | fail error => fail (error.rename p)

theorem afterOperand_rename (stack : List Frame) (factor : Option Tree) (value : Tree) :
    afterOperand (stack.map (Frame.rename p)) (factor.map (Tree.rename p)) (value.rename p) =
      (afterOperand stack factor value).rename p := by
  cases factor <;> rfl

/-- Completing what waits inside a group goes with the renaming, by the frames on the stack. -/
theorem unwind_rename (stack : List Frame) (value : Tree) :
    unwind (stack.map (Frame.rename p)) (value.rename p) =
      ((unwind stack value).1.rename p, (unwind stack value).2.map fun group =>
        (group.1.map (Tree.rename p), group.2.map (Frame.rename p))) := by
  induction stack generalizing value with
  | nil => rfl
  | cons frame stack ih =>
    cases frame with
    | sum op left => exact ih (.binary op left value)
    | assign target => exact ih (.assign target value)
    | group factor => rfl

theorem finish_rename (stack : List Frame) (value : Tree) (overran : Bool) :
    finish (stack.map (Frame.rename p)) (value.rename p) overran =
      ((finish stack value overran).1.rename p, (finish stack value overran).2) := by
  induction stack generalizing value overran with
  | nil => rfl
  | cons frame stack ih =>
    cases frame with
    | sum op left => exact ih (.binary op left value) overran
    | assign target => exact ih (.assign target value) overran
    | group factor =>
      cases factor with
      | none => exact ih value true
      | some left => exact ih (.binary .mul left value) overran

theorem stepOperand_rename (stack : List Frame) (factor : Option Tree) (token : Token) :
    stepOperand (stack.map (Frame.rename p)) (factor.map (Tree.rename p)) (token.rename p) =
      (stepOperand stack factor token).rename p := by
  cases token with
  | number digits =>
    simp only [stepOperand, Token.rename]
    cases Value.ofDigits? digits with
    | some value => exact congrArg Step.use (afterOperand_rename p stack factor (.literal value))
    | none => rfl
  | letter name => exact congrArg Step.use (afterOperand_rename p stack factor (.letter name))
  | preIncrement name =>
    exact congrArg Step.use (afterOperand_rename p stack factor (.preIncrement name))
  | postIncrement name =>
    exact congrArg Step.use (afterOperand_rename p stack factor (.postIncrement name))
  | openParen => rfl
  | operator _ | closeParen | other _ => rfl

theorem stepDrop_rename (stack : List Frame) (left : Tree) :
    stepDrop (stack.map (Frame.rename p)) (left.rename p) = (stepDrop stack left).rename p := by
  unfold stepDrop
  rw [unwind_rename]
  rcases unwind stack left with ⟨value, _ | ⟨factor, below⟩⟩
  · rfl
  · exact congrArg Step.drop (afterOperand_rename p below factor value)

theorem stepOperator_rename (stack : List Frame) (left : Tree) (token : Token) :
    stepOperator (stack.map (Frame.rename p)) (left.rename p) (token.rename p) =
      (stepOperator stack left token).rename p := by
  cases token with
  | operator op =>
    rcases op with ⟨⟨⟩⟩ | _ | _
    · rfl
    · rfl
    · rfl
    · cases left <;> rfl
    · cases left <;> rfl
  | number _ | letter _ | preIncrement _ | postIncrement _ | openParen | closeParen | other _ =>
    exact stepDrop_rename p stack left

/-- A renamed token does to the renamed reader what the token does to the reader. -/
theorem step_rename (state : State) (token : Token) :
    (state.rename p).step (token.rename p) = (state.step token).rename p := by
  cases state with
  | operand stack factor => exact stepOperand_rename p stack factor token
  | operator stack left product => exact stepOperator_rename p stack left token

theorem atEnd_rename (state : State) : (state.rename p).atEnd = state.atEnd.rename p := by
  cases state with
  | operand stack factor => rfl
  | operator stack left product =>
    simp only [State.rename, State.atEnd, finish_rename]
    rfl

/-- From a renamed state, renamed tokens have the renamed reading. -/
theorem read_rename (state : State) (tokens : List Token) :
    read (state.rename p) (tokens.map (Token.rename p)) = (read state tokens).rename p := by
  induction tokens generalizing state with
  | nil => exact atEnd_rename p state
  | cons token tokens ih =>
    rw [List.map_cons, read, read, step_rename]
    cases state.step token with
    | use next => exact ih next
    | drop next =>
      simp only [Step.rename, ih next]
      rfl
    | stop tree => rfl
    | fail error => rfl

end Reader

theorem Tree.ofLine_rename (line : String) : ofLine (p.text line) = (ofLine line).rename p := by
  rw [ofLine, ofLine, Token.ofLine_rename]
  exact Reader.read_rename p (.operand [] none) (Token.ofLine line)

theorem Calculator.tree?_rename (line : String) :
    tree? (p.text line) = (tree? line).map (Tree.rename p) := by
  unfold tree?
  rw [Validation.check_rename, Tree.ofLine_rename]
  cases Validation.check line with
  | error reason => rfl
  | ok _ =>
    show (Reading.renameResult p (Tree.ofLine line).result).toOption = _
    cases (Tree.ofLine line).result <;> rfl

/-! ## Evaluation -/

/-- A failure after renaming. -/
def Failure.rename (p : Renaming) : Failure → Failure
  | invalidExpression => invalidExpression
  | undefinedVariable name => undefinedVariable (p.char name)

/-- The second store binds each renamed name to what the first binds the name to. -/
def Renamed (p : Renaming) (s t : Store Value) : Prop :=
  ∀ name value, t.get? (p.char name) = some value ↔ s.get? name = some value

/-- Two effects are the same but for the names of the variables. -/
abbrev RenamedEffect (p : Renaming) :
    Except Failure Value × Store Value → Except Failure Value × Store Value → Prop :=
  Corresponds Eq (fun failure renamed => renamed = failure.rename p) (Renamed p)

namespace Renamed

variable {p} {s t : Store Value}

theorem get?_eq (h : Renamed p s t) (name : Char) : t.get? (p.char name) = s.get? name :=
  Option.ext (h name)

theorem empty : Renamed p .empty .empty := by
  intro name value
  rw [Store.get?_empty, Store.get?_empty]

theorem set (h : Renamed p s t) (name : Char) (value : Value) :
    Renamed p (s.set name value) (t.set (p.char name) value) := by
  intro key found
  simp only [Store.get?_set, p.char_inj, h.get?_eq]

theorem fetch (h : Renamed p s t) (name : Char) :
    RenamedEffect p (s.fetch name) (t.fetch (p.char name)) := by
  refine Store.fetch_corresponds h ?_ rfl
  rw [h.get?_eq]
  cases s.get? name with
  | some value => exact .some rfl
  | none => exact .none

end Renamed

/-- A renamed tree does to a renamed store what the tree does to the store. -/
theorem Tree.eval_rename (tree : Tree) {s t : Store Value} (h : Renamed p s t) :
    RenamedEffect p (tree.eval s) ((tree.rename p).eval t) := by
  rw [eval_eq_evalOver, eval_eq_evalOver]
  induction tree generalizing s t with
  | literal value => exact .ok rfl h
  | letter name => exact h.fetch name
  | binary op left right ihl ihr =>
    refine (ihl h).andThen fun x x' _ _ hx h => ?_
    refine (ihr h).andThen fun y y' _ _ hy h => ?_
    subst hx hy
    exact .ok rfl h
  | assign target value ih =>
    refine (ih h).andThen fun x x' _ _ hx h => ?_
    subst hx
    exact .ok rfl (h.set target x)
  | postIncrement name =>
    refine (h.fetch name).andThen fun x x' _ _ hx h => ?_
    subst hx
    exact .ok rfl (h.set name (x + 1))

/-! ## Lines -/

namespace Calculator

theorem effect_rename {s t : Store Value} (h : Renamed p s t) (line : String) :
    RenamedEffect p (effect s line) (effect t (p.text line)) := by
  rw [effect_eq, effect_eq, tree?_rename]
  cases tree? line with
  | none => exact .error rfl h
  | some tree => exact tree.eval_rename p h

/-- Variable names are interchangeable.  If the letters are permuted in each line of a run, every
line has the same value as before, or it is invalid as before, or it lacks the permuted variable;
and the store binds the permuted variables to the same values. -/
theorem run_renames_with_lines (lines : List String) :
    List.Forall₂ (RenamedEffect p)
      (effects effect .empty lines) (effects effect .empty (lines.map p.text)) :=
  effects_correspond p.text (fun _ _ line h => effect_rename p h line) lines Renamed.empty

-- Exchanging `x` and `z` changes nothing else in a line.
example : Renaming.text (Equiv.swap ⟨'x', by decide⟩ ⟨'z', by decide⟩) "x = (++z * 2) + y" =
    "z = (++x * 2) + y" := by
  decide +kernel

end Calculator

end LetterCalc
