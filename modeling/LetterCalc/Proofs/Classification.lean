import LetterCalc.Proofs.Phrase
import LetterCalc.Tree.Reader
import LetterCalc.Validation

/-!
# Every word is of one kind

A word is classified by a series of tests, and each test is a small program that reads the word off a
cursor.  Two things make the tests a classification.  Each accepts the words of one spelling and
nothing else, and no word passes two of them.

The second is what allows to ask in any order.  The kind of a word's token says which test the word
passes (`token?_eq_some_iff`), so the first test passed in a series is the only one, and the series
finds the word's token if it asks for its kind at all (`findSome?_of_mem`, `findSome?_of_not_mem`).
Where an operand is due, only five of the kinds are asked for; validation asks for all of them.
-/

namespace LetterCalc

/-- The kinds of words that mean something. -/
inductive Kind where
  | number
  | letter
  | preIncrement
  | postIncrement
  | operator
  | openParen
  | closeParen
deriving DecidableEq, Repr

/-- The kind of a token, if it means something. -/
def Token.kind? : Token → Option Kind
  | number _ => some .number
  | letter _ => some .letter
  | preIncrement _ => some .preIncrement
  | postIncrement _ => some .postIncrement
  | operator _ => some .operator
  | openParen => some .openParen
  | closeParen => some .closeParen
  | other _ => none

namespace Kind

/-- The test for the words of a kind. -/
def test : Kind → String → Bool
  | number => Shape.isNumber
  | letter => Shape.isLetter
  | preIncrement => Shape.isPreIncrement
  | postIncrement => Shape.isPostIncrement
  | operator => Shape.isOperator
  | openParen => Shape.isOpenParen
  | closeParen => Shape.isCloseParen

/-- The token of a word, provided that it is of the given kind. -/
def token? (kind : Kind) (word : String) : Option Token :=
  match kind with
  | number => if Shape.isNumber word then some (.number word) else none
  | letter => (Shape.letter? word).map .letter
  | preIncrement => (Shape.preIncrement? word).map .preIncrement
  | postIncrement => (Shape.postIncrement? word).map .postIncrement
  | operator => (Operator.ofText? word).map .operator
  | openParen => if Shape.isOpenParen word then some .openParen else none
  | closeParen => if Shape.isCloseParen word then some .closeParen else none

/-- The kinds of words that can stand where an operand is due. -/
def operands : List Kind := [number, letter, postIncrement, preIncrement, openParen]

/-- All kinds of words that mean something. -/
def all : List Kind :=
  [operator, closeParen, number, letter, preIncrement, postIncrement, openParen]

variable {kind kind' : Kind} {word : String} {token : Token}

theorem mem_all (kind : Kind) : kind ∈ all := by cases kind <;> decide

theorem isSome_token? (kind : Kind) (word : String) :
    (kind.token? word).isSome = kind.test word := by
  cases kind with
  | number => cases h : Shape.isNumber word <;> simp [token?, test, h]
  | openParen => cases h : Shape.isOpenParen word <;> simp [token?, test, h]
  | closeParen => cases h : Shape.isCloseParen word <;> simp [token?, test, h]
  | letter | preIncrement | postIncrement | operator => exact Option.isSome_map

/-- A word that passes a test has the token that the test finds. -/
theorem of_token?_eq_some (h : kind.token? word = some token) :
    Token.ofText word = token ∧ token.kind? = some kind := by
  cases kind with
  | number =>
    obtain ⟨hnumber, htoken⟩ := Option.ite_none_right_eq_some.1 h
    cases htoken
    exact ⟨Token.ofText_number (Shape.isNumber_iff.1 hnumber), rfl⟩
  | letter =>
    obtain ⟨name, hname, rfl⟩ := Option.map_eq_some_iff.1 h
    obtain ⟨hletter, hword⟩ := Shape.letter?_eq_some_iff.1 hname
    exact ⟨Token.ofText_letter hletter hword, rfl⟩
  | preIncrement =>
    obtain ⟨name, hname, rfl⟩ := Option.map_eq_some_iff.1 h
    obtain ⟨hletter, hword⟩ := Shape.preIncrement?_eq_some_iff.1 hname
    exact ⟨Token.ofText_preIncrement hletter hword, rfl⟩
  | postIncrement =>
    obtain ⟨name, hname, rfl⟩ := Option.map_eq_some_iff.1 h
    obtain ⟨hletter, hword⟩ := Shape.postIncrement?_eq_some_iff.1 hname
    exact ⟨Token.ofText_postIncrement hletter hword, rfl⟩
  | operator =>
    obtain ⟨op, hop, rfl⟩ := Option.map_eq_some_iff.1 h
    rw [← Operator.symbol_of_ofText? hop]
    exact ⟨Token.ofText_operator op, rfl⟩
  | openParen =>
    obtain ⟨hopen, htoken⟩ := Option.ite_none_right_eq_some.1 h
    cases htoken
    rw [show word = "(" from of_decide_eq_true hopen]
    exact ⟨Token.ofText_openParen, rfl⟩
  | closeParen =>
    obtain ⟨hclose, htoken⟩ := Option.ite_none_right_eq_some.1 h
    cases htoken
    rw [show word = ")" from of_decide_eq_true hclose]
    exact ⟨Token.ofText_closeParen, rfl⟩

/-- A word passes the test for the kind of its token. -/
theorem token?_of_kind? (h : (Token.ofText word).kind? = some kind) :
    kind.token? word = some (Token.ofText word) := by
  -- One case per test of `ofText`, in which it has passed and those before it have failed.
  unfold Token.ofText at h ⊢
  grind [Token.kind?, token?]

theorem token?_eq_some_iff :
    kind.token? word = some token ↔ Token.ofText word = token ∧ token.kind? = some kind := by
  constructor
  · exact of_token?_eq_some
  · rintro ⟨rfl, h⟩
    exact token?_of_kind? h

/-- A word passes exactly the test for the kind of its token. -/
theorem test_iff : kind.test word = true ↔ (Token.ofText word).kind? = some kind := by
  rw [← isSome_token?, Option.isSome_iff_exists]
  simp only [token?_eq_some_iff, exists_eq_left']

/-- No word passes two tests. -/
theorem eq_of_test (h : kind.test word = true) (h' : kind'.test word = true) : kind = kind' := by
  rw [test_iff] at h h'
  exact Option.some.inj (h.symm.trans h')

/-! ## Series of tests -/

/-- A series of tests finds the token of a word if it asks for the token's kind. -/
theorem findSome?_of_mem {order : List Kind} (hmem : kind ∈ order)
    (h : (Token.ofText word).kind? = some kind) :
    order.findSome? (·.token? word) = some (Token.ofText word) := by
  cases hfound : order.findSome? (·.token? word) with
  | none =>
    have hnone := List.findSome?_eq_none_iff.1 hfound kind hmem
    rw [token?_of_kind? h] at hnone
    cases hnone
  | some token =>
    obtain ⟨found, -, htoken⟩ := List.exists_of_findSome?_eq_some hfound
    rw [(of_token?_eq_some htoken).1]

/-- A series of tests finds nothing if it does not ask for the kind of a word's token. -/
theorem findSome?_of_not_mem {order : List Kind}
    (h : ∀ kind ∈ order, (Token.ofText word).kind? ≠ some kind) :
    order.findSome? (·.token? word) = none := by
  rw [List.findSome?_eq_none_iff]
  intro kind hmem
  cases htoken : kind.token? word with
  | none => rfl
  | some token =>
    obtain ⟨rfl, hkind⟩ := of_token?_eq_some htoken
    exact absurd hkind (h kind hmem)

end Kind

/-- Classifies a word by tests that are made in the given order. -/
def Token.ofTextBy (order : List Kind) (word : String) : Token :=
  (order.findSome? (·.token? word)).getD (.other word)

/-- Reads a word where an operand is due, by tests that are made in the given order. -/
def Reader.stepOperandBy (order : List Kind) (stack : List Frame) (factor : Option Tree)
    (word : String) : Step :=
  match order.findSome? (·.token? word) with
  | some token => stepOperand stack factor token
  | none => .fail (.notAnOperand (.ofText word))

/-- Checks that the operands and operators of a line take turns, with tests that are made in the
given order. -/
def Validation.checkTurnsBy (order : List Kind) (line : String) : Except Rejection Unit :=
  if Text.isBlank line then .error .empty
  else takeTurns none true ((words line).map (Token.ofTextBy order))

theorem Token.ofText_eq_other {word : String} (h : (ofText word).kind? = none) :
    ofText word = other word := by
  have htext := text_ofText word
  cases htoken : ofText word with
  | other text =>
    rw [htoken] at htext
    exact congrArg other htext
  | _ =>
    rw [htoken] at h
    cases h

theorem Token.ofTextBy_eq {order : List Kind} (h : ∀ kind, kind ∈ order) (word : String) :
    ofTextBy order word = ofText word := by
  unfold ofTextBy
  cases hkind : (ofText word).kind? with
  | some kind =>
    rw [Kind.findSome?_of_mem (h kind) hkind]
    rfl
  | none =>
    have hnone : ∀ kind ∈ order, (ofText word).kind? ≠ some kind := by
      intro kind _
      rw [hkind]
      exact (Option.some_ne_none kind).symm
    rw [Kind.findSome?_of_not_mem hnone, ofText_eq_other hkind]
    rfl

/-- What is of none of the kinds asked for cannot be read as an operand. -/
theorem Reader.stepOperand_of_not_mem {token : Token}
    (h : ∀ kind ∈ Kind.operands, token.kind? ≠ some kind) (stack : List Frame)
    (factor : Option Tree) : stepOperand stack factor token = .fail (.notAnOperand token) := by
  cases token with
  | operator _ | closeParen | other _ => rfl
  | number _ => exact absurd rfl (h .number (by decide))
  | letter _ => exact absurd rfl (h .letter (by decide))
  | preIncrement _ => exact absurd rfl (h .preIncrement (by decide))
  | postIncrement _ => exact absurd rfl (h .postIncrement (by decide))
  | openParen => exact absurd rfl (h .openParen (by decide))

theorem Reader.stepOperandBy_eq {order : List Kind}
    (h : ∀ kind, kind ∈ order ↔ kind ∈ Kind.operands) (stack : List Frame) (factor : Option Tree)
    (word : String) :
    stepOperandBy order stack factor word = stepOperand stack factor (.ofText word) := by
  unfold stepOperandBy
  by_cases hasked : ∃ kind ∈ Kind.operands, (Token.ofText word).kind? = some kind
  · obtain ⟨kind, hmem, hkind⟩ := hasked
    rw [Kind.findSome?_of_mem ((h kind).2 hmem) hkind]
  · have hnone : ∀ kind ∈ Kind.operands, (Token.ofText word).kind? ≠ some kind :=
      fun kind hmem hkind => hasked ⟨kind, hmem, hkind⟩
    rw [Kind.findSome?_of_not_mem fun kind hmem => hnone kind ((h kind).1 hmem),
      stepOperand_of_not_mem hnone]

theorem Validation.checkTurnsBy_eq {order : List Kind} (h : ∀ kind, kind ∈ order)
    (line : String) : checkTurnsBy order line = checkTurns line := by
  have hmap : (words line).map (Token.ofTextBy order) = Token.ofLine line :=
    List.map_congr_left fun word _ => Token.ofTextBy_eq h word
  rw [checkTurnsBy, checkTurns, hmap]

/-- A word passes the test for a kind exactly when it is spelled as the kind demands, it passes one
test at most, and so it does not matter in which order the tests are made.  A variable is one
lowercase letter, an increment is one such letter with `++` before or behind it, and a number is one
or more digits.  Where an operand is due, the five tests for one can be made in any order, and so can
all seven when a line is validated. -/
theorem words_are_of_one_kind :
    (∀ word name, Shape.letter? word = some name ↔
      name.isLower = true ∧ word = String.singleton name) ∧
    (∀ word name, Shape.postIncrement? word = some name ↔
      name.isLower = true ∧ word = String.singleton name ++ "++") ∧
    (∀ word name, Shape.preIncrement? word = some name ↔
      name.isLower = true ∧ word = "++" ++ String.singleton name) ∧
    (∀ word, Shape.isNumber word = true ↔
      word ≠ "" ∧ ∀ c ∈ word.toList, c.isDigit = true) ∧
    (∀ (word : String) (kind kind' : Kind),
      kind.test word = true → kind'.test word = true → kind = kind') ∧
    (∀ order : List Kind, order.Perm Kind.operands → ∀ stack factor word,
      Reader.stepOperandBy order stack factor word =
        Reader.stepOperand stack factor (.ofText word)) ∧
    ∀ order : List Kind, order.Perm Kind.all → ∀ line,
      Validation.checkTurnsBy order line = Validation.checkTurns line := by
  refine ⟨?_, ?_, ?_, ?_, ?_, ?_, ?_⟩
  · intro word name
    rw [Shape.letter?_eq_some_iff, Text.mem_letters_iff, ← String.toList_inj]
    simp
  · intro word name
    rw [Shape.postIncrement?_eq_some_iff, Text.mem_letters_iff, ← String.toList_inj]
    simp
  · intro word name
    rw [Shape.preIncrement?_eq_some_iff, Text.mem_letters_iff, ← String.toList_inj]
    simp
  · intro word
    simp only [Shape.isNumber_iff, Text.mem_digits_iff, ne_eq, String.toList_eq_nil_iff]
  · intro word kind kind' h h'
    exact Kind.eq_of_test h h'
  · intro order horder stack factor word
    exact Reader.stepOperandBy_eq (fun _ => horder.mem_iff) stack factor word
  · intro order horder line
    exact Validation.checkTurnsBy_eq (fun kind => horder.mem_iff.2 kind.mem_all) line

/-- The word `x++` passes one test only, and is found by it also if the tests are made backwards. -/
theorem increment_is_of_one_kind :
    Kind.postIncrement.test "x++" = true ∧
    (∀ kind : Kind, kind.test "x++" = true → kind = .postIncrement) ∧
    Kind.operands.reverse.Perm Kind.operands ∧
    Reader.stepOperandBy Kind.operands.reverse [] none "x++" =
      Reader.stepOperand [] none (.ofText "x++") ∧
    Kind.all.reverse.Perm Kind.all ∧
    Validation.checkTurnsBy Kind.all.reverse "y = x++" = Validation.checkTurns "y = x++" := by
  have htest : Kind.postIncrement.test "x++" = true := by decide +kernel
  obtain ⟨-, -, -, -, hone, hoperand, hturns⟩ := words_are_of_one_kind
  refine ⟨htest, ?_, List.reverse_perm _, ?_, List.reverse_perm _, ?_⟩
  · exact fun kind h => hone "x++" kind .postIncrement h htest
  · exact hoperand _ (List.reverse_perm _) [] none "x++"
  · exact hturns _ (List.reverse_perm _) "y = x++"

end LetterCalc
