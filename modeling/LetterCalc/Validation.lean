import LetterCalc.Text.Quoted
import LetterCalc.Token

/-!
# Validation

Before a line is read it has to pass four checks, in this order, and the first that fails gives
the reason for its rejection:

1. it is not empty and holds no character from outside the language (`checkAlphabet`);
2. its parentheses are balanced (`checkBalance`);
3. it is an assignment: it starts with a variable and `=` or `+=`, or is a bare increment without
   anything around it (`checkTarget`);
4. operands and operators take turns (`checkTurns`).
-/

namespace LetterCalc

/-- Why a line is rejected. -/
inductive Rejection where
  /-- There is nothing in the line. -/
  | empty
  /-- The line holds a character from outside the language. -/
  | invalidCharacter (c : Char)
  /-- The parentheses do not match. -/
  | unbalancedParens
  /-- The line assigns nothing. -/
  | notAnAssignment
  /-- An operator stands where an operand is due. -/
  | unexpectedOperator (previous : Option Token) (token : Token)
  /-- A group ends where an operand is due. -/
  | unexpectedCloseParen (previous : Option Token)
  /-- An operand or a group starts where an operator is due. -/
  | unexpectedOperand (previous : Option Token) (token : Token)
  /-- A word has no known shape. -/
  | invalidToken (token : Token)
  /-- The line ends where an operand is due. -/
  | danglingOperator
deriving DecidableEq, Repr

namespace Rejection

/-- The quoted text of a token. -/
def quote (token : Token) : String := Text.quoted token.text

/-- The quoted text of the token before, if there is one. -/
def quotePrevious (previous : Option Token) : String := Text.quotedOption (previous.map Token.text)

/-- The text of a rejection. -/
def message : Rejection → String
  | empty => "empty expression"
  | invalidCharacter c => "invalid character " ++ Text.quotedChar c
  | unbalancedParens => "unbalanced parentheses"
  | notAnAssignment => "not an assignment expression"
  | unexpectedOperator previous token =>
    "expected operand after " ++ quotePrevious previous ++ " but found " ++ quote token
  | unexpectedCloseParen previous =>
    "unexpected closing parenthesis after " ++ quotePrevious previous
  | unexpectedOperand previous token =>
    "unexpected " ++ quote token ++ " after " ++ quotePrevious previous
  | invalidToken token => "invalid token " ++ quote token
  | danglingOperator => "expression ends with an operator"

end Rejection

namespace Validation

/-- Whether a character belongs to the language. -/
def isAllowed (c : Char) : Bool :=
  c.isAlphanum || c ∈ Text.signs || c ∈ Text.parens || c ∈ Text.separators

/-- A line is not empty, and every character of it belongs to the language. -/
def checkAlphabet (line : String) : Except Rejection Unit :=
  match line.toList with
  | [] => .error .empty
  | chars =>
    match chars.find? fun c => !isAllowed c with
    | some c => .error (.invalidCharacter c)
    | none => .ok ()

/-- Whether every group that is closed was opened before, and every one that is open, `depth` of
them to begin with, is closed in the end. -/
def isBalanced (depth : Nat) : List Token → Bool
  | [] => depth = 0
  | .openParen :: tokens => isBalanced (depth + 1) tokens
  | .closeParen :: tokens =>
    match depth with
    | 0 => false
    | depth + 1 => isBalanced depth tokens
  | _ :: tokens => isBalanced depth tokens

/-- The parentheses of a line are balanced. -/
def checkBalance (line : String) : Except Rejection Unit :=
  if isBalanced 0 (Token.ofLine line) then .ok () else .error .unbalancedParens

/-- Whether the tokens start with a variable and an assignment operator. -/
def isAssignment : List Token → Bool
  | .letter _ :: .operator .assign :: _ => true
  | .letter _ :: .operator .addAssign :: _ => true
  | _ => false

/-- A line is an assignment, or an increment with nothing around it, not even separators. -/
def checkTarget (line : String) : Except Rejection Unit :=
  if Shape.isIncrement line || isAssignment (Token.ofLine line) then .ok ()
  else .error .notAnAssignment

/-- Whether an operand or a group cannot stand right after the token before. -/
def endsOperand (previous : Option Token) : Bool :=
  previous.any fun token => token.isOperand || token = .closeParen

/-- Operands and operators take turns from here on, given the token before and whether an operand
is due. -/
def takeTurns (previous : Option Token) (expecting : Bool) : List Token → Except Rejection Unit
  | [] => if expecting then .error .danglingOperator else .ok ()
  | token :: tokens =>
    match token with
    | .operator _ =>
      if expecting then .error (.unexpectedOperator previous token)
      else takeTurns (some token) true tokens
    | .closeParen =>
      if expecting || previous.all (· = .openParen) then .error (.unexpectedCloseParen previous)
      else takeTurns (some token) expecting tokens
    | .openParen =>
      if !expecting || endsOperand previous then .error (.unexpectedOperand previous token)
      else takeTurns (some token) expecting tokens
    | .other _ => .error (.invalidToken token)
    | .number _ | .letter _ | .preIncrement _ | .postIncrement _ =>
      if !expecting || endsOperand previous then .error (.unexpectedOperand previous token)
      else takeTurns (some token) false tokens

/-- A line is not blank, and its operands and operators take turns. -/
def checkTurns (line : String) : Except Rejection Unit :=
  if Text.isBlank line then .error .empty else takeTurns none true (Token.ofLine line)

/-- Accepts a line or gives the reason for its rejection. -/
def check (line : String) : Except Rejection Unit := do
  checkAlphabet line
  checkBalance line
  checkTarget line
  checkTurns line

end Validation

end LetterCalc
