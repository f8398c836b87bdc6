import LetterCalc.Token
import LetterCalc.Tree

/-!
# Reading a tree off a list of tokens

The reader goes through the tokens once, from left to right, and keeps the parts that still wait
for a value on a stack of frames.

* `+` and `-` take everything up to the end of their group as their right side, so that chains
  nest to the right: `10 - 2 - 3` is `10 - (2 - 3)`.
* `*` takes one operand as its right side, and the product is the left side of what follows:
  `2 * 3 + 4` is `(2 * 3) + 4`.
* `=` and `+=` take a variable on their left and, like a sum, everything that follows.
* Where an operator is due, any other token is dropped.  It ends the innermost group, or the whole
  expression if no group is open; this is what becomes of a closing parenthesis.

The reader never looks at a token before it needs it, and it stops as soon as it can answer.  A
`Reading` therefore records, beside the result, the tokens that were dropped, those that were not
reached, and whether the reader asked for one more token than there was.
-/

namespace LetterCalc

/-- Why a list of tokens has no tree. -/
inductive ReadError where
  /-- The tokens end where an operand is due. -/
  | unexpectedEnd
  /-- A token stands where an operand is due and is none. -/
  | notAnOperand (token : Token)
  /-- A number is too large to be a value. -/
  | literalOutOfRange (digits : String)
  /-- The left side of an assignment is not a variable. -/
  | notAssignable (left : Tree)
deriving DecidableEq, Repr

namespace ReadError

/-- The text of an error. -/
def message : ReadError → String
  | unexpectedEnd => "unexpected end of expression"
  | notAnOperand token => "'" ++ token.text ++ "' is not an atom"
  | literalOutOfRange digits => "integer literal " ++ digits ++ " does not fit"
  | notAssignable left => "can't assign to '" ++ left.text ++ "'"

/-- Whether an error can arise on a line that passed validation: a number can be too large, and
something other than a variable can stand left of an assignment.  Any other error means that
validation let something through. -/
def isForeseen : ReadError → Bool
  | unexpectedEnd | notAnOperand _ => false
  | literalOutOfRange _ | notAssignable _ => true

end ReadError

namespace Reader

/-- Something that waits for a value. -/
inductive Frame where
  /-- A sum or a difference that waits for its right side. -/
  | sum (op : Arith) (left : Tree)
  /-- An assignment that waits for what it assigns. -/
  | assign (target : Char)
  /-- An open parenthesis, together with the left side of the product whose right side it opens. -/
  | group (factor : Option Tree)
deriving DecidableEq, Repr

/-- What the reader expects next. -/
inductive State where
  /-- An operand is due, as the right side of a product if a factor is given. -/
  | operand (stack : List Frame) (factor : Option Tree)
  /-- An operator is due after the tree `left`.  If `left` is a product that has just been
  completed, the reader needs no further token to know that the input has ended. -/
  | operator (stack : List Frame) (left : Tree) (product : Bool)
deriving DecidableEq, Repr

/-- The state after an operand, which completes a product if a factor waits for it. -/
def afterOperand (stack : List Frame) (factor : Option Tree) (value : Tree) : State :=
  match factor with
  | none => .operator stack value false
  | some left => .operator stack (.binary .mul left value) true

/-- Completes what waits for `value` inside the innermost group.  Answers the completed tree, and
the group with the frames below it if there is one. -/
def unwind : List Frame → Tree → Tree × Option (Option Tree × List Frame)
  | [], value => (value, none)
  | .sum op left :: stack, value => unwind stack (.binary op left value)
  | .assign target :: stack, value => unwind stack (.assign target value)
  | .group factor :: stack, value => (value, some (factor, stack))

/-- Completes everything that waits for `value` at the end of the input.  Answers the tree, and
whether a token past the end has been asked for: after a group that is no factor the reader looks
for an operator once more. -/
def finish : List Frame → Tree → Bool → Tree × Bool
  | [], value, overran => (value, overran)
  | .sum op left :: stack, value, overran => finish stack (.binary op left value) overran
  | .assign target :: stack, value, overran => finish stack (.assign target value) overran
  | .group none :: stack, value, _ => finish stack value true
  | .group (some left) :: stack, value, overran => finish stack (.binary .mul left value) overran

/-- What one token does to the reader. -/
inductive Step where
  /-- The token is used and reading goes on. -/
  | use (state : State)
  /-- The token is dropped and reading goes on behind the innermost group. -/
  | drop (state : State)
  /-- The token is dropped and the expression is complete. -/
  | stop (tree : Tree)
  /-- The token cannot be read. -/
  | fail (error : ReadError)
deriving DecidableEq, Repr

/-- Reads a token where an operand is due. -/
def stepOperand (stack : List Frame) (factor : Option Tree) (token : Token) : Step :=
  match token with
  | .number digits =>
    match Value.ofDigits? digits with
    | some value => .use (afterOperand stack factor (.literal value))
    | none => .fail (.literalOutOfRange digits)
  | .letter name => .use (afterOperand stack factor (.letter name))
  | .preIncrement name => .use (afterOperand stack factor (.preIncrement name))
  | .postIncrement name => .use (afterOperand stack factor (.postIncrement name))
  | .openParen => .use (.operand (.group factor :: stack) none)
  | .operator _ | .closeParen | .other _ => .fail (.notAnOperand token)

/-- Drops a token that stands where an operator is due after the tree `left` and is none.  It ends
the innermost group, or the whole expression if no group is open. -/
def stepDrop (stack : List Frame) (left : Tree) : Step :=
  match unwind stack left with
  | (value, some (factor, below)) => .drop (afterOperand below factor value)
  | (value, none) => .stop value

/-- Reads a token where an operator is due after the tree `left`. -/
def stepOperator (stack : List Frame) (left : Tree) (token : Token) : Step :=
  match token with
  | .operator (.arith .mul) => .use (.operand stack (some left))
  | .operator (.arith op) => .use (.operand (.sum op left :: stack) none)
  | .operator .assign =>
    match left with
    | .letter target => .use (.operand (.assign target :: stack) none)
    | _ => .fail (.notAssignable left)
  | .operator .addAssign =>
    match left with
    | .letter target => .use (.operand (.sum .add left :: .assign target :: stack) none)
    | _ => .fail (.notAssignable left)
  | _ => stepDrop stack left

/-- Reads one token. -/
def State.step : State → Token → Step
  | operand stack factor, token => stepOperand stack factor token
  | operator stack left _, token => stepOperator stack left token

end Reader

/-- What came of reading a list of tokens. -/
structure Reading where
  /-- The tree, or why there is none. -/
  result : Except ReadError Tree
  /-- The tokens that were not reached. -/
  rest : List Token
  /-- The tokens dropped where an operator was due, in order. -/
  dropped : List Token
  /-- Whether a token was asked for when none was left. -/
  overran : Bool

namespace Reader

/-- The answer at the end of the input. -/
def State.atEnd : State → Reading
  | operand _ _ => ⟨.error .unexpectedEnd, [], [], true⟩
  | operator stack left product =>
    ⟨.ok (finish stack left !product).1, [], [], (finish stack left !product).2⟩

/-- Reads on from a state. -/
def read (state : State) : List Token → Reading
  | [] => state.atEnd
  | token :: tokens =>
    match state.step token with
    | .use next => read next tokens
    | .drop next =>
      let reading := read next tokens
      { reading with dropped := token :: reading.dropped }
    | .stop tree => ⟨.ok tree, tokens, [token], false⟩
    | .fail error => ⟨.error error, tokens, [], false⟩

end Reader

namespace Tree

/-- Reads a tree off the front of a list of tokens. -/
def read (tokens : List Token) : Reading := Reader.read (.operand [] none) tokens

/-- Reads a tree off a cursor over words.  The cursor moves behind the last word that was read,
and past the end if the reader asked for one more. -/
def readFrom (c : Cursor String) : Reading × Cursor String :=
  let tokens := c.pending.map Token.ofText
  let reading := read tokens
  let asked := tokens.length - reading.rest.length + reading.overran.toNat
  (reading, c.advance asked)

/-- Reads the tree of a line. -/
def ofLine (line : String) : Reading := read (Token.ofLine line)

end Tree

end LetterCalc
