import LetterCalc.Event

/-!
# The calculator and its sessions

A line goes through three stages: it is validated, its tree is read, and the tree is evaluated
against the store.  A line that fails in one of the first two is an invalid expression and leaves
the store as it was.

A session is a sequence of lines that share their variables.  A blank line shows the variables
and starts over; any other line is calculated, and a failure does not end the session.
-/

namespace LetterCalc

/-- What comes of an operation on a store. -/
structure Response (ρ : Type) where
  /-- What the operation answers. -/
  result : ρ
  /-- The store afterwards. -/
  store : Store Value
  /-- What the operation reports, in order. -/
  events : List Event

namespace Failure

/-- What a caller learns about a line without a tree: that it is invalid, whatever the reader
found. -/
def ofReadError : ReadError → Failure := fun _ => invalidExpression

end Failure

namespace Calculator

/-- Whether a line passes validation, and what is reported if it does not. -/
def accepts (line : String) : Bool × List Event :=
  match Validation.check line with
  | .ok () => (true, [])
  | .error reason => (false, [.rejected line reason])

/-- What is reported about the value of a tree. -/
def evaluationEvents (tree : Tree) : Except Failure Value → List Event
  | .ok value => [.evaluated tree value]
  | .error failure => (failure.missing?.map .undefined).toList ++ [.failed tree failure]

/-- Evaluates a tree against a store. -/
def evaluate (s : Store Value) (tree : Tree) : Response (Except Failure Value) :=
  { result := (tree.eval s).1
    store := (tree.eval s).2
    events := evaluationEvents tree (tree.eval s).1 }

/-- Runs a line against a store. -/
def runLine (s : Store Value) (line : String) : Response (Except Failure Value) :=
  match accepts line with
  | (false, events) => { result := .error .invalidExpression, store := s, events := events }
  | (true, _) =>
    let reading := Tree.ofLine line
    match reading.result with
    | .error error =>
      { result := .error (.ofReadError error), store := s
        events := reading.events ++ [.unreadable error] }
    | .ok tree =>
      let response := evaluate s tree
      { response with events := reading.events ++ response.events }

/-- Removes all variables. -/
def reset (s : Store Value) : Response Unit :=
  { result := (), store := s.clear, events := [.reset s.size] }

end Calculator

/-! ## Sessions -/

/-- What a line of a session produces. -/
inductive Outcome where
  /-- The line has a value. -/
  | value (value : Value)
  /-- The line was blank, and these were the variables. -/
  | listing (text : String)
  /-- The line failed, with this message for the user. -/
  | failure (message : String)
deriving DecidableEq, Repr

namespace Session

/-- What the user is told about a line that failed. -/
def complaint (line : String) : Failure → String
  | .invalidExpression => "The expression '" ++ line ++ "' is invalid."
  | .undefinedVariable _ => "There is an undefined variable in the expression '" ++ line ++ "'."

/-- Starts over.  Answers the variables that there were. -/
def startOver (s : Store Value) : Response String :=
  { Calculator.reset s with result := s.text }

/-- Takes one line. -/
def takeLine (s : Store Value) (line : String) : Response Outcome :=
  if Text.isBlank line then
    let response := startOver s
    { response with result := .listing response.result }
  else
    let response := Calculator.runLine s line
    match response.result with
    | .ok value => { response with result := .value value }
    | .error failure =>
      { response with
        result := .failure (complaint line failure)
        events := response.events ++ [.lineFailed line failure] }

/-- Takes line after line.  Answers what they produce, and the store in the end. -/
def takeLines (s : Store Value) : List String → List Outcome × Store Value
  | [] => ([], s)
  | line :: lines =>
    let response := takeLine s line
    let later := takeLines response.store lines
    (response.result :: later.1, later.2)

end Session

end LetterCalc
