import LetterCalc.Tree.Reader
import LetterCalc.Validation

/-!
# Events

While it works the calculator reports what it does, for whoever keeps a log.  Each event has a
level and a message.
-/

namespace LetterCalc

/-- How much an event matters. -/
inductive Level where
  | trace
  | debug
  | error
deriving DecidableEq, Repr

namespace Level

/-- The name of a level. -/
def text : Level → String
  | trace => "TRACE"
  | debug => "DEBUG"
  | error => "ERROR"

end Level

/-- What the calculator reports. -/
inductive Event where
  /-- The reader dropped a token where an operator was due. -/
  | dropped (token : Token)
  /-- The reader stopped before this token. -/
  | trailing (token : Token)
  /-- The reader completed a tree. -/
  | built (tree : Tree)
  /-- Validation rejected a line. -/
  | rejected (line : String) (reason : Rejection)
  /-- A line that passed validation has no tree. -/
  | unreadable (error : ReadError)
  /-- A variable without a value was read. -/
  | undefined (name : Char)
  /-- A tree was evaluated. -/
  | evaluated (tree : Tree) (value : Value)
  /-- A tree could not be evaluated. -/
  | failed (tree : Tree) (failure : Failure)
  /-- A store with so many variables was cleared. -/
  | reset (size : Nat)
  /-- A line of a session failed. -/
  | lineFailed (line : String) (failure : Failure)
deriving DecidableEq, Repr

namespace Event

/-- The level of an event. -/
def level : Event → Level
  | dropped _ | trailing _ | built _ => .trace
  | unreadable error => if error.isForeseen then .debug else .error
  | rejected _ _ | undefined _ | evaluated _ _ | failed _ _ | reset _ | lineFailed _ _ => .debug

/-- The text of an event. -/
def message : Event → String
  | dropped token => "dropping " ++ Text.quoted token.text
  | trailing token => "ignoring trailing tokens from " ++ Text.quoted token.text
  | built tree => "built " ++ tree.text
  | rejected line reason => "rejected " ++ Text.quoted line ++ ": " ++ reason.message
  | unreadable error =>
    (if error.isForeseen then "rejected: " else "builder invariant broken: ") ++ error.message
  | undefined name => "variable '" ++ String.singleton name ++ "' is undefined"
  | evaluated tree value => tree.text ++ " => " ++ Value.text value
  | failed tree failure => tree.text ++ " failed: " ++ failure.message
  | reset size => "reset " ++ toString size ++ " variable(s)"
  | lineFailed line failure => Text.quoted line ++ ": " ++ failure.message

/-- A line of a log: the level, then the message. -/
def text (event : Event) : String := event.level.text ++ " " ++ event.message

end Event

namespace Reading

/-- What the reader reports. -/
def events (reading : Reading) : List Event :=
  reading.dropped.map .dropped ++
    match reading.result with
    | .ok tree => (reading.rest.head?.map .trailing).toList ++ [.built tree]
    | .error _ => []

end Reading

end LetterCalc
