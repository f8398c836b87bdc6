import LetterCalc.Cursor.Text

/-!
# Commands to a cursor

Every operation of a cursor as a value, so that a sequence of operations can be given as data and
reasoned about as a whole.  `Command` holds the operations that every cursor has, `TextCommand`
those of a cursor over characters.
-/

namespace LetterCalc

namespace Cursor

/-- An operation of a cursor. -/
inductive Command (α : Type) where
  | next
  | prev
  | peek
  | current
  | atEnd
  | position
  | seek (n : Int)
  | view
  | forget
  | takeView
  | accept (item : α)
  | acceptAny (items : List α)
  | acceptSeq (items : List α)
  | skipOver (items : List α)
  | skipUntil (items : List α)
  | rest
deriving DecidableEq, Repr

/-- What an operation of a cursor answers. -/
inductive Reply (α : Type) where
  /-- An item, if there is one. -/
  | item (found : Option α)
  /-- Whether the operation succeeded, or a question's answer. -/
  | flag (value : Bool)
  /-- A position. -/
  | position (n : Int)
  /-- A list of items. -/
  | items (found : List α)
  /-- Nothing but that the operation is done. -/
  | done
deriving DecidableEq, Repr

/-- Carries out an operation. -/
def Command.apply {α : Type} [DecidableEq α] (command : Command α) (c : Cursor α) :
    Reply α × Cursor α :=
  match command with
  | next => (.item c.next.1, c.next.2)
  | prev => (.item c.prev.1, c.prev.2)
  | peek => (.item c.peek.1, c.peek.2)
  | current => (.item c.current, c)
  | atEnd => (.flag c.atEnd.1, c.atEnd.2)
  | position => (.position c.position, c)
  | seek n => (.flag (c.seek n).1, (c.seek n).2)
  | view => (.items c.view, c)
  | forget => (.done, c.forget)
  | takeView => (.items c.takeView.1, c.takeView.2)
  | accept item => (.item (c.accept item).1, (c.accept item).2)
  | acceptAny items => (.item (c.acceptAny items).1, (c.acceptAny items).2)
  | acceptSeq items => (.flag (c.acceptSeq items).1, (c.acceptSeq items).2)
  | skipOver items => (.flag (c.skipOver items).1, (c.skipOver items).2)
  | skipUntil items => (.flag (c.skipUntil items).1, (c.skipUntil items).2)
  | rest => (.items c.rest.1, c.rest.2)

/-- An operation of a cursor over characters. -/
inductive TextCommand where
  /-- An operation that every cursor has. -/
  | basic (command : Command Char)
  | takeText
  | acceptText (text : String)
  | skipSeparators
  | forgetSeparators
  | scanDigits
  | scanLetter
deriving DecidableEq, Repr

/-- What an operation of a cursor over characters answers. -/
inductive TextReply where
  /-- What any cursor can answer. -/
  | basic (reply : Reply Char)
  /-- A text, if there is one. -/
  | text (found : Option String)
deriving DecidableEq, Repr

/-- Carries out an operation on characters. -/
def TextCommand.apply (command : TextCommand) (c : Cursor Char) : TextReply × Cursor Char :=
  match command with
  | basic command => (.basic (command.apply c).1, (command.apply c).2)
  | takeText => (.text (some c.takeText.1), c.takeText.2)
  | acceptText text => (.basic (.flag (c.acceptText text).1), (c.acceptText text).2)
  | skipSeparators => (.basic (.flag c.skipSeparators.1), c.skipSeparators.2)
  | forgetSeparators => (.basic .done, c.forgetSeparators)
  | scanDigits => (.text c.scanDigits.1, c.scanDigits.2)
  | scanLetter => (.basic (.item c.scanLetter.1), c.scanLetter.2)

/-- Carries out operations one after the other.  Answers each reply together with the cursor right
after it. -/
def runCommands {κ ρ α : Type} (apply : κ → Cursor α → ρ × Cursor α) :
    List κ → Cursor α → List (ρ × Cursor α)
  | [], _ => []
  | command :: commands, c => apply command c :: runCommands apply commands (apply command c).2

/-- The cursor that operations leave which are carried out one after the other. -/
def after {κ ρ α : Type} (apply : κ → Cursor α → ρ × Cursor α) (commands : List κ) (c : Cursor α) :
    Cursor α :=
  commands.foldl (fun c command => (apply command c).2) c

end Cursor

end LetterCalc
