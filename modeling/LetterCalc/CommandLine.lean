import LetterCalc.Calculator
import LetterCalc.Text.Lines

/-!
# The program

The program takes its lines from its arguments, from a file or from its input, and runs them in
one session.  Arguments and files are there as a whole (`transcript`), while the input is handed
over line by line (`interact`).  Values and variables are written to the output, failures to the
error output, each followed by a line feed; at the end the variables are written if there are any.

Two parts of the program are not made here, and it is run with whatever stands for them.  A reader
of arguments says what they ask for, or ends the program by itself (`ArgumentReader`).  An editor of
lines reads the input, answers each call with a line and says in the end that there is none
(`Editor`).  Runs are defined for all readers and editors, and what is relied on is said where a
result needs it.
-/

namespace LetterCalc

namespace CommandLine

/-! ## What is written -/

/-- What the program writes. -/
@[ext] structure Written where
  /-- The text on the output. -/
  out : String
  /-- The text on the error output. -/
  err : String
deriving DecidableEq, Repr

namespace Written

/-- Nothing is written. -/
def nothing : Written := ⟨"", ""⟩

instance : Append Written := ⟨fun a b => ⟨a.out ++ b.out, a.err ++ b.err⟩⟩

/-- A line on the output. -/
def outLine (text : String) : Written := ⟨text ++ "\n", ""⟩

/-- A line on the error output. -/
def errLine (text : String) : Written := ⟨"", text ++ "\n"⟩

/-- All that is written, one after the other. -/
def concat : List Written → Written
  | [] => nothing
  | first :: rest => first ++ concat rest

@[simp] theorem out_append (a b : Written) : (a ++ b).out = a.out ++ b.out := rfl

@[simp] theorem err_append (a b : Written) : (a ++ b).err = a.err ++ b.err := rfl

theorem append_assoc (a b c : Written) : a ++ b ++ c = a ++ (b ++ c) :=
  Written.ext (by simp [String.append_assoc]) (by simp [String.append_assoc])

@[simp] theorem nothing_append (a : Written) : nothing ++ a = a :=
  Written.ext String.empty_append String.empty_append

@[simp] theorem append_nothing (a : Written) : a ++ nothing = a :=
  Written.ext String.append_empty String.append_empty

theorem concat_append (as bs : List Written) : concat (as ++ bs) = concat as ++ concat bs := by
  induction as with
  | nil => rw [List.nil_append, concat, nothing_append]
  | cons a as ih => rw [List.cons_append, concat, concat, ih, append_assoc]

/-- What is written about the outcome of a line. -/
def ofOutcome (quiet : Bool) : Outcome → Written
  | .value value => if quiet then nothing else outLine (Value.text value)
  | .listing text => outLine text
  | .failure message => errLine message

/-- What is written about outcomes, in their order. -/
def ofOutcomes (quiet : Bool) (outcomes : List Outcome) : Written :=
  concat (outcomes.map (ofOutcome quiet))

theorem ofOutcomes_cons (quiet : Bool) (first : Outcome) (later : List Outcome) :
    ofOutcomes quiet (first :: later) = ofOutcome quiet first ++ ofOutcomes quiet later := rfl

theorem ofOutcomes_append (quiet : Bool) (first later : List Outcome) :
    ofOutcomes quiet (first ++ later) = ofOutcomes quiet first ++ ofOutcomes quiet later := by
  rw [ofOutcomes, List.map_append, concat_append]
  rfl

end Written

/-- How the program ends. -/
structure Exit extends Written where
  /-- The exit status, zero for success. -/
  status : UInt32
deriving DecidableEq, Repr

/-- The end of a program that has written something and then succeeds, or fails with a message. -/
def Exit.ofResult (written : Written) : Except String Unit → Exit
  | .ok () => ⟨written, 0⟩
  | .error message => ⟨written ++ .errLine ("Error: " ++ Text.quoted message), 1⟩

/-! ## Files -/

/-- What comes of asking for a file. -/
inductive FileContent where
  /-- There is no such file. -/
  | missing
  /-- The file may not be opened. -/
  | denied
  /-- The path goes on after a file. -/
  | beyondFile
  /-- The path, or a name in it, is too long. -/
  | nameTooLong
  /-- The path is that of a directory, which can be opened but not read. -/
  | directory
  /-- The bytes of the file. -/
  | bytes (content : ByteArray)

namespace FileContent

/-- The text of a file, or why there is none. -/
def text (path : String) : FileContent → Except String String
  | missing => .error (cannot "open" "No such file or directory (os error 2)")
  | denied => .error (cannot "open" "Permission denied (os error 13)")
  | beyondFile => .error (cannot "open" "Not a directory (os error 20)")
  | nameTooLong => .error (cannot "open" "File name too long (os error 36)")
  | directory => .error (cannot "read" "Is a directory (os error 21)")
  | bytes content =>
    match String.fromUTF8? content with
    | some text => .ok text
    | none => .error (cannot "read" "stream did not contain valid UTF-8")
where
  /-- The message about a file that cannot be used. -/
  cannot (what reason : String) : String :=
    "can't " ++ what ++ " " ++ Text.quoted path ++ ": " ++ reason

end FileContent

/-! ## The arguments and the input -/

/-- What the arguments ask for. -/
structure Options where
  /-- Print the variables only. -/
  quiet : Bool
  /-- Take the lines from this file. -/
  file : Option String
  /-- Keep the history of the editor in this file. -/
  history : Option String
  /-- Take these lines. -/
  expressions : List String
deriving DecidableEq, Repr

/-- Where a run takes its lines from. -/
inductive Source where
  | arguments (lines : List String)
  | file (path : String)
  | input
deriving DecidableEq, Repr

/-- The source that the options ask for: a file before anything else, and the input only if there
are no expressions. -/
def Options.source (o : Options) : Source :=
  match o.file with
  | some path => .file path
  | none => if o.expressions.isEmpty then .input else .arguments o.expressions

/-- Reads the arguments, or ends the program, as for arguments that make no sense. -/
abbrev ArgumentReader := List String → Except Exit Options

/-- What an editor answers when it is asked for line after line. -/
inductive Dialogue where
  /-- It has a line, and is asked again. -/
  | line (text : String) (next : Dialogue)
  /-- The input is at its end. -/
  | ended
  /-- The user breaks off. -/
  | interrupted
  /-- The input cannot be read, for the given reason. -/
  | failed (reason : String)
deriving DecidableEq, Repr

/-- The dialogue that gives the lines and then ends. -/
def Dialogue.ofLines : List String → Dialogue
  | [] => ended
  | first :: rest => line first (ofLines rest)

/-- Reads lines off the input, given the file for the history if one was asked for, or cannot be
started, with a message that says why. -/
abbrev Editor := Option String → ByteArray → Except String Dialogue

/-! ## Runs -/

/-- What is listed when a session ends: its variables, if there are any. -/
def closing (s : Store Value) : List Outcome :=
  if s.isEmpty then [] else [.listing (Session.startOver s).result]

/-- What is written when lines are run in a session of their own. -/
def transcript (quiet : Bool) (lines : List String) : Written :=
  let session := Session.takeLines .empty lines
  .ofOutcomes quiet (session.1 ++ closing session.2)

/-- Runs the lines of a dialogue, each of them before the next one is asked for.  Answers what is
written, and the message if the dialogue fails; the variables are then not listed. -/
def interact (quiet : Bool) (s : Store Value) : Dialogue → Written × Except String Unit
  | .line text next =>
    let response := Session.takeLine s text
    let later := interact quiet response.store next
    (.ofOutcome quiet response.result ++ later.1, later.2)
  | .ended | .interrupted => (.ofOutcomes quiet (closing s), .ok ())
  | .failed reason => (.nothing, .error ("Readline err: " ++ reason))

/-- What is written before the first line of an interactive run. -/
def banner : String :=
  "Welcome to the Numeric Expression Calculator!\n" ++
  "--------------------------------------------------\n" ++
  "[+] Supported operations: +, -, *, =, +=, ++ (prefix and postfix)\n" ++
  "[+] Every line assigns: 'x = ...', 'x += ...', 'x++' or '++x'\n" ++
  "[+] Separate all operands and operators with a single space\n" ++
  "[+] An empty line prints the variables and starts over\n" ++
  "--------------------------------------------------"

/-- Runs the program, given its arguments, the files and the bytes of its input.  A file is read to
its end before its first line is run. -/
def run (read : ArgumentReader) (edit : Editor) (files : String → FileContent) (input : ByteArray)
    (arguments : List String) : Exit :=
  match read arguments with
  | .error exit => exit
  | .ok o =>
    match o.source with
    | .arguments lines => .ofResult (transcript o.quiet lines) (.ok ())
    | .file path =>
      match (files path).text path with
      | .ok text => .ofResult (transcript o.quiet (Text.lines text)) (.ok ())
      | .error message => .ofResult .nothing (.error message)
    | .input =>
      match edit o.history input with
      | .ok dialogue =>
        let session := interact o.quiet .empty dialogue
        .ofResult (.outLine banner ++ session.1) session.2
      | .error message => .ofResult .nothing (.error message)

/-! ## In the world -/

/-- Asks for a file.  Opening a path that goes on after a file and reading a directory fail in the
same way, and the number 21 tells the directory. -/
def readContent (path : String) : IO FileContent := do
  try
    return .bytes (← IO.FS.readBinFile path)
  catch
    | .inappropriateType _ number _ => return if number = 21 then .directory else .beyondFile
    | .permissionDenied .. => return .denied
    | .invalidArgument .. => return .nameTooLong
    | _ => return .missing

/-- Reads the file or the input that the arguments ask for, runs, and writes. -/
def program (read : ArgumentReader) (edit : Editor) (arguments : List String) : IO UInt32 := do
  let source := (read arguments).toOption.map Options.source
  let content ←
    match source with
    | some (.file path) => readContent path
    | _ => pure .missing
  let input ←
    match source with
    | some .input => (← IO.getStdin).readBinToEnd
    | _ => pure .empty
  let exit := run read edit (fun _ => content) input arguments
  IO.print exit.out
  IO.eprint exit.err
  return exit.status

end CommandLine

end LetterCalc
