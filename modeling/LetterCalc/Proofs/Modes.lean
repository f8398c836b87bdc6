import LetterCalc.CommandLine

/-!
# The modes of the program agree

The program can be given the same lines in three ways: as arguments, in a file and on its input.
Whichever way is taken, the lines are run in one session and the same is written about them.

Three things have to come out right.  The arguments have to be read as what they ask for, which is
left to the reader of arguments (`ReadsArguments`).  A file and an input have to be cut where their
lines were ended: the program cuts a file itself (`Text.lines_unlines`), while the input is cut by
the editor (`ReadsLines`).  And the interactive loop, which takes a line at a time and has an end of
its own, has to write what is written about all lines at once (`interact_ofLines`).

The reader and the editor are any that do what is relied on.  Both assumptions can be met: a reader
that knows these arguments and no others, and an editor that only cuts the input, meet them
(`readsArguments_plainReader`, `readsLines_plainEditor`).
-/

namespace LetterCalc

namespace CommandLine

/-! ## What is relied on -/

/-- The arguments that ask for quiet output, if it is wanted. -/
def flags (quiet : Bool) : List String := if quiet then ["-q"] else []

/-- What is relied on of a reader of arguments. -/
structure ReadsArguments (read : ArgumentReader) : Prop where
  /-- Everything after `--` is an expression. -/
  expressions : ∀ (quiet : Bool) (lines : List String),
    read (flags quiet ++ "--" :: lines) = .ok ⟨quiet, none, none, lines⟩
  /-- The path of a file follows `-f`, if it cannot be taken for an option. -/
  file : ∀ (quiet : Bool) (path : String), path ≠ "" → path.toList.head? ≠ some '-' →
    read (flags quiet ++ ["-f", path]) = .ok ⟨quiet, some path, none, []⟩
  /-- No more is asked for than the arguments say. -/
  neither : ∀ quiet : Bool, read (flags quiet) = .ok ⟨quiet, none, none, []⟩

/-- What is relied on of an editor: it ends the lines of the text at a line feed, drops one carriage
return before it and hands them over as they are.

This is asked for the text at hand only.  An editor that takes some characters for commands, such as
a backspace, may do so in other texts. -/
def ReadsLines (edit : Editor) (text : String) : Prop :=
  edit none text.toUTF8 = .ok (.ofLines (Text.lines text))

/-! ## A reader and an editor -/

/-- A text is read back from its bytes. -/
theorem fromUTF8?_toUTF8 (text : String) : String.fromUTF8? text.toUTF8 = some text := by
  have hvalid : text.toUTF8.IsValidUTF8 := text.isValidUTF8
  rw [String.fromUTF8?, dif_pos hvalid]
  rfl

/-- A reader that knows the arguments that are relied on, and refuses all others. -/
def plainReader : ArgumentReader
  | "-q" :: arguments => request true arguments
  | arguments => request false arguments
where
  /-- Reads what is left of the arguments. -/
  request (quiet : Bool) : ArgumentReader
    | [] => .ok ⟨quiet, none, none, []⟩
    | "--" :: lines => .ok ⟨quiet, none, none, lines⟩
    | ["-f", path] => .ok ⟨quiet, some path, none, []⟩
    | _ => .error ⟨.errLine "unexpected argument", 2⟩

theorem readsArguments_plainReader : ReadsArguments plainReader where
  expressions quiet lines := by cases quiet <;> rfl
  file quiet path _ _ := by cases quiet <;> rfl
  neither quiet := by cases quiet <;> rfl

/-- An editor that cuts the input into its lines and knows no commands. -/
def plainEditor : Editor := fun _ input =>
  match String.fromUTF8? input with
  | some text => .ok (.ofLines (Text.lines text))
  | none => .ok (.failed "stream did not contain valid UTF-8")

theorem readsLines_plainEditor (text : String) : ReadsLines plainEditor text := by
  rw [ReadsLines, plainEditor, fromUTF8?_toUTF8]

/-! ## The interactive loop -/

/-- Running lines as they are handed over writes what running them all at once does. -/
theorem interact_ofLines (quiet : Bool) (s : Store Value) (lines : List String) :
    interact quiet s (.ofLines lines) =
      (.ofOutcomes quiet ((Session.takeLines s lines).1 ++ closing (Session.takeLines s lines).2),
        .ok ()) := by
  induction lines generalizing s with
  | nil => rfl
  | cons line lines ih =>
    rw [Dialogue.ofLines, interact, ih, Session.takeLines, List.cons_append,
      Written.ofOutcomes_cons]

/-! ## The three modes -/

section Modes

variable {read : ArgumentReader} {edit : Editor} {files : String → FileContent}
  {input : ByteArray} {lines : List String} {text path : String}

theorem run_arguments (hread : ReadsArguments read) (quiet : Bool) (hne : lines ≠ []) :
    run read edit files input (flags quiet ++ "--" :: lines) = ⟨transcript quiet lines, 0⟩ := by
  have hsource : Options.source ⟨quiet, none, none, lines⟩ = .arguments lines := by
    simp [Options.source, hne]
  rw [run, hread.expressions]
  simp only [hsource, Exit.ofResult]

theorem run_file (hread : ReadsArguments read) (quiet : Bool) (hne : path ≠ "")
    (hdash : path.toList.head? ≠ some '-') (hfile : files path = .bytes text.toUTF8) :
    run read edit files input (flags quiet ++ ["-f", path]) =
      ⟨transcript quiet (Text.lines text), 0⟩ := by
  have htext : (files path).text path = .ok text := by
    rw [hfile, FileContent.text, fromUTF8?_toUTF8]
  rw [run, hread.file quiet path hne hdash]
  simp only [Options.source, htext, Exit.ofResult]

theorem run_input (hread : ReadsArguments read) (quiet : Bool) (hedit : ReadsLines edit text) :
    run read edit files text.toUTF8 (flags quiet) =
      ⟨.outLine banner ++ transcript quiet (Text.lines text), 0⟩ := by
  have hlines : edit none text.toUTF8 = .ok (.ofLines (Text.lines text)) := hedit
  rw [run, hread.neither]
  simp only [Options.source, List.isEmpty_nil, if_true, hlines, interact_ofLines, Exit.ofResult]
  rfl

/-- The modes of the program agree on lines that hold no line feed and do not end in a carriage
return, and each of them succeeds.  With the lines in a file the program does what it does with the
lines as arguments.  With the lines on its input it writes the same after the banner. -/
theorem modes_agree (hread : ReadsArguments read) (files : String → FileContent)
    (input : ByteArray) (quiet : Bool) (hne : lines ≠ [])
    (hfeed : ∀ line ∈ lines, '\n' ∉ line.toList)
    (hreturn : ∀ line ∈ lines, line.toList.getLast? ≠ some '\r')
    (hpath : path ≠ "") (hdash : path.toList.head? ≠ some '-')
    (hfile : files path = .bytes (Text.unlines lines).toUTF8)
    (hedit : ReadsLines edit (Text.unlines lines)) :
    (run read edit files input (flags quiet ++ "--" :: lines)).status = 0 ∧
    run read edit files input (flags quiet ++ ["-f", path]) =
      run read edit files input (flags quiet ++ "--" :: lines) ∧
    (run read edit files (Text.unlines lines).toUTF8 (flags quiet)).status = 0 ∧
    (run read edit files (Text.unlines lines).toUTF8 (flags quiet)).err =
      (run read edit files input (flags quiet ++ "--" :: lines)).err ∧
    (run read edit files (Text.unlines lines).toUTF8 (flags quiet)).out =
      banner ++ "\n" ++ (run read edit files input (flags quiet ++ "--" :: lines)).out := by
  have hlines : Text.lines (Text.unlines lines) = lines := Text.lines_unlines hfeed hreturn
  rw [run_arguments hread quiet hne, run_file hread quiet hpath hdash hfile,
    run_input hread quiet hedit, hlines]
  exact ⟨rfl, rfl, rfl, String.empty_append, rfl⟩

/-- Four lines, one of them blank and one no expression, with a character of more than one byte. -/
theorem modes_agree_on_invalid_line :
    ∃ files, files "input.txt" =
        .bytes (Text.unlines ["x = 1", "é = 1", "", "z = 2"]).toUTF8 ∧
      run plainReader plainEditor files .empty ["-q", "-f", "input.txt"] =
        run plainReader plainEditor files .empty ["-q", "--", "x = 1", "é = 1", "", "z = 2"] ∧
      (run plainReader plainEditor files
          (Text.unlines ["x = 1", "é = 1", "", "z = 2"]).toUTF8 ["-q"]).err =
        "The expression 'é = 1' is invalid.\n" ∧
      (run plainReader plainEditor files
          (Text.unlines ["x = 1", "é = 1", "", "z = 2"]).toUTF8 ["-q"]).out =
        banner ++ "\n" ++ "(x=1)\n(z=2)\n" := by
  have hne : ["x = 1", "é = 1", "", "z = 2"] ≠ [] := by decide
  have hfeed : ∀ line ∈ ["x = 1", "é = 1", "", "z = 2"], '\n' ∉ line.toList := by decide
  have hreturn : ∀ line ∈ ["x = 1", "é = 1", "", "z = 2"],
      line.toList.getLast? ≠ some '\r' := by decide
  have hdash : "input.txt".toList.head? ≠ some '-' := by decide
  let files : String → FileContent :=
    fun _ => .bytes (Text.unlines ["x = 1", "é = 1", "", "z = 2"]).toUTF8
  obtain ⟨-, hfile, -, herr, hout⟩ :=
    modes_agree readsArguments_plainReader files .empty true hne hfeed hreturn (by decide) hdash
      rfl (readsLines_plainEditor _)
  exact ⟨files, rfl, hfile, herr.trans (by decide +kernel), hout.trans (by decide +kernel)⟩

end Modes

end CommandLine

end LetterCalc
