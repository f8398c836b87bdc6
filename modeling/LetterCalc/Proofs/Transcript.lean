import LetterCalc.CommandLine

/-!
# Blank lines divide a run

A blank line lists the variables and starts over, so what stands behind it is run as if nothing
stood before it.  The outcomes of a run are therefore those of its parts, one part for each blank
line, with the variables of the part before at each place where the run is divided.

What is written goes by the outcomes.  At the end of its input a run lists its variables only if
there are any, whereas a blank line lists them in any case.  The writing of a divided run thus
differs from that of its parts by the line `()` for each part that ends without variables
(`transcript_of_blank`), and by nothing else.
-/

namespace LetterCalc

/-! ## Sessions -/

namespace Store

theorem text_of_isEmpty {s : Store Value} (h : s.isEmpty = true) : s.text = "()" := by
  have hb : s.bindings = [] := List.isEmpty_iff.1 h
  rw [text, hb]
  rfl

end Store

namespace Session

/-- Lines are taken in parts: the second part goes on with the store that the first has left. -/
theorem takeLines_append (s : Store Value) (first later : List String) :
    takeLines s (first ++ later) =
      ((takeLines s first).1 ++ (takeLines (takeLines s first).2 later).1,
        (takeLines (takeLines s first).2 later).2) := by
  induction first generalizing s with
  | nil => rfl
  | cons line first ih => rw [List.cons_append, takeLines, ih, takeLines, List.cons_append]

/-- A blank line lists the variables and leaves none. -/
theorem takeLine_of_blank {line : String} (h : Text.isBlank line = true) (s : Store Value) :
    (takeLine s line).result = .listing s.text ∧ (takeLine s line).store = .empty := by
  rw [takeLine, if_pos h]
  exact ⟨rfl, rfl⟩

/-- What stands behind a blank line is taken as in a session of its own. -/
theorem takeLines_of_blank {line : String} (h : Text.isBlank line = true) (s : Store Value)
    (before after : List String) :
    takeLines s (before ++ [line] ++ after) =
      ((takeLines s before).1 ++ [.listing (takeLines s before).2.text] ++
          (takeLines .empty after).1,
        (takeLines .empty after).2) := by
  obtain ⟨hresult, hstore⟩ := takeLine_of_blank h (takeLines s before).2
  rw [takeLines_append, takeLines_append]
  simp only [takeLines, hresult, hstore]

end Session

/-! ## Transcripts -/

namespace CommandLine

theorem ofOutcomes_listing (quiet : Bool) (text : String) :
    Written.ofOutcomes quiet [.listing text] = .outLine text :=
  Written.append_nothing _

/-- What the listing of a blank line adds to what is written at the end of a session. -/
theorem ofOutcomes_listing_eq_closing (quiet : Bool) (s : Store Value) :
    Written.ofOutcomes quiet [.listing s.text] =
      Written.ofOutcomes quiet (closing s) ++ if s.isEmpty then .outLine "()" else .nothing := by
  rw [ofOutcomes_listing]
  cases he : s.isEmpty with
  | true =>
    rw [closing, if_pos he, if_pos rfl, Store.text_of_isEmpty he]
    exact (Written.nothing_append _).symm
  | false =>
    have hc : closing s = [.listing s.text] := by
      rw [closing, he]
      rfl
    rw [hc, ofOutcomes_listing]
    exact (Written.append_nothing _).symm

/-- What is written about lines with a blank one among them. -/
theorem transcript_of_blank {line : String} (h : Text.isBlank line = true) (quiet : Bool)
    (before after : List String) :
    transcript quiet (before ++ [line] ++ after) =
      transcript quiet before ++
        (if (Session.takeLines .empty before).2.isEmpty then .outLine "()" else .nothing) ++
        transcript quiet after := by
  simp only [transcript, Session.takeLines_of_blank h, Written.ofOutcomes_append,
    ofOutcomes_listing_eq_closing, Written.append_assoc]

/-- A blank line divides a run.  The outcomes are those of the lines before it, then the variables
that these lines have left, then the outcomes that the lines behind it have in a session of their
own.  The error output is that of the two parts, and so is the output, with the line `()` between
them if the first part leaves no variables. -/
theorem blank_line_divides_run {line : String} (h : Text.isBlank line = true)
    (before after : List String) :
    (Session.takeLines .empty (before ++ [line] ++ after)).1 =
      (Session.takeLines .empty before).1 ++
        [.listing (Session.takeLines .empty before).2.text] ++
        (Session.takeLines .empty after).1 ∧
    ∀ quiet,
      (transcript quiet (before ++ [line] ++ after)).err =
        (transcript quiet before).err ++ (transcript quiet after).err ∧
      (transcript quiet (before ++ [line] ++ after)).out =
        if (Session.takeLines .empty before).2.isEmpty then
          (transcript quiet before).out ++ "()\n" ++ (transcript quiet after).out
        else (transcript quiet before).out ++ (transcript quiet after).out := by
  refine ⟨by rw [Session.takeLines_of_blank h], fun quiet => ?_⟩
  rw [transcript_of_blank h]
  cases (Session.takeLines .empty before).2.isEmpty with
  | true =>
    have hline : "()" ++ "\n" = "()\n" := by decide
    simp [Written.outLine, hline]
  | false => simp [Written.nothing]

/-- The line before the blank one fails and leaves `y` bound, and the line behind it finds `y`
unbound again. -/
theorem blank_line_divides_failing_run :
    Text.isBlank " \u3000" = true ∧
    (Session.takeLines .empty (["x = (y = 1) + q"] ++ [" \u3000"] ++ ["z = y + 1"])).1 =
      [.failure "There is an undefined variable in the expression 'x = (y = 1) + q'.",
        .listing "(y=1)",
        .failure "There is an undefined variable in the expression 'z = y + 1'."] ∧
    (transcript false (["x = (y = 1) + q"] ++ [" \u3000"] ++ ["z = y + 1"])).out = "(y=1)\n" := by
  have h : Text.isBlank " \u3000" = true := by decide +kernel
  obtain ⟨houtcomes, hwritten⟩ := blank_line_divides_run h ["x = (y = 1) + q"] ["z = y + 1"]
  rw [houtcomes, (hwritten false).2]
  decide +kernel

-- A blank line lists the variables also where there are none.
example : (transcript false ([] ++ [""] ++ ["x = 1"])).out = "()\n1\n(x=1)\n" := by decide +kernel

end CommandLine

end LetterCalc
