import LetterCalc.Proofs.Conservation
import LetterCalc.Proofs.Lookahead
import LetterCalc.Proofs.Words

/-!
# The longest match or nothing

A matching operation tries one item after the other, and each attempt first moves the cursor and
then has to put it back.  What comes of it can be said without the attempts: `skipOver` and
`skipUntil` move over the longest run of fitting items, and `acceptSeq` over its whole sequence or
over nothing.

This holds wherever a run of operations can leave a cursor.  Such a cursor is `Bounded` and no more:
a seek can put it past the last buffered item while there are items left in the source, and then it
is not `Settled` and what is said of settled cursors does not apply.  So the moves are described by
the place they lead to (`Moved`) and not by what they leave in the buffer.

Behind digits that are read a new view starts, and there the buffer does matter.  It is in order
because a cursor that has moved over an item is settled, wherever it stood before
(`settled_of_skipOver`).
-/

namespace LetterCalc

namespace Cursor

variable {α : Type}

/-! ## Longest runs -/

/-- The first `n` items satisfy `p`, and no longer front part of the items does. -/
structure LongestRun (p : α → Prop) (items : List α) (n : Nat) : Prop where
  le_length : n ≤ items.length
  holds : ∀ a ∈ items.take n, p a
  longest : ∀ m ≤ items.length, (∀ a ∈ items.take m, p a) → m ≤ n

theorem longestRun_takeWhile (p : α → Bool) (items : List α) :
    LongestRun (p · = true) items (items.takeWhile p).length := by
  have htake : items.takeWhile p = items.take (items.takeWhile p).length :=
    List.prefix_iff_eq_take.1 (List.takeWhile_prefix p)
  refine ⟨(List.takeWhile_prefix p).length_le, ?_, ?_⟩
  · intro a ha
    rw [← htake] at ha
    exact List.all_eq_true.1 List.all_takeWhile a ha
  · intro m hm hall
    -- The first `m` items are taken before the rest is looked at.
    have hsplit : (items.take m ++ items.drop m).takeWhile p =
        items.take m ++ (items.drop m).takeWhile p := List.takeWhile_append_of_pos hall
    rw [List.take_append_drop] at hsplit
    rw [hsplit, List.length_append, List.length_take]
    omega

/-- A run is not empty exactly when the first item starts it. -/
theorem length_takeWhile_pos_iff {p : α → Bool} {items : List α} :
    0 < (items.takeWhile p).length ↔ items.head?.any p = true := by
  cases items with
  | nil => simp
  | cons a as => by_cases h : p a = true <;> simp [h]

/-! ## Moves -/

/-- The cursor `d` stands `n` places further than `c` and holds the same items. -/
structure Moved (c : Cursor α) (n : Nat) (d : Cursor α) : Prop where
  stock_eq : d.stock = c.stock
  position_eq : d.position = c.position + n

namespace Moved

variable {c d e : Cursor α} {m n : Nat}

theorem offset_eq (h : c.Moved n d) : d.offset = c.offset + n := by
  have hp := h.position_eq
  unfold position at hp
  omega

theorem of_offset (hs : d.stock = c.stock) (ho : d.offset = c.offset + n) : c.Moved n d := by
  refine ⟨hs, ?_⟩
  unfold position
  omega

theorem trans (h : c.Moved m d) (h' : d.Moved n e) : c.Moved (m + n) e := by
  have ho := h.offset_eq
  have ho' := h'.offset_eq
  exact .of_offset (h'.stock_eq.trans h.stock_eq) (by omega)

theorem pending_eq (h : c.Moved n d) : d.pending = c.pending.drop n := by
  rw [pending, pending, h.stock_eq, h.offset_eq, List.drop_drop]

end Moved

section Moves

variable {c : Cursor α}

/-- A step that answers an item leads one place further. -/
theorem moved_next {a : α} (h : c.next.1 = some a) : c.Moved 1 c.next.2 := by
  have ho := c.offset_next
  rw [next_fst, pending, List.head?_drop] at h
  have hlt := (List.getElem?_eq_some_iff.1 h).1
  exact .of_offset c.stock_next (by omega)

theorem moved_peek (c : Cursor α) : c.Moved 0 c.peek.2 := .of_offset c.stock_peek rfl

theorem moved_acceptIf {p : α → Bool} {a : α} (h : (c.acceptIf p).1 = some a) :
    c.Moved 1 (c.acceptIf p).2 := by
  obtain ⟨hn, -, hs⟩ := next_of_acceptIf h
  rw [hs]
  exact moved_next hn

variable [DecidableEq α]

theorem moved_skipOver (hc : c.Bounded) (items : List α) :
    c.Moved (c.pending.takeWhile (· ∈ items)).length (c.skipOver items).2 := by
  fun_induction skipOver c items with
  | case1 c a h ih =>
    obtain ⟨hn, ha, -⟩ := next_of_acceptIf h
    have hstep : c.Moved 1 (c.acceptAny items).2 := moved_acceptIf h
    rw [next_fst] at hn
    obtain ⟨as, has⟩ := List.head?_eq_some_iff.1 hn
    -- One item, and then the run behind it.
    have hrun := hstep.trans (ih (c.bounded_acceptIf _))
    rw [hstep.pending_eq, has, List.drop_one, List.tail_cons] at hrun
    rw [has, List.takeWhile_cons, if_pos ha, List.length_cons, Nat.add_comm]
    exact hrun
  | case2 c h =>
    have hs : (c.acceptAny items).2 = c.peek.2 := acceptIf_of_none hc h
    have hnone : (c.pending.takeWhile (· ∈ items)).length = 0 := by
      rw [acceptAny, acceptIf_fst] at h
      refine Nat.eq_zero_of_not_pos fun hpos => ?_
      rw [length_takeWhile_pos_iff, Option.any_eq_true] at hpos
      obtain ⟨a, ha, hm⟩ := hpos
      rw [ha] at h
      simp [of_decide_eq_true hm] at h
    rw [hnone, hs]
    exact c.moved_peek

theorem moved_skipUntil (c : Cursor α) (items : List α) :
    c.Moved (c.pending.takeWhile (· ∉ items)).length (c.skipUntil items).2 := by
  fun_induction skipUntil c items with
  | case1 c h =>
    rw [peek_fst, List.head?_eq_none_iff] at h
    rw [h]
    exact c.moved_peek
  | case2 c a h hm =>
    rw [peek_fst] at h
    obtain ⟨as, has⟩ := List.head?_eq_some_iff.1 h
    rw [has, List.takeWhile_cons_of_neg (by simpa using hm)]
    exact c.moved_peek
  | case3 c a h hm ih =>
    rw [peek_fst] at h
    have hn : c.peek.2.next.1 = some a := by rw [next_fst, pending_peek, h]
    have hstep : c.Moved (0 + 1) c.peek.2.next.2 := c.moved_peek.trans (moved_next hn)
    have hrun := hstep.trans ih
    obtain ⟨as, has⟩ := List.head?_eq_some_iff.1 h
    rw [hstep.pending_eq, has, List.drop_one, List.tail_cons] at hrun
    rw [has, List.takeWhile_cons_of_pos (by simpa using hm), List.length_cons, Nat.add_comm]
    exact hrun

theorem moved_acceptEach {items : List α} (h : (c.acceptEach items).1 = true) :
    c.Moved items.length (c.acceptEach items).2 := by
  induction items generalizing c with
  | nil => exact .of_offset rfl rfl
  | cons item items ih =>
    unfold acceptEach at h ⊢
    split at h
    · next a ha =>
      have hstep : c.Moved 1 (c.accept item).2 := moved_acceptIf ha
      rw [List.length_cons, Nat.add_comm]
      exact hstep.trans (ih h)
    · cases h

/-- Whether or not its items are all accepted, `acceptSeq` ends at a place that its answer gives. -/
theorem moved_acceptSeq (hc : c.Bounded) (items : List α) :
    c.Moved (if (c.acceptSeq items).1 then items.length else 0) (c.acceptSeq items).2 := by
  unfold acceptSeq
  split
  · next h => exact moved_acceptEach h
  · -- The way back is open, as the buffer has only grown.
    rw [seek_position hc (c.length_buffer_le_acceptEach items)]
    exact .of_offset (c.stock_acceptEach items) rfl

/-- A cursor that has moved over an item of a run is settled, also if it was not before. -/
theorem settled_of_skipOver {items : List α} (h : (c.skipOver items).1 = true) :
    (c.skipOver items).2.Settled := by
  rw [skipOver_eq] at h ⊢
  split at h
  · next a ha =>
    obtain ⟨hn, -, hs⟩ := next_of_acceptIf ha
    have hsettled : (c.acceptAny items).2.Settled := by
      rw [acceptAny, hs]
      exact settled_next hn
    exact settled_skipOver items hsettled
  · cases h

end Moves

/-! ## Wherever operations lead -/

/-- The matching operations take the longest match of what is pending, or nothing. -/
structure TakesLongest [DecidableEq α] (c : Cursor α) : Prop where
  /-- `skipOver` moves over the longest run of its items and says whether there was one. -/
  skipOver : ∀ items, ∃ n, LongestRun (· ∈ items) c.pending n ∧ c.Moved n (c.skipOver items).2 ∧
    ((c.skipOver items).1 = true ↔ 0 < n)
  /-- `skipUntil` moves over the longest run without its items and says whether there was one. -/
  skipUntil : ∀ items, ∃ n, LongestRun (· ∉ items) c.pending n ∧ c.Moved n (c.skipUntil items).2 ∧
    ((c.skipUntil items).1 = true ↔ 0 < n)
  /-- `acceptSeq` succeeds exactly when its items come next. -/
  acceptSeq_iff : ∀ items, (c.acceptSeq items).1 = true ↔ items <+: c.pending
  /-- `acceptSeq` moves over its items if it succeeds, and not at all if it fails. -/
  acceptSeq_moved : ∀ items,
    c.Moved (if (c.acceptSeq items).1 then items.length else 0) (c.acceptSeq items).2

theorem Bounded.takesLongest [DecidableEq α] {c : Cursor α} (hc : c.Bounded) : c.TakesLongest := by
  refine ⟨fun items => ?_, fun items => ?_, fun items => acceptSeq_fst_iff, moved_acceptSeq hc⟩
  · have hrun := longestRun_takeWhile (fun a => decide (a ∈ items)) c.pending
    simp only [decide_eq_true_iff] at hrun
    refine ⟨_, hrun, moved_skipOver hc items, ?_⟩
    rw [skipOver_fst, length_takeWhile_pos_iff]
  · have hrun := longestRun_takeWhile (fun a => decide (a ∉ items)) c.pending
    simp only [decide_eq_true_iff] at hrun
    refine ⟨_, hrun, c.moved_skipUntil items, ?_⟩
    rw [skipUntil_fst, length_takeWhile_pos_iff]

/-- Reading digits takes the longest run of them, or nothing.  Here `text` is what the cursor was
made from and `dropped` what has been forgotten of it. -/
structure ScansDigits (text dropped : List Char) (c : Cursor Char) : Prop where
  /-- If no digit comes next, there is no answer and the cursor stays. -/
  stays : (∀ d ∈ c.pending.head?, d.isDigit = false) →
    c.scanDigits.1 = none ∧ c.Moved 0 c.scanDigits.2
  /-- If a digit comes next, the answer goes from what was forgotten last to the end of the digits.
  Then a new view starts, and the next item is the one behind the digits. -/
  reads : ∀ d ∈ c.pending.head?, d.isDigit = true →
    ∃ n found, LongestRun (·.isDigit = true) c.pending n ∧ c.scanDigits.1 = some found ∧
      dropped ++ found.toList ++ c.pending.drop n = text ∧
      c.scanDigits.2.position = -1 ∧ c.scanDigits.2.next.1 = c.pending[n]?

theorem scanDigits_of_none {c : Cursor Char} (h : (c.skipOver Text.digits).1 = false) :
    c.scanDigits = (none, (c.skipOver Text.digits).2) := by
  simp [scanDigits, h]

theorem scanDigits_of_some {c : Cursor Char} (h : (c.skipOver Text.digits).1 = true) :
    c.scanDigits =
      (some (String.ofList (c.skipOver Text.digits).2.view), (c.skipOver Text.digits).2.forget) := by
  simp [scanDigits, takeText, h]

theorem Bounded.scansDigits {text dropped : List Char} {c : Cursor Char} (hc : c.Bounded)
    (hstock : dropped ++ c.stock = text) : c.ScansDigits text dropped := by
  have hfst := c.skipOver_fst Text.digits
  obtain ⟨n, hrun, hmoved, hpos⟩ := hc.takesLongest.skipOver Text.digits
  simp only [Text.mem_digits_iff] at hrun
  refine ⟨fun hhead => ?_, fun d hd hdigit => ?_⟩
  · have hfalse : (c.skipOver Text.digits).1 = false := by
      rw [hfst, Option.any_eq_false]
      intro d hd
      simp [Text.mem_digits_iff, hhead d hd]
    have hzero : n = 0 := by
      rw [hfalse] at hpos
      simpa using hpos
    rw [scanDigits_of_none hfalse]
    exact ⟨rfl, hzero ▸ hmoved⟩
  · have htrue : (c.skipOver Text.digits).1 = true := by
      rw [hfst, Option.any_eq_true]
      exact ⟨d, hd, decide_eq_true (Text.mem_digits_iff.2 hdigit)⟩
    have hsettled := settled_of_skipOver htrue
    have hview := view_append_pending hsettled
    rw [hmoved.stock_eq, hmoved.pending_eq] at hview
    rw [scanDigits_of_some htrue]
    refine ⟨n, _, hrun, rfl, ?_, rfl, ?_⟩
    · rw [String.toList_ofList, List.append_assoc, hview, hstock]
    · rw [next_fst, pending_forget hsettled, hmoved.pending_eq, List.head?_drop]

/-- Wherever operations have led a cursor, matching takes the longest match or nothing.  After any
operations in any order on a new cursor, seeks to any position among them, `skipOver` and
`skipUntil` move over the longest run of pending items that fit, and `acceptSeq` moves over its
items if they come next and otherwise stays.  On a cursor over characters `scanDigits` stays where
no digit comes next; where one does, it takes everything up to the end of the longest run of digits,
starts a new view and goes on behind the run. -/
theorem matching_takes_longest_or_nothing :
    (∀ (α : Type) [DecidableEq α] (items : List α) (commands : List (Command α)),
      TakesLongest (after Command.apply commands (ofList items))) ∧
    ∀ (text : String) (commands : List TextCommand),
      TakesLongest (after TextCommand.apply commands (ofString text)) ∧
      ScansDigits text.toList
        (discarded TextCommand.apply TextCommand.discards commands (ofString text))
        (after TextCommand.apply commands (ofString text)) := by
  refine ⟨?_, ?_⟩
  · intro α _ items commands
    exact (Command.bounded_after commands items).takesLongest
  · intro text commands
    have hc := TextCommand.bounded_after commands text
    have hstock :=
      discarded_append_stock TextCommand.discards_append_stock commands (ofString text)
    exact ⟨hc.takesLongest, hc.scansDigits hstock⟩

/-- A new cursor over `a12b` is put at its first item before that has been taken, so that a digit
comes next.  What is read up to the end of the digits starts with `a` all the same. -/
theorem digits_read_behind_untaken_item :
    let c := after TextCommand.apply [.basic (.seek 0)] (ofString "a12b")
    c.pending.head? = some '1' ∧
    ∃ n found, LongestRun (·.isDigit = true) c.pending n ∧ c.scanDigits.1 = some found ∧
      found.toList ++ c.pending.drop n = "a12b".toList ∧
      c.scanDigits.2.position = -1 ∧ c.scanDigits.2.next.1 = c.pending[n]? := by
  intro c
  have hhead : c.pending.head? = some '1' := by decide +kernel
  obtain ⟨-, hdigits⟩ := matching_takes_longest_or_nothing.2 "a12b" [.basic (.seek 0)]
  exact ⟨hhead, hdigits.reads '1' hhead (by decide)⟩

end Cursor

end LetterCalc
