import LetterCalc.Proofs.Conservation
import LetterCalc.Proofs.Lookahead

/-!
# Forgetting and the next item

Forgetting drops what has been read, and one expects the next item to be the same before and after
it.  There is one place where it is not.  A seek is granted up to the place past the last buffered
item, whether or not the source has an item for that place.  If it has, then the cursor is `Ahead`
of what it has taken: `next` counts from the place and passes over the item, while `forget` has only
the buffer to drop and comes back to it.

At any other place that a cursor can be in forgetting is not seen, since there the cursor is
`Steady` (`steady_iff_not_ahead`).  Nothing but a seek to the length of the buffer leads ahead
(`target?_of_ahead`): on a steady cursor all other operations leave a steady one.
-/

namespace LetterCalc

namespace Cursor

variable {α : Type} {c : Cursor α}

/-- The cursor stands past the last buffered item while there are items left in the source. -/
def Ahead (c : Cursor α) : Prop := c.position = c.buffer.length ∧ c.source ≠ []

theorem steady_iff_not_ahead (hc : c.Bounded) : c.Steady ↔ ¬ c.Ahead := by
  have ho : c.offset ≤ c.buffer.length + 1 := hc
  have hs := c.length_stock
  have hp : c.position = c.offset - 1 := rfl
  constructor
  · rintro hsteady ⟨hplace, hsource⟩
    exact hsource (hsteady.source_eq_nil (by omega))
  · intro hnot
    by_cases hsource : c.source = []
    · rw [hsource, List.length_nil] at hs
      exact ⟨by omega, by omega⟩
    · have hplace : c.position ≠ c.buffer.length := fun h => hnot ⟨h, hsource⟩
      exact ⟨by omega, by omega⟩

/-! ## The next item -/

/-- Forgetting leaves the pending items of a steady cursor as they are. -/
theorem Steady.pending_forget (hc : c.Steady) : c.forget.pending = c.pending :=
  hc.stock_forget

/-- A cursor that is ahead passes over the first item of its source. -/
theorem Ahead.pending_eq (h : c.Ahead) : c.pending = c.source.drop 1 := by
  have ho : c.offset = c.buffer.length + 1 := by
    have hp : (c.offset : Int) - 1 = c.buffer.length := h.1
    omega
  rw [pending, stock, ho, List.drop_append]
  simp

/-- Forgetting brings a cursor that is ahead back to the first item of its source. -/
theorem Ahead.pending_forget (h : c.Ahead) : c.forget.pending = c.source := by
  have ho : c.buffer.length ≤ c.offset := by
    have hp : (c.offset : Int) - 1 = c.buffer.length := h.1
    omega
  show c.buffer.drop c.offset ++ c.source = c.source
  rw [List.drop_eq_nil_of_le ho, List.nil_append]

/-! ## What leads ahead -/

/-- A seek is refused and changes nothing, or it leads where it should. -/
theorem seek_cases (c : Cursor α) (n : Int) :
    (c.seek n).2 = c ∨ (c.seek n).2.position = n := by
  unfold seek
  split
  · exact Or.inl rfl
  · refine Or.inr ?_
    show ((n + 1).toNat : Int) - 1 = n
    omega

theorem Command.apply_of_target? [DecidableEq α] {command : Command α} {n : Int}
    (h : command.target? = some n) (c : Cursor α) : (command.apply c).2 = (c.seek n).2 := by
  cases command with
  | seek m =>
    cases h
    rfl
  | _ => cases h

theorem TextCommand.apply_of_target? {command : TextCommand} {n : Int}
    (h : command.target? = some n) (c : Cursor Char) : (command.apply c).2 = (c.seek n).2 := by
  cases command with
  | basic command => exact Command.apply_of_target? h c
  | _ => cases h

section Runs

variable {κ ρ : Type} {apply : κ → Cursor α → ρ × Cursor α} {target? : κ → Option Int}

/-- Only a seek to the length of the buffer leads a steady cursor ahead. -/
theorem target?_of_ahead
    (hstep : ∀ (command : κ) (c d : Cursor α), Alike c d →
      (∀ n ∈ target? command, n ≤ c.position) → Agree (apply command c) (apply command d))
    (hseek : ∀ {command : κ} {n : Int}, target? command = some n →
      ∀ c, (apply command c).2 = (c.seek n).2)
    (hc : c.Steady) {command : κ} (h : (apply command c).2.Ahead) :
    target? command = some (c.buffer.length : Int) := by
  cases htarget : target? command with
  | none =>
    -- An operation that seeks nothing leaves a steady cursor.
    have hback : ∀ n ∈ target? command, n ≤ c.position := by
      rw [htarget]
      intro n hn
      cases hn
    have halike := (hstep command c c ⟨rfl, rfl, hc, hc⟩ hback).2
    exact absurd h ((steady_iff_not_ahead halike.left.bounded).1 halike.left)
  | some n =>
    rw [hseek htarget] at h
    obtain hrefused | hplace := c.seek_cases n
    · rw [hrefused] at h
      exact absurd h ((steady_iff_not_ahead hc.bounded).1 hc)
    · have hlength := h.1
      rw [hplace, buffer_seek] at hlength
      rw [hlength]

variable (apply target?)

/-- Forgetting keeps the next item, except ahead. -/
structure ForgetsInPlace (c : Cursor α) : Prop where
  /-- Forgetting does not change what comes next. -/
  forget : ¬ c.Ahead → c.forget.next.1 = c.next.1
  /-- Neither does taking the view. -/
  takeView : ¬ c.Ahead → c.takeView.2.next.1 = c.next.1
  /-- Ahead, the next item is the second of the source, and after forgetting it is the first. -/
  ahead : c.Ahead → c.next.1 = c.source[1]? ∧ c.forget.next.1 = c.source[0]? ∧
    c.takeView.2.next.1 = c.source[0]?
  /-- Only a seek to the length of the buffer leads ahead. -/
  sought : ¬ c.Ahead → ∀ command, (apply command c).2.Ahead →
    target? command = some (c.buffer.length : Int)

variable {apply target?}

theorem Bounded.forgetsInPlace
    (hstep : ∀ (command : κ) (c d : Cursor α), Alike c d →
      (∀ n ∈ target? command, n ≤ c.position) → Agree (apply command c) (apply command d))
    (hseek : ∀ {command : κ} {n : Int}, target? command = some n →
      ∀ c, (apply command c).2 = (c.seek n).2)
    (hc : c.Bounded) : ForgetsInPlace apply target? c := by
  have hkeeps : ¬ c.Ahead → c.forget.next.1 = c.next.1 := by
    intro hnot
    rw [next_fst, next_fst, ((steady_iff_not_ahead hc).2 hnot).pending_forget]
  have hback : c.Ahead → c.forget.next.1 = c.source[0]? := by
    intro hahead
    rw [next_fst, hahead.pending_forget, List.head?_eq_getElem?]
  refine ⟨hkeeps, hkeeps, ?_, ?_⟩
  · intro hahead
    refine ⟨?_, hback hahead, hback hahead⟩
    rw [next_fst, hahead.pending_eq, List.head?_drop]
  · intro hnot command hcommand
    exact target?_of_ahead hstep hseek ((steady_iff_not_ahead hc).2 hnot) hcommand

end Runs

/-- Forgetting does not move the cursor, except ahead.  After any operations in any order on a new
cursor, `next` answers the same item whether or not `forget` or `takeView` comes before it, unless
the cursor stands past the last buffered item while there are items left in the source.  There
`next` passes over the first of these, and forgetting brings it back.  No operation leads there but a
seek to the length of the buffer. -/
theorem forget_keeps_next_item :
    (∀ (α : Type) [DecidableEq α] (items : List α) (commands : List (Command α)),
      ForgetsInPlace Command.apply Command.target? (after Command.apply commands (ofList items))) ∧
    ∀ (text : String) (commands : List TextCommand),
      ForgetsInPlace TextCommand.apply TextCommand.target?
        (after TextCommand.apply commands (ofString text)) := by
  refine ⟨?_, ?_⟩
  · intro α _ items commands
    exact (Command.bounded_after commands items).forgetsInPlace
      (fun command _ _ => command.agree_apply) Command.apply_of_target?
  · intro text commands
    exact (TextCommand.bounded_after commands text).forgetsInPlace
      (fun command _ _ => command.agree_apply) TextCommand.apply_of_target?

/-- Past the last item of all, where a seek leads as well, forgetting is not seen. -/
theorem forget_keeps_next_item_past_end :
    ¬ (after TextCommand.apply [.basic .next, .basic (.seek 1)] (ofString "a")).Ahead ∧
    (after TextCommand.apply [.basic .next, .basic (.seek 1)] (ofString "a")).forget.next.1 =
      (after TextCommand.apply [.basic .next, .basic (.seek 1)] (ofString "a")).next.1 := by
  have hnot :
      ¬ (after TextCommand.apply [.basic .next, .basic (.seek 1)] (ofString "a")).Ahead :=
    fun hahead => hahead.2 rfl
  exact ⟨hnot, (forget_keeps_next_item.2 "a" _).forget hnot⟩

/-- A new cursor over `ab` can be put at its first item before that has been taken.  Then `b` comes
next, but `a` does once the cursor has been told to forget. -/
theorem forget_moves_cursor_ahead :
    (after TextCommand.apply [.basic (.seek 0)] (ofString "ab")).next.1 = some 'b' ∧
    (after TextCommand.apply [.basic (.seek 0)] (ofString "ab")).forget.next.1 = some 'a' ∧
    (after TextCommand.apply [.basic (.seek 0)] (ofString "ab")).takeView.2.next.1 = some 'a' := by
  decide

end Cursor

end LetterCalc
