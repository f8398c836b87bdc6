/-!
# A cursor that can step back

A cursor reads a finite list of items one at a time.  Items are taken from the source only when
they are asked for, and what has been taken stays in a buffer, so that the position can move
back over it.  Forgetting empties the part of the buffer that has been read and starts a new
view at the next item.

Two views carry the theory.  `stock` is everything the cursor still holds, read or not: every
move keeps it, and `forget` takes exactly the `view` off its front (`view_append_stock_forget`).
`pending` is what the cursor will still deliver: `next` answers its head and leaves its tail
(`next_fst`, `pending_next`).
-/

namespace LetterCalc

/-- A position in a list of items of which only the first part has been taken so far. -/
structure Cursor (α : Type) where
  /-- The items taken from the source and not forgotten. -/
  buffer : List α
  /-- The items not yet taken. -/
  source : List α
  /-- One more than the index of the current item; `0` stands before the first item and
  `buffer.length + 1` past the last one. -/
  offset : Nat
deriving DecidableEq, Repr

namespace Cursor

variable {α : Type}

/-- A cursor before the first of the given items. -/
def ofList (items : List α) : Cursor α := ⟨[], items, 0⟩

/-- The index of the current item in the buffer, `-1` before the first one. -/
def position (c : Cursor α) : Int := c.offset - 1

/-- Everything the cursor holds, read or not. -/
def stock (c : Cursor α) : List α := c.buffer ++ c.source

/-- The items that the cursor has still to deliver. -/
def pending (c : Cursor α) : List α := c.stock.drop c.offset

/-- The item at the current position, if there is one. -/
def current (c : Cursor α) : Option α :=
  match c.offset with
  | 0 => none
  | n + 1 => c.buffer[n]?

/-- The items read since the last `forget`. -/
def view (c : Cursor α) : List α := c.buffer.take c.offset

/-- Takes items from the source until `n` of them are buffered or none is left. -/
def fill (c : Cursor α) (n : Nat) : Cursor α :=
  let missing := n - c.buffer.length
  { c with buffer := c.buffer ++ c.source.take missing, source := c.source.drop missing }

/-- Moves `n` items forward.  Past the last item the position is the buffer's length, however far
the cursor is to move. -/
def advance (c : Cursor α) (n : Nat) : Cursor α :=
  let filled := c.fill (c.offset + n)
  { filled with offset := min (c.offset + n) (filled.buffer.length + 1) }

/-- Moves to the next item and answers it. -/
def next (c : Cursor α) : Option α × Cursor α := ((c.advance 1).current, c.advance 1)

/-- Moves one item back and answers the item there. -/
def prev (c : Cursor α) : Option α × Cursor α :=
  let moved := { c with offset := c.offset - 1 }
  (moved.current, moved)

/-- The item that `next` would answer.  The position stays, but the item is buffered. -/
def peek (c : Cursor α) : Option α × Cursor α :=
  (c.next.1, { c.next.2 with offset := c.offset })

/-- Whether nothing is left after the current position. -/
def atEnd (c : Cursor α) : Bool × Cursor α :=
  (c.peek.1.isNone, c.peek.2)

/-- Moves to position `n` if it lies in the buffer, before its first item or just past its last
one, and says whether it does. -/
def seek (c : Cursor α) (n : Int) : Bool × Cursor α :=
  if n < -1 ∨ (c.buffer.length : Int) < n then (false, c)
  else (true, { c with offset := (n + 1).toNat })

/-- Drops what has been read, so that the next item starts a new view. -/
def forget (c : Cursor α) : Cursor α :=
  { c with buffer := c.buffer.drop c.offset, offset := 0 }

/-- Answers what has been read and forgets it. -/
def takeView (c : Cursor α) : List α × Cursor α := (c.view, c.forget)

/-! ## What the moves do to the two views -/

@[simp] theorem stock_ofList (items : List α) : (ofList items).stock = items := rfl

@[simp] theorem pending_ofList (items : List α) : (ofList items).pending = items := rfl

@[simp] theorem view_ofList (items : List α) : (ofList items).view = [] := rfl

@[simp] theorem stock_fill (c : Cursor α) (n : Nat) : (c.fill n).stock = c.stock := by
  simp [fill, stock]

/-- The buffer after `fill n` is the first part of the stock, as far as it was buffered before
or reaches to `n`. -/
theorem buffer_fill (c : Cursor α) (n : Nat) :
    (c.fill n).buffer = c.stock.take (max n c.buffer.length) := by
  have hm : max n c.buffer.length - c.buffer.length = n - c.buffer.length := by omega
  have hb : c.buffer.take (max n c.buffer.length) = c.buffer :=
    List.take_of_length_le (by omega)
  simp only [fill, stock, List.take_append, hm, hb]

@[simp] theorem stock_advance (c : Cursor α) (n : Nat) : (c.advance n).stock = c.stock :=
  c.stock_fill (c.offset + n)

@[simp] theorem stock_next (c : Cursor α) : c.next.2.stock = c.stock := c.stock_advance 1

@[simp] theorem stock_prev (c : Cursor α) : c.prev.2.stock = c.stock := rfl

@[simp] theorem stock_peek (c : Cursor α) : c.peek.2.stock = c.stock := c.stock_next

@[simp] theorem stock_atEnd (c : Cursor α) : c.atEnd.2.stock = c.stock := c.stock_next

@[simp] theorem stock_seek (c : Cursor α) (n : Int) : (c.seek n).2.stock = c.stock := by
  unfold seek
  split <;> rfl

/-- Forgetting takes exactly the view off the stock. -/
theorem view_append_stock_forget (c : Cursor α) : c.view ++ c.forget.stock = c.stock := by
  simp [view, forget, stock, ← List.append_assoc]

/-- The buffer is filled as far as the cursor is to move, or holds the whole stock. -/
theorem length_buffer_advance (c : Cursor α) (n : Nat) :
    (c.advance n).buffer.length = min (max (c.offset + n) c.buffer.length) c.stock.length := by
  rw [show (c.advance n).buffer = (c.fill (c.offset + n)).buffer from rfl, buffer_fill,
    List.length_take]

/-- Moving forward passes over pending items. -/
@[simp] theorem pending_advance (c : Cursor α) (n : Nat) :
    (c.advance n).pending = c.pending.drop n := by
  have hl := c.length_buffer_advance n
  have ho : (c.advance n).offset = min (c.offset + n) ((c.advance n).buffer.length + 1) := rfl
  rw [pending, stock_advance, pending, List.drop_drop, ho]
  by_cases h : c.offset + n ≤ c.stock.length
  · rw [Nat.min_eq_left (by omega)]
  · rw [List.drop_eq_nil_of_le (by omega), List.drop_eq_nil_of_le (by omega)]

/-- Moving forward adds what is passed over to the view. -/
theorem view_advance (c : Cursor α) (n : Nat) :
    (c.advance n).view = c.stock.take (c.offset + n) := by
  have hl := c.length_buffer_advance n
  have ho : (c.advance n).offset = min (c.offset + n) ((c.advance n).buffer.length + 1) := rfl
  have hb : (c.advance n).buffer = c.stock.take (max (c.offset + n) c.buffer.length) :=
    c.buffer_fill (c.offset + n)
  rw [view, ho]
  by_cases h : c.offset + n ≤ c.stock.length
  · rw [Nat.min_eq_left (by omega), hb, List.take_take, Nat.min_eq_left (by omega)]
  · rw [List.take_of_length_le (by omega), List.take_of_length_le (by omega), hb,
      List.take_of_length_le (by omega)]

/-- `next` leaves the pending items after the first. -/
@[simp] theorem pending_next (c : Cursor α) : c.next.2.pending = c.pending.tail := by
  rw [next, pending_advance, List.drop_one]

/-- `next` answers the first pending item. -/
theorem next_fst (c : Cursor α) : c.next.1 = c.pending.head? := by
  have hl := c.length_buffer_advance 1
  have ho : (c.advance 1).offset = min (c.offset + 1) ((c.advance 1).buffer.length + 1) := rfl
  have hb : (c.advance 1).buffer = c.stock.take (max (c.offset + 1) c.buffer.length) :=
    c.buffer_fill (c.offset + 1)
  rw [next, pending, List.head?_drop]
  by_cases h : c.offset < c.stock.length
  · rw [Nat.min_eq_left (by omega)] at ho
    simp only [current, ho]
    rw [hb, List.getElem?_take_of_lt (by omega)]
  · rw [List.getElem?_eq_none (by omega)]
    unfold current
    split
    · rfl
    · exact List.getElem?_eq_none (by omega)

/-- A `next` that answers an item leaves fewer pending items. -/
theorem length_pending_next_lt {c : Cursor α} {a : α} (h : c.next.1 = some a) :
    c.next.2.pending.length < c.pending.length := by
  rw [next_fst] at h
  rw [pending_next]
  cases hp : c.pending with
  | nil => simp [hp] at h
  | cons b bs => simp

/-- A `next` that answers an item has that item in its view. -/
theorem view_next_ne_nil {c : Cursor α} {a : α} (h : c.next.1 = some a) :
    c.next.2.view ≠ [] := by
  intro hv
  have hc : c.next.2.current = some a := h
  unfold current at hc
  unfold view at hv
  split at hc
  · cases hc
  · next n hn =>
    rw [hn, List.take_eq_nil_iff] at hv
    rcases hv with hv | hv
    · cases hv
    · simp [hv] at hc

theorem peek_fst (c : Cursor α) : c.peek.1 = c.pending.head? := c.next_fst

@[simp] theorem pending_peek (c : Cursor α) : c.peek.2.pending = c.pending := by
  rw [pending, stock_peek]
  rfl

/-- All pending items, taken one by one until none is left. -/
def rest (c : Cursor α) : List α × Cursor α :=
  match _h : c.next.1 with
  | none => ([], c.next.2)
  | some a => (a :: c.next.2.rest.1, c.next.2.rest.2)
termination_by c.pending.length
decreasing_by all_goals exact length_pending_next_lt (by assumption)

end Cursor

end LetterCalc
