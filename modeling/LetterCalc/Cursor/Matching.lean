import LetterCalc.Cursor.Basic

/-!
# Matching against the pending items

The matching operations try to move a cursor forward and put it back where it stood when the
items do not fit.  They are loops over `next`, `peek` and `seek`; each one keeps the `stock`, so
a failed attempt loses nothing.  A loop ends because every round leaves fewer pending items.
-/

namespace LetterCalc

namespace Cursor

variable {α : Type}

/-- Moves over the next item if it satisfies `p`, and answers it. -/
def acceptIf (c : Cursor α) (p : α → Bool) : Option α × Cursor α :=
  match c.next.1.filter p with
  | some a => (some a, c.next.2)
  | none => (none, (c.next.2.seek c.position).2)

section

variable [DecidableEq α]

/-- Moves over the next item if it is the given one. -/
def accept (c : Cursor α) (item : α) : Option α × Cursor α := c.acceptIf (· = item)

/-- Moves over the next item if it is one of those given. -/
def acceptAny (c : Cursor α) (items : List α) : Option α × Cursor α := c.acceptIf (· ∈ items)

/-- Moves over the given items one after the other and stops at the first that does not come
next. -/
def acceptEach (c : Cursor α) : List α → Bool × Cursor α
  | [] => (true, c)
  | item :: items =>
    match (c.accept item).1 with
    | some _ => (c.accept item).2.acceptEach items
    | none => (false, (c.accept item).2)

/-- Moves over the whole sequence of items or not at all, and says which. -/
def acceptSeq (c : Cursor α) (items : List α) : Bool × Cursor α :=
  match (c.acceptEach items).1 with
  | true => (true, (c.acceptEach items).2)
  | false => (false, ((c.acceptEach items).2.seek c.position).2)

end

/-! ## Single items -/

@[simp] theorem stock_acceptIf (c : Cursor α) (p : α → Bool) :
    (c.acceptIf p).2.stock = c.stock := by
  unfold acceptIf
  split <;> simp

/-- An accepted item is the next one and satisfies the test, and the cursor has moved over it. -/
theorem next_of_acceptIf {c : Cursor α} {p : α → Bool} {a : α} (h : (c.acceptIf p).1 = some a) :
    c.next.1 = some a ∧ p a = true ∧ (c.acceptIf p).2 = c.next.2 := by
  unfold acceptIf at h ⊢
  split at h <;> rename_i hf
  · cases h
    obtain ⟨hn, hp⟩ := Option.filter_eq_some_iff.1 hf
    exact ⟨hn, hp, rfl⟩
  · cases h

/-- An accepted item leaves fewer pending items. -/
theorem length_pending_acceptIf_lt {c : Cursor α} {p : α → Bool} {a : α}
    (h : (c.acceptIf p).1 = some a) : (c.acceptIf p).2.pending.length < c.pending.length := by
  obtain ⟨hn, -, hc⟩ := next_of_acceptIf h
  rw [hc]
  exact length_pending_next_lt hn

/-- An accepted item is in the view. -/
theorem view_acceptIf_ne_nil {c : Cursor α} {p : α → Bool} {a : α}
    (h : (c.acceptIf p).1 = some a) : (c.acceptIf p).2.view ≠ [] := by
  obtain ⟨hn, -, hc⟩ := next_of_acceptIf h
  rw [hc]
  exact view_next_ne_nil hn

/-! ## Runs of items -/

section

variable [DecidableEq α]

/-- Moves over every next item that is one of those given, and says whether there was one.
Afterwards the current item is the last of them. -/
def skipOver (c : Cursor α) (items : List α) : Bool × Cursor α :=
  match _h : (c.acceptAny items).1 with
  | some _ => (true, ((c.acceptAny items).2.skipOver items).2)
  | none => (false, (c.acceptAny items).2)
termination_by c.pending.length
decreasing_by exact length_pending_acceptIf_lt (by assumption)

/-- Moves over every next item that is none of those given, and says whether there was one.
Afterwards the current item is the last of them. -/
def skipUntil (c : Cursor α) (items : List α) : Bool × Cursor α :=
  match _h : c.peek.1 with
  | none => (false, c.peek.2)
  | some a =>
    if a ∈ items then (false, c.peek.2)
    else (true, (c.peek.2.next.2.skipUntil items).2)
termination_by c.pending.length
decreasing_by
  rw [← c.pending_peek]
  refine length_pending_next_lt (a := a) ?_
  rw [next_fst, pending_peek, ← peek_fst]
  assumption

@[simp] theorem stock_accept (c : Cursor α) (item : α) : (c.accept item).2.stock = c.stock :=
  c.stock_acceptIf _

@[simp] theorem stock_acceptAny (c : Cursor α) (items : List α) :
    (c.acceptAny items).2.stock = c.stock :=
  c.stock_acceptIf _

@[simp] theorem stock_acceptEach (c : Cursor α) (items : List α) :
    (c.acceptEach items).2.stock = c.stock := by
  induction items generalizing c with
  | nil => rfl
  | cons item items ih =>
    rw [acceptEach]
    split
    · rw [ih, stock_accept]
    · exact c.stock_accept item

@[simp] theorem stock_acceptSeq (c : Cursor α) (items : List α) :
    (c.acceptSeq items).2.stock = c.stock := by
  unfold acceptSeq
  split <;> simp

@[simp] theorem stock_skipOver (c : Cursor α) (items : List α) :
    (c.skipOver items).2.stock = c.stock := by
  fun_induction skipOver c items with
  | case1 c a h ih => exact ih.trans (c.stock_acceptAny items)
  | case2 c h => exact c.stock_acceptAny items

@[simp] theorem stock_skipUntil (c : Cursor α) (items : List α) :
    (c.skipUntil items).2.stock = c.stock := by
  fun_induction skipUntil c items with
  | case1 c h => exact c.stock_peek
  | case2 c a h hm => exact c.stock_peek
  | case3 c a h hm ih => rw [ih, stock_next, stock_peek]

end

/-! ## What lies in the view -/

/-- Looking ahead does not empty a view. -/
theorem view_peek_ne_nil {c : Cursor α} (h : c.view ≠ []) : c.peek.2.view ≠ [] := by
  intro hv
  rw [view, List.take_eq_nil_iff] at hv
  rcases hv with hv | hv
  · exact h (List.take_eq_nil_iff.2 (Or.inl hv))
  · refine h (List.take_eq_nil_iff.2 (Or.inr ?_))
    exact (List.append_eq_nil_iff.1 hv).1

variable [DecidableEq α]

/-- A view that holds an item keeps one while the cursor moves on to one of the given items. -/
theorem view_skipUntil_ne_nil {c : Cursor α} (items : List α) (h : c.view ≠ []) :
    (c.skipUntil items).2.view ≠ [] := by
  fun_induction skipUntil c items with
  | case1 c hp => exact view_peek_ne_nil h
  | case2 c a hp hm => exact view_peek_ne_nil h
  | case3 c a hp hm ih =>
    refine ih (view_next_ne_nil (a := a) ?_)
    rw [next_fst, pending_peek, ← peek_fst, hp]

/-- After `skipUntil` has moved, what it moved over is in the view. -/
theorem view_ne_nil_of_skipUntil {c : Cursor α} {items : List α}
    (h : (c.skipUntil items).1 = true) : (c.skipUntil items).2.view ≠ [] := by
  unfold skipUntil at h ⊢
  split at h
  · cases h
  · next a hp =>
    by_cases hm : a ∈ items
    · simp [hm] at h
    · simp only [hm, ↓reduceIte]
      refine view_skipUntil_ne_nil items (view_next_ne_nil (a := a) ?_)
      rw [next_fst, pending_peek, ← peek_fst, hp]

end Cursor

end LetterCalc
