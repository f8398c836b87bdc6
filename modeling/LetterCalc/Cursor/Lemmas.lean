import LetterCalc.Cursor.Text

/-!
# What the matching operations do

A cursor is `Bounded` when it stands at most one place past the last buffered item.  A bounded
cursor can always be put back where it stood, since its buffer only grows while it moves
(`seek_position`).

It is `Settled` when it does not stand past the last buffered item at all.  It is so at the start,
and every matching operation keeps it.  Each operation on a settled cursor can be described by the
pending items alone: `acceptSeq` moves over its items exactly when they come next, `skipOver` over
the longest run of its items, `skipUntil` over the longest run without one, and `forget` over
nothing.
-/

namespace LetterCalc

namespace Cursor

variable {α : Type}

/-- The cursor stands at most one place past the last buffered item. -/
def Bounded (c : Cursor α) : Prop := c.offset ≤ c.buffer.length + 1

/-- The cursor does not stand past the last buffered item. -/
def Settled (c : Cursor α) : Prop := c.offset ≤ c.buffer.length

theorem Settled.bounded {c : Cursor α} (h : c.Settled) : c.Bounded := Nat.le_succ_of_le h

theorem settled_ofList (items : List α) : (ofList items).Settled := Nat.le_refl 0

theorem settled_forget (c : Cursor α) : c.forget.Settled := Nat.zero_le _

theorem length_stock (c : Cursor α) : c.stock.length = c.buffer.length + c.source.length :=
  List.length_append

/-- The buffer only grows while the cursor moves. -/
theorem length_buffer_le_next (c : Cursor α) : c.buffer.length ≤ c.next.2.buffer.length := by
  have hl := c.length_buffer_advance 1
  have hs := c.length_stock
  show c.buffer.length ≤ (c.advance 1).buffer.length
  omega

theorem settled_peek {c : Cursor α} (h : c.Settled) : c.peek.2.Settled :=
  Nat.le_trans h c.length_buffer_le_next

/-- A cursor that stands on an item is settled. -/
theorem settled_of_current {c : Cursor α} {a : α} (h : c.current = some a) : c.Settled := by
  unfold current at h
  split at h
  · cases h
  · next n hn =>
    have := (List.getElem?_eq_some_iff.1 h).1
    show c.offset ≤ _
    omega

theorem settled_next {c : Cursor α} {a : α} (h : c.next.1 = some a) : c.next.2.Settled :=
  settled_of_current h

/-- Forgetting leaves the pending items of a settled cursor as they are. -/
theorem pending_forget {c : Cursor α} (h : c.Settled) : c.forget.pending = c.pending := by
  simp [pending, forget, stock, List.drop_append_of_le_length h]

/-- A cursor can go to where a bounded cursor stands that has buffered no more than it. -/
theorem seek_position {c d : Cursor α} (hc : c.Bounded)
    (hb : c.buffer.length ≤ d.buffer.length) :
    d.seek c.position = (true, { d with offset := c.offset }) := by
  have ho : c.offset ≤ c.buffer.length + 1 := hc
  unfold seek position
  rw [if_neg (by omega), show (c.offset - 1 + 1 : Int).toNat = c.offset by omega]

/-- After one step forward a bounded cursor can go back to where it was. -/
theorem seek_position_next {c : Cursor α} (h : c.Bounded) :
    c.next.2.seek c.position = (true, c.peek.2) :=
  seek_position h c.length_buffer_le_next

/-- One round of `rest`. -/
theorem rest_eq (c : Cursor α) :
    c.rest =
      match c.next.1 with
      | none => ([], c.next.2)
      | some a => (a :: c.next.2.rest.1, c.next.2.rest.2) := by
  rw [rest]
  split <;> simp only [*]

theorem buffer_seek (c : Cursor α) (n : Int) : (c.seek n).2.buffer = c.buffer := by
  unfold seek
  split <;> rfl

/-! ## Single items -/

/-- `acceptIf` answers the first pending item if it passes the test. -/
theorem acceptIf_fst (c : Cursor α) (p : α → Bool) :
    (c.acceptIf p).1 = c.pending.head?.filter p := by
  unfold acceptIf
  rw [next_fst]
  split
  · next a h => exact h.symm
  · next h => exact h.symm

/-- A bounded cursor that does not accept an item has only looked at it. -/
theorem acceptIf_of_none {c : Cursor α} {p : α → Bool} (hc : c.Bounded)
    (h : (c.acceptIf p).1 = none) : (c.acceptIf p).2 = c.peek.2 := by
  unfold acceptIf at h ⊢
  split at h <;> rename_i hf
  · cases h
  · rw [seek_position_next hc]

theorem settled_acceptIf {c : Cursor α} (p : α → Bool) (hc : c.Settled) :
    (c.acceptIf p).2.Settled := by
  cases h : (c.acceptIf p).1 with
  | none =>
    rw [acceptIf_of_none hc.bounded h]
    exact settled_peek hc
  | some a =>
    obtain ⟨hn, -, he⟩ := next_of_acceptIf h
    rw [he]
    exact settled_next hn

theorem length_buffer_le_acceptIf (c : Cursor α) (p : α → Bool) :
    c.buffer.length ≤ (c.acceptIf p).2.buffer.length := by
  have hb : (c.acceptIf p).2.buffer = c.next.2.buffer := by
    unfold acceptIf
    split
    · rfl
    · exact buffer_seek _ _
  rw [hb]
  exact c.length_buffer_le_next

/-! ## Sequences of items -/

variable [DecidableEq α]

theorem accept_cons_self {c : Cursor α} {a : α} {as : List α} (hq : c.pending = a :: as) :
    (c.accept a).1 = some a ∧ (c.accept a).2 = c.next.2 := by
  have h : (c.accept a).1 = some a := by
    rw [accept, acceptIf_fst, hq]
    simp
  exact ⟨h, (next_of_acceptIf h).2.2⟩

theorem accept_eq_none {c : Cursor α} {item : α} (h : c.pending.head? ≠ some item) :
    (c.accept item).1 = none := by
  rw [accept, acceptIf_fst]
  cases hq : c.pending.head? with
  | none => rfl
  | some a =>
    have ha : a ≠ item := fun e => h (by rw [hq, e])
    simp [ha]

theorem settled_acceptEach {c : Cursor α} (items : List α) (hc : c.Settled) :
    (c.acceptEach items).2.Settled := by
  induction items generalizing c with
  | nil => exact hc
  | cons item items ih =>
    unfold acceptEach
    split
    · exact ih (settled_acceptIf _ hc)
    · exact settled_acceptIf _ hc

theorem length_buffer_le_acceptEach (c : Cursor α) (items : List α) :
    c.buffer.length ≤ (c.acceptEach items).2.buffer.length := by
  induction items generalizing c with
  | nil => exact Nat.le_refl _
  | cons item items ih =>
    have hb : c.buffer.length ≤ (c.accept item).2.buffer.length := c.length_buffer_le_acceptIf _
    unfold acceptEach
    split
    · exact Nat.le_trans hb (ih _)
    · exact hb

/-- The given items are accepted one after the other when they come next, and then the cursor
stands behind them. -/
theorem acceptEach_append {c : Cursor α} {items rest : List α} (hq : c.pending = items ++ rest) :
    (c.acceptEach items).1 = true ∧ (c.acceptEach items).2.pending = rest := by
  induction items generalizing c with
  | nil => exact ⟨rfl, hq⟩
  | cons item items ih =>
    obtain ⟨hf, hs⟩ := accept_cons_self hq
    have hp : (c.accept item).2.pending = items ++ rest := by
      rw [hs, pending_next, hq]
      rfl
    rw [acceptEach, hf]
    exact ih hp

/-- If all given items are accepted one after the other, they came next. -/
theorem pending_of_acceptEach {c : Cursor α} {items : List α}
    (h : (c.acceptEach items).1 = true) :
    c.pending = items ++ (c.acceptEach items).2.pending := by
  induction items generalizing c with
  | nil => rfl
  | cons item items ih =>
    by_cases hq : c.pending.head? = some item
    · obtain ⟨as, has⟩ := List.head?_eq_some_iff.1 hq
      obtain ⟨hf, hs⟩ := accept_cons_self has
      rw [acceptEach, hf] at h ⊢
      have ih := ih h
      rw [hs, pending_next, has, List.tail_cons] at ih
      rw [has, hs, List.cons_append, ← ih]
    · rw [acceptEach, accept_eq_none hq] at h
      cases h

/-- A settled cursor can go back from anywhere that `acceptEach` leads it. -/
theorem seek_position_acceptEach {c : Cursor α} (items : List α) (hc : c.Settled) :
    ((c.acceptEach items).2.seek c.position).2.pending = c.pending ∧
      ((c.acceptEach items).2.seek c.position).2.Settled := by
  have hb := c.length_buffer_le_acceptEach items
  rw [seek_position hc.bounded hb]
  refine ⟨?_, Nat.le_trans hc hb⟩
  show (c.acceptEach items).2.stock.drop c.offset = _
  rw [stock_acceptEach]
  rfl

/-- `acceptSeq` succeeds exactly when the given items come next. -/
theorem acceptSeq_fst_iff {c : Cursor α} {items : List α} :
    (c.acceptSeq items).1 = true ↔ items <+: c.pending := by
  have hall : (c.acceptSeq items).1 = (c.acceptEach items).1 := by
    unfold acceptSeq
    split <;> simp_all
  rw [hall]
  constructor
  · intro h
    exact ⟨_, (pending_of_acceptEach h).symm⟩
  · rintro ⟨rest, h⟩
    exact (acceptEach_append h.symm).1

/-- What `acceptSeq` leaves pending when it succeeds. -/
theorem pending_acceptSeq {c : Cursor α} {items rest : List α}
    (hq : c.pending = items ++ rest) : (c.acceptSeq items).2.pending = rest := by
  obtain ⟨hf, hp⟩ := acceptEach_append hq
  unfold acceptSeq
  rw [hf]
  exact hp

theorem settled_acceptSeq {c : Cursor α} (items : List α) (hc : c.Settled) :
    (c.acceptSeq items).2.Settled := by
  unfold acceptSeq
  split
  · exact settled_acceptEach items hc
  · exact (seek_position_acceptEach items hc).2

/-! ## Runs of items -/

/-- One round of `skipOver`. -/
theorem skipOver_eq (c : Cursor α) (items : List α) :
    c.skipOver items =
      match (c.acceptAny items).1 with
      | some _ => (true, ((c.acceptAny items).2.skipOver items).2)
      | none => (false, (c.acceptAny items).2) := by
  rw [skipOver]
  split <;> simp only [*]

/-- One round of `skipUntil`. -/
theorem skipUntil_eq (c : Cursor α) (items : List α) :
    c.skipUntil items =
      match c.peek.1 with
      | none => (false, c.peek.2)
      | some a =>
        if a ∈ items then (false, c.peek.2) else (true, (c.peek.2.next.2.skipUntil items).2) := by
  rw [skipUntil]
  split <;> simp only [*]

theorem settled_skipOver {c : Cursor α} (items : List α) (hc : c.Settled) :
    (c.skipOver items).2.Settled := by
  fun_induction skipOver c items with
  | case1 c a h ih => exact ih (settled_acceptIf _ hc)
  | case2 c h => exact settled_acceptIf _ hc

/-- `skipOver` leaves the pending items behind the longest run of the given ones. -/
theorem pending_skipOver {c : Cursor α} (items : List α) (hc : c.Settled) :
    (c.skipOver items).2.pending = c.pending.dropWhile (· ∈ items) := by
  fun_induction skipOver c items with
  | case1 c a h ih =>
    obtain ⟨hn, ha, hs⟩ := next_of_acceptIf h
    rw [next_fst] at hn
    obtain ⟨as, has⟩ := List.head?_eq_some_iff.1 hn
    have hp : (c.acceptAny items).2.pending = as := by
      rw [acceptAny, hs, pending_next, has, List.tail_cons]
    rw [ih (settled_acceptIf _ hc), hp, has, List.dropWhile_cons, if_pos ha]
  | case2 c h =>
    have hs : (c.acceptAny items).2 = c.peek.2 := acceptIf_of_none hc.bounded h
    rw [acceptAny, acceptIf_fst] at h
    show (c.acceptAny items).2.pending = _
    rw [hs, pending_peek]
    cases hq : c.pending with
    | nil => rfl
    | cons a as =>
      rw [hq, List.head?_cons] at h
      rw [List.dropWhile_cons_of_neg]
      simpa using h

/-- `skipOver` has moved exactly when the next item is one of those given. -/
theorem skipOver_fst (c : Cursor α) (items : List α) :
    (c.skipOver items).1 = c.pending.head?.any (· ∈ items) := by
  have hf : (c.acceptAny items).1 = c.pending.head?.filter (· ∈ items) := c.acceptIf_fst _
  rw [skipOver]
  split
  · next a h =>
    rw [hf] at h
    obtain ⟨hq, ha⟩ := Option.filter_eq_some_iff.1 h
    rw [hq]
    exact ha.symm
  · next h =>
    rw [hf] at h
    cases hq : c.pending.head? with
    | none => rfl
    | some a =>
      rw [hq] at h
      simpa using h

theorem settled_skipUntil {c : Cursor α} (items : List α) (hc : c.Settled) :
    (c.skipUntil items).2.Settled := by
  fun_induction skipUntil c items with
  | case1 c h => exact settled_peek hc
  | case2 c a h hm => exact settled_peek hc
  | case3 c a h hm ih =>
    refine ih (settled_next (a := a) ?_)
    rw [next_fst, pending_peek, ← peek_fst, h]

/-- `skipUntil` leaves the pending items behind the longest run without one of those given. -/
theorem pending_skipUntil (c : Cursor α) (items : List α) :
    (c.skipUntil items).2.pending = c.pending.dropWhile (· ∉ items) := by
  fun_induction skipUntil c items with
  | case1 c h =>
    rw [peek_fst, List.head?_eq_none_iff] at h
    show c.peek.2.pending = _
    rw [pending_peek, h]
    rfl
  | case2 c a h hm =>
    rw [peek_fst] at h
    obtain ⟨as, has⟩ := List.head?_eq_some_iff.1 h
    show c.peek.2.pending = _
    rw [pending_peek, has, List.dropWhile_cons_of_neg]
    simpa using hm
  | case3 c a h hm ih =>
    rw [peek_fst] at h
    obtain ⟨as, has⟩ := List.head?_eq_some_iff.1 h
    rw [ih, pending_next, pending_peek, has, List.dropWhile_cons_of_pos (by simpa using hm),
      List.tail_cons]

end Cursor

end LetterCalc
