import LetterCalc.Proofs.Descent

/-!
# The shortcut behind a product

Behind a product the reader looks whether any word is left.  If not, it returns the product at once
instead of looking for an operator.  This leaves the cursor one place before where the long way
would leave it, and every call that is still open resumes from there.

None of them can tell.  The two cursors are `Near`: they stand at the same place, or one of them
stands at the last word and the other past it, and then neither has a word to deliver.  On near
cursors, all calls have the same result with the shortcut and without, drop the same tokens and
leave cursors that are near again (`agree_expression`).
-/

namespace LetterCalc

theorem Cursor.offset_advance_ofList {α : Type} {items : List α} {n : Nat}
    (h : n ≤ items.length + 1) : ((ofList items).advance n).offset = n := by
  have hlen : ((ofList items).advance n).buffer.length = min (max (0 + n) 0) items.length :=
    (ofList items).length_buffer_advance n
  show min (0 + n) (((ofList items).advance n).buffer.length + 1) = n
  omega

namespace Descent

/-! ## Near cursors -/

/-- Two cursors over the given items stand at the same place, except that the first may stand at the
last item and the second one past it. -/
structure Near (items : List String) (c d : Cursor String) : Prop where
  left : c.stock = items
  right : d.stock = items
  offset_le : c.offset ≤ items.length + 1
  offset_eq : d.offset = c.offset ∨ c.offset = items.length ∧ d.offset = items.length + 1

section Near

variable {items : List String} {c d : Cursor String}

namespace Near

theorem ofList (items : List String) : Near items (Cursor.ofList items) (Cursor.ofList items) :=
  ⟨rfl, rfl, Nat.zero_le _, Or.inl rfl⟩

theorem pending_eq (h : Near items c d) : c.pending = d.pending := by
  rw [Cursor.pending, Cursor.pending, h.left, h.right]
  obtain ho | ⟨hc, hd⟩ := h.offset_eq
  · rw [ho]
  · rw [List.drop_eq_nil_of_le (by omega), List.drop_eq_nil_of_le (by omega)]

theorem next_fst (h : Near items c d) : c.next.1 = d.next.1 := by
  rw [Cursor.next_fst, Cursor.next_fst, h.pending_eq]

/-- Past the last item both cursors stay where they are, so one step closes the gap. -/
theorem next (h : Near items c d) : Near items c.next.2 d.next.2 := by
  have hc := c.offset_next
  have hd := d.offset_next
  have ho := h.offset_eq
  rw [h.left] at hc
  rw [h.right] at hd
  exact ⟨c.stock_next.trans h.left, d.stock_next.trans h.right, by omega, Or.inl (by omega)⟩

theorem atEnd (h : Near items c d) : Near items c.atEnd.2 d :=
  ⟨c.stock_atEnd.trans h.left, h.right, h.offset_le, h.offset_eq⟩

theorem peek (h : Near items c d) : Near items c.peek.2 d.peek.2 :=
  ⟨c.stock_peek.trans h.left, d.stock_peek.trans h.right, h.offset_le, h.offset_eq⟩

/-- At the end the second cursor may ask for one more item, and the first need not. -/
theorem next_right (h : Near items c d) (hc : c.next.1 = none) : Near items c d.next.2 := by
  have hlen : items.length ≤ c.offset := by
    rw [Cursor.next_fst, List.head?_eq_none_iff, Cursor.pending, h.left] at hc
    exact List.drop_eq_nil_iff.1 hc
  have hle := h.offset_le
  have ho := h.offset_eq
  have hd := d.offset_next
  rw [h.right] at hd
  exact ⟨h.left, d.stock_next.trans h.right, hle, by omega⟩

end Near

/-- Two calls have the same tree or error, have dropped the same tokens and leave cursors that are
near. -/
structure Agree (items : List String) (a b : Outcome) : Prop where
  result_eq : a.result = b.result
  dropped_eq : a.dropped = b.dropped
  near : Near items a.cursor b.cursor

theorem Agree.andThen {a b : Outcome} {f g : Tree → Cursor String → Outcome}
    (h : Agree items a b)
    (hf : ∀ tree, a.result = .ok tree → Agree items (f tree a.cursor) (g tree b.cursor)) :
    Agree items (a.andThen f) (b.andThen g) := by
  unfold Outcome.andThen
  rw [← h.result_eq]
  split
  · next tree htree =>
    obtain ⟨hresult, hdropped, hnear⟩ := hf tree htree
    exact ⟨hresult, by simp only [h.dropped_eq, hdropped], hnear⟩
  · exact h

/-- If nothing is left behind a product, looking for an operator there finds none. -/
theorem Near.afterProduct {product : Tree} (h : Near items c d)
    (hcontinue : Agree items (continuation true product c.atEnd.2) (continuation false product d)) :
    Agree items (afterProduct true product c) (afterProduct false product d) := by
  have hend : c.atEnd.1 = c.next.1.isNone := rfl
  rw [Descent.afterProduct, if_pos rfl, hend, Descent.afterProduct, if_neg Bool.false_ne_true]
  cases hc : c.next.1 with
  | none =>
    rw [continuation_of_none false product (h.next_fst.symm.trans hc)]
    exact ⟨rfl, rfl, (h.next_right hc).atEnd⟩
  | some word => exact hcontinue

end Near

/-! ## The calls agree

The proofs recurse as the functions do: what is left when an atom returns is less than what it was
given, whichever way it has taken. -/

mutual

/-- An expression comes to the same with the shortcut and without. -/
theorem agree_expression {items : List String} {c d : Cursor String} (h : Near items c d) :
    Agree items (expression true c) (expression false d) := by
  rw [expression_eq, expression_eq]
  refine (agree_atom h).andThen fun left hleft => ?_
  have hlt := length_atom_lt true hleft
  exact agree_continuation left (agree_atom h).near
termination_by (c.pending.length, 1)

/-- An atom comes to the same with the shortcut and without. -/
theorem agree_atom {items : List String} {c d : Cursor String} (h : Near items c d) :
    Agree items (atom true c) (atom false d) := by
  cases hc : c.next.1 with
  | none =>
    rw [atom_of_none true hc, atom_of_none false (h.next_fst.symm.trans hc)]
    exact ⟨rfl, rfl, h.next⟩
  | some word =>
    have hlt := Cursor.length_pending_next_lt hc
    rw [atom_of_some true hc, atom_of_some false (h.next_fst.symm.trans hc)]
    rcases operandOf (Token.ofText word) with error | (_ | tree)
    · exact ⟨rfl, rfl, h.next⟩
    · exact agree_expression h.next
    · exact ⟨rfl, rfl, h.next⟩
termination_by (c.pending.length, 0)

/-- What continues a tree comes to the same with the shortcut and without. -/
theorem agree_continuation {items : List String} {c d : Cursor String} (left : Tree)
    (h : Near items c d) :
    Agree items (continuation true left c) (continuation false left d) := by
  cases hc : c.next.1 with
  | none =>
    rw [continuation_of_none true left hc,
      continuation_of_none false left (h.next_fst.symm.trans hc)]
    exact ⟨rfl, rfl, h.next⟩
  | some word =>
    have hlt := Cursor.length_pending_next_lt hc
    rw [continuation_of_some true left hc,
      continuation_of_some false left (h.next_fst.symm.trans hc)]
    cases demand left (Token.ofText word) with
    | factor =>
      have hatom := agree_atom h.next
      refine hatom.andThen fun right hright => hatom.near.afterProduct ?_
      have hfewer := length_atom_lt true hright
      have hend := congrArg List.length (atom true c.next.2).cursor.pending_atEnd
      exact agree_continuation (.binary .mul left right) hatom.near.atEnd
    | expression complete =>
      have hexpression := agree_expression h.next
      exact hexpression.andThen fun right _ => ⟨rfl, rfl, hexpression.near⟩
    | refusal error => exact ⟨rfl, rfl, h.next⟩
    | nothing => exact ⟨rfl, rfl, h.next⟩
termination_by (c.pending.length, 0)

end

/-! ## A whole run -/

theorem agree_build (ws : List String) : Agree ws (build true ws) (build false ws) := by
  have h := agree_expression (Near.ofList ws)
  exact h.andThen fun tree _ => ⟨rfl, rfl, h.near.peek⟩

/-- A cursor stands behind the words it has delivered, and one place further if it is past the
end. -/
theorem offset_eq {c : Cursor String} {items : List String} (hstock : c.stock = items)
    (hle : c.offset ≤ items.length + 1) :
    c.offset = items.length - (tokensOf c).length + (pastEnd c).toNat := by
  have hlen : (tokensOf c).length = items.length - c.offset := by
    rw [tokensOf, List.length_map, Cursor.pending, List.length_drop, hstock]
  rw [hlen, pastEnd, hstock]
  by_cases hlt : items.length < c.offset
  · rw [decide_eq_true hlt, Bool.toNat_true]
    omega
  · rw [decide_eq_false hlt, Bool.toNat_false]
    omega

/-- The calls that take the shortcut leave the cursor where the reader leaves it. -/
theorem offset_build (ws : List String) :
    (Tree.readFrom (Cursor.ofList ws)).2.offset = (build true ws).cursor.offset := by
  obtain ⟨hstock, -, hle, -⟩ := (agree_build ws).near
  have hasked : (build true ws).cursor.offset =
      ws.length - (build true ws).reading.rest.length + (build true ws).reading.overran.toNat :=
    offset_eq hstock hle
  rw [reading_build] at hasked
  have hcursor : (Tree.readFrom (Cursor.ofList ws)).2 =
      (Cursor.ofList ws).advance (build true ws).cursor.offset := by
    rw [hasked, ← List.length_map Token.ofText]
    rfl
  rw [hcursor, Cursor.offset_advance_ofList hle]

/-- A run has the tree or error of the reader, reports what it reports, and leaves the same words
unread. -/
structure Matches (outcome : Outcome) (reading : Reading) (c : Cursor String) : Prop where
  result_eq : outcome.result = reading.result
  events_eq : outcome.events = reading.events
  pending_eq : outcome.cursor.pending = c.pending

/-- The shortcut behind a product is only a shortcut.  From any list of words at all, the calls that
take it do what the reader does and leave the cursor at the same place.  The calls that always look
for an operator behind a product have the same tree or error, report the same and leave the same
words unread.  Their cursor stands at the same place too, unless all words have been consumed: then
it may stand past the last word, while the reader's stands at it. -/
theorem product_shortcut_unseen (ws : List String) :
    let reading := (Tree.readFrom (Cursor.ofList ws)).1
    let c := (Tree.readFrom (Cursor.ofList ws)).2
    (Matches (build true ws) reading c ∧ (build true ws).cursor.position = c.position) ∧
    Matches (build false ws) reading c ∧
      ((build false ws).cursor.position = c.position ∨
        c.pending = [] ∧ c.position = ws.length - 1 ∧
          (build false ws).cursor.position = ws.length) := by
  intro reading c
  obtain ⟨hresult, hdropped, hnear⟩ := agree_build ws
  have hread : (build true ws).reading = reading := reading_build ws
  have hoffset : c.offset = (build true ws).cursor.offset := offset_build ws
  have hpending : (build true ws).cursor.pending = c.pending := by
    rw [Cursor.pending, Cursor.pending, hoffset, hnear.left]
    exact congrArg _ (Cursor.stock_advance (Cursor.ofList ws) _).symm
  have hevents : (build false ws).events = (build true ws).events := by
    rw [Outcome.events, Outcome.events, hresult, hdropped, Cursor.peek_fst, Cursor.peek_fst,
      hnear.pending_eq]
  have hmatches : Matches (build true ws) reading c :=
    ⟨congrArg Reading.result hread, by rw [Outcome.events_eq, hread], hpending⟩
  refine ⟨⟨hmatches, ?_⟩, ⟨?_, ?_, ?_⟩, ?_⟩
  · rw [Cursor.position, Cursor.position, hoffset]
  · exact hresult.symm.trans hmatches.result_eq
  · exact hevents.trans hmatches.events_eq
  · exact hnear.pending_eq.symm.trans hpending
  · obtain ho | ⟨hc, hd⟩ := hnear.offset_eq
    · exact Or.inl (by rw [Cursor.position, Cursor.position, ho, hoffset])
    · refine Or.inr ⟨?_, ?_, ?_⟩
      · rw [← hpending, Cursor.pending, hnear.left, hc, List.drop_length]
      · rw [Cursor.position, hoffset, hc]
      · rw [Cursor.position, hd]
        omega

end Descent

end LetterCalc
