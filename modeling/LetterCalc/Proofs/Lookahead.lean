import LetterCalc.Cursor.Command
import LetterCalc.Cursor.Lemmas

/-!
# Looking ahead is not seen

`peek` and `atEnd` change a cursor, since they take items from the source into the buffer.  No later
operation shows it, provided that `seek` is used to go back only.

What such a run can reach is a `Steady` cursor: all items up to its position are buffered, and it
stands at most one place past the last item there is.  Then the buffer can be left out of the
picture: what has been read, the current item and the pending items are parts of the stock that the
offset alone cuts out (`Steady.view_eq`, `Steady.current_eq`).  Two steady cursors with the same
stock and the same offset are `Alike`, however far each has looked ahead.  Every operation gives the
same answer on both and leaves them alike, and so does a run of operations of which one side makes
some looks ahead more.

A seek forward would tell such cursors apart, since it is granted as far as the buffer reaches.
-/

namespace LetterCalc

namespace Cursor

variable {α : Type}

/-! ## Steady cursors -/

/-- All items up to the position are buffered, and the position is at most one past the last. -/
structure Steady (c : Cursor α) : Prop where
  buffered : min c.offset c.stock.length ≤ c.buffer.length
  offset_le : c.offset ≤ c.stock.length + 1

section Steady

variable {c d : Cursor α}

theorem steady_ofList (items : List α) : (ofList items).Steady :=
  ⟨Nat.min_le_left _ _, Nat.zero_le _⟩

theorem steady_forget (c : Cursor α) : c.forget.Steady :=
  ⟨Nat.le_trans (Nat.min_le_left _ _) (Nat.zero_le _), Nat.zero_le _⟩

/-- One step forward goes one place past the last item at most. -/
theorem offset_next (c : Cursor α) :
    c.next.2.offset = min (c.offset + 1) (c.stock.length + 1) := by
  have hb := c.length_buffer_advance 1
  have ho : c.next.2.offset = min (c.offset + 1) ((c.advance 1).buffer.length + 1) := rfl
  have hs := c.length_stock
  omega

theorem steady_next (c : Cursor α) : c.next.2.Steady := by
  have hb : c.next.2.buffer.length = _ := c.length_buffer_advance 1
  have ho := c.offset_next
  refine ⟨?_, ?_⟩ <;> rw [stock_next] <;> omega

namespace Steady

theorem bounded (hc : c.Steady) : c.Bounded := by
  have hb := hc.buffered
  have ho := hc.offset_le
  show c.offset ≤ c.buffer.length + 1
  omega

/-- A cursor that has moved on and is put back where it was is steady as before. -/
theorem putBack (hc : c.Steady) (hs : d.stock = c.stock)
    (hb : c.buffer.length ≤ d.buffer.length) : Steady { d with offset := c.offset } := by
  refine ⟨?_, ?_⟩
  · show min c.offset d.stock.length ≤ d.buffer.length
    rw [hs]
    exact Nat.le_trans hc.buffered hb
  · show c.offset ≤ d.stock.length + 1
    rw [hs]
    exact hc.offset_le

/-- A steady cursor can go back to any place. -/
theorem putBefore (hc : c.Steady) {n : Nat} (hn : n ≤ c.offset) :
    Steady { c with offset := n } := by
  have hb := hc.buffered
  have ho := hc.offset_le
  refine ⟨?_, Nat.le_trans hn ho⟩
  show min n c.stock.length ≤ c.buffer.length
  omega

/-- Past the buffer there is nothing for a steady cursor to have read. -/
theorem source_eq_nil (hc : c.Steady) (ho : c.buffer.length < c.offset) : c.source = [] := by
  have hb := hc.buffered
  have hs := c.length_stock
  exact List.eq_nil_of_length_eq_zero (by omega)

/-- What a steady cursor has read is the stock up to its position. -/
theorem view_eq (hc : c.Steady) : c.view = c.stock.take c.offset := by
  rw [view, stock]
  by_cases ho : c.offset ≤ c.buffer.length
  · rw [List.take_append_of_le_length ho]
  · rw [hc.source_eq_nil (by omega), List.append_nil]

/-- The current item of a steady cursor is the item of the stock at its position. -/
theorem current_eq (hc : c.Steady) :
    c.current =
      match c.offset with
      | 0 => none
      | n + 1 => c.stock[n]? := by
  unfold current
  cases hn : c.offset with
  | zero => rfl
  | succ n =>
    show c.buffer[n]? = (c.buffer ++ c.source)[n]?
    by_cases ho : n < c.buffer.length
    · rw [List.getElem?_append_left ho]
    · rw [hc.source_eq_nil (by omega), List.append_nil]

/-- Forgetting takes all that a steady cursor has read off the stock. -/
theorem stock_forget (hc : c.Steady) : c.forget.stock = c.stock.drop c.offset := by
  have h := c.view_append_stock_forget
  rw [hc.view_eq] at h
  exact List.append_cancel_left (h.trans (List.take_append_drop c.offset c.stock).symm)

end Steady

end Steady

/-! ## Cursors that differ in how far they have looked -/

/-- Two steady cursors hold the same items and stand at the same place. -/
structure Alike (c d : Cursor α) : Prop where
  stock_eq : c.stock = d.stock
  offset_eq : c.offset = d.offset
  left : c.Steady
  right : d.Steady

/-- Two answers are the same, and they leave cursors that are alike. -/
def Agree {ρ : Type} (x y : ρ × Cursor α) : Prop := x.1 = y.1 ∧ Alike x.2 y.2

theorem Agree.map {ρ σ : Type} {x y : ρ × Cursor α} (h : Agree x y) (f : ρ → σ) :
    Agree (f x.1, x.2) (f y.1, y.2) :=
  ⟨congrArg f h.1, h.2⟩

namespace Alike

variable {c d : Cursor α}

theorem position_eq (h : Alike c d) : c.position = d.position := by
  rw [position, position, h.offset_eq]

theorem pending_eq (h : Alike c d) : c.pending = d.pending := by
  rw [pending, pending, h.stock_eq, h.offset_eq]

theorem view_eq (h : Alike c d) : c.view = d.view := by
  rw [h.left.view_eq, h.right.view_eq, h.stock_eq, h.offset_eq]

theorem current_eq (h : Alike c d) : c.current = d.current := by
  rw [h.left.current_eq, h.right.current_eq, h.stock_eq, h.offset_eq]

theorem next (h : Alike c d) : Agree c.next d.next := by
  refine ⟨?_, ?_, ?_, c.steady_next, d.steady_next⟩
  · rw [next_fst, next_fst, h.pending_eq]
  · rw [stock_next, stock_next, h.stock_eq]
  · rw [offset_next, offset_next, h.stock_eq, h.offset_eq]

theorem prev (h : Alike c d) : Agree c.prev d.prev := by
  have hback : Alike c.prev.2 d.prev.2 := by
    refine ⟨h.stock_eq, ?_, h.left.putBefore (Nat.sub_le _ 1), h.right.putBefore (Nat.sub_le _ 1)⟩
    show c.offset - 1 = d.offset - 1
    rw [h.offset_eq]
  exact ⟨hback.current_eq, hback⟩

/-- Cursors that were alike and have moved on are alike again when they are put back. -/
theorem putBack (h : Alike c d) {c' d' : Cursor α} (hc : c'.stock = c.stock)
    (hd : d'.stock = d.stock) (hcb : c.buffer.length ≤ c'.buffer.length)
    (hdb : d.buffer.length ≤ d'.buffer.length) :
    Alike { c' with offset := c.offset } { d' with offset := d.offset } := by
  refine ⟨?_, h.offset_eq, h.left.putBack hc hcb, h.right.putBack hd hdb⟩
  show c'.stock = d'.stock
  rw [hc, hd, h.stock_eq]

theorem peek (h : Alike c d) : Agree c.peek d.peek :=
  ⟨h.next.1, h.putBack c.stock_next d.stock_next c.length_buffer_le_next d.length_buffer_le_next⟩

theorem atEnd (h : Alike c d) : Agree c.atEnd d.atEnd := h.peek.map Option.isNone

/-- A seek back is granted or refused whatever has been buffered. -/
theorem seek (h : Alike c d) {n : Int} (hn : n ≤ c.position) : Agree (c.seek n) (d.seek n) := by
  have hc : c.offset ≤ c.buffer.length + 1 := h.left.bounded
  have hd : d.offset ≤ d.buffer.length + 1 := h.right.bounded
  have ho := h.offset_eq
  have hp : c.position = c.offset - 1 := rfl
  unfold Cursor.seek
  by_cases hlow : n < -1
  · rw [if_pos (Or.inl hlow), if_pos (Or.inl hlow)]
    exact ⟨rfl, h⟩
  · rw [if_neg (by omega), if_neg (by omega)]
    exact ⟨rfl, h.stock_eq, rfl, h.left.putBefore (by omega), h.right.putBefore (by omega)⟩

theorem forget (h : Alike c d) : Alike c.forget d.forget := by
  refine ⟨?_, rfl, c.steady_forget, d.steady_forget⟩
  rw [h.left.stock_forget, h.right.stock_forget, h.stock_eq, h.offset_eq]

theorem takeView (h : Alike c d) : Agree c.takeView d.takeView := ⟨h.view_eq, h.forget⟩

theorem acceptIf (h : Alike c d) (p : α → Bool) : Agree (c.acceptIf p) (d.acceptIf p) := by
  have hfst : (c.acceptIf p).1 = (d.acceptIf p).1 := by
    rw [acceptIf_fst, acceptIf_fst, h.pending_eq]
  refine ⟨hfst, ?_⟩
  cases hc : (c.acceptIf p).1 with
  | none =>
    rw [acceptIf_of_none h.left.bounded hc, acceptIf_of_none h.right.bounded (hfst ▸ hc)]
    exact h.peek.2
  | some a =>
    rw [(next_of_acceptIf hc).2.2, (next_of_acceptIf (hfst ▸ hc)).2.2]
    exact h.next.2

theorem rest (h : Alike c d) : Agree c.rest d.rest := by
  fun_induction Cursor.rest c generalizing d with
  | case1 c hc =>
    rw [rest_eq d, ← h.next.1, hc]
    exact ⟨rfl, h.next.2⟩
  | case2 c a hc ih =>
    have hrest := ih h.next.2
    rw [rest_eq d, ← h.next.1, hc]
    exact ⟨congrArg (List.cons a) hrest.1, hrest.2⟩

variable [DecidableEq α]

theorem acceptEach (h : Alike c d) (items : List α) :
    Agree (c.acceptEach items) (d.acceptEach items) := by
  induction items generalizing c d with
  | nil => exact ⟨rfl, h⟩
  | cons item items ih =>
    have ha : Agree (c.accept item) (d.accept item) := h.acceptIf _
    rw [Cursor.acceptEach, Cursor.acceptEach, ← ha.1]
    cases (c.accept item).1 with
    | none => exact ⟨rfl, ha.2⟩
    | some a => exact ih ha.2

theorem acceptSeq (h : Alike c d) (items : List α) :
    Agree (c.acceptSeq items) (d.acceptSeq items) := by
  have he := h.acceptEach items
  have hc := c.length_buffer_le_acceptEach items
  have hd := d.length_buffer_le_acceptEach items
  rw [Cursor.acceptSeq, Cursor.acceptSeq, ← he.1]
  cases (c.acceptEach items).1 with
  | true => exact ⟨rfl, he.2⟩
  | false =>
    -- Both go back to where they were, which may be past the last item.
    rw [seek_position h.left.bounded hc, seek_position h.right.bounded hd]
    exact ⟨rfl, h.putBack (c.stock_acceptEach items) (d.stock_acceptEach items) hc hd⟩

theorem skipOver (h : Alike c d) (items : List α) :
    Agree (c.skipOver items) (d.skipOver items) := by
  fun_induction Cursor.skipOver c items generalizing d with
  | case1 c a hc ih =>
    have ha : Agree (c.acceptAny items) (d.acceptAny items) := h.acceptIf _
    rw [skipOver_eq d, ← ha.1, hc]
    exact ⟨rfl, (ih ha.2).2⟩
  | case2 c hc =>
    have ha : Agree (c.acceptAny items) (d.acceptAny items) := h.acceptIf _
    rw [skipOver_eq d, ← ha.1, hc]
    exact ⟨rfl, ha.2⟩

theorem skipUntil (h : Alike c d) (items : List α) :
    Agree (c.skipUntil items) (d.skipUntil items) := by
  fun_induction Cursor.skipUntil c items generalizing d with
  | case1 c hc =>
    rw [skipUntil_eq d, ← h.peek.1, hc]
    exact ⟨rfl, h.peek.2⟩
  | case2 c a hc hm =>
    rw [skipUntil_eq d, ← h.peek.1, hc]
    simp only [hm, if_true]
    exact ⟨rfl, h.peek.2⟩
  | case3 c a hc hm ih =>
    rw [skipUntil_eq d, ← h.peek.1, hc]
    simp only [hm, if_false]
    exact ⟨rfl, (ih h.peek.2.next.2).2⟩

end Alike

namespace Alike

variable {c d : Cursor Char}

theorem takeText (h : Alike c d) : Agree c.takeText d.takeText := h.takeView.map String.ofList

theorem scanDigits (h : Alike c d) : Agree c.scanDigits d.scanDigits := by
  have hs := h.skipOver Text.digits
  simp only [Cursor.scanDigits, ← hs.1]
  split
  · exact hs.2.takeText.map some
  · exact ⟨rfl, hs.2⟩

theorem scanLetter (h : Alike c d) : Agree c.scanLetter d.scanLetter := by
  have ha : Agree (c.acceptAny Text.letters) (d.acceptAny Text.letters) := h.acceptIf _
  simp only [Cursor.scanLetter, ← ha.1]
  cases (c.acceptAny Text.letters).1 with
  | none => exact ⟨rfl, ha.2⟩
  | some letter => exact ⟨rfl, ha.2.forget⟩

end Alike

/-! ## Operations -/

/-- The position that an operation seeks, if it is a seek. -/
def Command.target? : Command α → Option Int
  | seek n => some n
  | _ => none

/-- The position that an operation on characters seeks, if it is a seek. -/
def TextCommand.target? : TextCommand → Option Int
  | basic command => command.target?
  | _ => none

/-- Operations other than a seek forward agree on cursors that are alike. -/
theorem Command.agree_apply [DecidableEq α] (command : Command α) {c d : Cursor α}
    (h : Alike c d) (hback : ∀ n ∈ command.target?, n ≤ c.position) :
    Agree (command.apply c) (command.apply d) := by
  cases command with
  | next => exact h.next.map Reply.item
  | prev => exact h.prev.map Reply.item
  | peek => exact h.peek.map Reply.item
  | current => exact ⟨congrArg Reply.item h.current_eq, h⟩
  | atEnd => exact h.atEnd.map Reply.flag
  | position => exact ⟨congrArg Reply.position h.position_eq, h⟩
  | seek n => exact (h.seek (hback n rfl)).map Reply.flag
  | view => exact ⟨congrArg Reply.items h.view_eq, h⟩
  | forget => exact ⟨rfl, h.forget⟩
  | takeView => exact h.takeView.map Reply.items
  | accept item => exact (h.acceptIf _).map Reply.item
  | acceptAny items => exact (h.acceptIf _).map Reply.item
  | acceptSeq items => exact (h.acceptSeq items).map Reply.flag
  | skipOver items => exact (h.skipOver items).map Reply.flag
  | skipUntil items => exact (h.skipUntil items).map Reply.flag
  | rest => exact h.rest.map Reply.items

theorem TextCommand.agree_apply (command : TextCommand) {c d : Cursor Char}
    (h : Alike c d) (hback : ∀ n ∈ command.target?, n ≤ c.position) :
    Agree (command.apply c) (command.apply d) := by
  cases command with
  | basic command => exact (command.agree_apply h hback).map TextReply.basic
  | takeText => exact h.takeText.map fun text => TextReply.text (some text)
  | acceptText text => exact (h.acceptSeq text.toList).map fun all => TextReply.basic (.flag all)
  | skipSeparators =>
    exact (h.skipOver Text.separators).map fun moved => TextReply.basic (.flag moved)
  | forgetSeparators => exact ⟨rfl, (h.skipOver Text.separators).2.forget⟩
  | scanDigits => exact h.scanDigits.map TextReply.text
  | scanLetter => exact h.scanLetter.map fun letter => TextReply.basic (.item letter)

/-! ## Runs -/

/-- A look ahead. -/
inductive Lookahead where
  | peek
  | atEnd
deriving DecidableEq, Repr

/-- The cursor after a look ahead. -/
def Lookahead.apply : Lookahead → Cursor α → Cursor α
  | peek, c => c.peek.2
  | atEnd, c => c.atEnd.2

section Runs

variable {κ ρ : Type} (apply : κ → Cursor α → ρ × Cursor α) (target? : κ → Option Int)

/-- Carries out an operation or a look ahead, whose answer nobody hears. -/
def applyOrLook : Lookahead ⊕ κ → Cursor α → Option ρ × Cursor α
  | .inl look, c => (none, look.apply c)
  | .inr command, c => (some (apply command c).1, (apply command c).2)

/-- The operations of a script, which has looks ahead put in between them. -/
def withoutLooks (script : List (Lookahead ⊕ κ)) : List κ := script.filterMap Sum.getRight?

/-- Every seek of a run goes to a position that is not after the current one. -/
def SeeksBack : List κ → Cursor α → Prop
  | [], _ => True
  | command :: commands, c =>
    (∀ n ∈ target? command, n ≤ c.position) ∧ SeeksBack commands (apply command c).2

instance decidableSeeksBack :
    (commands : List κ) → (c : Cursor α) → Decidable (SeeksBack apply target? commands c)
  | [], _ => inferInstanceAs (Decidable True)
  | command :: commands, c =>
    have := decidableSeeksBack commands (apply command c).2
    inferInstanceAs (Decidable ((∀ n ∈ target? command, n ≤ c.position) ∧ _))

/-- The looks ahead that are put into a run on the given items change nothing that can be seen. -/
structure LooksUnseen (items : List α) (script : List (Lookahead ⊕ κ)) : Prop where
  /-- All operations answer what they answer without the looks ahead. -/
  answers : (runCommands (applyOrLook apply) script (ofList items)).filterMap Prod.fst =
    (runCommands apply (withoutLooks script) (ofList items)).map Prod.fst
  /-- The position is the same in the end. -/
  position : (after (applyOrLook apply) script (ofList items)).position =
    (after apply (withoutLooks script) (ofList items)).position
  /-- The current item is the same in the end. -/
  current : (after (applyOrLook apply) script (ofList items)).current =
    (after apply (withoutLooks script) (ofList items)).current
  /-- What has been read is the same in the end. -/
  view : (after (applyOrLook apply) script (ofList items)).view =
    (after apply (withoutLooks script) (ofList items)).view
  /-- The items still to come are the same in the end. -/
  rest : (after (applyOrLook apply) script (ofList items)).rest.1 =
    (after apply (withoutLooks script) (ofList items)).rest.1

variable {apply target?}

/-- A look ahead on one side leaves cursors alike. -/
theorem Alike.look {c d : Cursor α} (h : Alike c d) (look : Lookahead) :
    Alike (look.apply c) d := by
  have hpeek : Alike c.peek.2 d :=
    ⟨c.stock_peek.trans h.stock_eq, h.offset_eq,
      h.left.putBack c.stock_next c.length_buffer_le_next, h.right⟩
  cases look with
  | peek => exact hpeek
  | atEnd => exact hpeek

/-- Runs of which one has looks ahead put in agree from cursors that are alike. -/
theorem Alike.run
    (hstep : ∀ (command : κ) (c d : Cursor α), Alike c d →
      (∀ n ∈ target? command, n ≤ c.position) → Agree (apply command c) (apply command d))
    (script : List (Lookahead ⊕ κ)) {c d : Cursor α} (h : Alike c d)
    (hback : SeeksBack apply target? (withoutLooks script) d) :
    (runCommands (applyOrLook apply) script c).filterMap Prod.fst =
        (runCommands apply (withoutLooks script) d).map Prod.fst ∧
      Alike (after (applyOrLook apply) script c) (after apply (withoutLooks script) d) := by
  induction script generalizing c d with
  | nil => exact ⟨rfl, h⟩
  | cons entry script ih =>
    cases entry with
    | inl look => exact ih (h.look look) hback
    | inr command =>
      obtain ⟨hseek, hback⟩ := hback
      rw [← h.position_eq] at hseek
      have ha := hstep command c d h hseek
      obtain ⟨hanswers, halike⟩ := ih ha.2 hback
      refine ⟨?_, halike⟩
      show (apply command c).1 :: _ = (apply command d).1 :: _
      rw [ha.1]
      exact congrArg (List.cons _) hanswers

theorem looksUnseen
    (hstep : ∀ (command : κ) (c d : Cursor α), Alike c d →
      (∀ n ∈ target? command, n ≤ c.position) → Agree (apply command c) (apply command d))
    {items : List α} {script : List (Lookahead ⊕ κ)}
    (hback : SeeksBack apply target? (withoutLooks script) (ofList items)) :
    LooksUnseen apply items script := by
  have hstart : Alike (ofList items) (ofList items) :=
    ⟨rfl, rfl, steady_ofList items, steady_ofList items⟩
  obtain ⟨hanswers, halike⟩ := hstart.run hstep script hback
  exact ⟨hanswers, halike.position_eq, halike.current_eq, halike.view_eq, halike.rest.1⟩

end Runs

/-- Looks ahead are not seen.  Take any run of operations on a new cursor in which no seek goes
forward, and put looks ahead into it wherever you like: the operations answer the same, and in the
end the position, the current item, what has been read and the items still to come are the same. -/
theorem looks_ahead_unseen :
    (∀ (α : Type) [DecidableEq α] (items : List α) (script : List (Lookahead ⊕ Command α)),
      SeeksBack Command.apply Command.target? (withoutLooks script) (ofList items) →
        LooksUnseen Command.apply items script) ∧
    ∀ (text : String) (script : List (Lookahead ⊕ TextCommand)),
      SeeksBack TextCommand.apply TextCommand.target? (withoutLooks script) (ofString text) →
        LooksUnseen TextCommand.apply text.toList script := by
  refine ⟨?_, ?_⟩
  · intro α _ items script hback
    exact looksUnseen (fun command _ _ => command.agree_apply) hback
  · intro text script hback
    exact looksUnseen (fun command _ _ => command.agree_apply) hback

/-- Both runs go past the last item, look ahead there and go back. -/
theorem looks_ahead_unseen_past_end :
    (SeeksBack Command.apply Command.target? [.next, .next, .next, .seek 0, .takeView]
        (ofList ["x", "++"]) ∧
      LooksUnseen Command.apply ["x", "++"]
        [.inl .peek, .inr .next, .inl .atEnd, .inr .next, .inr .next, .inl .peek, .inr (.seek 0),
          .inl .atEnd, .inr .takeView]) ∧
    (SeeksBack TextCommand.apply TextCommand.target?
        [.scanDigits, .basic .next, .basic .next, .basic (.seek (-1)), .acceptText "+"]
        (ofString "7+") ∧
      LooksUnseen TextCommand.apply "7+".toList
        [.inl .atEnd, .inr .scanDigits, .inl .peek, .inr (.basic .next), .inr (.basic .next),
          .inl .peek, .inr (.basic (.seek (-1))), .inr (.acceptText "+"), .inl .atEnd]) := by
  have hitems : SeeksBack Command.apply Command.target?
      [.next, .next, .next, .seek 0, .takeView] (ofList ["x", "++"]) := by decide
  have htext : SeeksBack TextCommand.apply TextCommand.target?
      [.scanDigits, .basic .next, .basic .next, .basic (.seek (-1)), .acceptText "+"]
      (ofString "7+") := by decide +kernel
  exact ⟨⟨hitems, looks_ahead_unseen.1 String _ _ hitems⟩,
    ⟨htext, looks_ahead_unseen.2 _ _ htext⟩⟩

-- A seek forward shows how far the cursor has looked.
example :
    (runCommands Command.apply [.seek 1] (ofList ["x"])).map Prod.fst = [.flag false] ∧
    (runCommands (applyOrLook Command.apply) [.inl .peek, .inr (.seek 1)]
      (ofList ["x"])).filterMap Prod.fst = [.flag true] := by
  decide

end Cursor

end LetterCalc
