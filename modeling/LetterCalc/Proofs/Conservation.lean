import LetterCalc.Cursor.Command
import LetterCalc.Cursor.Lemmas

/-!
# A cursor loses nothing

Whatever is done with a cursor, and in whatever order, the items that it was made from are all
accounted for: first those that have been dropped, then those in the buffer, then those in the
source.

One operation drops what it says it drops and leaves the rest of the stock as it was
(`Command.discards_append_stock`), and it leaves the cursor `Bounded`.  Both then hold after any run
of operations.  A bounded cursor is granted every seek by which a failed attempt goes back.  To say
so, the operations that make such seeks are given a second time in a strict form, which has no
answer at all when a seek is refused: on a bounded cursor it has an answer, and it is that of the
operation (`Command.applyStrict_eq`).
-/

namespace LetterCalc

namespace Cursor

variable {α : Type}

/-! ## Where a cursor can stand -/

section Bounds

variable {c : Cursor α}

theorem bounded_ofList (items : List α) : (ofList items).Bounded := (settled_ofList items).bounded

theorem bounded_forget (c : Cursor α) : c.forget.Bounded := (settled_forget c).bounded

/-- Moving forward stops one place past the last item, wherever it starts. -/
theorem bounded_next (c : Cursor α) : c.next.2.Bounded := Nat.min_le_right _ _

theorem bounded_prev (hc : c.Bounded) : c.prev.2.Bounded := Nat.le_trans (Nat.sub_le _ 1) hc

theorem bounded_peek (hc : c.Bounded) : c.peek.2.Bounded :=
  Nat.le_trans hc (Nat.succ_le_succ c.length_buffer_le_next)

theorem bounded_seek (hc : c.Bounded) (n : Int) : (c.seek n).2.Bounded := by
  unfold seek
  split
  · exact hc
  · next hn =>
    show (n + 1).toNat ≤ c.buffer.length + 1
    omega

theorem bounded_acceptIf (c : Cursor α) (p : α → Bool) : (c.acceptIf p).2.Bounded := by
  unfold acceptIf
  split
  · exact c.bounded_next
  · exact bounded_seek c.bounded_next _

theorem bounded_rest (c : Cursor α) : c.rest.2.Bounded := by
  fun_induction rest c with
  | case1 c h => exact c.bounded_next
  | case2 c a h ih => exact ih

variable [DecidableEq α]

theorem bounded_acceptEach (hc : c.Bounded) (items : List α) : (c.acceptEach items).2.Bounded := by
  induction items generalizing c with
  | nil => exact hc
  | cons item items ih =>
    unfold acceptEach
    split
    · exact ih (c.bounded_acceptIf _)
    · exact c.bounded_acceptIf _

theorem bounded_acceptSeq (hc : c.Bounded) (items : List α) : (c.acceptSeq items).2.Bounded := by
  unfold acceptSeq
  split
  · exact bounded_acceptEach hc items
  · exact bounded_seek (bounded_acceptEach hc items) _

theorem bounded_skipOver (c : Cursor α) (items : List α) : (c.skipOver items).2.Bounded := by
  fun_induction skipOver c items with
  | case1 c a h ih => exact ih
  | case2 c h => exact c.bounded_acceptIf _

theorem bounded_skipUntil (hc : c.Bounded) (items : List α) : (c.skipUntil items).2.Bounded := by
  fun_induction skipUntil c items with
  | case1 c h => exact bounded_peek hc
  | case2 c a h hm => exact bounded_peek hc
  | case3 c a h hm ih => exact ih (bounded_next _)

theorem Command.bounded_apply (command : Command α) (hc : c.Bounded) :
    (command.apply c).2.Bounded := by
  cases command with
  | next => exact c.bounded_next
  | prev => exact bounded_prev hc
  | peek => exact bounded_peek hc
  | current => exact hc
  | atEnd => exact bounded_peek hc
  | position => exact hc
  | seek n => exact bounded_seek hc n
  | view => exact hc
  | forget => exact c.bounded_forget
  | takeView => exact c.bounded_forget
  | accept item => exact c.bounded_acceptIf _
  | acceptAny items => exact c.bounded_acceptIf _
  | acceptSeq items => exact bounded_acceptSeq hc items
  | skipOver items => exact c.bounded_skipOver items
  | skipUntil items => exact bounded_skipUntil hc items
  | rest => exact c.bounded_rest

end Bounds

theorem bounded_scanDigits (c : Cursor Char) : c.scanDigits.2.Bounded := by
  simp only [scanDigits]
  split
  · exact bounded_forget _
  · exact c.bounded_skipOver _

theorem bounded_scanLetter (c : Cursor Char) : c.scanLetter.2.Bounded := by
  simp only [scanLetter]
  split
  · exact bounded_forget _
  · exact c.bounded_acceptIf _

theorem TextCommand.bounded_apply (command : TextCommand) {c : Cursor Char} (hc : c.Bounded) :
    (command.apply c).2.Bounded := by
  cases command with
  | basic command => exact command.bounded_apply hc
  | takeText => exact c.bounded_forget
  | acceptText text => exact bounded_acceptSeq hc _
  | skipSeparators => exact c.bounded_skipOver _
  | forgetSeparators => exact bounded_forget _
  | scanDigits => exact c.bounded_scanDigits
  | scanLetter => exact c.bounded_scanLetter

/-! ## What is dropped -/

@[simp] theorem stock_rest (c : Cursor α) : c.rest.2.stock = c.stock := by
  fun_induction rest c with
  | case1 c h => exact c.stock_next
  | case2 c a h ih => exact ih.trans c.stock_next

/-- The items that an operation drops, in their order. -/
def Command.discards : Command α → Cursor α → List α
  | forget, c => c.view
  | takeView, c => c.view
  | _, _ => []

/-- The items that an operation on characters drops, in their order. -/
def TextCommand.discards : TextCommand → Cursor Char → List Char
  | basic command, c => command.discards c
  | takeText, c => c.view
  | forgetSeparators, c => c.skipSeparators.2.view
  | scanDigits, c => if (c.skipOver Text.digits).1 then (c.skipOver Text.digits).2.view else []
  | scanLetter, c =>
    if (c.acceptAny Text.letters).1.isSome then (c.acceptAny Text.letters).2.view else []
  | _, _ => []

/-- What an operation drops comes off the front of the stock, and nothing else changes there. -/
theorem Command.discards_append_stock [DecidableEq α] (command : Command α) (c : Cursor α) :
    command.discards c ++ (command.apply c).2.stock = c.stock := by
  cases command with
  | forget => exact c.view_append_stock_forget
  | takeView => exact c.view_append_stock_forget
  | _ => simp [discards, apply]

theorem TextCommand.discards_append_stock (command : TextCommand) (c : Cursor Char) :
    command.discards c ++ (command.apply c).2.stock = c.stock := by
  cases command with
  | basic command => exact command.discards_append_stock c
  | takeText => exact c.view_append_stock_forget
  | acceptText text => exact c.stock_acceptText text
  | skipSeparators => exact c.stock_skipSeparators
  | forgetSeparators =>
    rw [← c.stock_skipSeparators]
    exact c.skipSeparators.2.view_append_stock_forget
  | scanDigits =>
    rw [← c.stock_skipOver Text.digits]
    simp only [discards, apply, Cursor.scanDigits]
    split
    · exact (c.skipOver Text.digits).2.view_append_stock_forget
    · rfl
  | scanLetter =>
    rw [← c.stock_acceptAny Text.letters]
    simp only [discards, apply, Cursor.scanLetter]
    cases (c.acceptAny Text.letters).1 with
    | none => rfl
    | some letter => exact (c.acceptAny Text.letters).2.view_append_stock_forget

/-! ## Going back -/

/-- Goes to position `n`, or has no answer if that is refused. -/
def goBack (c : Cursor α) (n : Int) : Option (Cursor α) :=
  if (c.seek n).1 then some (c.seek n).2 else none

/-- `acceptIf`, without an answer if it cannot go back. -/
def acceptIfStrict (c : Cursor α) (p : α → Bool) : Option (Option α × Cursor α) :=
  match c.next.1.filter p with
  | some a => some (some a, c.next.2)
  | none => (c.next.2.goBack c.position).map fun d => (none, d)

/-- An answer of the strict form is the operation's answer. -/
theorem acceptIf_of_acceptIfStrict {c : Cursor α} {p : α → Bool} {answer : Option α × Cursor α}
    (h : c.acceptIfStrict p = some answer) : c.acceptIf p = answer := by
  unfold acceptIfStrict goBack at h
  unfold acceptIf
  split at h
  · next a hf => simpa [hf] using h
  · next hf =>
    split at h
    · simpa [hf] using h
    · cases h

section Strict

variable [DecidableEq α]

/-- `acceptEach`, without an answer if it cannot go back. -/
def acceptEachStrict (c : Cursor α) : List α → Option (Bool × Cursor α)
  | [] => some (true, c)
  | item :: items =>
    match c.acceptIfStrict (· = item) with
    | some (some _, d) => d.acceptEachStrict items
    | some (none, d) => some (false, d)
    | none => none

/-- `acceptSeq`, without an answer if it cannot go back. -/
def acceptSeqStrict (c : Cursor α) (items : List α) : Option (Bool × Cursor α) :=
  match c.acceptEachStrict items with
  | some (true, d) => some (true, d)
  | some (false, d) => (d.goBack c.position).map fun d => (false, d)
  | none => none

/-- `skipOver`, without an answer if it cannot go back. -/
def skipOverStrict (c : Cursor α) (items : List α) : Option (Bool × Cursor α) :=
  match _h : c.acceptIfStrict (· ∈ items) with
  | some (some _, d) => (d.skipOverStrict items).map fun skipped => (true, skipped.2)
  | some (none, d) => some (false, d)
  | none => none
termination_by c.pending.length
decreasing_by
  have ha := acceptIf_of_acceptIfStrict _h
  have hlt := length_pending_acceptIf_lt (congrArg Prod.fst ha)
  rwa [ha] at hlt

/-- An operation, without an answer if it makes a seek that is refused. -/
def Command.applyStrict (command : Command α) (c : Cursor α) : Option (Reply α × Cursor α) :=
  match command with
  | accept item => (c.acceptIfStrict (· = item)).map fun (found, d) => (.item found, d)
  | acceptAny items => (c.acceptIfStrict (· ∈ items)).map fun (found, d) => (.item found, d)
  | acceptSeq items => (c.acceptSeqStrict items).map fun (all, d) => (.flag all, d)
  | skipOver items => (c.skipOverStrict items).map fun (moved, d) => (.flag moved, d)
  | command => some (command.apply c)

end Strict

/-- An operation on characters, without an answer if it makes a seek that is refused. -/
def TextCommand.applyStrict (command : TextCommand) (c : Cursor Char) :
    Option (TextReply × Cursor Char) :=
  match command with
  | basic command => (command.applyStrict c).map fun (reply, d) => (.basic reply, d)
  | takeText => some (takeText.apply c)
  | acceptText text =>
    (c.acceptSeqStrict text.toList).map fun (all, d) => (.basic (.flag all), d)
  | skipSeparators =>
    (c.skipOverStrict Text.separators).map fun (moved, d) => (.basic (.flag moved), d)
  | forgetSeparators =>
    (c.skipOverStrict Text.separators).map fun (_, d) => (.basic .done, d.forget)
  | scanDigits =>
    (c.skipOverStrict Text.digits).map fun (moved, d) =>
      if moved then (.text (some d.takeText.1), d.takeText.2) else (.text none, d)
  | scanLetter =>
    (c.acceptIfStrict (· ∈ Text.letters)).map fun (found, d) =>
      (.basic (.item found), if found.isSome then d.forget else d)

section Granted

variable {c : Cursor α}

/-- A cursor that has buffered no less than a bounded one can go to where that one stands. -/
theorem goBack_position {d : Cursor α} (hc : c.Bounded)
    (hb : c.buffer.length ≤ d.buffer.length) :
    d.goBack c.position = some (d.seek c.position).2 := by
  rw [goBack, seek_position hc hb, if_pos rfl]

theorem acceptIfStrict_eq (hc : c.Bounded) (p : α → Bool) :
    c.acceptIfStrict p = some (c.acceptIf p) := by
  unfold acceptIfStrict acceptIf
  cases c.next.1.filter p with
  | some a => rfl
  | none => exact congrArg (Option.map _) (goBack_position hc c.length_buffer_le_next)

variable [DecidableEq α]

theorem acceptEachStrict_eq (hc : c.Bounded) (items : List α) :
    c.acceptEachStrict items = some (c.acceptEach items) := by
  induction items generalizing c with
  | nil => rfl
  | cons item items ih =>
    have hs : c.acceptIfStrict (· = item) = some (c.accept item) := acceptIfStrict_eq hc _
    have hd : (c.accept item).2.Bounded := c.bounded_acceptIf _
    rw [acceptEachStrict, acceptEach, hs]
    rcases ha : c.accept item with ⟨found | a, d⟩
    · rfl
    · rw [ha] at hd
      exact ih hd

theorem acceptSeqStrict_eq (hc : c.Bounded) (items : List α) :
    c.acceptSeqStrict items = some (c.acceptSeq items) := by
  have hb := c.length_buffer_le_acceptEach items
  rw [acceptSeqStrict, acceptSeq, acceptEachStrict_eq hc]
  rcases he : c.acceptEach items with ⟨_ | _, d⟩
  · rw [he] at hb
    exact congrArg (Option.map _) (goBack_position hc hb)
  · rfl

theorem skipOverStrict_eq (hc : c.Bounded) (items : List α) :
    c.skipOverStrict items = some (c.skipOver items) := by
  fun_induction skipOverStrict c items with
  | case1 c a d h ih =>
    have ha : c.acceptAny items = (some a, d) := acceptIf_of_acceptIfStrict h
    have hd : d.Bounded := by
      have hb : (c.acceptAny items).2.Bounded := c.bounded_acceptIf _
      rwa [ha] at hb
    rw [ih hd, skipOver_eq c, ha]
    rfl
  | case2 c d h =>
    have ha : c.acceptAny items = (none, d) := acceptIf_of_acceptIfStrict h
    rw [skipOver_eq c, ha]
  | case3 c h =>
    rw [acceptIfStrict_eq hc] at h
    cases h

/-- On a bounded cursor every seek that an operation makes to go back is granted. -/
theorem Command.applyStrict_eq (command : Command α) (hc : c.Bounded) :
    command.applyStrict c = some (command.apply c) := by
  cases command with
  | accept item => exact congrArg (Option.map _) (acceptIfStrict_eq hc _)
  | acceptAny items => exact congrArg (Option.map _) (acceptIfStrict_eq hc _)
  | acceptSeq items => exact congrArg (Option.map _) (acceptSeqStrict_eq hc items)
  | skipOver items => exact congrArg (Option.map _) (skipOverStrict_eq hc items)
  | _ => rfl

end Granted

theorem TextCommand.applyStrict_eq (command : TextCommand) {c : Cursor Char} (hc : c.Bounded) :
    command.applyStrict c = some (command.apply c) := by
  cases command with
  | basic command => exact congrArg (Option.map _) (command.applyStrict_eq hc)
  | takeText => rfl
  | acceptText text => exact congrArg (Option.map _) (acceptSeqStrict_eq hc _)
  | skipSeparators => exact congrArg (Option.map _) (skipOverStrict_eq hc _)
  | forgetSeparators => exact congrArg (Option.map _) (skipOverStrict_eq hc _)
  | scanDigits =>
    refine (congrArg (Option.map _) (skipOverStrict_eq hc _)).trans ?_
    simp only [Option.map_some, apply, Cursor.scanDigits]
    split <;> rfl
  | scanLetter =>
    refine (congrArg (Option.map _) (acceptIfStrict_eq hc _)).trans ?_
    simp only [Option.map_some, apply, Cursor.scanLetter, acceptAny]
    cases (c.acceptIf (· ∈ Text.letters)).1 <;> rfl

/-! ## Runs -/

section Runs

variable {κ ρ : Type} {apply : κ → Cursor α → ρ × Cursor α}
  {applyStrict : κ → Cursor α → Option (ρ × Cursor α)} {discards : κ → Cursor α → List α}

/-- What is kept by each operation is kept by a run of them. -/
theorem after_keeps {P : Cursor α → Prop} (hstep : ∀ command c, P c → P (apply command c).2)
    (commands : List κ) {c : Cursor α} (h : P c) : P (after apply commands c) := by
  induction commands generalizing c with
  | nil => exact h
  | cons command commands ih => exact ih (hstep command c h)

/-- Everything that a run of operations drops, in its order. -/
def discarded (apply : κ → Cursor α → ρ × Cursor α) (discards : κ → Cursor α → List α) :
    List κ → Cursor α → List α
  | [], _ => []
  | command :: commands, c =>
    discards command c ++ discarded apply discards commands (apply command c).2

theorem discarded_append_stock
    (hstep : ∀ command c, discards command c ++ (apply command c).2.stock = c.stock)
    (commands : List κ) (c : Cursor α) :
    discarded apply discards commands c ++ (after apply commands c).stock = c.stock := by
  induction commands generalizing c with
  | nil => rfl
  | cons command commands ih =>
    calc discarded apply discards (command :: commands) c ++
          (after apply (command :: commands) c).stock
        = discards command c ++ (discarded apply discards commands (apply command c).2 ++
            (after apply commands (apply command c).2).stock) := List.append_assoc _ _ _
      _ = discards command c ++ (apply command c).2.stock := by rw [ih]
      _ = c.stock := hstep command c

/-- A cursor is in order, given the items that it was made from and those dropped since. -/
structure InOrder (apply : κ → Cursor α → ρ × Cursor α)
    (applyStrict : κ → Cursor α → Option (ρ × Cursor α)) (items dropped : List α)
    (c : Cursor α) : Prop where
  /-- What has been dropped, what is buffered and what is not yet taken are the items. -/
  complete : dropped ++ c.buffer ++ c.source = items
  /-- The position is no less than that before the first item. -/
  le_position : -1 ≤ c.position
  /-- The position is no more than that past the last buffered item. -/
  position_le : c.position ≤ c.buffer.length
  /-- No operation makes a seek to go back that is refused. -/
  goes_back : ∀ command, applyStrict command c = some (apply command c)
  /-- The next item is the one behind the position. -/
  next_eq : c.next.1 = (c.buffer ++ c.source)[(c.position + 1).toNat]?

/-- A bounded cursor is in order if its stock is what the dropped items leave of all items. -/
theorem InOrder.of_bounded {items dropped : List α} {c : Cursor α} (hc : c.Bounded)
    (hstock : dropped ++ c.stock = items)
    (hstrict : ∀ command, applyStrict command c = some (apply command c)) :
    InOrder apply applyStrict items dropped c := by
  have ho : c.offset ≤ c.buffer.length + 1 := hc
  have hp : c.position = c.offset - 1 := rfl
  refine ⟨?_, by omega, by omega, hstrict, ?_⟩
  · rw [List.append_assoc]
    exact hstock
  · have hindex : (c.position + 1).toNat = c.offset := by omega
    rw [next_fst, pending, List.head?_drop, hindex]
    rfl

/-- A run of operations leaves a new cursor in order if each operation does. -/
theorem inOrder_after
    (hbounded : ∀ command (c : Cursor α), c.Bounded → (apply command c).2.Bounded)
    (hstock : ∀ command c, discards command c ++ (apply command c).2.stock = c.stock)
    (hstrict : ∀ command (c : Cursor α), c.Bounded →
      applyStrict command c = some (apply command c))
    (items : List α) (commands : List κ) :
    InOrder apply applyStrict items (discarded apply discards commands (ofList items))
      (after apply commands (ofList items)) := by
  have hc : (after apply commands (ofList items)).Bounded :=
    after_keeps hbounded commands (bounded_ofList items)
  refine .of_bounded hc ?_ fun command => hstrict command _ hc
  rw [discarded_append_stock hstock, stock_ofList]

end Runs

theorem Command.bounded_after [DecidableEq α] (commands : List (Command α)) (items : List α) :
    (after Command.apply commands (ofList items)).Bounded :=
  after_keeps (fun command _ => command.bounded_apply) commands (bounded_ofList items)

theorem TextCommand.bounded_after (commands : List TextCommand) (text : String) :
    (after TextCommand.apply commands (ofString text)).Bounded :=
  after_keeps (fun command _ => command.bounded_apply) commands (bounded_ofList text.toList)

/-- No run of operations loses, doubles or moves an item.  After any operations in any order on a
new cursor, what has been dropped, what is buffered and what is not yet taken make up the items that
the cursor was made from; the position lies between `-1` and the length of the buffer; every seek
that an operation then makes to go back is granted; and `next` answers the item behind the
position. -/
theorem runs_keep_items_in_order :
    (∀ (α : Type) [DecidableEq α] (items : List α) (commands : List (Command α)),
      InOrder Command.apply Command.applyStrict items
        (discarded Command.apply Command.discards commands (ofList items))
        (after Command.apply commands (ofList items))) ∧
    ∀ (text : String) (commands : List TextCommand),
      InOrder TextCommand.apply TextCommand.applyStrict text.toList
        (discarded TextCommand.apply TextCommand.discards commands (ofString text))
        (after TextCommand.apply commands (ofString text)) := by
  refine ⟨?_, ?_⟩
  · intro α _ items commands
    exact inOrder_after (fun command _ => command.bounded_apply) Command.discards_append_stock
      (fun command _ => command.applyStrict_eq) items commands
  · intro text commands
    exact inOrder_after (fun command _ => command.bounded_apply) TextCommand.discards_append_stock
      (fun command _ => command.applyStrict_eq) text.toList commands

end Cursor

end LetterCalc
