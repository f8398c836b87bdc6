import LetterCalc.Proofs.Consumption
import LetterCalc.Proofs.Lookahead

/-!
# Reading by recursive descent

The reader keeps what waits for a value on a stack.  The same trees can be read without one, by
three functions that call each other and share a cursor: an expression is an atom and what continues
it, and the frames of the stack are the calls that have not returned.  This file gives these
functions and shows that they read what the reader reads, drop what it drops and go as far as it
goes (`reading_build`).

The functions come with a choice.  Behind a product they can look whether any word is left and
return the product at once if there is none, or they can look for an operator in any case.  The
reader does the former, which is why its states tell a product that has just been completed from
other trees.

A call leaves fewer words than it finds, which is what the recursion ends by.  So that each function
can rely on it for the others, their results carry the fact with them (`Call`); for proofs there are
equations between plain results (`Outcome`).
-/

namespace LetterCalc

@[simp] theorem Cursor.pending_atEnd {α : Type} (c : Cursor α) : c.atEnd.2.pending = c.pending :=
  c.pending_peek

namespace Descent

/-- What a call comes to. -/
structure Outcome where
  /-- The tree, or why there is none. -/
  result : Except ReadError Tree
  /-- The tokens dropped where an operator was due, in order. -/
  dropped : List Token
  /-- Where the call leaves the cursor. -/
  cursor : Cursor String

namespace Outcome

/-- A call that has a tree. -/
def ok (tree : Tree) (cursor : Cursor String) : Outcome := ⟨.ok tree, [], cursor⟩

/-- A call that fails. -/
def fail (error : ReadError) (cursor : Cursor String) : Outcome := ⟨.error error, [], cursor⟩

/-- A call that has a tree and has dropped the token behind it. -/
def drop (tree : Tree) (token : Token) (cursor : Cursor String) : Outcome :=
  ⟨.ok tree, [token], cursor⟩

/-- Goes on with the tree of a call, or stops if it has none. -/
def andThen (first : Outcome) (next : Tree → Cursor String → Outcome) : Outcome :=
  match first.result with
  | .ok tree =>
    let later := next tree first.cursor
    { later with dropped := first.dropped ++ later.dropped }
  | .error _ => first

end Outcome

/-- A call that leaves fewer than `n` words if it has a tree. -/
structure Call (n : Nat) extends Outcome where
  /-- The words that are left are fewer. -/
  shorter : ∀ tree, result = .ok tree → cursor.pending.length < n

namespace Call

variable {m n : Nat}

def ok (tree : Tree) (cursor : Cursor String) (h : cursor.pending.length < n) : Call n :=
  ⟨.ok tree cursor, fun _ _ => h⟩

def fail (error : ReadError) (cursor : Cursor String) : Call n := ⟨.fail error cursor, nofun⟩

def drop (tree : Tree) (token : Token) (cursor : Cursor String) (h : cursor.pending.length < n) :
    Call n :=
  ⟨.drop tree token cursor, fun _ _ => h⟩

/-- Goes on with the tree of a call, given that fewer words are left. -/
def andThen (first : Call m)
    (next : Tree → (d : Cursor String) → d.pending.length < m → Call n) : Call n :=
  match h : first.result with
  | .ok tree =>
    let later := next tree first.cursor (first.shorter tree h)
    ⟨{ later.toOutcome with dropped := first.dropped ++ later.dropped }, later.shorter⟩
  | .error error => ⟨first.toOutcome, by simp [h]⟩

/-- The same call, of which less is said. -/
def weaken (call : Call m) (h : m ≤ n) : Call n :=
  ⟨call.toOutcome, fun tree ht => Nat.lt_of_lt_of_le (call.shorter tree ht) h⟩

theorem toOutcome_andThen {first : Call m}
    {next : Tree → (d : Cursor String) → d.pending.length < m → Call n}
    {f : Tree → Cursor String → Outcome} (h : ∀ tree d hd, (next tree d hd).toOutcome = f tree d) :
    (first.andThen next).toOutcome = first.toOutcome.andThen f := by
  unfold andThen Outcome.andThen
  split
  · next tree htree => simp only [htree, h]
  · next error herror => simp only [herror]

end Call

/-! ## The three functions -/

/-- What a token stands for where an operand is due: a tree, or a group that it opens. -/
def operandOf (token : Token) : Except ReadError (Option Tree) :=
  match token with
  | .number digits =>
    match Value.ofDigits? digits with
    | some value => .ok (some (.literal value))
    | none => .error (.literalOutOfRange digits)
  | .letter name => .ok (some (.letter name))
  | .preIncrement name => .ok (some (.preIncrement name))
  | .postIncrement name => .ok (some (.postIncrement name))
  | .openParen => .ok none
  | .operator _ | .closeParen | .other _ => .error (.notAnOperand token)

/-- What a token asks for where an operator is due. -/
inductive Demand where
  /-- An atom, as the right side of a product. -/
  | factor
  /-- An expression, which completes the tree. -/
  | expression (complete : Tree → Tree)
  /-- Nothing, since it cannot stand here. -/
  | refusal (error : ReadError)
  /-- Nothing, since it is no operator. -/
  | nothing

/-- What a token asks for behind the tree `left`. -/
def demand (left : Tree) : Token → Demand
  | .operator (.arith .mul) => .factor
  | .operator (.arith op) => .expression (.binary op left)
  | .operator .assign =>
    match left.target with
    | .ok target => .expression (.assign target)
    | .error error => .refusal error
  | .operator .addAssign =>
    match left.target with
    | .ok target => .expression (.addAssign target)
    | .error error => .refusal error
  | .number _ | .letter _ | .preIncrement _ | .postIncrement _ | .openParen | .closeParen
  | .other _ => .nothing

mutual

/-- Reads an atom and what continues it. -/
def expressionCall (shortcut : Bool) (c : Cursor String) : Call c.pending.length :=
  (atomCall shortcut c).andThen fun left d h => (continuationCall shortcut left d).weaken h
termination_by (c.pending.length, 1)

/-- Reads an operand, or the expression behind an opening parenthesis.  The closing one is left to
whoever reads on. -/
def atomCall (shortcut : Bool) (c : Cursor String) : Call c.pending.length :=
  match h : c.next.1 with
  | none => .fail .unexpectedEnd c.next.2
  | some word =>
    have hlt := Cursor.length_pending_next_lt h
    match operandOf (Token.ofText word) with
    | .ok (some tree) => .ok tree c.next.2 hlt
    | .ok none => (expressionCall shortcut c.next.2).weaken (Nat.le_of_lt hlt)
    | .error error => .fail error c.next.2
termination_by (c.pending.length, 0)

/-- Reads what continues the tree `left`.  A product is itself continued, unless the shortcut is
taken and no word is left behind it. -/
def continuationCall (shortcut : Bool) (left : Tree) (c : Cursor String) :
    Call (c.pending.length + 1) :=
  match h : c.next.1 with
  | none => .ok left c.next.2 (by rw [Cursor.pending_next, List.length_tail]; omega)
  | some word =>
    have hlt := Cursor.length_pending_next_lt h
    match demand left (Token.ofText word) with
    | .factor =>
      (atomCall shortcut c.next.2).andThen fun right d hd =>
        have hend : d.atEnd.2.pending.length = d.pending.length := by rw [Cursor.pending_atEnd]
        let product := .binary .mul left right
        if shortcut then
          if d.atEnd.1 then .ok product d.atEnd.2 (by omega)
          else (continuationCall shortcut product d.atEnd.2).weaken (by omega)
        else (continuationCall shortcut product d).weaken (by omega)
    | .expression complete =>
      (expressionCall shortcut c.next.2).andThen fun right d hd => .ok (complete right) d (by omega)
    | .refusal error => .fail error c.next.2
    | .nothing => .drop left (Token.ofText word) c.next.2 (by omega)
termination_by (c.pending.length, 0)

end

section Equations

variable (shortcut : Bool) (left : Tree) {c : Cursor String} {word : String}

/-- What reading an expression comes to. -/
def expression (c : Cursor String) : Outcome := (expressionCall shortcut c).toOutcome

/-- What reading an atom comes to. -/
def atom (c : Cursor String) : Outcome := (atomCall shortcut c).toOutcome

/-- What reading on behind the tree `left` comes to. -/
def continuation (c : Cursor String) : Outcome := (continuationCall shortcut left c).toOutcome

/-- What reading on behind a product comes to. -/
def afterProduct (product : Tree) (c : Cursor String) : Outcome :=
  if shortcut then
    if c.atEnd.1 then .ok product c.atEnd.2 else continuation shortcut product c.atEnd.2
  else continuation shortcut product c

theorem length_atom_lt {tree : Tree} (h : (atom shortcut c).result = .ok tree) :
    (atom shortcut c).cursor.pending.length < c.pending.length :=
  (atomCall shortcut c).shorter tree h

theorem expression_eq (c : Cursor String) : expression shortcut c =
    (atom shortcut c).andThen (continuation shortcut) := by
  rw [expression, expressionCall]
  exact Call.toOutcome_andThen fun _ _ _ => rfl

theorem atom_of_none (h : c.next.1 = none) :
    atom shortcut c = .fail .unexpectedEnd c.next.2 := by
  rw [atom, atomCall]
  split
  · rfl
  · next word hword => cases h.symm.trans hword

theorem atom_of_some (h : c.next.1 = some word) : atom shortcut c =
    match operandOf (Token.ofText word) with
    | .ok (some tree) => .ok tree c.next.2
    | .ok none => expression shortcut c.next.2
    | .error error => .fail error c.next.2 := by
  rw [atom, atomCall]
  split
  · next hnone => cases h.symm.trans hnone
  · next word' hword =>
    obtain rfl := Option.some.inj (h.symm.trans hword)
    rcases operandOf (Token.ofText word) with error | (_ | tree) <;> rfl

theorem continuation_of_none (h : c.next.1 = none) :
    continuation shortcut left c = .ok left c.next.2 := by
  rw [continuation, continuationCall]
  split
  · rfl
  · next word hword => cases h.symm.trans hword

theorem continuation_of_some (h : c.next.1 = some word) : continuation shortcut left c =
    match demand left (Token.ofText word) with
    | .factor =>
      (atom shortcut c.next.2).andThen fun right => afterProduct shortcut (.binary .mul left right)
    | .expression complete =>
      (expression shortcut c.next.2).andThen fun right => .ok (complete right)
    | .refusal error => .fail error c.next.2
    | .nothing => .drop left (Token.ofText word) c.next.2 := by
  rw [continuation, continuationCall]
  split
  · next hnone => cases h.symm.trans hnone
  · next word' hword =>
    obtain rfl := Option.some.inj (h.symm.trans hword)
    cases demand left (Token.ofText word) with
    | factor =>
      refine Call.toOutcome_andThen fun right d hd => ?_
      unfold afterProduct
      split
      · split <;> rfl
      · rfl
    | expression complete => exact Call.toOutcome_andThen fun _ _ _ => rfl
    | refusal error => rfl
    | nothing => rfl

end Equations

/-! ## The calls and the stack -/

open Reader

/-- The tokens of the words that a cursor has still to deliver. -/
def tokensOf (c : Cursor String) : List Token := c.pending.map Token.ofText

/-- Whether a cursor stands past its last word. -/
def pastEnd (c : Cursor String) : Bool := decide (c.stock.length < c.offset)

/-- Reads on from a state, with the words that a cursor has still to deliver. -/
def readOn (state : State) (c : Cursor String) : Reading :=
  let reading := Reader.read state (tokensOf c)
  { reading with overran := reading.overran || pastEnd c }

/-- What the reader answers when a tree is complete for the frames that wait for it. -/
def leave (stack : List Frame) (tree : Tree) (c : Cursor String) : Reading :=
  match unwind stack tree with
  | (value, some (factor, below)) => readOn (afterOperand below factor value) c
  | (value, none) => ⟨.ok value, tokensOf c, [], pastEnd c⟩

namespace Outcome

variable {outcome : Outcome}

/-- What the reader answers behind a call, given what it answers behind the tree of the call. -/
def resume (outcome : Outcome) (next : Tree → Cursor String → Reading) : Reading :=
  match outcome.result with
  | .ok tree =>
    let reading := next tree outcome.cursor
    { reading with dropped := outcome.dropped ++ reading.dropped }
  | .error error => ⟨.error error, tokensOf outcome.cursor, outcome.dropped, pastEnd outcome.cursor⟩

theorem resume_andThen (first : Outcome) (f : Tree → Cursor String → Outcome)
    (next : Tree → Cursor String → Reading) :
    (first.andThen f).resume next = first.resume fun tree d => (f tree d).resume next := by
  unfold andThen
  cases hfirst : first.result with
  | error error => simp only [resume, hfirst]
  | ok tree =>
    cases hf : (f tree first.cursor).result with
    | error error => simp only [resume, hfirst, hf]
    | ok value => simp only [resume, hfirst, hf, List.append_assoc]

theorem resume_congr {f g : Tree → Cursor String → Reading}
    (h : ∀ tree, outcome.result = .ok tree → f tree outcome.cursor = g tree outcome.cursor) :
    outcome.resume f = outcome.resume g := by
  unfold resume
  split
  · next tree htree => rw [h tree htree]
  · rfl

end Outcome

section Words

variable {c : Cursor String} {word : String}

theorem tokensOf_of_some (h : c.next.1 = some word) :
    tokensOf c = Token.ofText word :: tokensOf c.next.2 := by
  rw [Cursor.next_fst] at h
  obtain ⟨rest, hrest⟩ := List.head?_eq_some_iff.1 h
  rw [tokensOf, tokensOf, Cursor.pending_next, hrest]
  rfl

theorem tokensOf_of_none (h : c.next.1 = none) : tokensOf c = [] := by
  rw [Cursor.next_fst, List.head?_eq_none_iff] at h
  rw [tokensOf, h]
  rfl

theorem tokensOf_next_of_none (h : c.next.1 = none) : tokensOf c.next.2 = [] := by
  rw [Cursor.next_fst, List.head?_eq_none_iff] at h
  rw [tokensOf, Cursor.pending_next, h]
  rfl

theorem tokensOf_atEnd : tokensOf c.atEnd.2 = tokensOf c := by
  rw [tokensOf, tokensOf, c.pending_atEnd]

/-- A cursor that has a word to deliver does not get past the end by delivering it. -/
theorem pastEnd_of_some (h : c.next.1 = some word) :
    pastEnd c = false ∧ pastEnd c.next.2 = false := by
  have hlt := Cursor.length_pending_next_lt h
  have ho := c.offset_next
  rw [Cursor.pending, Cursor.pending, List.length_drop, List.length_drop] at hlt
  simp only [pastEnd, Cursor.stock_next, decide_eq_false_iff_not]
  omega

/-- A cursor that has no word to deliver and is asked for one goes past the end. -/
theorem pastEnd_of_none (h : c.next.1 = none) : pastEnd c.next.2 = true := by
  have ho := c.offset_next
  rw [Cursor.next_fst, List.head?_eq_none_iff, Cursor.pending, List.drop_eq_nil_iff] at h
  simp only [pastEnd, Cursor.stock_next, decide_eq_true_eq]
  omega

/-- One word moves the cursor by one and the state by one step. -/
theorem readOn_of_some (h : c.next.1 = some word) (state : State) : readOn state c =
    match state.step (Token.ofText word) with
    | .use next => readOn next c.next.2
    | .drop next =>
      let reading := readOn next c.next.2
      { reading with dropped := Token.ofText word :: reading.dropped }
    | .stop tree => ⟨.ok tree, tokensOf c.next.2, [Token.ofText word], pastEnd c.next.2⟩
    | .fail error => ⟨.error error, tokensOf c.next.2, [], pastEnd c.next.2⟩ := by
  obtain ⟨hc, hn⟩ := pastEnd_of_some h
  simp only [readOn, tokensOf_of_some h, hc, hn, Bool.or_false]
  cases hstep : state.step (Token.ofText word) with
  | use next => exact read_cons_use hstep _
  | drop next => exact read_cons_drop hstep _
  | stop tree => exact read_cons_stop hstep _
  | fail error => exact read_cons_fail hstep _

theorem readOn_atEnd (state : State) : readOn state c.atEnd.2 = readOn state c := by
  rw [readOn, readOn, tokensOf_atEnd, pastEnd, pastEnd, c.stock_atEnd]
  rfl

theorem readOn_of_nil (h : tokensOf c = []) (state : State) :
    readOn state c = { state.atEnd with overran := state.atEnd.overran || pastEnd c } := by
  rw [readOn, h, Reader.read]

/-- Once a token past the end has been asked for, it stays so, and the tree is the same. -/
theorem finish_true (stack : List Frame) (value : Tree) :
    finish stack value true = ((finish stack value false).1, true) := by
  induction stack generalizing value with
  | nil => rfl
  | cons frame stack ih =>
    rcases frame with ⟨op, left⟩ | target | (_ | left)
    · exact ih _
    · exact ih _
    · show finish stack value true = ((finish stack value true).1, true)
      rw [ih]
    · exact ih _

/-- At the end of the words a group is left like any other frame, and what was looked for behind it
is not there. -/
theorem leave_of_nil (h : tokensOf c = []) (stack : List Frame) (tree : Tree) :
    leave stack tree c = readOn (.operator stack tree true) c := by
  induction stack generalizing tree with
  | nil =>
    rw [readOn_of_nil h, leave, unwind, h]
    rfl
  | cons frame stack ih =>
    rw [readOn_of_nil h]
    rcases frame with ⟨op, left⟩ | target | (_ | left)
    · exact (ih (.binary op left tree)).trans (readOn_of_nil h _)
    · exact (ih (.assign target tree)).trans (readOn_of_nil h _)
    · exact readOn_of_nil h (.operator stack tree false)
    · exact readOn_of_nil h (.operator stack (.binary .mul left tree) true)

end Words

/-! ## One token -/

theorem stepOperand_eq (stack : List Frame) (factor : Option Tree) (token : Token) :
    stepOperand stack factor token =
      match operandOf token with
      | .ok (some tree) => .use (afterOperand stack factor tree)
      | .ok none => .use (.operand (.group factor :: stack) none)
      | .error error => .fail error := by
  cases token with
  | number digits =>
    simp only [stepOperand, operandOf]
    cases Value.ofDigits? digits <;> rfl
  | letter _ | preIncrement _ | postIncrement _ | openParen | operator _ | closeParen | other _ =>
    rfl

/-- The frames that an operator puts on the stack complete the tree for which it asks. -/
theorem stepOperator_eq (stack : List Frame) (left : Tree) (token : Token) :
    match demand left token with
    | .factor => stepOperator stack left token = .use (.operand stack (some left))
    | .expression complete =>
      ∃ stack', stepOperator stack left token = .use (.operand stack' none) ∧
        ∀ tree, leave stack' tree = leave stack (complete tree)
    | .refusal error => stepOperator stack left token = .fail error
    | .nothing => stepOperator stack left token = stepDrop stack left := by
  cases token with
  | operator op =>
    rcases op with ⟨⟨⟩⟩ | _ | _
    · exact ⟨.sum .add left :: stack, rfl, fun _ => rfl⟩
    · exact ⟨.sum .sub left :: stack, rfl, fun _ => rfl⟩
    · rfl
    · cases left with
      | letter target => exact ⟨.assign target :: stack, rfl, fun _ => rfl⟩
      | literal _ | binary _ _ _ | assign _ _ | postIncrement _ => rfl
    · cases left with
      | letter target =>
        exact ⟨.sum .add (.letter target) :: .assign target :: stack, rfl, fun _ => rfl⟩
      | literal _ | binary _ _ _ | assign _ _ | postIncrement _ => rfl
  | number _ | letter _ | preIncrement _ | postIncrement _ | openParen | closeParen | other _ =>
    rfl

/-! ## The reader reads what the calls read

Each of the three functions is met by the reader in a state of its own, over an arbitrary stack: the
frames on the stack wait for what the function returns.  The proofs recurse as the functions do, and
end for the same reason. -/

/-- Behind a product the reader takes the shortcut. -/
theorem readOn_afterProduct {product : Tree} {stack : List Frame} {c : Cursor String}
    (hcontinue : readOn (.operator stack product false) c.atEnd.2 =
      (continuation true product c.atEnd.2).resume (leave stack)) :
    readOn (.operator stack product true) c =
      (afterProduct true product c).resume (leave stack) := by
  have hend : c.atEnd.1 = c.next.1.isNone := rfl
  rw [afterProduct, if_pos rfl, hend]
  cases hc : c.next.1 with
  | none =>
    have hnil : tokensOf c.atEnd.2 = [] := tokensOf_atEnd.trans (tokensOf_of_none hc)
    show _ = leave stack product c.atEnd.2
    rw [leave_of_nil hnil, readOn_atEnd]
  -- Where there is a token, it does not matter whether the tree on its left is a product.
  | some word =>
    show _ = (continuation true product c.atEnd.2).resume (leave stack)
    rw [← hcontinue, readOn_atEnd, readOn_of_some hc, readOn_of_some hc]
    rfl

mutual

/-- The reader reads an expression and hands it to the frames that wait for it. -/
theorem readOn_expression (stack : List Frame) (c : Cursor String) :
    readOn (.operand stack none) c = (expression true c).resume (leave stack) := by
  rw [expression_eq, Outcome.resume_andThen, readOn_atom]
  refine Outcome.resume_congr fun left hleft => ?_
  have hlt := length_atom_lt true hleft
  exact readOn_continuation stack left _
termination_by (c.pending.length, 1)

/-- The reader reads an atom and goes on behind it. -/
theorem readOn_atom (stack : List Frame) (factor : Option Tree) (c : Cursor String) :
    readOn (.operand stack factor) c =
      (atom true c).resume fun tree => readOn (afterOperand stack factor tree) := by
  cases hc : c.next.1 with
  | none =>
    rw [atom_of_none true hc, readOn_of_nil (tokensOf_of_none hc), Outcome.fail, Outcome.resume,
      tokensOf_next_of_none hc, pastEnd_of_none hc]
    rfl
  | some word =>
    have hlt := Cursor.length_pending_next_lt hc
    rw [atom_of_some true hc, readOn_of_some hc, State.step, stepOperand_eq]
    rcases operandOf (Token.ofText word) with error | (_ | tree)
    · rfl
    · exact readOn_expression (.group factor :: stack) c.next.2
    · rfl
termination_by (c.pending.length, 0)

/-- The reader reads what continues a tree and hands it to the frames that wait for it. -/
theorem readOn_continuation (stack : List Frame) (left : Tree) (c : Cursor String) :
    readOn (.operator stack left false) c = (continuation true left c).resume (leave stack) := by
  cases hc : c.next.1 with
  | none =>
    rw [continuation_of_none true left hc, readOn_of_nil (tokensOf_of_none hc)]
    show _ = leave stack left c.next.2
    have hnext := tokensOf_next_of_none hc
    rw [leave_of_nil hnext, readOn_of_nil hnext, pastEnd_of_none hc, Bool.or_true]
    simp only [State.atEnd, Bool.not_false, Bool.not_true, finish_true, Bool.true_or]
  | some word =>
    have hlt := Cursor.length_pending_next_lt hc
    have hstep := stepOperator_eq stack left (Token.ofText word)
    rw [continuation_of_some true left hc, readOn_of_some hc, State.step]
    generalize demand left (Token.ofText word) = wanted at hstep ⊢
    cases wanted with
    | factor =>
      simp only [hstep]
      rw [readOn_atom, Outcome.resume_andThen]
      refine Outcome.resume_congr fun right hright => readOn_afterProduct ?_
      have hfewer := length_atom_lt true hright
      have hend := congrArg List.length (atom true c.next.2).cursor.pending_atEnd
      exact readOn_continuation stack (.binary .mul left right) _
    | expression complete =>
      obtain ⟨stack', hstep, hleave⟩ := hstep
      simp only [hstep]
      rw [readOn_expression, Outcome.resume_andThen]
      refine Outcome.resume_congr fun right _ => ?_
      rw [hleave]
      rfl
    | refusal error =>
      simp only [hstep]
      rfl
    | nothing =>
      simp only [hstep, stepDrop, Outcome.drop, Outcome.resume, leave]
      rcases unwind stack left with ⟨value, _ | ⟨factor, below⟩⟩ <;> rfl
termination_by (c.pending.length, 0)

end

/-! ## A whole run -/

namespace Outcome

/-- What the calls report: the tokens they have dropped and, if there is a tree, the word behind it
and the tree. -/
def events (outcome : Outcome) : List Event :=
  outcome.dropped.map .dropped ++
    match outcome.result with
    | .ok tree =>
      (outcome.cursor.peek.1.map fun word => .trailing (Token.ofText word)).toList ++ [.built tree]
    | .error _ => []

/-- What a call comes to, as the reader puts it. -/
def reading (outcome : Outcome) : Reading :=
  ⟨outcome.result, tokensOf outcome.cursor, outcome.dropped, pastEnd outcome.cursor⟩

theorem resume_leave_nil (outcome : Outcome) : outcome.resume (leave []) = outcome.reading := by
  unfold resume reading
  split
  · next tree htree => simp [htree, leave, unwind]
  · next error herror => rw [herror]

theorem events_eq (outcome : Outcome) : outcome.events = outcome.reading.events := by
  rw [events, reading, Reading.events, tokensOf, List.head?_map, Cursor.peek_fst, Option.map_map]
  rfl

/-- A look at the word behind the tree changes nothing in what a call comes to. -/
theorem reading_andThen_peek (outcome : Outcome) :
    (outcome.andThen fun tree d => .ok tree d.peek.2).reading = outcome.reading := by
  unfold andThen
  split
  · next tree htree =>
    simp only [reading, ok, htree, List.append_nil, tokensOf, Cursor.pending_peek, pastEnd,
      Cursor.stock_peek]
    rfl
  · rfl

end Outcome

/-- Reads an expression from a list of words and, if there is a tree, looks for a word behind it. -/
def build (shortcut : Bool) (ws : List String) : Outcome :=
  (expression shortcut (Cursor.ofList ws)).andThen fun tree d => .ok tree d.peek.2

/-- The calls that take the shortcut read what the reader reads. -/
theorem reading_build (ws : List String) :
    (build true ws).reading = (Tree.readFrom (Cursor.ofList ws)).1 := by
  have hstart : pastEnd (Cursor.ofList ws) = false := decide_eq_false (Nat.not_lt_zero _)
  have hread : readOn (.operand [] none) (Cursor.ofList ws) =
      (Tree.readFrom (Cursor.ofList ws)).1 := by
    rw [readOn, hstart, Bool.or_false]
    rfl
  rw [← hread, readOn_expression, Outcome.resume_leave_nil, build, Outcome.reading_andThen_peek]

end Descent

end LetterCalc
