import LetterCalc.Calculator
import LetterCalc.Proofs.Language

/-!
# Reading a phrase

The reader keeps what waits for a value on a stack.  Here its result on the tokens of a phrase is
given by recursion on the phrase (`Phrase.result`), without a stack, and the reader is shown to
compute it.

What carries the induction is that reading a phrase leaves the stack as good as it found it: the
frames that the phrase has put there complete its tree and nothing else (`Completes`), whatever
lies below them and whatever tokens follow.  A group therefore ends at its own closing parenthesis,
which is the one token of it that the reader drops.
-/

namespace LetterCalc

/-! ## The result of a phrase -/

namespace Tree

/-- The value of an operand, multiplied to the factor before it if there is one. -/
def times (factor : Option Tree) (value : Tree) : Tree :=
  match factor with
  | none => value
  | some left => .binary .mul left value

/-- The variable that a tree consists of, which is what can be assigned to. -/
def target : Tree → Except ReadError Char
  | .letter name => .ok name
  | left => .error (.notAssignable left)

end Tree

/-- What the reader makes of an operand. -/
def Operand.result : Operand → Except ReadError Tree
  | number digits _ =>
    match Value.ofDigits? digits with
    | some value => .ok (.literal value)
    | none => .error (.literalOutOfRange digits)
  | letter name _ => .ok (.letter name)
  | preIncrement name _ => .ok (.preIncrement name)
  | postIncrement name _ => .ok (.postIncrement name)

mutual

/-- What the reader makes of an atom. -/
def Atom.result : Atom → Except ReadError Tree
  | .operand operand => operand.result
  | .group inner => inner.resultAfter none

/-- What the reader makes of a phrase whose first atom is to be multiplied to a factor. -/
def Phrase.resultAfter : Phrase → Option Tree → Except ReadError Tree
  | .atom head, factor => do return .times factor (← head.result)
  | .chain head op tail, factor => do
    let left := Tree.times factor (← head.result)
    match op with
    | .arith .mul => tail.resultAfter (some left)
    | .arith op => return .binary op left (← tail.resultAfter none)
    | .assign => return .assign (← left.target) (← tail.resultAfter none)
    | .addAssign => return .addAssign (← left.target) (← tail.resultAfter none)

end

/-- What the reader makes of a phrase. -/
def Phrase.result (e : Phrase) : Except ReadError Tree := e.resultAfter none

theorem Phrase.result_atom (head : Atom) : (atom head).result = head.result := by
  rw [result, resultAfter]
  exact bind_pure head.result

namespace Tree

theorem target_eq_ok_iff {left : Tree} {name : Char} :
    left.target = .ok name ↔ left = .letter name := by
  cases left <;> simp [target]

/-- Only a variable can be assigned to. -/
theorem target_eq_error_iff {left : Tree} {error : ReadError} :
    left.target = .error error ↔ (∀ name, left ≠ .letter name) ∧ error = .notAssignable left := by
  cases left <;> simp [target, eq_comm]

end Tree

/-! ## Dropped parentheses -/

namespace Reading

/-- The same reading after `n` closing parentheses were dropped. -/
def dropping (n : Nat) (reading : Reading) : Reading :=
  { reading with dropped := List.replicate n .closeParen ++ reading.dropped }

@[simp] theorem dropping_zero (reading : Reading) : reading.dropping 0 = reading := rfl

@[simp] theorem dropping_dropping (m n : Nat) (reading : Reading) :
    (reading.dropping m).dropping n = reading.dropping (n + m) := by
  simp only [dropping, ← List.append_assoc, List.replicate_append_replicate]

theorem mem_dropped_dropping {n : Nat} {reading : Reading} {token : Token}
    (h : token ∈ (reading.dropping n).dropped) :
    token = .closeParen ∨ token ∈ reading.dropped :=
  (List.mem_append.1 h).imp_left List.eq_of_mem_replicate

end Reading

namespace Reader

/-! ## One token -/

theorem afterOperand_eq (stack : List Frame) (factor : Option Tree) (value : Tree) :
    afterOperand stack factor value = .operator stack (.times factor value) factor.isSome := by
  cases factor <;> rfl

theorem read_operand_ok {operand : Operand} {tree : Tree} (h : operand.result = .ok tree)
    (stack : List Frame) (factor : Option Tree) (rest : List Token) :
    read (.operand stack factor) (operand.token :: rest) =
      read (afterOperand stack factor tree) rest := by
  cases operand with
  | number digits spelled =>
    cases hv : Value.ofDigits? digits with
    | none => simp [Operand.result, hv] at h
    | some value =>
      obtain rfl : .literal value = tree := by simpa [Operand.result, hv] using h
      simp [read, State.step, stepOperand, Operand.token, hv]
  | letter name spelled =>
    cases h
    rfl
  | preIncrement name spelled =>
    cases h
    rfl
  | postIncrement name spelled =>
    cases h
    rfl

theorem read_operand_error {operand : Operand} {error : ReadError}
    (h : operand.result = .error error) (stack : List Frame) (factor : Option Tree)
    (rest : List Token) :
    read (.operand stack factor) (operand.token :: rest) = ⟨.error error, rest, [], false⟩ := by
  cases operand with
  | number digits spelled =>
    cases hv : Value.ofDigits? digits with
    | none =>
      obtain rfl : .literalOutOfRange digits = error := by simpa [Operand.result, hv] using h
      simp [read, State.step, stepOperand, Operand.token, hv]
    | some value => simp [Operand.result, hv] at h
  | letter name spelled => cases h
  | preIncrement name spelled => cases h
  | postIncrement name spelled => cases h

/-- A closing parenthesis ends the innermost group. -/
theorem read_closeParen {stack below : List Frame} {factor : Option Tree} {left value : Tree}
    (h : unwind stack left = (value, some (factor, below))) (product : Bool) (rest : List Token) :
    read (.operator stack left product) (.closeParen :: rest) =
      (read (afterOperand below factor value) rest).dropping 1 := by
  simp [read, State.step, stepOperator, stepDrop, h, Reading.dropping]

/-- The frames and the tree of `stack'` and `left` complete to what those of `stack` and `tree`
complete to, inside a group and at the end of the input. -/
def Completes (stack' : List Frame) (left : Tree) (stack : List Frame) (tree : Tree) : Prop :=
  unwind stack' left = unwind stack tree ∧
    ∀ overran, finish stack' left overran = finish stack tree overran

/-! ## One operator -/

/-- What an operator does when the tree on its left is complete: the frames that wait for its right
side, and the factor that the right side starts with. -/
def opening (left : Tree) : Operator → Except ReadError (List Frame × Option Tree)
  | .arith .mul => .ok ([], some left)
  | .arith op => .ok ([.sum op left], none)
  | .assign => return ([.assign (← left.target)], none)
  | .addAssign => return ([.sum .add left, .assign (← left.target)], none)

theorem read_operator_ok {left : Tree} {op : Operator} {frames : List Frame}
    {factor : Option Tree} (h : opening left op = .ok (frames, factor)) (stack : List Frame)
    (product : Bool) (rest : List Token) :
    read (.operator stack left product) (.operator op :: rest) =
      read (.operand (frames ++ stack) factor) rest := by
  rcases op with ⟨⟨⟩⟩ | _ | _
  · cases h
    rfl
  · cases h
    rfl
  · cases h
    rfl
  · obtain ⟨name, hn, hf⟩ := bind_eq_ok_iff.1 h
    obtain rfl := Tree.target_eq_ok_iff.1 hn
    cases hf
    rfl
  · obtain ⟨name, hn, hf⟩ := bind_eq_ok_iff.1 h
    obtain rfl := Tree.target_eq_ok_iff.1 hn
    cases hf
    rfl

/-- An operator is refused only when it assigns to something other than a variable. -/
theorem opening_eq_error_iff {left : Tree} {op : Operator} {error : ReadError} :
    opening left op = .error error ↔
      (op = .assign ∨ op = .addAssign) ∧ (∀ name, left ≠ .letter name) ∧
        error = .notAssignable left := by
  rcases op with ⟨⟨⟩⟩ | _ | _
  · simp [opening]
  · simp [opening]
  · simp [opening]
  · simp [opening, bind_eq_error_iff, Tree.target_eq_error_iff, pure, Except.pure]
  · simp [opening, bind_eq_error_iff, Tree.target_eq_error_iff, pure, Except.pure]

theorem read_operator_error {left : Tree} {op : Operator} {error : ReadError}
    (h : opening left op = .error error) (stack : List Frame) (product : Bool)
    (rest : List Token) :
    read (.operator stack left product) (.operator op :: rest) =
      ⟨.error error, rest, [], false⟩ := by
  obtain ⟨hop, hne, rfl⟩ := opening_eq_error_iff.1 h
  cases left with
  | letter name => exact absurd rfl (hne name)
  | literal _ | binary _ _ _ | assign _ _ | postIncrement _ =>
    rcases hop with rfl | rfl <;> rfl

/-- The frames of an operator complete the tree that it stands for. -/
theorem completes_opening {left : Tree} {op : Operator} {frames : List Frame}
    {factor : Option Tree} (h : opening left op = .ok (frames, factor)) (stack : List Frame)
    (tree : Tree) : Completes (frames ++ stack) tree stack (unwind frames tree).1 := by
  rcases op with ⟨⟨⟩⟩ | _ | _
  · cases h
    exact ⟨rfl, fun _ => rfl⟩
  · cases h
    exact ⟨rfl, fun _ => rfl⟩
  · cases h
    exact ⟨rfl, fun _ => rfl⟩
  · obtain ⟨name, hn, hf⟩ := bind_eq_ok_iff.1 h
    cases hf
    exact ⟨rfl, fun _ => rfl⟩
  · obtain ⟨name, hn, hf⟩ := bind_eq_ok_iff.1 h
    cases hf
    exact ⟨rfl, fun _ => rfl⟩

/-- The result of a chain, by the frames of its operator. -/
theorem opening_bind (left : Tree) (op : Operator) (tail : Phrase) :
    (do
      let opened ← opening left op
      return (unwind opened.1 (← tail.resultAfter opened.2)).1) =
    match op with
    | .arith .mul => tail.resultAfter (some left)
    | .arith op => return .binary op left (← tail.resultAfter none)
    | .assign => return .assign (← left.target) (← tail.resultAfter none)
    | .addAssign => return .addAssign (← left.target) (← tail.resultAfter none) := by
  rcases op with ⟨⟨⟩⟩ | _ | _
  · rfl
  · rfl
  · exact bind_pure (tail.resultAfter (some left))
  · cases left <;> rfl
  · cases left <;> rfl

theorem resultAfter_chain (head : Atom) (op : Operator) (tail : Phrase) (factor : Option Tree) :
    (Phrase.chain head op tail).resultAfter factor = do
      let opened ← opening (.times factor (← head.result)) op
      return (unwind opened.1 (← tail.resultAfter opened.2)).1 := by
  rw [Phrase.resultAfter]
  cases head.result with
  | error error => rfl
  | ok value => exact (opening_bind (.times factor value) op tail).symm

/-! ## Phrases that have a tree -/

theorem count_operand (operand : Operand) : [operand.token].count .closeParen = 0 := by
  cases operand <;> rfl

mutual

/-- An atom is read to its end, and its tree is the value that was waited for. -/
theorem read_atom_ok (rest : List Token) :
    ∀ (a : Atom) (stack : List Frame) (factor : Option Tree) (tree : Tree), a.result = .ok tree →
      read (.operand stack factor) (a.tokens ++ rest) =
        (read (afterOperand stack factor tree) rest).dropping (a.tokens.count .closeParen)
  | .operand operand, stack, factor, tree, h => by
    rw [Atom.tokens, count_operand, Reading.dropping_zero]
    exact read_operand_ok h stack factor rest
  | .group inner, stack, factor, tree, h => by
    obtain ⟨stack', left, product, hc, hread⟩ :=
      read_phrase_ok inner (.group factor :: stack) none tree h
    have hu : unwind stack' left = (tree, some (factor, stack)) := hc.1
    have hopen : read (.operand stack factor) (.openParen :: (inner.tokens ++ [.closeParen]) ++ rest)
        = read (.operand (.group factor :: stack) none) (inner.tokens ++ .closeParen :: rest) := by
      rw [List.cons_append, List.append_assoc, List.singleton_append]
      rfl
    rw [Atom.tokens, hopen, hread, read_closeParen hu, Reading.dropping_dropping]
    simp

/-- A phrase is read to its end, and the frames it leaves complete its tree. -/
theorem read_phrase_ok :
    ∀ (e : Phrase) (stack : List Frame) (factor : Option Tree) (tree : Tree),
      e.resultAfter factor = .ok tree →
      ∃ stack' left product, Completes stack' left stack tree ∧ ∀ rest,
        read (.operand stack factor) (e.tokens ++ rest) =
          (read (.operator stack' left product) rest).dropping (e.tokens.count .closeParen)
  | .atom head, stack, factor, tree, h => by
    rw [Phrase.resultAfter] at h
    obtain ⟨value, hv, ht⟩ := bind_eq_ok_iff.1 h
    cases ht
    refine ⟨stack, .times factor value, factor.isSome, ⟨rfl, fun _ => rfl⟩, fun rest => ?_⟩
    rw [Phrase.tokens, read_atom_ok rest head stack factor value hv, afterOperand_eq]
  | .chain head op tail, stack, factor, tree, h => by
    rw [resultAfter_chain] at h
    obtain ⟨value, hv, h⟩ := bind_eq_ok_iff.1 h
    obtain ⟨⟨frames, factor'⟩, ho, h⟩ := bind_eq_ok_iff.1 h
    obtain ⟨value', ht, h⟩ := bind_eq_ok_iff.1 h
    cases h
    obtain ⟨stack', left, product, hc, hread⟩ :=
      read_phrase_ok tail (frames ++ stack) factor' value' ht
    have hf := completes_opening ho stack value'
    refine ⟨stack', left, product, ⟨hc.1.trans hf.1, fun b => (hc.2 b).trans (hf.2 b)⟩, ?_⟩
    intro rest
    rw [Phrase.tokens, List.append_assoc, List.cons_append,
      read_atom_ok _ head stack factor value hv, afterOperand_eq, read_operator_ok ho, hread,
      Reading.dropping_dropping]
    simp

end

/-! ## Phrases that have none -/

/-- A reading that ends with the given error and has dropped only closing parentheses. -/
def Fails (reading : Reading) (error : ReadError) : Prop :=
  reading.result = .error error ∧ ∀ token ∈ reading.dropped, token = .closeParen

theorem fails_of_error (error : ReadError) (rest : List Token) :
    Fails ⟨.error error, rest, [], false⟩ error :=
  ⟨rfl, nofun⟩

theorem Fails.dropping {reading : Reading} {error : ReadError} (h : Fails reading error)
    (n : Nat) : Fails (reading.dropping n) error :=
  ⟨h.1, fun token ht => (Reading.mem_dropped_dropping ht).elim id (h.2 token)⟩

mutual

theorem read_atom_error (rest : List Token) :
    ∀ (a : Atom) (stack : List Frame) (factor : Option Tree) (error : ReadError),
      a.result = .error error → Fails (read (.operand stack factor) (a.tokens ++ rest)) error
  | .operand operand, stack, factor, error, h => by
    rw [Atom.tokens, List.singleton_append, read_operand_error h stack factor rest]
    exact fails_of_error error rest
  | .group inner, stack, factor, error, h => by
    have hf := read_phrase_error (.closeParen :: rest) inner (.group factor :: stack) none error h
    rw [Atom.tokens, List.cons_append, List.append_assoc, List.singleton_append]
    exact hf

/-- Reading a phrase without a tree ends with the error of the phrase, whatever follows. -/
theorem read_phrase_error (rest : List Token) :
    ∀ (e : Phrase) (stack : List Frame) (factor : Option Tree) (error : ReadError),
      e.resultAfter factor = .error error →
      Fails (read (.operand stack factor) (e.tokens ++ rest)) error
  | .atom head, stack, factor, error, h => by
    rw [Phrase.resultAfter] at h
    obtain h | ⟨value, -, h⟩ := bind_eq_error_iff.1 h
    · exact read_atom_error rest head stack factor error h
    · cases h
  | .chain head op tail, stack, factor, error, h => by
    rw [Phrase.tokens, List.append_assoc, List.cons_append]
    rw [resultAfter_chain] at h
    obtain h | ⟨value, hv, h⟩ := bind_eq_error_iff.1 h
    · exact read_atom_error _ head stack factor error h
    rw [read_atom_ok _ head stack factor value hv, afterOperand_eq]
    refine Fails.dropping ?_ _
    obtain h | ⟨⟨frames, factor'⟩, ho, h⟩ := bind_eq_error_iff.1 h
    · rw [read_operator_error h]
      exact fails_of_error error _
    rw [read_operator_ok ho]
    obtain h | ⟨tree, -, h⟩ := bind_eq_error_iff.1 h
    · exact read_phrase_error rest tail (frames ++ stack) factor' error h
    · cases h

end

end Reader

/-! ## Whole phrases -/

namespace Phrase

/-- A phrase with a tree is read completely, and what is dropped are its closing parentheses. -/
theorem read_of_result_ok {e : Phrase} {tree : Tree} (h : e.result = .ok tree) :
    ∃ overran, Tree.read e.tokens =
      ⟨.ok tree, [], List.replicate (e.tokens.count .closeParen) .closeParen, overran⟩ := by
  obtain ⟨stack', left, product, hc, hread⟩ := Reader.read_phrase_ok e [] none tree h
  have hr := hread []
  rw [List.append_nil] at hr
  have hend : Reader.read (.operator stack' left product) [] = ⟨.ok tree, [], [], !product⟩ := by
    have hf := hc.2 (!product)
    simp only [Reader.read, Reader.State.atEnd, hf, Reader.finish]
  refine ⟨!product, ?_⟩
  rw [Tree.read, hr, hend, Reading.dropping, List.append_nil]

theorem read_of_result_error {e : Phrase} {error : ReadError} (h : e.result = .error error) :
    Reader.Fails (Tree.read e.tokens) error := by
  have hf := Reader.read_phrase_error [] e [] none error h
  rwa [List.append_nil] at hf

/-- The reader computes the result of a phrase. -/
theorem result_read (e : Phrase) : (Tree.read e.tokens).result = e.result := by
  cases h : e.result with
  | ok tree =>
    obtain ⟨overran, hr⟩ := read_of_result_ok h
    rw [hr]
  | error error => exact (read_of_result_error h).1

/-- A line with the words of a phrase has the result of the phrase. -/
theorem result_ofLine {e : Phrase} {line : String} (h : LetterCalc.words line = e.words) :
    (Tree.ofLine line).result = e.result := by
  rw [Tree.ofLine, words_eq_iff.1 h, e.result_read]

end Phrase

/-! ## The errors of a phrase -/

theorem Operand.isForeseen_of_result {operand : Operand} {error : ReadError}
    (h : operand.result = .error error) : error.isForeseen = true := by
  cases operand with
  | number digits spelled =>
    cases hv : Value.ofDigits? digits with
    | none =>
      obtain rfl : .literalOutOfRange digits = error := by simpa [result, hv] using h
      rfl
    | some value => simp [result, hv] at h
  | letter name spelled => cases h
  | preIncrement name spelled => cases h
  | postIncrement name spelled => cases h

mutual

theorem Atom.isForeseen_of_result : ∀ {a : Atom} {error : ReadError},
    a.result = .error error → error.isForeseen = true
  | .operand _, _, h => Operand.isForeseen_of_result h
  | .group _, _, h => Phrase.isForeseen_of_resultAfter h

/-- The tokens of a phrase never end too early and never lack an operand. -/
theorem Phrase.isForeseen_of_resultAfter : ∀ {e : Phrase} {factor : Option Tree}
    {error : ReadError}, e.resultAfter factor = .error error → error.isForeseen = true
  | .atom head, _, _, h => by
    rw [Phrase.resultAfter] at h
    obtain h | ⟨_, -, h⟩ := bind_eq_error_iff.1 h
    · exact Atom.isForeseen_of_result h
    · cases h
  | .chain head op tail, _, _, h => by
    rw [Reader.resultAfter_chain] at h
    obtain h | ⟨_, -, h⟩ := bind_eq_error_iff.1 h
    · exact Atom.isForeseen_of_result h
    obtain h | ⟨_, -, h⟩ := bind_eq_error_iff.1 h
    · obtain ⟨-, -, rfl⟩ := Reader.opening_eq_error_iff.1 h
      rfl
    obtain h | ⟨_, -, h⟩ := bind_eq_error_iff.1 h
    · exact Phrase.isForeseen_of_resultAfter h
    · cases h

end

/-! ## Accepted lines -/

/-- When no token is left unread, the cursor has nothing left to deliver. -/
theorem Tree.pending_readFrom_of_rest {c : Cursor String} (h : (readFrom c).1.rest = []) :
    (readFrom c).2.pending = [] := by
  have hr : (read (c.pending.map Token.ofText)).rest = [] := h
  show (c.advance _).pending = []
  rw [Cursor.pending_advance, hr]
  refine List.drop_eq_nil_of_le ?_
  rw [List.length_map, List.length_nil]
  omega

namespace Validation

/-- An accepted line has the tokens of a phrase, so its reading is known. -/
theorem exists_phrase_of_check {line : String} (h : check line = .ok ()) :
    ∃ e : Phrase, Token.ofLine line = e.tokens ∧ Tree.ofLine line = Tree.read e.tokens := by
  obtain ⟨⟨e, he⟩, -⟩ := check_eq_ok_iff.1 h
  have ht := Phrase.words_eq_iff.1 he
  exact ⟨e, ht, by rw [Tree.ofLine, ht]⟩

theorem isForeseen_of_check {line : String} {error : ReadError} (h : check line = .ok ())
    (hr : (Tree.ofLine line).result = .error error) : error.isForeseen = true := by
  obtain ⟨e, -, hl⟩ := exists_phrase_of_check h
  rw [hl, e.result_read] at hr
  exact Phrase.isForeseen_of_resultAfter hr

end Validation

theorem Reading.level_of_mem_events {reading : Reading} {event : Event}
    (h : event ∈ reading.events) : event.level = .trace := by
  unfold events at h
  rcases List.mem_append.1 h with h | h
  · obtain ⟨token, -, rfl⟩ := List.mem_map.1 h
    rfl
  · cases hr : reading.result with
    | error error => simp [hr] at h
    | ok tree =>
      simp only [hr, List.mem_append, List.mem_singleton, Option.mem_toList,
        Option.map_eq_some_iff] at h
      rcases h with ⟨token, -, rfl⟩ | rfl <;> rfl

namespace Calculator

theorem level_of_mem_evaluationEvents {tree : Tree} {result : Except Failure Value} {event : Event}
    (h : event ∈ evaluationEvents tree result) : event.level = .debug := by
  cases result with
  | ok value =>
    obtain rfl := List.mem_singleton.1 h
    rfl
  | error failure =>
    simp only [evaluationEvents, List.mem_append, List.mem_singleton, Option.mem_toList,
      Option.map_eq_some_iff] at h
    rcases h with ⟨name, -, rfl⟩ | rfl <;> rfl

/-- No line makes the calculator report an error. -/
theorem level_of_mem_runLine {s : Store Value} {line : String} {event : Event}
    (h : event ∈ (runLine s line).events) : event.level ≠ .error := by
  unfold runLine accepts at h
  cases hc : Validation.check line with
  | error reason =>
    simp only [hc, List.mem_singleton] at h
    rw [h, Event.level]
    decide
  | ok _ =>
    cases hr : (Tree.ofLine line).result with
    | error error =>
      simp only [hc, hr, List.mem_append, List.mem_singleton] at h
      rcases h with h | rfl
      · rw [Reading.level_of_mem_events h]
        decide
      · rw [Event.level, if_pos (Validation.isForeseen_of_check hc hr)]
        decide
    | ok tree =>
      simp only [hc, hr, List.mem_append] at h
      rcases h with h | h
      · rw [Reading.level_of_mem_events h]
        decide
      · rw [level_of_mem_evaluationEvents h]
        decide

end Calculator

/-- The reader accounts for every token of an accepted line.  It never runs out of tokens and never
misses an operand, and whatever it drops is a closing parenthesis.  If the line has a tree, the
reader reaches the last token, and it has dropped each closing parenthesis once.  Hence no line at
all makes the calculator report an error. -/
theorem reader_accounts_for_tokens :
    (∀ line, Validation.check line = .ok () →
      (∀ error, (Tree.ofLine line).result = .error error →
        error ≠ .unexpectedEnd ∧ ∀ token, error ≠ .notAnOperand token) ∧
      (∀ token ∈ (Tree.ofLine line).dropped, token = .closeParen) ∧
      ∀ tree, (Tree.ofLine line).result = .ok tree →
        (Tree.ofLine line).rest = [] ∧
        (Tree.readFrom (Cursor.ofList (words line))).2.pending = [] ∧
        (Tree.ofLine line).events =
          List.replicate ((Token.ofLine line).count .closeParen) (.dropped .closeParen) ++
            [.built tree]) ∧
    ∀ (s : Store Value) (line : String),
      ∀ event ∈ (Calculator.runLine s line).events, event.level ≠ .error := by
  refine ⟨fun line h => ⟨?_, ?_, ?_⟩, fun s line event => Calculator.level_of_mem_runLine⟩
  · intro error hr
    have hf := Validation.isForeseen_of_check h hr
    constructor
    · rintro rfl
      cases hf
    · rintro token rfl
      cases hf
  · obtain ⟨e, -, hl⟩ := Validation.exists_phrase_of_check h
    rw [hl]
    cases hr : e.result with
    | ok tree =>
      obtain ⟨overran, he⟩ := Phrase.read_of_result_ok hr
      rw [he]
      exact fun token ht => List.eq_of_mem_replicate ht
    | error error => exact (Phrase.read_of_result_error hr).2
  · intro tree hr
    obtain ⟨e, ht, hl⟩ := Validation.exists_phrase_of_check h
    rw [hl, e.result_read] at hr
    obtain ⟨overran, he⟩ := Phrase.read_of_result_ok hr
    rw [← hl] at he
    have hrest : (Tree.ofLine line).rest = [] := by rw [he]
    refine ⟨hrest, Tree.pending_readFrom_of_rest hrest, ?_⟩
    simp [he, Reading.events, ht]

/-- Each of the two groups of `x = ((1 + 2) * y)` ends at its own parenthesis. -/
theorem reader_accounts_for_nested_groups :
    Validation.check "x = ((1 + 2) * y)" = .ok () ∧
    (Tree.readFrom (Cursor.ofList (words "x = ((1 + 2) * y)"))).2.pending = [] ∧
    ∃ tree, (Tree.ofLine "x = ((1 + 2) * y)").events =
      [.dropped .closeParen, .dropped .closeParen, .built tree] := by
  have h : Validation.check "x = ((1 + 2) * y)" = .ok () := by decide +kernel
  have hr : (Tree.ofLine "x = ((1 + 2) * y)").result = .ok (.assign 'x' (.binary .mul
      (.binary .add (.literal 1) (.literal 2)) (.letter 'y'))) := by decide +kernel
  have hcount : (Token.ofLine "x = ((1 + 2) * y)").count .closeParen = 2 := by decide +kernel
  obtain ⟨-, hp, he⟩ := (reader_accounts_for_tokens.1 _ h).2.2 _ hr
  rw [hcount] at he
  exact ⟨h, hp, _, he⟩

end LetterCalc
