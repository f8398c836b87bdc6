import LetterCalc.Proofs.Evaluation

/-!
# Evaluation as a run of stack code

The code of a tree lists its effects in the order in which they happen, each of them once: what a
node does comes behind the code of its children, and the left child's code comes first.  Running the
code on a stack machine is evaluating the tree (`run_code_eq_eval`).  So no effect is repeated, left
out or taken out of turn, and where a variable has no value, evaluation stops with just those
effects behind it that stand before the failing instruction.

The proof compares the run with the evaluation node by node.  It is carried out over an arbitrary
stack, since the code of a right operand runs on top of the left one's value (`run_code`).
-/

namespace LetterCalc

namespace StackMachine

/-- What a stack machine can do in one step. -/
inductive Instruction where
  /-- Puts a value on the stack. -/
  | push (value : Value)
  /-- Puts the value of a variable on the stack. -/
  | load (name : Char)
  /-- Replaces the two topmost values by the value of an operation, the upper one being its right
  operand. -/
  | operate (op : Arith)
  /-- Stores the topmost value in a variable and leaves it on the stack. -/
  | store (name : Char)
  /-- Stores the topmost value plus one in a variable and leaves the value on the stack. -/
  | storeNext (name : Char)
deriving DecidableEq, Repr

/-- Why a stack machine stops before the end of its code. -/
inductive Halt where
  /-- A variable was to be loaded and has no value. -/
  | failed (failure : Failure)
  /-- The stack holds too few values for the instruction. -/
  | underflow
deriving DecidableEq, Repr

/-- Carries out one instruction. -/
def step (instruction : Instruction) (stack : List Value) (s : Store Value) :
    Except Halt (List Value) × Store Value :=
  match instruction, stack with
  | .push value, stack => (.ok (value :: stack), s)
  | .load name, stack =>
    match s.get? name with
    | some value => (.ok (value :: stack), s)
    | none => (.error (.failed (.undefinedVariable name)), s)
  | .operate op, y :: x :: stack => (.ok (op.apply x y :: stack), s)
  | .store name, x :: stack => (.ok (x :: stack), s.set name x)
  | .storeNext name, x :: stack => (.ok (x :: stack), s.set name (x + 1))
  | _, _ => (.error .underflow, s)

/-- Carries out instructions one after the other and stops at the first that cannot be carried out.
Answers the stack, and the store as it then is. -/
def run : List Instruction → List Value → Store Value → Except Halt (List Value) × Store Value
  | [], stack, s => (.ok stack, s)
  | instruction :: code, stack, s => andThen (step instruction stack s) (run code)

theorem run_singleton (instruction : Instruction) (stack : List Value) (s : Store Value) :
    run [instruction] stack s = step instruction stack s :=
  andThen_pure (step instruction stack s)

/-- Code put together from two parts runs the second where the first ends. -/
theorem run_append (code rest : List Instruction) (stack : List Value) (s : Store Value) :
    run (code ++ rest) stack s = andThen (run code stack s) (run rest) := by
  induction code generalizing stack s with
  | nil => rfl
  | cons instruction code ih =>
    rw [List.cons_append, run, run]
    rcases step instruction stack s with ⟨halt | stack, t⟩
    · rfl
    · rw [andThen_ok, andThen_ok, ih]

end StackMachine

namespace Tree

open StackMachine

/-- The instructions that evaluate a tree: those of its children first, then its own. -/
def code : Tree → List Instruction
  | literal value => [.push value]
  | letter name => [.load name]
  | binary op left right => left.code ++ (right.code ++ [.operate op])
  | assign target value => value.code ++ [.store target]
  | postIncrement name => [.load name, .storeNext name]

/-- What evaluation gives, as the machine shows it: a value on top of the stack, or a failed load,
and the same store. -/
abbrev Shows (stack : List Value) :
    Except Halt (List Value) × Store Value → Except Failure Value × Store Value → Prop :=
  Corresponds (fun after value => after = value :: stack)
    (fun halt failure => halt = .failed failure) Eq

theorem step_load (name : Char) (stack : List Value) (s : Store Value) :
    Shows stack (step (.load name) stack s) (s.fetch name) := by
  cases h : s.get? name with
  | none =>
    simp only [step, h, Store.fetch_of_none h]
    exact .error rfl rfl
  | some value =>
    simp only [step, h, Store.fetch_of_some h]
    exact .ok rfl rfl

/-- On any stack, the code of a tree leaves the tree's value on top. -/
theorem run_code (tree : Tree) (stack : List Value) (s : Store Value) :
    Shows stack (run tree.code stack s) (tree.eval s) := by
  rw [eval_eq_evalOver]
  induction tree generalizing stack s with
  | literal value => exact .ok rfl rfl
  | letter name =>
    rw [code, run_singleton]
    exact step_load name stack s
  | binary op left right ihl ihr =>
    rw [code, run_append, evalOver]
    refine (ihl stack s).andThen ?_
    rintro _ x t _ rfl rfl
    -- The right operand's code runs with the left operand's value below it.
    rw [run_append]
    refine (ihr (x :: stack) t).andThen ?_
    rintro _ y u _ rfl rfl
    rw [run_singleton]
    exact .ok rfl rfl
  | assign target value ih =>
    rw [code, run_append, evalOver]
    refine (ih stack s).andThen ?_
    rintro _ x t _ rfl rfl
    rw [run_singleton]
    exact .ok rfl rfl
  | postIncrement name =>
    rw [code, run, evalOver]
    refine (step_load name stack s).andThen ?_
    rintro _ x t _ rfl rfl
    rw [run_singleton]
    exact .ok rfl rfl

/-- Evaluating a tree is running its code from an empty stack: the value is what the code leaves
there, a failure is that of the first load that fails, and the store is the one that the machine
leaves in either case. -/
theorem run_code_eq_eval (tree : Tree) (s : Store Value) :
    run tree.code [] s =
      match tree.eval s with
      | (.ok value, t) => (.ok [value], t)
      | (.error failure, t) => (.error (.failed failure), t) := by
  have h := tree.run_code [] s
  generalize run tree.code [] s = ran, tree.eval s = evaluated at h
  cases h with
  | ok hvalue hstore => rw [hvalue, hstore]
  | error hfailure hstore => rw [hfailure, hstore]

-- The code of `(x = 2) + q` fails for want of `q` and has stored `x` by then.
example :
    run (binary .add (assign 'x' (literal 2)) (letter 'q')).code [] .empty =
      (.error (.failed (.undefinedVariable 'q')), Store.empty.set 'x' 2) := by
  decide

end Tree

end LetterCalc
