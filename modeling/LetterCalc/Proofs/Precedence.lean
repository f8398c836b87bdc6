import LetterCalc.Proofs.Reading

/-!
# Precedence and the order of errors

What tree a phrase stands for, said without following the reader.  A phrase is cut at every
operator other than `*`.  Between the cuts lie chains of atoms with `*` between them: the tree of
a chain is the product of its atoms, nested to the left.  The chains are joined by the operators at
the cuts, nested to the right, and `=` and `+=` need a chain on their left that is a variable.

Pieces of a phrase carry two things: the tree, if there is one, and the tokens, where an operator
at a cut is marked with the tree of the chain on its left.  A mark is `Sound` or it is at `Fault`.
The reader gives the tree of the phrase if all its marks are sound, and otherwise the error of the
leftmost mark that is not (`Phrase.agrees_result`).
-/

namespace LetterCalc

namespace Precedence

/-! ## Marks -/

/-- A token of a phrase.  An operator at a cut comes with the tree of the chain on its left, if
that has one. -/
structure Mark where
  token : Token
  left? : Option Tree

/-- A number is at most `2 ^ 63 - 1`, and an assignment has a variable on its left. -/
def Mark.Sound (m : Mark) : Prop :=
  (∀ digits, m.token = .number digits → Value.natOfDigits digits ≤ Value.largest) ∧
    (m.token = .operator .assign ∨ m.token = .operator .addAssign →
      ∃ name, m.left? = some (.letter name))

/-- The error of a mark that is not sound. -/
def Mark.Fault (m : Mark) (error : ReadError) : Prop :=
  (∃ digits, m.token = .number digits ∧ Value.largest < Value.natOfDigits digits ∧
      error = .literalOutOfRange digits) ∨
    (m.token = .operator .assign ∨ m.token = .operator .addAssign) ∧
      ∃ left, m.left? = some left ∧ (∀ name, left ≠ .letter name) ∧ error = .notAssignable left

/-- The leftmost mark that is not sound has the given error. -/
def LeftmostFault (marks : List Mark) (error : ReadError) : Prop :=
  ∃ before m after, marks = before ++ m :: after ∧ (∀ b ∈ before, b.Sound) ∧ m.Fault error

theorem Mark.Fault.not_sound {m : Mark} {error : ReadError} (h : m.Fault error) : ¬ m.Sound := by
  intro hs
  rcases h with ⟨digits, ht, hv, -⟩ | ⟨hop, left, hl, hn, -⟩
  · have := hs.1 digits ht
    omega
  · obtain ⟨name, hname⟩ := hs.2 hop
    rw [hl, Option.some.injEq] at hname
    exact hn name hname

theorem LeftmostFault.exists_not_sound {marks : List Mark} {error : ReadError}
    (h : LeftmostFault marks error) : ∃ m ∈ marks, ¬ m.Sound := by
  obtain ⟨before, m, after, rfl, -, hf⟩ := h
  exact ⟨m, List.mem_append_right _ List.mem_cons_self, hf.not_sound⟩

/-! ## Pieces, chains and cuts -/

/-- What is known of a part of a phrase. -/
structure Piece where
  tree? : Option Tree
  marks : List Mark

/-- Two pieces with `*` between them. -/
def Piece.times (left right : Piece) : Piece where
  tree? := return .binary .mul (← left.tree?) (← right.tree?)
  marks := left.marks ++ ⟨.operator (.arith .mul), none⟩ :: right.marks

/-- The operators that a phrase is cut at. -/
abbrev Link := { op : Operator // op ≠ .arith .mul }

/-- The tree of a link between two trees.  An assignment needs a variable on its left. -/
def Link.tree? (link : Link) (left right : Tree) : Option Tree :=
  match link.val, left with
  | .arith op, left => some (.binary op left right)
  | .assign, .letter name => some (.assign name right)
  | .addAssign, .letter name => some (.addAssign name right)
  | _, _ => none

/-- Two pieces with a link between them. -/
def Piece.join (left : Piece) (link : Link) (right : Piece) : Piece where
  tree? := do link.tree? (← left.tree?) (← right.tree?)
  marks := left.marks ++ ⟨.operator link.val, left.tree?⟩ :: right.marks

/-- One or more pieces, to be multiplied. -/
structure Chain where
  first : Piece
  more : List Piece

/-- Products nest to the left. -/
def Chain.piece (chain : Chain) : Piece := chain.more.foldl Piece.times chain.first

/-- One or more chains, with links between them. -/
structure Cut where
  first : Chain
  more : List (Link × Chain)

/-- Links nest to the right. -/
def nest : Chain → List (Link × Chain) → Piece
  | chain, [] => chain.piece
  | chain, (link, next) :: more => chain.piece.join link (nest next more)

def Cut.piece (cut : Cut) : Piece := nest cut.first cut.more

/-- Puts a piece and an operator before a cut: `*` makes the first chain longer, any other operator
is one more link. -/
def Cut.cons (cut : Cut) (piece : Piece) (op : Operator) : Cut :=
  if h : op = .arith .mul then ⟨⟨piece, cut.first.first :: cut.first.more⟩, cut.more⟩
  else ⟨⟨piece, []⟩, (⟨op, h⟩, cut.first) :: cut.more⟩

end Precedence

open Precedence

/-- The tree of an operand.  A number has one only if its value does not exceed `2 ^ 63 - 1`. -/
def Operand.tree? : Operand → Option Tree
  | number digits _ =>
    if Value.natOfDigits digits ≤ Value.largest then
      some (.literal (Int64.ofNat (Value.natOfDigits digits)))
    else none
  | letter name _ => some (.letter name)
  | preIncrement name _ => some (.preIncrement name)
  | postIncrement name _ => some (.postIncrement name)

mutual

/-- An atom as a piece.  A group has the tree of what stands in it. -/
def Atom.piece : Atom → Piece
  | .operand operand => ⟨operand.tree?, [⟨operand.token, none⟩]⟩
  | .group inner =>
    ⟨inner.cut.piece.tree?, ⟨.openParen, none⟩ :: (inner.cut.piece.marks ++ [⟨.closeParen, none⟩])⟩

/-- The chains of a phrase and the links between them. -/
def Phrase.cut : Phrase → Cut
  | .atom head => ⟨⟨head.piece, []⟩, []⟩
  | .chain head op tail => tail.cut.cons head.piece op

end

/-- The tree that a phrase stands for. -/
def Phrase.tree? (e : Phrase) : Option Tree := e.cut.piece.tree?

/-- The tokens of a phrase, marked. -/
def Phrase.marks (e : Phrase) : List Mark := e.cut.piece.marks

/-! ## The reader agrees -/

namespace Precedence

/-- A result is what a piece says: its tree, if all its marks are sound, and else the error of the
leftmost mark at fault. -/
def Agrees (result : Except ReadError Tree) (piece : Piece) : Prop :=
  match result with
  | .ok tree => piece.tree? = some tree ∧ ∀ m ∈ piece.marks, m.Sound
  | .error error => piece.tree? = none ∧ LeftmostFault piece.marks error

theorem LeftmostFault.append_right {marks : List Mark} {error : ReadError}
    (h : LeftmostFault marks error) (marks' : List Mark) :
    LeftmostFault (marks ++ marks') error := by
  obtain ⟨before, m, after, rfl, hb, hm⟩ := h
  exact ⟨before, m, after ++ marks', by simp, hb, hm⟩

theorem LeftmostFault.append_left {marks marks' : List Mark} {error : ReadError}
    (hs : ∀ m ∈ marks, m.Sound) (h : LeftmostFault marks' error) :
    LeftmostFault (marks ++ marks') error := by
  obtain ⟨before, m, after, rfl, hb, hm⟩ := h
  refine ⟨marks ++ before, m, after, by simp, ?_, hm⟩
  intro b hmem
  rcases List.mem_append.1 hmem with hmem | hmem
  · exact hs b hmem
  · exact hb b hmem

theorem LeftmostFault.cons {m : Mark} {marks : List Mark} {error : ReadError} (hs : m.Sound)
    (h : LeftmostFault marks error) : LeftmostFault (m :: marks) error := by
  have hall : ∀ b ∈ [m], b.Sound := by simpa using hs
  exact append_left hall h

theorem sound_append_cons {marks marks' : List Mark} {m : Mark} (hl : ∀ b ∈ marks, b.Sound)
    (hm : m.Sound) (hr : ∀ b ∈ marks', b.Sound) : ∀ b ∈ marks ++ m :: marks', b.Sound := by
  intro b hb
  simp only [List.mem_append, List.mem_cons] at hb
  rcases hb with hb | rfl | hb
  · exact hl b hb
  · exact hm
  · exact hr b hb

/-- A token that is no number and assigns nothing is never at fault. -/
theorem sound_of_token {token : Token} {left? : Option Tree}
    (hnumber : ∀ digits, token ≠ .number digits) (hassign : token ≠ .operator .assign)
    (hadd : token ≠ .operator .addAssign) : (⟨token, left?⟩ : Mark).Sound := by
  refine ⟨fun digits h => absurd h (hnumber digits), ?_⟩
  rintro (h | h)
  · exact absurd h hassign
  · exact absurd h hadd

theorem sound_arith (op : Arith) (left? : Option Tree) :
    (⟨.operator (.arith op), left?⟩ : Mark).Sound :=
  sound_of_token (by simp) (by simp) (by simp)

/-! ### Products -/

theorem agrees_times {left : Tree} {piece piece' : Piece} {result : Except ReadError Tree}
    (hl : Agrees (.ok left) piece) (hr : Agrees result piece') :
    Agrees (do return .binary .mul left (← result)) (piece.times piece') := by
  have hmul := sound_arith .mul none
  cases result with
  | ok right =>
    refine ⟨by simp [Piece.times, hl.1, hr.1], ?_⟩
    exact sound_append_cons hl.2 hmul hr.2
  | error error =>
    refine ⟨by simp [Piece.times, hl.1, hr.1], ?_⟩
    exact LeftmostFault.append_left hl.2 (LeftmostFault.cons hmul hr.2)

theorem agrees_times_error {error : ReadError} {piece : Piece} (h : Agrees (.error error) piece)
    (piece' : Piece) : Agrees (.error error) (piece.times piece') :=
  ⟨by simp [Piece.times, h.1], h.2.append_right _⟩

theorem agrees_chain_error {error : ReadError} (more : List Piece) :
    ∀ {piece : Piece}, Agrees (.error error) piece →
      Agrees (.error error) (Chain.piece ⟨piece, more⟩) := by
  induction more with
  | nil => exact fun h => h
  | cons next more ih => exact fun h => ih (agrees_times_error h next)

/-! ### Links -/

theorem agrees_join_error {error : ReadError} {piece : Piece} (h : Agrees (.error error) piece)
    (link : Link) (piece' : Piece) : Agrees (.error error) (piece.join link piece') :=
  ⟨by simp [Piece.join, h.1], h.2.append_right _⟩

/-- A piece at fault makes everything that starts with it fail. -/
theorem agrees_cons_error {error : ReadError} {piece : Piece} (h : Agrees (.error error) piece)
    (cut : Cut) (op : Operator) : Agrees (.error error) (cut.cons piece op).piece := by
  have hnest : ∀ pieces more, Agrees (.error error) (nest ⟨piece, pieces⟩ more) := by
    intro pieces more
    have hc : Agrees (.error error) (Chain.piece ⟨piece, pieces⟩) := agrees_chain_error pieces h
    cases more with
    | nil => exact hc
    | cons next more => exact agrees_join_error hc next.1 _
  unfold Cut.cons
  split
  · exact hnest _ _
  · exact hnest _ _

/-- A link that its left side suits. -/
theorem agrees_join {left : Tree} {piece piece' : Piece} {result : Except ReadError Tree}
    {link : Link} {f : Tree → Tree} (hl : Agrees (.ok left) piece) (hr : Agrees result piece')
    (hs : (⟨.operator link.val, some left⟩ : Mark).Sound)
    (hf : ∀ right, link.tree? left right = some (f right)) :
    Agrees (do return f (← result)) (piece.join link piece') := by
  rw [← hl.1] at hs
  cases result with
  | ok right =>
    refine ⟨by simp [Piece.join, hl.1, hr.1, hf], ?_⟩
    exact sound_append_cons hl.2 hs hr.2
  | error error =>
    refine ⟨by simp [Piece.join, hr.1], ?_⟩
    exact LeftmostFault.append_left hl.2 (LeftmostFault.cons hs hr.2)

/-- A link that its left side does not suit. -/
theorem agrees_join_fault {left : Tree} {piece : Piece} {error : ReadError} {link : Link}
    (hl : Agrees (.ok left) piece) (piece' : Piece)
    (hf : (⟨.operator link.val, some left⟩ : Mark).Fault error)
    (hn : ∀ right, link.tree? left right = none) :
    Agrees (.error error) (piece.join link piece') := by
  rw [← hl.1] at hf
  refine ⟨?_, piece.marks, _, piece'.marks, rfl, hl.2, hf⟩
  cases hr : piece'.tree? <;> simp [Piece.join, hl.1, hr, hn]

/-- What an assignment does with a left side that has a tree. -/
theorem agrees_join_target {left : Tree} {piece piece' : Piece} {result : Except ReadError Tree}
    {link : Link} {f : Char → Tree → Tree} (hl : Agrees (.ok left) piece)
    (hr : Agrees result piece') (hop : link.val = .assign ∨ link.val = .addAssign)
    (hf : ∀ name right, link.tree? (.letter name) right = some (f name right)) :
    Agrees (do return f (← left.target) (← result)) (piece.join link piece') := by
  have hmark : ∀ left, (⟨.operator link.val, left⟩ : Mark).token = .operator .assign ∨
      (⟨.operator link.val, left⟩ : Mark).token = .operator .addAssign := by
    intro left
    rcases hop with h | h
    · exact Or.inl (by rw [h])
    · exact Or.inr (by rw [h])
  by_cases hletter : ∃ name, left = .letter name
  · obtain ⟨name, rfl⟩ := hletter
    refine agrees_join (f := f name) hl hr ⟨?_, fun _ => ⟨name, rfl⟩⟩ (hf name)
    rcases hop with h | h <;> simp [h]
  · have hne : ∀ name, left ≠ .letter name := fun name h => hletter ⟨name, h⟩
    have ht : left.target = .error (.notAssignable left) :=
      Tree.target_eq_error_iff.2 ⟨hne, rfl⟩
    rw [ht]
    refine agrees_join_fault hl piece' (Or.inr ⟨hmark _, left, rfl, hne, rfl⟩) ?_
    intro right
    unfold Link.tree?
    cases left with
    | letter name => exact absurd rfl (hne name)
    | literal _ | binary _ _ _ | assign _ _ | postIncrement _ =>
      rcases hop with h | h <;> rw [h]

/-- What the reader makes of a phrase, on its own and behind a factor, is what its cut says. -/
def AgreesOn (e : Phrase) : Prop :=
  Agrees (e.resultAfter none) e.cut.piece ∧
    ∀ left piece, Agrees (.ok left) piece →
      Agrees (e.resultAfter (some left)) (e.cut.cons piece (.arith .mul)).piece

/-- One more piece and operator before a phrase that the reader reads as its cut says. -/
theorem agrees_cons {tail : Phrase} {result : Except ReadError Tree} {piece : Piece}
    (htail : AgreesOn tail) (h : Agrees result piece) (op : Operator) :
    Agrees
      (do
        let opened ← Reader.opening (← result) op
        return (Reader.unwind opened.1 (← tail.resultAfter opened.2)).1)
      (tail.cut.cons piece op).piece := by
  cases result with
  | error error => exact agrees_cons_error h tail.cut op
  | ok left =>
    have hbind := Reader.opening_bind left op tail
    show Agrees (do
      let opened ← Reader.opening left op
      return (Reader.unwind opened.1 (← tail.resultAfter opened.2)).1) _
    rw [hbind]
    by_cases hmul : op = .arith .mul
    · subst hmul
      exact htail.2 left piece h
    · have hcons : (tail.cut.cons piece op).piece = piece.join ⟨op, hmul⟩ tail.cut.piece := by
        rw [Cut.cons, dif_neg hmul]
        rfl
      rw [hcons]
      rcases op with ⟨⟨⟩⟩ | _ | _
      · exact agrees_join h htail.1 (sound_arith _ _) fun _ => rfl
      · exact agrees_join h htail.1 (sound_arith _ _) fun _ => rfl
      · exact absurd rfl hmul
      · exact agrees_join_target h htail.1 (Or.inl rfl) fun _ _ => rfl
      · exact agrees_join_target h htail.1 (Or.inr rfl) fun _ _ => rfl

/-- Of its first chain a cut uses only the piece. -/
theorem nest_eq_of_piece {chain chain' : Chain} (h : chain.piece = chain'.piece)
    (more : List (Link × Chain)) : nest chain more = nest chain' more := by
  cases more with
  | nil => exact h
  | cons next more => rw [nest, nest, h]

/-- A factor before a piece multiplies it, whatever operator follows. -/
theorem cons_cons_mul (cut : Cut) (piece piece' : Piece) (op : Operator) :
    ((cut.cons piece' op).cons piece (.arith .mul)).piece =
      (cut.cons (piece.times piece') op).piece := by
  by_cases hmul : op = .arith .mul
  · subst hmul
    refine nest_eq_of_piece ?_ cut.more
    rfl
  · simp only [Cut.cons, dif_neg hmul]
    refine nest_eq_of_piece ?_ _
    rfl

theorem agrees_singleton {tree : Tree} {m : Mark} (h : m.Sound) :
    Agrees (.ok tree) ⟨some tree, [m]⟩ :=
  ⟨rfl, by simpa using h⟩

theorem agrees_operand (operand : Operand) :
    Agrees operand.result ⟨operand.tree?, [⟨operand.token, none⟩]⟩ := by
  cases operand with
  | number digits spelled =>
    by_cases hv : Value.natOfDigits digits ≤ Value.largest
    · have ho : Value.ofDigits? digits = some (Int64.ofNat (Value.natOfDigits digits)) := if_pos hv
      have hs : (⟨.number digits, none⟩ : Mark).Sound := by simpa [Mark.Sound] using hv
      rw [Operand.result, ho, Operand.tree?, if_pos hv]
      exact agrees_singleton hs
    · have ho : Value.ofDigits? digits = none := if_neg hv
      rw [Operand.result, ho, Operand.tree?, if_neg hv]
      refine ⟨rfl, [], _, [], rfl, by simp, Or.inl ⟨digits, rfl, ?_, rfl⟩⟩
      omega
  | letter name spelled =>
    refine agrees_singleton (sound_of_token ?_ ?_ ?_) <;> simp [Operand.token]
  | preIncrement name spelled =>
    refine agrees_singleton (sound_of_token ?_ ?_ ?_) <;> simp [Operand.token]
  | postIncrement name spelled =>
    refine agrees_singleton (sound_of_token ?_ ?_ ?_) <;> simp [Operand.token]

/-- Parentheses around a piece change nothing but its tokens. -/
theorem agrees_group {result : Except ReadError Tree} {piece : Piece} (h : Agrees result piece) :
    Agrees result
      ⟨piece.tree?, ⟨.openParen, none⟩ :: (piece.marks ++ [⟨.closeParen, none⟩])⟩ := by
  have hopen : (⟨.openParen, none⟩ : Mark).Sound := sound_of_token (by simp) (by simp) (by simp)
  have hclose : (⟨.closeParen, none⟩ : Mark).Sound := sound_of_token (by simp) (by simp) (by simp)
  cases result with
  | ok tree =>
    refine ⟨h.1, ?_⟩
    intro m hm
    simp only [List.mem_cons, List.mem_append, List.not_mem_nil, or_false] at hm
    rcases hm with rfl | hm | rfl
    · exact hopen
    · exact h.2 m hm
    · exact hclose
  | error error => exact ⟨h.1, (h.2.append_right _).cons hopen⟩

end Precedence

mutual

theorem Atom.agrees_result : ∀ a : Atom, Agrees a.result a.piece
  | .operand operand => agrees_operand operand
  | .group inner => agrees_group (Phrase.agreesOn inner).1

/-- By induction on the phrase: its first atom is a piece of its own, or one more factor of the
piece before it. -/
theorem Phrase.agreesOn : ∀ e : Phrase, AgreesOn e
  | .atom head => by
    have hhead := Atom.agrees_result head
    constructor
    · rw [← Phrase.result, Phrase.result_atom]
      exact hhead
    · intro left piece h
      rw [Phrase.resultAfter]
      exact agrees_times h hhead
  | .chain head op tail => by
    have hhead := Atom.agrees_result head
    have htail := Phrase.agreesOn tail
    constructor
    · have h := agrees_cons htail hhead op
      rw [Reader.resultAfter_chain]
      exact h
    · intro left piece h
      have h := agrees_cons htail (agrees_times h hhead) op
      rw [bind_assoc] at h
      rw [Reader.resultAfter_chain, Phrase.cut, cons_cons_mul]
      exact h

end

/-- The reader's result on a phrase is the tree of the phrase or its leftmost fault. -/
theorem Phrase.agrees_result (e : Phrase) : Agrees e.result ⟨e.tree?, e.marks⟩ :=
  (Phrase.agreesOn e).1

/-! ## The marks are the tokens -/

namespace Precedence

theorem marks_chain (first : Piece) (more : List Piece) :
    (Chain.piece ⟨first, more⟩).marks =
      first.marks ++ more.flatMap fun factor => ⟨.operator (.arith .mul), none⟩ :: factor.marks := by
  induction more generalizing first with
  | nil => simp [Chain.piece]
  | cons next more ih =>
    have h : (Chain.piece ⟨first, next :: more⟩).marks = _ := ih (first.times next)
    rw [h, Piece.times]
    simp

theorem map_token_cons (cut : Cut) (piece : Piece) (op : Operator) :
    (cut.cons piece op).piece.marks.map Mark.token =
      piece.marks.map Mark.token ++ .operator op :: cut.piece.marks.map Mark.token := by
  obtain ⟨⟨first, factors⟩, more⟩ := cut
  by_cases hmul : op = .arith .mul
  · subst hmul
    cases more with
    | nil => simp [Cut.cons, Cut.piece, nest, marks_chain]
    | cons next more => simp [Cut.cons, Cut.piece, nest, marks_chain, Piece.join]
  · simp [Cut.cons, dif_neg hmul, Cut.piece, nest, marks_chain, Piece.join]

end Precedence

mutual

theorem Atom.map_token_marks : ∀ a : Atom, a.piece.marks.map Mark.token = a.tokens
  | .operand operand => rfl
  | .group inner => by
    have h := Phrase.map_token_marks inner
    rw [Phrase.marks] at h
    simp [Atom.piece, Atom.tokens, h]

/-- Cutting a phrase loses none of its tokens. -/
theorem Phrase.map_token_marks : ∀ e : Phrase, e.marks.map Mark.token = e.tokens
  | .atom head => Atom.map_token_marks head
  | .chain head op tail => by
    have hh := Atom.map_token_marks head
    have ht := Phrase.map_token_marks tail
    rw [Phrase.marks] at ht
    rw [Phrase.marks, Phrase.cut, map_token_cons, hh, ht, Phrase.tokens]

end

/-- An accepted line has the words of a phrase, and is read as what the phrase stands for.  If every
number of it has a value and every assignment has a variable on its left, the line has the tree of
the phrase.  Otherwise it has the error of the leftmost token for which that fails. -/
theorem result_of_accepted_line {line : String} (h : Validation.check line = .ok ()) :
    (∃ e : Phrase, words line = e.words) ∧
    ∀ e : Phrase, words line = e.words →
      e.marks.map Mark.token = Token.ofLine line ∧
      ((∀ m ∈ e.marks, m.Sound) →
        ∃ tree, e.tree? = some tree ∧ (Tree.ofLine line).result = .ok tree) ∧
      ((∃ m ∈ e.marks, ¬ m.Sound) →
        ∃ error, LeftmostFault e.marks error ∧ (Tree.ofLine line).result = .error error) := by
  refine ⟨(Validation.check_eq_ok_iff.1 h).1, fun e he => ?_⟩
  have ht := Phrase.words_eq_iff.1 he
  have hr : (Tree.ofLine line).result = e.result := by rw [Tree.ofLine, ht, e.result_read]
  have ha := e.agrees_result
  refine ⟨by rw [e.map_token_marks, ht], ?_, ?_⟩
  · intro hs
    cases hresult : e.result with
    | ok tree =>
      rw [hresult] at ha
      exact ⟨tree, ha.1, by rw [hr, hresult]⟩
    | error error =>
      rw [hresult] at ha
      obtain ⟨m, hm, hf⟩ := ha.2.exists_not_sound
      exact absurd (hs m hm) hf
  · rintro ⟨m, hm, hs⟩
    cases hresult : e.result with
    | ok tree =>
      rw [hresult] at ha
      exact absurd (ha.2 m hm) hs
    | error error =>
      rw [hresult] at ha
      exact ⟨error, ha.2, by rw [hr, hresult]⟩

/-- In `x = 1 + 2 = 3` the second `=` has a number on its left, and that is what the reader finds. -/
theorem result_of_number_as_target :
    Validation.check "x = 1 + 2 = 3" = .ok () ∧
    ∃ e : Phrase, words "x = 1 + 2 = 3" = e.words ∧
      ∃ error, LeftmostFault e.marks error ∧
        (Tree.ofLine "x = 1 + 2 = 3").result = .error error := by
  have h : Validation.check "x = 1 + 2 = 3" = .ok () := by decide +kernel
  let e : Phrase := .chain (.operand (.letter 'x' (by decide))) .assign <|
    .chain (.operand (.number "1" (Shape.isNumber_iff.1 (by decide +kernel)))) (.arith .add) <|
    .chain (.operand (.number "2" (Shape.isNumber_iff.1 (by decide +kernel)))) .assign <|
    .atom (.operand (.number "3" (Shape.isNumber_iff.1 (by decide +kernel))))
  have hw : words "x = 1 + 2 = 3" = e.words := by decide +kernel
  refine ⟨h, e, hw, ((result_of_accepted_line h).2 e hw).2.2 ?_⟩
  refine ⟨⟨.operator .assign, some (.literal 2)⟩, ?_, ?_⟩
  · have hm : e.marks[5]? = some ⟨.operator .assign, some (.literal 2)⟩ := by rfl
    exact List.mem_of_getElem? hm
  · intro hs
    obtain ⟨name, hn⟩ := hs.2 (Or.inl rfl)
    cases hn

end LetterCalc
