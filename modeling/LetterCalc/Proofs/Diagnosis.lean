import LetterCalc.Proofs.Paraphrase

/-!
# Where a line goes wrong

A line whose operands and operators do not take turns is rejected at one of its tokens.  That token
is the first at which the line is lost: up to it the line could still have been continued to an
accepted one, and with it no more.

Validation looks at the token before as well as at what is due.  The two always agree
(`endsOperand previous = !expecting`), so what is due says everything, and validation could do
without the token before (`takeTurns_eq_takeTurnsUnguarded`).  `turn` gives what is due after a
token, and nothing if the token cannot stand.  This takes no account of how many groups are
open, but it need not: as long as no group is closed that is not open, the groups can be closed in
the end, after an operand if one is due (`exists_completed`).  Conversely a token that cannot stand
is rejected whatever follows it (`not_viable_of_turn`).
-/

namespace LetterCalc

namespace Validation

/-! ## Turns -/

/-- Whether an operand is due after a token, given whether one is due before it.  There is no answer
if the token cannot stand. -/
def turn (expecting : Bool) : Token → Option Bool
  | .operator _ => if expecting then none else some true
  | .openParen => if expecting then some true else none
  | .closeParen => if expecting then none else some false
  | .other _ => none
  | .number _ | .letter _ | .preIncrement _ | .postIncrement _ =>
    if expecting then some false else none

/-- Whether an operand is due after all tokens, if they can all stand. -/
def turns (expecting : Bool) (tokens : List Token) : Option Bool := tokens.foldlM turn expecting

/-- How a token that cannot stand is rejected. -/
def blame (previous : Option Token) (token : Token) : Rejection :=
  match token with
  | .operator _ => .unexpectedOperator previous token
  | .closeParen => .unexpectedCloseParen previous
  | .other _ => .invalidToken token
  | .openParen | .number _ | .letter _ | .preIncrement _ | .postIncrement _ =>
    .unexpectedOperand previous token

variable {previous : Option Token} {expecting due : Bool} {token : Token}
  {tokens before : List Token}

/-- What is due after a token agrees with the token. -/
theorem endsOperand_of_turn (h : turn expecting token = some due) :
    endsOperand (some token) = !due := by
  cases token <;> cases expecting <;> cases h <;> rfl

/-- What ends an operand opens no group. -/
theorem all_openParen_of_endsOperand (h : endsOperand previous = true) :
    previous.all (· = .openParen) = false := by
  cases previous with
  | none => cases h
  | some last => cases last <;> cases h <;> rfl

/-- One turn, where the token before agrees with what is due. -/
theorem takeTurns_cons (h : endsOperand previous = !expecting) (token : Token)
    (tokens : List Token) :
    takeTurns previous expecting (token :: tokens) =
      match turn expecting token with
      | some due => takeTurns (some token) due tokens
      | none => .error (blame previous token) := by
  cases expecting with
  | true =>
    rw [Bool.not_true] at h
    cases token <;> simp [takeTurns, turn, blame, h]
  | false =>
    rw [Bool.not_false] at h
    have hclose := all_openParen_of_endsOperand h
    cases token <;> simp [takeTurns, turn, blame, hclose]

/-- `takeTurns` without its tests on the token before, which here is only named in rejections. -/
def takeTurnsUnguarded (previous : Option Token) (expecting : Bool) :
    List Token → Except Rejection Unit
  | [] => if expecting then .error .danglingOperator else .ok ()
  | token :: tokens =>
    match token with
    | .operator _ =>
      if expecting then .error (.unexpectedOperator previous token)
      else takeTurnsUnguarded (some token) true tokens
    | .closeParen =>
      if expecting then .error (.unexpectedCloseParen previous)
      else takeTurnsUnguarded (some token) expecting tokens
    | .openParen =>
      if !expecting then .error (.unexpectedOperand previous token)
      else takeTurnsUnguarded (some token) expecting tokens
    | .other _ => .error (.invalidToken token)
    | .number _ | .letter _ | .preIncrement _ | .postIncrement _ =>
      if !expecting then .error (.unexpectedOperand previous token)
      else takeTurnsUnguarded (some token) false tokens

/-- `checkTurns` without its tests on the token before. -/
def checkTurnsUnguarded (line : String) : Except Rejection Unit :=
  if Text.isBlank line then .error .empty else takeTurnsUnguarded none true (Token.ofLine line)

theorem takeTurnsUnguarded_cons (previous : Option Token) (expecting : Bool) (token : Token)
    (tokens : List Token) :
    takeTurnsUnguarded previous expecting (token :: tokens) =
      match turn expecting token with
      | some due => takeTurnsUnguarded (some token) due tokens
      | none => .error (blame previous token) := by
  cases expecting <;> cases token <;> rfl

/-- Where the token before agrees with what is due, the tests on it reject nothing more. -/
theorem takeTurns_eq_takeTurnsUnguarded (h : endsOperand previous = !expecting)
    (tokens : List Token) :
    takeTurns previous expecting tokens = takeTurnsUnguarded previous expecting tokens := by
  induction tokens generalizing previous expecting with
  | nil => rfl
  | cons token tokens ih =>
    rw [takeTurns_cons h, takeTurnsUnguarded_cons]
    cases hturn : turn expecting token with
    | none => rfl
    | some due => exact ih (endsOperand_of_turn hturn)

/-- The tests on the token before are redundant.  On any line at all, blank, unbalanced or full of
words without a meaning, the check has the same result without them, and it rejects the same token
with the same one before it. -/
theorem checkTurns_eq_checkTurnsUnguarded (line : String) :
    checkTurns line = checkTurnsUnguarded line := by
  have hstart : endsOperand none = !true := rfl
  rw [checkTurns, checkTurnsUnguarded, takeTurns_eq_takeTurnsUnguarded hstart]

/-- Turns are taken from left to right: behind tokens that can stand, only the last of them and what
is due matter. -/
theorem takeTurns_append (h : endsOperand previous = !expecting)
    (hbefore : turns expecting before = some due) :
    endsOperand (before.getLast?.or previous) = !due ∧
      ∀ rest, takeTurns previous expecting (before ++ rest) =
        takeTurns (before.getLast?.or previous) due rest := by
  induction before generalizing previous expecting with
  | nil =>
    obtain rfl : expecting = due := Option.some.inj hbefore
    exact ⟨h, fun _ => rfl⟩
  | cons token before ih =>
    rw [turns, List.foldlM_cons] at hbefore
    obtain ⟨next, hnext, hbefore⟩ := Option.bind_eq_some_iff.1 hbefore
    obtain ⟨hends, hrest⟩ := ih (endsOperand_of_turn hnext) hbefore
    have hlast : (token :: before).getLast?.or previous = before.getLast?.or (some token) := by
      cases before <;> simp [List.getLast?_cons]
    rw [hlast]
    refine ⟨hends, fun rest => ?_⟩
    rw [List.cons_append, takeTurns_cons h, hnext]
    exact hrest rest

/-- Either all tokens can stand, or there is a first one that cannot. -/
theorem turns_cases (expecting : Bool) (tokens : List Token) :
    (∃ due, turns expecting tokens = some due) ∨
    ∃ before token after due, tokens = before ++ token :: after ∧
      turns expecting before = some due ∧ turn due token = none := by
  induction tokens generalizing expecting with
  | nil => exact Or.inl ⟨expecting, rfl⟩
  | cons token tokens ih =>
    have hcons : ∀ {next due : Bool} {before : List Token}, turn expecting token = some next →
        turns next before = some due → turns expecting (token :: before) = some due := by
      intro next due before hnext hbefore
      rw [turns, List.foldlM_cons, hnext]
      exact hbefore
    cases hnext : turn expecting token with
    | none => exact Or.inr ⟨[], token, tokens, expecting, rfl, rfl, hnext⟩
    | some next =>
      obtain ⟨due, hdue⟩ | ⟨before, bad, after, due, rfl, hbefore, hbad⟩ := ih next
      · exact Or.inl ⟨due, hcons hnext hdue⟩
      · exact Or.inr ⟨token :: before, bad, after, due, rfl, hcons hnext hbefore, hbad⟩

/-! ## Lines that can be continued -/

/-- The tokens can be continued to those of an accepted line. -/
def Viable (tokens : List Token) : Prop :=
  ∃ line, check line = .ok () ∧ tokens <+: Token.ofLine line

/-- A token that cannot stand is rejected, whatever follows it. -/
theorem not_viable_of_turn (hbefore : turns true before = some due) (h : turn due token = none) :
    ¬ Viable (before ++ [token]) := by
  rintro ⟨line, hline, more, htokens⟩
  have hturns := (checkTurns_eq_ok_iff.1 (check_eq_ok_iff_checks.1 hline).2.2.2).2
  have hstart : endsOperand none = !true := rfl
  obtain ⟨hends, hrest⟩ := takeTurns_append hstart hbefore
  rw [← htokens, List.append_assoc, List.singleton_append, hrest, takeTurns_cons hends, h] at hturns
  cases hturns

/-- Where balanced tokens are cut, a number of groups is open, and the count goes on from there. -/
theorem exists_depth_of_isBalanced {depth : Nat} {after : List Token}
    (h : isBalanced depth (before ++ after) = true) :
    ∃ depth', ∀ more, isBalanced depth (before ++ more) = isBalanced depth' more := by
  induction before generalizing depth with
  | nil => exact ⟨depth, fun _ => rfl⟩
  | cons token before ih =>
    cases token with
    | openParen => exact ih h
    | closeParen =>
      cases depth with
      | zero => cases h
      | succ depth => exact ih h
    | number _ | letter _ | preIncrement _ | postIncrement _ | operator _ | other _ => exact ih h

/-- The words that complete a line, given whether an operand is due and how many groups are open. -/
def completion (expecting : Bool) (depth : Nat) : List String :=
  (if expecting then ["1"] else []) ++ List.replicate depth ")"

theorem map_ofText_completion (expecting : Bool) (depth : Nat) :
    (completion expecting depth).map Token.ofText =
      (if expecting then [.number "1"] else []) ++ List.replicate depth .closeParen := by
  have hone : Token.ofText "1" = .number "1" := Operand.one.ofText_text
  cases expecting <;> simp [completion, hone, Token.ofText_closeParen]

theorem isBalanced_replicate (depth : Nat) :
    isBalanced depth (List.replicate depth .closeParen) = true := by
  induction depth with
  | zero => rfl
  | succ depth ih => exact ih

theorem turns_replicate (depth : Nat) :
    turns false (List.replicate depth .closeParen) = some false := by
  induction depth with
  | zero => rfl
  | succ depth ih => exact ih

theorem isBalanced_completion (expecting : Bool) (depth : Nat) :
    isBalanced depth ((completion expecting depth).map Token.ofText) = true := by
  rw [map_ofText_completion]
  cases expecting with
  | true => exact isBalanced_replicate depth
  | false => exact isBalanced_replicate depth

theorem turns_completion (expecting : Bool) (depth : Nat) :
    turns expecting ((completion expecting depth).map Token.ofText) = some false := by
  rw [map_ofText_completion]
  cases expecting with
  | true => exact turns_replicate depth
  | false => exact turns_replicate depth

/-- The first two tokens say whether something is assigned. -/
theorem isAssignment_iff : isAssignment tokens = true ↔
    ∃ name op rest, (op = .assign ∨ op = .addAssign) ∧
      tokens = .letter name :: .operator op :: rest := by
  constructor
  · intro h
    unfold isAssignment at h
    split at h
    · exact ⟨_, .assign, _, Or.inl rfl, rfl⟩
    · exact ⟨_, .addAssign, _, Or.inr rfl, rfl⟩
    · cases h
  · rintro ⟨name, op, rest, rfl | rfl, rfl⟩
    · rfl
    · rfl

theorem isAssignment_append (h : isAssignment before = true) (more : List Token) :
    isAssignment (before ++ more) = true := by
  obtain ⟨name, op, rest, hop, rfl⟩ := isAssignment_iff.1 h
  exact isAssignment_iff.2 ⟨name, op, rest ++ more, hop, rfl⟩

/-- A variable and an assignment operator can stand at the start. -/
theorem isAssignment_of_turn {after : List Token}
    (h : isAssignment (before ++ token :: after) = true)
    (hbefore : turns true before = some due) (htoken : turn due token = none) :
    isAssignment before = true ∧ 2 ≤ before.length := by
  obtain ⟨name, op, rest, hop, htokens⟩ := isAssignment_iff.1 h
  rcases before with _ | ⟨first, _ | ⟨second, before⟩⟩
  · obtain ⟨rfl, -⟩ := List.cons.inj htokens
    obtain rfl : true = due := Option.some.inj hbefore
    cases htoken
  · obtain ⟨rfl, hrest⟩ := List.cons.inj htokens
    obtain ⟨rfl, -⟩ := List.cons.inj hrest
    obtain rfl : false = due := Option.some.inj hbefore
    cases htoken
  · obtain ⟨rfl, hrest⟩ := List.cons.inj htokens
    obtain ⟨rfl, -⟩ := List.cons.inj hrest
    exact ⟨isAssignment_iff.2 ⟨name, op, before, hop, rfl⟩, Nat.le_add_left 2 _⟩

/-- An assignment that has gone right so far can be completed. -/
theorem exists_completed {ws : List String} {after : List Token}
    (hassign : isAssignment (ws.map Token.ofText) = true)
    (hbalance : isBalanced 0 (ws.map Token.ofText ++ after) = true)
    (hturns : turns true (ws.map Token.ofText) = some due) :
    ∃ line depth, check line = .ok () ∧
      Token.ofLine line = ws.map Token.ofText ++ (completion due depth).map Token.ofText := by
  obtain ⟨depth, hdepth⟩ := exists_depth_of_isBalanced hbalance
  have hbalanced : isBalanced 0 ((ws ++ completion due depth).map Token.ofText) = true := by
    rw [List.map_append, hdepth, isBalanced_completion]
  have htaken : takeTurns none true ((ws ++ completion due depth).map Token.ofText) = .ok () := by
    have hstart : endsOperand none = !true := rfl
    have hall : turns true ((ws ++ completion due depth).map Token.ofText) = some false := by
      rw [List.map_append, turns, List.foldlM_append]
      rw [turns] at hturns
      rw [hturns]
      exact turns_completion due depth
    have h := (takeTurns_append hstart hall).2 []
    rwa [List.append_nil] at h
  obtain ⟨e, he⟩ := exists_phrase_iff.1 ⟨hbalanced, htaken⟩
  obtain ⟨line, hline⟩ := e.exists_line
  have htokens : Token.ofLine line =
      ws.map Token.ofText ++ (completion due depth).map Token.ofText := by
    rw [hline, ← he, List.map_append]
  refine ⟨line, depth, check_eq_ok_iff.2 ⟨⟨e, Phrase.words_eq_iff.2 hline⟩, Or.inr ?_⟩, htokens⟩
  rw [htokens]
  exact isAssignment_append hassign _

/-! ## The first token that is lost -/

/-- A line that assigns something is not blank. -/
theorem isBlank_of_isAssignment {line : String} (h : isAssignment (Token.ofLine line) = true) :
    Text.isBlank line = false := by
  obtain ⟨name, op, rest, -, htokens⟩ := isAssignment_iff.1 h
  obtain ⟨word, _, hwords, hword, -⟩ := List.map_eq_cons_iff.1 htokens
  have hoperand : (Token.ofText word).isOperand = true := by rw [hword]; rfl
  obtain ⟨operand, ho⟩ := Token.exists_operand hoperand
  obtain ⟨c, hc, hvisible⟩ := operand.exists_visible
  rw [ho, Token.text_ofText] at hc
  have hmem : word ∈ wordsOf line.toList := by
    rw [← words_eq_wordsOf, hwords]
    exact List.mem_cons_self
  refine Bool.eq_false_iff.2 fun hblank => ?_
  cases hvisible.symm.trans (List.all_eq_true.1 hblank c (mem_of_mem_wordsOf hmem hc))

/-- If nothing else is wrong with an assignment, its turns decide. -/
theorem check_eq_takeTurns {line : String} (halphabet : checkAlphabet line = .ok ())
    (hbalance : checkBalance line = .ok ()) (hassign : isAssignment (Token.ofLine line) = true) :
    check line = takeTurns none true (Token.ofLine line) := by
  have htarget : checkTarget line = .ok () := checkTarget_eq_ok_iff.2 (Or.inr hassign)
  have hturns : checkTurns line = takeTurns none true (Token.ofLine line) := by
    rw [checkTurns, isBlank_of_isAssignment hassign]
    rfl
  rw [check, halphabet, hbalance, htarget, ← hturns]
  rfl

/-- The token at place `i` is the first at which the tokens are lost. -/
structure LostAt (tokens : List Token) (i : Nat) (token : Token) : Prop where
  /-- The variable and the assignment operator stand before it. -/
  two_le : 2 ≤ i
  /-- It is the token that is named. -/
  getElem?_eq : tokens[i]? = some token
  /-- The tokens before it can be continued to an accepted line. -/
  viable : Viable (tokens.take i)
  /-- Together with it they cannot. -/
  not_viable : ¬ Viable (tokens.take (i + 1))

/-- The tokens are not accepted as they are, but they are if more of them follow. -/
structure CutShort (tokens : List Token) : Prop where
  /-- No line with these tokens is accepted. -/
  rejected : ∀ line, Token.ofLine line = tokens → check line ≠ .ok ()
  /-- Some line that goes on behind them is. -/
  continued : ∃ line, check line = .ok () ∧ tokens <+: Token.ofLine line ∧
    tokens ≠ Token.ofLine line

/-- The first token that cannot stand is the first at which an assignment is lost. -/
theorem lostAt_of_turn {line : String} {after : List Token}
    (hbalance : checkBalance line = .ok ()) (hassign : isAssignment (Token.ofLine line) = true)
    (hline : Token.ofLine line = before ++ token :: after)
    (hbefore : turns true before = some due) (htoken : turn due token = none) :
    LostAt (Token.ofLine line) before.length token := by
  have hbalanced := checkBalance_eq_ok_iff.1 hbalance
  obtain ⟨ws, _, -, hws, -⟩ := List.map_eq_append_iff.1 hline
  rw [hline] at hbalanced hassign ⊢
  obtain ⟨hstart, htwo⟩ := isAssignment_of_turn hassign hbefore htoken
  have htake : (before ++ token :: after).take (before.length + 1) = before ++ [token] := by
    rw [List.append_cons]
    exact List.take_left' (by simp)
  refine ⟨htwo, by simp, ?_, ?_⟩
  · rw [List.take_left]
    subst hws
    obtain ⟨line', depth, hcheck, htokens⟩ := exists_completed hstart hbalanced hbefore
    exact ⟨line', hcheck, htokens ▸ List.prefix_append _ _⟩
  · rw [htake]
    exact not_viable_of_turn hbefore htoken

/-- What becomes of a line that has passed the first three checks. -/
theorem check_cases {line : String} (halphabet : checkAlphabet line = .ok ())
    (hbalance : checkBalance line = .ok ()) (htarget : checkTarget line = .ok ()) :
    check line = .ok () ∨
    (check line = .error .danglingOperator ∧ CutShort (Token.ofLine line)) ∨
    ∃ i previous token, check line = .error (blame (some previous) token) ∧
      (Token.ofLine line)[i - 1]? = some previous ∧ LostAt (Token.ofLine line) i token := by
  obtain hincrement | hassign := checkTarget_eq_ok_iff.1 htarget
  · obtain ⟨name, spelled, hwords | hwords⟩ := exists_phrase_of_isIncrement hincrement
    · exact Or.inl (check_eq_ok_iff.2 ⟨⟨_, hwords⟩, Or.inl hincrement⟩)
    · exact Or.inl (check_eq_ok_iff.2 ⟨⟨_, hwords⟩, Or.inl hincrement⟩)
  have hcheck := check_eq_takeTurns halphabet hbalance hassign
  have hstart : endsOperand none = !true := rfl
  obtain ⟨due, hdue⟩ | ⟨before, token, after, due, hline, hbefore, htoken⟩ :=
    turns_cases true (Token.ofLine line)
  · have hend := (takeTurns_append hstart hdue).2 []
    rw [List.append_nil, ← hcheck] at hend
    cases due with
    | false => exact Or.inl hend
    | true =>
      have hbalanced := checkBalance_eq_ok_iff.1 hbalance
      rw [← List.append_nil (Token.ofLine line)] at hbalanced
      obtain ⟨line', depth, hok, htokens⟩ := exists_completed hassign hbalanced hdue
      refine Or.inr (Or.inl ⟨hend, ?_, line', hok, htokens ▸ List.prefix_append _ _, ?_⟩)
      · intro other heq haccepted
        have hturns := (checkTurns_eq_ok_iff.1 (check_eq_ok_iff_checks.1 haccepted).2.2.2).2
        rw [heq, ← hcheck, hend] at hturns
        cases hturns
      · rw [htokens, Token.ofLine, map_ofText_completion]
        simp
  · have hlost := lostAt_of_turn hbalance hassign hline hbefore htoken
    have hne : before ≠ [] :=
      List.ne_nil_of_length_pos (Nat.lt_of_lt_of_le (by decide) hlost.two_le)
    obtain ⟨front, previous, rfl⟩ := (List.eq_nil_or_concat' before).resolve_left hne
    obtain ⟨hends, hrest⟩ := takeTurns_append hstart hbefore
    refine Or.inr (Or.inr ⟨_, previous, token, ?_, ?_, hlost⟩)
    · rw [hcheck, hline, hrest, takeTurns_cons hends, htoken]
      simp
    · rw [hline]
      simp

/-- A rejected token is named, with the token before it. -/
theorem of_blame_eq {rejection : Rejection} (h : blame previous token = rejection) :
    match rejection with
    | .unexpectedOperator previous' token' => previous' = previous ∧ token' = token
    | .unexpectedOperand previous' token' => previous' = previous ∧ token' = token
    | .unexpectedCloseParen previous' => previous' = previous ∧ token = .closeParen
    | .invalidToken token' => token' = token
    | .empty | .invalidCharacter _ | .unbalancedParens | .notAnAssignment
    | .danglingOperator => False := by
  subst h
  cases token <;> simp [blame]

/-- A line that passes the first three checks and is then rejected is rejected where it goes wrong.
The token that is named is the first at which the line is lost, and the one named before it stands
before it.  A line that ends with an operator is not lost: it is not accepted as it is, but it can
be continued.  No such line counts as empty. -/
theorem rejection_names_first_lost_token {line : String} (halphabet : checkAlphabet line = .ok ())
    (hbalance : checkBalance line = .ok ()) (htarget : checkTarget line = .ok ()) :
    (∀ previous token, check line = .error (.unexpectedOperator previous token) ∨
        check line = .error (.unexpectedOperand previous token) →
      ∃ i before, LostAt (Token.ofLine line) i token ∧ previous = some before ∧
        (Token.ofLine line)[i - 1]? = some before) ∧
    (∀ previous, check line = .error (.unexpectedCloseParen previous) →
      ∃ i before, LostAt (Token.ofLine line) i .closeParen ∧ previous = some before ∧
        (Token.ofLine line)[i - 1]? = some before) ∧
    (∀ token, check line = .error (.invalidToken token) →
      ∃ i, LostAt (Token.ofLine line) i token) ∧
    (check line = .error .danglingOperator → CutShort (Token.ofLine line)) ∧
    check line ≠ .error .empty := by
  obtain hok | ⟨hdangling, hcut⟩ | ⟨i, before, token, herror, hbefore, hlost⟩ :=
    check_cases halphabet hbalance htarget
  · simp [hok]
  · simp [hdangling, hcut]
  · have hblame : ∀ rejection, check line = .error rejection →
        blame (some before) token = rejection :=
      fun rejection h => Except.error.inj (herror.symm.trans h)
    refine ⟨?_, ?_, ?_, ?_, ?_⟩
    · rintro previous token' (h | h)
      · obtain ⟨rfl, rfl⟩ := of_blame_eq (hblame _ h)
        exact ⟨i, before, hlost, rfl, hbefore⟩
      · obtain ⟨rfl, rfl⟩ := of_blame_eq (hblame _ h)
        exact ⟨i, before, hlost, rfl, hbefore⟩
    · intro previous h
      obtain ⟨rfl, rfl⟩ := of_blame_eq (hblame _ h)
      exact ⟨i, before, hlost, rfl, hbefore⟩
    · intro token' h
      have htoken : token' = token := of_blame_eq (hblame _ h)
      exact ⟨i, htoken ▸ hlost⟩
    · exact fun h => (of_blame_eq (hblame _ h)).elim
    · exact fun h => of_blame_eq (hblame _ h)

/-- In `x = (1 + ) * 2` the group ends where an operand is due: the line could be continued behind
`x = (1 +`, but not with the parenthesis. -/
theorem first_lost_token_closes_group :
    check "x = (1 + ) * 2" = .error (.unexpectedCloseParen (some (.operator (.arith .add)))) ∧
    ∃ i, LostAt (Token.ofLine "x = (1 + ) * 2") i .closeParen ∧
      (Token.ofLine "x = (1 + ) * 2")[i - 1]? = some (.operator (.arith .add)) := by
  have hcheck : check "x = (1 + ) * 2" =
      .error (.unexpectedCloseParen (some (.operator (.arith .add)))) := by decide +kernel
  have halphabet : checkAlphabet "x = (1 + ) * 2" = .ok () := by decide +kernel
  have hbalance : checkBalance "x = (1 + ) * 2" = .ok () := by decide +kernel
  have htarget : checkTarget "x = (1 + ) * 2" = .ok () := by decide +kernel
  obtain ⟨-, hclose, -⟩ := rejection_names_first_lost_token halphabet hbalance htarget
  obtain ⟨i, before, hlost, hprevious, hbefore⟩ := hclose _ hcheck
  obtain rfl := Option.some.inj hprevious
  exact ⟨hcheck, i, hlost, hbefore⟩

end Validation

end LetterCalc
