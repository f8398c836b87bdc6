import LetterCalc.Proofs.Reading

/-!
# What the reader consumes

The reader can be given any words at all, and it need not reach the last of them.  Its answer is
decided by the words it has consumed: whatever stands behind them could be replaced, and the reader
would give the same answer and leave the replacement unread.

Reading ends in one of two ways (`read_cases`).  Either the tokens run out, and then nothing is left
and the only possible error is that they did.  Or one token decides (`StopsAt`): it is dropped with
the expression complete, which happens to no operator, or it is refused.  What a token does to the
reader depends on the state and the token alone, so nobody looks at the tokens behind the deciding
one.
-/

namespace LetterCalc

namespace Reader

/-! ## One token -/

/-- Only a token that is no operator completes an expression. -/
theorem ne_operator_of_step_stop {state : State} {token : Token} {tree : Tree}
    (h : state.step token = .stop tree) (op : Operator) : token ≠ .operator op := by
  rintro rfl
  cases state with
  | operand stack factor => cases h
  | operator stack left product =>
    rcases op with ⟨⟨⟩⟩ | _ | _
    · cases h
    · cases h
    · cases h
    · cases left <;> cases h
    · cases left <;> cases h

/-- A token is never refused because the tokens have run out. -/
theorem ne_unexpectedEnd_of_step_fail {state : State} {token : Token} {error : ReadError}
    (h : state.step token = .fail error) : error ≠ .unexpectedEnd := by
  rintro rfl
  cases state with
  | operand stack factor =>
    replace h : stepOperand stack factor token = .fail .unexpectedEnd := h
    unfold stepOperand at h
    split at h
    · split at h <;> cases h
    all_goals cases h
  | operator stack left product =>
    replace h : stepOperator stack left token = .fail .unexpectedEnd := h
    unfold stepOperator stepDrop at h
    split at h
    · cases h
    · cases h
    all_goals split at h <;> cases h

section Step

variable {state next : State} {token : Token}

theorem read_cons_use (h : state.step token = .use next) (tokens : List Token) :
    read state (token :: tokens) = read next tokens := by
  simp only [read, h]

theorem read_cons_drop (h : state.step token = .drop next) (tokens : List Token) :
    read state (token :: tokens) =
      { read next tokens with dropped := token :: (read next tokens).dropped } := by
  simp only [read, h]

theorem read_cons_stop {tree : Tree} (h : state.step token = .stop tree) (tokens : List Token) :
    read state (token :: tokens) = ⟨.ok tree, tokens, [token], false⟩ := by
  simp only [read, h]

theorem read_cons_fail {error : ReadError} (h : state.step token = .fail error)
    (tokens : List Token) : read state (token :: tokens) = ⟨.error error, tokens, [], false⟩ := by
  simp only [read, h]

end Step

/-! ## How reading ends -/

/-- Reading stops at a token, whatever follows it. -/
structure StopsAt (state : State) (before : List Token) (last : Token) (reading : Reading) :
    Prop where
  /-- The tokens behind have no part in the answer. -/
  read_eq : ∀ more, read state (before ++ last :: more) = { reading with rest := more }
  /-- No operator completes an expression. -/
  ne_operator : ∀ tree, reading.result = .ok tree → ∀ op, last ≠ .operator op
  /-- The reader has not stopped for want of a token. -/
  ne_unexpectedEnd : reading.result ≠ .error .unexpectedEnd
  /-- The reader has not asked for a further token. -/
  overran : reading.overran = false

namespace StopsAt

variable {state next : State} {token last : Token} {before : List Token} {reading : Reading}

theorem stop {tree : Tree} (h : state.step token = .stop tree) (rest : List Token) :
    StopsAt state [] token ⟨.ok tree, rest, [token], false⟩ where
  read_eq more := read_cons_stop h more
  ne_operator _ _ := ne_operator_of_step_stop h
  ne_unexpectedEnd := nofun
  overran := rfl

theorem fail {error : ReadError} (h : state.step token = .fail error) (rest : List Token) :
    StopsAt state [] token ⟨.error error, rest, [], false⟩ where
  read_eq more := read_cons_fail h more
  ne_operator := nofun
  ne_unexpectedEnd := by
    rintro ⟨⟩
    exact ne_unexpectedEnd_of_step_fail h rfl
  overran := rfl

theorem use (h : state.step token = .use next) (hs : StopsAt next before last reading) :
    StopsAt state (token :: before) last reading where
  read_eq more := by rw [List.cons_append, read_cons_use h, hs.read_eq more]
  ne_operator := hs.ne_operator
  ne_unexpectedEnd := hs.ne_unexpectedEnd
  overran := hs.overran

theorem drop (h : state.step token = .drop next) (hs : StopsAt next before last reading) :
    StopsAt state (token :: before) last
      { reading with dropped := token :: reading.dropped } where
  read_eq more := by rw [List.cons_append, read_cons_drop h, hs.read_eq more]
  ne_operator := hs.ne_operator
  ne_unexpectedEnd := hs.ne_unexpectedEnd
  overran := hs.overran

end StopsAt

/-- Reading goes on to the end of the tokens, or it stops at one of them. -/
theorem read_cases (state : State) (tokens : List Token) :
    ((read state tokens).rest = [] ∧
      ∀ error, (read state tokens).result = .error error → error = .unexpectedEnd) ∨
    ∃ before last, tokens = before ++ last :: (read state tokens).rest ∧
      StopsAt state before last (read state tokens) := by
  induction tokens generalizing state with
  | nil =>
    refine Or.inl ?_
    cases state with
    | operand stack factor => exact ⟨rfl, fun error h => (Except.error.inj h).symm⟩
    | operator stack left product => exact ⟨rfl, nofun⟩
  | cons token tokens ih =>
    cases h : state.step token with
    | use next =>
      rw [read_cons_use h]
      obtain hend | ⟨before, last, htokens, hstops⟩ := ih next
      · exact Or.inl hend
      · exact Or.inr ⟨token :: before, last, congrArg (token :: ·) htokens, hstops.use h⟩
    | drop next =>
      rw [read_cons_drop h]
      obtain hend | ⟨before, last, htokens, hstops⟩ := ih next
      · exact Or.inl hend
      · exact Or.inr ⟨token :: before, last, congrArg (token :: ·) htokens, hstops.drop h⟩
    | stop tree =>
      rw [read_cons_stop h]
      exact Or.inr ⟨[], token, rfl, .stop h tokens⟩
    | fail error =>
      rw [read_cons_fail h]
      exact Or.inr ⟨[], token, rfl, .fail h tokens⟩

end Reader

/-! ## Words -/

namespace Tree

/-- What the reader answers to a list of words, given to it on a fresh cursor. -/
def answer (ws : List String) : Except ReadError Tree := (readFrom (Cursor.ofList ws)).1.result

/-- How many words the reader has consumed when it answers. -/
def consumed (ws : List String) : Nat := (readFrom (Cursor.ofList ws)).2.view.length

/-- The words that the reader leaves to the cursor. -/
def unread (ws : List String) : List String := (readFrom (Cursor.ofList ws)).2.pending

theorem answer_eq (ws : List String) : answer ws = (read (ws.map Token.ofText)).result := rfl

/-- The cursor ends up behind the words that the reader has reached.  It may have been asked for one
more when there was none. -/
theorem consumed_append (before after : List String)
    (hrest : (read ((before ++ after).map Token.ofText)).rest = after.map Token.ofText)
    (hasked : after = [] ∨ (read ((before ++ after).map Token.ofText)).overran = false) :
    consumed (before ++ after) = before.length ∧ unread (before ++ after) = after := by
  obtain ⟨n, hn, hcursor⟩ : ∃ n, (n = before.length ∨ after = [] ∧ before.length ≤ n) ∧
      (readFrom (Cursor.ofList (before ++ after))).2 =
        (Cursor.ofList (before ++ after)).advance n := by
    refine ⟨_, ?_, rfl⟩
    simp only [Cursor.pending_ofList, hrest, List.length_map, List.length_append]
    rcases hasked with h | h
    · exact Or.inr ⟨h, by omega⟩
    · rw [h, Bool.toNat_false]
      exact Or.inl (by omega)
  have hcut : (before ++ after).take n = before ∧ (before ++ after).drop n = after := by
    rcases hn with rfl | ⟨rfl, hle⟩
    · exact ⟨List.take_left, List.drop_left⟩
    · rw [List.append_nil]
      exact ⟨List.take_of_length_le hle, List.drop_eq_nil_of_le hle⟩
  rw [consumed, unread, hcursor, Cursor.view_advance, Cursor.pending_advance, Cursor.stock_ofList,
    Cursor.pending_ofList, Cursor.ofList, Nat.zero_add, hcut.1, hcut.2]
  exact ⟨rfl, rfl⟩

/-- Either the reader consumes all words, or it stops at one of them and answers the same whatever
follows that word. -/
theorem answer_cases (ws : List String) :
    (consumed ws = ws.length ∧ unread ws = [] ∧
      ∀ error, answer ws = .error error → error = .unexpectedEnd) ∨
    ∃ before last after, ws = before ++ last :: after ∧ consumed ws = before.length + 1 ∧
      unread ws = after ∧ answer ws ≠ .error .unexpectedEnd ∧
      (∀ tree, answer ws = .ok tree → Operator.ofText? last = none) ∧
      ∀ more, answer (before ++ last :: more) = answer ws ∧
        unread (before ++ last :: more) = more := by
  obtain ⟨hrest, herror⟩ | ⟨_, _, htokens, hstops⟩ :=
    Reader.read_cases (.operand [] none) (ws.map Token.ofText)
  · have hall := consumed_append ws [] (by rw [List.append_nil]; exact hrest) (Or.inl rfl)
    rw [List.append_nil] at hall
    exact Or.inl ⟨hall.1, hall.2, herror⟩
  -- The tokens are those of the words one by one, so the deciding token is that of a word.
  · obtain ⟨before, _, rfl, rfl, hrest⟩ := List.map_eq_append_iff.1 htokens
    obtain ⟨last, after, rfl, rfl, -⟩ := List.map_eq_cons_iff.1 hrest
    have hread : ∀ more, read ((before ++ last :: more).map Token.ofText) =
        { read ((before ++ last :: after).map Token.ofText) with
          rest := more.map Token.ofText } := by
      intro more
      rw [List.map_append, List.map_cons]
      exact hstops.read_eq (more.map Token.ofText)
    have hconsumed : ∀ more, consumed (before ++ last :: more) = before.length + 1 ∧
        unread (before ++ last :: more) = more := by
      intro more
      have h := consumed_append (before ++ [last]) more
      rw [← List.append_cons, hread more, List.length_append] at h
      exact h rfl (Or.inr hstops.overran)
    refine Or.inr ⟨before, last, after, rfl, (hconsumed after).1, (hconsumed after).2,
      hstops.ne_unexpectedEnd, fun tree htree => ?_, fun more => ⟨?_, (hconsumed more).2⟩⟩
    · refine Option.eq_none_iff_forall_ne_some.2 fun op hop => hstops.ne_operator tree htree op ?_
      rw [← Operator.symbol_of_ofText? hop, Token.ofText_operator]
    · rw [answer_eq, answer_eq, hread more]

/-- The answer to a list of words, whatever they are, depends only on those that the reader has
consumed.  It misses a word only if it has consumed all there are.  If it has completed a tree and
words are left, the last one consumed is no operator.  In that case, and whenever a word is refused,
any words at all could stand in place of those left: the answer would be the same, and the reader
would leave them all. -/
theorem answer_decided_by_consumed (ws : List String) :
    ws.take (consumed ws) ++ unread ws = ws ∧
    (answer ws = .error .unexpectedEnd → consumed ws = ws.length) ∧
    (∀ tree, answer ws = .ok tree → consumed ws < ws.length →
      ∃ word, 0 < consumed ws ∧ ws[consumed ws - 1]? = some word ∧ Operator.ofText? word = none) ∧
    ((∃ tree, answer ws = .ok tree ∧ consumed ws < ws.length) ∨
        (∃ token, answer ws = .error (.notAnOperand token)) ∨
        (∃ digits, answer ws = .error (.literalOutOfRange digits)) ∨
        (∃ left, answer ws = .error (.notAssignable left)) →
      ∀ more : List String, answer (ws.take (consumed ws) ++ more) = answer ws ∧
        unread (ws.take (consumed ws) ++ more) = more) := by
  obtain ⟨hall, hnone, herror⟩ |
    ⟨before, last, after, hws, hconsumed, hunread, hend, hlast, hmore⟩ := answer_cases ws
  · refine ⟨by simp [hall, hnone], fun _ => hall, fun _ _ hlt => ?_, ?_⟩
    · omega
    · rintro (⟨_, _, hlt⟩ | ⟨token, h⟩ | ⟨digits, h⟩ | ⟨left, h⟩)
      · omega
      · cases herror _ h
      · cases herror _ h
      · cases herror _ h
  · have htake : ws.take (consumed ws) = before ++ [last] := by
      rw [hconsumed, hws, List.append_cons]
      exact List.take_left' (by simp)
    refine ⟨?_, fun h => absurd h hend, fun tree htree _ => ⟨last, ?_, ?_, hlast tree htree⟩, ?_⟩
    · rw [htake, hunread, hws, List.append_assoc, List.singleton_append]
    · omega
    · rw [hconsumed, Nat.add_sub_cancel, hws]
      simp
    · intro _ more
      rw [htake, List.append_assoc, List.singleton_append]
      exact hmore more

/-- In `x = 1 ) y` the reader stops at the parenthesis, and it would do so whatever followed. -/
theorem answer_decided_before_stray_word :
    consumed ["x", "=", "1", ")", "y"] = 4 ∧
    answer ["x", "=", "1", ")", "y"] = .ok (.assign 'x' (.literal 1)) ∧
    Operator.ofText? ")" = none ∧
    ∀ more, answer (["x", "=", "1", ")"] ++ more) = .ok (.assign 'x' (.literal 1)) ∧
      unread (["x", "=", "1", ")"] ++ more) = more := by
  have hconsumed : consumed ["x", "=", "1", ")", "y"] = 4 := by decide +kernel
  have hanswer : answer ["x", "=", "1", ")", "y"] = .ok (.assign 'x' (.literal 1)) := by
    decide +kernel
  obtain ⟨-, -, hlast, hmore⟩ := answer_decided_by_consumed ["x", "=", "1", ")", "y"]
  rw [hconsumed, hanswer] at hlast hmore
  obtain ⟨word, -, hword, hnone⟩ := hlast _ rfl (by decide)
  obtain rfl : ")" = word := by simpa using hword
  exact ⟨hconsumed, hanswer, hnone, hmore (Or.inl ⟨_, rfl, by decide⟩)⟩

end Tree

end LetterCalc
