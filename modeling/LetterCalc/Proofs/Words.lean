import LetterCalc.Cursor.Lemmas
import LetterCalc.Token
import Mathlib.Data.List.TakeWhile

/-!
# How a text falls into words

`words` reads a line off a cursor.  This file says what it does in terms of the characters alone.

`nextWord` is described by what is pending (`nextWord_of_nil`, `nextWord_of_paren` and
`nextWord_of_run`), so the words of a cursor depend on nothing else
(`wordsFrom_eq_of_pending`).  Hence four equations determine the words of any text: `wordsOf_nil`,
`wordsOf_separator`, `wordsOf_paren` and `wordsOf_run`.  `wordsOf_induction` is the induction that
follows them.

The words of a text that is put together from parts are found part by part: `Spells text ws` says
that `text` gives the words `ws` wherever a word ends behind it.
-/

namespace LetterCalc

namespace Cursor

/-- What a settled cursor has read and what it will deliver make up all it holds. -/
theorem view_append_pending {α : Type} {c : Cursor α} (hc : c.Settled) :
    c.view ++ c.pending = c.stock := by
  have hd : c.stock.drop c.offset = c.buffer.drop c.offset ++ c.source :=
    List.drop_append_of_le_length hc
  rw [pending, hd, view, ← List.append_assoc, List.take_append_drop, stock]

theorem settled_forgetSeparators (c : Cursor Char) : c.forgetSeparators.Settled :=
  settled_forget _

theorem view_forgetSeparators (c : Cursor Char) : c.forgetSeparators.view = [] := rfl

theorem pending_forgetSeparators {c : Cursor Char} (hc : c.Settled) :
    c.forgetSeparators.pending = c.pending.dropWhile (· ∈ Text.separators) := by
  have hs : c.skipSeparators.2.Settled := settled_skipOver Text.separators hc
  rw [forgetSeparators, pending_forget hs]
  exact pending_skipOver Text.separators hc

/-- From an empty view, the view and the pending items after a move are a cut of the items that
were pending before it. -/
theorem view_append_pending_of_stock {α : Type} {c d : Cursor α} (hc : c.Settled) (hv : c.view = [])
    (hd : d.Settled) (hs : d.stock = c.stock) : d.view ++ d.pending = c.pending := by
  have h := view_append_pending hc
  rw [hv, List.nil_append] at h
  rw [view_append_pending hd, hs, h]

/-- A cursor with an empty view moves over one accepted item and has it in its view. -/
theorem view_acceptAny {c : Cursor Char} {items : List Char} {a : Char} {as : List Char}
    (hc : c.Settled) (hv : c.view = []) (hp : c.pending = a :: as) (ha : a ∈ items) :
    (c.acceptAny items).1 = some a ∧ (c.acceptAny items).2.Settled ∧
      (c.acceptAny items).2.view = [a] ∧ (c.acceptAny items).2.pending = as := by
  have hf : (c.acceptAny items).1 = some a := by
    rw [acceptAny, acceptIf_fst, hp]
    simp [ha]
  have hs : (c.acceptAny items).2.Settled := settled_acceptIf _ hc
  have hq : (c.acceptAny items).2.pending = as := by
    rw [acceptAny, (next_of_acceptIf hf).2.2, pending_next, hp, List.tail_cons]
  have hcut := view_append_pending_of_stock hc hv hs (c.stock_acceptAny items)
  rw [hq, hp, show a :: as = [a] ++ as from rfl] at hcut
  exact ⟨hf, hs, List.append_cancel_right hcut, hq⟩

/-- A settled cursor that accepts none of the given items stays where it is. -/
theorem acceptAny_of_not_mem {c : Cursor Char} {items : List Char} (hc : c.Settled)
    (h : ∀ a ∈ c.pending.head?, a ∉ items) :
    (c.acceptAny items).1 = none ∧ (c.acceptAny items).2 = c.peek.2 := by
  have hf : (c.acceptAny items).1 = none := by
    rw [acceptAny, acceptIf_fst]
    cases hp : c.pending.head? with
    | none => rfl
    | some a =>
      have ha : a ∉ items := h a (by rw [hp]; rfl)
      simp [ha]
  exact ⟨hf, acceptIf_of_none hc.bounded hf⟩

/-- Looking ahead keeps the view of a settled cursor. -/
theorem view_peek {α : Type} {c : Cursor α} (hc : c.Settled) : c.peek.2.view = c.view := by
  have h := view_append_pending (settled_peek hc)
  rw [pending_peek, stock_peek, ← view_append_pending hc] at h
  exact List.append_cancel_right h

theorem skipUntil_fst {α : Type} [DecidableEq α] (c : Cursor α) (items : List α) :
    (c.skipUntil items).1 = c.pending.head?.any (· ∉ items) := by
  rw [skipUntil]
  split
  · next h =>
    rw [peek_fst] at h
    rw [h]
    rfl
  · next a h =>
    rw [peek_fst] at h
    rw [h]
    by_cases ha : a ∈ items <;> simp [ha]

end Cursor

/-! ## One word -/

/-- Everything that is pending after the separators, when that is no parenthesis. -/
theorem nextWord_of_not_paren {c : Cursor Char} (hc : c.Settled)
    (h : ∀ a ∈ (c.pending.dropWhile (· ∈ Text.separators)).head?, a ∉ Text.parens) :
    nextWord c =
      let moved := c.forgetSeparators.peek.2.skipUntil Text.stops
      if moved.1 then (some (String.ofList moved.2.view), moved.2.forget) else (none, moved.2) := by
  rw [← Cursor.pending_forgetSeparators hc] at h
  obtain ⟨hf, hs⟩ := Cursor.acceptAny_of_not_mem c.settled_forgetSeparators h
  unfold nextWord
  simp only [hf, hs]
  rfl

/-- When only separators are left there is no word, and nothing is left afterwards. -/
theorem nextWord_of_nil {c : Cursor Char} (hc : c.Settled)
    (h : c.pending.dropWhile (· ∈ Text.separators) = []) :
    (nextWord c).1 = none ∧ (nextWord c).2.Settled ∧ (nextWord c).2.pending = [] := by
  have hw := nextWord_of_not_paren hc (by simp [h])
  generalize hd : c.forgetSeparators.peek.2 = d at hw
  have hds : d.Settled := hd ▸ Cursor.settled_peek c.settled_forgetSeparators
  have hdp : d.pending = [] := by
    rw [← hd, Cursor.pending_peek, Cursor.pending_forgetSeparators hc, h]
  have hm : (d.skipUntil Text.stops).1 = false := by
    rw [Cursor.skipUntil_fst, hdp]
    rfl
  have he : nextWord c = (none, (d.skipUntil Text.stops).2) := by
    rw [hw]
    simp [hm]
  rw [he]
  exact ⟨rfl, Cursor.settled_skipUntil Text.stops hds, by rw [Cursor.pending_skipUntil, hdp]; rfl⟩

/-- A parenthesis that comes next is a word. -/
theorem nextWord_of_paren {c : Cursor Char} {a : Char} {as : List Char} (hc : c.Settled)
    (h : c.pending.dropWhile (· ∈ Text.separators) = a :: as) (ha : a ∈ Text.parens) :
    (nextWord c).1 = some (String.singleton a) ∧ (nextWord c).2.Settled ∧
      (nextWord c).2.pending = as := by
  rw [← Cursor.pending_forgetSeparators hc] at h
  obtain ⟨hf, hs, hv, hp⟩ :=
    Cursor.view_acceptAny c.settled_forgetSeparators c.view_forgetSeparators h ha
  have hw : nextWord c = (some (String.ofList [a]),
      (c.forgetSeparators.acceptAny Text.parens).2.forget) := by
    unfold nextWord
    simp only [hf, Cursor.takeText, hv]
  rw [hw, String.singleton_eq_ofList]
  exact ⟨rfl, Cursor.settled_forget _, by rw [Cursor.pending_forget hs, hp]⟩

/-- Anything else that comes next is the start of a word, which goes on up to a separator or a
parenthesis. -/
theorem nextWord_of_run {c : Cursor Char} {a : Char} {as : List Char} (hc : c.Settled)
    (h : c.pending.dropWhile (· ∈ Text.separators) = a :: as) (ha : a ∉ Text.stops) :
    (nextWord c).1 = some (String.ofList ((a :: as).takeWhile (· ∉ Text.stops))) ∧
      (nextWord c).2.Settled ∧ (nextWord c).2.pending = (a :: as).dropWhile (· ∉ Text.stops) := by
  have hparen : a ∉ Text.parens := fun hm => ha (List.mem_append_right _ hm)
  have hw := nextWord_of_not_paren hc (by simpa [h] using hparen)
  rw [← Cursor.pending_forgetSeparators hc] at h
  generalize hd : c.forgetSeparators.peek.2 = d at hw
  have hds : d.Settled := hd ▸ Cursor.settled_peek c.settled_forgetSeparators
  have hdv : d.view = [] := by
    rw [← hd, Cursor.view_peek c.settled_forgetSeparators, c.view_forgetSeparators]
  have hdp : d.pending = a :: as := by rw [← hd, Cursor.pending_peek, h]
  have hm : (d.skipUntil Text.stops).1 = true := by
    rw [Cursor.skipUntil_fst, hdp]
    simp [ha]
  have hs : (d.skipUntil Text.stops).2.Settled := Cursor.settled_skipUntil Text.stops hds
  have hp : (d.skipUntil Text.stops).2.pending = (a :: as).dropWhile (· ∉ Text.stops) := by
    rw [Cursor.pending_skipUntil, hdp]
  have hcut := Cursor.view_append_pending_of_stock hds hdv hs (d.stock_skipUntil Text.stops)
  rw [hp, hdp] at hcut
  have hv : (d.skipUntil Text.stops).2.view = (a :: as).takeWhile (· ∉ Text.stops) :=
    List.append_cancel_right (hcut.trans List.takeWhile_append_dropWhile.symm)
  have he : nextWord c = (some (String.ofList ((a :: as).takeWhile (· ∉ Text.stops))),
      (d.skipUntil Text.stops).2.forget) := by
    simp only [hw, hm, if_true, hv]
  rw [he]
  exact ⟨rfl, Cursor.settled_forget _, by rw [Cursor.pending_forget hs, hp]⟩

/-- The first word of a text and what stands behind it. -/
def firstWord? (chars : List Char) : Option (String × List Char) :=
  match chars.dropWhile (· ∈ Text.separators) with
  | [] => none
  | a :: as =>
    if a ∈ Text.parens then some (String.singleton a, as)
    else some (String.ofList ((a :: as).takeWhile (· ∉ Text.stops)),
      (a :: as).dropWhile (· ∉ Text.stops))

/-- The first character behind the separators is none. -/
theorem not_mem_separators_of_dropWhile {chars : List Char} {a : Char} {as : List Char}
    (h : chars.dropWhile (· ∈ Text.separators) = a :: as) : a ∉ Text.separators := by
  have hn := List.head?_dropWhile_not (· ∈ Text.separators) chars
  rw [h] at hn
  simpa using hn

theorem nextWord_fst {c : Cursor Char} (hc : c.Settled) :
    (nextWord c).1 = (firstWord? c.pending).map Prod.fst := by
  unfold firstWord?
  cases h : c.pending.dropWhile (· ∈ Text.separators) with
  | nil => exact (nextWord_of_nil hc h).1
  | cons a as =>
    by_cases hparen : a ∈ Text.parens
    · simp only [hparen, if_true]
      exact (nextWord_of_paren hc h hparen).1
    · have hstop : a ∉ Text.stops := by
        simp [Text.stops, not_mem_separators_of_dropWhile h, hparen]
      simp only [hparen, if_false]
      exact (nextWord_of_run hc h hstop).1

theorem nextWord_snd {c : Cursor Char} {word : String} {rest : List Char} (hc : c.Settled)
    (hw : firstWord? c.pending = some (word, rest)) :
    (nextWord c).2.Settled ∧ (nextWord c).2.pending = rest := by
  unfold firstWord? at hw
  cases h : c.pending.dropWhile (· ∈ Text.separators) with
  | nil => simp [h] at hw
  | cons a as =>
    by_cases hparen : a ∈ Text.parens
    · simp only [h, hparen, if_true, Option.some.injEq, Prod.mk.injEq] at hw
      rw [← hw.2]
      exact (nextWord_of_paren hc h hparen).2
    · have hstop : a ∉ Text.stops := by
        simp [Text.stops, not_mem_separators_of_dropWhile h, hparen]
      simp only [h, hparen, if_false, Option.some.injEq, Prod.mk.injEq] at hw
      rw [← hw.2]
      exact (nextWord_of_run hc h hstop).2

/-! ## All words -/

theorem wordsFrom_of_none {c : Cursor Char} (h : (nextWord c).1 = none) : wordsFrom c = [] := by
  rw [wordsFrom]
  split
  · next word hw => rw [h] at hw; cases hw
  · rfl

theorem wordsFrom_of_some {c : Cursor Char} {word : String} (h : (nextWord c).1 = some word) :
    wordsFrom c = word :: wordsFrom (nextWord c).2 := by
  rw [wordsFrom]
  split
  · next found hw => rw [h] at hw; cases hw; rfl
  · next hw => rw [h] at hw; cases hw

/-- The words of a settled cursor depend only on what is pending. -/
theorem wordsFrom_eq_of_pending {c d : Cursor Char} (hc : c.Settled) (hd : d.Settled)
    (h : c.pending = d.pending) : wordsFrom c = wordsFrom d := by
  fun_induction wordsFrom c generalizing d with
  | case1 c word hw ih =>
    have hf : (nextWord d).1 = some word := by rw [nextWord_fst hd, ← h, ← nextWord_fst hc, hw]
    rw [nextWord_fst hc] at hw
    obtain ⟨⟨_, rest⟩, hr, rfl⟩ := Option.map_eq_some_iff.1 hw
    obtain ⟨hcs, hcp⟩ := nextWord_snd hc hr
    obtain ⟨hds, hdp⟩ := nextWord_snd hd (h ▸ hr)
    rw [wordsFrom_of_some hf, ih hcs hds (hcp.trans hdp.symm)]
  | case2 c hw =>
    rw [nextWord_fst hc] at hw
    exact (wordsFrom_of_none (by rw [nextWord_fst hd, ← h, hw])).symm

/-- The words of a text, given by its characters. -/
def wordsOf (chars : List Char) : List String := wordsFrom (Cursor.ofList chars)

theorem words_eq_wordsOf (line : String) : words line = wordsOf line.toList := rfl

theorem wordsOf_of_none {chars : List Char} (h : firstWord? chars = none) : wordsOf chars = [] := by
  refine wordsFrom_of_none ?_
  rw [nextWord_fst (Cursor.settled_ofList chars), Cursor.pending_ofList, h]
  rfl

theorem wordsOf_of_some {chars rest : List Char} {word : String}
    (h : firstWord? chars = some (word, rest)) : wordsOf chars = word :: wordsOf rest := by
  have hs := Cursor.settled_ofList chars
  have hf : (nextWord (Cursor.ofList chars)).1 = some word := by
    rw [nextWord_fst hs, Cursor.pending_ofList, h]
    rfl
  obtain ⟨hn, hp⟩ := nextWord_snd hs h
  rw [wordsOf, wordsFrom_of_some hf,
    wordsFrom_eq_of_pending hn (Cursor.settled_ofList rest) (by rw [hp, Cursor.pending_ofList])]
  rfl

@[simp] theorem wordsOf_nil : wordsOf [] = [] := wordsOf_of_none rfl

/-- A separator before a text adds no word. -/
theorem wordsOf_separator {a : Char} (ha : a ∈ Text.separators) (rest : List Char) :
    wordsOf (a :: rest) = wordsOf rest := by
  have hd : firstWord? (a :: rest) = firstWord? rest := by
    unfold firstWord?
    rw [List.dropWhile_cons_of_pos (by simpa using ha)]
  cases hw : firstWord? rest with
  | none => rw [wordsOf_of_none hw, wordsOf_of_none (hd.trans hw)]
  | some p => rw [wordsOf_of_some hw, wordsOf_of_some (hd.trans hw)]

/-- A parenthesis before a text is one more word. -/
theorem wordsOf_paren {a : Char} (ha : a ∈ Text.parens) (rest : List Char) :
    wordsOf (a :: rest) = String.singleton a :: wordsOf rest := by
  have hsep : a ∉ Text.separators := Text.not_mem_separators_of_mem_parens ha
  refine wordsOf_of_some ?_
  unfold firstWord?
  rw [List.dropWhile_cons_of_neg (by simpa using hsep)]
  simp [ha]

/-- A word ends before the given characters: there are none, or the first is a separator or a
parenthesis. -/
def EndsWord (rest : List Char) : Prop := ∀ a ∈ rest.head?, a ∈ Text.stops

theorem endsWord_nil : EndsWord [] := by simp [EndsWord]

theorem endsWord_cons {a : Char} (ha : a ∈ Text.stops) (rest : List Char) :
    EndsWord (a :: rest) := by
  simpa [EndsWord] using ha

/-- Characters that are no stops make one word, up to where it ends. -/
theorem wordsOf_run {run rest : List Char} (hne : run ≠ []) (hrun : ∀ a ∈ run, a ∉ Text.stops)
    (hrest : EndsWord rest) : wordsOf (run ++ rest) = String.ofList run :: wordsOf rest := by
  obtain ⟨a, as, rfl⟩ := List.exists_cons_of_ne_nil hne
  have ha : a ∉ Text.separators ∧ a ∉ Text.parens := by
    simpa [Text.stops] using hrun a List.mem_cons_self
  have hp : ∀ b ∈ a :: as, decide (b ∉ Text.stops) = true := fun b hb => by
    simpa using hrun b hb
  have hstop : rest.takeWhile (· ∉ Text.stops) = [] ∧
      rest.dropWhile (· ∉ Text.stops) = rest := by
    cases rest with
    | nil => exact ⟨rfl, rfl⟩
    | cons b bs =>
      have hb : b ∈ Text.stops := hrest b rfl
      exact ⟨List.takeWhile_cons_of_neg (by simpa using hb),
        List.dropWhile_cons_of_neg (by simpa using hb)⟩
  refine wordsOf_of_some ?_
  unfold firstWord?
  rw [List.cons_append, List.dropWhile_cons_of_neg (by simpa using ha.1)]
  simp only [ha.2, if_false]
  rw [← List.cons_append, List.takeWhile_append_of_pos hp, List.dropWhile_append_of_pos hp,
    hstop.1, hstop.2, List.append_nil]

/-- Induction over a text as its words are found. -/
theorem wordsOf_induction {motive : List Char → Prop} (nil : motive [])
    (separator : ∀ a rest, a ∈ Text.separators → motive rest → motive (a :: rest))
    (paren : ∀ a rest, a ∈ Text.parens → motive rest → motive (a :: rest))
    (run : ∀ run rest, run ≠ [] → (∀ a ∈ run, a ∉ Text.stops) → EndsWord rest → motive rest →
      motive (run ++ rest)) (chars : List Char) : motive chars := by
  induction hn : chars.length using Nat.strong_induction_on generalizing chars with
  | _ n ih =>
    cases chars with
    | nil => exact nil
    | cons a as =>
      rw [List.length_cons] at hn
      have hrest : motive as := ih as.length (by omega) as rfl
      by_cases hsep : a ∈ Text.separators
      · exact separator a as hsep hrest
      by_cases hparen : a ∈ Text.parens
      · exact paren a as hparen hrest
      -- The run is as long as it can be, so a word ends behind it.
      have hstop : a ∉ Text.stops := by simp [Text.stops, hsep, hparen]
      have hcut := List.takeWhile_append_dropWhile (p := (· ∉ Text.stops)) (l := a :: as)
      have hlen : ((a :: as).dropWhile (· ∉ Text.stops)).length ≤ as.length := by
        rw [List.dropWhile_cons_of_pos (by simpa using hstop)]
        exact List.length_dropWhile_le _ _
      rw [← hcut]
      refine run _ _ ?_ ?_ ?_ (ih _ (by omega) _ rfl)
      · rw [List.takeWhile_cons_of_pos (by simpa using hstop)]
        exact List.cons_ne_nil _ _
      · intro b hb
        simpa using List.mem_takeWhile_imp hb
      · intro b hb
        have hn := List.head?_dropWhile_not (· ∉ Text.stops) (a :: as)
        rw [Option.mem_def.1 hb] at hn
        simpa using hn

/-- Every character of a text is a separator or stands in a word. -/
theorem mem_separators_or_mem_wordsOf {chars : List Char} {a : Char} (ha : a ∈ chars) :
    a ∈ Text.separators ∨ ∃ word ∈ wordsOf chars, a ∈ word.toList := by
  induction chars using wordsOf_induction with
  | nil => cases ha
  | separator b rest hb ih =>
    rw [wordsOf_separator hb]
    rcases List.mem_cons.1 ha with rfl | ha
    · exact Or.inl hb
    · exact ih ha
  | paren b rest hb ih =>
    rw [wordsOf_paren hb]
    rcases List.mem_cons.1 ha with rfl | ha
    · exact Or.inr ⟨_, List.mem_cons_self, by simp⟩
    · obtain h | ⟨word, hw, haw⟩ := ih ha
      · exact Or.inl h
      · exact Or.inr ⟨word, List.mem_cons_of_mem _ hw, haw⟩
  | run run rest hne hrun hrest ih =>
    rw [wordsOf_run hne hrun hrest]
    rcases List.mem_append.1 ha with ha | ha
    · exact Or.inr ⟨_, List.mem_cons_self, by simpa using ha⟩
    · obtain h | ⟨word, hw, haw⟩ := ih ha
      · exact Or.inl h
      · exact Or.inr ⟨word, List.mem_cons_of_mem _ hw, haw⟩

/-- Every character of a word stands in the text. -/
theorem mem_of_mem_wordsOf {chars : List Char} {a : Char} {word : String}
    (hw : word ∈ wordsOf chars) (ha : a ∈ word.toList) : a ∈ chars := by
  induction chars using wordsOf_induction with
  | nil => simp at hw
  | separator b rest hb ih =>
    rw [wordsOf_separator hb] at hw
    exact List.mem_cons_of_mem _ (ih hw)
  | paren b rest hb ih =>
    rw [wordsOf_paren hb] at hw
    rcases List.mem_cons.1 hw with rfl | hw
    · have hab : a = b := by simpa using ha
      exact hab ▸ List.mem_cons_self
    · exact List.mem_cons_of_mem _ (ih hw)
  | run run rest hne hrun hrest ih =>
    rw [wordsOf_run hne hrun hrest] at hw
    rcases List.mem_cons.1 hw with rfl | hw
    · exact List.mem_append_left _ (by simpa using ha)
    · exact List.mem_append_right _ (ih hw)

/-! ## Texts put together from parts -/

/-- The text gives the words `ws`, wherever a word ends behind it. -/
def Spells (text : List Char) (ws : List String) : Prop :=
  ∀ rest, EndsWord rest → wordsOf (text ++ rest) = ws ++ wordsOf rest

namespace Spells

theorem wordsOf_eq {text : List Char} {ws : List String} (h : Spells text ws) :
    wordsOf text = ws := by
  have hw := h [] endsWord_nil
  rwa [wordsOf_nil, List.append_nil, List.append_nil] at hw

theorem word {word : String} (hne : word.toList ≠ []) (h : ∀ a ∈ word.toList, a ∉ Text.stops) :
    Spells word.toList [word] := by
  intro rest hrest
  rw [wordsOf_run hne h hrest, String.ofList_toList]
  rfl

theorem separator {a : Char} {text : List Char} {ws : List String} (ha : a ∈ Text.separators)
    (h : Spells text ws) : Spells (a :: text) ws := by
  intro rest hrest
  rw [List.cons_append, wordsOf_separator ha, h rest hrest]

theorem paren {a : Char} {text : List Char} {ws : List String} (ha : a ∈ Text.parens)
    (h : Spells text ws) : Spells (a :: text) (String.singleton a :: ws) := by
  intro rest hrest
  rw [List.cons_append, wordsOf_paren ha, h rest hrest, List.cons_append]

theorem nil : Spells [] [] := by
  intro rest _
  rfl

/-- Two texts stand side by side without joining their words if the second starts with a stop. -/
theorem append {text text' : List Char} {ws ws' : List String} {a : Char} (h : Spells text ws)
    (h' : Spells (a :: text') ws') (ha : a ∈ Text.stops) :
    Spells (text ++ a :: text') (ws ++ ws') := by
  intro rest hrest
  have hends : EndsWord (a :: text' ++ rest) := endsWord_cons ha _
  rw [List.append_assoc, h _ hends, h' rest hrest, List.append_assoc]

end Spells

end LetterCalc
