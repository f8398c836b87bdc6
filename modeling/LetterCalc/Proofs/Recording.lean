import LetterCalc.Proofs.Definedness
import LetterCalc.Proofs.Frame
import LetterCalc.Proofs.Layout
import LetterCalc.Proofs.RoundTrip
import Mathlib.Data.Finset.Card

/-!
# What a calculator records

Whatever lines a calculator is given, it binds letters only, and a line takes no binding away.  A
line that has a value has stored it: an assignment in the variable that the line starts with, an
increment in the variable that it increments.

The variable is found in the line as it is written, and it is written at the root of the tree of
the line (`root_of_letter`, `root_of_preIncrement`, `root_of_postIncrement`).  What the tree does
below its root comes before the root is evaluated, so that the value at the root is what stays.
-/

namespace LetterCalc

/-! ## The names in a store -/

namespace Store

variable {ν : Type}

/-- There are as many bindings as names. -/
theorem card_names (s : Store ν) : s.names.card = s.size := by
  have hnodup : (s.bindings.map Prod.fst).Nodup := by
    rw [List.Nodup, List.pairwise_map]
    exact s.sorted.imp fun hlt => Char.ne_of_lt hlt
  rw [names, List.toFinset_card_of_nodup hnodup, List.length_map, size]

/-- A store that binds letters only has at most one binding for each. -/
theorem size_le_of_letters {s : Store ν} (h : ∀ name ∈ s.names, name ∈ Text.letters) :
    s.size ≤ 26 := by
  have hsub : s.names ⊆ Text.letters.toFinset := fun name hn => List.mem_toFinset.2 (h name hn)
  have hcard : Text.letters.toFinset.card = 26 := by decide
  rw [← card_names, ← hcard]
  exact Finset.card_le_card hsub

end Store

/-! ## The root of a tree -/

namespace Tree

theorem IsPlain.mem_letters {tree : Tree} (h : tree.IsPlain) {name : Char}
    (hn : name ∈ tree.names) : name ∈ Text.letters := by
  induction tree with
  | literal value => exact absurd hn (Finset.notMem_empty name)
  | letter other =>
    rw [Finset.mem_singleton.1 hn]
    exact h
  | binary op left right ihl ihr =>
    rcases Finset.mem_union.1 hn with hn | hn
    · exact ihl h.1 hn
    · exact ihr h.2 hn
  | assign target value ih =>
    rcases Finset.mem_insert.1 hn with rfl | hn
    · exact h.1
    · exact ih h.2 hn
  | postIncrement other =>
    rw [Finset.mem_singleton.1 hn]
    exact h

/-- An assignment that has a value has stored it, whatever was stored on the way. -/
theorem get?_of_eval_assign {target : Char} {value : Tree} {s : Store Value} {x : Value}
    (h : ((assign target value).eval s).1 = .ok x) :
    ((assign target value).eval s).2.get? target = some x := by
  rw [eval_eq_evalOver, evalOver] at h ⊢
  generalize value.evalOver id s = effect at h ⊢
  rcases effect with ⟨failure | y, t⟩
  · cases h
  · cases h
    rw [andThen_ok, Store.get?_set, if_pos rfl]

/-- An increment has the value from before, and the one that follows is stored. -/
theorem get?_of_eval_postIncrement {name : Char} {s : Store Value} {x : Value}
    (h : ((postIncrement name).eval s).1 = .ok x) :
    s.get? name = some x ∧ ((postIncrement name).eval s).2.get? name = some (x + 1) := by
  rw [eval_eq_evalOver, evalOver] at h ⊢
  cases hg : s.get? name with
  | none =>
    rw [Store.fetch_of_none hg] at h
    cases h
  | some y =>
    rw [Store.fetch_of_some hg] at h ⊢
    cases h
    rw [andThen_ok, Store.get?_set, if_pos rfl]
    exact ⟨rfl, rfl⟩

end Tree

namespace Validation

variable {line : String} {tree : Tree} {name : Char}

/-- An accepted line that starts with a variable is read as an assignment to it. -/
theorem root_of_letter (hc : check line = .ok ()) (hr : (Tree.ofLine line).result = .ok tree)
    (h : (Token.ofLine line).head? = some (.letter name)) :
    ∃ value, tree = .assign name value := by
  obtain ⟨⟨e, he⟩, hi | ha⟩ := check_eq_ok_iff.1 hc
  · -- The only token of an increment is no variable.
    obtain ⟨other, spelled, hw | hw⟩ := exists_phrase_of_isIncrement hi
    · rw [Phrase.words_eq_iff.1 hw] at h
      cases h
    · rw [Phrase.words_eq_iff.1 hw] at h
      cases h
  · rw [Phrase.words_eq_iff.1 he] at ha h
    obtain ⟨target, spelled, op, hop, tail, rfl⟩ := exists_tail_of_isAssignment ha
    cases h
    exact Phrase.exists_assign_of_result hop ((Phrase.result_ofLine he).symm.trans hr)

/-- A line that looks like an increment is accepted only if a variable is incremented. -/
theorem mem_letters_of_check (hc : check line = .ok ())
    (h : line.toList = ['+', '+', name] ∨ line.toList = [name, '+', '+']) :
    name ∈ Text.letters := by
  obtain ⟨⟨e, he⟩, hi | ha⟩ := check_eq_ok_iff.1 hc
  · -- The two spellings of an increment have nothing in common, since `+` is no letter.
    obtain ⟨other, ho, hline⟩ := isIncrement_iff.1 hi
    have hplus := Text.ne_plus_of_mem_letters ho
    have hname : name = other := by
      rcases h with h | h <;> rcases hline with hl | hl <;> simp_all
    rw [hname]
    exact ho
  · -- The first character of an assignment that can be seen is a letter.
    rw [Phrase.words_eq_iff.1 he] at ha
    obtain ⟨target, spelled, op, -, tail, rfl⟩ := exists_tail_of_isAssignment ha
    have hplus := Text.ne_plus_of_mem_letters spelled
    have hv : line.toList.filter (· ∉ Text.separators) =
        target :: (op.symbol.toList ++ tail.words.flatMap String.toList) := by
      rw [← visible_eq_filter, visible, he]
      simp [Phrase.words, Phrase.tokens, Atom.tokens, Operand.token, Token.text]
    rcases h with h | h
    · rw [h, List.filter_cons_of_pos (by decide)] at hv
      exact absurd (List.cons.inj hv).1.symm hplus
    by_cases hs : name ∈ Text.separators
    · rw [h, List.filter_cons_of_neg (by simpa using hs)] at hv
      exact absurd (List.cons.inj hv).1.symm hplus
    · rw [h, List.filter_cons_of_pos (by simpa using hs)] at hv
      rw [(List.cons.inj hv).1]
      exact spelled

theorem root_of_preIncrement (hc : check line = .ok ())
    (hr : (Tree.ofLine line).result = .ok tree) (h : line.toList = ['+', '+', name]) :
    tree = .preIncrement name := by
  have hn := mem_letters_of_check hc (Or.inl h)
  have ht : line = (Operand.preIncrement name hn).token.text :=
    String.toList_injective (by simp [h, Operand.token, Token.text])
  rw [ht, Phrase.result_ofLine (Operand.words_text _)] at hr
  cases hr
  rfl

theorem root_of_postIncrement (hc : check line = .ok ())
    (hr : (Tree.ofLine line).result = .ok tree) (h : line.toList = [name, '+', '+']) :
    tree = .postIncrement name := by
  have hn := mem_letters_of_check hc (Or.inr h)
  have ht : line = (Operand.postIncrement name hn).token.text :=
    String.toList_injective (by simp [h, Operand.token, Token.text])
  rw [ht, Phrase.result_ofLine (Operand.words_text _)] at hr
  cases hr
  rfl

end Validation

/-! ## Lines -/

namespace Calculator

variable {s : Store Value} {line : String} {name : Char} {value : Value}

theorem store_of_none (h : tree? line = none) : (runLine s line).store = s :=
  congrArg Prod.snd (effect_of_none h s)

/-- A line that has a value has a tree of that value. -/
theorem exists_tree_of_ok (h : (runLine s line).result = .ok value) :
    ∃ tree, Validation.check line = .ok () ∧ (Tree.ofLine line).result = .ok tree ∧
      (tree.eval s).1 = .ok value ∧ (runLine s line).store = (tree.eval s).2 := by
  cases ht : tree? line with
  | none =>
    have hinvalid : (runLine s line).result = .error .invalidExpression := (invalid_iff s line).2 ht
    rw [h] at hinvalid
    cases hinvalid
  | some tree =>
    obtain ⟨hc, hr⟩ := tree?_eq_some_iff.1 ht
    obtain ⟨hresult, hstore⟩ := runLine_of_result hc hr s
    exact ⟨tree, hc, hr, hresult.symm.trans h, hstore⟩

/-- No line takes a binding away. -/
theorem names_subset_runLine (s : Store Value) (line : String) :
    s.names ⊆ (runLine s line).store.names := by
  cases ht : tree? line with
  | none => rw [store_of_none ht]
  | some tree =>
    have he : (runLine s line).store.names = (walk s.names tree.accesses).2 :=
      (effect_foretold ht s).state
    rw [he]
    exact subset_walk s.names tree.accesses

/-- What a line binds is a letter. -/
theorem mem_letters_of_mem_runLine (h : name ∈ (runLine s line).store.names)
    (hs : name ∉ s.names) : name ∈ Text.letters := by
  cases ht : tree? line with
  | none =>
    rw [store_of_none ht] at h
    exact absurd h hs
  | some tree =>
    obtain ⟨hc, hr⟩ := tree?_eq_some_iff.1 ht
    have hw : name ∈ tree.written := by
      by_contra hw
      rw [Store.mem_names_iff, (runLine_of_result hc hr s).2, Tree.get?_eval_of_not_mem hw,
        ← Store.mem_names_iff] at h
      exact hs h
    exact (Validation.isPlain_of_check hc hr).1.mem_letters (tree.written_subset_names hw)

/-! ## Runs -/

/-- The stores that a calculator can have: the empty one, and whatever lines and resets make of
it. -/
inductive Reachable : Store Value → Prop
  | empty : Reachable .empty
  | runLine {s : Store Value} (before : Reachable s) (line : String) :
      Reachable (runLine s line).store
  | reset {s : Store Value} (before : Reachable s) : Reachable (reset s).store

/-- A calculator binds letters only. -/
theorem Reachable.mem_letters (h : Reachable s) : ∀ name ∈ s.names, name ∈ Text.letters := by
  induction h with
  | empty => exact fun name hn => absurd hn (Finset.notMem_empty name)
  | @runLine before _ line ih =>
    intro name hn
    by_cases hs : name ∈ before.names
    · exact ih name hs
    · exact mem_letters_of_mem_runLine hn hs
  | reset _ _ => exact fun name hn => absurd hn (Finset.notMem_empty name)

/-- Whatever was done with a calculator, it binds letters only, so there are at most 26 bindings.
No line takes a binding away from it, and a line that has a value has stored it.  If the line
starts with a variable, that variable has the value afterwards; so has `x` after `++x`; and `x++`
has the value that `x` had before, and leaves `x` with the value that follows. -/
theorem reachable_store_records_values (h : Reachable s) :
    (∀ name ∈ s.names, name ∈ Text.letters) ∧ s.size ≤ 26 ∧
    ∀ line, s.names ⊆ (runLine s line).store.names ∧
      ∀ value, (runLine s line).result = .ok value →
        (∀ name, (Token.ofLine line).head? = some (.letter name) →
          (runLine s line).store.get? name = some value) ∧
        (∀ name, line.toList = ['+', '+', name] →
          (runLine s line).store.get? name = some value) ∧
        ∀ name, line.toList = [name, '+', '+'] →
          s.get? name = some value ∧ (runLine s line).store.get? name = some (value + 1) := by
  refine ⟨h.mem_letters, Store.size_le_of_letters h.mem_letters, fun line => ?_⟩
  refine ⟨names_subset_runLine s line, fun value hv => ?_⟩
  obtain ⟨tree, hc, hr, heval, hstore⟩ := exists_tree_of_ok hv
  rw [hstore]
  refine ⟨fun name hfirst => ?_, fun name hline => ?_, fun name hline => ?_⟩
  · obtain ⟨right, rfl⟩ := Validation.root_of_letter hc hr hfirst
    exact Tree.get?_of_eval_assign heval
  · obtain rfl := Validation.root_of_preIncrement hc hr hline
    exact Tree.get?_of_eval_assign heval
  · obtain rfl := Validation.root_of_postIncrement hc hr hline
    exact Tree.get?_of_eval_postIncrement heval

/-- A line that fails has left `x` bound to 41.  From there on an assignment that increments `x` on
its way has its own value in the end, and both increments leave `x` at 42. -/
theorem values_recorded_after_failure :
    ∃ s, Reachable s ∧ (runLine s "x = x++ + x").result = .ok 83 ∧
      (runLine s "x = x++ + x").store.get? 'x' = some 83 ∧
      (runLine s "++x").store.get? 'x' = some 42 ∧
      s.get? 'x' = some 41 ∧ (runLine s "x++").store.get? 'x' = some 42 := by
  have hreach : Reachable (runLine .empty "y = (x = 41) + q").store := .runLine .empty _
  refine ⟨_, hreach, ?_⟩
  generalize hs : (runLine .empty "y = (x = 41) + q").store = s at hreach ⊢
  have hassign : (runLine s "x = x++ + x").result = .ok 83 := by
    rw [← hs]
    decide +kernel
  have hpre : (runLine s "++x").result = .ok 42 := by
    rw [← hs]
    decide +kernel
  have hpost : (runLine s "x++").result = .ok 41 := by
    rw [← hs]
    decide +kernel
  have hfirst : (Token.ofLine "x = x++ + x").head? = some (.letter 'x') := by decide +kernel
  obtain ⟨-, -, hrecords⟩ := reachable_store_records_values hreach
  exact ⟨hassign, ((hrecords _).2 83 hassign).1 'x' hfirst,
    ((hrecords _).2 42 hpre).2.1 'x' (by decide), ((hrecords _).2 41 hpost).2.2 'x' (by decide)⟩

end Calculator

end LetterCalc
