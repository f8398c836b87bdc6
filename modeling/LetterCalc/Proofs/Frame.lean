import LetterCalc.Proofs.Evaluation
import Mathlib.Data.Finset.Union

/-!
# What a tree touches

A tree changes no other variables than those it writes, and nothing but the variables it names
matters to it.

The two facts are stated for stores that agree on a set of names.  The stores before and after
agree on every set of names that the tree does not write (`agreeOn_eval`), and from stores that
agree on the names of the tree the same comes of it (`eval_agreeOn`).  Both hold as well where
evaluation fails on its way and leaves what it has stored up to there.

From the two it follows that lines of which none writes what the other names can change places.
-/

namespace LetterCalc

/-! ## Agreement -/

namespace Store

variable {ν : Type}

/-- Two stores have the same values, or none, for the given names. -/
def AgreeOn (names : Finset Char) (s t : Store ν) : Prop :=
  ∀ name ∈ names, s.get? name = t.get? name

namespace AgreeOn

variable {names : Finset Char} {s t : Store ν}

theorem refl (names : Finset Char) (s : Store ν) : AgreeOn names s s := fun _ _ => rfl

/-- Stores that agree still do after the same was set in both. -/
theorem set (h : AgreeOn names s t) (name : Char) (value : ν) :
    AgreeOn names (s.set name value) (t.set name value) := by
  intro key hkey
  rw [get?_set, get?_set, h key hkey]

/-- What is set under another name makes no difference. -/
theorem set_left (h : AgreeOn names s t) {name : Char} (hn : name ∉ names) (value : ν) :
    AgreeOn names (s.set name value) t := by
  intro key hkey
  have hne : key ≠ name := fun he => hn (he ▸ hkey)
  rw [get?_set, if_neg hne, h key hkey]

theorem fetch (h : AgreeOn names s t) {name : Char} (hn : name ∈ names) :
    Corresponds Eq Eq (AgreeOn names) (s.fetch name) (t.fetch name) := by
  refine fetch_corresponds h ?_ rfl
  rw [h name hn]
  cases t.get? name with
  | none => exact .none
  | some value => exact .some rfl

end AgreeOn

end Store

/-! ## The names of a tree -/

namespace Tree

/-- The names that occur in a tree. -/
def names : Tree → Finset Char
  | literal _ => ∅
  | letter name => {name}
  | binary _ left right => left.names ∪ right.names
  | assign target value => insert target value.names
  | postIncrement name => {name}

/-- The names that a tree writes: those it assigns to, and those it increments. -/
def written : Tree → Finset Char
  | literal _ => ∅
  | letter _ => ∅
  | binary _ left right => left.written ∪ right.written
  | assign target value => insert target value.written
  | postIncrement name => {name}

/-- What a tree writes occurs in it. -/
theorem written_subset_names (tree : Tree) : tree.written ⊆ tree.names := by
  induction tree with
  | literal value => exact Finset.Subset.refl _
  | letter name => exact Finset.empty_subset _
  | binary op left right ihl ihr => exact Finset.union_subset_union ihl ihr
  | assign target value ih => exact Finset.insert_subset_insert target ih
  | postIncrement name => exact Finset.Subset.refl _

/-! ## Evaluation -/

/-- Evaluation leaves every variable as it was that the tree does not write. -/
theorem agreeOn_eval (tree : Tree) {names : Finset Char} (h : Disjoint tree.written names)
    (s : Store Value) : Store.AgreeOn names (tree.eval s).2 s := by
  -- The store to compare with stays, while evaluation goes on from one store to the next.
  suffices hkeeps : ∀ t, Store.AgreeOn names t s → Store.AgreeOn names (tree.eval t).2 s from
    hkeeps s (.refl names s)
  intro t ht
  rw [eval_eq_evalOver]
  induction tree generalizing t with
  | literal value => exact ht
  | letter name =>
    rw [evalOver, Store.fetch_eq_lookup]
    exact ht
  | binary op left right ihl ihr =>
    rw [written, Finset.disjoint_union_left] at h
    rw [evalOver]
    refine andThen_keeps (Store.AgreeOn names · s) (ihl h.1 t ht) fun x t ht => ?_
    exact andThen_keeps (Store.AgreeOn names · s) (ihr h.2 t ht) fun y t ht => ht
  | assign target value ih =>
    rw [written, Finset.disjoint_insert_left] at h
    rw [evalOver]
    exact andThen_keeps (Store.AgreeOn names · s) (ih h.2 t ht) fun x t ht => ht.set_left h.1 x
  | postIncrement name =>
    rw [written, Finset.disjoint_singleton_left] at h
    rw [evalOver, Store.fetch_eq_lookup]
    exact andThen_keeps (Store.AgreeOn names · s) ht fun x t ht => ht.set_left h (x + 1)

/-- From stores that agree on the names of a tree its evaluation has the same result, and the stores
still agree afterwards. -/
theorem eval_agreeOn (tree : Tree) {names : Finset Char} (hn : tree.names ⊆ names)
    {s t : Store Value} (h : Store.AgreeOn names s t) :
    Corresponds Eq Eq (Store.AgreeOn names) (tree.eval s) (tree.eval t) := by
  rw [eval_eq_evalOver, eval_eq_evalOver]
  induction tree generalizing s t with
  | literal value => exact .ok rfl h
  | letter name => exact h.fetch (Finset.singleton_subset_iff.1 hn)
  | binary op left right ihl ihr =>
    rw [Tree.names, Finset.union_subset_iff] at hn
    refine (ihl hn.1 h).andThen fun x x' s t hx h => ?_
    refine (ihr hn.2 h).andThen fun y y' s t hy h => .ok ?_ h
    rw [hx, hy]
  | assign target value ih =>
    rw [Tree.names, Finset.insert_subset_iff] at hn
    refine (ih hn.2 h).andThen fun x x' s t hx h => .ok hx ?_
    rw [hx]
    exact h.set target x'
  | postIncrement name =>
    refine (h.fetch (Finset.singleton_subset_iff.1 hn)).andThen fun x x' s t hx h => .ok hx ?_
    rw [hx]
    exact h.set name (x' + 1)

/-! ## Independent trees -/

variable {tree tree' : Tree}

/-- A tree does the same after another one that writes none of its names. -/
theorem eval_after (h : Disjoint tree'.written tree.names) (s : Store Value) :
    Corresponds Eq Eq (Store.AgreeOn tree.names) (tree.eval (tree'.eval s).2) (tree.eval s) :=
  tree.eval_agreeOn (Finset.Subset.refl _) (tree'.agreeOn_eval h s)

theorem get?_eval_of_not_mem {name : Char} (h : name ∉ tree.written) (s : Store Value) :
    (tree.eval s).2.get? name = s.get? name :=
  tree.agreeOn_eval (Finset.disjoint_singleton_right.2 h) s name (Finset.mem_singleton_self name)

/-- A variable that the first of two trees names has the same value in the end as if that tree came
second, provided that the other one does not write the names of this one. -/
theorem get?_eval_eval (h : Disjoint tree'.written tree.names) (s : Store Value) {name : Char}
    (hn : name ∈ tree.names) :
    (tree'.eval (tree.eval s).2).2.get? name = (tree.eval (tree'.eval s).2).2.get? name := by
  have hw : name ∉ tree'.written := Finset.disjoint_right.1 h hn
  rw [get?_eval_of_not_mem hw]
  exact ((eval_after h s).state name hn).symm

/-- Trees of which none writes what the other names leave the same store in either order. -/
theorem eval_eval_comm (h : Disjoint tree.written tree'.names)
    (h' : Disjoint tree'.written tree.names) (s : Store Value) :
    (tree'.eval (tree.eval s).2).2 = (tree.eval (tree'.eval s).2).2 := by
  refine Store.ext_get? fun name => ?_
  by_cases hn : name ∈ tree.names
  · exact get?_eval_eval h' s hn
  by_cases hn' : name ∈ tree'.names
  · exact (get?_eval_eval h s hn').symm
  · have hw : name ∉ tree.written := fun hm => hn (tree.written_subset_names hm)
    have hw' : name ∉ tree'.written := fun hm => hn' (tree'.written_subset_names hm)
    rw [get?_eval_of_not_mem hw', get?_eval_of_not_mem hw, get?_eval_of_not_mem hw,
      get?_eval_of_not_mem hw']

/-- Evaluation touches only what the tree names, whether it has a value or fails on its way.  A name
that is neither assigned to nor incremented has the same binding afterwards, or still none.  From
stores that agree on the names of the tree the result is the same, and the stores left behind agree
on them again. -/
theorem eval_touches_only_names (tree : Tree) :
    (∀ (s : Store Value) (name : Char), name ∉ tree.written →
      (tree.eval s).2.get? name = s.get? name) ∧
    ∀ s t : Store Value, (∀ name ∈ tree.names, s.get? name = t.get? name) →
      (tree.eval s).1 = (tree.eval t).1 ∧
      ∀ name ∈ tree.names, (tree.eval s).2.get? name = (tree.eval t).2.get? name := by
  refine ⟨fun s name hn => get?_eval_of_not_mem hn s, fun s t h => ?_⟩
  have hagree := tree.eval_agreeOn (Finset.Subset.refl tree.names) h
  exact ⟨hagree.result_eq, hagree.state⟩

/-- The tree of `(y = 1) + q` fails for want of `q` when `y` is stored already.  It leaves `z` as it
was, and it does the same where `z` has no value. -/
theorem failing_tree_touches_only_names :
    ∃ tree : Tree, tree = .binary .add (.assign 'y' (.literal 1)) (.letter 'q') ∧
      (tree.eval (Store.empty.set 'z' 5)).2.get? 'z' = some 5 ∧
      (tree.eval (Store.empty.set 'z' 5)).1 = (tree.eval .empty).1 ∧
      (tree.eval .empty).1 = .error (.undefinedVariable 'q') ∧
      (tree.eval (Store.empty.set 'z' 5)).2.get? 'y' = (tree.eval .empty).2.get? 'y' := by
  obtain ⟨hkeeps, hsame⟩ :=
    eval_touches_only_names (.binary .add (.assign 'y' (.literal 1)) (.letter 'q'))
  obtain ⟨hresult, hstores⟩ :=
    hsame (Store.empty.set 'z' 5) .empty ((Store.AgreeOn.refl _ _).set_left (by decide) 5)
  refine ⟨_, rfl, ?_, hresult, by decide, hstores 'y' (by decide)⟩
  rw [hkeeps _ 'z' (by decide)]
  decide

end Tree

/-! ## Independent lines -/

namespace Calculator

/-- Two lines can change places if neither of them writes a variable that the other names.  Each has
the same result whether it comes first or second, and the store is the same in the end, also when
one of them or both fail on their way. -/
theorem independent_lines_commute {line line' : String} {tree tree' : Tree}
    (hc : Validation.check line = .ok ()) (hr : (Tree.ofLine line).result = .ok tree)
    (hc' : Validation.check line' = .ok ()) (hr' : (Tree.ofLine line').result = .ok tree')
    (h : Disjoint tree.written tree'.names) (h' : Disjoint tree'.written tree.names)
    (s : Store Value) :
    (runLine (runLine s line').store line).result = (runLine s line).result ∧
    (runLine (runLine s line).store line').result = (runLine s line').result ∧
    (runLine (runLine s line).store line').store =
      (runLine (runLine s line').store line).store := by
  have hline := runLine_of_result hc hr
  have hline' := runLine_of_result hc' hr'
  simp only [hline, hline']
  exact ⟨(Tree.eval_after h' s).result_eq, (Tree.eval_after h s).result_eq,
    Tree.eval_eval_comm h h' s⟩

/-- Both lines fail for want of `q`, each after an assignment of its own, and both assignments are
kept in either order. -/
theorem failing_lines_commute :
    Validation.check "x = (y = 1) + q" = .ok () ∧ Validation.check "z = (w = 2) * q" = .ok () ∧
    (runLine (runLine .empty "z = (w = 2) * q").store "x = (y = 1) + q").result =
      .error (.undefinedVariable 'q') ∧
    (runLine (runLine .empty "x = (y = 1) + q").store "z = (w = 2) * q").result =
      .error (.undefinedVariable 'q') ∧
    (runLine (runLine .empty "z = (w = 2) * q").store "x = (y = 1) + q").store.text =
      "(w=2,y=1)" := by
  have hc : Validation.check "x = (y = 1) + q" = .ok () := by decide +kernel
  have hr : (Tree.ofLine "x = (y = 1) + q").result = .ok (.assign 'x' (.binary .add
      (.assign 'y' (.literal 1)) (.letter 'q'))) := by decide +kernel
  have hc' : Validation.check "z = (w = 2) * q" = .ok () := by decide +kernel
  have hr' : (Tree.ofLine "z = (w = 2) * q").result = .ok (.assign 'z' (.binary .mul
      (.assign 'w' (.literal 2)) (.letter 'q'))) := by decide +kernel
  obtain ⟨hfirst, hsecond, hstore⟩ :=
    independent_lines_commute hc hr hc' hr' (by decide) (by decide) .empty
  refine ⟨hc, hc', ?_⟩
  rw [hfirst, hsecond, ← hstore]
  decide +kernel

end Calculator

end LetterCalc
