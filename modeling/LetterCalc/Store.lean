import LetterCalc.Arithmetic

/-!
# The store

A store binds names to values.  A binding is made by `set` and only `clear` removes it; a name
that was never set has no value.

The bindings are kept in ascending order of their names, so a store is determined by what `get?`
answers (`Store.ext_get?`), whatever the order in which it was filled.

Reading a name without a value is one of the two ways in which a line fails.  The other, an invalid
expression, is found before the store is touched; an undefined variable is found while the line
runs, and what the line stored before stays stored.
-/

namespace LetterCalc

/-- Why a line has no value. -/
inductive Failure where
  /-- The line is not an expression of the language. -/
  | invalidExpression
  /-- The line reads a variable that has no value. -/
  | undefinedVariable (name : Char)
deriving DecidableEq, Repr

namespace Failure

/-- The text of a failure. -/
def message : Failure → String
  | invalidExpression => "invalid expression"
  | undefinedVariable name => "undefined variable '" ++ String.singleton name ++ "'"

/-- The variable that has no value, if that is the reason. -/
def missing? : Failure → Option Char
  | invalidExpression => none
  | undefinedVariable name => some name

end Failure

/-- Names with their values, in ascending order of the names. -/
structure Store (ν : Type) where
  /-- The bindings. -/
  bindings : List (Char × ν)
  /-- Each name stands once, and after every smaller name. -/
  sorted : bindings.Pairwise (fun a b => a.1 < b.1)
deriving DecidableEq

namespace Store

variable {ν : Type}

/-- The store that binds nothing. -/
def empty : Store ν := ⟨[], .nil⟩

instance : Inhabited (Store ν) := ⟨empty⟩

/-- The value of a name, if it has one. -/
def get? (s : Store ν) (name : Char) : Option ν := s.bindings.lookup name

/-- The value of a name, which has to be bound. -/
def lookup (s : Store Value) (name : Char) : Except Failure Value :=
  match s.get? name with
  | some value => .ok value
  | none => .error (.undefinedVariable name)

/-- Puts a binding in its place and replaces the one that was there. -/
def insert (name : Char) (value : ν) : List (Char × ν) → List (Char × ν)
  | [] => [(name, value)]
  | (other, old) :: rest =>
    if name < other then (name, value) :: (other, old) :: rest
    else if name = other then (name, value) :: rest
    else (other, old) :: insert name value rest

theorem mem_insert {name : Char} {value : ν} {b : Char × ν} :
    ∀ {bs : List (Char × ν)}, b ∈ insert name value bs → b = (name, value) ∨ b ∈ bs
  | [], h => by simpa [insert] using h
  | (other, old) :: rest, h => by
    unfold insert at h
    split at h
    · simpa using h
    split at h
    · rcases List.mem_cons.1 h with h | h
      · exact Or.inl h
      · exact Or.inr (List.mem_cons_of_mem _ h)
    · rcases List.mem_cons.1 h with h | h
      · exact Or.inr (h ▸ List.mem_cons_self)
      · exact (mem_insert h).imp_right (List.mem_cons_of_mem _)

theorem pairwise_insert (name : Char) (value : ν) :
    ∀ {bs : List (Char × ν)}, bs.Pairwise (fun a b => a.1 < b.1) →
      (insert name value bs).Pairwise (fun a b => a.1 < b.1)
  | [], _ => by simp [insert]
  | (other, old) :: rest, h => by
    obtain ⟨hhead, hrest⟩ := List.pairwise_cons.1 h
    unfold insert
    split
    · next hlt =>
      refine List.pairwise_cons.2 ⟨fun b hb => ?_, h⟩
      rcases List.mem_cons.1 hb with rfl | hb
      · exact hlt
      · exact Char.lt_trans hlt (hhead b hb)
    split
    · next heq => exact List.pairwise_cons.2 ⟨fun b hb => heq ▸ hhead b hb, hrest⟩
    · next hnlt hne =>
      refine List.pairwise_cons.2 ⟨fun b hb => ?_, pairwise_insert name value hrest⟩
      rcases mem_insert hb with rfl | hb
      · exact Char.not_le.1 fun hle => hne (Char.le_antisymm hle (Char.not_lt.1 hnlt))
      · exact hhead b hb

/-- Binds a name to a value. -/
def set (s : Store ν) (name : Char) (value : ν) : Store ν :=
  ⟨insert name value s.bindings, pairwise_insert name value s.sorted⟩

/-- Removes all bindings. -/
def clear (_ : Store ν) : Store ν := empty

/-- The number of bindings. -/
def size (s : Store ν) : Nat := s.bindings.length

/-- Whether nothing is bound. -/
def isEmpty (s : Store ν) : Bool := s.bindings.isEmpty

/-- The entry of a binding, such as `x=-1`. -/
def entry (b : Char × Value) : String := String.singleton b.1 ++ "=" ++ Value.text b.2

/-- The bindings in ascending order of their names, such as `(a=1,b=2)`. -/
def text (s : Store Value) : String := "(" ++ ",".intercalate (s.bindings.map entry) ++ ")"

/-! ## What a store answers -/

@[simp] theorem get?_empty (name : Char) : (empty : Store ν).get? name = none := rfl

@[simp] theorem get?_clear (s : Store ν) (name : Char) : s.clear.get? name = none := rfl

/-- Looking up a name asks the first binding, then the others. -/
theorem lookup_cons (name : Char) (value : ν) (key : Char) (bs : List (Char × ν)) :
    ((name, value) :: bs).lookup key = if key = name then some value else bs.lookup key := by
  rw [List.lookup_cons]
  by_cases h : key = name
  · simp [h]
  · rw [if_neg h, beq_eq_false_iff_ne.2 h]

theorem lookup_insert (name : Char) (value : ν) (key : Char) (bs : List (Char × ν)) :
    (insert name value bs).lookup key = if key = name then some value else bs.lookup key := by
  induction bs with
  | nil => exact lookup_cons name value key []
  | cons b rest ih =>
    obtain ⟨other, old⟩ := b
    unfold insert
    split
    · exact lookup_cons name value key _
    split
    · next heq =>
      subst heq
      rw [lookup_cons, lookup_cons]
      split <;> rfl
    · next hnlt hne =>
      rw [lookup_cons, lookup_cons, ih]
      by_cases h : key = other
      · rw [if_pos h, if_neg (h ▸ Ne.symm hne), if_pos h]
      · rw [if_neg h, if_neg h]

/-- Setting a name changes what the store answers for it, and for no other name. -/
theorem get?_set (s : Store ν) (name : Char) (value : ν) (key : Char) :
    (s.set name value).get? key = if key = name then some value else s.get? key :=
  lookup_insert name value key s.bindings

/-- A name that is smaller than all those bound has no value. -/
theorem lookup_eq_none_of_lt {key : Char} {bs : List (Char × ν)} (h : ∀ b ∈ bs, key < b.1) :
    bs.lookup key = none := by
  induction bs with
  | nil => rfl
  | cons b rest ih =>
    obtain ⟨name, value⟩ := b
    have hne : key ≠ name := fun he => Char.lt_irrefl _ (he ▸ h _ List.mem_cons_self)
    rw [lookup_cons, if_neg hne]
    exact ih fun c hc => h c (List.mem_cons_of_mem _ hc)

/-- The first name of ascending bindings is bound, and every name before it is not. -/
theorem le_of_lookup_isSome {name key : Char} {value : ν} {bs : List (Char × ν)}
    (hs : ((name, value) :: bs).Pairwise (fun a b => a.1 < b.1))
    (h : (((name, value) :: bs).lookup key).isSome) : name ≤ key := by
  refine Char.not_lt.1 fun hlt => ?_
  have hn : ((name, value) :: bs).lookup key = none := by
    refine lookup_eq_none_of_lt fun b hb => ?_
    rcases List.mem_cons.1 hb with rfl | hb
    · exact hlt
    · exact Char.lt_trans hlt ((List.pairwise_cons.1 hs).1 b hb)
  simp [hn] at h

/-- Ascending bindings are determined by the values of all names. -/
theorem eq_of_lookup_eq :
    ∀ {as bs : List (Char × ν)}, as.Pairwise (fun a b => a.1 < b.1) →
      bs.Pairwise (fun a b => a.1 < b.1) → (∀ name, as.lookup name = bs.lookup name) → as = bs
  | [], [], _, _, _ => rfl
  | [], (b, v) :: bs, _, _, h => by simpa [lookup_cons] using h b
  | (a, u) :: as, [], _, _, h => by simpa [lookup_cons] using h a
  | (a, u) :: as, (b, v) :: bs, ha, hb, h => by
    have hab : a = b := by
      refine Char.le_antisymm ?_ ?_
      · exact le_of_lookup_isSome ha (by rw [h b, lookup_cons, if_pos rfl]; rfl)
      · exact le_of_lookup_isSome hb (by rw [← h a, lookup_cons, if_pos rfl]; rfl)
    subst hab
    have huv : u = v := by simpa [lookup_cons] using h a
    subst huv
    obtain ⟨hah, has⟩ := List.pairwise_cons.1 ha
    obtain ⟨hbh, hbs⟩ := List.pairwise_cons.1 hb
    congr 1
    refine eq_of_lookup_eq has hbs fun name => ?_
    by_cases hn : name = a
    · rw [hn, lookup_eq_none_of_lt hah, lookup_eq_none_of_lt hbh]
    · simpa [lookup_cons, hn] using h name

/-- A store is determined by what it answers. -/
theorem ext_get? {s t : Store ν} (h : ∀ name, s.get? name = t.get? name) : s = t := by
  obtain ⟨as, ha⟩ := s
  obtain ⟨bs, hb⟩ := t
  congr 1
  exact eq_of_lookup_eq ha hb h

end Store

end LetterCalc
