import LetterCalc.Store
import Mathlib.Logic.Function.Basic

/-!
# The listing of a store

The text of a store is a faithful picture of what the store binds.  It follows from the map of
names to values alone, whatever was done to arrive at that map, and the map can be read off the text
again.

What a listing is, is said without the store (`Lists`): the bindings of a map, each once and in
ascending order of the names.  A store is such a list of bindings, so a map has one listing and it
is the text of the store (`lists_iff`).  In particular the names may come in any order, as they do
when they are taken from a table without one: sorted and written with their values, they give the
text of the store (`lists_sortedText`).

Any character can be a name, also those that the listing is built with: the store that binds `)` to
`5` is written `()=5)`.  The text can be taken apart all the same.  A name is a single character and
is followed by `=`, and a value holds no comma, so where a value starts it ends at the next comma or
with the text (`entries_injective`).
-/

namespace LetterCalc

namespace Value

theorem isDigit_of_mem_repr {n : Nat} {c : Char} (h : c ∈ n.repr.toList) : c.isDigit = true := by
  rw [Nat.toList_repr] at h
  exact Nat.isDigit_of_mem_toDigits (by decide) (by decide) h

theorem eq_of_repr_eq {m n : Nat} (h : m.repr = n.repr) : m = n :=
  calc m = natOfDigits m.repr := (natOfDigits_toString m).symm
    _ = natOfDigits n.repr := congrArg natOfDigits h
    _ = n := natOfDigits_toString n

theorem repr_ne_minus (n : Nat) (rest : String) : n.repr ≠ "-" ++ rest := by
  intro h
  have hminus : '-' ∈ n.repr.toList := by simp [h]
  exact absurd (isDigit_of_mem_repr hminus) (by decide)

theorem text_injective {u v : Value} (h : text u = text v) : u = v := by
  refine Int64.toInt_inj.1 ?_
  rw [text, text, Int.toString_eq_repr, Int.toString_eq_repr, Int.repr_eq_if, Int.repr_eq_if] at h
  -- The signs agree, since a natural number does not start with a minus.
  split at h
  · split at h
    · have habs := eq_of_repr_eq h
      omega
    · exact absurd h (repr_ne_minus _ _)
  · split at h
    · exact absurd h.symm (repr_ne_minus _ _)
    · have habs := eq_of_repr_eq ((String.append_right_inj _).1 h)
      omega

theorem comma_not_mem_text (v : Value) : ',' ∉ (text v).toList := by
  have hdigits : ∀ n : Nat, ',' ∉ n.repr.toList := fun n h =>
    absurd (isDigit_of_mem_repr h) (by decide)
  rw [text, Int.toString_eq_repr, Int.repr_eq_if]
  split
  · exact hdigits _
  · rw [String.toList_append, List.mem_append, not_or]
    exact ⟨by decide, hdigits _⟩

end Value

namespace Store

/-! ## What is done to a store -/

section Changes

variable {ν : Type}

/-- Something that is done to a store. -/
inductive Change (ν : Type) where
  /-- A name is bound to a value. -/
  | set (name : Char) (value : ν)
  /-- All bindings are removed. -/
  | clear
deriving DecidableEq, Repr

/-- The store after a change. -/
def Change.apply (s : Store ν) : Change ν → Store ν
  | set name value => s.set name value
  | clear => s.clear

/-- The map of names to values after a change. -/
def Change.update (map : Char → Option ν) : Change ν → Char → Option ν
  | set name value => Function.update map name (some value)
  | clear => fun _ => none

/-- The store that the given changes make of an empty one. -/
def ofChanges (changes : List (Change ν)) : Store ν := changes.foldl Change.apply empty

/-- The map that the given changes make of an empty one. -/
def mapOf (changes : List (Change ν)) : Char → Option ν := changes.foldl Change.update fun _ => none

theorem get?_apply (s : Store ν) (change : Change ν) :
    (change.apply s).get? = change.update s.get? := by
  funext key
  cases change with
  | set name value => rw [Change.apply, get?_set, Change.update, Function.update_apply]
  | clear => rfl

/-- A store answers according to the map that the changes have made. -/
theorem get?_ofChanges (changes : List (Change ν)) : (ofChanges changes).get? = mapOf changes := by
  have hrun : ∀ s : Store ν,
      (changes.foldl Change.apply s).get? = changes.foldl Change.update s.get? := by
    induction changes with
    | nil => exact fun _ => rfl
    | cons change changes ih =>
      intro s
      rw [List.foldl_cons, List.foldl_cons, ih, get?_apply]
  exact hrun empty

/-- The bindings of a store are what it answers. -/
theorem mem_bindings_iff {s : Store ν} {name : Char} {value : ν} :
    (name, value) ∈ s.bindings ↔ s.get? name = some value := by
  obtain ⟨bindings, hsorted⟩ := s
  rw [get?]
  induction bindings with
  | nil => simp
  | cons b bs ih =>
    obtain ⟨first, v⟩ := b
    obtain ⟨hfirst, hbs⟩ := List.pairwise_cons.1 hsorted
    rw [lookup_cons, List.mem_cons, Prod.mk.injEq]
    by_cases h : name = first
    · -- Every other binding has a greater name.
      subst h
      have hno : (name, value) ∉ bs := fun hm => Char.lt_irrefl _ (hfirst (name, value) hm)
      simp [hno, eq_comm]
    · rw [if_neg h, ← ih hbs]
      simp [h]

end Changes

/-! ## Listings -/

/-- The text lists the map: the entries of all bindings, in strictly ascending order of the code
points of their names, with commas in between and parentheses around them. -/
def Lists (map : Char → Option Value) (text : String) : Prop :=
  ∃ bindings : List (Char × Value),
    bindings.Pairwise (fun a b => a.1.toNat < b.1.toNat) ∧
    (∀ name value, (name, value) ∈ bindings ↔ map name = some value) ∧
    text = "(" ++ ",".intercalate (bindings.map entry) ++ ")"

theorem lists_text (s : Store Value) : Lists s.get? s.text :=
  ⟨s.bindings, s.sorted, fun _ _ => mem_bindings_iff, rfl⟩

/-- A map that a store answers by has one listing, and that is the text of the store. -/
theorem lists_iff {s : Store Value} {text : String} : Lists s.get? text ↔ text = s.text := by
  constructor
  · rintro ⟨bindings, hsorted, hmem, rfl⟩
    -- The listed bindings are a store, and it answers as `s` does.
    have hs : ⟨bindings, hsorted⟩ = s := by
      refine ext_get? fun name => Option.ext fun value => ?_
      rw [← mem_bindings_iff, ← hmem]
    rw [← hs]
    rfl
  · rintro rfl
    exact s.lists_text

/-! ## Sorted names -/

/-- The names are those that the map binds, each once and in any order. -/
structure Enumerates (map : Char → Option Value) (names : List Char) : Prop where
  /-- No name comes twice. -/
  nodup : names.Nodup
  /-- The names that come are those with a value. -/
  mem_iff : ∀ name, name ∈ names ↔ (map name).isSome = true

/-- The text that is made of names: they are sorted and written with their values. -/
def sortedText (map : Char → Option Value) (names : List Char) : String :=
  "(" ++ ",".intercalate
    (names.mergeSort.filterMap fun name => (map name).map fun value => entry (name, value)) ++ ")"

theorem pairwise_lt_mergeSort {names : List Char} (h : names.Nodup) :
    names.mergeSort.Pairwise (· < ·) := by
  have hle : names.mergeSort.Pairwise (fun a b => decide (a ≤ b) = true) := by
    refine List.pairwise_mergeSort (fun a b c hab hbc => ?_) (fun a b => ?_) names
    · exact decide_eq_true (Char.le_trans (of_decide_eq_true hab) (of_decide_eq_true hbc))
    · rw [Bool.or_eq_true, decide_eq_true_iff, decide_eq_true_iff]
      exact Char.le_total a b
  have hnodup : names.mergeSort.Nodup := (List.mergeSort_perm names _).nodup_iff.2 h
  refine (hle.and hnodup).imp fun {a b} hab => Char.not_le.1 fun hba => ?_
  exact hab.2 (Char.le_antisymm (of_decide_eq_true hab.1) hba)

/-- Whatever the order in which the names of a map come, sorting them gives its listing. -/
theorem lists_sortedText {map : Char → Option Value} {names : List Char}
    (h : Enumerates map names) : Lists map (sortedText map names) := by
  -- The listed bindings are the sorted names with their values, and every name has one.
  refine ⟨names.mergeSort.filterMap fun name => (map name).map (name, ·), ?_, ?_, ?_⟩
  · refine (pairwise_lt_mergeSort h.nodup).filterMap _ fun a b hab x hx y hy => ?_
    obtain ⟨_, -, rfl⟩ := Option.map_eq_some_iff.1 hx
    obtain ⟨_, -, rfl⟩ := Option.map_eq_some_iff.1 hy
    exact hab
  · intro name value
    rw [List.mem_filterMap]
    constructor
    · rintro ⟨other, -, hother⟩
      obtain ⟨_, hvalue, hpair⟩ := Option.map_eq_some_iff.1 hother
      cases hpair
      exact hvalue
    · intro hvalue
      have hname : name ∈ names := (h.mem_iff name).2 (by rw [hvalue]; rfl)
      exact ⟨name, List.mem_mergeSort.2 hname, by rw [hvalue]; rfl⟩
  · simp only [sortedText, List.map_filterMap, Option.map_map]
    rfl

/-! ## Taking a listing apart -/

section Apart

variable {α : Type} {mark : α} {xs ys rest rest' : List α}

/-- A list in which a mark does not occur ends where the first mark stands. -/
theorem append_inj_of_mark (hx : mark ∉ xs) (hy : mark ∉ ys)
    (hr : ∀ a ∈ rest.head?, a = mark) (hr' : ∀ a ∈ rest'.head?, a = mark)
    (h : xs ++ rest = ys ++ rest') : xs = ys ∧ rest = rest' := by
  induction xs generalizing ys with
  | nil =>
    cases ys with
    | nil => exact ⟨rfl, h⟩
    | cons y ys =>
      rw [List.nil_append] at h
      have hmark : y = mark := hr y (by rw [h]; rfl)
      exact absurd (hmark ▸ List.mem_cons_self) hy
  | cons x xs ih =>
    cases ys with
    | nil =>
      rw [List.nil_append] at h
      have hmark : x = mark := hr' x (by rw [← h]; rfl)
      exact absurd (hmark ▸ List.mem_cons_self) hx
    | cons y ys =>
      obtain ⟨rfl, htail⟩ := List.cons.inj h
      obtain ⟨rfl, hrest⟩ := ih (fun hm => hx (List.mem_cons_of_mem _ hm))
        (fun hm => hy (List.mem_cons_of_mem _ hm)) htail
      exact ⟨rfl, hrest⟩

end Apart

/-- An entry is taken off the front of a text in one way, if a comma or nothing follows it. -/
theorem entry_append_inj {b b' : Char × Value} {rest rest' : List Char}
    (hr : ∀ c ∈ rest.head?, c = ',') (hr' : ∀ c ∈ rest'.head?, c = ',')
    (h : (entry b).toList ++ rest = (entry b').toList ++ rest') : b = b' ∧ rest = rest' := by
  obtain ⟨name, value⟩ := b
  obtain ⟨name', value'⟩ := b'
  have hchars : name :: '=' :: ((Value.text value).toList ++ rest) =
      name' :: '=' :: ((Value.text value').toList ++ rest') := by
    simpa [entry] using h
  obtain ⟨rfl, hvalue⟩ := List.cons.inj hchars
  obtain ⟨htext, hrest⟩ := append_inj_of_mark (Value.comma_not_mem_text value)
    (Value.comma_not_mem_text value') hr hr' (List.cons.inj hvalue).2
  rw [Value.text_injective (String.toList_injective htext)]
  exact ⟨rfl, hrest⟩

/-- The characters of entries with commas in between. -/
def entries (bs : List (Char × Value)) : List Char :=
  [','].intercalate (bs.map fun b => (entry b).toList)

/-- Behind the first entry there is nothing, or a comma and the other entries. -/
theorem exists_entries_cons (b : Char × Value) (bs : List (Char × Value)) :
    ∃ rest, entries (b :: bs) = (entry b).toList ++ rest ∧ (∀ c ∈ rest.head?, c = ',') ∧
      rest.tail = entries bs := by
  cases bs with
  | nil => exact ⟨[], by simp [entries], by simp, rfl⟩
  | cons b' bs => exact ⟨',' :: entries (b' :: bs), by simp [entries], by simp, rfl⟩

theorem entries_ne_nil (b : Char × Value) (bs : List (Char × Value)) : entries (b :: bs) ≠ [] := by
  obtain ⟨rest, h, -⟩ := exists_entries_cons b bs
  simp [h, entry]

/-- Entries with commas in between can be told apart. -/
theorem entries_injective {as bs : List (Char × Value)} (h : entries as = entries bs) :
    as = bs := by
  induction as generalizing bs with
  | nil =>
    cases bs with
    | nil => rfl
    | cons b bs => exact absurd h.symm (entries_ne_nil b bs)
  | cons a as ih =>
    cases bs with
    | nil => exact absurd h (entries_ne_nil a as)
    | cons b bs =>
      obtain ⟨rest, ha, hrest, has⟩ := exists_entries_cons a as
      obtain ⟨rest', hb, hrest', hbs⟩ := exists_entries_cons b bs
      rw [ha, hb] at h
      obtain ⟨rfl, rfl⟩ := entry_append_inj hrest hrest' h
      rw [ih (has.symm.trans hbs)]

theorem toList_text (s : Store Value) : s.text.toList = '(' :: (entries s.bindings ++ [')']) := by
  simp [text, entries, entry, Function.comp_def]

/-- A store is determined by its text. -/
theorem text_injective {s t : Store Value} (h : s.text = t.text) : s = t := by
  have hchars := congrArg String.toList h
  rw [toList_text, toList_text] at hchars
  have hbindings := entries_injective (List.append_cancel_right (List.cons.inj hchars).2)
  exact ext_get? fun name => by rw [get?, get?, hbindings]

/-- The text of a store is canonical and loses nothing.  Whatever has been set and cleared, the text
is the one listing of the map that is left: each bound name once, in ascending order.  So it depends
on that map only, and two stores with the same text have the same map.  It is made by sorting the
bound names, in whatever order these are found. -/
theorem text_canonical_and_lossless :
    (∀ (changes : List (Change Value)) (text : String),
      Lists (mapOf changes) text ↔ text = (ofChanges changes).text) ∧
    (∀ changes changes' : List (Change Value),
      (ofChanges changes).text = (ofChanges changes').text ↔ mapOf changes = mapOf changes') ∧
    ∀ (changes : List (Change Value)) (names : List Char), Enumerates (mapOf changes) names →
      sortedText (mapOf changes) names = (ofChanges changes).text := by
  refine ⟨fun changes text => ?_, fun changes changes' => ⟨fun h => ?_, fun h => ?_⟩,
    fun changes names h => ?_⟩
  · rw [← get?_ofChanges]
    exact lists_iff
  · rw [← get?_ofChanges, ← get?_ofChanges, text_injective h]
  · rw [← get?_ofChanges, ← get?_ofChanges] at h
    rw [ext_get? (congrFun h)]
  · rw [← get?_ofChanges] at h ⊢
    exact lists_iff.1 (lists_sortedText h)

/-- A name that is bound again is listed once, and the names are sorted before they are listed. -/
theorem text_of_unsorted_names :
    Enumerates (mapOf [.set 'b' 1, .set 'a' (-2), .set 'b' 3]) ['b', 'a'] ∧
    sortedText (mapOf [.set 'b' 1, .set 'a' (-2), .set 'b' 3]) ['b', 'a'] = "(a=-2,b=3)" := by
  have henum : Enumerates (mapOf [.set 'b' 1, .set 'a' (-2), .set 'b' 3]) ['b', 'a'] := by
    refine ⟨by decide, fun name => ?_⟩
    by_cases hb : name = 'b'
    · simp [mapOf, Change.update, hb]
    · by_cases ha : name = 'a'
      · simp [mapOf, Change.update, ha]
      · simp [mapOf, Change.update, ha, hb]
  exact ⟨henum, (text_canonical_and_lossless.2.2 _ _ henum).trans (by decide +kernel)⟩

-- The characters of the listing can be names in it.
example :
    (ofChanges [.set ')' 5]).text = "()=5)" ∧
    (ofChanges [.set '=' 1, .set ',' (-2), .set '=' 3]).text = "(,=-2,==3)" := by
  decide +kernel

end Store

end LetterCalc
