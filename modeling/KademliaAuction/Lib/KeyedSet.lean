/-
KademliaAuction.Lib.KeyedSet — finite sets whose elements are compared by a
key only.

This is what a `HashSet<T>` is when `T`'s `PartialEq` and `Hash` look at one
field: at most one element for each key, `insert` keeps the element that is
there, `replace` puts the new one in its place. The list of elements is
the set's iteration order, which the hash set leaves open. The field
`nodupKeys` makes a set with two elements of one key unbuildable.

Up to that order a set is the finite map `find`. Replacing
updates the map at one key, and a set rebuilt from its changed elements is
the changed map, whatever order they come in (`find_collect_map`).
-/
import Mathlib.Data.List.Nodup
import Mathlib.Data.List.Perm.Basic

namespace KademliaAuction.Lib

/-- A finite set of `α` compared by `key`. -/
structure KeyedSet (α : Type*) {κ : Type*} (key : α → κ) where
  elems : List α
  nodupKeys : (elems.map key).Nodup

namespace KeyedSet

variable {α κ : Type*} [DecidableEq κ] {key : α → κ}

/-! ## Lists -/

/-- Put `a` in the place of the element with its key, or at the end. -/
def replaceIn (key : α → κ) (a : α) : List α → List α
  | [] => [a]
  | e :: es => if key e = key a then a :: es else e :: replaceIn key a es

theorem map_key_replaceIn (a : α) (l : List α) :
    (replaceIn key a l).map key =
      if key a ∈ l.map key then l.map key else l.map key ++ [key a] := by
  induction l with
  | nil => simp [replaceIn]
  | cons e es ih =>
    by_cases h : key e = key a
    · simp [replaceIn, h]
    · have h' : ¬ key a = key e := fun hc => h hc.symm
      simp only [replaceIn, h, if_false, List.map_cons, ih, List.mem_cons, h', false_or]
      split <;> simp

theorem mem_replaceIn {a e : α} {l : List α} (hl : (l.map key).Nodup) :
    e ∈ replaceIn key a l ↔ e = a ∨ (e ∈ l ∧ key e ≠ key a) := by
  induction l with
  | nil => simp [replaceIn]
  | cons x xs ih =>
    simp only [List.map_cons, List.nodup_cons] at hl
    by_cases h : key x = key a
    · have hxs : ∀ y ∈ xs, key y ≠ key a := fun y hy hk =>
        hl.1 (h ▸ hk ▸ List.mem_map_of_mem hy)
      simp only [replaceIn, h, if_true, List.mem_cons]
      constructor
      · rintro (rfl | he)
        · exact Or.inl rfl
        · exact Or.inr ⟨Or.inr he, hxs e he⟩
      · rintro (rfl | ⟨rfl | he, hk⟩)
        · exact Or.inl rfl
        · exact absurd h hk
        · exact Or.inr he
    · simp only [replaceIn, h, if_false, List.mem_cons, ih hl.2]
      constructor
      · rintro (rfl | rfl | ⟨he, hk⟩)
        · exact Or.inr ⟨Or.inl rfl, h⟩
        · exact Or.inl rfl
        · exact Or.inr ⟨Or.inr he, hk⟩
      · rintro (rfl | ⟨rfl | he, hk⟩)
        · exact Or.inr (Or.inl rfl)
        · exact Or.inl rfl
        · exact Or.inr (Or.inr ⟨he, hk⟩)

/-! ## Operations -/

/-- No elements. -/
def empty : KeyedSet α key := ⟨[], by simp⟩

/-- `HashSet::replace`. -/
def replace (s : KeyedSet α key) (a : α) : KeyedSet α key where
  elems := replaceIn key a s.elems
  nodupKeys := by
    rw [map_key_replaceIn]
    split
    · exact s.nodupKeys
    · rename_i h
      simpa [List.nodup_append] using ⟨s.nodupKeys, fun x hx hk => h (by simpa using ⟨x, hx, hk⟩)⟩

/-- `HashSet::insert`, as `extend` and `collect` use it: an element with this
key stays. -/
def insert (s : KeyedSet α key) (a : α) : KeyedSet α key :=
  if h : key a ∈ s.elems.map key then s
  else ⟨s.elems ++ [a], by
    simpa [List.nodup_append] using ⟨s.nodupKeys, fun x hx hk => h (by simpa using ⟨x, hx, hk⟩)⟩⟩

/-- `into_iter().collect()` into a set. -/
def collect (l : List α) : KeyedSet α key := l.foldl insert empty

/-- The element with a key. -/
def find (s : KeyedSet α key) (k : κ) : Option α := s.elems.find? fun e => key e = k

instance : Membership α (KeyedSet α key) := ⟨fun s a => a ∈ s.elems⟩

omit [DecidableEq κ] in
theorem mem_def {s : KeyedSet α key} {a : α} : a ∈ s ↔ a ∈ s.elems := Iff.rfl

omit [DecidableEq κ] in
@[simp] theorem not_mem_empty (a : α) : ¬ a ∈ (empty : KeyedSet α key) := by
  simp [mem_def, empty]

omit [DecidableEq κ] in
/-- An element is determined by its key. -/
theorem eq_of_key_eq {s : KeyedSet α key} {a b : α} (ha : a ∈ s) (hb : b ∈ s)
    (h : key a = key b) : a = b :=
  List.inj_on_of_nodup_map s.nodupKeys ha hb h

theorem mem_replace {s : KeyedSet α key} {a e : α} :
    e ∈ s.replace a ↔ e = a ∨ (e ∈ s ∧ key e ≠ key a) :=
  mem_replaceIn s.nodupKeys

theorem mem_replace_self (s : KeyedSet α key) (a : α) : a ∈ s.replace a :=
  mem_replace.mpr (Or.inl rfl)

theorem find_eq_some {s : KeyedSet α key} {k : κ} {a : α} :
    s.find k = some a ↔ a ∈ s ∧ key a = k := by
  constructor
  · intro h
    exact ⟨List.mem_of_find?_eq_some h, by simpa using List.find?_some h⟩
  · rintro ⟨ha, rfl⟩
    cases hf : s.find (key a) with
    | none => simpa using List.find?_eq_none.mp hf a ha
    | some b =>
      have hb : b ∈ s := List.mem_of_find?_eq_some hf
      have hk : key b = key a := by simpa using List.find?_some hf
      rw [eq_of_key_eq hb ha hk]

theorem find_eq_none {s : KeyedSet α key} {k : κ} :
    s.find k = none ↔ ∀ a ∈ s, key a ≠ k := by
  simp [find, List.find?_eq_none, mem_def]

@[simp] theorem find_replace (s : KeyedSet α key) (a : α) (k : κ) :
    (s.replace a).find k = if key a = k then some a else s.find k := by
  split
  · rename_i h
    exact find_eq_some.mpr ⟨mem_replace_self s a, h⟩
  · rename_i h
    cases hf : s.find k with
    | none =>
      refine find_eq_none.mpr fun e he => ?_
      rcases mem_replace.mp he with rfl | ⟨he', _⟩
      · exact h
      · exact find_eq_none.mp hf e he'
    | some b =>
      obtain ⟨hb, rfl⟩ := find_eq_some.mp hf
      exact find_eq_some.mpr ⟨mem_replace.mpr (Or.inr ⟨hb, fun hc => h hc.symm⟩), rfl⟩

/-! ## Collecting a list -/

theorem elems_foldl_insert : ∀ (l : List α) (s : KeyedSet α key),
    (s.elems.map key ++ l.map key).Nodup → (l.foldl insert s).elems = s.elems ++ l := by
  intro l s h
  induction l generalizing s with
  | nil => simp
  | cons a l ih =>
    have ha : key a ∉ s.elems.map key := by
      rw [List.map_cons, List.nodup_append] at h
      exact fun hc => h.2.2 _ hc (key a) (by simp) rfl
    have hins : (s.insert a).elems = s.elems ++ [a] := by rw [insert, dif_neg ha]
    rw [List.foldl_cons, ih (s.insert a) (by rw [hins]; simpa using h), hins]
    simp

/-- Collecting a list without repeated keys keeps it. -/
theorem elems_collect {l : List α} (h : (l.map key).Nodup) :
    (collect l : KeyedSet α key).elems = l := by
  simpa [collect, empty] using elems_foldl_insert l (empty : KeyedSet α key) (by simpa [empty] using h)

/-- A set collected from a list, whatever its keys, holds nothing else. -/
theorem mem_of_mem_foldl_insert {a : α} : ∀ (l : List α) (s : KeyedSet α key),
    a ∈ l.foldl insert s → a ∈ s ∨ a ∈ l := by
  intro l s h
  induction l generalizing s with
  | nil => exact Or.inl h
  | cons b l ih =>
    rcases ih (s.insert b) h with hs | hl
    · unfold insert at hs
      split at hs
      · exact Or.inl hs
      · rcases List.mem_append.mp hs with hs | hb
        · exact Or.inl hs
        · exact Or.inr (List.mem_singleton.mp hb ▸ List.mem_cons_self)
    · exact Or.inr (List.mem_cons_of_mem _ hl)

theorem mem_of_mem_collect {l : List α} {a : α} (h : a ∈ (collect l : KeyedSet α key)) : a ∈ l := by
  rcases mem_of_mem_foldl_insert l empty h with hempty | hl
  · exact absurd hempty (not_mem_empty a)
  · exact hl

/-! ## Sets as maps -/

theorem mem_iff_find {s : KeyedSet α key} {a : α} : a ∈ s ↔ s.find (key a) = some a := by
  rw [find_eq_some]
  exact (and_iff_left rfl).symm

theorem mem_map_key {s : KeyedSet α key} {k : κ} :
    k ∈ s.elems.map key ↔ (s.find k).isSome := by
  rw [List.mem_map, Option.isSome_iff_exists]
  simp only [find_eq_some]
  rfl

section Map

variable {f : α → α} (hf : ∀ a, key (f a) = key a) {s : KeyedSet α key} {order : List α}
  (horder : order.Perm s.elems)

include hf horder

/-- A set rebuilt from its changed elements, taken in some order. -/
theorem elems_collect_map : (collect (order.map f) : KeyedSet α key).elems = order.map f := by
  refine elems_collect ?_
  have hsame : key ∘ f = key := funext hf
  rw [List.map_map, hsame]
  exact (horder.map key).nodup_iff.mpr s.nodupKeys

/-- A key finds what its element was changed to, whatever the order. -/
theorem find_collect_map (k : κ) :
    (collect (order.map f) : KeyedSet α key).find k = (s.find k).map f := by
  cases hfind : s.find k with
  | none =>
    refine find_eq_none.mpr fun b hb hk => ?_
    rw [mem_def, elems_collect_map hf horder, List.mem_map] at hb
    obtain ⟨a, ha, rfl⟩ := hb
    exact find_eq_none.mp hfind a (horder.mem_iff.mp ha) (by rw [← hf a, hk])
  | some a =>
    obtain ⟨ha, hk⟩ := find_eq_some.mp hfind
    refine find_eq_some.mpr ⟨?_, by rw [hf, hk]⟩
    rw [mem_def, elems_collect_map hf horder]
    exact List.mem_map_of_mem (horder.mem_iff.mpr ha)

end Map

end KeyedSet

end KademliaAuction.Lib
