/-
KademliaAuction.Lib.Nearest — the `k` elements of a list with the smallest
keys.

`nearest d k l` sorts `l` by the key `d` and keeps `k` elements. Where the
keys are distinct it is determined by its members, and an element is a
member when fewer than `k` others have a smaller key (`mem_nearest`).

`nearest_append_eq_iff` answers the question an early-stopping search
raises: looking only at `found` and leaving `missed` out changes nothing
exactly when every missed element has `k` found ones below it.
-/
import Mathlib.Data.List.Nodup
import Mathlib.Data.List.MinMax
import Mathlib.Data.List.Sort

namespace KademliaAuction.Lib.Nearest

variable {α : Type*} (d : α → Nat)

/-- The `k` elements with the smallest keys, in the order of their keys. -/
def nearest (k : Nat) (l : List α) : List α :=
  (l.mergeSort fun a b => decide (d a ≤ d b)).take k

/-- How many elements have a smaller key than `a`. -/
def rank (l : List α) (a : α) : Nat := l.countP fun x => decide (d x < d a)

variable {d}

/-! ## Sorting by distinct keys -/

theorem pairwise_le_mergeSort (l : List α) :
    (l.mergeSort fun a b => decide (d a ≤ d b)).Pairwise fun a b => d a ≤ d b := by
  have hsort := @List.pairwise_mergeSort _ (fun a b : α => decide (d a ≤ d b))
    (fun a b c hab hbc => by simp at hab hbc ⊢; omega) (fun a b => by simp; omega) l
  exact hsort.imp fun hab => by simpa using hab

theorem pairwise_lt_mergeSort {l : List α} (h : (l.map d).Nodup) :
    (l.mergeSort fun a b => decide (d a ≤ d b)).Pairwise fun a b => d a < d b := by
  have hle := pairwise_le_mergeSort (d := d) l
  have hperm := List.mergeSort_perm l fun a b => decide (d a ≤ d b)
  have hnodup : ((l.mergeSort fun a b => decide (d a ≤ d b)).map d).Nodup :=
    (hperm.map d).nodup_iff.mpr h
  rw [List.Nodup, List.pairwise_map] at hnodup
  exact (hle.and hnodup).imp fun ⟨hab, hne⟩ => Nat.lt_of_le_of_ne hab hne

/-- In a strictly sorted list the first `k` elements are those of rank below
`k`. -/
theorem mem_take_iff_rank : ∀ {l : List α} {k : Nat} {a : α},
    l.Pairwise (fun x y => d x < d y) → (a ∈ l.take k ↔ a ∈ l ∧ rank d l a < k)
  | [], k, a, _ => by simp
  | x :: l, 0, a, _ => by simp
  | x :: l, k + 1, a, h => by
    rw [List.pairwise_cons] at h
    have ih := mem_take_iff_rank (k := k) (a := a) h.2
    rw [List.take_succ_cons, List.mem_cons, List.mem_cons, ih]
    by_cases ha : a ∈ l
    · have hxa : d x < d a := h.1 a ha
      have hrank : rank d (x :: l) a = rank d l a + 1 := by simp [rank, hxa]
      simp only [ha, true_and, or_true, hrank]
      constructor
      · intro hor
        rcases hor with rfl | hlt
        · omega
        · omega
      · intro hlt
        exact Or.inr (by omega)
    · simp only [ha, false_and, or_false]
      constructor
      · intro hax
        subst hax
        have hzero : rank d (a :: l) a = 0 := by
          refine List.countP_eq_zero.mpr fun y hy => ?_
          rcases List.mem_cons.mp hy with rfl | hy
          · simp
          · have := h.1 y hy
            simp only [decide_eq_true_eq]
            omega
        exact ⟨rfl, by omega⟩
      · intro hand
        exact hand.1

/-! ## `nearest` -/

/-- **Membership**: an element is among the `k` nearest when fewer than `k`
are nearer. -/
theorem mem_nearest {k : Nat} {l : List α} {a : α} (h : (l.map d).Nodup) :
    a ∈ nearest d k l ↔ a ∈ l ∧ rank d l a < k := by
  have hperm := List.mergeSort_perm l fun a b => decide (d a ≤ d b)
  unfold nearest
  rw [mem_take_iff_rank (pairwise_lt_mergeSort h), hperm.mem_iff, rank, rank, hperm.countP_eq]

theorem pairwise_nearest {k : Nat} {l : List α} (h : (l.map d).Nodup) :
    (nearest d k l).Pairwise fun a b => d a < d b :=
  (pairwise_lt_mergeSort h).sublist (List.take_sublist ..)

/-- Strictly sorted lists with the same members are equal. -/
theorem eq_of_pairwise_lt {l₁ l₂ : List α} (h₁ : l₁.Pairwise fun a b => d a < d b)
    (h₂ : l₂.Pairwise fun a b => d a < d b) (hmem : ∀ a, a ∈ l₁ ↔ a ∈ l₂) : l₁ = l₂ := by
  have hnodup : ∀ {l : List α}, l.Pairwise (fun a b => d a < d b) → l.Nodup := fun h =>
    h.imp fun hab heq => by subst heq; omega
  have hperm : l₁.Perm l₂ := (List.perm_ext_iff_of_nodup (hnodup h₁) (hnodup h₂)).mpr hmem
  exact List.Perm.eq_of_pairwise (fun a b _ _ hab hba => by omega) h₁ h₂ hperm

/-- The order of the list does not matter. -/
theorem nearest_congr_perm {k : Nat} {l₁ l₂ : List α} (h : (l₁.map d).Nodup) (hperm : l₁.Perm l₂) :
    nearest d k l₁ = nearest d k l₂ := by
  have h₂ : (l₂.map d).Nodup := (hperm.map d).nodup_iff.mp h
  refine eq_of_pairwise_lt (pairwise_nearest h) (pairwise_nearest h₂) fun a => ?_
  rw [mem_nearest h, mem_nearest h₂, hperm.mem_iff, rank, rank, hperm.countP_eq]

theorem rank_append (l₁ l₂ : List α) (a : α) : rank d (l₁ ++ l₂) a = rank d l₁ a + rank d l₂ a :=
  List.countP_append

theorem rank_le_rank {l : List α} {a b : α} (h : d a ≤ d b) : rank d l a ≤ rank d l b :=
  List.countP_mono_left fun x _ hx => by simp at hx ⊢; omega

/-- **Stopping early**: the nearest elements among `found` are the nearest
overall exactly when every element that was missed has `k` found ones below
it. Where the condition fails, the smallest missed element is among the `k`
nearest overall. -/
theorem nearest_append_eq_iff {k : Nat} {found missed : List α}
    (h : ((found ++ missed).map d).Nodup) :
    nearest d k found = nearest d k (found ++ missed) ↔ ∀ r ∈ missed, k ≤ rank d found r := by
  have hfound : (found.map d).Nodup := by
    rw [List.map_append] at h
    exact (List.nodup_append.mp h).1
  have hdisjoint : ∀ r ∈ missed, r ∉ found := by
    intro r hr hf
    rw [List.map_append, List.nodup_append] at h
    exact h.2.2 _ (List.mem_map_of_mem hf) _ (List.mem_map_of_mem hr) rfl
  constructor
  · intro heq r hr
    by_contra hlt
    cases hmin : List.argmin d missed with
    | none => simp [List.argmin_eq_none.mp hmin] at hr
    | some m =>
      have hm : m ∈ missed := List.argmin_mem hmin
      have hmr : d m ≤ d r := List.le_of_mem_argmin hr hmin
      have hbelow : rank d missed m = 0 := by
        refine List.countP_eq_zero.mpr fun x hx => ?_
        have := List.le_of_mem_argmin hx hmin
        simp only [decide_eq_true_eq]
        omega
      have hmrank : rank d found m ≤ rank d found r := rank_le_rank hmr
      have hmem : m ∈ nearest d k (found ++ missed) :=
        (mem_nearest h).mpr ⟨List.mem_append_right _ hm, by rw [rank_append]; omega⟩
      rw [← heq, mem_nearest hfound] at hmem
      exact hdisjoint m hm hmem.1
  · intro hall
    refine eq_of_pairwise_lt (pairwise_nearest hfound) (pairwise_nearest h) fun a => ?_
    rw [mem_nearest hfound, mem_nearest h, rank_append, List.mem_append]
    constructor
    · intro ⟨ha, hlt⟩
      -- a missed element below `a` would have `k` found ones below it, so below `a`
      have hnone : rank d missed a = 0 := by
        refine List.countP_eq_zero.mpr fun x hx => ?_
        simp only [decide_eq_true_eq]
        intro hxa
        have hk := hall x hx
        have hle := rank_le_rank (l := found) (Nat.le_of_lt hxa)
        omega
      exact ⟨Or.inl ha, by omega⟩
    · intro ⟨ha, hlt⟩
      rcases ha with ha | ha
      · exact ⟨ha, by omega⟩
      · have hk := hall a ha
        omega

end KademliaAuction.Lib.Nearest
