/-
KademliaAuction.Routing.VisitOrder — the order in which
`get_k_closest_nodes` looks at the buckets, and where it stops.

The loop over neighbouring indices lists the target's own bucket, then one
below, one above, two below, two above, and so on; its `visited` array and
its early `break` never leave an index out (`neighborIndices_eq`). So every
bucket is listed once, in the order of `visitRank`
(`pairwise_bucketIndices`, `mem_bucketIndices`).

Collecting stops at the first bucket that brings the result to `k_value`
nodes: a bucket is scanned when the buckets listed before it hold fewer
(`mem_stopAfter`).
-/
import KademliaAuction.Routing.LruRefinement
import Mathlib.Algebra.BigOperators.Group.Finset.Basic
import Mathlib.Algebra.BigOperators.Group.List.Lemmas

namespace KademliaAuction.Routing

open Blockchain Lib

/-! ## The loop over neighbouring indices -/

/-- The indices one round of the loop adds. -/
def roundIndices (len targetIdx i : Nat) : List Nat :=
  (if i ≤ targetIdx then [targetIdx - i] else []) ++
    (if targetIdx + i < len then [targetIdx + i] else [])

/-- Before round `i` only indices less than `i` away are marked. -/
def MarkedBelow (targetIdx i : Nat) (visited : List Bool) : Prop :=
  ∀ j, visited.getD j false = true → targetIdx < j + i ∧ j < targetIdx + i

theorem getD_set_true {visited : List Bool} {l j : Nat}
    (h : (visited.set l true).getD j false = true) : j = l ∨ visited.getD j false = true := by
  simp only [List.getD_eq_getElem?_getD, List.getElem?_set] at h ⊢
  split at h
  · rename_i hlj
    exact Or.inl hlj.symm
  · exact Or.inr h

/-- An unmarked index is pushed when it is in range. -/
theorem visitIndex_some {len l : Nat} {visited : List Bool} {acc : List Nat}
    (h : visited.getD l false = false) :
    RoutingTable.visitIndex len (some l) (visited, acc) =
      if l < len then (visited.set l true, acc ++ [l]) else (visited, acc) := by
  unfold RoutingTable.visitIndex
  simp only [h, and_true]

/-- One round: it adds its indices and keeps the marks within reach. -/
theorem visitRound {len t i : Nat} {visited : List Bool} (acc : List Nat) (ht : t < len)
    (hi : 1 ≤ i) (hmarked : MarkedBelow t i visited) :
    ∃ visited', MarkedBelow t (i + 1) visited' ∧
      RoutingTable.visitIndex len (some (t + i))
        (RoutingTable.visitIndex len (if i ≤ t then some (t - i) else none) (visited, acc)) =
        (visited', acc ++ roundIndices len t i) := by
  have hfresh : ∀ {v : List Bool} {j : Nat}, MarkedBelow t i v → j + i ≤ t ∨ t + i ≤ j →
      v.getD j false = false := by
    intro v j hv hj
    cases hval : v.getD j false with
    | false => rfl
    | true =>
      have := hv j hval
      omega
  have hupper : ∀ (v : List Bool) (acc : List Nat), v.getD (t + i) false = false →
      (∀ j, v.getD j false = true → t < j + (i + 1) ∧ j < t + (i + 1)) →
      ∃ v', MarkedBelow t (i + 1) v' ∧ RoutingTable.visitIndex len (some (t + i)) (v, acc) =
        (v', acc ++ if t + i < len then [t + i] else []) := by
    intro v acc hv hreach
    rw [visitIndex_some hv]
    split
    · refine ⟨v.set (t + i) true, fun j hj => ?_, rfl⟩
      rcases getD_set_true hj with rfl | hj
      · omega
      · exact hreach j hj
    · exact ⟨v, hreach, by simp⟩
  unfold roundIndices
  by_cases hlow : i ≤ t
  · rw [if_pos hlow, if_pos hlow, visitIndex_some (hfresh hmarked (by omega)), if_pos (by omega),
      ← List.append_assoc]
    refine hupper _ _ ?_ fun j hj => ?_
    · cases hval : (visited.set (t - i) true).getD (t + i) false with
      | false => rfl
      | true =>
        rcases getD_set_true hval with h | h
        · omega
        · rw [hfresh hmarked (by omega)] at h
          cases h
    · rcases getD_set_true hj with rfl | hj
      · omega
      · have := hmarked j hj
        omega
  · rw [if_neg hlow, if_neg hlow, List.nil_append]
    refine hupper visited acc (hfresh hmarked (by omega)) fun j hj => ?_
    have := hmarked j hj
    omega

theorem length_roundIndices {len t i : Nat} (ht : t < len) (hi : 1 ≤ i) :
    (roundIndices len t i).length + min (i - 1) t + min (i - 1) (len - 1 - t) =
      min i t + min i (len - 1 - t) := by
  unfold roundIndices
  split <;> split <;> simp <;> omega

/-- **The loop in closed form**: what the rounds add, one after the other.
The early `break` is taken only when nothing is left to add. -/
theorem neighborIndices_eq {len t : Nat} (ht : t < len) :
    ∀ (n i : Nat) (visited : List Bool) (acc : List Nat), 1 ≤ i → MarkedBelow t i visited →
      acc.length = 1 + min (i - 1) t + min (i - 1) (len - 1 - t) →
      RoutingTable.neighborIndices len t (List.range' i n) (visited, acc) =
        acc ++ (List.range' i n).flatMap (roundIndices len t) := by
  intro n i visited acc hi hmarked hacc
  induction n generalizing i visited acc with
  | zero => simp [RoutingTable.neighborIndices]
  | succ n ih =>
    obtain ⟨visited', hmarked', hround⟩ := visitRound acc ht hi hmarked
    have hlen := length_roundIndices ht hi
    rw [List.range'_succ, RoutingTable.neighborIndices, hround, List.flatMap_cons]
    by_cases hfull : (acc ++ roundIndices len t i).length ≥ len
    · have hrest : (List.range' (i + 1) n).flatMap (roundIndices len t) = [] := by
        rw [List.flatMap_eq_nil_iff]
        intro j hj
        rw [List.mem_range'_1] at hj
        rw [List.length_append] at hfull
        unfold roundIndices
        rw [if_neg (by omega), if_neg (by omega)]
        rfl
      simp only [hfull, if_true, hrest, List.append_nil]
    · simp only [hfull, if_false]
      rw [ih (i + 1) visited' _ (by omega) hmarked'
        (by rw [List.length_append]; simp only [Nat.add_sub_cancel]; omega), List.append_assoc]

/-! ## The order of the buckets -/

/-- When a bucket's turn comes: by its distance in index from the target's
bucket, the lower side first; from bucket 0 upwards when the target is the
own id. -/
def visitRank (target? : Option Nat) (b : Nat) : Nat :=
  match target? with
  | some t => if b < t then 2 * (t - b) - 1 else 2 * (b - t)
  | none => b

theorem visitRank_below {t i : Nat} (hi : 1 ≤ i) (hit : i ≤ t) :
    visitRank (some t) (t - i) = 2 * i - 1 := by
  unfold visitRank
  simp only
  rw [if_pos (by omega)]
  omega

theorem visitRank_above (t i : Nat) : visitRank (some t) (t + i) = 2 * i := by
  unfold visitRank
  simp only
  rw [if_neg (by omega)]
  omega

theorem mem_roundIndices {len t i b : Nat} :
    b ∈ roundIndices len t i ↔ (i ≤ t ∧ b = t - i) ∨ (t + i < len ∧ b = t + i) := by
  unfold roundIndices
  split <;> split <;> simp_all

/-- The indices the loop lists around bucket `t`. -/
def indicesAround (len t : Nat) : List Nat :=
  t :: (List.range' 1 (len - 1)).flatMap (roundIndices len t)

theorem mem_indicesAround {len t b : Nat} (ht : t < len) : b ∈ indicesAround len t ↔ b < len := by
  unfold indicesAround
  simp only [List.mem_cons, List.mem_flatMap, List.mem_range'_1, mem_roundIndices]
  constructor
  · intro h
    rcases h with rfl | ⟨i, _, ⟨_, rfl⟩ | ⟨_, rfl⟩⟩ <;> omega
  · intro hb
    rcases Nat.lt_trichotomy b t with hlt | rfl | hgt
    · exact Or.inr ⟨t - b, by omega, Or.inl ⟨by omega, by omega⟩⟩
    · exact Or.inl rfl
    · exact Or.inr ⟨b - t, by omega, Or.inr ⟨by omega, by omega⟩⟩

theorem pairwise_indicesAround (len t : Nat) :
    (indicesAround len t).Pairwise fun a b => visitRank (some t) a < visitRank (some t) b := by
  unfold indicesAround
  rw [List.pairwise_cons, List.pairwise_flatMap]
  have hself : visitRank (some t) t = 0 := visitRank_above t 0
  refine ⟨fun b hb => ?_, fun i hi => ?_, ?_⟩
  · obtain ⟨i, hi, hb⟩ := List.mem_flatMap.mp hb
    rw [List.mem_range'_1] at hi
    rw [hself]
    rcases mem_roundIndices.mp hb with ⟨hit, rfl⟩ | ⟨_, rfl⟩
    · rw [visitRank_below hi.1 hit]
      omega
    · rw [visitRank_above]
      omega
  · rw [List.mem_range'_1] at hi
    unfold roundIndices
    split
    · rename_i hit
      have hrank : visitRank (some t) (t - i) < visitRank (some t) (t + i) := by
        rw [visitRank_below hi.1 hit, visitRank_above]
        omega
      split <;> simp [hrank]
    · split <;> simp
  · refine List.Pairwise.imp_of_mem ?_ List.pairwise_lt_range'
    intro i j hi hj hij a ha b hb
    rw [List.mem_range'_1] at hi hj
    rcases mem_roundIndices.mp ha with ⟨hit, rfl⟩ | ⟨_, rfl⟩ <;>
      rcases mem_roundIndices.mp hb with ⟨hjt, rfl⟩ | ⟨_, rfl⟩ <;>
      simp only [visitRank_above, visitRank_below hi.1, visitRank_below hj.1, *] <;> omega

namespace RoutingTable

variable {rt : RoutingTable} {targetId : Address}

theorem bucketIndices_eq (hlen : rt.table.length = 255) :
    rt.bucketIndices targetId =
      match bucketIndex rt.id targetId with
      | some t => indicesAround 255 t
      | none => List.range 255 := by
  unfold bucketIndices
  rw [getBucketIndex_eq, hlen]
  cases hidx : bucketIndex rt.id targetId with
  | none => rfl
  | some t =>
    have hmarked : MarkedBelow t 1 (List.replicate 255 false) := by
      intro j hj
      rw [List.getD_eq_getElem?_getD, List.getElem?_replicate] at hj
      split at hj <;> simp at hj
    exact neighborIndices_eq (bucketIndex_lt hidx) 254 1 _ [t] (Nat.le_refl 1) hmarked (by simp)

/-- Every bucket is listed. -/
theorem mem_bucketIndices (hlen : rt.table.length = 255) {b : Nat} :
    b ∈ rt.bucketIndices targetId ↔ b < 255 := by
  rw [bucketIndices_eq hlen]
  cases hidx : bucketIndex rt.id targetId with
  | none => exact List.mem_range
  | some t => exact mem_indicesAround (bucketIndex_lt hidx)

/-- The buckets are listed in the order of their ranks, so each once. -/
theorem pairwise_bucketIndices (hlen : rt.table.length = 255) :
    (rt.bucketIndices targetId).Pairwise fun a b =>
      visitRank (bucketIndex rt.id targetId) a < visitRank (bucketIndex rt.id targetId) b := by
  rw [bucketIndices_eq hlen]
  cases hidx : bucketIndex rt.id targetId with
  | none => exact List.pairwise_lt_range
  | some t => exact pairwise_indicesAround 255 t

theorem nodup_bucketIndices (hlen : rt.table.length = 255) : (rt.bucketIndices targetId).Nodup :=
  (pairwise_bucketIndices hlen).imp fun hab heq => by subst heq; omega

end RoutingTable

/-! ## Where collecting stops -/

/-- The indices looked at until `n` plus the sizes of the buckets reaches
`k`. -/
def stopAfter (size : Nat → Nat) (k : Nat) : List Nat → Nat → List Nat
  | [], _ => []
  | b :: rest, n => b :: if n + size b ≥ k then [] else stopAfter size k rest (n + size b)

theorem prefix_stopAfter (size : Nat → Nat) (k : Nat) :
    ∀ (l : List Nat) (n : Nat), stopAfter size k l n <+: l := by
  intro l n
  induction l generalizing n with
  | nil => exact List.prefix_rfl
  | cons b rest ih =>
    unfold stopAfter
    rw [List.cons_prefix_cons]
    refine ⟨rfl, ?_⟩
    split
    · exact List.nil_prefix
    · exact ih (n + size b)

/-- With fewer than `k` contacts in all, every bucket is looked at. -/
theorem stopAfter_eq_self {size : Nat → Nat} {k : Nat} : ∀ {l : List Nat} {n : Nat},
    n + (l.map size).sum < k → stopAfter size k l n = l := by
  intro l n h
  induction l generalizing n with
  | nil => rfl
  | cons b rest ih =>
    rw [List.map_cons, List.sum_cons, ← Nat.add_assoc] at h
    unfold stopAfter
    rw [if_neg (by omega), ih h]

/-- A bucket is looked at when what comes before it stays below `k`. -/
theorem mem_stopAfter {size : Nat → Nat} {k : Nat} {rank : Nat → Nat} :
    ∀ {l : List Nat} {n u : Nat}, l.Pairwise (fun a b => rank a < rank b) → n < k →
      (u ∈ stopAfter size k l n ↔
        u ∈ l ∧ n + ((l.filter fun b => rank b < rank u).map size).sum < k) := by
  intro l n u hl hn
  induction l generalizing n with
  | nil => simp [stopAfter]
  | cons b rest ih =>
    rw [List.pairwise_cons] at hl
    unfold stopAfter
    by_cases hub : u = b
    · subst hub
      have hnone : (u :: rest).filter (fun c => rank c < rank u) = [] := by
        refine List.filter_eq_nil_iff.mpr fun c hc => ?_
        rcases List.mem_cons.mp hc with rfl | hc
        · simp
        · have := hl.1 c hc
          simp only [decide_eq_true_eq]
          omega
      simp [hnone, hn]
    · rw [List.mem_cons, List.mem_cons]
      simp only [hub, false_or]
      by_cases hu : u ∈ rest
      · have hbu : rank b < rank u := hl.1 u hu
        have hsum : (((b :: rest).filter fun c => rank c < rank u).map size).sum =
            size b + ((rest.filter fun c => rank c < rank u).map size).sum := by simp [hbu]
        rw [hsum]
        split
        · simp only [List.not_mem_nil, false_iff, not_and]
          omega
        · rw [ih hl.2 (by omega)]
          simp only [hu, true_and]
          omega
      · simp only [hu, false_and, iff_false]
        split
        · simp
        · exact fun hmem => hu ((prefix_stopAfter size k rest _).subset hmem)

/-- What the collecting loop returns. -/
theorem collectNodes_eq (rt : RoutingTable) : ∀ (l : List Nat) (result : List NodeInfo),
    rt.collectNodes l result =
      result ++ (stopAfter (fun b => ((rt.bucket b).list.filter fun node => node.id ≠ rt.id).length)
        rt.config.kValue l result.length).flatMap
          fun b => (rt.bucket b).list.filter fun node => node.id ≠ rt.id := by
  intro l result
  induction l generalizing result with
  | nil => simp [RoutingTable.collectNodes, stopAfter]
  | cons b rest ih =>
    unfold RoutingTable.collectNodes stopAfter
    simp only [List.length_append]
    split
    · simp
    · rw [ih]
      simp

end KademliaAuction.Routing
