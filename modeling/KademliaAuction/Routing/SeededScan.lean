/-
KademliaAuction.Routing.SeededScan — `get_k_closest_nodes` started on a
vector that holds the own node, as `get_closest_nodes_to_key` starts it.

The seed counts towards `k_value` before a bucket is looked at. So the scan
stops one contact earlier, and with `k_value` at most one it stops after the
first bucket, whatever that holds (`mem_scannedFrom_one`).

`getKClosestNodes_sorted` is what holds for either start: the answer has as
many nodes as there can be, no id twice, in strictly increasing distance.
Whether these are the nearest ones depends on the scan, as in `ClosestNodes`:
`getKClosestNodes_own_eq_iff` gives the exact condition, `SeededScanCovers`.
It speaks of single contacts and not of buckets only, because the own node
lies between the contacts of bucket 0.
-/
import KademliaAuction.Routing.ClosestNodes

namespace KademliaAuction.Routing

open Blockchain Lib Recency Nearest

/-! ## Where collecting stops -/

/-- The scan looks at everything, or collects `k`. -/
theorem stopAfter_full (size : Nat → Nat) (k : Nat) : ∀ (l : List Nat) (n : Nat),
    stopAfter size k l n = l ∨ k ≤ n + ((stopAfter size k l n).map size).sum := by
  intro l n
  induction l generalizing n with
  | nil => exact Or.inl rfl
  | cons b rest ih =>
    unfold stopAfter
    split
    · rename_i hfull
      refine Or.inr ?_
      simp only [List.map_cons, List.map_nil, List.sum_cons, List.sum_nil]
      omega
    · rcases ih (n + size b) with hall | hfull
      · exact Or.inl (by rw [hall])
      · refine Or.inr ?_
        rw [List.map_cons, List.sum_cons]
        omega

/-- A bucket is looked at when it is the first, or when the start and the
buckets before it stay below `k`. -/
theorem mem_stopAfter_iff {size : Nat → Nat} {k n u : Nat} {rank : Nat → Nat} {l : List Nat}
    (hl : l.Pairwise fun a b => rank a < rank b) :
    u ∈ stopAfter size k l n ↔ u ∈ l ∧ ((∀ b ∈ l, rank u ≤ rank b) ∨
      n + ((l.filter fun b => rank b < rank u).map size).sum < k) := by
  by_cases hn : n < k
  · rw [mem_stopAfter hl hn]
    refine and_congr_right fun _ => ⟨Or.inr, fun h => ?_⟩
    rcases h with hfirst | hlt
    · have hnone : l.filter (fun b => rank b < rank u) = [] := by
        simpa [List.filter_eq_nil_iff] using hfirst
      simpa [hnone] using hn
    · exact hlt
  · cases l with
    | nil => simp [stopAfter]
    | cons b rest =>
      rw [List.pairwise_cons] at hl
      have hstop : stopAfter size k (b :: rest) n = [b] := by
        rw [stopAfter, if_pos (by omega)]
      rw [hstop, List.mem_singleton]
      constructor
      · rintro rfl
        refine ⟨List.mem_cons_self, Or.inl fun c hc => ?_⟩
        rcases List.mem_cons.mp hc with rfl | hc
        · exact le_refl _
        · exact (hl.1 c hc).le
      · intro hscanned
        obtain ⟨hmem, h⟩ := hscanned
        rcases List.mem_cons.mp hmem with rfl | hrest
        · rfl
        · have hlater := hl.1 u hrest
          rcases h with hfirst | hlt
          · exact absurd (hfirst b List.mem_cons_self) (by omega)
          · omega

namespace RoutingTable

/-! ## The scan from a seed -/

/-- The buckets the scan looks at when `n` nodes are there from the start. -/
def scannedFrom (rt : RoutingTable) (targetId : Address) (n : Nat) : List Nat :=
  stopAfter (fun b => (rt.bucket b).len) rt.config.kValue (rt.bucketIndices targetId) n

/-- The contacts that the scan finds. -/
def foundFrom (rt : RoutingTable) (targetId : Address) (n : Nat) : List NodeInfo :=
  (rt.scannedFrom targetId n).flatMap fun b => (rt.bucket b).list

/-- Bucket `b` is looked at when the seed has one node. -/
def SeededScan (rt : RoutingTable) (targetId : Address) (b : Nat) : Prop :=
  visitRank (bucketIndex rt.id targetId) b = 0 ∨ 1 + rt.visitedBefore targetId b < rt.config.kValue

instance (rt : RoutingTable) (targetId : Address) (b : Nat) :
    Decidable (rt.SeededScan targetId b) :=
  inferInstanceAs (Decidable (_ ∨ _))

variable {rt : RoutingTable}

theorem WellPlaced.getKClosestNodes_eq (h : rt.WellPlaced) (targetId : Address)
    (seed : List NodeInfo) :
    rt.getKClosestNodes targetId seed = nearest (distanceTo targetId) rt.config.kValue
      (seed ++ rt.foundFrom targetId seed.length) := by
  unfold getKClosestNodes foundFrom scannedFrom
  rw [Routing.collectNodes_eq, closerOrEqual_eq]
  simp only [h.filter_own]
  rfl

/-- What the scan finds, and what is in the buckets it leaves out. -/
theorem foundFrom_append (hlen : rt.table.length = 255) (targetId : Address) (n : Nat) :
    ∃ missed, rt.scannedFrom targetId n ++ missed = rt.bucketIndices targetId ∧
      (rt.foundFrom targetId n ++ missed.flatMap fun b => (rt.bucket b).list).Perm rt.contacts := by
  obtain ⟨missed, hmissed⟩ : rt.scannedFrom targetId n <+: rt.bucketIndices targetId :=
    prefix_stopAfter ..
  refine ⟨missed, hmissed, ?_⟩
  unfold foundFrom
  rw [← List.flatMap_append, hmissed, contacts_eq hlen]
  exact (bucketIndices_perm_range hlen targetId).flatMap_right _

/-- The scan finds all contacts or fills the vector up to `k_value`. -/
theorem length_foundFrom (hlen : rt.table.length = 255) (targetId : Address) (n : Nat) :
    min rt.config.kValue (n + (rt.foundFrom targetId n).length) =
      min rt.config.kValue (n + rt.contacts.length) := by
  obtain ⟨missed, hmissed, hperm⟩ := rt.foundFrom_append hlen targetId n
  have hle := hperm.length_eq
  rw [List.length_append] at hle
  rcases stopAfter_full (fun b => (rt.bucket b).len) rt.config.kValue (rt.bucketIndices targetId) n
    with hall | hfull
  · have hnone : missed = [] := by
      rw [show rt.scannedFrom targetId n = rt.bucketIndices targetId from hall] at hmissed
      exact List.append_right_eq_self.mp hmissed
    rw [hnone, List.flatMap_nil, List.length_nil] at hle
    omega
  · have hfound : (rt.foundFrom targetId n).length =
        ((stopAfter (fun b => (rt.bucket b).len) rt.config.kValue
          (rt.bucketIndices targetId) n).map fun b => (rt.bucket b).len).sum :=
      List.length_flatMap ..
    omega

/-- A vector to start on: empty, or the own node. -/
def IsSeed (rt : RoutingTable) (seed : List NodeInfo) : Prop :=
  seed = [] ∨ ∃ own : NodeInfo, own.id = rt.id ∧ seed = [own]

/-- Distances also tell the own node from the contacts. -/
theorem WellPlaced.nodup_distances_seed (h : rt.WellPlaced) {seed : List NodeInfo}
    (hseed : rt.IsSeed seed) (targetId : Address) :
    ((seed ++ rt.contacts).map (distanceTo targetId)).Nodup := by
  have hcontacts := h.nodup_distances targetId
  rcases hseed with rfl | ⟨own, hown, rfl⟩
  · exact hcontacts
  · rw [List.singleton_append, List.map_cons, List.nodup_cons]
    refine ⟨fun hmem => ?_, hcontacts⟩
    obtain ⟨c, hc, hdistance⟩ := List.mem_map.mp hmem
    obtain ⟨i, _, hc⟩ := (mem_contacts h.length_table).mp hc
    have hidx := h.index i c hc
    rw [distanceTo_eq.mp hdistance, hown, bucketIndex_eq_none.mpr rfl] at hidx
    cases hidx

/-- The same for what is found. -/
theorem WellPlaced.nodup_distances_found (h : rt.WellPlaced) {seed : List NodeInfo}
    (hseed : rt.IsSeed seed) (targetId : Address) (n : Nat) :
    ((seed ++ rt.foundFrom targetId n).map (distanceTo targetId)).Nodup := by
  obtain ⟨missed, _, hperm⟩ := rt.foundFrom_append h.length_table targetId n
  have hall : ((seed ++ (rt.foundFrom targetId n ++
      missed.flatMap fun b => (rt.bucket b).list)).map (distanceTo targetId)).Nodup :=
    ((hperm.append_left seed).map _).nodup_iff.mpr (h.nodup_distances_seed hseed targetId)
  rw [← List.append_assoc, List.map_append] at hall
  exact (List.nodup_append.mp hall).1

theorem mem_foundFrom (hlen : rt.table.length = 255) {targetId : Address} {n : Nat} {c : NodeInfo}
    (hc : c ∈ rt.foundFrom targetId n) : c ∈ rt.contacts := by
  obtain ⟨missed, _, hperm⟩ := rt.foundFrom_append hlen targetId n
  exact hperm.subset (List.mem_append_left _ hc)

/-! ## The answer -/

/-- **Closest-node answers**: over every table that insertions build, every
target and every `k_value`, started on an empty vector or on the own node,
the answer has as many nodes as `k_value` and the number of known nodes
allow, no id twice, each the seed or a contact, in strictly increasing
distance to the target. -/
theorem getKClosestNodes_sorted (own : NodeInfo) (config : Config) (cs : List NodeInfo)
    (targetId : Address) (seed : List NodeInfo) (hseed : seed = [] ∨ seed = [own]) :
    let rt := (RoutingTable.new own config).insertAll cs
    let found := rt.getKClosestNodes targetId seed
    found.length = min config.kValue (seed.length + rt.contacts.length) ∧
      (found.map NodeInfo.id).Nodup ∧
      (∀ node ∈ found, node ∈ seed ∨ node ∈ rt.contacts) ∧
      found.Pairwise fun a b => a.id.distance targetId < b.id.distance targetId := by
  intro rt found
  have h : rt.WellPlaced := wellPlaced_insertAll own config cs
  have hid : rt.id = own.id := id_insertAll _ cs
  have hseed' : rt.IsSeed seed := hseed.imp_right fun heq => ⟨own, hid.symm, heq⟩
  have hconfig : rt.config = config := config_insertAll _ cs
  have hfound : found = nearest (distanceTo targetId) rt.config.kValue
      (seed ++ rt.foundFrom targetId seed.length) := h.getKClosestNodes_eq targetId seed
  have hnodup := h.nodup_distances_found hseed' targetId seed.length
  have hsorted : found.Pairwise fun a b => distanceTo targetId a < distanceTo targetId b := by
    rw [hfound]
    exact pairwise_nearest hnodup
  refine ⟨?_, ?_, fun node hnode => ?_, hsorted.imp fun hlt => BitVec.lt_def.mpr hlt⟩
  · rw [hfound]
    unfold nearest
    rw [List.length_take, List.length_mergeSort, List.length_append,
      length_foundFrom h.length_table, hconfig]
  · rw [List.Nodup, List.pairwise_map]
    exact hsorted.imp fun hlt heq => by rw [distanceTo_eq.mpr heq] at hlt; omega
  · rw [hfound] at hnode
    have hmem := List.mem_mergeSort.mp (List.mem_of_mem_take hnode)
    exact (List.mem_append.mp hmem).imp_right (mem_foundFrom h.length_table)

theorem getKClosestNodes_sorted_own :
    let rt := (RoutingTable.new (sampleNode 0) Config.testConfig).insertAll
      [sampleNode 32, sampleNode 4]
    let found := rt.getKClosestNodes (sampleNode 16).id [sampleNode 0]
    found.length = min Config.testConfig.kValue ([sampleNode 0].length + rt.contacts.length) ∧
      (found.map NodeInfo.id).Nodup ∧
      (∀ node ∈ found, node ∈ [sampleNode 0] ∨ node ∈ rt.contacts) ∧
      found.Pairwise fun a b =>
        a.id.distance (sampleNode 16).id < b.id.distance (sampleNode 16).id :=
  getKClosestNodes_sorted (sampleNode 0) Config.testConfig [sampleNode 32, sampleNode 4]
    (sampleNode 16).id [sampleNode 0] (Or.inr rfl)

/-! ## Whether they are the nearest -/

theorem visitRank_first (target? : Option Nat) : visitRank target? (target?.getD 0) = 0 := by
  cases target? with
  | none => rfl
  | some t => exact visitRank_above t 0

/-- The scan that starts with the own node. -/
theorem mem_scannedFrom_one (hlen : rt.table.length = 255) {targetId : Address} {u : Nat} :
    u ∈ rt.scannedFrom targetId 1 ↔ u < 255 ∧ rt.SeededScan targetId u := by
  have hfirst : (∀ b ∈ rt.bucketIndices targetId, visitRank (bucketIndex rt.id targetId) u ≤
      visitRank (bucketIndex rt.id targetId) b) ↔ visitRank (bucketIndex rt.id targetId) u = 0 := by
    constructor
    · intro hall
      have hlt : (bucketIndex rt.id targetId).getD 0 < 255 := by
        cases hidx : bucketIndex rt.id targetId with
        | none => simp
        | some t => exact bucketIndex_lt hidx
      have hle := hall _ ((mem_bucketIndices hlen).mpr hlt)
      rw [visitRank_first] at hle
      exact Nat.le_zero.mp hle
    · intro hzero b _
      rw [hzero]
      exact Nat.zero_le _
  unfold scannedFrom SeededScan
  rw [mem_stopAfter_iff (pairwise_bucketIndices hlen), mem_bucketIndices hlen,
    sum_listed_before hlen, hfirst]

/-- How many nodes that the scan from the own node has found are nearer to
the target than contact `r` of bucket `u`: the own node, and the contacts of
whole buckets. -/
def nearerFound (rt : RoutingTable) (targetId : Address) (u : Nat) (r : NodeInfo) : Nat :=
  (if offset rt.id targetId < offset r.id targetId then 1 else 0) +
    ∑ b ∈ (Finset.range 255).filter fun b =>
      rt.SeededScan targetId b ∧ nearerBucket rt.id targetId b u = true, (rt.bucket b).len

/-- Every contact in a bucket that the scan leaves out comes, seen from the
target, after `k_value` nodes that it has found. -/
def SeededScanCovers (rt : RoutingTable) (targetId : Address) : Prop :=
  ∀ u < 255, ¬ rt.SeededScan targetId u → ∀ r ∈ (rt.bucket u).list,
    rt.config.kValue ≤ rt.nearerFound targetId u r

theorem WellPlaced.rank_own_foundFrom (h : rt.WellPlaced) {own : NodeInfo} (hown : own.id = rt.id)
    {targetId : Address} {u : Nat} {r : NodeInfo} (hr : r ∈ (rt.bucket u).list)
    (hu : ¬ rt.SeededScan targetId u) :
    rank (distanceTo targetId) ([own] ++ rt.foundFrom targetId 1) r =
      rt.nearerFound targetId u r := by
  have hnodup : (rt.scannedFrom targetId 1).Nodup :=
    (nodup_bucketIndices h.length_table).sublist (prefix_stopAfter ..).sublist
  have hleft : u ∉ rt.scannedFrom targetId 1 := fun hmem =>
    hu ((mem_scannedFrom_one h.length_table).mp hmem).2
  have hself : rank (distanceTo targetId) [own] r =
      if offset rt.id targetId < offset r.id targetId then 1 else 0 := by
    simp [rank, List.countP_singleton, distanceTo, hown]
  unfold foundFrom nearerFound
  rw [rank_append, hself, h.rank_flatMap hnodup hr hleft]
  refine congrArg _ (Finset.sum_congr ?_ fun _ _ => rfl)
  ext b
  simp [mem_scannedFrom_one h.length_table, and_assoc]

/-- **When the seeded scan is right**: started on the own node,
`get_k_closest_nodes` returns the nearest of the own node and all contacts
exactly when the scan covers them. -/
theorem WellPlaced.getKClosestNodes_own_eq_iff (h : rt.WellPlaced) {own : NodeInfo}
    (hown : own.id = rt.id) (targetId : Address) :
    rt.getKClosestNodes targetId [own] =
        nearest (distanceTo targetId) rt.config.kValue (own :: rt.contacts) ↔
      rt.SeededScanCovers targetId := by
  have hseed : rt.IsSeed [own] := Or.inr ⟨own, hown, rfl⟩
  obtain ⟨missed, hmissed, hperm⟩ := rt.foundFrom_append h.length_table targetId 1
  have hall : (([own] ++ rt.foundFrom targetId 1) ++
      missed.flatMap fun b => (rt.bucket b).list).Perm (own :: rt.contacts) := by
    rw [List.append_assoc]
    exact hperm.append_left [own]
  have hnodup : ((([own] ++ rt.foundFrom targetId 1) ++
      missed.flatMap fun b => (rt.bucket b).list).map (distanceTo targetId)).Nodup :=
    (hall.map _).nodup_iff.mpr (h.nodup_distances_seed hseed targetId)
  have hleft : ∀ u, u ∈ missed ↔ u < 255 ∧ ¬ rt.SeededScan targetId u := by
    intro u
    have hlisted : u ∈ rt.scannedFrom targetId 1 ++ missed ↔ u < 255 := by
      rw [hmissed, mem_bucketIndices h.length_table]
    have hdisjoint : (rt.bucketIndices targetId).Nodup := nodup_bucketIndices h.length_table
    rw [← hmissed, List.nodup_append] at hdisjoint
    rw [List.mem_append, mem_scannedFrom_one h.length_table] at hlisted
    constructor
    · intro hu
      refine ⟨hlisted.mp (Or.inr hu), fun hscan => ?_⟩
      exact hdisjoint.2.2 u ((mem_scannedFrom_one h.length_table).mpr
        ⟨hlisted.mp (Or.inr hu), hscan⟩) u hu rfl
    · intro ⟨hlt, hnot⟩
      exact (hlisted.mpr hlt).resolve_left fun hscan => hnot hscan.2
  rw [h.getKClosestNodes_eq, List.length_singleton, ← nearest_congr_perm hnodup hall,
    nearest_append_eq_iff hnodup]
  unfold SeededScanCovers
  constructor
  · intro hcovers u hlt hnot r hr
    rw [← h.rank_own_foundFrom hown hr hnot]
    exact hcovers r (List.mem_flatMap.mpr ⟨u, (hleft u).mpr ⟨hlt, hnot⟩, hr⟩)
  · intro hcovers r hmem
    obtain ⟨u, hu, hr⟩ := List.mem_flatMap.mp hmem
    obtain ⟨hlt, hnot⟩ := (hleft u).mp hu
    rw [h.rank_own_foundFrom hown hr hnot]
    exact hcovers u hlt hnot r hr

/-- How many contacts are strictly closer to the target than the node
itself. -/
def closerContacts (rt : RoutingTable) (targetId : Address) : Nat :=
  rt.contacts.countP fun c => c.id.distance targetId < rt.id.distance targetId

/-- The node itself is among the nearest when fewer than `k` contacts are
closer. -/
theorem WellPlaced.own_mem_nearest (h : rt.WellPlaced) {own : NodeInfo} (hown : own.id = rt.id)
    (targetId : Address) (k : Nat) :
    own ∈ nearest (distanceTo targetId) k (own :: rt.contacts) ↔ rt.closerContacts targetId < k := by
  have hnodup : ((own :: rt.contacts).map (distanceTo targetId)).Nodup :=
    h.nodup_distances_seed (Or.inr ⟨own, hown, rfl⟩) targetId
  have hrank : rank (distanceTo targetId) (own :: rt.contacts) own = rt.closerContacts targetId := by
    unfold rank closerContacts
    rw [List.countP_cons_of_neg (by simp), ← hown]
    rfl
  rw [mem_nearest hnodup, hrank]
  simp

end RoutingTable

end KademliaAuction.Routing
