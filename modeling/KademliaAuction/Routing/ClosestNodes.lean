/-
KademliaAuction.Routing.ClosestNodes — what `get_k_closest_nodes` finds,
against what its comment promises: "Returns up to `k_value` closest nodes to
the given `target_id`".

`closest` is that promise: all contacts of all buckets, sorted by XOR
distance to the target, cut to `k_value`. The source does not look at all
buckets. It visits them by distance in index from the target's bucket and
stops at `k_value` nodes, but closeness in index is not closeness in XOR:
every bucket below the target's is nearer than any bucket above it, and two
buckets below it can stand in either order, by the bits of own XOR target.

`getKClosestNodes_eq_closest_iff` gives the exact condition under which the
two agree, `ScanCovers`: every non-empty bucket that the scan leaves out has
`k_value` contacts in scanned buckets that are nearer than it.
-/
import KademliaAuction.Lib.Nearest
import KademliaAuction.Routing.VisitOrder

namespace KademliaAuction.Routing

open Blockchain Lib Recency Nearest

namespace RoutingTable

/-! ## Tables that insertions build -/

/-- What every history of insertions keeps, at any capacity: each contact is
in the bucket of its id, and no bucket holds an id twice. -/
structure WellPlaced (rt : RoutingTable) : Prop where
  length_table : rt.table.length = 255
  index : ∀ i, ∀ c ∈ (rt.bucket i).list, bucketIndex rt.id c.id = some i
  nodup : ∀ i, ((rt.bucket i).list.map NodeInfo.id).Nodup

theorem wellPlaced_new (own : NodeInfo) (config : Config) :
    (RoutingTable.new own config).WellPlaced where
  length_table := length_table_new own config
  index := by simp [KBucket.new]
  nodup := by simp [KBucket.new]

/-- The contacts of a bucket after an insertion into it. -/
theorem list_pushContact_split (max : Nat) {l : List NodeInfo} (hl : (l.map NodeInfo.id).Nodup)
    (c : NodeInfo) :
    ∃ kept, kept.Sublist (without NodeInfo.id c.id l) ∧
      (pushContact max ⟨l⟩ c).list = kept ++ [c] := by
  unfold pushContact KBucket.len
  by_cases hfull : (evictFromBucket ⟨l⟩ c.id).list.length = max
  · refine ⟨(evictFromBucket ⟨l⟩ c.id).list.tail, ?_, by simp only [if_pos hfull]⟩
    rw [← list_evictFromBucket hl]
    exact List.tail_sublist _
  · refine ⟨(evictFromBucket ⟨l⟩ c.id).list, ?_, by simp only [if_neg hfull]⟩
    rw [list_evictFromBucket hl]

theorem WellPlaced.insertContact {rt : RoutingTable} (h : rt.WellPlaced) (c : NodeInfo) :
    (rt.insertContact c).2.WellPlaced where
  length_table := by rw [length_table_insertContact, h.length_table]
  index := by
    intro i e he
    rw [bucket_insertContact h.length_table] at he
    rw [id_insertContact]
    split at he
    · rename_i hidx
      obtain ⟨kept, hkept, hlist⟩ := list_pushContact_split rt.config.maxKbucketEntries
        (h.nodup i) c
      rw [hlist, List.mem_append, List.mem_singleton] at he
      rcases he with he | rfl
      · exact h.index i e (List.mem_of_mem_filter (hkept.subset he))
      · exact hidx
    · exact h.index i e he
  nodup := by
    intro i
    rw [bucket_insertContact h.length_table]
    split
    · obtain ⟨kept, hkept, hlist⟩ := list_pushContact_split rt.config.maxKbucketEntries
        (h.nodup i) c
      have hnodup : (kept.map NodeInfo.id).Nodup :=
        ((h.nodup i).sublist (List.filter_sublist.map _)).sublist (hkept.map _)
      have hfresh : c.id ∉ kept.map NodeInfo.id := by
        intro hmem
        obtain ⟨e, he, hec⟩ := List.mem_map.mp hmem
        have := (List.mem_filter.mp (hkept.subset he)).2
        simp [hec] at this
      rw [hlist, List.map_append, List.map_singleton, List.nodup_append]
      refine ⟨hnodup, List.nodup_singleton _, fun a ha b hb hab => ?_⟩
      rw [List.mem_singleton] at hb
      exact hfresh (hb ▸ hab ▸ ha)
    · exact h.nodup i

theorem wellPlaced_insertAll (own : NodeInfo) (config : Config) (cs : List NodeInfo) :
    ((RoutingTable.new own config).insertAll cs).WellPlaced := by
  induction cs using List.reverseRecOn with
  | nil => exact wellPlaced_new own config
  | append_singleton cs c ih =>
    rw [insertAll_concat]
    exact ih.insertContact c

/-- **Bucket geometry**: in every table that insertions build, each id but the
own one has an index, and a bucket there. Of ids with an index, those in the
target's bucket are nearer to it than all others; those in lower buckets than
the target's are nearer than those in higher ones; from the target's bucket on
up, the lower ones are nearer; and lower ones are nearer to the own id. -/
theorem bucket_geometry (own : NodeInfo) (config : Config) (cs : List NodeInfo) :
    let rt := (RoutingTable.new own config).insertAll cs
    (∀ nodeId, nodeId ≠ own.id →
      ∃ idx, rt.getBucketIndex nodeId = some idx ∧ idx < 255 ∧ idx < rt.table.length) ∧
    (∀ a b t ia ib it, rt.getBucketIndex a = some ia → rt.getBucketIndex b = some ib →
      rt.getBucketIndex t = some it →
        (ia = it → ib ≠ it → a.distance t < b.distance t) ∧
        (ia < it → it < ib → a.distance t < b.distance t) ∧
        (it ≤ ia → ia < ib → a.distance t < b.distance t)) ∧
    (∀ a b ia ib, rt.getBucketIndex a = some ia → rt.getBucketIndex b = some ib →
      ia < ib → a.distance own.id < b.distance own.id) := by
  intro rt
  have hid : rt.id = own.id := by
    rw [id_insertAll]
    rfl
  have hlen : rt.table.length = 255 := (wellPlaced_insertAll own config cs).length_table
  simp only [getBucketIndex_eq, hid, hlen]
  refine ⟨fun nodeId hne => ?_, fun a b t ia ib it ha hb ht => ⟨?_, ?_, ?_⟩,
    fun a b ia ib ha hb hlt => distance_own_lt ha hb hlt⟩
  · obtain ⟨idx, hlt, hidx⟩ := exists_bucketIndex hne
    exact ⟨idx, hidx, hlt, hlt⟩
  · intro hsame hne
    rw [hsame] at ha
    exact distance_lt_of_same ha hb ht hne
  · intro hbelow habove
    exact distance_lt_of_lt ha hb ht (hbelow.trans habove) habove
  · intro hle hlt
    exact distance_lt_of_lt ha hb ht hlt (hle.trans_lt hlt)

/-- The own id is in no bucket. -/
theorem WellPlaced.filter_own {rt : RoutingTable} (h : rt.WellPlaced) (i : Nat) :
    ((rt.bucket i).list.filter fun node => node.id ≠ rt.id) = (rt.bucket i).list := by
  refine List.filter_eq_self.mpr fun c hc => ?_
  have hidx := h.index i c hc
  have hne : c.id ≠ rt.id := fun heq => by simp [bucketIndex_eq_none.mpr heq] at hidx
  simpa using hne

/-! ## The specification -/

/-- All contacts in all buckets. -/
def contacts (rt : RoutingTable) : List NodeInfo := rt.table.flatMap KBucket.list

/-- The `k_value` contacts nearest to the target. -/
def closest (rt : RoutingTable) (targetId : Address) : List NodeInfo :=
  (rt.contacts.mergeSort (closerOrEqual targetId)).take rt.config.kValue

/-- The contacts in buckets that are looked at before bucket `u`. -/
def visitedBefore (rt : RoutingTable) (targetId : Address) (u : Nat) : Nat :=
  ∑ b ∈ (Finset.range 255).filter fun b =>
    visitRank (bucketIndex rt.id targetId) b < visitRank (bucketIndex rt.id targetId) u,
    (rt.bucket b).len

/-- Every non-empty bucket left out of the scan comes, seen from the target,
after `k_value` contacts of scanned buckets. -/
def ScanCovers (rt : RoutingTable) (targetId : Address) : Prop :=
  ∀ u < 255, (rt.bucket u).list ≠ [] → rt.config.kValue ≤ rt.visitedBefore targetId u →
    rt.config.kValue ≤
      ∑ b ∈ (Finset.range 255).filter fun b =>
        rt.visitedBefore targetId b < rt.config.kValue ∧ nearerBucket rt.id targetId b u = true,
        (rt.bucket b).len

theorem contacts_eq {rt : RoutingTable} (hlen : rt.table.length = 255) :
    rt.contacts = (List.range 255).flatMap fun b => (rt.bucket b).list := by
  have htable : rt.table = (List.range 255).map rt.bucket := by
    refine List.ext_getElem (by simp [hlen]) fun i hi _ => ?_
    simp [bucket, List.getD_eq_getElem?_getD, List.getElem?_eq_getElem hi]
  unfold contacts
  conv_lhs => rw [htable]
  exact List.flatMap_map ..

theorem mem_contacts {rt : RoutingTable} (hlen : rt.table.length = 255) {c : NodeInfo} :
    c ∈ rt.contacts ↔ ∃ i < 255, c ∈ (rt.bucket i).list := by
  rw [contacts_eq hlen]
  simp

theorem contacts_new (own : NodeInfo) (config : Config) :
    (RoutingTable.new own config).contacts = [] := by
  rw [contacts_eq (length_table_new own config), List.flatMap_eq_nil_iff]
  intro i _
  rw [bucket_new]
  rfl

/-- An insertion brings in no other contact. -/
theorem WellPlaced.mem_contacts_insertContact {rt : RoutingTable} (h : rt.WellPlaced)
    {x c : NodeInfo} (hc : c ∈ (rt.insertContact x).2.contacts) : c = x ∨ c ∈ rt.contacts := by
  obtain ⟨i, hi, hmem⟩ := (mem_contacts (h.insertContact x).length_table).mp hc
  rw [bucket_insertContact h.length_table] at hmem
  split at hmem
  · obtain ⟨kept, hkept, hlist⟩ := list_pushContact_split rt.config.maxKbucketEntries (h.nodup i) x
    rw [hlist, List.mem_append, List.mem_singleton] at hmem
    rcases hmem with hold | hnew
    · exact Or.inr ((mem_contacts h.length_table).mpr
        ⟨i, hi, List.mem_of_mem_filter (hkept.subset hold)⟩)
    · exact Or.inl hnew
  · exact Or.inr ((mem_contacts h.length_table).mpr ⟨i, hi, hmem⟩)

/-- A contact other than the node itself is in the table once inserted. -/
theorem WellPlaced.self_mem_insertContact {rt : RoutingTable} (h : rt.WellPlaced) {x : NodeInfo}
    (hx : x.id ≠ rt.id) : x ∈ (rt.insertContact x).2.contacts := by
  obtain ⟨i, hi, hidx⟩ := exists_bucketIndex hx
  obtain ⟨kept, _, hlist⟩ := list_pushContact_split rt.config.maxKbucketEntries (h.nodup i) x
  refine (mem_contacts (h.insertContact x).length_table).mpr ⟨i, hi, ?_⟩
  rw [bucket_insertContact h.length_table, if_pos hidx, hlist]
  exact List.mem_append_right _ (List.mem_singleton_self x)

theorem insertContact_own {rt : RoutingTable} {x : NodeInfo} (hx : x.id = rt.id) :
    (rt.insertContact x).2 = rt := by
  unfold insertContact
  rw [if_pos hx]

theorem closerOrEqual_eq (targetId : Address) :
    closerOrEqual targetId =
      fun a b => decide (offset a.id targetId ≤ offset b.id targetId) := by
  funext a b
  unfold closerOrEqual offset
  simp only [BitVec.le_def]

/-- The key that sorts contacts. -/
def distanceTo (targetId : Address) (c : NodeInfo) : Nat := offset c.id targetId

theorem closest_eq (rt : RoutingTable) (targetId : Address) :
    rt.closest targetId = nearest (distanceTo targetId) rt.config.kValue rt.contacts := by
  unfold closest nearest
  rw [closerOrEqual_eq]
  rfl

theorem distanceTo_eq {targetId : Address} {a b : NodeInfo} :
    distanceTo targetId a = distanceTo targetId b ↔ a.id = b.id := by
  unfold distanceTo offset
  constructor
  · intro h
    exact Address.distance_left_injective targetId (BitVec.toNat_inj.mp h)
  · intro h
    rw [h]

/-- Distances to the target tell contacts apart. -/
theorem WellPlaced.nodup_distances {rt : RoutingTable} (h : rt.WellPlaced) (targetId : Address) :
    (rt.contacts.map (distanceTo targetId)).Nodup := by
  rw [contacts_eq h.length_table, List.map_flatMap, List.nodup_flatMap]
  refine ⟨fun i _ => ?_, List.nodup_range.imp_of_mem fun {i j} _ _ hij => ?_⟩
  · have hids := h.nodup i
    rw [List.Nodup, List.pairwise_map] at hids ⊢
    exact hids.imp fun hne heq => hne (distanceTo_eq.mp heq)
  · intro x hxi hxj
    obtain ⟨a, ha, rfl⟩ := List.mem_map.mp hxi
    obtain ⟨b, hb, hab⟩ := List.mem_map.mp hxj
    have hai := h.index i a ha
    have hbj := h.index j b hb
    rw [distanceTo_eq.mp hab, hai, Option.some.injEq] at hbj
    exact hij hbj

/-- A table without contacts has only the vector it was given. -/
theorem getKClosestNodes_new (own : NodeInfo) (config : Config) (targetId : Address) :
    (RoutingTable.new own config).getKClosestNodes targetId [own] = [own].take config.kValue := by
  have hempty : ∀ i, ((RoutingTable.new own config).bucket i).list = [] := by
    intro i
    rw [bucket_new]
    rfl
  have hconfig : (RoutingTable.new own config).config = config := rfl
  unfold getKClosestNodes
  rw [Routing.collectNodes_eq]
  simp only [hempty, List.filter_nil, List.flatMap_eq_nil_iff.mpr fun _ _ => rfl, List.append_nil,
    List.mergeSort_singleton, hconfig]

/-! ## The scan -/

/-- The buckets the scan looks at. -/
def scanned (rt : RoutingTable) (targetId : Address) : List Nat :=
  stopAfter (fun b => (rt.bucket b).len) rt.config.kValue (rt.bucketIndices targetId) 0

theorem WellPlaced.collectNodes_eq {rt : RoutingTable} (h : rt.WellPlaced) (targetId : Address) :
    rt.collectNodes (rt.bucketIndices targetId) [] =
      (rt.scanned targetId).flatMap fun b => (rt.bucket b).list := by
  rw [Routing.collectNodes_eq]
  simp only [h.filter_own, List.nil_append, List.length_nil]
  rfl

theorem bucketIndices_perm_range {rt : RoutingTable} (hlen : rt.table.length = 255)
    (targetId : Address) : (rt.bucketIndices targetId).Perm (List.range 255) := by
  refine (List.perm_ext_iff_of_nodup (nodup_bucketIndices hlen) List.nodup_range).mpr fun b => ?_
  rw [mem_bucketIndices hlen, List.mem_range]

/-- Where everything fits, everything is found. -/
theorem WellPlaced.mem_getKClosestNodes {rt : RoutingTable} (h : rt.WellPlaced) {targetId : Address}
    {result : List NodeInfo} (hfit : result.length + rt.contacts.length < rt.config.kValue)
    {c : NodeInfo} : c ∈ rt.getKClosestNodes targetId result ↔ c ∈ result ∨ c ∈ rt.contacts := by
  have hlisted : ((rt.bucketIndices targetId).flatMap fun b => (rt.bucket b).list).Perm
      rt.contacts := by
    rw [contacts_eq h.length_table]
    exact (bucketIndices_perm_range h.length_table targetId).flatMap_right _
  have hsizes : ((rt.bucketIndices targetId).map fun b => (rt.bucket b).list.length).sum =
      rt.contacts.length := by
    rw [← hlisted.length_eq, List.length_flatMap]
  have hcollected : rt.collectNodes (rt.bucketIndices targetId) result =
      result ++ (rt.bucketIndices targetId).flatMap fun b => (rt.bucket b).list := by
    rw [Routing.collectNodes_eq]
    simp only [h.filter_own]
    rw [stopAfter_eq_self (by omega)]
  have hlength : (rt.collectNodes (rt.bucketIndices targetId) result).length ≤ rt.config.kValue := by
    rw [hcollected, List.length_append, hlisted.length_eq]
    omega
  unfold getKClosestNodes
  simp only
  rw [List.take_of_length_le (by rw [List.length_mergeSort]; exact hlength), List.mem_mergeSort,
    hcollected, List.mem_append, hlisted.mem_iff]

/-- The sum over the buckets listed before `u`, as a sum over indices. -/
theorem sum_listed_before {rt : RoutingTable} (hlen : rt.table.length = 255) (targetId : Address)
    (u : Nat) :
    (((rt.bucketIndices targetId).filter fun b => visitRank (bucketIndex rt.id targetId) b
        < visitRank (bucketIndex rt.id targetId) u).map fun b => (rt.bucket b).len).sum =
      rt.visitedBefore targetId u := by
  unfold visitedBefore
  rw [← List.sum_toFinset _ ((nodup_bucketIndices hlen).filter _)]
  refine Finset.sum_congr ?_ fun _ _ => rfl
  ext b
  simp [mem_bucketIndices hlen]

/-- A bucket is scanned when the buckets before it hold fewer than `k_value`
contacts. -/
theorem mem_scanned {rt : RoutingTable} (hlen : rt.table.length = 255) {targetId : Address} {u : Nat}
    (hk : 0 < rt.config.kValue) :
    u ∈ rt.scanned targetId ↔ u < 255 ∧ rt.visitedBefore targetId u < rt.config.kValue := by
  unfold scanned
  rw [mem_stopAfter (pairwise_bucketIndices hlen) hk, mem_bucketIndices hlen,
    sum_listed_before hlen, Nat.zero_add]

/-- The buckets that were left out are the others. -/
theorem mem_missed {rt : RoutingTable} (hlen : rt.table.length = 255) {targetId : Address}
    (hk : 0 < rt.config.kValue) {missed : List Nat}
    (hmissed : rt.scanned targetId ++ missed = rt.bucketIndices targetId) {u : Nat} :
    u ∈ missed ↔ u < 255 ∧ rt.config.kValue ≤ rt.visitedBefore targetId u := by
  have hall : u ∈ rt.scanned targetId ++ missed ↔ u < 255 := by
    rw [hmissed, mem_bucketIndices hlen]
  have hdisjoint : (rt.bucketIndices targetId).Nodup := nodup_bucketIndices hlen
  rw [← hmissed, List.nodup_append] at hdisjoint
  rw [List.mem_append, mem_scanned hlen hk] at hall
  constructor
  · intro hu
    have hnot : u ∉ rt.scanned targetId := fun hs => hdisjoint.2.2 u hs u hu rfl
    rw [mem_scanned hlen hk] at hnot
    have hlt := hall.mp (Or.inr hu)
    omega
  · intro hu
    rcases hall.mpr hu.1 with hs | hu
    · omega
    · exact hu

/-- What is returned are the nearest of the scanned contacts. -/
theorem WellPlaced.getKClosestNodes_eq_nearest {rt : RoutingTable} (h : rt.WellPlaced)
    {targetId : Address} :
    rt.getKClosestNodes targetId [] = nearest (distanceTo targetId) rt.config.kValue
      ((rt.scanned targetId).flatMap fun b => (rt.bucket b).list) := by
  unfold getKClosestNodes
  rw [h.collectNodes_eq, closerOrEqual_eq]
  rfl

/-- How many contacts of other buckets are closer than a given contact: whole
buckets are closer or not. -/
theorem WellPlaced.rank_flatMap {rt : RoutingTable} (h : rt.WellPlaced) {targetId : Address}
    {bs : List Nat} (hnodup : bs.Nodup) {u : Nat} {r : NodeInfo} (hr : r ∈ (rt.bucket u).list)
    (hu : u ∉ bs) :
    rank (distanceTo targetId) (bs.flatMap fun b => (rt.bucket b).list) r =
      ∑ b ∈ bs.toFinset.filter fun b => nearerBucket rt.id targetId b u = true,
        (rt.bucket b).len := by
  have hbucket : ∀ b ∈ bs,
      (rt.bucket b).list.countP (fun x => decide (distanceTo targetId x < distanceTo targetId r)) =
        if nearerBucket rt.id targetId b u then (rt.bucket b).len else 0 := by
    intro b hb
    have hbu : b ≠ u := fun heq => hu (heq ▸ hb)
    have hcloser : ∀ x ∈ (rt.bucket b).list,
        (distanceTo targetId x < distanceTo targetId r ↔ nearerBucket rt.id targetId b u = true) :=
      fun x hx => offset_lt_iff_nearerBucket hbu (h.index b x hx) (h.index u r hr)
    split
    · rename_i hnear
      exact List.countP_eq_length.mpr fun x hx => by simpa using (hcloser x hx).mpr hnear
    · rename_i hfar
      exact List.countP_eq_zero.mpr fun x hx => by simpa [hcloser x hx] using hfar
  have hsizes : bs.map ((List.countP fun x =>
        decide (distanceTo targetId x < distanceTo targetId r)) ∘ fun b => (rt.bucket b).list) =
      bs.map fun b => if nearerBucket rt.id targetId b u then (rt.bucket b).len else 0 :=
    List.map_congr_left hbucket
  unfold rank
  rw [List.countP_flatMap, hsizes, ← List.sum_toFinset _ hnodup, ← Finset.sum_filter]

/-- The same for the buckets that the scan looks at. -/
theorem WellPlaced.rank_scanned {rt : RoutingTable} (h : rt.WellPlaced) {targetId : Address}
    (hk : 0 < rt.config.kValue) {u : Nat} {r : NodeInfo} (hr : r ∈ (rt.bucket u).list)
    (hu : u ∉ rt.scanned targetId) :
    rank (distanceTo targetId) ((rt.scanned targetId).flatMap fun b => (rt.bucket b).list) r =
      ∑ b ∈ (Finset.range 255).filter fun b =>
        rt.visitedBefore targetId b < rt.config.kValue ∧ nearerBucket rt.id targetId b u = true,
        (rt.bucket b).len := by
  have hnodup : (rt.scanned targetId).Nodup :=
    (nodup_bucketIndices h.length_table).sublist (prefix_stopAfter ..).sublist
  rw [h.rank_flatMap hnodup hr hu]
  refine Finset.sum_congr ?_ fun _ _ => rfl
  ext b
  simp [mem_scanned h.length_table hk, and_assoc]

/-- **When the early stop is right**: over every table that insertions build,
every target and every `k_value`, `get_k_closest_nodes` started on an empty
vector returns the nearest contacts exactly when the scan covers them. -/
theorem getKClosestNodes_eq_closest_iff (own : NodeInfo) (config : Config) (cs : List NodeInfo)
    (targetId : Address) :
    ((RoutingTable.new own config).insertAll cs).getKClosestNodes targetId [] =
        ((RoutingTable.new own config).insertAll cs).closest targetId ↔
      ((RoutingTable.new own config).insertAll cs).ScanCovers targetId := by
  have h := wellPlaced_insertAll own config cs
  generalize (RoutingTable.new own config).insertAll cs = rt at h
  by_cases hk : 0 < rt.config.kValue
  · obtain ⟨missed, hmissed⟩ : rt.scanned targetId <+: rt.bucketIndices targetId :=
      prefix_stopAfter ..
    have hlisted : ((rt.scanned targetId).flatMap (fun b => (rt.bucket b).list) ++
        missed.flatMap fun b => (rt.bucket b).list).Perm rt.contacts := by
      rw [← List.flatMap_append, hmissed, contacts_eq h.length_table]
      exact (bucketIndices_perm_range h.length_table targetId).flatMap_right _
    have hnodup : (((rt.scanned targetId).flatMap (fun b => (rt.bucket b).list) ++
        missed.flatMap fun b => (rt.bucket b).list).map (distanceTo targetId)).Nodup :=
      (hlisted.map _).nodup_iff.mpr (h.nodup_distances targetId)
    rw [h.getKClosestNodes_eq_nearest, closest_eq, ← nearest_congr_perm hnodup hlisted, nearest_append_eq_iff hnodup]
    unfold ScanCovers
    constructor
    · intro hall u hu hne hvisited
      obtain ⟨r, hr⟩ := List.exists_mem_of_ne_nil _ hne
      have hnot : u ∉ rt.scanned targetId := by
        rw [mem_scanned h.length_table hk]
        omega
      rw [← h.rank_scanned hk hr hnot]
      exact hall r (List.mem_flatMap.mpr ⟨u, (mem_missed h.length_table hk hmissed).mpr ⟨hu, hvisited⟩, hr⟩)
    · intro hcovers r hr
      obtain ⟨u, hu, hr⟩ := List.mem_flatMap.mp hr
      obtain ⟨hlt, hvisited⟩ := (mem_missed h.length_table hk hmissed).mp hu
      have hnot : u ∉ rt.scanned targetId := by
        rw [mem_scanned h.length_table hk]
        omega
      rw [h.rank_scanned hk hr hnot]
      exact hcovers u hlt (List.ne_nil_of_mem hr) hvisited
  · have hzero : rt.config.kValue = 0 := by omega
    unfold getKClosestNodes closest ScanCovers
    simp [hzero]

/-- The node 0 with one contact in bucket 4 and one in bucket 1, asking for
one node. -/
def twoContacts : RoutingTable :=
  (RoutingTable.new (sampleNode 0) { Config.testConfig with kValue := 1 }).insertAll
    [sampleNode 32, sampleNode 4]

/-- Bucket 4 is next to the target's bucket 3 and is scanned first, but
node 4 is at distance 20 from the target 16 and node 32 at distance 48. -/
theorem getKClosestNodes_twoContacts :
    twoContacts.getKClosestNodes (sampleNode 16).id [] = [sampleNode 32] ∧
      twoContacts.closest (sampleNode 16).id = [sampleNode 4] ∧
      twoContacts.getKClosestNodes (sampleNode 16).id [] ≠
        twoContacts.closest (sampleNode 16).id := by
  have hfound : twoContacts.getKClosestNodes (sampleNode 16).id [] = [sampleNode 32] := by
    have hscan : twoContacts.collectNodes (twoContacts.bucketIndices (sampleNode 16).id) [] =
        [sampleNode 32] := by
      have hidx : bucketIndex twoContacts.id (sampleNode 16).id = some 3 := by decide +kernel
      rw [bucketIndices_eq (by decide +kernel), hidx]
      decide +kernel
    have hone : twoContacts.config.kValue = 1 := rfl
    unfold getKClosestNodes
    simp only [hscan, List.mergeSort_singleton, hone, List.take_succ_cons, List.take_zero]
  have hclosest : twoContacts.closest (sampleNode 16).id = [sampleNode 4] := by
    have hcontacts : twoContacts.contacts = [sampleNode 4, sampleNode 32] := by decide +kernel
    have hsorted : [sampleNode 4, sampleNode 32].Pairwise fun a b =>
        closerOrEqual (sampleNode 16).id a b = true := by
      rw [List.pairwise_pair]
      decide +kernel
    have hone : twoContacts.config.kValue = 1 := rfl
    unfold closest
    rw [hcontacts, List.mergeSort_of_pairwise hsorted, hone, List.take_succ_cons, List.take_zero]
  refine ⟨hfound, hclosest, ?_⟩
  rw [hfound, hclosest]
  decide +kernel

end RoutingTable

end KademliaAuction.Routing
