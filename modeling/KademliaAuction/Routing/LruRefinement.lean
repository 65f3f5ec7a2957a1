/-
KademliaAuction.Routing.LruRefinement — the routing table refines one bounded
least-recently-used list per bucket.

The abstract side is `Lib.Recency`: of the contacts inserted so far that
belong to bucket `i`, keep the last one of each id and of those the
`max_kbucket_entries` most recent. `bucket_list_insertAll` says that this is
the list of bucket `i`, by induction on the history of insertions with
`bucket_insertContact` as its step; `routingTable_refines_lru` adds what
`find_node_id` answers.

The capacity test of `insert_contact` compares with `==`, after the eviction.
From a capacity of one on it never steps over the limit, and with a capacity
of zero it would let the list grow; so the results here need
`1 ≤ max_kbucket_entries`.
-/
import KademliaAuction.Lib.KeyedSet
import KademliaAuction.Lib.Recency
import KademliaAuction.Routing.BucketGeometry

namespace KademliaAuction.Routing

open Blockchain Lib Recency

/-! ## One bucket -/

theorem evictFromBucket_cons (c : NodeInfo) (l : List NodeInfo) (x : Address) :
    (evictFromBucket ⟨c :: l⟩ x).list =
      if c.id = x then l else c :: (evictFromBucket ⟨l⟩ x).list := by
  unfold evictFromBucket
  rw [List.findIdx?_cons]
  by_cases hc : c.id = x
  · simp [hc]
  · simp only [hc, decide_false, Bool.false_eq_true, if_false]
    cases hidx : l.findIdx? fun node => decide (node.id = x) with
    | none => simp
    | some idx => simp

/-- In a list without repeated ids, eviction removes the id. -/
theorem list_evictFromBucket {l : List NodeInfo} (hl : (l.map NodeInfo.id).Nodup) (x : Address) :
    (evictFromBucket ⟨l⟩ x).list = without NodeInfo.id x l := by
  induction l with
  | nil => rfl
  | cons c l ih =>
    rw [List.map_cons, List.nodup_cons] at hl
    rw [evictFromBucket_cons]
    by_cases hc : c.id = x
    · have hrest : without NodeInfo.id x l = l := by
        refine List.filter_eq_self.mpr fun d hd => ?_
        have hdc : d.id ≠ c.id := fun h => hl.1 (h ▸ List.mem_map_of_mem hd)
        simpa [hc] using hdc
      rw [if_pos hc, ← hrest]
      simp [without, hc]
    · rw [if_neg hc, ih hl.2]
      simp [without, hc]

/-- On a bucket within its capacity an insertion is one LRU step. -/
theorem list_pushContact {max : Nat} {l : List NodeInfo} (hmax : 1 ≤ max) (hlen : l.length ≤ max)
    (hl : (l.map NodeInfo.id).Nodup) (c : NodeInfo) :
    (pushContact max ⟨l⟩ c).list = lastN max (without NodeInfo.id c.id l ++ [c]) := by
  have hev := list_evictFromBucket hl c.id
  have hle : (without NodeInfo.id c.id l).length ≤ max :=
    (List.length_filter_le _ _).trans hlen
  rw [← room_concat hmax hle c, ← hev]
  unfold pushContact KBucket.len
  by_cases hfull : (evictFromBucket ⟨l⟩ c.id).list.length = max
  · simp only [if_pos hfull]
  · simp only [if_neg hfull]

/-! ## One insertion -/

namespace RoutingTable

@[simp] theorem bucket_new (nodeInfo : NodeInfo) (config : Config) (i : Nat) :
    (RoutingTable.new nodeInfo config).bucket i = KBucket.new := by
  unfold bucket RoutingTable.new
  rw [List.getD_eq_getElem?_getD, List.getElem?_replicate]
  split <;> rfl

@[simp] theorem id_insertContact (rt : RoutingTable) (c : NodeInfo) :
    (rt.insertContact c).2.id = rt.id := by
  unfold insertContact
  split
  · rfl
  · split <;> rfl

@[simp] theorem config_insertContact (rt : RoutingTable) (c : NodeInfo) :
    (rt.insertContact c).2.config = rt.config := by
  unfold insertContact
  split
  · rfl
  · split <;> rfl

@[simp] theorem length_table_insertContact (rt : RoutingTable) (c : NodeInfo) :
    (rt.insertContact c).2.table.length = rt.table.length := by
  unfold insertContact
  split
  · rfl
  · split
    · rfl
    · simp

/-- All that an insertion does to the buckets. -/
theorem bucket_insertContact {rt : RoutingTable} (hlen : rt.table.length = 255) (c : NodeInfo)
    (i : Nat) :
    (rt.insertContact c).2.bucket i =
      if bucketIndex rt.id c.id = some i
      then pushContact rt.config.maxKbucketEntries (rt.bucket i) c else rt.bucket i := by
  unfold insertContact
  by_cases hown : c.id = rt.id
  · have hnone : bucketIndex rt.id c.id = none := bucketIndex_eq_none.mpr hown
    rw [if_pos hown, hnone]
    simp
  · rw [if_neg hown, getBucketIndex_eq]
    cases hidx : bucketIndex rt.id c.id with
    | none => simp
    | some j =>
      have hj : j < rt.table.length := by rw [hlen]; exact bucketIndex_lt hidx
      unfold bucket
      simp only [List.getD_eq_getElem?_getD, List.getElem?_set, Option.some.injEq]
      by_cases hji : j = i
      · subst hji
        simp [hj]
      · simp [hji]

/-! ## Histories -/

theorem insertAll_concat (rt : RoutingTable) (cs : List NodeInfo) (c : NodeInfo) :
    rt.insertAll (cs ++ [c]) = ((rt.insertAll cs).insertContact c).2 := by
  simp [insertAll, List.foldl_append]

@[simp] theorem id_insertAll (rt : RoutingTable) (cs : List NodeInfo) :
    (rt.insertAll cs).id = rt.id := by
  induction cs using List.reverseRecOn with
  | nil => rfl
  | append_singleton cs c ih => rw [insertAll_concat, id_insertContact, ih]

@[simp] theorem config_insertAll (rt : RoutingTable) (cs : List NodeInfo) :
    (rt.insertAll cs).config = rt.config := by
  induction cs using List.reverseRecOn with
  | nil => rfl
  | append_singleton cs c ih => rw [insertAll_concat, config_insertContact, ih]

@[simp] theorem length_table_insertAll (rt : RoutingTable) (cs : List NodeInfo) :
    (rt.insertAll cs).table.length = rt.table.length := by
  induction cs using List.reverseRecOn with
  | nil => rfl
  | append_singleton cs c ih => rw [insertAll_concat, length_table_insertContact, ih]

end RoutingTable

open RoutingTable

/-- The inserted contacts that belong to bucket `i`: the own id has no
bucket. -/
def bucketHistory (own : Address) (i : Nat) (contacts : List NodeInfo) : List NodeInfo :=
  contacts.filter fun c => bucketIndex own c.id = some i

theorem length_table_new (own : NodeInfo) (config : Config) :
    (RoutingTable.new own config).table.length = 255 :=
  List.length_replicate

/-- **The list of a bucket** after any history of insertions. -/
theorem bucket_list_insertAll (own : NodeInfo) (config : Config)
    (hmax : 1 ≤ config.maxKbucketEntries) (i : Nat) (cs : List NodeInfo) :
    (((RoutingTable.new own config).insertAll cs).bucket i).list =
      lastN config.maxKbucketEntries (keepLast NodeInfo.id (bucketHistory own.id i cs)) := by
  induction cs using List.reverseRecOn with
  | nil => simp [insertAll, bucketHistory, keepLast, lastN, KBucket.new]
  | append_singleton cs c ih =>
    have hid : ((RoutingTable.new own config).insertAll cs).id = own.id := by
      rw [id_insertAll]; rfl
    have hconfig : ((RoutingTable.new own config).insertAll cs).config = config := by
      rw [config_insertAll]; rfl
    rw [insertAll_concat, bucket_insertContact (by rw [length_table_insertAll, length_table_new]),
      hid, hconfig]
    by_cases hidx : bucketIndex own.id c.id = some i
    · have hstep : bucketHistory own.id i (cs ++ [c]) = bucketHistory own.id i cs ++ [c] := by
        simp [bucketHistory, hidx]
      have hkept : ((keepLast NodeInfo.id (bucketHistory own.id i cs)).map NodeInfo.id).Nodup :=
        nodup_map_key_keepLast _
      have hnodup : ((((RoutingTable.new own config).insertAll cs).bucket i).list.map
          NodeInfo.id).Nodup := by
        rw [ih]
        exact hkept.sublist ((List.drop_sublist ..).map _)
      have hlen : (((RoutingTable.new own config).insertAll cs).bucket i).list.length
          ≤ config.maxKbucketEntries := by
        rw [ih, length_lastN]
        exact Nat.min_le_left _ _
      rw [if_pos hidx, list_pushContact hmax hlen hnodup, ih, hstep, lastN_keepLast_concat]
    · have hstep : bucketHistory own.id i (cs ++ [c]) = bucketHistory own.id i cs := by
        simp [bucketHistory, hidx]
      rw [if_neg hidx, ih, hstep]

/-! ## Lookup -/

/-- `find_node_id` finds the entry of an id in its bucket. -/
theorem findNodeId_eq_some {rt : RoutingTable} {x : Address} {i : Nat} {n : NodeInfo}
    (hidx : bucketIndex rt.id x = some i) (hnodup : ((rt.bucket i).list.map NodeInfo.id).Nodup) :
    rt.findNodeId x = some n ↔ n ∈ (rt.bucket i).list ∧ n.id = x := by
  have hown : x ≠ rt.id := fun h => by simp [bucketIndex_eq_none.mpr h] at hidx
  unfold findNodeId
  rw [if_neg hown, getBucketIndex_eq, hidx]
  let s : KeyedSet NodeInfo NodeInfo.id := ⟨(rt.bucket i).list, hnodup⟩
  exact KeyedSet.find_eq_some (s := s)

/-- The history of a bucket around one insertion. -/
theorem bucketHistory_split {own : Address} {i : Nat} {cs : List NodeInfo} {n : NodeInfo}
    (hidx : bucketIndex own n.id = some i) (m : Nat) :
    (∃ pre post, bucketHistory own i cs = pre ++ n :: post ∧ n.id ∉ post.map NodeInfo.id ∧
        (post.map NodeInfo.id).dedup.length < m) ↔
      ∃ pre post, cs = pre ++ n :: post ∧ n.id ∉ post.map NodeInfo.id ∧
        ((bucketHistory own i post).map NodeInfo.id).dedup.length < m := by
  have hmem : ∀ l : List NodeInfo,
      n.id ∈ (bucketHistory own i l).map NodeInfo.id ↔ n.id ∈ l.map NodeInfo.id := by
    intro l
    simp only [bucketHistory, List.mem_map, List.mem_filter, decide_eq_true_eq]
    constructor
    · rintro ⟨c, ⟨hc, _⟩, hcn⟩
      exact ⟨c, hc, hcn⟩
    · rintro ⟨c, hc, hcn⟩
      exact ⟨c, ⟨hc, hcn ▸ hidx⟩, hcn⟩
  constructor
  · rintro ⟨pre, post, hsplit, hpost, hlt⟩
    obtain ⟨pre', rest, rfl, hpre', hrest⟩ := List.filter_eq_append_iff.mp hsplit
    obtain ⟨skipped, post', rfl, hskipped, _, hpost'⟩ := List.filter_eq_cons_iff.mp hrest
    have hhist : bucketHistory own i post' = post := hpost'
    exact ⟨pre' ++ skipped, post', by simp, by rwa [← hmem, hhist], by rwa [hhist]⟩
  · rintro ⟨pre, post, rfl, hpost, hlt⟩
    exact ⟨bucketHistory own i pre, bucketHistory own i post,
      by simp [bucketHistory, List.filter_append, hidx],
      by rwa [hmem], hlt⟩

/-- **The routing table is one bounded LRU list per bucket.** The list of
bucket `i` holds the last `max_kbucket_entries` distinct contacts of that
bucket, oldest first; and looking up an id other than the own one returns the
node of its last insertion exactly as long as fewer than
`max_kbucket_entries` other ids of its bucket came after it. -/
theorem routingTable_refines_lru (own : NodeInfo) (config : Config)
    (hmax : 1 ≤ config.maxKbucketEntries) (cs : List NodeInfo) :
    (∀ i, (((RoutingTable.new own config).insertAll cs).bucket i).list =
      lastN config.maxKbucketEntries (keepLast NodeInfo.id (bucketHistory own.id i cs))) ∧
    (∀ x n, x ≠ own.id →
      (((RoutingTable.new own config).insertAll cs).findNodeId x = some n ↔
        ∃ pre post, cs = pre ++ n :: post ∧ n.id = x ∧ x ∉ post.map NodeInfo.id ∧
          ((post.filter fun c => bucketIndex own.id c.id = bucketIndex own.id x).map
            NodeInfo.id).dedup.length < config.maxKbucketEntries)) := by
  have hlist := fun i => bucket_list_insertAll own config hmax i cs
  refine ⟨hlist, fun x n hx => ?_⟩
  obtain ⟨i, _, hidx⟩ := exists_bucketIndex hx
  have hid : ((RoutingTable.new own config).insertAll cs).id = own.id := by
    rw [id_insertAll]; rfl
  have hnodup : ((((RoutingTable.new own config).insertAll cs).bucket i).list.map
      NodeInfo.id).Nodup := by
    rw [hlist i]
    exact (nodup_map_key_keepLast _).sublist ((List.drop_sublist ..).map _)
  rw [findNodeId_eq_some (by rw [hid, hidx]) hnodup, hlist i, mem_lastN_keepLast, hidx]
  constructor
  · rintro ⟨hmem, rfl⟩
    obtain ⟨pre, post, hcs, hpost, hlt⟩ := (bucketHistory_split hidx _).mp hmem
    exact ⟨pre, post, hcs, rfl, hpost, hlt⟩
  · rintro ⟨pre, post, hcs, rfl, hpost, hlt⟩
    exact ⟨(bucketHistory_split hidx _).mpr ⟨pre, post, hcs, hpost, hlt⟩, rfl⟩

/-- A node with a small id. -/
def sampleNode (id : Nat) : NodeInfo where
  id := Address.ofU256 (BitVec.ofNat 256 id)
  ip := "127.0.0.1"
  port := 8000

theorem routingTable_refines_lru_sample :
    (∀ i, (((RoutingTable.new (sampleNode 0) Config.testConfig).insertAll
        [sampleNode 32, sampleNode 4, sampleNode 33, sampleNode 34]).bucket i).list =
      lastN 2 (keepLast NodeInfo.id (bucketHistory (sampleNode 0).id i
        [sampleNode 32, sampleNode 4, sampleNode 33, sampleNode 34]))) ∧
    (∀ x n, x ≠ (sampleNode 0).id →
      (((RoutingTable.new (sampleNode 0) Config.testConfig).insertAll
          [sampleNode 32, sampleNode 4, sampleNode 33, sampleNode 34]).findNodeId x = some n ↔
        ∃ pre post, [sampleNode 32, sampleNode 4, sampleNode 33, sampleNode 34] = pre ++ n :: post ∧
          n.id = x ∧ x ∉ post.map NodeInfo.id ∧
          ((post.filter fun c => bucketIndex (sampleNode 0).id c.id =
            bucketIndex (sampleNode 0).id x).map NodeInfo.id).dedup.length < 2)) :=
  routingTable_refines_lru (sampleNode 0) Config.testConfig (by decide)
    [sampleNode 32, sampleNode 4, sampleNode 33, sampleNode 34]

end KademliaAuction.Routing
