/-
KademliaAuction.Routing.Capacity — how many contacts a bucket can hold.

`insert_contact` makes room with `if bucket.len() == max_kbucket_entries`.
Its comment says "If the list is full, drop the least recently seen node",
but `==` recognises a full list only from below, and a bucket of capacity
zero is past its limit as soon as it has one contact. From then on nothing is
ever dropped: the bucket holds the last contact of every id that was inserted
(`bucket_list_insertAll_zero`), so it grows with the number of ids that
senders make up.

`capacity_kept_iff` puts the two cases together.
-/
import KademliaAuction.Routing.ClosestNodes
import Mathlib.Algebra.Order.BigOperators.Group.List

namespace KademliaAuction.Routing

open Blockchain Lib Recency

/-- A bucket of capacity zero never drops a contact: there is nothing to drop
when it is empty, and it does not count as full afterwards. -/
theorem list_pushContact_zero {l : List NodeInfo} (hl : (l.map NodeInfo.id).Nodup) (c : NodeInfo) :
    (pushContact 0 ⟨l⟩ c).list = without NodeInfo.id c.id l ++ [c] := by
  rw [← list_evictFromBucket hl c.id]
  unfold pushContact KBucket.len
  by_cases hempty : (evictFromBucket ⟨l⟩ c.id).list.length = 0
  · simp [List.eq_nil_of_length_eq_zero hempty]
  · simp only [if_neg hempty]

/-- **Capacity zero**: the list of a bucket has every contact of that bucket
inserted so far, in its last version. -/
theorem bucket_list_insertAll_zero (own : NodeInfo) (config : Config)
    (hzero : config.maxKbucketEntries = 0) (i : Nat) (cs : List NodeInfo) :
    (((RoutingTable.new own config).insertAll cs).bucket i).list =
      keepLast NodeInfo.id (bucketHistory own.id i cs) := by
  induction cs using List.reverseRecOn with
  | nil => simp [RoutingTable.insertAll, bucketHistory, keepLast, KBucket.new]
  | append_singleton cs c ih =>
    have hplaced := RoutingTable.wellPlaced_insertAll own config cs
    have hid : ((RoutingTable.new own config).insertAll cs).id = own.id :=
      RoutingTable.id_insertAll _ cs
    have hconfig : ((RoutingTable.new own config).insertAll cs).config = config :=
      RoutingTable.config_insertAll _ cs
    rw [RoutingTable.insertAll_concat, RoutingTable.bucket_insertContact hplaced.length_table, hid,
      hconfig, hzero]
    by_cases hidx : bucketIndex own.id c.id = some i
    · have hstep : bucketHistory own.id i (cs ++ [c]) = bucketHistory own.id i cs ++ [c] := by
        simp [bucketHistory, hidx]
      rw [if_pos hidx, list_pushContact_zero (hplaced.nodup i), ih, hstep, keepLast_concat]
    · have hstep : bucketHistory own.id i (cs ++ [c]) = bucketHistory own.id i cs := by
        simp [bucketHistory, hidx]
      rw [if_neg hidx, ih, hstep]

/-- From a capacity of one on, no bucket exceeds it. -/
theorem len_bucket_le (own : NodeInfo) (config : Config) (hmax : 1 ≤ config.maxKbucketEntries)
    (cs : List NodeInfo) (i : Nat) :
    (((RoutingTable.new own config).insertAll cs).bucket i).len ≤ config.maxKbucketEntries := by
  unfold KBucket.len
  rw [bucket_list_insertAll own config hmax, length_lastN]
  exact Nat.min_le_left _ _

/-- The table as a whole, when no bucket exceeds a bound. -/
theorem length_contacts_le {rt : RoutingTable} (hlen : rt.table.length = 255) {max : Nat}
    (hbucket : ∀ i, (rt.bucket i).len ≤ max) : rt.contacts.length ≤ 255 * max := by
  have hsizes : ∀ n ∈ (List.range 255).map fun b => (rt.bucket b).list.length, n ≤ max := by
    simpa [KBucket.len] using fun b _ => hbucket b
  rw [RoutingTable.contacts_eq hlen, List.length_flatMap]
  simpa using List.sum_le_card_nsmul _ max hsizes

/-- An inserted contact with another id leaves something in its bucket. -/
theorem bucketHistory_ne_nil {own : Address} {cs : List NodeInfo} {c : NodeInfo} (hc : c ∈ cs)
    (hne : c.id ≠ own) : ∃ i, bucketHistory own i cs ≠ [] := by
  obtain ⟨i, _, hidx⟩ := exists_bucketIndex hne
  have hmem : c ∈ bucketHistory own i cs := List.mem_filter.mpr ⟨hc, by simp [hidx]⟩
  exact ⟨i, List.ne_nil_of_mem hmem⟩

/-- A history without another id than the own one is empty everywhere. -/
theorem bucketHistory_eq_nil {own : Address} {cs : List NodeInfo} (h : ∀ c ∈ cs, c.id = own)
    (i : Nat) : bucketHistory own i cs = [] := by
  refine List.filter_eq_nil_iff.mpr fun c hc => ?_
  simp [bucketIndex_eq_none.mpr (h c hc)]

/-- **When the capacity is kept**: after a history of insertions every bucket
is within `max_kbucket_entries`, and the table within 255 times that, exactly
when the capacity is not zero or nothing but the own id was inserted. -/
theorem capacity_kept_iff (own : NodeInfo) (config : Config) (cs : List NodeInfo) :
    ((∀ i, (((RoutingTable.new own config).insertAll cs).bucket i).len ≤
          config.maxKbucketEntries) ∧
        ((RoutingTable.new own config).insertAll cs).contacts.length ≤
          255 * config.maxKbucketEntries) ↔
      1 ≤ config.maxKbucketEntries ∨ ∀ c ∈ cs, c.id = own.id := by
  have hlen := (RoutingTable.wellPlaced_insertAll own config cs).length_table
  rcases Nat.eq_zero_or_pos config.maxKbucketEntries with hzero | hpos
  · have hlist := fun i => bucket_list_insertAll_zero own config hzero i cs
    constructor
    · intro ⟨hbucket, _⟩
      refine Or.inr fun c hc => ?_
      by_contra hne
      obtain ⟨i, hhistory⟩ := bucketHistory_ne_nil hc hne
      have hnone : (keepLast NodeInfo.id (bucketHistory own.id i cs)).length ≤ 0 := by
        rw [← hlist i, ← hzero]
        exact hbucket i
      obtain ⟨first, hfirst⟩ := List.exists_mem_of_ne_nil _ hhistory
      have hids : first.id ∈ (keepLast NodeInfo.id (bucketHistory own.id i cs)).map NodeInfo.id := by
        rw [map_key_keepLast, List.mem_dedup]
        exact List.mem_map_of_mem hfirst
      rw [List.eq_nil_of_length_eq_zero (Nat.le_zero.mp hnone)] at hids
      cases hids
    · intro hown
      have hbucket : ∀ i, (((RoutingTable.new own config).insertAll cs).bucket i).len ≤
          config.maxKbucketEntries := by
        intro i
        unfold KBucket.len
        rw [hlist i, bucketHistory_eq_nil (hown.resolve_left (by omega)) i]
        exact Nat.zero_le _
      exact ⟨hbucket, length_contacts_le hlen hbucket⟩
  · have hbucket := len_bucket_le own config hpos cs
    exact ⟨fun _ => Or.inl hpos, fun _ => ⟨hbucket, length_contacts_le hlen hbucket⟩⟩

/-- **A capacity of zero** is not kept: bucket 4 takes in one contact after
the other. -/
theorem capacity_zero_exceeded :
    ¬ ∀ (own : NodeInfo) (config : Config) (cs : List NodeInfo) (i : Nat),
      (((RoutingTable.new own config).insertAll cs).bucket i).len ≤ config.maxKbucketEntries := by
  intro hclaim
  have hlen : (((RoutingTable.new (sampleNode 0)
      { Config.testConfig with maxKbucketEntries := 0 }).insertAll
        [sampleNode 32, sampleNode 33]).bucket 4).len = 2 := by decide +kernel
  have hle := hclaim (sampleNode 0) { Config.testConfig with maxKbucketEntries := 0 }
    [sampleNode 32, sampleNode 33] 4
  rw [hlen] at hle
  exact absurd hle (by decide)

end KademliaAuction.Routing
