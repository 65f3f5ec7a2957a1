/-
KademliaAuction.Routing.Members — routing tables of a known set of nodes.

When every contact of a table is one of finitely many members, and no bucket
has more members than `max_kbucket_entries`, `insert_contact` never has to
drop anyone (`mem_contacts_insertContact_iff`). A table has at most all
members but its owner (`length_contacts_lt`), so with `k_value` members or
fewer `get_k_closest_nodes` returns all contacts, and does so alike wherever
all members are known (`getKClosestNodes_congr`).
-/
import KademliaAuction.Routing.SeededScan
import Mathlib.Data.Fintype.Card

namespace KademliaAuction.Routing

open Blockchain Lib Recency

variable {ι : Type*}

/-- Every contact is a member. -/
def RoutingTable.OfMembers (rt : RoutingTable) (info : ι → NodeInfo) : Prop :=
  ∀ c ∈ rt.contacts, ∃ j, c = info j

/-- No bucket around `own` has more members than this. -/
def Roomy [Fintype ι] (info : ι → NodeInfo) (own : Address) (max : Nat) : Prop :=
  ∀ b, (Finset.univ.filter fun j => bucketIndex own (info j).id = some b).card ≤ max

/-- With one entry for every other member there is room. -/
theorem roomy_of_card_le [Fintype ι] {info : ι → NodeInfo} {max : Nat} (own : ι)
    (h : Fintype.card ι ≤ max + 1) : Roomy info (info own).id max := by
  classical
  intro b
  have hother : (Finset.univ.filter fun j => bucketIndex (info own).id (info j).id = some b) ⊆
      Finset.univ.erase own := by
    intro j hj
    refine Finset.mem_erase.mpr ⟨?_, Finset.mem_univ j⟩
    rintro rfl
    rw [Finset.mem_filter, bucketIndex_eq_none.mpr rfl] at hj
    cases hj.2
  have hle := Finset.card_le_card hother
  rw [Finset.card_erase_of_mem (Finset.mem_univ own), Finset.card_univ] at hle
  omega

/-- Contacts with different ids are as many members. -/
theorem length_le_card (info : ι → NodeInfo) {l : List NodeInfo} (hl : (l.map NodeInfo.id).Nodup)
    {members : Finset ι} (h : ∀ c ∈ l, ∃ j ∈ members, c = info j) : l.length ≤ members.card := by
  classical
  have hsubset : (l.map NodeInfo.id).toFinset ⊆ members.image fun j => (info j).id := by
    intro id hid
    obtain ⟨c, hc, rfl⟩ := List.mem_map.mp (List.mem_toFinset.mp hid)
    obtain ⟨j, hj, rfl⟩ := h c hc
    exact Finset.mem_image_of_mem _ hj
  calc l.length = (l.map NodeInfo.id).toFinset.card := by
        rw [List.toFinset_card_of_nodup hl, List.length_map]
    _ ≤ (members.image fun j => (info j).id).card := Finset.card_le_card hsubset
    _ ≤ members.card := Finset.card_image_le

/-- A bucket that has room drops only the old version of the contact. -/
theorem list_pushContact_of_lt {max : Nat} {l : List NodeInfo} (hl : (l.map NodeInfo.id).Nodup)
    {c : NodeInfo} (hroom : (without NodeInfo.id c.id l).length < max) :
    (pushContact max ⟨l⟩ c).list = without NodeInfo.id c.id l ++ [c] := by
  rw [← list_evictFromBucket hl] at hroom ⊢
  unfold pushContact KBucket.len
  simp only [if_neg hroom.ne]

namespace RoutingTable

variable {rt : RoutingTable} {info : ι → NodeInfo}

theorem WellPlaced.nodup_ids (h : rt.WellPlaced) : (rt.contacts.map NodeInfo.id).Nodup := by
  have hdistances := h.nodup_distances rt.id
  have hmap : rt.contacts.map (distanceTo rt.id) =
      (rt.contacts.map NodeInfo.id).map fun id => offset id rt.id := by
    rw [List.map_map]
    rfl
  rw [hmap] at hdistances
  exact hdistances.of_map _

/-- The owner of a table is not among its contacts. -/
theorem WellPlaced.id_ne (h : rt.WellPlaced) {c : NodeInfo} (hc : c ∈ rt.contacts) :
    c.id ≠ rt.id := by
  obtain ⟨i, _, hmem⟩ := (mem_contacts h.length_table).mp hc
  intro hown
  have hidx := h.index i c hmem
  rw [bucketIndex_eq_none.mpr hown] at hidx
  cases hidx

/-- What `find_node_id` finds is a contact. -/
theorem WellPlaced.mem_of_findNodeId (h : rt.WellPlaced) {x : Address} {c : NodeInfo}
    (hfound : rt.findNodeId x = some c) : c ∈ rt.contacts ∧ c.id = x := by
  by_cases hown : x = rt.id
  · unfold findNodeId at hfound
    rw [if_pos hown] at hfound
    cases hfound
  · obtain ⟨i, hi, hidx⟩ := exists_bucketIndex hown
    obtain ⟨hmem, hid⟩ := (findNodeId_eq_some hidx (h.nodup i)).mp hfound
    exact ⟨(mem_contacts h.length_table).mpr ⟨i, hi, hmem⟩, hid⟩

variable [Fintype ι]

/-- **Nobody is dropped** when members are inserted and there is room. -/
theorem WellPlaced.mem_contacts_insertContact_iff (h : rt.WellPlaced)
    (hids : Function.Injective fun j => (info j).id) (hmembers : rt.OfMembers info)
    (hroom : Roomy info rt.id rt.config.maxKbucketEntries) {i : ι} (hi : (info i).id ≠ rt.id)
    {c : NodeInfo} : c ∈ (rt.insertContact (info i)).2.contacts ↔ c = info i ∨ c ∈ rt.contacts := by
  classical
  refine ⟨h.mem_contacts_insertContact, ?_⟩
  rintro (rfl | hc)
  · exact h.self_mem_insertContact hi
  · by_cases hsame : c.id = (info i).id
    · obtain ⟨j, rfl⟩ := hmembers c hc
      obtain rfl := hids hsame
      exact h.self_mem_insertContact hi
    · obtain ⟨b, hb, hmem⟩ := (mem_contacts h.length_table).mp hc
      refine (mem_contacts (h.insertContact _).length_table).mpr ⟨b, hb, ?_⟩
      rw [bucket_insertContact h.length_table]
      split
      · rename_i hidx
        have hkept : c ∈ without NodeInfo.id (info i).id (rt.bucket b).list :=
          List.mem_filter.mpr ⟨hmem, by simpa using hsame⟩
        -- Those that stay are members of this bucket, and `i` is another.
        have hfewer : (without NodeInfo.id (info i).id (rt.bucket b).list).length ≤
            ((Finset.univ.filter fun j => bucketIndex rt.id (info j).id = some b).erase i).card := by
          refine length_le_card info ((h.nodup b).sublist (List.filter_sublist.map _)) ?_
          intro e he
          obtain ⟨hbucket, hother⟩ := List.mem_filter.mp he
          obtain ⟨j, rfl⟩ := hmembers e ((mem_contacts h.length_table).mpr ⟨b, hb, hbucket⟩)
          refine ⟨j, Finset.mem_erase.mpr ⟨?_, Finset.mem_filter.mpr ⟨Finset.mem_univ j, ?_⟩⟩, rfl⟩
          · rintro rfl
            simp at hother
          · exact h.index b _ hbucket
        have hmember : i ∈ Finset.univ.filter fun j => bucketIndex rt.id (info j).id = some b :=
          Finset.mem_filter.mpr ⟨Finset.mem_univ i, hidx⟩
        have hpos := Finset.card_pos.mpr ⟨i, hmember⟩
        rw [Finset.card_erase_of_mem hmember] at hfewer
        have hmax := hroom b
        rw [list_pushContact_of_lt (h.nodup b) (by omega)]
        exact List.mem_append_left _ hkept
      · exact hmem

/-- A table has at most all members but its owner. -/
theorem WellPlaced.length_contacts_lt (h : rt.WellPlaced) (hmembers : rt.OfMembers info) {own : ι}
    (hown : (info own).id = rt.id) : rt.contacts.length < Fintype.card ι := by
  classical
  have hle : rt.contacts.length ≤ (Finset.univ.erase own).card := by
    refine length_le_card info h.nodup_ids fun c hc => ?_
    obtain ⟨j, rfl⟩ := hmembers c hc
    refine ⟨j, Finset.mem_erase.mpr ⟨?_, Finset.mem_univ j⟩, rfl⟩
    rintro rfl
    exact h.id_ne hc hown
  rw [Finset.card_erase_of_mem (Finset.mem_univ own), Finset.card_univ] at hle
  have hpos : 0 < Fintype.card ι := Fintype.card_pos_iff.mpr ⟨own⟩
  omega

omit [Fintype ι] in
/-- The answer has no more nodes than there are. -/
theorem WellPlaced.length_getKClosestNodes_le (h : rt.WellPlaced) (targetId : Address)
    (seed : List NodeInfo) :
    (rt.getKClosestNodes targetId seed).length ≤ seed.length + rt.contacts.length := by
  obtain ⟨missed, _, hperm⟩ := rt.foundFrom_append h.length_table targetId seed.length
  have hfound := hperm.length_eq
  rw [List.length_append] at hfound
  rw [h.getKClosestNodes_eq, Nearest.nearest, List.length_take, List.length_mergeSort,
    List.length_append]
  omega

omit [Fintype ι] in
/-- With room for all of them, the answer has the contacts and the seed. -/
theorem WellPlaced.getKClosestNodes_of_le (h : rt.WellPlaced) {seed : List NodeInfo}
    (hseed : rt.IsSeed seed) (hfit : seed.length + rt.contacts.length ≤ rt.config.kValue)
    (targetId : Address) :
    rt.getKClosestNodes targetId seed = (seed ++ rt.contacts).mergeSort fun a b =>
      decide (distanceTo targetId a ≤ distanceTo targetId b) := by
  obtain ⟨missed, _, hperm⟩ := rt.foundFrom_append h.length_table targetId seed.length
  have hlength := length_foundFrom h.length_table targetId seed.length
  have hfound := hperm.length_eq
  rw [List.length_append] at hfound
  have hnone : (missed.flatMap fun b => (rt.bucket b).list) = [] := by
    apply List.eq_nil_of_length_eq_zero
    omega
  rw [hnone, List.append_nil] at hperm
  rw [h.getKClosestNodes_eq, Nearest.nearest_congr_perm (h.nodup_distances_found hseed targetId _)
    (hperm.append_left seed), Nearest.nearest, List.take_of_length_le]
  rw [List.length_mergeSort, List.length_append]
  exact hfit

omit [Fintype ι] in
/-- **Tables that know the same nodes** answer alike. -/
theorem WellPlaced.getKClosestNodes_congr {rt' : RoutingTable} (h : rt.WellPlaced)
    (h' : rt'.WellPlaced) {own own' : NodeInfo} (hown : own.id = rt.id) (hown' : own'.id = rt'.id)
    (hfit : 1 + rt.contacts.length ≤ rt.config.kValue)
    (hfit' : 1 + rt'.contacts.length ≤ rt'.config.kValue)
    (hsame : ∀ c, c ∈ own :: rt.contacts ↔ c ∈ own' :: rt'.contacts) (targetId : Address) :
    rt.getKClosestNodes targetId [own] = rt'.getKClosestNodes targetId [own'] := by
  have hseed : rt.IsSeed [own] := Or.inr ⟨own, hown, rfl⟩
  have hseed' : rt'.IsSeed [own'] := Or.inr ⟨own', hown', rfl⟩
  have hdistances := h.nodup_distances_seed hseed targetId
  have hdistances' := h'.nodup_distances_seed hseed' targetId
  rw [h.getKClosestNodes_of_le hseed hfit, h'.getKClosestNodes_of_le hseed' hfit']
  refine Nearest.eq_of_pairwise_lt (Nearest.pairwise_lt_mergeSort hdistances)
    (Nearest.pairwise_lt_mergeSort hdistances') fun c => ?_
  rw [List.mem_mergeSort, List.mem_mergeSort]
  exact hsame c

end RoutingTable

end KademliaAuction.Routing
