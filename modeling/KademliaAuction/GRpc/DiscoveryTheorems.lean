/-
KademliaAuction.GRpc.DiscoveryTheorems — which discovered nodes get into the
routing table.

`iterative_find_node` means to insert a contact when it finds it for the
first time, but the membership test on `found_nodes` looks for the node that
has answered, not for the contact. So an answer is taken in whole, with its
repetitions, if the node that gave it is not among the found ones, and not at
all otherwise.

What is found depends on the order of the queries only (`foundBy`,
`pushedBy`), and the nodes whose answers are taken in are the seeds that no
earlier query has found (`IsRoot`). `inserted_once_iff` is the condition on
the network under which every discovered contact is inserted exactly once,
and `second_hop_missed` a chain of three nodes that does not meet it.
-/
import KademliaAuction.GRpc.Discovery

namespace KademliaAuction

open Blockchain Routing Lib

namespace Discovery

/-! ## What the order of queries finds -/

section Order

variable (next : Address → List Address)

/-- The contacts that a query puts on the shortlist. -/
def freshFrom (before : List Address) (id : Address) : List Address :=
  (next id).filter (· ∉ id :: before)

/-- The ids that are put on the shortlist, when the queried ids are given with
the latest first. -/
def pushedBy : List Address → List Address
  | [] => []
  | id :: before => pushedBy before ++ freshFrom next before id

/-- The ids that are put into `found_nodes`. -/
def foundBy : List Address → List Address
  | [] => []
  | id :: before =>
      if id ∈ foundBy before then foundBy before else foundBy before ++ freshFrom next before id

variable {next}

theorem mem_freshFrom {before : List Address} {id x : Address} :
    x ∈ freshFrom next before id ↔ x ∈ next id ∧ x ≠ id ∧ x ∉ before := by
  simp [freshFrom]

theorem mem_pushedBy {visited : List Address} {x : Address} :
    x ∈ pushedBy next visited ↔
      ∃ id before, (id :: before) <:+ visited ∧ x ∈ freshFrom next before id := by
  induction visited with
  | nil => simp [pushedBy]
  | cons id before ih =>
    rw [pushedBy, List.mem_append, ih]
    constructor
    · rintro (⟨a, b, hsuffix, hx⟩ | hx)
      · exact ⟨a, b, hsuffix.trans (List.suffix_cons _ _), hx⟩
      · exact ⟨id, before, List.suffix_refl _, hx⟩
    · rintro ⟨a, b, hsuffix, hx⟩
      rcases List.suffix_cons_iff.mp hsuffix with heq | hsuffix
      · obtain ⟨rfl, rfl⟩ := List.cons.inj heq
        exact Or.inr hx
      · exact Or.inl ⟨a, b, hsuffix, hx⟩

theorem foundBy_subset_pushedBy (visited : List Address) :
    foundBy next visited ⊆ pushedBy next visited := by
  induction visited with
  | nil => exact List.Subset.refl _
  | cons id before ih =>
    rw [foundBy, pushedBy]
    split
    · exact List.Subset.trans ih (List.subset_append_left _ _)
    · exact List.append_subset.mpr ⟨List.Subset.trans ih (List.subset_append_left _ _),
        List.subset_append_right _ _⟩

/-- What has been found stays found. -/
theorem foundBy_subset_of_suffix {before visited : List Address} (h : before <:+ visited) :
    foundBy next before ⊆ foundBy next visited := by
  induction visited with
  | nil =>
    rw [List.suffix_nil.mp h]
    exact List.Subset.refl _
  | cons id rest ih =>
    rcases List.suffix_cons_iff.mp h with rfl | h
    · exact List.Subset.refl _
    · rw [foundBy]
      split
      · exact ih h
      · exact List.Subset.trans (ih h) (List.subset_append_left _ _)

/-- A node is found before it is queried, if ever. -/
theorem mem_foundBy_before {before visited : List Address} {id : Address}
    (h : (id :: before) <:+ visited) (hfound : id ∈ foundBy next visited) :
    id ∈ foundBy next before := by
  induction visited with
  | nil => simp at h
  | cons a rest ih =>
    have hself : ∀ b, id ∈ b → ¬ id ∈ freshFrom next b a := by
      intro b hb hfresh
      exact (mem_freshFrom.mp hfresh).2.2 hb
    rcases List.suffix_cons_iff.mp h with heq | hsuffix
    · obtain ⟨rfl, rfl⟩ := List.cons.inj heq
      rw [foundBy] at hfound
      split at hfound
      · exact hfound
      · rcases List.mem_append.mp hfound with hold | hnew
        · exact hold
        · exact absurd rfl (mem_freshFrom.mp hnew).2.1
    · have hvisited : id ∈ rest := hsuffix.subset List.mem_cons_self
      rw [foundBy] at hfound
      split at hfound
      · exact ih hsuffix hfound
      · rcases List.mem_append.mp hfound with hold | hnew
        · exact ih hsuffix hold
        · exact absurd hnew (hself rest hvisited)

/-! ## Whose answers are taken in -/

variable (next) {δ : Type*} [LinearOrder δ] (d : Address → δ) (seeds : List Address)

/-- A seed that nobody names who is asked before it. -/
def IsRoot (id : Address) : Prop :=
  id ∈ seeds ∧ ∀ p, Search.Closer d next seeds id p → id ∉ next p

/-- When `id` is asked, its answer names `x`, which has not been asked. -/
def Fresh (id x : Address) : Prop :=
  x ∈ next id ∧ x ≠ id ∧ ¬ Search.Closer d next seeds id x

/-- Every reachable node but the roots is named once by one root, and by no
other, before it is asked. -/
def NamedOnce : Prop :=
  ∀ x, Search.Reached next seeds x → ¬ IsRoot next d seeds x →
    ∃ root, IsRoot next d seeds root ∧ Fresh next d seeds root x ∧ (next root).count x = 1 ∧
      ∀ other, IsRoot next d seeds other → Fresh next d seeds other x → other = root

/-- Every queried node but the roots has been found when it is queried. -/
def Settled (visited : List Address) : Prop :=
  ∀ id before, (id :: before) <:+ visited →
    (id ∈ foundBy next before ↔ ¬ IsRoot next d seeds id)

variable {next d seeds}

theorem suffix_of_mem {visited : List Address} {id : Address} (h : id ∈ visited) :
    ∃ before, (id :: before) <:+ visited := by
  obtain ⟨s, t, rfl⟩ := List.append_of_mem h
  exact ⟨t, List.suffix_append _ _⟩

variable {visited before : List Address} {id x : Address}

/-- A node is a root if and only if nobody names it who is asked before it. -/
theorem isRoot_iff (h : Search.BestFirst d next seeds ⟨visited, []⟩)
    (hsuffix : (id :: before) <:+ visited) :
    IsRoot next d seeds id ↔ ∀ p ∈ before, id ∉ next p := by
  constructor
  · rintro ⟨hseed, hunnamed⟩ p hp
    exact hunnamed p ((h.before id hseed before hsuffix p).mp hp)
  · intro hunnamed
    have hseed : id ∈ seeds := by
      cases h.trail.of_suffix hsuffix with
      | cons _ _ hfrom =>
        rcases hfrom with hseed | ⟨p, hp, hnamed⟩
        · exact hseed
        · exact absurd hnamed (hunnamed p hp)
    exact ⟨hseed, fun p hp => hunnamed p ((h.before id hseed before hsuffix p).mpr hp)⟩

/-- The fresh contacts of a root are those that its query puts on the
shortlist. -/
theorem fresh_iff (h : Search.BestFirst d next seeds ⟨visited, []⟩)
    (hsuffix : (id :: before) <:+ visited) (hseed : id ∈ seeds) :
    Fresh next d seeds id x ↔ x ∈ freshFrom next before id := by
  rw [mem_freshFrom, Fresh, h.before id hseed before hsuffix x]

/-- What is put on the shortlist is all that is reached, but the roots. -/
theorem mem_pushedBy_iff (h : Search.BestFirst d next seeds ⟨visited, []⟩) :
    x ∈ pushedBy next visited ↔ Search.Reached next seeds x ∧ ¬ IsRoot next d seeds x := by
  have hnodup := h.trail.nodup
  rw [mem_pushedBy]
  constructor
  · rintro ⟨p, before, hp, hx⟩
    obtain ⟨hnamed, hne, hnew⟩ := mem_freshFrom.mp hx
    have hreached : Search.Reached next seeds x :=
      .step (h.trail.reached p (hp.subset List.mem_cons_self)) hnamed trivial
    obtain ⟨earlier, hearlier⟩ := suffix_of_mem (h.toTraversal.mem_visited_iff.mpr hreached)
    refine ⟨hreached, fun hroot => (isRoot_iff h hearlier).mp hroot p ?_ hnamed⟩
    -- `x` is not among `p` and what was queried before it, so it came later.
    rcases List.suffix_or_suffix_of_suffix hp hearlier with hle | hle
    · rcases List.suffix_cons_iff.mp hle with heq | hle
      · exact absurd (List.cons.inj heq).1.symm hne
      · exact hle.subset List.mem_cons_self
    · rcases List.suffix_cons_iff.mp hle with heq | hle
      · exact absurd (List.cons.inj heq).1 hne
      · exact absurd (hle.subset List.mem_cons_self) hnew
  · rintro ⟨hreached, hroot⟩
    obtain ⟨before, hbefore⟩ := suffix_of_mem (h.toTraversal.mem_visited_iff.mpr hreached)
    rw [isRoot_iff h hbefore] at hroot
    push Not at hroot
    obtain ⟨p, hp, hnamed⟩ := hroot
    obtain ⟨earlier, hearlier⟩ := suffix_of_mem hp
    have hsuffix : (p :: earlier) <:+ visited :=
      hearlier.trans ((List.suffix_cons _ _).trans hbefore)
    have hx : x ∉ before := (List.nodup_cons.mp (hnodup.sublist hbefore.sublist)).1
    refine ⟨p, earlier, hsuffix, mem_freshFrom.mpr ⟨hnamed, ?_, fun hold => ?_⟩⟩
    · rintro rfl
      exact hx hp
    · exact hx (hearlier.subset (List.mem_cons_of_mem _ hold))

/-- Roots are not found. -/
theorem notMem_foundBy_of_isRoot (h : Search.BestFirst d next seeds ⟨visited, []⟩)
    (hroot : IsRoot next d seeds id) : id ∉ foundBy next visited :=
  fun hfound => ((mem_pushedBy_iff h).mp (foundBy_subset_pushedBy _ hfound)).2 hroot

/-- If all but the roots are found, each is found before it is asked. -/
theorem settled_of_found (h : Search.BestFirst d next seeds ⟨visited, []⟩)
    (hfound : ∀ x ∈ pushedBy next visited, x ∈ foundBy next visited) :
    Settled next d seeds visited := by
  intro id before hsuffix
  have hvisited : id ∈ visited := hsuffix.subset List.mem_cons_self
  constructor
  · intro hbefore hroot
    have hold := foundBy_subset_of_suffix ((List.suffix_cons id before).trans hsuffix) hbefore
    exact notMem_foundBy_of_isRoot h hroot hold
  · intro hroot
    have hpushed : id ∈ pushedBy next visited :=
      (mem_pushedBy_iff h).mpr ⟨h.trail.reached id hvisited, hroot⟩
    exact mem_foundBy_before hsuffix (hfound id hpushed)

/-- What a root names is found, if it has not been asked. -/
theorem mem_foundBy_of_fresh (h : Search.BestFirst d next seeds ⟨visited, []⟩)
    (hroot : IsRoot next d seeds id) (hfresh : Fresh next d seeds id x) :
    x ∈ foundBy next visited := by
  have hvisited : id ∈ visited := h.toTraversal.mem_visited_iff.mpr (.seed hroot.1 trivial)
  obtain ⟨before, hsuffix⟩ := suffix_of_mem hvisited
  have hnew : id ∉ foundBy next before := fun hold =>
    notMem_foundBy_of_isRoot h hroot
      (foundBy_subset_of_suffix ((List.suffix_cons id before).trans hsuffix) hold)
  refine foundBy_subset_of_suffix hsuffix ?_
  rw [foundBy, if_neg hnew]
  exact List.mem_append_right _ ((fresh_iff h hsuffix hroot.1).mp hfresh)

/-! ## How often a contact is found -/

open Classical in
/-- How often the answer of `id` has `x` found. -/
noncomputable def taken (next : Address → List Address) (d : Address → δ) (seeds : List Address)
    (x id : Address) : Nat :=
  if IsRoot next d seeds id ∧ Fresh next d seeds id x then (next id).count x else 0

theorem taken_ne_zero_iff :
    taken next d seeds x id ≠ 0 ↔ IsRoot next d seeds id ∧ Fresh next d seeds id x := by
  unfold taken
  split
  · rename_i h
    simpa [h, List.count_eq_zero] using h.2.1
  · rename_i h
    simp [h]

theorem count_freshFrom (h : Search.BestFirst d next seeds ⟨visited, []⟩)
    (hsuffix : (id :: before) <:+ visited) (hroot : IsRoot next d seeds id) :
    (freshFrom next before id).count x = taken next d seeds x id := by
  unfold taken
  by_cases hfresh : Fresh next d seeds id x
  · have hnew := (mem_freshFrom.mp ((fresh_iff h hsuffix hroot.1).mp hfresh)).2
    rw [if_pos ⟨hroot, hfresh⟩, freshFrom, List.count_filter (by simpa using hnew)]
  · rw [if_neg fun hboth => hfresh hboth.2, List.count_eq_zero, ← fresh_iff h hsuffix hroot.1]
    exact hfresh

theorem count_foundBy (h : Search.BestFirst d next seeds ⟨visited, []⟩)
    (hsettled : Settled next d seeds visited) {part : List Address} (hpart : part <:+ visited) :
    (foundBy next part).count x = (part.map (taken next d seeds x)).sum := by
  induction part with
  | nil => rfl
  | cons id before ih =>
    have hbefore := ih ((List.suffix_cons id before).trans hpart)
    rw [foundBy, List.map_cons, List.sum_cons, ← hbefore]
    by_cases hroot : IsRoot next d seeds id
    · have hnew : id ∉ foundBy next before := fun hold => (hsettled id before hpart).mp hold hroot
      rw [if_neg hnew, List.count_append, count_freshFrom h hpart hroot, Nat.add_comm]
    · have hnone : taken next d seeds x id = 0 := if_neg fun hboth => hroot hboth.1
      rw [if_pos ((hsettled id before hpart).mpr hroot), hnone, Nat.zero_add]

theorem sum_map_eq_one_iff {l : List Address} (hl : l.Nodup) {f : Address → Nat} :
    (l.map f).sum = 1 ↔ ∃ a ∈ l, f a = 1 ∧ ∀ b ∈ l, f b ≠ 0 → b = a := by
  induction l with
  | nil => simp
  | cons a l ih =>
    obtain ⟨ha, hl⟩ := List.nodup_cons.mp hl
    have hzero : (l.map f).sum = 0 ↔ ∀ b ∈ l, f b = 0 := by
      simp [List.sum_eq_zero_iff_forall_eq_nat]
    rw [List.map_cons, List.sum_cons]
    show f a + (l.map f).sum = 1 ↔ _
    have hsplit : f a + (l.map f).sum = 1 ↔
        (f a = 1 ∧ (l.map f).sum = 0) ∨ (f a = 0 ∧ (l.map f).sum = 1) := by omega
    rw [hsplit, hzero, ih hl]
    constructor
    · rintro (⟨hone, hrest⟩ | ⟨hnone, b, hb, hone, honly⟩)
      · refine ⟨a, List.mem_cons_self, hone, fun c hc hne => ?_⟩
        rcases List.mem_cons.mp hc with rfl | hc
        · rfl
        · exact absurd (hrest c hc) hne
      · refine ⟨b, List.mem_cons_of_mem _ hb, hone, fun c hc hne => ?_⟩
        rcases List.mem_cons.mp hc with rfl | hc
        · exact absurd hnone hne
        · exact honly c hc hne
    · rintro ⟨b, hb, hone, honly⟩
      rcases List.mem_cons.mp hb with rfl | hb
      · refine Or.inl ⟨hone, fun c hc => ?_⟩
        by_contra hne
        exact ha (honly c (List.mem_cons_of_mem _ hc) hne ▸ hc)
      · refine Or.inr ⟨?_, b, hb, hone, fun c hc => honly c (List.mem_cons_of_mem _ hc)⟩
        by_contra hne
        exact ha (honly a List.mem_cons_self hne ▸ hb)

/-- **When each contact is found once**, at the end of a search. -/
theorem foundOnce_iff (h : Search.BestFirst d next seeds ⟨visited, []⟩) :
    (∀ x ∈ pushedBy next visited, (foundBy next visited).count x = 1) ↔
      NamedOnce next d seeds := by
  have hmem : ∀ {id}, IsRoot next d seeds id → id ∈ visited := fun hroot =>
    h.toTraversal.mem_visited_iff.mpr (.seed hroot.1 trivial)
  have hone : ∀ x, Settled next d seeds visited → ((foundBy next visited).count x = 1 ↔
      ∃ root, IsRoot next d seeds root ∧ Fresh next d seeds root x ∧ (next root).count x = 1 ∧
        ∀ other, IsRoot next d seeds other → Fresh next d seeds other x → other = root) := by
    intro x hsettled
    rw [count_foundBy h hsettled (List.suffix_refl _), sum_map_eq_one_iff h.trail.nodup]
    constructor
    · rintro ⟨root, _, htaken, honly⟩
      obtain ⟨hroot, hfresh⟩ := taken_ne_zero_iff.mp (by omega : taken next d seeds x root ≠ 0)
      have hcount : (next root).count x = 1 := by
        rwa [taken, if_pos ⟨hroot, hfresh⟩] at htaken
      exact ⟨root, hroot, hfresh, hcount, fun other hother hnames =>
        honly other (hmem hother) (taken_ne_zero_iff.mpr ⟨hother, hnames⟩)⟩
    · rintro ⟨root, hroot, hfresh, hcount, honly⟩
      refine ⟨root, hmem hroot, ?_, fun other _ hother => ?_⟩
      · rw [taken, if_pos ⟨hroot, hfresh⟩, hcount]
      · obtain ⟨hother, hnames⟩ := taken_ne_zero_iff.mp hother
        exact honly other hother hnames
  constructor
  · intro hall x hreached hroot
    have hsettled := settled_of_found h fun y hy => List.count_pos_iff.mp (by rw [hall y hy]; omega)
    exact (hone x hsettled).mp (hall x ((mem_pushedBy_iff h).mpr ⟨hreached, hroot⟩))
  · intro hnamed
    have hsettled : Settled next d seeds visited := settled_of_found h fun y hy => by
      obtain ⟨hreached, hroot⟩ := (mem_pushedBy_iff h).mp hy
      obtain ⟨root, hisRoot, hfresh, _⟩ := hnamed y hreached hroot
      exact mem_foundBy_of_fresh h hisRoot hfresh
    intro x hx
    obtain ⟨hreached, hroot⟩ := (mem_pushedBy_iff h).mp hx
    exact (hone x hsettled).mpr (hnamed x hreached hroot)

end Order

/-! ## The lookup -/

variable {network : Network} {targetId : Address} {node : Node}

/-- What the collections of a lookup have to do with the order of its
queries, and with the calls of `insert_node_to_routing_table`. -/
structure Finding (network : Network) (targetId : Address) (node : Node) (s : Discovery) :
    Prop extends Searching network targetId node s where
  pushedIds : s.pushed.map NodeInfo.id = pushedBy (network.contactIds node.nodeInfo.id) s.queried
  foundIds : s.foundNodes.map NodeInfo.id = foundBy (network.contactIds node.nodeInfo.id) s.queried
  inserted : s.node = s.foundNodes.foldl Node.insertNodeToRoutingTable node

theorem finding_seeded (network : Network) (targetId : Address) (node : Node) :
    Finding network targetId node (seeded node targetId) where
  toSearching := searching_seeded network targetId node
  pushedIds := rfl
  foundIds := rfl
  inserted := rfl

theorem any_id_eq_iff {contacts : List NodeInfo} {id : Address} :
    (contacts.any fun n => n.id = id) = true ↔ id ∈ contacts.map NodeInfo.id := by
  rw [List.any_eq_true, List.mem_map]
  simp only [decide_eq_true_eq]

/-- Asking a node inserts what it adds to the found nodes. -/
theorem askNode_inserted {findNode : NodeInfo → Except String (List NodeInfo)} {s : Discovery}
    {contact : NodeInfo} (h : s.node = s.foundNodes.foldl Node.insertNodeToRoutingTable node) :
    (s.askNode findNode targetId contact).node =
      (s.askNode findNode targetId contact).foundNodes.foldl Node.insertNodeToRoutingTable node := by
  unfold askNode
  cases findNode contact with
  | error e => exact h
  | ok newNodes =>
    dsimp only
    rw [foldl_considerNode List.mem_cons_self]
    split
    · exact h
    · dsimp only
      rw [List.foldl_append, ← h]

theorem Finding.round {s s' : Discovery} (h : Finding network targetId node s)
    (hround : s.round (fun n => network n.id) targetId = .inl s') :
    Finding network targetId node s' := by
  have hsearching := h.toSearching.round hround
  rcases s.round_cases (fun n => network n.id) targetId with
    ⟨_, hleave⟩ | ⟨contact, rest, hlist, ⟨hq, hgo⟩ | ⟨hq, hgo⟩⟩
  · cases hleave.symm.trans hround
  · obtain rfl := Sum.inl.inj (hgo.symm.trans hround)
    exact ⟨hsearching, h.pushedIds, h.foundIds, h.inserted⟩
  · obtain rfl := Sum.inl.inj (hgo.symm.trans hround)
    obtain ⟨hqueried, _, _, hpushed, hfound⟩ :=
      askNode_spec (fun n => network n.id) targetId { s with shortlist := rest } contact
    have hids := map_id_broughtBy network { s with shortlist := rest } contact
    rw [h.nodeInfo] at hids
    refine ⟨hsearching, ?_, ?_, askNode_inserted h.inserted⟩
    · rw [hpushed, List.map_append, h.pushedIds, hids, hqueried]
      rfl
    · rw [hfound, hqueried, foundBy, ← h.foundIds]
      by_cases hmem : contact.id ∈ s.foundNodes.map NodeInfo.id
      · rw [if_pos (any_id_eq_iff.mpr hmem), if_pos hmem]
      · rw [if_neg fun hany => hmem (any_id_eq_iff.mp hany), if_neg hmem, List.map_append, hids]
        rfl

/-- At the end the collections are those of the whole order of queries. -/
theorem finding_of_ends {result : Discovery}
    (h : Loop.Ends (Discovery.round (fun n => network n.id) targetId) (seeded node targetId) result) :
    Finding network targetId node result ∧ result.shortlist = [] :=
  invariant_of_ends (fun _ _ hs hround => hs.round hround) (finding_seeded network targetId node) h

/-- Each contact that went on the shortlist has its id passed to
`insert_node_to_routing_table` exactly once. -/
def InsertedOnce (result : Discovery) : Prop :=
  ∀ contact ∈ result.pushed, (result.foundNodes.map NodeInfo.id).count contact.id = 1

instance (result : Discovery) : Decidable result.InsertedOnce :=
  inferInstanceAs (Decidable (∀ contact ∈ result.pushed, _ = 1))

end Discovery

open Discovery in
/-- **What a lookup inserts**: each contact it discovers is inserted exactly
once if and only if each reachable node, but the root seeds, is named just
once by just one root that is asked before it. -/
theorem inserted_once_iff (network : Network) (node : Node) (targetId : Address) :
    (∀ fuel result, iterativeFindNode (fun n => network n.id) targetId node fuel = some result →
      result.InsertedOnce) ↔
    NamedOnce (network.contactIds node.nodeInfo.id) (fun id => offset id targetId)
      (seedIds node targetId) := by
  obtain ⟨result, hends⟩ := exists_iterativeFindNode network targetId node
  obtain ⟨hfinding, hempty⟩ := finding_of_ends hends
  have hbest := hfinding.bestFirst
  rw [search, hempty] at hbest
  rw [← foundOnce_iff hbest, ← hfinding.pushedIds, ← hfinding.foundIds, List.forall_mem_map]
  constructor
  · intro hall
    obtain ⟨fuel, hrun⟩ := hends
    exact hall fuel result hrun
  · intro honce fuel other hrun
    obtain rfl := hends.unique ⟨fuel, hrun⟩
    exact honce

/-- Node 3 is found in the answer of node 2, so what node 3 answers goes on the
shortlist and into no bucket. -/
theorem second_hop_missed :
    ¬ ∀ (network : Network) (node : Node) (targetId : Address) (fuel : Nat) (result : Discovery),
      Discovery.iterativeFindNode (fun n => network n.id) targetId node fuel = some result →
        result.InsertedOnce := by
  intro h
  have hrun : (Discovery.iterativeFindNode (fun n => hopNetwork n.id) (sampleNode 1).id hopNode 4).any
      (fun result => result.pushed = [sampleNode 3, sampleNode 4] ∧
        result.foundNodes = [sampleNode 3]) = true := by
    decide +kernel
  obtain ⟨result, hresult, hlists⟩ := (Option.any_eq_true _ _).mp hrun
  obtain ⟨hpushed, hfound⟩ := of_decide_eq_true hlists
  have honce := h hopNetwork hopNode (sampleNode 1).id 4 result hresult (sampleNode 4)
    (by rw [hpushed]; simp)
  rw [hfound] at honce
  exact absurd honce (by decide +kernel)

end KademliaAuction
