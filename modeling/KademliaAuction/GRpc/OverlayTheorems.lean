/-
KademliaAuction.GRpc.OverlayTheorems — how joining ends.

`joins_mesh`: however the steps of the clients alternate, with each other and
with the requests of others, when all of them are done every routing table has
exactly the other processes, and all processes answer
`get_closest_nodes_to_key` alike. `joins_complete`: until it is done a client
can always go on, and it cannot go on for ever, so all can be done.

`Seeking.rank` is what a client has left to do: each step of it lowers the
rank, and nothing raises it. The `Roster` of the example is the network that
`scripts/start_network.sh` starts, with the bounds of `.env`: three processes, a
`k_value` of three and buckets of two.
-/
import KademliaAuction.GRpc.OverlaySteps
import Mathlib.Algebra.BigOperators.Group.Finset.Basic
import Mathlib.Algebra.Order.BigOperators.Group.Finset

namespace KademliaAuction

open Blockchain Proto Routing Lib

variable {ι : Type}

/-- The loop has nobody left to ask. -/
def Seeking.Done : Seeking → Prop
  | .searching s => s.shortlist = []
  | _ => False

/-- Every client but that of the bootstrap node is done. -/
def Overlay.Done (roster : Roster ι) (net : Overlay ι) : Prop :=
  ∀ i, i ≠ roster.boot → (net.clients i).Done

/-! ## Invariants -/

/-- In order, and in the middle of a meeting. -/
structure Overlay.Joining (roster : Roster ι) (net : Overlay ι) : Prop where
  orderly : net.Orderly roster
  acquainted : Meeting.Acquainted roster.boot (net.meeting roster)

theorem joining_start (roster : Roster ι) (disk : ι → Storage.DataDir) :
    (Overlay.start roster disk).Joining roster := by
  have hempty : ∀ i, ((Overlay.start roster disk).node i).routingTable.contacts = [] :=
    fun i => RoutingTable.contacts_new (roster.info i) (roster.config i)
  refine ⟨⟨fun i => ⟨rfl, rfl, RoutingTable.wellPlaced_new _ _, rfl, rfl, fun c hc => ?_⟩,
    fun _ => trivial, rfl⟩, Meeting.acquainted_of_empty fun i x => ⟨fun hx => ?_, ?_, ?_, ?_⟩⟩
  · rw [show ((Overlay.start roster disk).servers i).host.node.routingTable.contacts = [] from
      hempty i] at hc
    cases hc
  · have hmem : roster.info x ∈ ((Overlay.start roster disk).node i).routingTable.contacts := hx
    rw [hempty i] at hmem
    cases hmem
  · exact List.not_mem_nil
  · exact fun hx => hx.elim List.not_mem_nil List.not_mem_nil
  · exact List.not_mem_nil

variable {roster : Roster ι} {net net' : Overlay ι} {i j : ι}

namespace Overlay.Joining

/-- A client that is done has asked all it has met. -/
theorem meetingDone (h : net.Joining roster) (hdone : (net.clients i).Done) :
    Meeting.Done roster.boot (net.meeting roster) i := by
  cases hclient : net.clients i with
  | outside | entered | reading =>
    rw [hclient] at hdone
    cases hdone
  | searching s =>
    rw [hclient] at hdone
    have hlist : s.shortlist = [] := hdone
    have hsearches : roster.Searches i s := h.orderly.seeks hclient
    refine ⟨?_, fun x => ?_, fun x => ?_⟩
    · show roster.Met (net.clients i) roster.boot
      rw [hclient]
      exact hsearches.boot
    · show roster.Met (net.clients i) x → roster.Asked (net.clients i) x
      rw [hclient]
      rintro (hqueried | hlisted)
      · exact hqueried
      · rw [show (Seeking.searching s).shortlist = s.shortlist from rfl, hlist] at hlisted
        cases hlisted
    · show ¬ roster.Heard (net.clients i) x
      rw [hclient]
      exact List.not_mem_nil

/-- When all are done, a table has exactly the other processes. -/
theorem mem_contacts_iff (h : net.Joining roster) (hdone : net.Done roster) {c : NodeInfo} :
    c ∈ (net.node i).routingTable.contacts ↔ ∃ j, j ≠ i ∧ c = roster.info j := by
  constructor
  · intro hc
    obtain ⟨j, rfl⟩ := (h.orderly.servers i).members c hc
    refine ⟨j, ?_, rfl⟩
    rintro rfl
    exact (h.orderly.servers j).not_knows_self hc
  · rintro ⟨j, hj, rfl⟩
    exact h.acquainted.knows_of_done (fun k hk => h.meetingDone (hdone k hk)) hj.symm

variable [Fintype ι]

/-- When all are done, all answer alike. -/
theorem getClosestNodesToKey_eq (h : net.Joining roster) (hfits : roster.Fits)
    (hdone : net.Done roster) (i j : ι) (key : Address) :
    (net.node i).getClosestNodesToKey key = (net.node j).getClosestNodesToKey key := by
  have hall : ∀ i c, c ∈ (net.node i).nodeInfo :: (net.node i).routingTable.contacts ↔
      ∃ j, c = roster.info j := by
    intro i c
    rw [List.mem_cons, h.mem_contacts_iff hdone, h.orderly.nodeInfo]
    constructor
    · rintro (rfl | ⟨j, _, rfl⟩)
      · exact ⟨i, rfl⟩
      · exact ⟨j, rfl⟩
    · rintro ⟨j, rfl⟩
      by_cases hj : j = i
      · exact Or.inl (by rw [hj])
      · exact Or.inr ⟨j, hj, rfl⟩
  have hfit : ∀ i, 1 + (net.node i).routingTable.contacts.length ≤
      (net.node i).routingTable.config.kValue := by
    intro i
    have hserver := h.orderly.servers i
    have hlt : (net.node i).routingTable.contacts.length < Fintype.card ι :=
      hserver.placed.length_contacts_lt hserver.members hserver.id.symm
    have hk := hfits.kValue i
    rw [show (net.node i).routingTable.config = _ from hserver.tableConfig]
    omega
  have hid : ∀ i, (net.node i).nodeInfo.id = (net.node i).routingTable.id := fun i => by
    rw [h.orderly.nodeInfo]
    exact (h.orderly.servers i).id.symm
  unfold Node.getClosestNodesToKey
  exact congrArg (List.map NodeInfo.toInformation)
    ((h.orderly.servers i).placed.getKClosestNodes_congr (h.orderly.servers j).placed (hid i)
      (hid j) (hfit i) (hfit j) (fun c => (hall i c).trans (hall j c).symm) key)

end Overlay.Joining

/-! ## Progress -/

/-- What a client has left to do, among `n` processes. A question costs the
answer, of which every contact is looked at and may go on the shortlist. -/
def Seeking.rank (n : Nat) : Seeking → Nat
  | .outside => n * (2 * n + 2) + n + 2
  | .entered => n * (2 * n + 2) + n + 1
  | .searching s => (n - s.queried.length) * (2 * n + 2) + s.shortlist.length
  | .reading s _ newNodes =>
      (n - s.queried.length) * (2 * n + 2) + s.shortlist.length + 2 * newNodes.length + 1

section Rank

variable [Fintype ι]

/-- What all clients have left to do. -/
def Overlay.rank (net : Overlay ι) : Nat :=
  ∑ i, (net.clients i).rank (Fintype.card ι)

theorem Overlay.rank_start (roster : Roster ι) (disk : ι → Storage.DataDir) :
    (Overlay.start roster disk).rank = Fintype.card ι *
      (Fintype.card ι * (2 * Fintype.card ι + 2) + Fintype.card ι + 2) := by
  exact Finset.sum_const _

variable [DecidableEq ι]

/-- A step of somebody who has less to do afterwards. -/
theorem Overlay.rank_setClient_lt {client : Seeking}
    (h : client.rank (Fintype.card ι) < (net.clients i).rank (Fintype.card ι)) :
    (net.setClient i client).rank < net.rank := by
  refine Finset.sum_lt_sum (fun k _ => ?_) ⟨i, Finset.mem_univ i, ?_⟩
  · by_cases hk : k = i
    · rw [hk, clients_setClient_self]
      exact h.le
    · rw [clients_setClient_of_ne hk]
  · rw [clients_setClient_self]
    exact h

/-- Looking at a contact puts at most one on the shortlist. -/
theorem Discovery.considerNode_lengths (node : NodeInfo) (s : Discovery) (newNode : NodeInfo) :
    (considerNode node s newNode).queried = s.queried ∧
      (considerNode node s newNode).shortlist.length ≤ s.shortlist.length + 1 := by
  rcases considerNode_cases node s newNode with ⟨_, h⟩ | ⟨_, _, ⟨_, h⟩ | h⟩ <;> rw [h] <;> simp

/-- **Every step of a client** leaves less to do; requests leave it as it
is. -/
theorem Overlay.Orderly.rank_moves (h : net.Orderly roster) (hfits : roster.Fits)
    {event : OverlayEvent ι} (hmoves : net.Moves roster event net') :
    net'.rank ≤ net.rank ∧ (event.client?.isSome → net'.rank < net.rank) := by
  have hless : ∀ {net'' : Overlay ι} {i : ι} {client : Seeking}, net''.clients = net.clients →
      client.rank (Fintype.card ι) < (net.clients i).rank (Fintype.card ι) →
      (net''.setClient i client).rank ≤ net.rank ∧
        (event.client?.isSome → (net''.setClient i client).rank < net.rank) := by
    intro net'' i client hclients hlt
    have hsame : net''.rank = net.rank := by
      unfold rank
      rw [hclients]
    have hdown : (net''.setClient i client).rank < net''.rank :=
      rank_setClient_lt (by rwa [hclients])
    rw [hsame] at hdown
    exact ⟨hdown.le, fun _ => hdown⟩
  cases hmoves with
  | handles i request => exact ⟨le_rfl, fun hnone => by cases hnone⟩
  | enters hclient _ =>
    refine hless rfl ?_
    rw [hclient, Seeking.rank, Seeking.rank]
    omega
  | @begins i hclient =>
    refine hless rfl ?_
    have hseeds := (h.servers i).length_seeds (net.node i).nodeInfo.id
    rw [hclient, Seeking.rank, Seeking.rank]
    show (Fintype.card ι - 0) * _ + ((net.node i).routingTable.getKClosestNodes _ []).length < _
    rw [Nat.sub_zero]
    exact Nat.lt_succ_of_le (Nat.add_le_add_left hseeds _)
  | skips hclient hlist _ =>
    refine hless rfl ?_
    rw [hclient, Seeking.rank, Seeking.rank, hlist]
    simp
  | @asks i j inputs s node rest hclient hlist hqueried haddress =>
    have hseeks : roster.Searches i s := h.seeks hclient
    have hlt := hseeks.length_queried_lt
    have hanswer := (h.servers j).length_contactsNear (roster.info i).id
    unfold ask
    rw [h.answerOf hfits]
    refine hless rfl ?_
    rw [hclient, Seeking.rank, Seeking.rank, hlist]
    have hleft : Fintype.card ι - s.queried.length =
        Fintype.card ι - (s.queried.length + 1) + 1 := by omega
    change ((net.node j).contactsNear (roster.info i).id).length ≤ _ at hanswer
    show (Fintype.card ι - (s.queried.length + 1)) * _ + rest.length +
      2 * ((net.node j).contactsNear (roster.info i).id).length + 1 < _
    rw [hleft, Nat.add_mul _ 1 (2 * Fintype.card ι + 2), Nat.one_mul, List.length_cons]
    omega
  | @considers i s node newNode newNodes hclient =>
    obtain ⟨hqueried, hshortlist⟩ :=
      Discovery.considerNode_lengths node { s with node := net.node i } newNode
    refine hless rfl ?_
    rw [hclient, Seeking.rank, Seeking.rank, hqueried, List.length_cons]
    dsimp only at hshortlist ⊢
    omega
  | sorts hclient =>
    refine hless rfl ?_
    rw [hclient, Seeking.rank, Seeking.rank]
    simp

/-- **A client that is not done can go on**, whatever it is that the server it
asks takes from outside. -/
theorem Overlay.Orderly.goes_on (h : net.Orderly roster) (hfits : roster.Fits) (inputs : Inputs)
    (hi : i ≠ roster.boot) (hdone : ¬ (net.clients i).Done) :
    ∃ event net', event.client? = some i ∧ net.Moves roster event net' := by
  cases hclient : net.clients i with
  | outside =>
    refine ⟨.enters i, _, rfl, .enters hclient fun hport => hi ((hfits.boot i).mp ?_)⟩
    rwa [h.nodeInfo, h.config] at hport
  | entered => exact ⟨.begins i, _, rfl, .begins hclient⟩
  | searching s =>
    rw [hclient] at hdone
    have hsearches : roster.Searches i s := h.seeks hclient
    cases hlist : s.shortlist with
    | nil => exact absurd hlist hdone
    | cons node rest =>
      by_cases hqueried : node.id ∈ s.queried
      · exact ⟨.skips i, _, rfl, .skips hclient hlist hqueried⟩
      · obtain ⟨j, _, rfl⟩ := hsearches.shortlist node (hlist ▸ List.mem_cons_self)
        exact ⟨.asks i j inputs, _, rfl, .asks hclient hlist hqueried (by rw [h.nodeInfo])⟩
  | reading s node newNodes =>
    cases newNodes with
    | nil => exact ⟨.sorts i, _, rfl, .sorts hclient⟩
    | cons newNode newNodes => exact ⟨.considers i, _, rfl, .considers hclient⟩

end Rank

/-! ## Runs -/

variable [DecidableEq ι] [Fintype ι] {disk : ι → Storage.DataDir} {event : OverlayEvent ι}

theorem Overlay.Joining.step (h : net.Joining roster) (hfits : roster.Fits)
    (haside : Overlay.Aside roster net event)
    (hnext : (overlaySystem roster disk).next net event = some net') : net'.Joining roster := by
  obtain ⟨horderly, hstep⟩ := h.orderly.step hfits h.acquainted haside
    ((Overlay.next_eq_some roster net).mp hnext)
  exact ⟨horderly, h.acquainted.step hstep⟩

theorem joining_of_reachable (hfits : roster.Fits)
    (h : (overlaySystem roster disk).ReachableUnder (Overlay.Aside roster) net) :
    net.Joining roster :=
  h.invariant (fun s hs => by rw [show s = _ from hs]; exact joining_start roster disk)
    fun _ _ _ hs haside hnext => hs.step hfits haside hnext

omit [DecidableEq ι] [Fintype ι] in
theorem Overlay.aside_of_client (h : event.client?.isSome) : Overlay.Aside roster net event := by
  cases event with
  | handles => cases h
  | _ => exact trivial

/-- A client goes on as the rank goes down. -/
theorem descends_joining (hfits : roster.Fits) :
    (overlaySystem roster disk).Descends (Overlay.Joining roster) (Overlay.Aside roster)
      (fun event => event.client?.isSome) Overlay.rank := by
  intro net event net' h haside hnext
  have hrank := h.orderly.rank_moves hfits ((Overlay.next_eq_some roster net).mp hnext)
  exact ⟨h.step hfits haside hnext, hrank.1, hrank.2⟩

/-- From wherever the processes are, the clients alone can come to their
end. -/
theorem Overlay.Joining.exists_done (h : net.Joining roster) (hfits : roster.Fits)
    (inputs : Inputs) : ∃ events net', (∀ event ∈ events, event.client?.isSome) ∧
      (overlaySystem roster disk).StepsMeet (Overlay.Aside roster) net events ∧
      (overlaySystem roster disk).run net events = some net' ∧ net'.Done roster := by
  refine System.exists_run_done (descends_joining hfits) (fun s hs hdone => ?_) h
  simp only [Overlay.Done, not_forall] at hdone
  obtain ⟨i, hi, hclient⟩ := hdone
  obtain ⟨event, net', hevent, hmoves⟩ := hs.orderly.goes_on hfits inputs hi hclient
  have hwork : event.client?.isSome := by
    rw [hevent]
    rfl
  exact ⟨event, net', hwork, Overlay.aside_of_client hwork,
    (Overlay.next_eq_some roster s).mpr hmoves⟩

def startedKey (i : Fin 3) : UInt8 := UInt8.ofNat (i.val + 1)

def startedRoster : Roster (Fin 3) where
  libs := peerLibraries
  info := fun i => (peer (startedKey i) (8000 + i.val)).nodeInfo
  config := fun i =>
    { peerConfig (startedKey i) (8000 + i.val) with kValue := 3, maxKbucketEntries := 2 }
  boot := ⟨0, by decide⟩

theorem fits_startedRoster : startedRoster.Fits where
  proto3 := Prost.isProto3_proto3
  genuine := fun i node hinfo hconfig => by
    have hkey : node.config.privateKey = [startedKey i] ∧ node.config.publicKey = [startedKey i] := by
      rw [hconfig]
      exact ⟨rfl, rfl⟩
    refine genuine_of_key ?_ hkey.1 hkey.2
    rw [hinfo]
    rfl
  ids := by decide +kernel
  addresses := by decide +kernel
  boot := by decide +kernel
  short := fun i => short_peer _ _ (by omega)
  roomy := fun i => roomy_of_card_le i le_rfl
  kValue := fun _ => le_rfl
  count := by decide

def noDisk (_ : Fin 3) : Storage.DataDir := { auctions := .absent, ledger := .absent }

/-- **Joining comes to its end**: a client that is not done can go on at once;
among `n` processes the clients take no more than `n * (n * (2 * n + 2) + n + 2)`
steps in all, however they alternate and whatever is handled meanwhile; so from
every state of such a run they come to where all are done. -/
theorem joins_complete (roster : Roster ι) (disk : ι → Storage.DataDir) (hfits : roster.Fits)
    (inputs : Inputs) :
    (∀ net, (overlaySystem roster disk).ReachableUnder (Overlay.Aside roster) net →
      ∀ i, i ≠ roster.boot → ¬ (net.clients i).Done → ∃ event net', event.client? = some i ∧
        (overlaySystem roster disk).next net event = some net') ∧
    (∀ events net,
      (overlaySystem roster disk).StepsMeet (Overlay.Aside roster) (Overlay.start roster disk)
        events →
      (overlaySystem roster disk).run (Overlay.start roster disk) events = some net →
        (events.filter fun event => event.client?.isSome).length ≤ Fintype.card ι *
          (Fintype.card ι * (2 * Fintype.card ι + 2) + Fintype.card ι + 2)) ∧
    ∀ net, (overlaySystem roster disk).ReachableUnder (Overlay.Aside roster) net →
      ∃ events net', (∀ event ∈ events, event.client?.isSome) ∧
        (overlaySystem roster disk).run net events = some net' ∧ net'.Done roster := by
  refine ⟨fun net hreach i hi hdone => ?_, fun events net hmeet hrun => ?_, fun net hreach => ?_⟩
  · obtain ⟨event, net', hevent, hmoves⟩ :=
      (joining_of_reachable hfits hreach).orderly.goes_on hfits inputs hi hdone
    exact ⟨event, net', hevent, (Overlay.next_eq_some roster net).mpr hmoves⟩
  · have hle := System.length_filter_add_rank_le (@descends_joining _ roster _ _ disk hfits)
      (joining_start roster disk) hmeet hrun
    rw [Overlay.rank_start] at hle
    simp only [Bool.decide_eq_true] at hle
    omega
  · obtain ⟨events, net', hclients, _, hrun, hdone⟩ :=
      (joining_of_reachable hfits hreach).exists_done hfits inputs
    exact ⟨events, net', hclients, hrun, hdone⟩

/-- The three processes can have joined after 87 steps. -/
theorem joins_complete_started : ∃ events net,
    (overlaySystem startedRoster noDisk).run (Overlay.start startedRoster noDisk) events =
        some net ∧ net.Done startedRoster ∧ events.length ≤ 87 := by
  obtain ⟨_, hbound, hends⟩ :=
    joins_complete startedRoster noDisk fits_startedRoster sampleInputs
  obtain ⟨events, net, hclients, hrun, hdone⟩ := hends _ (.init rfl)
  refine ⟨events, net, hrun, hdone, ?_⟩
  have hlength := hbound events net (System.stepsMeet_of_forall events _ fun event hevent _ =>
    Overlay.aside_of_client (hclients event hevent)) hrun
  rwa [List.filter_eq_self.mpr hclients] at hlength

end KademliaAuction
