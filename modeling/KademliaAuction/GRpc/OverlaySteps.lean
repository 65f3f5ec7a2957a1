/-
KademliaAuction.GRpc.OverlaySteps — the steps of joining processes as moves of
a meeting.

The processes of an `Overlay` meet through the bootstrap node as in
`Lib.Meeting`: `Overlay.meeting` reads the state of a meeting off the routing
tables and the variables of the clients, and every step is a move of it
(`Orderly.step`). A table drops nobody and an answer leaves nobody out as long
as there are at most `k_value` processes and no bucket has more than
`max_kbucket_entries` of them, which is what `Roster.Fits` asks.
-/
import KademliaAuction.GRpc.Overlay
import KademliaAuction.Lib.Meeting
import KademliaAuction.Routing.Members
import KademliaAuction.Routing.SeededScan

namespace KademliaAuction

open Blockchain Proto Routing Lib

variable {ι : Type}

/-- Keys that fit, over proto3; different ids and addresses; one bootstrap
node, which all are told of; and room for all. -/
structure Roster.Fits [Fintype ι] (roster : Roster ι) : Prop where
  proto3 : roster.libs.prost.IsProto3
  genuine : ∀ i (node : Node), node.nodeInfo = roster.info i → node.config = roster.config i →
    node.Genuine roster.libs
  ids : Function.Injective fun i => (roster.info i).id
  addresses : Function.Injective fun i => ((roster.info i).ip, (roster.info i).port)
  boot : ∀ i, (roster.info i).port = (roster.config i).bootstrapPeerPort ↔ i = roster.boot
  short : ∀ i, (roster.info i).toInformation.Short
  roomy : ∀ i, Roomy roster.info (roster.info i).id (roster.config i).maxKbucketEntries
  kValue : ∀ i, Fintype.card ι ≤ (roster.config i).kValue
  count : Fintype.card ι < 2 ^ 30

/-! ## What the variables say -/

namespace Seeking

/-- The ids in `queried`. -/
def queried : Seeking → List Address
  | .searching s | .reading s _ _ => s.queried
  | _ => []

def shortlist : Seeking → List NodeInfo
  | .searching s | .reading s _ _ => s.shortlist
  | _ => []

/-- The contacts of the latest answer that are left. -/
def newNodes : Seeking → List NodeInfo
  | .reading _ _ newNodes => newNodes
  | _ => []

end Seeking

namespace Roster

variable (roster : Roster ι)

def Knows (server : Server) (j : ι) : Prop :=
  roster.info j ∈ server.host.node.routingTable.contacts

def Asked (client : Seeking) (j : ι) : Prop := (roster.info j).id ∈ client.queried

def Met (client : Seeking) (j : ι) : Prop :=
  (roster.info j).id ∈ client.queried ∨ roster.info j ∈ client.shortlist

def Heard (client : Seeking) (j : ι) : Prop := roster.info j ∈ client.newNodes

end Roster

/-- The meeting that the processes are in the middle of. -/
def Overlay.meeting (roster : Roster ι) (net : Overlay ι) : Meeting.State ι where
  knows := fun i => roster.Knows (net.servers i)
  asked := fun i => roster.Asked (net.clients i)
  met := fun i => roster.Met (net.clients i)
  heard := fun i => roster.Heard (net.clients i)

/-! ## In order -/

namespace Roster

variable (roster : Roster ι)

/-- The server is that of `i`, and all its contacts are processes. -/
structure Serving (i : ι) (server : Server) : Prop where
  nodeInfo : server.host.node.nodeInfo = roster.info i
  config : server.host.node.config = roster.config i
  placed : server.host.node.routingTable.WellPlaced
  id : server.host.node.routingTable.id = (roster.info i).id
  tableConfig : server.host.node.routingTable.config = roster.config i
  members : server.host.node.routingTable.OfMembers roster.info

/-- The variables of `i` have other processes in them, and the bootstrap node,
which was not found through an answer. -/
structure Searches (i : ι) (s : Discovery) : Prop where
  queried : ∀ id ∈ s.queried, ∃ j, j ≠ i ∧ id = (roster.info j).id
  nodup : s.queried.Nodup
  shortlist : ∀ c ∈ s.shortlist, ∃ j, j ≠ i ∧ c = roster.info j
  found : ∀ c ∈ s.foundNodes, c.id ≠ (roster.info roster.boot).id
  boot : (roster.info roster.boot).id ∈ s.queried ∨ roster.info roster.boot ∈ s.shortlist

/-- The answer is of a process that has been asked, as the bootstrap node
has, and names processes. -/
structure Reads (i : ι) (s : Discovery) (node : NodeInfo) (newNodes : List NodeInfo) : Prop extends
    roster.Searches i s where
  answerer : ∃ j, node = roster.info j
  asked : node.id ∈ s.queried
  bootAsked : (roster.info roster.boot).id ∈ s.queried
  newNodes : ∀ c ∈ newNodes, ∃ j, c = roster.info j

/-- The client of `i` is in order. -/
def Seeks (i : ι) (server : Server) : Seeking → Prop
  | .outside => True
  | .entered => roster.Knows server roster.boot
  | .searching s => roster.Searches i s
  | .reading s node newNodes => roster.Reads i s node newNodes

end Roster

/-- All processes are in order, and the bootstrap node does not join. -/
structure Overlay.Orderly (roster : Roster ι) (net : Overlay ι) : Prop where
  servers : ∀ i, roster.Serving i (net.servers i)
  clients : ∀ i, roster.Seeks i (net.servers i) (net.clients i)
  boot : net.clients roster.boot = .outside

/-! ## Servers -/

namespace Roster

variable {roster : Roster ι} {i j : ι} {server server' : Server}

/-- What becomes of a server whose table is as it was or takes a process in. -/
theorem Serving.of_table (h : roster.Serving i server)
    (hinfo : server'.host.node.nodeInfo = server.host.node.nodeInfo)
    (hconfig : server'.host.node.config = server.host.node.config)
    (htable : server'.host.node.routingTable = server.host.node.routingTable ∨
      ∃ j, server'.host.node.routingTable =
        (server.host.node.routingTable.insertContact (roster.info j)).2) :
    roster.Serving i server' := by
  have hkept : server'.host.node.routingTable.WellPlaced ∧
      server'.host.node.routingTable.id = (roster.info i).id ∧
      server'.host.node.routingTable.config = roster.config i ∧
      server'.host.node.routingTable.OfMembers roster.info := by
    rcases htable with hsame | ⟨j, hinsert⟩
    · rw [hsame]
      exact ⟨h.placed, h.id, h.tableConfig, h.members⟩
    · rw [hinsert]
      refine ⟨h.placed.insertContact _, ?_, ?_, fun c hc => ?_⟩
      · rw [RoutingTable.id_insertContact, h.id]
      · rw [RoutingTable.config_insertContact, h.tableConfig]
      · rcases h.placed.mem_contacts_insertContact hc with rfl | hold
        · exact ⟨j, rfl⟩
        · exact h.members c hold
  obtain ⟨hplaced, hid, htableConfig, hmembers⟩ := hkept
  exact ⟨hinfo.trans h.nodeInfo, hconfig.trans h.config, hplaced, hid, htableConfig, hmembers⟩

/-- No process has itself in its table. -/
theorem Serving.not_knows_self (h : roster.Serving i server) : ¬ roster.Knows server i :=
  fun hself => h.placed.id_ne hself h.id.symm

/-- A server names itself and contacts. -/
theorem Serving.mem_contactsNear (h : roster.Serving i server) {targetId : Address} {c : NodeInfo}
    (hc : c ∈ server.host.node.contactsNear targetId) :
    c = roster.info i ∨ c ∈ server.host.node.routingTable.contacts := by
  unfold Node.contactsNear at hc
  cases hfound : server.host.node.routingTable.findNodeId targetId with
  | some found =>
    rw [hfound] at hc
    obtain rfl := List.mem_singleton.mp hc
    exact Or.inr (h.placed.mem_of_findNodeId hfound).1
  | none =>
    rw [hfound] at hc
    dsimp only at hc
    split at hc
    · obtain rfl := List.mem_singleton.mp hc
      exact Or.inl h.nodeInfo
    · rw [h.placed.getKClosestNodes_eq] at hc
      rcases List.mem_append.mp (List.mem_mergeSort.mp (List.mem_of_mem_take hc)) with hown | hmem
      · obtain rfl := List.mem_singleton.mp hown
        exact Or.inl h.nodeInfo
      · exact Or.inr (RoutingTable.mem_foundFrom h.placed.length_table hmem)

variable [Fintype ι]

theorem Fits.info_injective (hfits : roster.Fits) : Function.Injective roster.info :=
  fun _ _ h => hfits.ids (congrArg NodeInfo.id h)

theorem Fits.serves (hfits : roster.Fits) (hserver : roster.Serving j server) {client : Server}
    (hclient : roster.Serving i client) : server.Serves roster.libs client.host.node where
  proto3 := hfits.proto3
  client := hfits.genuine i _ hclient.nodeInfo hclient.config
  server := hfits.genuine j _ hserver.nodeInfo hserver.config

/-- **Taking a process in** adds it, and drops nobody. -/
theorem Fits.knows_insert (hfits : roster.Fits) (h : roster.Serving i server) (hij : j ≠ i)
    (htable : server'.host.node.routingTable =
      (server.host.node.routingTable.insertContact (roster.info j)).2) (x : ι) :
    roster.Knows server' x ↔ roster.Knows server x ∨ x = j := by
  have hroom : Roomy roster.info server.host.node.routingTable.id
      server.host.node.routingTable.config.maxKbucketEntries := by
    rw [h.id, h.tableConfig]
    exact hfits.roomy i
  have hother : (roster.info j).id ≠ server.host.node.routingTable.id := by
    rw [h.id]
    exact fun heq => hij (hfits.ids heq)
  unfold Knows
  rw [htable, h.placed.mem_contacts_insertContact_iff hfits.ids h.members hroom hother,
    hfits.info_injective.eq_iff, or_comm]

/-! ## Answers -/

theorem Serving.length_contactsNear (h : roster.Serving i server)
    (targetId : Address) : (server.host.node.contactsNear targetId).length ≤ Fintype.card ι := by
  have hpos : 0 < Fintype.card ι := Fintype.card_pos_iff.mpr ⟨i⟩
  unfold Node.contactsNear
  cases server.host.node.routingTable.findNodeId targetId with
  | some found => exact hpos
  | none =>
    dsimp only
    split
    · exact hpos
    · have hle := h.placed.length_getKClosestNodes_le targetId [server.host.node.nodeInfo]
      have hcontacts := h.placed.length_contacts_lt h.members h.id.symm
      rw [List.length_singleton] at hle
      omega

/-- A server that does not know `x` names it everybody it knows. -/
theorem Fits.mem_contactsNear_of_knows (hfits : roster.Fits) (h : roster.Serving i server) {x : ι}
    (hx : x ≠ i) (hunknown : ¬ roster.Knows server x) {y : ι} (hy : roster.Knows server y) :
    roster.info y ∈ server.host.node.contactsNear (roster.info x).id := by
  classical
  have hnone : server.host.node.routingTable.findNodeId (roster.info x).id = none := by
    cases hfound : server.host.node.routingTable.findNodeId (roster.info x).id with
    | none => rfl
    | some c =>
      obtain ⟨hmem, hid⟩ := h.placed.mem_of_findNodeId hfound
      obtain ⟨j, rfl⟩ := h.members c hmem
      obtain rfl := hfits.ids hid
      exact absurd hmem hunknown
  -- Neither `x` nor the server itself is among the contacts, so there is room for them.
  have hfit : [server.host.node.nodeInfo].length +
      server.host.node.routingTable.contacts.length < server.host.node.routingTable.config.kValue := by
    have hle : server.host.node.routingTable.contacts.length ≤
        ((Finset.univ.erase i).erase x).card := by
      refine length_le_card roster.info h.placed.nodup_ids fun c hc => ?_
      obtain ⟨j, rfl⟩ := h.members c hc
      refine ⟨j, ?_, rfl⟩
      simp only [Finset.mem_erase, Finset.mem_univ, and_true]
      constructor
      · rintro rfl
        exact hunknown hc
      · rintro rfl
        exact h.not_knows_self hc
    have hpair : ({x, i} : Finset ι).card ≤ Fintype.card ι := Finset.card_le_univ _
    rw [Finset.card_pair hx] at hpair
    rw [Finset.card_erase_of_mem (Finset.mem_erase.mpr ⟨hx, Finset.mem_univ x⟩),
      Finset.card_erase_of_mem (Finset.mem_univ i), Finset.card_univ] at hle
    have hk := hfits.kValue i
    rw [← h.tableConfig] at hk
    rw [List.length_singleton]
    omega
  have hmem : roster.info y ∈ server.host.node.routingTable.getKClosestNodes (roster.info x).id
      [server.host.node.nodeInfo] :=
    (h.placed.mem_getKClosestNodes hfit).mpr (Or.inr hy)
  unfold Node.contactsNear
  rw [hnone]
  dsimp only
  rw [if_neg (List.ne_nil_of_mem hmem)]
  exact hmem

/-- The seeds are the contacts. -/
theorem Fits.mem_seeds (hfits : roster.Fits) (h : roster.Serving i server) (targetId : Address)
    {c : NodeInfo} : c ∈ server.host.node.routingTable.getKClosestNodes targetId [] ↔
      c ∈ server.host.node.routingTable.contacts := by
  have hfit : ([] : List NodeInfo).length + server.host.node.routingTable.contacts.length <
      server.host.node.routingTable.config.kValue := by
    rw [List.length_nil, Nat.zero_add, h.tableConfig]
    exact (h.placed.length_contacts_lt h.members h.id.symm).trans_le (hfits.kValue i)
  rw [h.placed.mem_getKClosestNodes hfit]
  simp

theorem Serving.length_seeds (h : roster.Serving i server) (targetId : Address) :
    (server.host.node.routingTable.getKClosestNodes targetId []).length ≤ Fintype.card ι := by
  have hle := h.placed.length_getKClosestNodes_le targetId []
  have hcontacts := h.placed.length_contacts_lt h.members h.id.symm
  rw [List.length_nil] at hle
  omega

/-- Somebody is left who has not been asked: the process itself. -/
theorem Searches.length_queried_lt {s : Discovery} (h : roster.Searches i s) :
    s.queried.length < Fintype.card ι := by
  classical
  have hsub : s.queried.toFinset ⊆
      (Finset.univ.erase i).image fun j => (roster.info j).id := by
    intro id hid
    obtain ⟨j, hj, rfl⟩ := h.queried id (List.mem_toFinset.mp hid)
    exact Finset.mem_image_of_mem _ (Finset.mem_erase.mpr ⟨hj, Finset.mem_univ j⟩)
  have hle := (Finset.card_le_card hsub).trans Finset.card_image_le
  have hpos : 0 < Fintype.card ι := Fintype.card_pos_iff.mpr ⟨i⟩
  rw [List.toFinset_card_of_nodup h.nodup, Finset.card_erase_of_mem (Finset.mem_univ i),
    Finset.card_univ] at hle
  omega

end Roster

/-- A server that answers `find_node` takes the client in. -/
theorem Server.handleAll_findNode {libs : Libraries} {server : Server} {client : Node}
    (h : server.Serves libs client) (inputs : Inputs) (targetId : Address) :
    (server.handleAll libs (client.request libs .findNode inputs libs.prost.findNodeRequest
        { targetId := targetId.toStr })).host.node.routingTable =
      (server.host.node.routingTable.insertContact client.nodeInfo).2 := by
  have hlength := length_toStr targetId
  obtain ⟨own, hrequest, hopen⟩ := @Server.request_eq _ _ _ .findNodeRequest h
    { targetId := targetId.toStr } (PayloadType.isValue_findNodeRequest (by omega)) .findNode inputs
  have htakes : takesIn libs .findNode own = some client.nodeInfo := by
    unfold takesIn
    dsimp only
    rw [show openRequest libs libs.prost.findNodeRequest own = _ from hopen]
    dsimp only
    rw [Address.fromStr_toStr]
    rfl
  have htable := (server.handle_routingTable libs .findNode inputs own).1
  rw [htakes] at htable
  rw [show client.request libs .findNode inputs libs.prost.findNodeRequest _ = _ from hrequest]
  exact htable

/-! ## Steps -/

/-- All that looking at a contact does. -/
theorem Discovery.considerNode_cases (node : NodeInfo) (s : Discovery) (newNode : NodeInfo) :
    ((newNode.id ∈ s.queried ∨ newNode.id = s.node.nodeInfo.id) ∧
      considerNode node s newNode = s) ∨
    (newNode.id ∉ s.queried ∧ newNode.id ≠ s.node.nodeInfo.id ∧
      (((∃ n ∈ s.foundNodes, n.id = node.id) ∧ considerNode node s newNode =
          { s with shortlist := s.shortlist ++ [newNode], pushed := s.pushed ++ [newNode] }) ∨
        considerNode node s newNode =
          { s with
            shortlist := s.shortlist ++ [newNode]
            pushed := s.pushed ++ [newNode]
            foundNodes := s.foundNodes ++ [newNode]
            node := s.node.insertNodeToRoutingTable newNode })) := by
  unfold considerNode
  by_cases hqueried : newNode.id ∈ s.queried
  · exact Or.inl ⟨Or.inl hqueried, if_pos hqueried⟩
  by_cases hown : newNode.id = s.node.nodeInfo.id
  · exact Or.inl ⟨Or.inr hown, by rw [if_neg hqueried, if_pos hown]⟩
  refine Or.inr ⟨hqueried, hown, ?_⟩
  rw [if_neg hqueried, if_neg hown]
  dsimp only
  by_cases hfound : (s.foundNodes.any fun n => n.id = node.id) = true
  · refine Or.inl ⟨by simpa using hfound, if_pos hfound⟩
  · exact Or.inr (if_neg hfound)

theorem Roster.Seeks.mono {roster : Roster ι} {i : ι} {server server' : Server} {client : Seeking}
    (h : roster.Seeks i server client)
    (hknows : roster.Knows server roster.boot → roster.Knows server' roster.boot) :
    roster.Seeks i server' client := by
  cases client with
  | entered => exact hknows h
  | outside | searching | reading => exact h

/-- The next contact `x` of an answer is done with. -/
theorem Roster.Reads.tail {roster : Roster ι} {i x : ι} {s s' : Discovery} {node : NodeInfo}
    {newNodes : List NodeInfo} (h : roster.Reads i s node (roster.info x :: newNodes))
    (hqueried : s'.queried = s.queried) (hkept : s.shortlist ⊆ s'.shortlist)
    (hlisted : ∀ c ∈ s'.shortlist, c ∈ s.shortlist ∨ (x ≠ i ∧ c = roster.info x))
    (hfound : ∀ c ∈ s'.foundNodes, c.id ≠ (roster.info roster.boot).id) :
    roster.Reads i s' node newNodes where
  queried := by
    rw [hqueried]
    exact h.queried
  nodup := by
    rw [hqueried]
    exact h.nodup
  shortlist c hc := (hlisted c hc).elim (h.shortlist c) fun hnew => ⟨x, hnew⟩
  found := hfound
  boot := by
    rw [hqueried]
    exact h.boot.imp_right fun hlist => hkept hlist
  answerer := h.answerer
  asked := by
    rw [hqueried]
    exact h.asked
  bootAsked := by
    rw [hqueried]
    exact h.bootAsked
  newNodes c hc := h.newNodes c (List.mem_cons_of_mem _ hc)

/-- `j` is asked, and names processes. -/
theorem Roster.Searches.ask {roster : Roster ι} {i j : ι} {s : Discovery}
    {rest newNodes : List NodeInfo} (h : roster.Searches i s) (hj : j ≠ i)
    (hlist : s.shortlist = roster.info j :: rest) (hqueried : (roster.info j).id ∉ s.queried)
    (hboot : (roster.info roster.boot).id ∈ (roster.info j).id :: s.queried)
    (hnames : ∀ c ∈ newNodes, ∃ k, c = roster.info k) :
    roster.Reads i { s with queried := (roster.info j).id :: s.queried, shortlist := rest }
      (roster.info j) newNodes where
  queried id hid := by
    rcases List.mem_cons.mp hid with rfl | hold
    · exact ⟨j, hj, rfl⟩
    · exact h.queried id hold
  nodup := List.nodup_cons.mpr ⟨hqueried, h.nodup⟩
  shortlist c hc := h.shortlist c (hlist ▸ List.mem_cons_of_mem _ hc)
  found := h.found
  boot := Or.inl hboot
  answerer := ⟨j, rfl⟩
  asked := List.mem_cons_self
  bootAsked := hboot
  newNodes := hnames

/-- Nobody is to ask itself. -/
theorem Roster.Searches.not_met_self [Fintype ι] {roster : Roster ι} {i : ι} {s : Discovery}
    (h : roster.Searches i s) (hfits : roster.Fits) : ¬ roster.Met (.searching s) i := by
  rintro (hqueried | hlisted)
  · obtain ⟨j, hj, hid⟩ := h.queried _ hqueried
    exact hj (hfits.ids hid).symm
  · obtain ⟨j, hj, hinfo⟩ := h.shortlist _ hlisted
    exact hj (hfits.info_injective hinfo).symm

namespace Overlay

variable [DecidableEq ι] {roster : Roster ι} {net : Overlay ι} {i j : ι}

theorem Orderly.setServer (h : net.Orderly roster) {server : Server}
    (hserver : roster.Serving j server)
    (hknows : roster.Knows (net.servers j) roster.boot → roster.Knows server roster.boot) :
    (net.setServer j server).Orderly roster where
  servers k := by
    by_cases hk : k = j
    · subst hk
      show roster.Serving k (Function.update net.servers k server k)
      rwa [Function.update_self]
    · show roster.Serving k (Function.update net.servers j server k)
      rw [Function.update_of_ne hk]
      exact h.servers k
  clients k := by
    show roster.Seeks k (Function.update net.servers j server k) (net.clients k)
    by_cases hk : k = j
    · subst hk
      rw [Function.update_self]
      exact (h.clients k).mono hknows
    · rw [Function.update_of_ne hk]
      exact h.clients k
  boot := h.boot

theorem Orderly.setClient (h : net.Orderly roster) {client : Seeking} (hi : i ≠ roster.boot)
    (hclient : roster.Seeks i (net.servers i) client) : (net.setClient i client).Orderly roster where
  servers := h.servers
  clients k := by
    show roster.Seeks k (net.servers k) (Function.update net.clients i client k)
    by_cases hk : k = i
    · subst hk
      rwa [Function.update_self]
    · rw [Function.update_of_ne hk]
      exact h.clients k
  boot := by
    show Function.update net.clients i client roster.boot = .outside
    rw [Function.update_of_ne hi.symm]
    exact h.boot

omit [DecidableEq ι] in
/-- A client that is anywhere is not the bootstrap node's. -/
theorem Orderly.ne_boot (h : net.Orderly roster) {client : Seeking} (hclient : net.clients i = client)
    (hsomewhere : client ≠ .outside) : i ≠ roster.boot := by
  rintro rfl
  exact hsomewhere (hclient.symm.trans h.boot)

omit [DecidableEq ι] in
theorem Orderly.seeks (h : net.Orderly roster) {client : Seeking} (hclient : net.clients i = client) :
    roster.Seeks i (net.servers i) client := by
  rw [← hclient]
  exact h.clients i

omit [DecidableEq ι] in
theorem Orderly.nodeInfo (h : net.Orderly roster) (i : ι) :
    (net.node i).nodeInfo = roster.info i := (h.servers i).nodeInfo

omit [DecidableEq ι] in
theorem Orderly.config (h : net.Orderly roster) (i : ι) :
    (net.node i).config = roster.config i := (h.servers i).config

/-- In order, and one move of the meeting further on. -/
def Advances (roster : Roster ι) (net net' : Overlay ι) : Prop :=
  net'.Orderly roster ∧ Meeting.Step roster.boot (net.meeting roster) (net'.meeting roster)

open Meeting

/-- A server handles a request of somebody that it does not take in. -/
theorem Orderly.handles (h : net.Orderly roster) (request : ServerRequest)
    (haside : Server.takesIn roster.libs request.rpc request.message = none) :
    net.Advances roster (net.setServer i ((net.servers i).handle roster.libs request.rpc
      request.inputs request.message)) := by
  obtain ⟨htable, hinfo⟩ := (net.servers i).handle_routingTable roster.libs request.rpc
    request.inputs request.message
  rw [haside] at htable
  have hserver := (h.servers i).of_table hinfo (Server.handle_config _ request) (Or.inl htable)
  have hknows : ∀ x, roster.Knows ((net.servers i).handle roster.libs request.rpc request.inputs
      request.message) x ↔ roster.Knows (net.servers i) x := by
    intro x
    unfold Roster.Knows
    rw [htable]
  exact ⟨h.setServer hserver (hknows _).mpr, .stay (same_update hknows) (Same.refl _) (Same.refl _)
    (Same.refl _)⟩

omit [DecidableEq ι] in
/-- The server of `i` with `j` in its table. -/
theorem Orderly.insertNode (h : net.Orderly roster) (j : ι) :
    roster.Serving i ((net.servers i).withNode
      ((net.node i).insertNodeToRoutingTable (roster.info j))) :=
  (h.servers i).of_table rfl rfl (Or.inr ⟨j, rfl⟩)

/-- A client goes on, with the table of its process, and turns to `x`. -/
theorem Orderly.turns (h : net.Orderly roster) (hi : i ≠ roster.boot) {server : Server}
    {client : Seeking} (hserver : roster.Serving i server) (hseeks : roster.Seeks i server client)
    {x : ι} (hx : x = roster.boot ∨ roster.Heard (net.clients i) x)
    (hknows : ∀ y, (roster.Knows (net.servers i) y → roster.Knows server y) ∧
      (roster.Knows server y → roster.Knows (net.servers i) y ∨ y = x))
    (hasked : ∀ y, roster.Asked client y ↔ roster.Asked (net.clients i) y)
    (hmet : ∀ y, (roster.Met (net.clients i) y → roster.Met client y) ∧
      (roster.Met client y → roster.Met (net.clients i) y ∨ y = x))
    (hheard : ∀ y, (roster.Heard client y → roster.Heard (net.clients i) y) ∧
      (roster.Heard (net.clients i) y → roster.Heard client y ∨ y = x))
    (hunknown : roster.Met client x → roster.Knows server x ∨
      ∃ j, roster.Asked (net.clients i) j ∧ j ≠ roster.boot)
    (hforgets : roster.Heard (net.clients i) x →
      roster.Heard client x ∨ roster.Met client x ∨ roster.Asked (net.clients i) x ∨ x = i) :
    net.Advances roster ((net.setServer i server).setClient i client) := by
  have hserver_self : ((net.setServer i server).setClient i client).servers i = server :=
    Function.update_self ..
  have hclient_self : ((net.setServer i server).setClient i client).clients i = client :=
    Function.update_self ..
  refine ⟨(h.setServer hserver (hknows _).1).setClient hi ?_, .turn i x hi hx (mayAdd_update hknows)
    (same_update hasked) (mayAdd_update hmet) (mayDrop_update hheard) ?_ ?_⟩
  · show roster.Seeks i (((net.setServer i server).setClient i client).servers i) client
    rwa [hserver_self]
  · show roster.Met (((net.setServer i server).setClient i client).clients i) x →
      roster.Knows (((net.setServer i server).setClient i client).servers i) x ∨ _
    rwa [hserver_self, hclient_self]
  · show roster.Heard (net.clients i) x →
      roster.Heard (((net.setServer i server).setClient i client).clients i) x ∨
        roster.Met (((net.setServer i server).setClient i client).clients i) x ∨ _
    rwa [hclient_self]

/-- A client asks `j`, whose server takes it in. -/
theorem Orderly.asksBy (h : net.Orderly roster) (hi : i ≠ roster.boot) {server : Server}
    {client : Seeking} (hserver : roster.Serving j server)
    (hseeks : ∀ server, roster.Seeks i server client) (named : ι → Prop)
    (hdue : roster.Met (net.clients i) j) (hidle : ∀ x, ¬ roster.Heard (net.clients i) x)
    (hnamed : ∀ x, named x → x = j ∨ roster.Knows (net.servers j) x)
    (hall : j = roster.boot → ∀ x, roster.Knows (net.servers roster.boot) x → named x)
    (hknows : ∀ x, roster.Knows server x ↔ roster.Knows (net.servers j) x ∨ x = i)
    (hasked : ∀ y, roster.Asked client y ↔ roster.Asked (net.clients i) y ∨ y = j)
    (hmet : ∀ y, roster.Met client y ↔ roster.Met (net.clients i) y)
    (hheard : ∀ y, roster.Heard client y ↔ named y) :
    net.Advances roster ((net.setServer j server).setClient i client) := by
  refine ⟨(h.setServer hserver fun hx => (hknows _).mpr (Or.inl hx)).setClient hi (hseeks _),
    .ask i j named hi hdue hidle hnamed hall (adds_update hknows) (adds_update hasked)
      (same_update hmet) fun k x => ?_⟩
  show roster.Heard (Function.update net.clients i client k) x ↔ roster.Heard (net.clients k) x ∨ _
  by_cases hk : k = i
  · subst hk
    rw [Function.update_self, hheard]
    simp [hidle]
  · rw [Function.update_of_ne hk]
    simp [hk]

variable [Fintype ι]

/-- A client enters the network. -/
theorem Orderly.enters (h : net.Orderly roster) (hfits : roster.Fits)
    (hclient : net.clients i = .outside)
    (hport : (net.node i).nodeInfo.port ≠ (net.node i).config.bootstrapPeerPort) :
    net.Advances roster ((net.setNode i
      ((net.node i).insertNodeToRoutingTable (net.node roster.boot).nodeInfo)).setClient i
        .entered) := by
  have hi : i ≠ roster.boot := by
    intro heq
    refine hport ?_
    rw [h.nodeInfo, h.config]
    exact (hfits.boot i).mpr heq
  rw [h.nodeInfo roster.boot]
  have hknows : ∀ x, roster.Knows ((net.servers i).withNode
      ((net.node i).insertNodeToRoutingTable (roster.info roster.boot))) x ↔
        roster.Knows (net.servers i) x ∨ x = roster.boot :=
    hfits.knows_insert (h.servers i) hi.symm rfl
  have hboot := (hknows roster.boot).mpr (Or.inr rfl)
  refine h.turns hi (h.insertNode roster.boot) hboot (Or.inl rfl)
    (fun y => ⟨fun hy => (hknows y).mpr (Or.inl hy), (hknows y).mp⟩) ?_ ?_ ?_
    (fun _ => Or.inl hboot) ?_
  all_goals rw [hclient]
  · exact fun y => Iff.rfl
  · exact fun y => ⟨id, Or.inl⟩
  · exact fun y => ⟨id, Or.inl⟩
  · exact Or.inl

/-- The shortlist of a client is seeded. -/
theorem Orderly.begins (h : net.Orderly roster) (hfits : roster.Fits)
    (hmeeting : Acquainted roster.boot (net.meeting roster)) (hclient : net.clients i = .entered) :
    net.Advances roster (net.setClient i
      (.searching (Discovery.seeded (net.node i) (net.node i).nodeInfo.id))) := by
  have hi : i ≠ roster.boot := h.ne_boot hclient (by simp)
  have hboot : roster.Knows (net.servers i) roster.boot := h.seeks hclient
  have hseeds : ∀ {c : NodeInfo}, c ∈ (Discovery.seeded (net.node i)
      (net.node i).nodeInfo.id).shortlist ↔ c ∈ (net.node i).routingTable.contacts :=
    hfits.mem_seeds (h.servers i) _
  -- Nobody has heard of it yet, so nobody else is in the table.
  have honly : ∀ y, roster.Knows (net.servers i) y → y = roster.boot := by
    intro y hy
    have hnew : ¬ roster.Asked (net.clients i) roster.boot := by
      rw [hclient]
      exact List.not_mem_nil
    exact (hmeeting.first i hi hnew y).1 (Or.inl hy)
  have hseeks : roster.Seeks i (net.servers i)
      (.searching (Discovery.seeded (net.node i) (net.node i).nodeInfo.id)) := by
    refine Roster.Searches.mk (fun id hid => absurd hid List.not_mem_nil) List.nodup_nil
      (fun c hc => ?_) (fun c hc => absurd hc List.not_mem_nil) (Or.inr (hseeds.mpr hboot))
    have hcontact := hseeds.mp hc
    obtain ⟨j, rfl⟩ := (h.servers i).members c hcontact
    refine ⟨j, ?_, rfl⟩
    rintro rfl
    exact (h.servers j).not_knows_self hcontact
  have hturn : net.Advances roster ((net.setServer i (net.servers i)).setClient i
      (.searching (Discovery.seeded (net.node i) (net.node i).nodeInfo.id))) := by
    refine h.turns hi (h.servers i) hseeks (Or.inl rfl) (fun y => ⟨id, Or.inl⟩) ?_ ?_ ?_
      (fun _ => Or.inl hboot) ?_
    all_goals rw [hclient]
    · exact fun y => Iff.rfl
    · intro y
      constructor
      · rintro (hy | hy) <;> exact absurd hy List.not_mem_nil
      · rintro (hy | hy)
        · exact absurd hy List.not_mem_nil
        · exact Or.inr (honly y (hseeds.mp hy))
    · exact fun y => ⟨id, Or.inl⟩
    · exact Or.inl
  rwa [setServer_self] at hturn

omit [Fintype ι] in
/-- A client goes on without learning anything. -/
theorem Orderly.stays (h : net.Orderly roster) (hi : i ≠ roster.boot) {client : Seeking}
    (hseeks : roster.Seeks i (net.servers i) client)
    (hasked : ∀ y, roster.Asked client y ↔ roster.Asked (net.clients i) y)
    (hmet : ∀ y, roster.Met client y ↔ roster.Met (net.clients i) y)
    (hheard : ∀ y, roster.Heard client y ↔ roster.Heard (net.clients i) y) :
    net.Advances roster (net.setClient i client) :=
  ⟨h.setClient hi hseeks, .stay (Same.refl _) (same_update hasked) (same_update hmet)
    (same_update hheard)⟩

omit [Fintype ι] in
/-- A node that has been asked is taken off the shortlist. -/
theorem Orderly.skips (h : net.Orderly roster) {s : Discovery} {node : NodeInfo}
    {rest : List NodeInfo} (hclient : net.clients i = .searching s)
    (hlist : s.shortlist = node :: rest) (hqueried : node.id ∈ s.queried) :
    net.Advances roster (net.setClient i (.searching { s with shortlist := rest })) := by
  have hseeks : roster.Searches i s := h.seeks hclient
  have hmet : ∀ y, (roster.info y).id ∈ s.queried ∨ roster.info y ∈ rest ↔
      (roster.info y).id ∈ s.queried ∨ roster.info y ∈ s.shortlist := by
    intro y
    rw [hlist, List.mem_cons]
    constructor
    · exact Or.imp_right Or.inr
    · rintro (hy | rfl | hy)
      · exact Or.inl hy
      · exact Or.inl hqueried
      · exact Or.inr hy
  refine h.stays (h.ne_boot hclient (by simp)) ⟨hseeks.queried, hseeks.nodup, fun c hc => ?_,
    hseeks.found, (hmet roster.boot).mpr hseeks.boot⟩ ?_ ?_ ?_
  · exact hseeks.shortlist c (hlist ▸ List.mem_cons_of_mem _ hc)
  all_goals rw [hclient]
  · exact fun y => Iff.rfl
  · exact hmet
  · exact fun y => Iff.rfl

omit [Fintype ι] in
/-- The shortlist is sorted. -/
theorem Orderly.sorts (h : net.Orderly roster) {s : Discovery} {node : NodeInfo}
    (hclient : net.clients i = .reading s node []) (targetId : Address) :
    net.Advances roster (net.setClient i (.searching { s with
      shortlist := s.shortlist.mergeSort (RoutingTable.closerOrEqual targetId) })) := by
  have hreads : roster.Reads i s node [] := h.seeks hclient
  have hmem : ∀ c, c ∈ s.shortlist.mergeSort (RoutingTable.closerOrEqual targetId) ↔
      c ∈ s.shortlist := fun c => List.mem_mergeSort
  refine h.stays (h.ne_boot hclient (by simp)) ⟨hreads.queried, hreads.nodup, fun c hc => ?_,
    hreads.found, hreads.boot.imp_right (hmem _).mpr⟩ ?_ ?_ ?_
  · exact hreads.shortlist c ((hmem c).mp hc)
  all_goals rw [hclient]
  · exact fun y => Iff.rfl
  · exact fun y => or_congr_right (hmem (roster.info y))
  · exact fun y => Iff.rfl

/-- A client has looked at a contact `x` of an answer, and has put it on its
shortlist or not. -/
theorem Orderly.readsOn (h : net.Orderly roster) (hfits : roster.Fits) {s s' : Discovery}
    {node : NodeInfo} {newNodes : List NodeInfo} {x : ι} {server : Server}
    (hclient : net.clients i = .reading s node (roster.info x :: newNodes))
    (hserver : roster.Serving i server)
    (hknows : ∀ y, (roster.Knows (net.servers i) y → roster.Knows server y) ∧
      (roster.Knows server y → roster.Knows (net.servers i) y ∨ y = x))
    (hqueried : s'.queried = s.queried) (hkept : s.shortlist ⊆ s'.shortlist)
    (hlisted : ∀ c ∈ s'.shortlist, c ∈ s.shortlist ∨ (x ≠ i ∧ c = roster.info x))
    (hfound : ∀ c ∈ s'.foundNodes, c.id ≠ (roster.info roster.boot).id)
    (hunknown : roster.Met (.reading s' node newNodes) x → roster.Knows server x ∨
      ∃ j, roster.Asked (net.clients i) j ∧ j ≠ roster.boot)
    (hforgets : roster.Met (.reading s' node newNodes) x ∨ roster.Asked (net.clients i) x ∨ x = i) :
    net.Advances roster ((net.setServer i server).setClient i (.reading s' node newNodes)) := by
  have hreads : roster.Reads i s node (roster.info x :: newNodes) := h.seeks hclient
  have hheard : roster.Heard (net.clients i) x := by
    rw [hclient]
    exact List.mem_cons_self
  refine h.turns (h.ne_boot hclient (by simp)) hserver (hreads.tail hqueried hkept hlisted hfound)
    (Or.inr hheard) hknows ?_ ?_ ?_ hunknown fun _ => Or.inr hforgets
  all_goals
    rw [hclient]
    intro y
  · show (roster.info y).id ∈ s'.queried ↔ (roster.info y).id ∈ s.queried
    rw [hqueried]
  · show ((roster.info y).id ∈ s.queried ∨ roster.info y ∈ s.shortlist →
        (roster.info y).id ∈ s'.queried ∨ roster.info y ∈ s'.shortlist) ∧
      ((roster.info y).id ∈ s'.queried ∨ roster.info y ∈ s'.shortlist →
        ((roster.info y).id ∈ s.queried ∨ roster.info y ∈ s.shortlist) ∨ y = x)
    rw [hqueried]
    refine ⟨Or.imp_right fun hy => hkept hy, ?_⟩
    rintro (hy | hy)
    · exact Or.inl (Or.inl hy)
    · exact (hlisted _ hy).imp Or.inr fun hnew => hfits.info_injective hnew.2
  · refine ⟨List.mem_cons_of_mem _, fun hy => ?_⟩
    rcases List.mem_cons.mp hy with heq | hmem
    · exact Or.inr (hfits.info_injective heq)
    · exact Or.inl hmem

/-- A contact of an answer is looked at: it is one that is passed over, it goes
on the shortlist, or into the table as well. -/
theorem Orderly.considers (h : net.Orderly roster) (hfits : roster.Fits)
    (hmeeting : Acquainted roster.boot (net.meeting roster)) {s : Discovery}
    {node newNode : NodeInfo} {newNodes : List NodeInfo}
    (hclient : net.clients i = .reading s node (newNode :: newNodes)) :
    net.Advances roster (net.consider i s node newNode newNodes) := by
  have hreads : roster.Reads i s node (newNode :: newNodes) := h.seeks hclient
  obtain ⟨x, rfl⟩ := hreads.newNodes newNode List.mem_cons_self
  have hasked : ∀ {y}, (roster.info y).id ∈ s.queried → roster.Asked (net.clients i) y := by
    intro y hy
    rw [hclient]
    exact hy
  unfold consider
  rcases Discovery.considerNode_cases node { s with node := net.node i } (roster.info x) with
    ⟨hpass, hsame⟩ | ⟨hnew, hother, hpush⟩
  · have hwhy : (roster.info x).id ∈ s.queried ∨ x = i := by
      refine hpass.imp_right fun hown => ?_
      rw [h.nodeInfo] at hown
      exact hfits.ids hown
    rw [hsame]
    refine h.readsOn hfits hclient (h.servers i) (fun y => ⟨id, Or.inl⟩) rfl (List.Subset.refl _)
      (fun c hc => Or.inl hc) hreads.found (fun hmet => ?_) (Or.inr (hwhy.imp_left hasked))
    rcases hwhy with hqueried | rfl
    · by_cases hboot : x = roster.boot
      · have hmets : roster.Met (net.clients i) x := by
          rw [hclient]
          exact hmet
        rw [hboot] at hmets ⊢
        exact Or.inl (hmeeting.introduced i hmets)
      · exact Or.inr ⟨x, hasked hqueried, hboot⟩
    · exact absurd hmet (hreads.toSearches.not_met_self hfits)
  · have hxi : x ≠ i := by
      rintro rfl
      exact hother (congrArg NodeInfo.id (h.nodeInfo x).symm)
    have hlisted : ∀ c ∈ s.shortlist ++ [roster.info x],
        c ∈ s.shortlist ∨ (x ≠ i ∧ c = roster.info x) := fun c hc =>
      (List.mem_append.mp hc).imp_right fun hlast => ⟨hxi, List.mem_singleton.mp hlast⟩
    have hkept : s.shortlist ⊆ s.shortlist ++ [roster.info x] := List.subset_append_left _ _
    have hmet : (roster.info x).id ∈ s.queried ∨ roster.info x ∈ s.shortlist ++ [roster.info x] :=
      Or.inr (List.mem_append_right _ (List.mem_singleton_self _))
    rcases hpush with ⟨⟨n, hn, hid⟩, hpushed⟩ | hpushed
    · rw [hpushed]
      refine h.readsOn hfits hclient (h.servers i) (fun y => ⟨id, Or.inl⟩) rfl hkept hlisted
        hreads.found (fun _ => ?_) (Or.inl hmet)
      obtain ⟨j, rfl⟩ := hreads.answerer
      refine Or.inr ⟨j, hasked hreads.asked, ?_⟩
      rintro rfl
      exact hreads.found n hn hid
    · have hknows : ∀ y, roster.Knows ((net.servers i).withNode
          ((net.node i).insertNodeToRoutingTable (roster.info x))) y ↔
            roster.Knows (net.servers i) y ∨ y = x :=
        hfits.knows_insert (h.servers i) hxi rfl
      rw [hpushed]
      refine h.readsOn hfits hclient (h.insertNode x)
        (fun y => ⟨fun hy => (hknows y).mpr (Or.inl hy), (hknows y).mp⟩) rfl hkept hlisted
        (fun c hc => ?_) (fun _ => Or.inl ((hknows x).mpr (Or.inr rfl))) (Or.inl hmet)
      rcases List.mem_append.mp hc with hold | hfound
      · exact hreads.found c hold
      · rw [List.mem_singleton.mp hfound]
        exact fun heq => hnew (heq ▸ hreads.bootAsked)

omit [DecidableEq ι] in
/-- What `i` is told by `j` when it asks for its own id. -/
theorem Orderly.answerOf (h : net.Orderly roster) (hfits : roster.Fits) (inputs : Inputs)
    (node : NodeInfo) :
    net.answerOf roster i j inputs node = .ok ((net.node j).contactsNear (roster.info i).id) := by
  unfold Overlay.answerOf
  rw [h.nodeInfo i]
  refine Client.findNode_link (hfits.serves (h.servers j) (h.servers i)) inputs _ _ ?_
  rw [Server.nodesNear_eq]
  refine PayloadType.isValue_findNodeResponse (fun info hinfo => ?_) ?_
  · obtain ⟨c, hc, rfl⟩ := List.mem_map.mp hinfo
    rcases (h.servers j).mem_contactsNear hc with rfl | hcontact
    · exact hfits.short j
    · obtain ⟨k, rfl⟩ := (h.servers j).members c hcontact
      exact hfits.short k
  · rw [List.length_map]
    exact ((h.servers j).length_contactsNear _).trans_lt hfits.count

/-- A client asks the next node of its shortlist. -/
theorem Orderly.asks (h : net.Orderly roster) (hfits : roster.Fits)
    (hmeeting : Acquainted roster.boot (net.meeting roster)) {s : Discovery} {node : NodeInfo}
    {rest : List NodeInfo} (inputs : Inputs) (hclient : net.clients i = .searching s)
    (hlist : s.shortlist = node :: rest) (hqueried : node.id ∉ s.queried)
    (haddress : (node.ip, node.port) = ((net.node j).nodeInfo.ip, (net.node j).nodeInfo.port)) :
    net.Advances roster (net.ask roster i j inputs { s with shortlist := rest } node) := by
  have hi : i ≠ roster.boot := h.ne_boot hclient (by simp)
  have hseeks : roster.Searches i s := h.seeks hclient
  obtain ⟨j', hj, rfl⟩ := hseeks.shortlist node (hlist ▸ List.mem_cons_self)
  rw [h.nodeInfo j] at haddress
  obtain rfl := hfits.addresses haddress
  have hmet : (net.meeting roster).met i j' := by
    show roster.Met (net.clients i) j'
    rw [hclient]
    have hfirst : roster.info j' ∈ s.shortlist := hlist ▸ List.mem_cons_self
    exact Or.inr hfirst
  have hasked : ∀ y, roster.Asked (net.clients i) y ↔ (roster.info y).id ∈ s.queried := by
    intro y
    rw [hclient]
    rfl
  have hids : ∀ y, (roster.info y).id = (roster.info j').id ↔ y = j' := fun y => hfits.ids.eq_iff
  -- The first that it asks is the bootstrap node.
  have hbootAsked : (roster.info roster.boot).id ∈ (roster.info j').id :: s.queried := by
    by_cases hold : roster.Asked (net.clients i) roster.boot
    · exact List.mem_cons_of_mem _ ((hasked _).mp hold)
    · rw [(hmeeting.first i hi hold j').1 (Or.inr hmet)]
      exact List.mem_cons_self
  have hnear : ∀ c ∈ (net.node j').contactsNear (roster.info i).id, c = roster.info j' ∨
      c ∈ (net.node j').routingTable.contacts := fun c => (h.servers j').mem_contactsNear
  let server := (net.servers j').handleAll roster.libs (net.findOwn roster i inputs)
  have htable : server.host.node.routingTable =
      ((net.servers j').host.node.routingTable.insertContact (roster.info i)).2 := by
    rw [← h.nodeInfo i]
    exact Server.handleAll_findNode (hfits.serves (h.servers j') (h.servers i)) inputs _
  have hkept := Server.handleAll_node roster.libs (net.servers j') (net.findOwn roster i inputs)
  have hknows := hfits.knows_insert (h.servers j') hj.symm htable
  have hserver : roster.Serving j' server :=
    (h.servers j').of_table hkept.1 hkept.2 (Or.inr ⟨i, htable⟩)
  have hnames : ∀ c ∈ (net.node j').contactsNear (roster.info i).id, ∃ k, c = roster.info k := by
    intro c hc
    rcases hnear c hc with rfl | hcontact
    · exact ⟨j', rfl⟩
    · exact (h.servers j').members c hcontact
  have hreads := hseeks.ask hj hlist hqueried hbootAsked hnames
  unfold ask
  rw [h.answerOf hfits]
  refine h.asksBy hi hserver (fun _ => hreads)
    (fun x => roster.info x ∈ (net.node j').contactsNear (roster.info i).id) hmet ?_
    (fun x hx => (hnear _ hx).imp_left fun heq => hfits.info_injective heq) ?_ hknows
    (fun y => ?_) (fun y => ?_) fun y => Iff.rfl
  · rw [hclient]
    exact fun x => List.not_mem_nil
  · -- The bootstrap node does not know a client that has not asked it.
    rintro rfl x hx
    have hunknown : ¬ roster.Knows (net.servers roster.boot) i := by
      intro hknown
      rcases hmeeting.known roster.boot i (Or.inl hknown) with heq | hold
      · exact hi heq
      · exact hqueried ((hasked _).mp hold)
    exact hfits.mem_contactsNear_of_knows (h.servers roster.boot) hi hunknown hx
  · rw [hasked]
    show (roster.info y).id ∈ (roster.info j').id :: s.queried ↔ _
    rw [List.mem_cons, hids, or_comm]
  · rw [hclient]
    show ((roster.info y).id ∈ (roster.info j').id :: s.queried ∨ roster.info y ∈ rest) ↔
      ((roster.info y).id ∈ s.queried ∨ roster.info y ∈ s.shortlist)
    rw [hlist, List.mem_cons, List.mem_cons, hids, hfits.info_injective.eq_iff]
    tauto

/-- The requests of others, which are not taken in. -/
def Aside (roster : Roster ι) (_net : Overlay ι) : OverlayEvent ι → Prop
  | .handles _ request => Server.takesIn roster.libs request.rpc request.message = none
  | _ => True

/-- **Every step** keeps the processes in order and is a move of the
meeting. -/
theorem Orderly.step (h : net.Orderly roster) (hfits : roster.Fits)
    (hmeeting : Acquainted roster.boot (net.meeting roster)) {event : OverlayEvent ι}
    (haside : Aside roster net event) {net' : Overlay ι} (hmoves : net.Moves roster event net') :
    net.Advances roster net' := by
  cases hmoves with
  | handles i request => exact h.handles request haside
  | enters hclient hport => exact h.enters hfits hclient hport
  | begins hclient => exact h.begins hfits hmeeting hclient
  | skips hclient hlist hqueried => exact h.skips hclient hlist hqueried
  | asks hclient hlist hqueried haddress =>
    exact h.asks hfits hmeeting _ hclient hlist hqueried haddress
  | considers hclient => exact h.considers hfits hmeeting hclient
  | sorts hclient => exact h.sorts hclient _

end Overlay

end KademliaAuction
