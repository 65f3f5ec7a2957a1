/-
KademliaAuction.GRpc.JoinTheorems — who gets into a server's routing table.

The README describes a proof-of-work challenge before a peer joins:
`bootstrap` hands it out and `challenge_resolution` checks the answer. The
contacts, however, are taken in by `find_node` and `find_value`, which do not
ask whether their sender ever solved a challenge. `joinSystem` is the server
with the list of the senders it has accepted; `contacts_accepted_iff` says
exactly which runs keep the table to accepted senders, and
`uninvited_contact` is a run of one request that does not.
-/
import KademliaAuction.GRpc.Server
import KademliaAuction.LedgerTheorems
import KademliaAuction.Lib.Transition
import KademliaAuction.Routing.ClosestNodes

namespace KademliaAuction

open Blockchain Proto Routing Lib

namespace Server

variable (libs : Libraries)

/-- The sender id to which a request makes the server reply
`accepted = true`. -/
def accepts (server : Server) (rpc : Rpc) (inputs : Inputs) (request : AuthenticatedMessage) :
    Option Address :=
  match rpc with
  | .challengeResolution =>
      match (server.challengeResolution libs inputs request).reply,
          openRequest libs libs.prost.challengeResolutionRequest request with
      | .ok reply, .ok (_, _, sender) => if reply.response.accepted then some sender.id else none
      | _, _ => none
  | _ => none

variable {libs}

theorem storeDecoded_node (server : Server) (inputs : Inputs) (sender : NodeInfo)
    (auction : Auction) :
    (server.storeDecoded libs inputs sender auction).server.host.node.routingTable =
        server.host.node.routingTable ∧
      (server.storeDecoded libs inputs sender auction).server.host.node.nodeInfo =
        server.host.node.nodeInfo := by
  rw [storeDecoded_host]
  split
  · exact ⟨Host.routingTable_storeAuction .., Host.nodeInfo_storeAuction ..⟩
  · exact ⟨rfl, rfl⟩

/-- What a request does to the routing table: it inserts the sender it takes
in, if any. -/
theorem handle_routingTable (libs : Libraries) (server : Server) (rpc : Rpc) (inputs : Inputs)
    (request : AuthenticatedMessage) :
    (server.handle libs rpc inputs request).host.node.routingTable =
        (match takesIn libs rpc request with
          | some sender => (server.host.node.routingTable.insertContact sender).2
          | none => server.host.node.routingTable) ∧
      (server.handle libs rpc inputs request).host.node.nodeInfo = server.host.node.nodeInfo := by
  rcases server.handle_host libs rpc inputs request with
    ⟨auction, _, htakes, hhost⟩ | ⟨sender, _, htakes, hhost⟩ | ⟨_, htakes, hhost⟩
  · rw [hhost, htakes]
    exact ⟨Host.routingTable_storeAuction .., Host.nodeInfo_storeAuction ..⟩
  · rw [hhost, htakes]
    exact ⟨rfl, rfl⟩
  · rw [hhost, htakes]
    exact ⟨rfl, rfl⟩

end Server

/-! ## Runs -/

/-- A request, with what its handler takes from outside. -/
structure ServerRequest where
  rpc : Rpc
  inputs : Inputs
  message : AuthenticatedMessage

/-- A server and the sender ids it has replied `accepted = true` to. -/
structure JoinState where
  server : Server
  accepted : List Address

/-- A server handling requests. -/
def joinSystem (libs : Libraries) (start : Server) : System JoinState ServerRequest where
  Init := fun s => s = { server := start, accepted := [] }
  next := fun s r => some
    { server := s.server.handle libs r.rpc r.inputs r.message
      accepted := s.accepted ++ (s.server.accepts libs r.rpc r.inputs r.message).toList }

/-- Every contact in the routing table has been accepted. -/
def OnlyAccepted (s : JoinState) : Prop :=
  ∀ contact ∈ s.server.host.node.routingTable.contacts, contact.id ∈ s.accepted

/-- A request that makes the server take its sender in comes from a sender it
has accepted before, or carries the server's own id. -/
def FromAccepted (libs : Libraries) (s : JoinState) (r : ServerRequest) : Prop :=
  ∀ sender, Server.takesIn libs r.rpc r.message = some sender →
    sender.id ∈ s.accepted ∨ sender.id = s.server.host.node.nodeInfo.id

/-- A server that has just been started. -/
def Server.start (id : Address) (ip : String) (port : Nat) (config : Config)
    (disk : Storage.DataDir) : Server :=
  Server.new { node := Node.new id ip port config disk, disk }

/-- The routing table is the one of this node, and in order. -/
structure TableInOrder (s : JoinState) : Prop where
  placed : s.server.host.node.routingTable.WellPlaced
  id : s.server.host.node.routingTable.id = s.server.host.node.nodeInfo.id

theorem TableInOrder.step {libs : Libraries} {start : Server} {s s' : JoinState} {r : ServerRequest}
    (h : TableInOrder s) (hnext : (joinSystem libs start).next s r = some s') : TableInOrder s' := by
  obtain rfl := Option.some.inj hnext
  obtain ⟨htable, hinfo⟩ := s.server.handle_routingTable libs r.rpc r.inputs r.message
  refine ⟨?_, ?_⟩
  · rw [htable]
    split
    · exact h.placed.insertContact _
    · exact h.placed
  · rw [htable, hinfo]
    split
    · exact (RoutingTable.id_insertContact _ _).trans h.id
    · exact h.id

/-- An accepting reply takes no one in, and a handler that takes its sender in
accepts no one. -/
theorem Server.accepts_of_takesIn {libs : Libraries} {server : Server} {rpc : Rpc} {inputs : Inputs}
    {request : AuthenticatedMessage} {sender : NodeInfo}
    (h : takesIn libs rpc request = some sender) : server.accepts libs rpc inputs request = none := by
  cases rpc <;> first | rfl | cases h

/-- From a state that is in order and keeps to accepted contacts, a request
keeps to them exactly when it comes from an accepted sender. -/
theorem onlyAccepted_step {libs : Libraries} {start : Server} {s s' : JoinState} {r : ServerRequest}
    (h : TableInOrder s) (honly : OnlyAccepted s)
    (hnext : (joinSystem libs start).next s r = some s') : OnlyAccepted s' ↔ FromAccepted libs s r := by
  obtain rfl := Option.some.inj hnext
  obtain ⟨htable, _⟩ := s.server.handle_routingTable libs r.rpc r.inputs r.message
  unfold OnlyAccepted FromAccepted
  rw [htable]
  cases htakes : Server.takesIn libs r.rpc r.message with
  | none =>
    simp only [reduceCtorEq, false_implies, implies_true, iff_true]
    exact fun contact hc => List.mem_append_left _ (honly contact hc)
  | some sender =>
    rw [Server.accepts_of_takesIn htakes, Option.toList_none, List.append_nil]
    simp only [Option.some.injEq, forall_eq']
    rw [← h.id]
    constructor
    · intro hall
      by_cases hown : sender.id = s.server.host.node.routingTable.id
      · exact Or.inr hown
      · exact Or.inl (hall sender (h.placed.self_mem_insertContact hown))
    · intro hsender contact hc
      rcases h.placed.mem_contacts_insertContact hc with rfl | hold
      · rcases hsender with haccepted | hown
        · exact haccepted
        · rw [RoutingTable.insertContact_own hown] at hc
          exact honly contact hc
      · exact honly contact hold

/-- **When the challenge gates the routing table**: in every run of a server
just started, all contacts are accepted senders in every state exactly when
every request that takes its sender in comes from one. -/
theorem contacts_accepted_iff (libs : Libraries) (id : Address) (ip : String) (port : Nat)
    (config : Config) (disk : Storage.DataDir) (requests : List ServerRequest) :
    (joinSystem libs (Server.start id ip port config disk)).Throughout OnlyAccepted
        { server := Server.start id ip port config disk, accepted := [] } requests ↔
      (joinSystem libs (Server.start id ip port config disk)).StepsMeet (FromAccepted libs)
        { server := Server.start id ip port config disk, accepted := [] } requests := by
  refine System.throughout_iff_stepsMeet (I := TableInOrder)
    (fun s r s' hi hnext => hi.step hnext) (fun s r hnone => nomatch hnone)
    (fun s r s' hi hp hnext => onlyAccepted_step hi hp hnext) requests _ ?_ ?_
  · exact ⟨RoutingTable.wellPlaced_new _ config, rfl⟩
  · intro contact hc
    rw [show (Server.start id ip port config disk).host.node.routingTable.contacts = [] from
      RoutingTable.contacts_new _ config] at hc
    cases hc

/-! A stranger asks a new server for a node. -/

/-- A signature that is the key followed by the payload. -/
def sampleOpenSsl : OpenSsl where
  sign := fun key payload => .ok (key ++ payload)
  verify := fun key payload signature => .ok (decide (signature = key ++ payload))

/-- Libraries in which these two requests travel, and a digest that reads the
bytes as a number after a leading one. -/
def sampleLibraries (findNode : FindNodeRequest) (store : StoreRequest) : Libraries where
  sha256 := fun bytes => BitVec.ofNat 256 (bytes.foldl (fun n b => 256 * n + b.toNat) 1)
  blockToString := fun _ => ""
  openSsl := sampleOpenSsl
  debugNodeInformation := NodeInformation.id
  prost :=
    { auction := Codec.only (Auction.toProto soldWatch)
      pingRequest := Codec.only {}
      pingResponse := Codec.only { message := "Pong" }
      storeRequest := Codec.only store
      storeResponse := Codec.only { message := "" }
      findNodeRequest := Codec.only findNode
      findNodeResponse := Codec.only { closestNodes := [] }
      findValueRequest := Codec.only { key := "" }
      findValueResponse := Codec.only { result := none }
      bootstrapRequest := Codec.only {}
      bootstrapResponse := Codec.only { hash := "0", difficulty := 4 }
      challengeResolutionRequest := Codec.only { nonce := 0 }
      challengeResolutionResponse := Codec.only { accepted := false } }

def lookupLibraries : Libraries :=
  sampleLibraries { targetId := (Address.ofU256 5).toStr } { auction := none }

def stranger : NodeInfo where
  id := ownId lookupLibraries.toCrates [2]
  ip := "127.0.0.1"
  port := 9000

def sampleInputs : Inputs where
  effects := Effects.calm 0
  now := 0
  challenge := 0

def lookup : ServerRequest where
  rpc := .findNode
  inputs := sampleInputs
  message :=
    { sender := some stranger.toInformation
      publicKey := [2]
      signature := [2]
      payload := [] }

def sampleServer : Server :=
  Server.start (Address.ofU256 1) "127.0.0.1" 8000 Config.testConfig
    { auctions := .absent, ledger := .absent }

theorem takesIn_lookup : Server.takesIn lookupLibraries .findNode lookup.message = some stranger := by
  have hopen : Server.openRequest lookupLibraries lookupLibraries.prost.findNodeRequest
      lookup.message = .ok ({ targetId := (Address.ofU256 5).toStr }, stranger.toInformation,
        stranger) :=
    Server.openRequest_eq_ok.mpr ⟨rfl, rfl, rfl, rfl, rfl⟩
  unfold Server.takesIn
  simp only [hopen, Address.fromStr_toStr]
  rfl

/-- **A contact that solved no challenge**: one `find_node` request puts its
sender into the table of a server that has accepted no one. -/
theorem uninvited_contact :
    ¬ ∀ requests, (joinSystem lookupLibraries sampleServer).Throughout OnlyAccepted
      { server := sampleServer, accepted := [] } requests := by
  intro hall
  have honly : OnlyAccepted
      { server := sampleServer.handle lookupLibraries .findNode sampleInputs lookup.message
        accepted := [] } :=
    ((hall [lookup]).2 _ rfl).head
  have hplaced : sampleServer.host.node.routingTable.WellPlaced :=
    RoutingTable.wellPlaced_new _ Config.testConfig
  have hother : stranger.id ≠ sampleServer.host.node.routingTable.id := by decide +kernel
  have hin := hplaced.self_mem_insertContact hother
  have htable := (sampleServer.handle_routingTable lookupLibraries .findNode sampleInputs
    lookup.message).1
  rw [takesIn_lookup] at htable
  have hcontact := honly stranger (by rw [htable]; exact hin)
  cases hcontact

end KademliaAuction
