/-
KademliaAuction.GRpc.Server — the six request handlers
(`src/g_rpc/server.rs`).

A handler takes an authenticated message and gives a reply or a status, a
new server state, and the nodes it sends a STORE on to (`Handled`). On the
state it is one step: its only waits are for locks it holds briefly and, in
`store`, for the forwards, whose outcome is ignored. What a forward comes to
changes neither the state nor the reply, but `store` waits for one after the
other, without a timeout, before it replies: the reply goes out when the last
has ended, and never if one does not end (`Handled.answers`).

A reply is the response together with the signed message that carries it
(`Signed`). What a handler takes from outside is in `Inputs`: the effects of
a call on the store, the clock, and the random challenge.
-/
import KademliaAuction.Node
import KademliaAuction.Utils.CryptoOwn

namespace KademliaAuction

open Blockchain Proto Routing

/-- `HashMap<String, (U256, u32, i64)>`: by sender id, the challenge, its
difficulty and its expiration. -/
abbrev ChallengesMap := String → Option (U256 × Nat × Int)

/-- `struct SKademliaServer`, with the data directory of its node. -/
structure Server where
  host : Host
  challengesMap : ChallengesMap

/-- A response and the message that `sign_and_wrap` made of it. -/
structure Signed (α : Type) where
  response : α
  message : AuthenticatedMessage

/-- What comes out of a handler. -/
structure Handled (α : Type) where
  reply : Except Status (Signed α)
  server : Server
  forwards : List NodeInformation

/-- Whether the reply goes out, where `ended` tells which forwards end. -/
def Handled.answers {α : Type} (handled : Handled α) (ended : NodeInformation → Bool) : Bool :=
  handled.forwards.all ended

/-- What a handler takes from outside: the effects of `store_auction`,
`Utc::now()` in milliseconds and the bytes of `generate_challenge`. -/
structure Inputs where
  effects : Effects
  now : Int
  challenge : U256

namespace Server

variable (libs : Libraries)

/-- `SKademliaServer::new`. -/
def new (host : Host) : Server where
  host := host
  challengesMap := fun _ => none

/-- The beginning of every handler: verify the message, and read its sender
as protobuf and as a node. -/
def openRequest {α : Type} (codec : Codec α) (request : AuthenticatedMessage) :
    Except Status (α × NodeInformation × NodeInfo) :=
  match extractAndVerify libs codec request with
  | .error status => .error status
  | .ok (payload, parsedRequest) =>
      match parsedRequest.sender with
      | none => .error (Status.invalidArgument "Missing sender information in request")
      | some senderProto =>
          match NodeInfo.tryFrom senderProto with
          | .error e => .error (Status.internal
              s!"Failed to parse NodeInfo from sender_proto: {libs.debugNodeInformation senderProto}, error: {e}")
          | .ok sender => .ok (payload, senderProto, sender)

/-- The end of every handler: sign the response. -/
def signReply {α : Type} (server : Server) (codec : Codec α) (response : α) :
    Except Status (Signed α) :=
  match signAndWrap libs codec server.host.node.nodeInfo response
    server.host.node.config.privateKey server.host.node.config.publicKey with
  | .error e => .error (Status.internal s!"sign_and_wrap failed: {e}")
  | .ok message => .ok { response, message }

/-- A request that is refused before anything is changed. -/
def refuse {α : Type} (server : Server) (status : Status) : Handled α where
  reply := .error status
  server := server
  forwards := []

/-- A request that is answered. -/
def answer {α : Type} (server : Server) (codec : Codec α) (response : α)
    (forwards : List NodeInformation) : Handled α where
  reply := server.signReply libs codec response
  server := server
  forwards := forwards

/-- `self.node.insert_node_to_routing_table(sender)`. -/
def insertSender (server : Server) (sender : NodeInfo) : Server :=
  { server with host := { server.host with
      node := server.host.node.insertNodeToRoutingTable sender } }

/-- `ping`. -/
def ping (server : Server) (request : AuthenticatedMessage) : Handled PingResponse :=
  match openRequest libs libs.prost.pingRequest request with
  | .error status => server.refuse status
  | .ok _ => server.answer libs libs.prost.pingResponse { message := "Pong" } []

/-- `bootstrap`: hand out a challenge that is good for ten minutes. -/
def bootstrap (server : Server) (inputs : Inputs) (request : AuthenticatedMessage) :
    Handled BootstrapResponse :=
  match openRequest libs libs.prost.bootstrapRequest request with
  | .error status => server.refuse status
  | .ok (_, senderProto, _) =>
      let difficulty := server.host.node.config.challengeDifficulty
      let expiration := inputs.now + 600000
      let challengesMap := Function.update server.challengesMap senderProto.id
        (some (inputs.challenge, difficulty, expiration))
      let server := { server with challengesMap }
      server.answer libs libs.prost.bootstrapResponse
        { hash := toString inputs.challenge.toNat, difficulty } []

/-- The check of `challenge_resolution`: not expired, and the nonce solves
the challenge. -/
def solves (crates : Crates) (challenge : U256 × Nat × Int) (nonce : Nat) (now : Int) : Bool :=
  let (challengeHash, challengeDifficulty, expiration) := challenge
  if expiration < now then false
  else
    let dataToHash := toString challengeHash.toNat ++ toString nonce
    decide (challengeDifficulty ≤ leadingZeros (hashStr crates dataToHash))

/-- `challenge_resolution`: a challenge is used up whether or not it is
solved. -/
def challengeResolution (server : Server) (inputs : Inputs) (request : AuthenticatedMessage) :
    Handled ChallengeResolutionResponse :=
  match openRequest libs libs.prost.challengeResolutionRequest request with
  | .error status => server.refuse status
  | .ok (payload, senderProto, _) =>
      match server.challengesMap senderProto.id with
      | some challenge =>
          let accepted := solves libs.toCrates challenge payload.nonce inputs.now
          let challengesMap := Function.update server.challengesMap senderProto.id none
          let server := { server with challengesMap }
          server.answer libs libs.prost.challengeResolutionResponse { accepted } []
      | none => server.answer libs libs.prost.challengeResolutionResponse { accepted := false } []

/-- The nodes of `k_closest` that `store` sends the auction on to. -/
def forwardTargets (node : Node) (senderId : Address) (kClosest : List NodeInformation) :
    List NodeInformation :=
  kClosest.filter fun nodeInfo =>
    nodeInfo.id ≠ node.nodeInfo.id.toStr ∧ nodeInfo.id ≠ senderId.toStr

/-- The part of `store` that has the auction: keep it if this node is among
the closest to its key, and send it on unless keeping it failed. -/
def storeDecoded (server : Server) (inputs : Inputs) (sender : NodeInfo) (auction : Auction) :
    Handled StoreResponse :=
  let node := server.host.node
  let kClosest := node.getClosestNodesToKey auction.key
  let targets := forwardTargets node sender.id kClosest
  if kClosest.any fun n => n.id = node.nodeInfo.id.toStr then
    let (stored, host) := server.host.storeAuction libs.toCrates inputs.effects auction
    let shouldForward := match stored with
      | .ok value => value
      | .error _ => false
    ({ server with host }).answer libs libs.prost.storeResponse
      { message := s!"Stored auction with key {auction.key.toStr}" }
      (if shouldForward then targets else [])
  else
    server.answer libs libs.prost.storeResponse
      { message := s!"Forwarded auction with key: {auction.key.toStr}" } targets

/-- `store`. -/
def store (server : Server) (inputs : Inputs) (request : AuthenticatedMessage) :
    Handled StoreResponse :=
  match openRequest libs libs.prost.storeRequest request with
  | .error status => server.refuse status
  | .ok (payload, _, sender) =>
      match payload.auction with
      | none => server.refuse (Status.invalidArgument "Missing auction information in request")
      | some auctionProto =>
          match Auction.tryFrom auctionProto with
          | .error e => server.refuse (Status.internal s!"Failed to deserialize Auction: {e}")
          | .ok auction => server.storeDecoded libs inputs sender auction

/-- The answer of `find_node`: the node itself, or the closest ones known. -/
def nodesNear (node : Node) (nodeId : Address) : List NodeInformation :=
  match node.findNodeInRoutingTable nodeId with
  | some found => [found]
  | none =>
      let closestNodes := node.getClosestNodesToKey nodeId
      if closestNodes = [] then [node.nodeInfo.toInformation] else closestNodes

/-- `find_node`: look the target up, then take the sender into the routing
table. -/
def findNode (server : Server) (request : AuthenticatedMessage) : Handled FindNodeResponse :=
  match openRequest libs libs.prost.findNodeRequest request with
  | .error status => server.refuse status
  | .ok (payload, _, sender) =>
      match Address.fromStr payload.targetId with
      | .error e => server.refuse (Status.internal
          s!"Failed to parse target_id '{payload.targetId}': {e.message}")
      | .ok nodeId =>
          let closestNodes := nodesNear server.host.node nodeId
          (server.insertSender sender).answer libs libs.prost.findNodeResponse { closestNodes } []

/-- The answer of `find_value`: the encoded auction, or the closest nodes. -/
def valueOrNodes (prost : Prost) (node : Node) (key : Address) : FindValueResponse :=
  match node.findAuction key with
  | some auction => { result := some (.value (prost.auction.encode auction.toProto)) }
  | none => { result := some (.nodes (node.getClosestNodesToKey key)) }

/-- `find_value`. -/
def findValue (server : Server) (request : AuthenticatedMessage) : Handled FindValueResponse :=
  match openRequest libs libs.prost.findValueRequest request with
  | .error status => server.refuse status
  | .ok (payload, _, sender) =>
      match Address.fromStr payload.key with
      | .error e => server.refuse (Status.invalidArgument
          s!"Invalid auction key '{payload.key}': {e.message}")
      | .ok key =>
          let response := valueOrNodes libs.prost server.host.node key
          (server.insertSender sender).answer libs libs.prost.findValueResponse response []

end Server

/-! ## The service -/

/-- The methods of the `Kademlia` service. -/
inductive Rpc where
  | ping
  | bootstrap
  | challengeResolution
  | store
  | findNode
  | findValue
  deriving DecidableEq, Repr

/-- The server after a request. -/
def Server.handle (libs : Libraries) (server : Server) (rpc : Rpc) (inputs : Inputs)
    (request : AuthenticatedMessage) : Server :=
  match rpc with
  | .ping => (server.ping libs request).server
  | .bootstrap => (server.bootstrap libs inputs request).server
  | .challengeResolution => (server.challengeResolution libs inputs request).server
  | .store => (server.store libs inputs request).server
  | .findNode => (server.findNode libs request).server
  | .findValue => (server.findValue libs request).server

/-! ## What the handlers can do -/

namespace Server

variable {libs : Libraries}

/-- An opened request has been verified, and its sender has the id of the
public key. -/
theorem openRequest_eq_ok {α : Type} {codec : Codec α} {request : AuthenticatedMessage} {payload : α}
    {senderProto : NodeInformation} {sender : NodeInfo} :
    openRequest libs codec request = .ok (payload, senderProto, sender) ↔
      libs.openSsl.verify request.publicKey request.payload request.signature = .ok true ∧
        request.sender = some senderProto ∧
        senderProto.id = (ownId libs.toCrates request.publicKey).toStr ∧
        sender = { id := ownId libs.toCrates request.publicKey, ip := senderProto.ip,
                   port := senderProto.port } ∧
        codec.decode request.payload = .ok payload := by
  unfold openRequest
  cases hverify : extractAndVerify libs codec request with
  | error status =>
    simp only [reduceCtorEq, false_iff]
    intro ⟨hvalid, hsender, hid, _, hdecode⟩
    have hok : extractAndVerify libs codec request = .ok (payload, request) :=
      extractAndVerify_eq_ok.mpr
        ⟨hvalid, by rw [hsender]; exact congrArg some hid, hdecode, rfl⟩
    rw [hverify] at hok
    cases hok
  | ok opened =>
    obtain ⟨decoded, parsed⟩ := opened
    obtain ⟨hvalid, hid, hdecode, rfl⟩ := extractAndVerify_eq_ok.mp hverify
    obtain ⟨info, hinfo, hinfoid⟩ := Option.map_eq_some_iff.mp hid
    have hparse : NodeInfo.tryFrom info =
        .ok { id := ownId libs.toCrates parsed.publicKey, ip := info.ip, port := info.port } := by
      unfold NodeInfo.tryFrom
      rw [hinfoid, Address.fromStr_toStr]
    simp only [hinfo, hparse, Except.ok.injEq, Prod.mk.injEq, Option.some.injEq, hvalid, hdecode,
      true_and]
    constructor
    · intro ⟨hpayload, hproto, hsender⟩
      subst hproto
      exact ⟨rfl, hinfoid, hsender.symm, hpayload⟩
    · intro ⟨hproto, _, hsender, hpayload⟩
      subst hproto
      exact ⟨hpayload, rfl, hsender.symm⟩

/-- The host after the part of `store` that has the auction. -/
theorem storeDecoded_host (server : Server) (inputs : Inputs) (sender : NodeInfo)
    (auction : Auction) :
    (server.storeDecoded libs inputs sender auction).server.host =
      if (server.host.node.getClosestNodesToKey auction.key).any fun n =>
        n.id = server.host.node.nodeInfo.id.toStr then
        (server.host.storeAuction libs.toCrates inputs.effects auction).2
      else server.host := by
  unfold storeDecoded
  simp only
  split <;> rfl

end Server

/-! ## What a request does to the host -/

namespace Server

variable (libs : Libraries)

/-- The sender that a request makes the server put into its routing table:
that of a `find_node` or `find_value` request which verifies and whose
target or key parses. -/
def takesIn (rpc : Rpc) (request : AuthenticatedMessage) : Option NodeInfo :=
  match rpc with
  | .findNode =>
      match openRequest libs libs.prost.findNodeRequest request with
      | .error _ => none
      | .ok (payload, _, sender) => (Address.fromStr payload.targetId).toOption.map fun _ => sender
  | .findValue =>
      match openRequest libs libs.prost.findValueRequest request with
      | .error _ => none
      | .ok (payload, _, sender) => (Address.fromStr payload.key).toOption.map fun _ => sender
  | _ => none

/-- The auction that a request makes the server keep: that of a `store`
request which verifies and decodes, with this node among the closest to the
key. -/
def keeps (server : Server) (rpc : Rpc) (request : AuthenticatedMessage) :
    Option Auction :=
  match rpc with
  | .store =>
      match openRequest libs libs.prost.storeRequest request with
      | .error _ => none
      | .ok (payload, _, _) => do
          let auctionProto ← payload.auction
          let auction ← (Auction.tryFrom auctionProto).toOption
          if (server.host.node.getClosestNodesToKey auction.key).any fun n =>
            n.id = server.host.node.nodeInfo.id.toStr then some auction else none
  | _ => none

/-- All that a request does to the node and its files: it stores the auction
it keeps, or puts the sender it takes in into the routing table, or changes
nothing. -/
theorem handle_host (server : Server) (rpc : Rpc) (inputs : Inputs)
    (request : AuthenticatedMessage) :
    (∃ auction, server.keeps libs rpc request = some auction ∧ takesIn libs rpc request = none ∧
      (server.handle libs rpc inputs request).host =
        (server.host.storeAuction libs.toCrates inputs.effects auction).2) ∨
    (∃ sender, server.keeps libs rpc request = none ∧ takesIn libs rpc request = some sender ∧
      (server.handle libs rpc inputs request).host = (server.insertSender sender).host) ∨
    (server.keeps libs rpc request = none ∧ takesIn libs rpc request = none ∧
      (server.handle libs rpc inputs request).host = server.host) := by
  cases rpc with
  | ping =>
    refine Or.inr (Or.inr ⟨rfl, rfl, ?_⟩)
    simp only [handle, ping]
    split <;> rfl
  | bootstrap =>
    refine Or.inr (Or.inr ⟨rfl, rfl, ?_⟩)
    simp only [handle, bootstrap]
    split <;> rfl
  | challengeResolution =>
    refine Or.inr (Or.inr ⟨rfl, rfl, ?_⟩)
    simp only [handle, challengeResolution]
    split
    · rfl
    · split <;> rfl
  | store =>
    unfold handle keeps takesIn store
    cases openRequest libs libs.prost.storeRequest request with
    | error status => exact Or.inr (Or.inr ⟨rfl, rfl, rfl⟩)
    | ok opened =>
      obtain ⟨payload, senderProto, sender⟩ := opened
      dsimp only
      cases payload.auction with
      | none => exact Or.inr (Or.inr ⟨rfl, rfl, rfl⟩)
      | some auctionProto =>
        dsimp only [Option.bind_eq_bind, Option.bind_some]
        cases Auction.tryFrom auctionProto with
        | error e => exact Or.inr (Or.inr ⟨rfl, rfl, rfl⟩)
        | ok auction =>
          dsimp only [Except.toOption, Option.bind_some]
          rw [storeDecoded_host]
          split
          · exact Or.inl ⟨auction, rfl, rfl, rfl⟩
          · exact Or.inr (Or.inr ⟨rfl, rfl, rfl⟩)
  | findNode =>
    unfold handle keeps takesIn findNode
    cases openRequest libs libs.prost.findNodeRequest request with
    | error status => exact Or.inr (Or.inr ⟨rfl, rfl, rfl⟩)
    | ok opened =>
      obtain ⟨payload, senderProto, sender⟩ := opened
      dsimp only
      cases Address.fromStr payload.targetId with
      | error e => exact Or.inr (Or.inr ⟨rfl, rfl, rfl⟩)
      | ok nodeId => exact Or.inr (Or.inl ⟨sender, rfl, rfl, rfl⟩)
  | findValue =>
    unfold handle keeps takesIn findValue
    cases openRequest libs libs.prost.findValueRequest request with
    | error status => exact Or.inr (Or.inr ⟨rfl, rfl, rfl⟩)
    | ok opened =>
      obtain ⟨payload, senderProto, sender⟩ := opened
      dsimp only
      cases Address.fromStr payload.key with
      | error e => exact Or.inr (Or.inr ⟨rfl, rfl, rfl⟩)
      | ok key => exact Or.inr (Or.inl ⟨sender, rfl, rfl, rfl⟩)

theorem handle_host_of_keeps {server : Server} {rpc : Rpc} {request : AuthenticatedMessage}
    {auction : Auction} (h : server.keeps libs rpc request = some auction) (inputs : Inputs) :
    (server.handle libs rpc inputs request).host =
      (server.host.storeAuction libs.toCrates inputs.effects auction).2 := by
  rcases server.handle_host libs rpc inputs request with
    ⟨kept, hkept, _, hhost⟩ | ⟨_, hnone, _⟩ | ⟨hnone, _⟩
  · obtain rfl := Option.some.inj (hkept.symm.trans h)
    exact hhost
  · cases hnone.symm.trans h
  · cases hnone.symm.trans h

end Server

end KademliaAuction
