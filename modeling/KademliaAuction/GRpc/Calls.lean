/-
KademliaAuction.GRpc.Calls — the six calls a client makes (`ping`,
`find_value`, `bootstrap`, `challenge_resolution`, `find_node` and
`send_store_to_node` of `src/g_rpc/client.rs`).

A call connects, signs its request, sends it, and verifies and decodes what
comes back; `call` is this much, and each of the six adds its messages, the
texts of its errors and what it makes of the response. What the network does
is a `Link`; `Server.link` is the one that leads to a server. A STORE needs
more: the receiver answers only when the STOREs that it sends on have ended,
so the call may never return (`StoreLink`, `Server.storeLink`).

`call_link` follows a request through all of it: what a client gets from a
server, when the keys of both are pairs, is what the handler answers. The
calls have one lemma each from that, and `calls_answered` puts them together.
-/
import KademliaAuction.GRpc.Client
import KademliaAuction.GRpc.JoinTheorems
import KademliaAuction.Proto.Encoding
import KademliaAuction.Utils

namespace KademliaAuction

open Blockchain Proto Routing

/-- What a client finds at an address: how `connect` ends, and what comes
back for a message. -/
structure Link where
  connect : Except String Unit
  exchange : AuthenticatedMessage → Except String AuthenticatedMessage

/-- Nobody listens there. -/
def Link.refused : Link where
  connect := .error "connection refused"
  exchange := fun _ => .error "connection refused"

/-- What a client finds where it sends a STORE: for which messages an answer
ever comes as well. -/
structure StoreLink extends Link where
  answers : AuthenticatedMessage → Bool

/-- The texts that a call puts before its errors. Where `sign` is `none` the
error of `sign_and_wrap` is passed on as it is. -/
structure CallContexts where
  connect : String
  sign : Option String
  send : String
  verify : String

/-- What all calls do: connect, sign the request, send it, and verify the
response. -/
def call {α β : Type} (libs : Libraries) (node : Node) (contexts : CallContexts)
    (request : Codec α) (response : Codec β) (link : Link) (message : α) :
    Except String (β × AuthenticatedMessage) :=
  match link.connect with
  | .error _ => .error contexts.connect
  | .ok () =>
      match signAndWrap libs request node.nodeInfo message node.config.privateKey
        node.config.publicKey with
      | .error e => .error (contexts.sign.getD e)
      | .ok authMsg =>
          match link.exchange authMsg with
          | .error _ => .error contexts.send
          | .ok answer =>
              match extractAndVerify libs response answer with
              | .error _ => .error contexts.verify
              | .ok verified => .ok verified

/-! ## The calls -/

namespace Client

variable (libs : Libraries) (node : Node) (nodeIp : String) (nodePort : Nat) (link : Link)

/-- `ping`. -/
def ping : Except String Unit :=
  let contexts : CallContexts :=
    { connect := s!"Failed to connect to {generateUrl nodeIp nodePort} for ping"
      sign := some "Failed to sign ping request"
      send := "Failed to send ping request"
      verify := "Failed to verify ping response" }
  (call libs node contexts libs.prost.pingRequest libs.prost.pingResponse link {}).map fun _ => ()

/-- `find_value`. -/
def findValue (key : Address) : Except String FindValueResponse :=
  let contexts : CallContexts :=
    { connect := s!"Failed to connect to {generateUrl nodeIp nodePort} for find_value"
      sign := some "Failed to sign find_value request"
      send := "Failed to send find_value request"
      verify := "Failed to verify find_value response" }
  (call libs node contexts libs.prost.findValueRequest libs.prost.findValueResponse link
    { key := key.toStr }).map Prod.fst

/-- `bootstrap`: the challenge and its difficulty. -/
def bootstrap : Except String (String × Nat) :=
  let contexts : CallContexts :=
    { connect := s!"Failed to connect to bootstrap node at {generateUrl nodeIp nodePort}"
      sign := some "Failed to sign bootstrap request"
      send := "Failed to send bootstrap request"
      verify := "Failed to verify bootstrap response" }
  (call libs node contexts libs.prost.bootstrapRequest libs.prost.bootstrapResponse link {}).map
    fun (payload, _) => (payload.hash, payload.difficulty)

/-- `challenge_resolution`: whether the answer is accepted, and the node that
says so. -/
def challengeResolution (nonce : Nat) : Except String (Bool × NodeInfo) :=
  let contexts : CallContexts :=
    { connect := s!"Failed to connect to {generateUrl nodeIp nodePort}"
      sign := some "Failed to sign challenge resolution request"
      send := "Failed to send challenge resolution request"
      verify := "Failed to extract/verify challenge resolution response" }
  match call libs node contexts libs.prost.challengeResolutionRequest
    libs.prost.challengeResolutionResponse link { nonce } with
  | .error e => .error e
  | .ok (payload, parsedResponse) =>
      match parsedResponse.sender with
      | none => .error "Missing sender info in challenge response"
      | some sender => (NodeInfo.tryFrom sender).map fun node => (payload.accepted, node)

/-- `find_node`: all nodes of the response, or the error of the first that
does not parse. -/
def findNode (targetId : Address) : Except String (List NodeInfo) :=
  let contexts : CallContexts :=
    { connect := s!"Failed to connect to {generateUrl nodeIp nodePort} for find_node"
      sign := some "Failed to sign find_node request"
      send := "Failed to send find_node request"
      verify := "Failed to verify find_node response" }
  match call libs node contexts libs.prost.findNodeRequest libs.prost.findNodeResponse link
    { targetId := targetId.toStr } with
  | .error e => .error e
  | .ok (payload, _) => payload.closestNodes.mapM NodeInfo.tryFrom

/-- The request is sent, and no answer ever comes. -/
def hangs (link : StoreLink) (request : StoreRequest) : Bool :=
  match link.connect, signAndWrap libs libs.prost.storeRequest node.nodeInfo request
    node.config.privateKey node.config.publicKey with
  | .ok (), .ok authMsg => !link.answers authMsg
  | _, _ => false

/-- `send_store_to_node`, of the client and, with the same text, of the
server; `none` where it does not return. -/
def sendStoreToNode (link : StoreLink) (auction : Auction) : Option (Except String Unit) :=
  let contexts : CallContexts :=
    { connect := s!"Failed to connect to {generateUrl nodeIp nodePort} for ping"
      sign := none
      send := "Failed to send store request"
      verify := "Failed to verify store response" }
  let request : StoreRequest := { auction := some auction.toProto }
  if hangs libs node link request then none
  else some ((call libs node contexts libs.prost.storeRequest libs.prost.storeResponse link.toLink
    request).map fun _ => ())

end Client

/-! ## The link to a server -/

namespace Server

variable (libs : Libraries)

/-- What a server sends back. -/
def reply (server : Server) (rpc : Rpc) (inputs : Inputs) (request : AuthenticatedMessage) :
    Except Status AuthenticatedMessage :=
  match rpc with
  | .ping => (server.ping libs request).reply.map Signed.message
  | .bootstrap => (server.bootstrap libs inputs request).reply.map Signed.message
  | .challengeResolution => (server.challengeResolution libs inputs request).reply.map Signed.message
  | .store => (server.store libs inputs request).reply.map Signed.message
  | .findNode => (server.findNode libs request).reply.map Signed.message
  | .findValue => (server.findValue libs request).reply.map Signed.message

/-- What comes back for a request, when something does. -/
def exchange (server : Server) (rpc : Rpc) (inputs : Inputs) (request : AuthenticatedMessage) :
    Except String AuthenticatedMessage :=
  match server.reply libs rpc inputs request with
  | .error status => .error status.message
  | .ok answer => .ok answer

/-- A connection on which the server answers one request, of those whose
handlers wait for nobody. -/
def link (server : Server) (rpc : Rpc) (inputs : Inputs) (_ : rpc ≠ .store := by nofun) : Link where
  connect := .ok ()
  exchange := server.exchange libs rpc inputs

/-- A connection on which the server answers one STORE, if the forwards of it
end, of which `ended` tells. -/
def storeLink (server : Server) (inputs : Inputs) (ended : NodeInformation → Bool) : StoreLink where
  connect := .ok ()
  exchange := server.exchange libs .store inputs
  answers := fun request => (server.store libs inputs request).answers ended

end Server

/-- The request that a node sends with a message, if it can sign it, and what
the server takes from outside when it arrives. -/
def Node.request {α : Type} (libs : Libraries) (node : Node) (rpc : Rpc) (inputs : Inputs)
    (codec : Codec α) (message : α) : List ServerRequest :=
  match signAndWrap libs codec node.nodeInfo message node.config.privateKey
    node.config.publicKey with
  | .error _ => []
  | .ok message => [{ rpc, inputs, message }]

/-! ## Keys that fit -/

/-- The id of the node is that of its public key, and what it signs
verifies. -/
structure Node.Genuine (libs : Libraries) (node : Node) : Prop where
  id : node.nodeInfo.id = ownId libs.toCrates node.config.publicKey
  signs : ∀ payload, ∃ signature,
    libs.openSsl.sign node.config.privateKey payload = .ok signature ∧
      libs.openSsl.verify node.config.publicKey payload signature = .ok true

namespace Node.Genuine

variable {libs : Libraries} {node : Node}

/-- Of a node, only who it is and its keys matter. -/
theorem congr (h : node.Genuine libs) {node' : Node} (hinfo : node'.nodeInfo = node.nodeInfo)
    (hconfig : node'.config = node.config) : node'.Genuine libs where
  id := by rw [hinfo, hconfig, h.id]
  signs := by
    intro payload
    rw [hconfig]
    exact h.signs payload

variable {α : Type} {codec : Codec α} {message : α} {own : AuthenticatedMessage}

theorem exists_wrapped (h : node.Genuine libs) (codec : Codec α) (message : α) :
    ∃ own, signAndWrap libs codec node.nodeInfo message node.config.privateKey
      node.config.publicKey = .ok own := by
  obtain ⟨signature, hsign, _⟩ := h.signs (codec.encode message)
  exact ⟨_, signAndWrap_eq_ok.mpr ⟨signature, hsign, rfl⟩⟩

/-- What the node wraps is verified, with the node as its sender. -/
theorem extractAndVerify_wrapped (h : node.Genuine libs) (hcarries : codec.Carries message)
    (hown : signAndWrap libs codec node.nodeInfo message node.config.privateKey
      node.config.publicKey = .ok own) :
    extractAndVerify libs codec own = .ok (message, own) ∧
      own.sender = some node.nodeInfo.toInformation := by
  obtain ⟨signature, hsign, rfl⟩ := signAndWrap_eq_ok.mp hown
  obtain ⟨signature', hsign', hverify⟩ := h.signs (codec.encode message)
  obtain rfl : signature' = signature := Except.ok.inj (hsign'.symm.trans hsign)
  refine ⟨extractAndVerify_eq_ok.mpr ⟨hverify, ?_, hcarries, rfl⟩, rfl⟩
  exact congrArg some (congrArg Address.toStr h.id)

theorem openRequest_wrapped (h : node.Genuine libs) (hcarries : codec.Carries message)
    (hown : signAndWrap libs codec node.nodeInfo message node.config.privateKey
      node.config.publicKey = .ok own) :
    Server.openRequest libs codec own =
      .ok (message, node.nodeInfo.toInformation, node.nodeInfo) := by
  obtain ⟨hverified, hsender⟩ := h.extractAndVerify_wrapped hcarries hown
  unfold Server.openRequest
  rw [hverified]
  dsimp only
  rw [hsender]
  dsimp only
  rw [NodeInfo.tryFrom_toInformation]

/-- A server with such keys signs every response. -/
theorem exists_signReply {server : Server} (h : server.host.node.Genuine libs)
    (hcarries : codec.Carries message) : ∃ answer,
      server.signReply libs codec message = .ok { response := message, message := answer } ∧
        extractAndVerify libs codec answer = .ok (message, answer) ∧
        answer.sender = some server.host.node.nodeInfo.toInformation := by
  obtain ⟨answer, hanswer⟩ := h.exists_wrapped codec message
  refine ⟨answer, ?_, h.extractAndVerify_wrapped hcarries hanswer⟩
  unfold Server.signReply
  rw [hanswer]

end Node.Genuine

/-! ## What a client gets from a server -/

/-- A client and a server whose keys fit, over proto3. -/
structure Server.Serves (libs : Libraries) (server : Server) (client : Node) : Prop where
  proto3 : libs.prost.IsProto3
  client : client.Genuine libs
  server : server.host.node.Genuine libs

/-- Whether the server accepts a nonce from a sender at a time: the challenge it
keeps for the sender is solved. -/
def Server.wouldAccept (server : Server) (crates : Crates) (sender : Address) (nonce : Nat)
    (now : Int) : Bool :=
  (server.challengesMap sender.toStr).any fun challenge => solves crates challenge nonce now

/-- The nodes that a node names for a target: `nodesNear` before its nodes
become protobuf. -/
def Node.contactsNear (node : Node) (nodeId : Address) : List NodeInfo :=
  match node.routingTable.findNodeId nodeId with
  | some found => [found]
  | none =>
      let closestNodes := node.routingTable.getKClosestNodes nodeId [node.nodeInfo]
      if closestNodes = [] then [node.nodeInfo] else closestNodes

theorem Server.nodesNear_eq (node : Node) (nodeId : Address) :
    nodesNear node nodeId = (node.contactsNear nodeId).map NodeInfo.toInformation := by
  unfold nodesNear Node.contactsNear Node.findNodeInRoutingTable Node.getClosestNodesToKey
  cases node.routingTable.findNodeId nodeId with
  | some found => rfl
  | none =>
    simp only [Option.map_none, List.map_eq_nil_iff]
    split <;> rfl

theorem mapM_tryFrom_toInformation (nodes : List NodeInfo) :
    (nodes.map NodeInfo.toInformation).mapM NodeInfo.tryFrom = .ok nodes := by
  induction nodes with
  | nil => rfl
  | cons node nodes ih =>
    rw [List.map_cons, List.mapM_cons, NodeInfo.tryFrom_toInformation, ih]
    rfl

theorem length_toStr (a : Address) : a.toStr.length = 64 := by
  have h := ((Address.fromStr_eq_ok_iff a.toStr).mp ⟨a, Address.fromStr_toStr a⟩).1
  rwa [String.length_toList] at h

theorem length_toString_u256 (n : U256) : (toString n.toNat).length ≤ 78 := by
  have hlt : n.toNat < 10 ^ 78 := n.isLt.trans (by norm_num)
  exact (Nat.length_repr_le_iff (by decide)).mpr hlt

/-- An auction of which the numbers are those of the source's types, and which
has no more than a billion bids, is short. -/
theorem Auction.short_toProto {auction : Auction} (hinitial : auction.initialValue < 2 ^ 64)
    (hamounts : ∀ bid ∈ auction.bids, bid.amount < 2 ^ 64)
    (hcreated : -2 ^ 63 ≤ auction.createdAt ∧ auction.createdAt < 2 ^ 63)
    (hends : -2 ^ 63 ≤ auction.endsAt ∧ auction.endsAt < 2 ^ 63)
    (hwinning : auction.winningBid.getD 0 < 2 ^ 64) (hobject : auction.object.length < 2 ^ 30)
    (hcount : auction.bids.length < 2 ^ 30) : auction.toProto.Short where
  inRange :=
    { initialValue := hinitial
      bids := by
        intro bid hbid
        obtain ⟨placed, hplaced, rfl⟩ := List.mem_map.mp hbid
        exact hamounts placed hplaced
      createdAt := hcreated
      endsAt := hends
      winningBid := hwinning }
  key := by
    have hlength := length_toStr auction.key
    show auction.key.toStr.length < 2 ^ 20
    omega
  object := hobject
  seller := by
    have hlength := length_toStr auction.seller
    show auction.seller.toStr.length < 2 ^ 20
    omega
  status := by
    show auction.status.asStr.length < 2 ^ 20
    cases auction.status <;> decide
  winner := by
    show ((auction.winner.map Address.toStr).getD "").length < 2 ^ 20
    cases auction.winner with
    | none => decide
    | some winner =>
      have hlength := length_toStr winner
      show winner.toStr.length < 2 ^ 20
      omega
  bids := by
    intro bid hbid
    obtain ⟨placed, hplaced, rfl⟩ := List.mem_map.mp hbid
    have hbuyer := length_toStr placed.buyer
    have hauction := length_toStr placed.auction
    show placed.buyer.toStr.length < 2 ^ 20 ∧ placed.auction.toStr.length < 2 ^ 20
    omega
  count := by
    show (auction.bids.map Auction.bidToProto).length < 2 ^ 30
    rwa [List.length_map]

section Answers

variable {libs : Libraries} {client : Node} {server : Server}

/-- **A call answered by a server** whose handler, once it has opened the
request, replies with this response. -/
theorem call_link (t u : PayloadType) (message : t.Message) (answer : u.Message)
    (server answering : Server) (rpc : Rpc) (inputs : Inputs) (h : answering.Serves libs client)
    (hrequest : t.IsValue message) (hresponse : u.IsValue answer)
    (hhandled : ∀ own, Server.openRequest libs (t.codec libs.prost) own =
        .ok (message, client.nodeInfo.toInformation, client.nodeInfo) →
      server.reply libs rpc inputs own =
        (answering.signReply libs (u.codec libs.prost) answer).map Signed.message) :
    ∃ signed,
      (∀ contexts, call libs client contexts (t.codec libs.prost) (u.codec libs.prost)
        { connect := .ok (), exchange := server.exchange libs rpc inputs } message =
          .ok (answer, signed)) ∧
      signed.sender = some answering.host.node.nodeInfo.toInformation := by
  obtain ⟨own, hown⟩ := h.client.exists_wrapped (t.codec libs.prost) message
  have hreply := hhandled own (h.client.openRequest_wrapped (h.proto3.carries hrequest) hown)
  obtain ⟨signed, hsigned, hverified, hsender⟩ :=
    h.server.exists_signReply (h.proto3.carries hresponse)
  refine ⟨signed, fun contexts => ?_, hsender⟩
  unfold call Server.exchange
  simp only [hown, hreply, hsigned, Except.map, hverified]

variable (h : server.Serves libs client) (inputs : Inputs) (nodeIp : String) (nodePort : Nat)

include h

theorem Client.ping_link :
    Client.ping libs client nodeIp nodePort (server.link libs .ping inputs) = .ok () := by
  obtain ⟨signed, hcall, _⟩ := call_link .pingRequest .pingResponse {} { message := "Pong" }
    server server .ping inputs h
    PayloadType.isValue_pingRequest (PayloadType.isValue_pingResponse (by decide))
    fun own hopen => by
      unfold Server.reply Server.ping
      rw [show Server.openRequest libs libs.prost.pingRequest own = _ from hopen]
      rfl
  exact congrArg (Except.map _) (hcall _)

theorem Client.bootstrap_link (hdifficulty : server.host.node.config.challengeDifficulty < 2 ^ 32) :
    Client.bootstrap libs client nodeIp nodePort (server.link libs .bootstrap inputs) =
      .ok (toString inputs.challenge.toNat, server.host.node.config.challengeDifficulty) := by
  have hlength := length_toString_u256 inputs.challenge
  obtain ⟨signed, hcall, _⟩ := call_link .bootstrapRequest .bootstrapResponse {}
    { hash := toString inputs.challenge.toNat
      difficulty := server.host.node.config.challengeDifficulty }
    server server .bootstrap inputs h
    PayloadType.isValue_bootstrapRequest
    (PayloadType.isValue_bootstrapResponse (by omega) hdifficulty)
    fun own hopen => by
      unfold Server.reply Server.bootstrap
      rw [show Server.openRequest libs libs.prost.bootstrapRequest own = _ from hopen]
      rfl
  exact congrArg (Except.map _) (hcall _)

theorem Client.challengeResolution_link {nonce : Nat} (hnonce : nonce < 2 ^ 64) :
    Client.challengeResolution libs client nodeIp nodePort
        (server.link libs .challengeResolution inputs) nonce =
      .ok (server.wouldAccept libs.toCrates client.nodeInfo.id nonce inputs.now,
        server.host.node.nodeInfo) := by
  obtain ⟨signed, hcall, hsender⟩ := call_link .challengeResolutionRequest
    .challengeResolutionResponse { nonce }
    { accepted := server.wouldAccept libs.toCrates client.nodeInfo.id nonce inputs.now }
    server server .challengeResolution inputs h
    (PayloadType.isValue_challengeResolutionRequest hnonce)
    (PayloadType.isValue_challengeResolutionResponse _)
    fun own hopen => by
      unfold Server.reply Server.challengeResolution
      rw [show Server.openRequest libs libs.prost.challengeResolutionRequest own = _ from hopen]
      dsimp only [NodeInfo.toInformation, Server.wouldAccept]
      cases server.challengesMap client.nodeInfo.id.toStr <;> rfl
  unfold Client.challengeResolution Server.link
  dsimp only
  rw [show call libs client _ libs.prost.challengeResolutionRequest
    libs.prost.challengeResolutionResponse _ _ = _ from hcall _]
  dsimp only
  rw [hsender]
  dsimp only
  rw [NodeInfo.tryFrom_toInformation]
  rfl

theorem Client.findNode_link {targetId : Address}
    (hvalue : PayloadType.findNodeResponse.IsValue
      ({ closestNodes := Server.nodesNear server.host.node targetId } : FindNodeResponse)) :
    Client.findNode libs client nodeIp nodePort (server.link libs .findNode inputs) targetId =
      .ok (server.host.node.contactsNear targetId) := by
  have hlength := length_toStr targetId
  obtain ⟨signed, hcall, _⟩ := call_link .findNodeRequest .findNodeResponse
    { targetId := targetId.toStr }
    { closestNodes := Server.nodesNear server.host.node targetId }
    server (server.insertSender client.nodeInfo) .findNode inputs
    ⟨h.proto3, h.client, h.server.congr rfl rfl⟩
    (PayloadType.isValue_findNodeRequest (by omega)) hvalue
    fun own hopen => by
      unfold Server.reply Server.findNode
      rw [show Server.openRequest libs libs.prost.findNodeRequest own = _ from hopen]
      dsimp only
      rw [Address.fromStr_toStr]
      rfl
  unfold Client.findNode Server.link
  dsimp only
  rw [show call libs client _ libs.prost.findNodeRequest libs.prost.findNodeResponse _ _ = _
    from hcall _]
  dsimp only
  rw [Server.nodesNear_eq]
  exact mapM_tryFrom_toInformation _

theorem Client.findValue_link {key : Address}
    (hvalue : PayloadType.findValueResponse.IsValue
      (Server.valueOrNodes libs.prost server.host.node key)) :
    Client.findValue libs client nodeIp nodePort (server.link libs .findValue inputs) key =
      .ok (Server.valueOrNodes libs.prost server.host.node key) := by
  have hlength := length_toStr key
  obtain ⟨signed, hcall, _⟩ := call_link .findValueRequest .findValueResponse
    { key := key.toStr } (Server.valueOrNodes libs.prost server.host.node key)
    server (server.insertSender client.nodeInfo) .findValue inputs
    ⟨h.proto3, h.client, h.server.congr rfl rfl⟩
    (PayloadType.isValue_findValueRequest (by omega)) hvalue
    fun own hopen => by
      unfold Server.reply Server.findValue
      rw [show Server.openRequest libs libs.prost.findValueRequest own = _ from hopen]
      dsimp only
      rw [Address.fromStr_toStr]
      rfl
  exact congrArg (Except.map _) (hcall _)

/-- The server answers a STORE if the forwards end. -/
theorem Client.hangs_storeLink {auction : Auction} (ended : NodeInformation → Bool)
    (hvalue : PayloadType.storeRequest.IsValue
      ({ auction := some auction.toProto } : StoreRequest)) :
    Client.hangs libs client (server.storeLink libs inputs ended)
        { auction := some auction.toProto } =
      !(server.storeDecoded libs inputs client.nodeInfo auction.received).answers ended := by
  obtain ⟨own, hown⟩ := h.client.exists_wrapped libs.prost.storeRequest
    { auction := some auction.toProto }
  have hopen : Server.openRequest libs libs.prost.storeRequest own = _ :=
    h.client.openRequest_wrapped (h.proto3.carries hvalue) hown
  unfold Client.hangs Server.storeLink
  dsimp only
  rw [hown]
  dsimp only
  unfold Server.store
  rw [hopen]
  dsimp only
  rw [Auction.tryFrom_toProto_received]

theorem Client.sendStoreToNode_link {auction : Auction} (ended : NodeInformation → Bool)
    (hvalue : PayloadType.storeRequest.IsValue
      ({ auction := some auction.toProto } : StoreRequest)) :
    Client.sendStoreToNode libs client nodeIp nodePort (server.storeLink libs inputs ended) auction =
      if (server.storeDecoded libs inputs client.nodeInfo auction.received).answers ended then
        some (.ok ())
      else none := by
  have hlength := length_toStr auction.received.key
  let stores := (server.host.node.getClosestNodesToKey auction.received.key).any fun n =>
    n.id = server.host.node.nodeInfo.id.toStr
  let host := if stores then
    (server.host.storeAuction libs.toCrates inputs.effects auction.received).2 else server.host
  obtain ⟨signed, hcall, _⟩ := call_link .storeRequest .storeResponse
    { auction := some auction.toProto }
    { message := (if stores then "Stored auction with key " else
        "Forwarded auction with key: ") ++ auction.received.key.toStr }
    server { server with host } .store inputs ⟨h.proto3, h.client, by
      refine h.server.congr ?_ ?_
      · show host.node.nodeInfo = _
        unfold host
        split
        · exact Host.nodeInfo_storeAuction ..
        · rfl
      · show host.node.config = _
        unfold host
        split
        · exact Host.config_storeAuction ..
        · rfl⟩
    hvalue (PayloadType.isValue_storeResponse (by
      rw [String.length_append, hlength]
      split <;> decide))
    fun own hopen => by
      unfold Server.reply Server.store
      rw [show Server.openRequest libs libs.prost.storeRequest own = _ from hopen]
      dsimp only
      rw [Auction.tryFrom_toProto_received]
      dsimp only [Server.storeDecoded]
      unfold host stores
      split <;> rfl
  unfold Client.sendStoreToNode
  dsimp only
  rw [Client.hangs_storeLink h inputs ended hvalue]
  cases (server.storeDecoded libs inputs client.nodeInfo auction.received).answers ended with
  | false => rfl
  | true => exact congrArg (fun result => some (Except.map _ result)) (hcall _)

/-- **What the six calls return**, when a server answers them: the challenge,
the judgement of the nonce with the server's own node, the nodes it names, the
value or nodes it has, each as the handler computes it from the server's
state. Five are answered whatever other servers do; the STORE returns exactly
if the STOREs end that the server sends on. -/
theorem calls_answered :
    Client.ping libs client nodeIp nodePort (server.link libs .ping inputs) = .ok () ∧
    (server.host.node.config.challengeDifficulty < 2 ^ 32 →
      Client.bootstrap libs client nodeIp nodePort (server.link libs .bootstrap inputs) =
        .ok (toString inputs.challenge.toNat, server.host.node.config.challengeDifficulty)) ∧
    (∀ nonce < 2 ^ 64,
      Client.challengeResolution libs client nodeIp nodePort
          (server.link libs .challengeResolution inputs) nonce =
        .ok (server.wouldAccept libs.toCrates client.nodeInfo.id nonce inputs.now,
          server.host.node.nodeInfo)) ∧
    (∀ targetId, PayloadType.findNodeResponse.IsValue
        ({ closestNodes := Server.nodesNear server.host.node targetId } : FindNodeResponse) →
      Client.findNode libs client nodeIp nodePort (server.link libs .findNode inputs) targetId =
        .ok (server.host.node.contactsNear targetId)) ∧
    (∀ key, PayloadType.findValueResponse.IsValue
        (Server.valueOrNodes libs.prost server.host.node key) →
      Client.findValue libs client nodeIp nodePort (server.link libs .findValue inputs) key =
        .ok (Server.valueOrNodes libs.prost server.host.node key)) ∧
    ∀ (auction : Auction) (ended : NodeInformation → Bool), PayloadType.storeRequest.IsValue
        ({ auction := some auction.toProto } : StoreRequest) →
      Client.sendStoreToNode libs client nodeIp nodePort (server.storeLink libs inputs ended)
          auction =
        if (server.storeDecoded libs inputs client.nodeInfo auction.received).answers ended then
          some (.ok ())
        else none :=
  ⟨Client.ping_link h inputs nodeIp nodePort, Client.bootstrap_link h inputs nodeIp nodePort,
    fun _ => Client.challengeResolution_link h inputs nodeIp nodePort,
    fun _ => Client.findNode_link h inputs nodeIp nodePort,
    fun _ => Client.findValue_link h inputs nodeIp nodePort,
    fun _ => Client.sendStoreToNode_link h inputs nodeIp nodePort⟩

end Answers

/-- The request of a client whose keys fit is the one that is opened. -/
theorem Server.request_eq {libs : Libraries} {server : Server} {client : Node} {t : PayloadType}
    (h : server.Serves libs client) {message : t.Message} (hvalue : t.IsValue message) (rpc : Rpc)
    (inputs : Inputs) :
    ∃ own, client.request libs rpc inputs (t.codec libs.prost) message =
        [{ rpc, inputs, message := own }] ∧
      openRequest libs (t.codec libs.prost) own =
        .ok (message, client.nodeInfo.toInformation, client.nodeInfo) := by
  obtain ⟨own, hown⟩ := h.client.exists_wrapped (t.codec libs.prost) message
  refine ⟨own, ?_, h.client.openRequest_wrapped (h.proto3.carries hvalue) hown⟩
  unfold Node.request
  rw [hown]

/-! Nodes of which the public key is also the private one. -/

def peerLibraries : Libraries := { lookupLibraries with prost := .proto3 }

def peerConfig (key : UInt8) (port : Nat) : Config :=
  { Config.testConfig with port, privateKey := [key], publicKey := [key] }

def peer (key : UInt8) (port : Nat) : Node :=
  Node.new (ownId peerLibraries.toCrates [key]) "127.0.0.1" port (peerConfig key port)
    { auctions := .absent, ledger := .absent }

def peerServer (key : UInt8) (port : Nat) : Server :=
  Server.new { node := peer key port, disk := { auctions := .absent, ledger := .absent } }

theorem genuine_of_key {node : Node} {key : UInt8}
    (hid : node.nodeInfo.id = ownId peerLibraries.toCrates [key])
    (hprivate : node.config.privateKey = [key]) (hpublic : node.config.publicKey = [key]) :
    node.Genuine peerLibraries where
  id := by rw [hid, hpublic]
  signs := by
    intro payload
    rw [hprivate, hpublic]
    refine ⟨[key] ++ payload, rfl, ?_⟩
    show Except.ok (decide ([key] ++ payload = [key] ++ payload)) = .ok true
    rw [decide_eq_true rfl]

theorem genuine_peer (key : UInt8) (port : Nat) : (peer key port).Genuine peerLibraries :=
  genuine_of_key rfl rfl rfl

theorem peerServer_serves (key key' : UInt8) (port port' : Nat) :
    (peerServer key port).Serves peerLibraries (peer key' port') where
  proto3 := Prost.isProto3_proto3
  client := genuine_peer key' port'
  server := genuine_peer key port

/-- A node that knows no one names itself. -/
theorem Node.contactsNear_new (id : Address) (ip : String) (port : Nat) (config : Config)
    (disk : Storage.DataDir) (nodeId : Address) :
    (Node.new id ip port config disk).contactsNear nodeId = [{ id, ip, port }] := by
  have hnone : (Node.new id ip port config disk).routingTable.findNodeId nodeId = none := by
    unfold RoutingTable.findNodeId
    split
    · rfl
    · split
      · rfl
      · rename_i idx _
        have hempty : (Node.new id ip port config disk).routingTable.bucket idx = KBucket.new :=
          RoutingTable.bucket_new { id, ip, port } config idx
        rw [hempty]
        rfl
  have hclosest : (Node.new id ip port config disk).routingTable.getKClosestNodes nodeId
      [(Node.new id ip port config disk).nodeInfo] =
        [(Node.new id ip port config disk).nodeInfo].take config.kValue :=
    RoutingTable.getKClosestNodes_new { id, ip, port } config nodeId
  unfold Node.contactsNear
  rw [hnone]
  dsimp only
  rw [hclosest]
  cases config.kValue with
  | zero => rfl
  | succ k =>
    rw [List.take_of_length_le (by simp), if_neg (List.cons_ne_nil _ _)]
    rfl

theorem short_peer (key : UInt8) (port : Nat) (hport : port < 2 ^ 32) :
    (peer key port).nodeInfo.toInformation.Short where
  port := hport
  id := by
    have hlength := length_toStr (peer key port).nodeInfo.id
    show (peer key port).nodeInfo.id.toStr.length < 2 ^ 20
    omega
  ip := by
    show "127.0.0.1".length < 2 ^ 20
    decide

theorem calls_answered_peers :
    Client.findNode peerLibraries (peer 2 8001) "127.0.0.1" 8000
      ((peerServer 1 8000).link peerLibraries .findNode sampleInputs) (Address.ofU256 5) =
        .ok [(peer 1 8000).nodeInfo] := by
  have hnear : (peerServer 1 8000).host.node.contactsNear (Address.ofU256 5) =
      [(peer 1 8000).nodeInfo] := Node.contactsNear_new ..
  obtain ⟨_, _, _, hfindNode, _⟩ :=
    calls_answered (peerServer_serves 1 2 8000 8001) sampleInputs "127.0.0.1" 8000
  rw [hfindNode, hnear]
  rw [Server.nodesNear_eq, hnear]
  refine PayloadType.isValue_findNodeResponse (fun node hmem => ?_) (by decide)
  obtain rfl := List.mem_singleton.mp hmem
  exact short_peer 1 8000 (by decide)

end KademliaAuction
