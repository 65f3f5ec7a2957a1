/-
KademliaAuction.Proto.Encoding — the messages of `proto/kademlia.proto` in
bytes, as `prost` writes and reads them.

Every message has its field numbers and types from the `.proto` file. A
field that has its default value is not written, and a number that a message
does not have is skipped. `PayloadType` has the twelve requests and
responses, which travel as the payload of an `AuthenticatedMessage`.
`Prost.IsProto3` says that the encodings of `Prost` are these.
-/
import KademliaAuction.Lib.Protobuf
import KademliaAuction.Proto

namespace KademliaAuction.Proto

open Lib.Protobuf

/-! ## Integers -/

/-- An `int64` on the wire: two's complement. -/
def ofInt64 (value : Int) : Nat := (value % 2 ^ 64).toNat

def toInt64 (value : Nat) : Int := if value < 2 ^ 63 then value else value - 2 ^ 64

/-! ## Parts of messages -/

def NodeInformation.messageType : MessageType NodeInformation where
  default := { id := "", ip := "", port := 0 }
  fields := fun node => stringField 1 node.id ++ stringField 2 node.ip ++ varintField 3 node.port
  slot := fun
    | 1 => .string fun id node => { node with id }
    | 2 => .string fun ip node => { node with ip }
    | 3 => .varint fun port node => { node with port := port % 2 ^ 32 }
    | _ => .unknown

def Bid.messageType : MessageType Bid where
  default := { buyer := "", auction := "", amount := 0 }
  fields := fun bid =>
    stringField 1 bid.buyer ++ stringField 2 bid.auction ++ varintField 3 bid.amount
  slot := fun
    | 1 => .string fun buyer bid => { bid with buyer }
    | 2 => .string fun auction bid => { bid with auction }
    | 3 => .varint fun amount bid => { bid with amount }
    | _ => .unknown

def Auction.messageType : MessageType Auction where
  default :=
    { key := "", object := "", initialValue := 0, seller := "", bids := [], status := ""
      createdAt := 0, endsAt := 0, winner := "", winningBid := 0 }
  fields := fun auction =>
    stringField 1 auction.key ++ stringField 2 auction.object ++
      varintField 3 auction.initialValue ++ stringField 4 auction.seller ++
      auction.bids.flatMap (messageField 5 Bid.messageType) ++ stringField 6 auction.status ++
      varintField 7 (ofInt64 auction.createdAt) ++ varintField 8 (ofInt64 auction.endsAt) ++
      stringField 9 auction.winner ++ varintField 10 auction.winningBid
  slot := fun
    | 1 => .string fun key auction => { auction with key }
    | 2 => .string fun object auction => { auction with object }
    | 3 => .varint fun initialValue auction => { auction with initialValue }
    | 4 => .string fun seller auction => { auction with seller }
    | 5 => .message Bid.messageType (fun _ => Bid.messageType.default) fun bid auction =>
        { auction with bids := auction.bids ++ [bid] }
    | 6 => .string fun status auction => { auction with status }
    | 7 => .varint fun createdAt auction => { auction with createdAt := toInt64 createdAt }
    | 8 => .varint fun endsAt auction => { auction with endsAt := toInt64 endsAt }
    | 9 => .string fun winner auction => { auction with winner }
    | 10 => .varint fun winningBid auction => { auction with winningBid }
    | _ => .unknown

/-- `FoundValue`, which is its bytes. -/
def foundValue : MessageType Bytes where
  default := []
  fields := fun value => bytesField 1 value
  slot := fun
    | 1 => .bytes fun value _ => value
    | _ => .unknown

/-- `ClosestNodes`, which is its nodes. -/
def closestNodes : MessageType (List NodeInformation) where
  default := []
  fields := fun nodes => nodes.flatMap (messageField 1 NodeInformation.messageType)
  slot := fun
    | 1 => .message NodeInformation.messageType (fun _ => NodeInformation.messageType.default)
        fun node nodes => nodes ++ [node]
    | _ => .unknown

/-! ## Requests and responses -/

/-- A message whose only field is a string with number 1. -/
def textMessage {M : Type} (make : String → M) (text : M → String) : MessageType M where
  default := make ""
  fields := fun message => stringField 1 (text message)
  slot := fun
    | 1 => .string fun text _ => make text
    | _ => .unknown

/-- A message without fields. -/
def emptyMessage {M : Type} (message : M) : MessageType M where
  default := message
  fields := fun _ => []
  slot := fun _ => .unknown

theorem textMessage_slot_type {M : Type} (make : String → M) (text : M → String) (number : Nat) :
    ((textMessage make text).slot number).type = if number = 1 then .string else .unknown := by
  by_cases hone : number = 1
  · rw [hone]
    rfl
  · rw [if_neg hone]
    simp only [textMessage]
    rfl

def PingRequest.messageType : MessageType PingRequest := emptyMessage {}

def PingResponse.messageType : MessageType PingResponse := textMessage PingResponse.mk message

def StoreRequest.messageType : MessageType StoreRequest where
  default := { auction := none }
  fields := fun request => request.auction.toList.flatMap (messageField 1 Auction.messageType)
  slot := fun
    | 1 => .message Auction.messageType
        (fun request => request.auction.getD Auction.messageType.default)
        fun auction _ => { auction := some auction }
    | _ => .unknown

def StoreResponse.messageType : MessageType StoreResponse := textMessage StoreResponse.mk message

def FindNodeRequest.messageType : MessageType FindNodeRequest :=
  textMessage FindNodeRequest.mk targetId

def FindNodeResponse.messageType : MessageType FindNodeResponse where
  default := { closestNodes := [] }
  fields := fun response =>
    response.closestNodes.flatMap (messageField 1 NodeInformation.messageType)
  slot := fun
    | 1 => .message NodeInformation.messageType (fun _ => NodeInformation.messageType.default)
        fun node response => { closestNodes := response.closestNodes ++ [node] }
    | _ => .unknown

def FindValueRequest.messageType : MessageType FindValueRequest :=
  textMessage FindValueRequest.mk key

/-- The `oneof` is merged into when the same case is there already, and
replaced otherwise. -/
def FindValueResponse.messageType : MessageType FindValueResponse where
  default := { result := none }
  fields := fun response =>
    match response.result with
    | none => []
    | some (.value value) => messageField 1 foundValue value
    | some (.nodes nodes) => messageField 2 Proto.closestNodes nodes
  slot := fun
    | 1 => .message foundValue
        (fun response =>
          match response.result with
          | some (.value value) => value
          | _ => foundValue.default)
        fun value _ => { result := some (.value value) }
    | 2 => .message Proto.closestNodes
        (fun response =>
          match response.result with
          | some (.nodes nodes) => nodes
          | _ => Proto.closestNodes.default)
        fun nodes _ => { result := some (.nodes nodes) }
    | _ => .unknown

def BootstrapRequest.messageType : MessageType BootstrapRequest := emptyMessage {}

def BootstrapResponse.messageType : MessageType BootstrapResponse where
  default := { hash := "", difficulty := 0 }
  fields := fun response => stringField 1 response.hash ++ varintField 2 response.difficulty
  slot := fun
    | 1 => .string fun hash response => { response with hash }
    | 2 => .varint fun difficulty response => { response with difficulty := difficulty % 2 ^ 32 }
    | _ => .unknown

def ChallengeResolutionRequest.messageType : MessageType ChallengeResolutionRequest where
  default := { nonce := 0 }
  fields := fun request => varintField 1 request.nonce
  slot := fun
    | 1 => .varint fun nonce _ => { nonce }
    | _ => .unknown

def ChallengeResolutionResponse.messageType : MessageType ChallengeResolutionResponse where
  default := { accepted := false }
  fields := fun response => varintField 1 response.accepted.toNat
  slot := fun
    | 1 => .varint fun accepted _ => { accepted := decide (accepted ≠ 0) }
    | _ => .unknown

/-! ## The twelve of them -/

/-- The requests and responses. -/
inductive PayloadType where
  | pingRequest
  | pingResponse
  | storeRequest
  | storeResponse
  | findNodeRequest
  | findNodeResponse
  | findValueRequest
  | findValueResponse
  | bootstrapRequest
  | bootstrapResponse
  | challengeResolutionRequest
  | challengeResolutionResponse
  deriving DecidableEq, Repr

namespace PayloadType

/-- The messages of the type. -/
abbrev Message : PayloadType → Type
  | .pingRequest => PingRequest
  | .pingResponse => PingResponse
  | .storeRequest => StoreRequest
  | .storeResponse => StoreResponse
  | .findNodeRequest => FindNodeRequest
  | .findNodeResponse => FindNodeResponse
  | .findValueRequest => FindValueRequest
  | .findValueResponse => FindValueResponse
  | .bootstrapRequest => BootstrapRequest
  | .bootstrapResponse => BootstrapResponse
  | .challengeResolutionRequest => ChallengeResolutionRequest
  | .challengeResolutionResponse => ChallengeResolutionResponse

def messageType : (t : PayloadType) → MessageType t.Message
  | .pingRequest => PingRequest.messageType
  | .pingResponse => PingResponse.messageType
  | .storeRequest => StoreRequest.messageType
  | .storeResponse => StoreResponse.messageType
  | .findNodeRequest => FindNodeRequest.messageType
  | .findNodeResponse => FindNodeResponse.messageType
  | .findValueRequest => FindValueRequest.messageType
  | .findValueResponse => FindValueResponse.messageType
  | .bootstrapRequest => BootstrapRequest.messageType
  | .bootstrapResponse => BootstrapResponse.messageType
  | .challengeResolutionRequest => ChallengeResolutionRequest.messageType
  | .challengeResolutionResponse => ChallengeResolutionResponse.messageType

/-- The encoding that `prost` has for the type. -/
def codec (prost : Prost) : (t : PayloadType) → Codec t.Message
  | .pingRequest => prost.pingRequest
  | .pingResponse => prost.pingResponse
  | .storeRequest => prost.storeRequest
  | .storeResponse => prost.storeResponse
  | .findNodeRequest => prost.findNodeRequest
  | .findNodeResponse => prost.findNodeResponse
  | .findValueRequest => prost.findValueRequest
  | .findValueResponse => prost.findValueResponse
  | .bootstrapRequest => prost.bootstrapRequest
  | .bootstrapResponse => prost.bootstrapResponse
  | .challengeResolutionRequest => prost.challengeResolutionRequest
  | .challengeResolutionResponse => prost.challengeResolutionResponse

end PayloadType

/-! ## Values -/

/-- The numbers of a message are those of their Rust types. -/
def NodeInformation.InRange (node : NodeInformation) : Prop := node.port < 2 ^ 32

def Bid.InRange (bid : Bid) : Prop := bid.amount < 2 ^ 64

structure Auction.InRange (auction : Auction) : Prop where
  initialValue : auction.initialValue < 2 ^ 64
  bids : ∀ bid ∈ auction.bids, bid.InRange
  createdAt : -2 ^ 63 ≤ auction.createdAt ∧ auction.createdAt < 2 ^ 63
  endsAt : -2 ^ 63 ≤ auction.endsAt ∧ auction.endsAt < 2 ^ 63
  winningBid : auction.winningBid < 2 ^ 64

def FindValueResult.InRange : FindValueResult → Prop
  | .value _ => True
  | .nodes closest => ∀ node ∈ closest, node.InRange

/-- The port is a `u32`, and the texts are short. -/
structure NodeInformation.Short (node : NodeInformation) : Prop where
  port : node.port < 2 ^ 32
  id : node.id.length < 2 ^ 20
  ip : node.ip.length < 2 ^ 20

/-- The numbers are in range, the texts and the list of bids are short. -/
structure Auction.Short (auction : Auction) : Prop where
  inRange : auction.InRange
  key : auction.key.length < 2 ^ 20
  object : auction.object.length < 2 ^ 30
  seller : auction.seller.length < 2 ^ 20
  status : auction.status.length < 2 ^ 20
  winner : auction.winner.length < 2 ^ 20
  bids : ∀ bid ∈ auction.bids, bid.buyer.length < 2 ^ 20 ∧ bid.auction.length < 2 ^ 20
  count : auction.bids.length < 2 ^ 30

namespace PayloadType

def InRange : (t : PayloadType) → t.Message → Prop
  | .storeRequest, request => ∀ auction ∈ request.auction, auction.InRange
  | .findNodeResponse, response => ∀ node ∈ response.closestNodes, node.InRange
  | .findValueResponse, response => ∀ result ∈ response.result, result.InRange
  | .bootstrapResponse, response => response.difficulty < 2 ^ 32
  | .challengeResolutionRequest, request => request.nonce < 2 ^ 64
  | _, _ => True

/-- What a variable of the Rust type can hold: its numbers are in range, and
its encoding is a `Vec<u8>`. -/
structure IsValue (t : PayloadType) (message : t.Message) : Prop where
  inRange : t.InRange message
  size : (t.messageType.encode message).length < 2 ^ 64

end PayloadType

theorem ofInt64_lt (value : Int) : ofInt64 value < 2 ^ 64 := by
  unfold ofInt64
  omega

theorem toInt64_ofInt64 {value : Int} (h : -2 ^ 63 ≤ value ∧ value < 2 ^ 63) :
    toInt64 (ofInt64 value) = value := by
  unfold toInt64 ofInt64
  split <;> omega

theorem NodeInformation.fits {node : NodeInformation} (h : node.InRange) :
    ∀ field ∈ messageType.fields node, field.Fits := by
  have hport : node.port < 2 ^ 64 := Nat.lt_trans h (by decide)
  refine List.forall_mem_append.mpr ⟨List.forall_mem_append.mpr ⟨?_, ?_⟩, ?_⟩
  · exact fits_stringField (by decide) (by decide) node.id
  · exact fits_stringField (by decide) (by decide) node.ip
  · exact fits_varintField (by decide) (by decide) hport

theorem NodeInformation.readsBack {node : NodeInformation} (h : node.InRange)
    (hsize : (messageType.encode node).length < 2 ^ 64) (limit : Nat) :
    messageType.mergeBytes limit messageType.default (messageType.encode node) = some node := by
  have hport : node.port % 2 ^ 32 = node.port := Nat.mod_eq_of_lt h
  rw [MessageType.mergeBytes_encode _ (wellFormed_of_fits (fits h) hsize)]
  refine (foldlM_append_some (foldlM_append_some (foldlM_stringField rfl rfl node.id)
    (foldlM_stringField rfl rfl node.ip)) (foldlM_varintField rfl rfl node.port)).trans ?_
  exact congrArg (fun port => some { node with port }) hport

theorem Bid.fits {bid : Bid} (h : bid.InRange) : ∀ field ∈ messageType.fields bid, field.Fits := by
  refine List.forall_mem_append.mpr ⟨List.forall_mem_append.mpr ⟨?_, ?_⟩, ?_⟩
  · exact fits_stringField (by decide) (by decide) bid.buyer
  · exact fits_stringField (by decide) (by decide) bid.auction
  · exact fits_varintField (by decide) (by decide) h

theorem Bid.readsBack {bid : Bid} (h : bid.InRange)
    (hsize : (messageType.encode bid).length < 2 ^ 64) (limit : Nat) :
    messageType.mergeBytes limit messageType.default (messageType.encode bid) = some bid := by
  rw [MessageType.mergeBytes_encode _ (wellFormed_of_fits (fits h) hsize)]
  refine (foldlM_append_some (foldlM_append_some (foldlM_stringField rfl rfl bid.buyer)
    (foldlM_stringField rfl rfl bid.auction)) (foldlM_varintField rfl rfl bid.amount)).trans ?_
  rfl

theorem Auction.fits {auction : Auction} (h : auction.InRange) :
    ∀ field ∈ messageType.fields auction, field.Fits := by
  simp only [messageType, List.forall_mem_append]
  exact ⟨⟨⟨⟨⟨⟨⟨⟨⟨fits_stringField (by decide) (by decide) auction.key,
    fits_stringField (by decide) (by decide) auction.object⟩,
    fits_varintField (by decide) (by decide) h.initialValue⟩,
    fits_stringField (by decide) (by decide) auction.seller⟩,
    fits_flatMap_messageField (by decide) (by decide) Bid.messageType auction.bids⟩,
    fits_stringField (by decide) (by decide) auction.status⟩,
    fits_varintField (by decide) (by decide) (ofInt64_lt auction.createdAt)⟩,
    fits_varintField (by decide) (by decide) (ofInt64_lt auction.endsAt)⟩,
    fits_stringField (by decide) (by decide) auction.winner⟩,
    fits_varintField (by decide) (by decide) h.winningBid⟩

theorem Auction.foldl_bids (bids : List Bid) (auction : Auction) :
    bids.foldl (fun auction bid => { auction with bids := auction.bids ++ [bid] }) auction =
      { auction with bids := auction.bids ++ bids } := by
  induction bids generalizing auction with
  | nil => simp
  | cons bid bids ih =>
    rw [List.foldl_cons, ih]
    simp

theorem Auction.readsBack {auction : Auction} (h : auction.InRange)
    (hsize : (messageType.encode auction).length < 2 ^ 64) (limit : Nat) :
    messageType.mergeBytes (limit + 1) messageType.default (messageType.encode auction) =
      some auction := by
  have hbids : ∀ bid ∈ auction.bids,
      Bid.messageType.mergeBytes limit Bid.messageType.default (Bid.messageType.encode bid) =
        some bid := by
    have hsub : auction.bids.flatMap (messageField 5 Bid.messageType) ⊆
        messageType.fields auction := by
      intro field hmem
      simp [messageType, hmem]
    intro bid hbid
    exact Bid.readsBack (h.bids bid hbid) (length_encode_lt hsub hsize bid hbid) limit
  have hwellFormed := wellFormed_of_fits (fits h) hsize
  have hcreated := toInt64_ofInt64 h.createdAt
  have hends := toInt64_ofInt64 h.endsAt
  rw [MessageType.mergeBytes_encode _ hwellFormed]
  clear h hsize hwellFormed
  obtain ⟨key, object, initial, seller, bids, status, created, ends, winner, winning⟩ := auction
  let merge := Auction.messageType.mergeField (limit + 1)
  -- one field after the other, in the order of their numbers
  have h1 : (stringField 1 key).foldlM merge ⟨"", "", 0, "", [], "", 0, 0, "", 0⟩ =
      some ⟨key, "", 0, "", [], "", 0, 0, "", 0⟩ :=
    (foldlM_stringField rfl rfl key).trans rfl
  have h2 : (stringField 2 object).foldlM merge ⟨key, "", 0, "", [], "", 0, 0, "", 0⟩ =
      some ⟨key, object, 0, "", [], "", 0, 0, "", 0⟩ :=
    (foldlM_stringField rfl rfl object).trans rfl
  have h3 : (varintField 3 initial).foldlM merge ⟨key, object, 0, "", [], "", 0, 0, "", 0⟩ =
      some ⟨key, object, initial, "", [], "", 0, 0, "", 0⟩ :=
    (foldlM_varintField rfl rfl initial).trans rfl
  have h4 : (stringField 4 seller).foldlM merge ⟨key, object, initial, "", [], "", 0, 0, "", 0⟩ =
      some ⟨key, object, initial, seller, [], "", 0, 0, "", 0⟩ :=
    (foldlM_stringField rfl rfl seller).trans rfl
  have h5 : (bids.flatMap (messageField 5 Bid.messageType)).foldlM merge
        ⟨key, object, initial, seller, [], "", 0, 0, "", 0⟩ =
      some ⟨key, object, initial, seller, bids, "", 0, 0, "", 0⟩ :=
    (foldlM_flatMap_messageField rfl hbids _).trans (congrArg some (foldl_bids bids _))
  have h6 : (stringField 6 status).foldlM merge
        ⟨key, object, initial, seller, bids, "", 0, 0, "", 0⟩ =
      some ⟨key, object, initial, seller, bids, status, 0, 0, "", 0⟩ :=
    (foldlM_stringField rfl rfl status).trans rfl
  have h7 : (varintField 7 (ofInt64 created)).foldlM merge
        ⟨key, object, initial, seller, bids, status, 0, 0, "", 0⟩ =
      some ⟨key, object, initial, seller, bids, status, created, 0, "", 0⟩ := by
    rw [foldlM_varintField rfl rfl, hcreated]
  have h8 : (varintField 8 (ofInt64 ends)).foldlM merge
        ⟨key, object, initial, seller, bids, status, created, 0, "", 0⟩ =
      some ⟨key, object, initial, seller, bids, status, created, ends, "", 0⟩ := by
    rw [foldlM_varintField rfl rfl, hends]
  have h9 : (stringField 9 winner).foldlM merge
        ⟨key, object, initial, seller, bids, status, created, ends, "", 0⟩ =
      some ⟨key, object, initial, seller, bids, status, created, ends, winner, 0⟩ :=
    (foldlM_stringField rfl rfl winner).trans rfl
  have h10 : (varintField 10 winning).foldlM merge
        ⟨key, object, initial, seller, bids, status, created, ends, winner, 0⟩ =
      some ⟨key, object, initial, seller, bids, status, created, ends, winner, winning⟩ :=
    (foldlM_varintField rfl rfl winning).trans rfl
  exact foldlM_append_some (foldlM_append_some (foldlM_append_some (foldlM_append_some
    (foldlM_append_some (foldlM_append_some (foldlM_append_some (foldlM_append_some
      (foldlM_append_some h1 h2) h3) h4) h5) h6) h7) h8) h9) h10

/-- Repeated nodes, in a `FindNodeResponse` or in `ClosestNodes`. -/
theorem NodeInformation.readsBack_all {M : Type} {T : MessageType M} {message : M}
    {nodes : List NodeInformation} (h : ∀ node ∈ nodes, node.InRange)
    (hfields : T.fields message = nodes.flatMap (messageField 1 messageType))
    (hsize : (T.encode message).length < 2 ^ 64) (limit : Nat) :
    ∀ node ∈ nodes, messageType.mergeBytes limit messageType.default
      (messageType.encode node) = some node := by
  intro node hnode
  have hsub : nodes.flatMap (messageField 1 messageType) ⊆ T.fields message :=
    hfields ▸ List.Subset.refl _
  exact readsBack (h node hnode) (length_encode_lt hsub hsize node hnode) limit

theorem foldl_nodes (nodes closest : List NodeInformation) :
    nodes.foldl (fun closest node => closest ++ [node]) closest = closest ++ nodes := by
  induction nodes generalizing closest with
  | nil => simp
  | cons node nodes ih =>
    rw [List.foldl_cons, ih]
    simp

theorem FindNodeResponse.foldl_nodes (nodes : List NodeInformation) (response : FindNodeResponse) :
    nodes.foldl (fun response node => { closestNodes := response.closestNodes ++ [node] })
      response = { closestNodes := response.closestNodes ++ nodes } := by
  induction nodes generalizing response with
  | nil => simp
  | cons node nodes ih =>
    rw [List.foldl_cons, ih]
    simp

theorem closestNodes_readsBack {nodes : List NodeInformation} (h : ∀ node ∈ nodes, node.InRange)
    (hsize : (closestNodes.encode nodes).length < 2 ^ 64) (limit : Nat) :
    closestNodes.mergeBytes (limit + 1) closestNodes.default (closestNodes.encode nodes) =
      some nodes := by
  have hfits : ∀ field ∈ closestNodes.fields nodes, field.Fits :=
    fits_flatMap_messageField (by decide) (by decide) NodeInformation.messageType nodes
  rw [MessageType.mergeBytes_encode _ (wellFormed_of_fits hfits hsize)]
  refine (foldlM_flatMap_messageField rfl
    (NodeInformation.readsBack_all h rfl hsize limit) _).trans ?_
  exact congrArg some (foldl_nodes nodes [])

theorem foundValue_readsBack {value : Bytes} (hsize : (foundValue.encode value).length < 2 ^ 64)
    (limit : Nat) :
    foundValue.mergeBytes limit foundValue.default (foundValue.encode value) = some value := by
  have hfits : ∀ field ∈ foundValue.fields value, field.Fits :=
    fits_bytesField (by decide) (by decide) value
  rw [MessageType.mergeBytes_encode _ (wellFormed_of_fits hfits hsize)]
  exact (foldlM_bytesField rfl rfl value).trans rfl

namespace PayloadType

theorem fits {t : PayloadType} {message : t.Message} (h : t.InRange message) :
    ∀ field ∈ t.messageType.fields message, field.Fits := by
  cases t with
  | pingRequest => exact nofun
  | pingResponse => exact fits_stringField (by decide) (by decide) _
  | storeRequest => exact fits_flatMap_messageField (by decide) (by decide) _ _
  | storeResponse => exact fits_stringField (by decide) (by decide) _
  | findNodeRequest => exact fits_stringField (by decide) (by decide) _
  | findNodeResponse => exact fits_flatMap_messageField (by decide) (by decide) _ _
  | findValueRequest => exact fits_stringField (by decide) (by decide) _
  | findValueResponse =>
    obtain ⟨result⟩ := message
    cases result with
    | none => exact nofun
    | some result =>
      cases result with
      | value value => exact fits_messageField (by decide) (by decide) _ _
      | nodes nodes => exact fits_messageField (by decide) (by decide) _ _
  | bootstrapRequest => exact nofun
  | bootstrapResponse =>
    have hdifficulty : message.difficulty < 2 ^ 64 := Nat.lt_trans h (by decide)
    exact List.forall_mem_append.mpr ⟨fits_stringField (by decide) (by decide) _,
      fits_varintField (by decide) (by decide) hdifficulty⟩
  | challengeResolutionRequest => exact fits_varintField (by decide) (by decide) h
  | challengeResolutionResponse =>
    have haccepted : message.accepted.toNat < 2 ^ 64 :=
      Nat.lt_of_le_of_lt (Bool.toNat_le _) (by decide)
    exact fits_varintField (by decide) (by decide) haccepted

theorem IsValue.wellFormed {t : PayloadType} {message : t.Message} (h : t.IsValue message) :
    ∀ field ∈ t.messageType.fields message, field.WellFormed :=
  wellFormed_of_fits (fits h.inRange) h.size

/-- **Payload round trip**: what is written of a value is read back by its own
type. -/
theorem decode_encode {t : PayloadType} {message : t.Message} (h : t.IsValue message) :
    t.messageType.decode (t.messageType.encode message) = some message := by
  have hread : t.messageType.decode (t.messageType.encode message) =
      (t.messageType.fields message).foldlM (t.messageType.mergeField MessageType.recursionLimit)
        t.messageType.default := MessageType.mergeBytes_encode _ h.wellFormed
  rw [hread]
  cases t with
  | pingRequest => rfl
  | pingResponse => exact (foldlM_stringField rfl rfl message.message).trans rfl
  | storeRequest =>
    obtain ⟨auction⟩ := message
    cases auction with
    | none => rfl
    | some auction =>
      have hsub : [auction].flatMap (messageField 1 Auction.messageType) ⊆
          StoreRequest.messageType.fields { auction := some auction } := List.Subset.refl _
      have hpart := Auction.readsBack (h.inRange auction rfl)
        (length_encode_lt hsub h.size auction (List.mem_singleton_self _)) 98
      refine (foldlM_messageField rfl ?_ hpart).trans ?_ <;> rfl
  | storeResponse => exact (foldlM_stringField rfl rfl message.message).trans rfl
  | findNodeRequest => exact (foldlM_stringField rfl rfl message.targetId).trans rfl
  | findNodeResponse =>
    have hparts := NodeInformation.readsBack_all h.inRange rfl h.size 99
    refine (foldlM_flatMap_messageField rfl hparts _).trans ?_
    exact congrArg some (FindNodeResponse.foldl_nodes message.closestNodes _)
  | findValueRequest => exact (foldlM_stringField rfl rfl message.key).trans rfl
  | findValueResponse =>
    obtain ⟨result⟩ := message
    cases result with
    | none => rfl
    | some result =>
      cases result with
      | value value =>
        have hsub : [value].flatMap (messageField 1 foundValue) ⊆
            FindValueResponse.messageType.fields { result := some (.value value) } :=
          List.Subset.refl _
        have hpart := foundValue_readsBack
          (length_encode_lt hsub h.size value (List.mem_singleton_self _)) 99
        refine (foldlM_messageField rfl ?_ hpart).trans ?_ <;> rfl
      | nodes nodes =>
        have hsub : [nodes].flatMap (messageField 2 closestNodes) ⊆
            FindValueResponse.messageType.fields { result := some (.nodes nodes) } :=
          List.Subset.refl _
        have hpart := closestNodes_readsBack (h.inRange _ rfl)
          (length_encode_lt hsub h.size nodes (List.mem_singleton_self _)) 98
        refine (foldlM_messageField rfl ?_ hpart).trans ?_ <;> rfl
  | bootstrapRequest => rfl
  | bootstrapResponse =>
    have hdifficulty : message.difficulty % 2 ^ 32 = message.difficulty := Nat.mod_eq_of_lt h.inRange
    refine (foldlM_append_some (foldlM_stringField rfl rfl message.hash)
      (foldlM_varintField rfl rfl message.difficulty)).trans ?_
    exact congrArg (fun difficulty => some { message with difficulty }) hdifficulty
  | challengeResolutionRequest => exact (foldlM_varintField rfl rfl message.nonce).trans rfl
  | challengeResolutionResponse =>
    refine (foldlM_varintField rfl rfl message.accepted.toNat).trans ?_
    obtain ⟨accepted⟩ := message
    cases accepted <;> rfl

example : ChallengeResolutionRequest.messageType.encode { nonce := 300 } = [8, 172, 2] := by decide

example : FindNodeRequest.messageType.encode { targetId := "7f" } = [10, 2, 55, 102] := by
  decide +kernel

/-! ## Messages that fit -/

theorem isValue_pingRequest : pingRequest.IsValue ({} : PingRequest) where
  inRange := trivial
  size := by decide

theorem isValue_bootstrapRequest : bootstrapRequest.IsValue ({} : BootstrapRequest) where
  inRange := trivial
  size := by decide

/-- A short text is a value of the messages that are one string. -/
theorem isValue_findNodeRequest {targetId : String} (h : targetId.length < 2 ^ 60) :
    findNodeRequest.IsValue ({ targetId } : FindNodeRequest) where
  inRange := trivial
  size := by
    have hsize := length_encode_stringField_le 1 targetId
    exact Nat.lt_of_le_of_lt hsize (by omega)

theorem isValue_findValueRequest {key : String} (h : key.length < 2 ^ 60) :
    findValueRequest.IsValue ({ key } : FindValueRequest) where
  inRange := trivial
  size := by
    have hsize := length_encode_stringField_le 1 key
    exact Nat.lt_of_le_of_lt hsize (by omega)

theorem isValue_pingResponse {message : String} (h : message.length < 2 ^ 60) :
    pingResponse.IsValue ({ message } : PingResponse) where
  inRange := trivial
  size := by
    have hsize := length_encode_stringField_le 1 message
    exact Nat.lt_of_le_of_lt hsize (by omega)

theorem isValue_storeResponse {message : String} (h : message.length < 2 ^ 60) :
    storeResponse.IsValue ({ message } : StoreResponse) where
  inRange := trivial
  size := by
    have hsize := length_encode_stringField_le 1 message
    exact Nat.lt_of_le_of_lt hsize (by omega)

theorem isValue_bootstrapResponse {hash : String} {difficulty : Nat} (hhash : hash.length < 2 ^ 60)
    (hdifficulty : difficulty < 2 ^ 32) :
    bootstrapResponse.IsValue ({ hash, difficulty } : BootstrapResponse) where
  inRange := hdifficulty
  size := by
    have htext := length_encode_stringField_le 1 hash
    have hnumber := length_encode_varintField_le 2 difficulty
    have hsize : (encodeFields (stringField 1 hash ++ varintField 2 difficulty)).length < 2 ^ 64 := by
      rw [length_encodeFields_append]
      omega
    exact hsize

theorem isValue_challengeResolutionRequest {nonce : Nat} (h : nonce < 2 ^ 64) :
    challengeResolutionRequest.IsValue ({ nonce } : ChallengeResolutionRequest) where
  inRange := h
  size := Nat.lt_of_le_of_lt (length_encode_varintField_le 1 nonce) (by decide)

theorem isValue_challengeResolutionResponse (accepted : Bool) :
    challengeResolutionResponse.IsValue ({ accepted } : ChallengeResolutionResponse) where
  inRange := trivial
  size := Nat.lt_of_le_of_lt (length_encode_varintField_le 1 accepted.toNat) (by decide)

theorem length_encode_nodeInformation_le (node : NodeInformation) :
    (NodeInformation.messageType.encode node).length ≤
      60 + 4 * node.id.length + 4 * node.ip.length := by
  have hid := length_encode_stringField_le 1 node.id
  have hip := length_encode_stringField_le 2 node.ip
  have hport := length_encode_varintField_le 3 node.port
  have hsize : (encodeFields (stringField 1 node.id ++ stringField 2 node.ip ++
      varintField 3 node.port)).length ≤ 60 + 4 * node.id.length + 4 * node.ip.length := by
    rw [length_encodeFields_append, length_encodeFields_append]
    omega
  exact hsize

theorem length_encode_nodes_le {nodes : List NodeInformation} (h : ∀ node ∈ nodes, node.Short) :
    (encodeFields (nodes.flatMap (messageField 1 NodeInformation.messageType))).length ≤
      2 ^ 24 * nodes.length := by
  have hnodes : ∀ node ∈ nodes,
      (NodeInformation.messageType.encode node).length ≤ 2 ^ 23 + 2 ^ 22 := by
    intro node hmem
    have hsize := length_encode_nodeInformation_le node
    obtain ⟨hport, hid, hip⟩ := h node hmem
    omega
  exact Nat.le_trans (length_encode_messageFields_le 1 hnodes) (Nat.mul_le_mul_right _ (by omega))

/-- So many short nodes are a value. -/
theorem isValue_findNodeResponse {nodes : List NodeInformation} (h : ∀ node ∈ nodes, node.Short)
    (hcount : nodes.length < 2 ^ 30) :
    findNodeResponse.IsValue ({ closestNodes := nodes } : FindNodeResponse) where
  inRange := fun node hmem => (h node hmem).port
  size := by
    have hsize := length_encode_nodes_le h
    exact Nat.lt_of_le_of_lt hsize (by omega)

theorem isValue_findValueResponse_nodes {nodes : List NodeInformation}
    (h : ∀ node ∈ nodes, node.Short) (hcount : nodes.length < 2 ^ 30) :
    findValueResponse.IsValue ({ result := some (.nodes nodes) } : FindValueResponse) where
  inRange := by
    intro result hresult
    obtain rfl := Option.some.inj hresult
    exact fun node hmem => (h node hmem).port
  size := by
    have hsize := length_encode_nodes_le h
    have hfield := length_encode_delimited_le 2 (closestNodes.encode nodes)
    exact Nat.lt_of_le_of_lt hfield (Nat.lt_of_le_of_lt (Nat.add_le_add_left hsize 20) (by omega))

theorem length_encode_bid_le (bid : Bid) :
    (Bid.messageType.encode bid).length ≤ 60 + 4 * bid.buyer.length + 4 * bid.auction.length := by
  have hbuyer := length_encode_stringField_le 1 bid.buyer
  have hauction := length_encode_stringField_le 2 bid.auction
  have hamount := length_encode_varintField_le 3 bid.amount
  have hsize : (encodeFields (stringField 1 bid.buyer ++ stringField 2 bid.auction ++
      varintField 3 bid.amount)).length ≤
        60 + 4 * bid.buyer.length + 4 * bid.auction.length := by
    rw [length_encodeFields_append, length_encodeFields_append]
    omega
  exact hsize

theorem length_encode_auction_lt {auction : Auction} (h : auction.Short) :
    (Auction.messageType.encode auction).length < 2 ^ 62 := by
  have hkey := length_encode_stringField_le 1 auction.key
  have hobject := length_encode_stringField_le 2 auction.object
  have hinitial := length_encode_varintField_le 3 auction.initialValue
  have hseller := length_encode_stringField_le 4 auction.seller
  have hbids : (encodeFields (auction.bids.flatMap (messageField 5 Bid.messageType))).length ≤
      (20 + (2 ^ 23 + 2 ^ 22)) * auction.bids.length := by
    refine length_encode_messageFields_le 5 fun bid hmem => ?_
    have hsize := length_encode_bid_le bid
    obtain ⟨hbuyer, hauction⟩ := h.bids bid hmem
    omega
  have hstatus := length_encode_stringField_le 6 auction.status
  have hcreated := length_encode_varintField_le 7 (ofInt64 auction.createdAt)
  have hends := length_encode_varintField_le 8 (ofInt64 auction.endsAt)
  have hwinner := length_encode_stringField_le 9 auction.winner
  have hwinning := length_encode_varintField_le 10 auction.winningBid
  obtain ⟨_, hshortkey, hshortobject, hshortseller, hshortstatus, hshortwinner, _, hcount⟩ := h
  have hsize : (encodeFields (stringField 1 auction.key ++ stringField 2 auction.object ++
      varintField 3 auction.initialValue ++ stringField 4 auction.seller ++
      auction.bids.flatMap (messageField 5 Bid.messageType) ++ stringField 6 auction.status ++
      varintField 7 (ofInt64 auction.createdAt) ++ varintField 8 (ofInt64 auction.endsAt) ++
      stringField 9 auction.winner ++ varintField 10 auction.winningBid)).length < 2 ^ 62 := by
    simp only [length_encodeFields_append]
    omega
  exact hsize

/-- A short auction is a value, to store and to find. -/
theorem isValue_storeRequest {auction : Auction} (h : auction.Short) :
    storeRequest.IsValue ({ auction := some auction } : StoreRequest) where
  inRange := by
    intro sent hsent
    obtain rfl := Option.some.inj hsent
    exact h.inRange
  size := by
    have hsize := length_encode_auction_lt h
    have hfield := length_encode_delimited_le 1 (Auction.messageType.encode auction)
    exact Nat.lt_of_le_of_lt hfield (by omega)

theorem isValue_findValueResponse_value {value : Bytes} (h : value.length < 2 ^ 62) :
    findValueResponse.IsValue ({ result := some (.value value) } : FindValueResponse) where
  inRange := by
    intro result hresult
    obtain rfl := Option.some.inj hresult
    exact trivial
  size := by
    have hvalue : (foundValue.encode value).length ≤ 20 + value.length := by
      have hfield := length_encode_delimited_le 1 value
      have hsize : (encodeFields (bytesField 1 value)).length ≤ 20 + value.length := by
        unfold bytesField
        split
        · exact Nat.zero_le _
        · exact hfield
      exact hsize
    have hfield := length_encode_delimited_le 2 (foundValue.encode value)
    have hresult := length_encode_delimited_le 1 (foundValue.encode value)
    exact Nat.lt_of_le_of_lt hresult (by omega)

theorem decode_auction {auction : Auction} (h : auction.Short) :
    Auction.messageType.decode (Auction.messageType.encode auction) = some auction :=
  Auction.readsBack h.inRange (Nat.lt_trans (length_encode_auction_lt h) (by omega)) _

end PayloadType

/-! ## `prost` -/

/-- The encoding writes and reads a message as its type says. The texts of
errors are left open. -/
structure Codec.IsProto3 {M : Type} (codec : Codec M) (T : MessageType M) : Prop where
  encode : ∀ message, codec.encode message = T.encode message
  decode : ∀ bytes message, codec.decode bytes = .ok message ↔ T.decode bytes = some message

/-- `prost` writes and reads the requests and responses so. -/
def Prost.IsProto3 (prost : Prost) : Prop :=
  ∀ t : PayloadType, (t.codec prost).IsProto3 t.messageType

/-- The message comes back when its encoding is decoded. -/
def Codec.Carries {M : Type} (codec : Codec M) (message : M) : Prop :=
  codec.decode (codec.encode message) = .ok message

theorem Prost.IsProto3.carries {prost : Prost} (h : prost.IsProto3) {t : PayloadType}
    {message : t.Message} (hvalue : t.IsValue message) : (t.codec prost).Carries message := by
  unfold Codec.Carries
  rw [(h t).encode]
  exact ((h t).decode _ _).mpr (PayloadType.decode_encode hvalue)

/-- The encoding of a message type, with one text for every error. -/
def Codec.proto3 {M : Type} (T : MessageType M) : Codec M where
  encode := T.encode
  decode := fun bytes =>
    match T.decode bytes with
    | none => .error "failed to decode Protobuf message"
    | some message => .ok message

/-- A `Prost` of these encodings. -/
def Prost.proto3 : Prost where
  auction := .proto3 Auction.messageType
  pingRequest := .proto3 PingRequest.messageType
  pingResponse := .proto3 PingResponse.messageType
  storeRequest := .proto3 StoreRequest.messageType
  storeResponse := .proto3 StoreResponse.messageType
  findNodeRequest := .proto3 FindNodeRequest.messageType
  findNodeResponse := .proto3 FindNodeResponse.messageType
  findValueRequest := .proto3 FindValueRequest.messageType
  findValueResponse := .proto3 FindValueResponse.messageType
  bootstrapRequest := .proto3 BootstrapRequest.messageType
  bootstrapResponse := .proto3 BootstrapResponse.messageType
  challengeResolutionRequest := .proto3 ChallengeResolutionRequest.messageType
  challengeResolutionResponse := .proto3 ChallengeResolutionResponse.messageType

theorem Codec.isProto3_proto3 {M : Type} (T : MessageType M) : (Codec.proto3 T).IsProto3 T where
  encode := fun _ => rfl
  decode := by
    intro bytes message
    unfold Codec.proto3
    cases hdecode : T.decode bytes <;> simp [hdecode]

theorem Prost.isProto3_proto3 : Prost.proto3.IsProto3 := by
  intro t
  cases t <;> exact Codec.isProto3_proto3 _

end KademliaAuction.Proto
