/-
KademliaAuction.Proto — the protobuf messages (`proto/kademlia.proto`) as
the records `prost` generates for them.

`string`, `bytes`, `uint32` / `uint64` and `int64` fields are `String`,
`Bytes`, `Nat` and `Int`; an optional message field is an `Option`. How a
message is laid out in bytes is `prost`'s: a `Codec` is an encoder and a
decoder, and `Prost` gives one for each message that travels as a payload.
-/
namespace KademliaAuction.Proto

abbrev Bytes := List UInt8

structure NodeInformation where
  id : String
  ip : String
  port : Nat
  deriving DecidableEq, Repr

structure AuthenticatedMessage where
  sender : Option NodeInformation
  publicKey : Bytes
  signature : Bytes
  payload : Bytes
  deriving DecidableEq, Repr

structure Bid where
  buyer : String
  auction : String
  amount : Nat
  deriving DecidableEq, Repr

structure Auction where
  key : String
  object : String
  initialValue : Nat
  seller : String
  bids : List Bid
  status : String
  createdAt : Int
  endsAt : Int
  winner : String
  winningBid : Nat
  deriving DecidableEq, Repr

/-! ## Requests and responses -/

structure PingRequest where
  deriving DecidableEq, Repr

structure PingResponse where
  message : String
  deriving DecidableEq, Repr

structure StoreRequest where
  auction : Option Auction
  deriving DecidableEq, Repr

structure StoreResponse where
  message : String
  deriving DecidableEq, Repr

structure FindNodeRequest where
  targetId : String
  deriving DecidableEq, Repr

structure FindNodeResponse where
  closestNodes : List NodeInformation
  deriving DecidableEq, Repr

structure FindValueRequest where
  key : String
  deriving DecidableEq, Repr

/-- The `oneof result` of `FindValueResponse`: the encoded auction, or the
nodes to ask next. -/
inductive FindValueResult where
  | value (value : Bytes)
  | nodes (nodes : List NodeInformation)
  deriving DecidableEq, Repr

structure FindValueResponse where
  result : Option FindValueResult
  deriving DecidableEq, Repr

structure BootstrapRequest where
  deriving DecidableEq, Repr

structure BootstrapResponse where
  hash : String
  difficulty : Nat
  deriving DecidableEq, Repr

structure ChallengeResolutionRequest where
  nonce : Nat
  deriving DecidableEq, Repr

structure ChallengeResolutionResponse where
  accepted : Bool
  deriving DecidableEq, Repr

/-! ## Encodings -/

/-- `prost::Message::encode` and `decode` for one message type; a failed
decode carries the text of the error. -/
structure Codec (α : Type) where
  encode : α → Bytes
  decode : Bytes → Except String α

/-- An encoding that knows one message. -/
def Codec.only {α : Type} (message : α) : Codec α where
  encode := fun _ => []
  decode := fun _ => .ok message

/-- The encodings of the payload messages and of a stored auction. -/
structure Prost where
  auction : Codec Auction
  pingRequest : Codec PingRequest
  pingResponse : Codec PingResponse
  storeRequest : Codec StoreRequest
  storeResponse : Codec StoreResponse
  findNodeRequest : Codec FindNodeRequest
  findNodeResponse : Codec FindNodeResponse
  findValueRequest : Codec FindValueRequest
  findValueResponse : Codec FindValueResponse
  bootstrapRequest : Codec BootstrapRequest
  bootstrapResponse : Codec BootstrapResponse
  challengeResolutionRequest : Codec ChallengeResolutionRequest
  challengeResolutionResponse : Codec ChallengeResolutionResponse

end KademliaAuction.Proto
