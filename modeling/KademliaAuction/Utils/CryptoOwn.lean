/-
KademliaAuction.Utils.CryptoOwn — signing and checking messages
(`src/utils/crypto_own.rs`).

A message travels as an `AuthenticatedMessage`: the encoded payload, a
signature, the public key and the sender's id, ip and port. `signAndWrap`
signs the payload bytes and nothing else; `extractAndVerify` checks the
signature over the payload and that the id is the hash of the public key.

The signature scheme is OpenSSL's: `OpenSsl` has the outcome of signing with
a DER private key and of verifying with a DER public key, and nothing is
assumed of them here. `Libraries` collects what the servers and clients take
from other crates.
-/
import KademliaAuction.Routing.RoutingTable
import KademliaAuction.Blockchain.Block

namespace KademliaAuction

open Blockchain Proto

/-! ## gRPC errors -/

/-- The `tonic` status codes in use. -/
inductive Code where
  | invalidArgument
  | unauthenticated
  | internal
  deriving DecidableEq, Repr

/-- `tonic::Status`. -/
structure Status where
  code : Code
  message : String
  deriving DecidableEq, Repr

namespace Status

def invalidArgument (message : String) : Status := ⟨.invalidArgument, message⟩

def unauthenticated (message : String) : Status := ⟨.unauthenticated, message⟩

def internal (message : String) : Status := ⟨.internal, message⟩

end Status

/-! ## The scheme -/

/-- `Signer` and `Verifier` with SHA-256, from DER keys: the signature of a
payload, and whether a signature is right. An error is a key that does not
parse. -/
structure OpenSsl where
  sign : (privateKeyDer payload : Bytes) → Except String Bytes
  verify : (publicKeyDer payload signature : Bytes) → Except String Bool

/-- What the network code takes from other crates. `debugNodeInformation` is
the `Debug` text of a protobuf node. -/
structure Libraries extends Crates where
  openSsl : OpenSsl
  prost : Prost
  debugNodeInformation : NodeInformation → String

/-- `sign_and_wrap`. -/
def signAndWrap {α : Type} (libs : Libraries) (codec : Codec α) (nodeInfo : NodeInfo) (message : α)
    (privateKeyDer publicKeyDer : Bytes) : Except String AuthenticatedMessage :=
  let messageBytes := codec.encode message
  match libs.openSsl.sign privateKeyDer messageBytes with
  | .error e => .error e
  | .ok signature =>
      .ok
        { sender := some nodeInfo.toInformation
          publicKey := publicKeyDer
          signature
          payload := messageBytes }

/-- `verify_signature`. -/
def verifySignature (libs : Libraries) (payload signature publicKeyDer : Bytes) :
    Except String Bool :=
  libs.openSsl.verify publicKeyDer payload signature

/-- `extract_and_verify`. -/
def extractAndVerify {α : Type} (libs : Libraries) (codec : Codec α) (msg : AuthenticatedMessage) :
    Except Status (α × AuthenticatedMessage) :=
  match verifySignature libs msg.payload msg.signature msg.publicKey with
  | .error e => .error (Status.unauthenticated s!"Signature check error: {e}")
  | .ok false => .error (Status.unauthenticated "Invalid signature")
  | .ok true =>
      let calculatedId := formatAsHexString (hashData libs.toCrates msg.publicKey)
      if msg.sender.map NodeInformation.id ≠ some calculatedId then
        .error (Status.unauthenticated "Sender ID does not match public key hash")
      else
        match codec.decode msg.payload with
        | .error e => .error (Status.invalidArgument s!"Failed to decode message: {e}")
        | .ok payload => .ok (payload, msg)

/-- The id that belongs to a public key: `main` builds a node's own id so. -/
def ownId (crates : Crates) (publicKeyDer : Bytes) : Address :=
  Address.ofU256 (hashData crates publicKeyDer)

/-- `main`: `Address::from_str(&format_as_hex_string(node_id)).unwrap()`. -/
theorem fromStr_ownId (crates : Crates) (publicKeyDer : Bytes) :
    Address.fromStr (formatAsHexString (hashData crates publicKeyDer)) =
      .ok (ownId crates publicKeyDer) :=
  fromStr_formatAsHexString _

/-- A message that has been wrapped carries the payload and its signature. -/
theorem signAndWrap_eq_ok {α : Type} {libs : Libraries} {codec : Codec α} {nodeInfo : NodeInfo}
    {message : α} {privateKeyDer publicKeyDer : Bytes} {own : AuthenticatedMessage} :
    signAndWrap libs codec nodeInfo message privateKeyDer publicKeyDer = .ok own ↔
      ∃ signature, libs.openSsl.sign privateKeyDer (codec.encode message) = .ok signature ∧
        own = { sender := some nodeInfo.toInformation, publicKey := publicKeyDer, signature
                payload := codec.encode message } := by
  unfold signAndWrap
  dsimp only
  cases libs.openSsl.sign privateKeyDer (codec.encode message) with
  | error e => simp
  | ok signature => simp [eq_comm]

/-- All that an accepted message has been checked for. -/
theorem extractAndVerify_eq_ok {α : Type} {libs : Libraries} {codec : Codec α}
    {msg msg' : AuthenticatedMessage} {payload : α} :
    extractAndVerify libs codec msg = .ok (payload, msg') ↔
      libs.openSsl.verify msg.publicKey msg.payload msg.signature = .ok true ∧
        msg.sender.map NodeInformation.id = some (ownId libs.toCrates msg.publicKey).toStr ∧
        codec.decode msg.payload = .ok payload ∧ msg' = msg := by
  unfold extractAndVerify verifySignature ownId
  rw [toStr_ofU256]
  cases hverify : libs.openSsl.verify msg.publicKey msg.payload msg.signature with
  | error e => simp
  | ok valid =>
    cases valid with
    | false => simp
    | true =>
      by_cases hid : msg.sender.map NodeInformation.id =
          some (formatAsHexString (hashData libs.toCrates msg.publicKey))
      · cases hdecode : codec.decode msg.payload with
        | error e => simp [hid]
        | ok decoded =>
          simp only [hid, ne_eq, not_true_eq_false, if_false, true_and, Except.ok.injEq,
            Prod.mk.injEq]
          exact and_congr_right fun _ => eq_comm
      · simp [hid]

end KademliaAuction
