/-
KademliaAuction.GRpc.TrialDecoding — what type a signed message is.

`sign_and_wrap` signs the bytes of a payload; nothing signed says which of
the twelve message types they are. `extract_and_verify` takes the bytes for a
message of the type it is called with when they decode as one, and decoding
in proto3 skips what it does not know and fills in what is missing. So a
message signed as one type is accepted as another exactly when the other
reads each of its fields (`ReadAs`): every type reads the empty message, and
a text is a text whatever it was signed for.

`signed_as_iff` says so for messages and for the request handlers;
`lookup_accepted_as_other` is a lookup of a node that is accepted as a lookup
of an auction.
-/
import KademliaAuction.GRpc.AuthTheorems
import KademliaAuction.Proto.Encoding

namespace KademliaAuction

open Blockchain Proto Routing Lib Lib.Protobuf

/-! ## Reading a message as another type -/

namespace Proto.PayloadType

/-- The type `u` reads every field that is written for the message. -/
def ReadAs (t : PayloadType) (message : t.Message) (u : PayloadType) : Prop :=
  ∀ field ∈ t.messageType.fields message,
    (u.messageType.slot field.number).type.reads MessageType.recursionLimit field.value = true

instance (t : PayloadType) (message : t.Message) (u : PayloadType) :
    Decidable (t.ReadAs message u) :=
  inferInstanceAs (Decidable (∀ _ ∈ _, _))

variable {t u : PayloadType} {message : t.Message}

theorem decode_isSome_iff (h : t.IsValue message) :
    (u.messageType.decode (t.messageType.encode message)).isSome = true ↔ t.ReadAs message u := by
  unfold MessageType.encode ReadAs
  rw [MessageType.decode_isSome _ h.wellFormed, List.all_eq_true]

/-- A value is read as what it is. -/
theorem readAs_self (h : t.IsValue message) : t.ReadAs message t := by
  rw [← decode_isSome_iff h, decode_encode h]
  rfl

/-- A type whose numbers have the same types, as far as it knows them, reads
every value. -/
theorem readAs_of_types (htypes : ∀ number, (u.messageType.slot number).type = .unknown ∨
      (u.messageType.slot number).type = (t.messageType.slot number).type)
    (h : t.IsValue message) : t.ReadAs message u := by
  intro field hfield
  rcases htypes field.number with hunknown | hsame
  · rw [hunknown]
    rfl
  · rw [hsame]
    exact readAs_self h field hfield

/-- The type has one field, a string with number 1. -/
def IsText : PayloadType → Bool
  | .pingResponse | .storeResponse | .findNodeRequest | .findValueRequest => true
  | _ => false

/-- Texts are read as one another. -/
theorem readAs_of_isText (ht : t.IsText) (hu : u.IsText) (h : t.IsValue message) :
    t.ReadAs message u := by
  have htype : ∀ v : PayloadType, v.IsText → ∀ number,
      (v.messageType.slot number).type = if number = 1 then .string else .unknown := by
    intro v hv
    cases v with
    | pingResponse => exact textMessage_slot_type _ _
    | storeResponse => exact textMessage_slot_type _ _
    | findNodeRequest => exact textMessage_slot_type _ _
    | findValueRequest => exact textMessage_slot_type _ _
    | _ => cases hv
  exact readAs_of_types (fun number => Or.inr (by rw [htype t ht, htype u hu])) h

end Proto.PayloadType

/-! ## Signed messages -/

/-- A node wrapped the message as one of type `t`, with its own id and a key
pair: what it signs is right under its public key. -/
structure WrappedAs (libs : Libraries) (t : PayloadType) (message : t.Message)
    (own : AuthenticatedMessage) : Prop where
  value : t.IsValue message
  wrapped : ∃ (nodeInfo : NodeInfo) (privateKey : Bytes),
    nodeInfo.id = ownId libs.toCrates own.publicKey ∧
      signAndWrap libs (t.codec libs.prost) nodeInfo message privateKey own.publicKey = .ok own
  valid : libs.openSsl.verify own.publicKey own.payload own.signature = .ok true

/-- `extract_and_verify::<u>` accepts the message. -/
def AcceptedAs (libs : Libraries) (m : AuthenticatedMessage) (u : PayloadType) : Prop :=
  ∃ accepted, extractAndVerify libs (u.codec libs.prost) m = .ok accepted

section Wrapped

variable {libs : Libraries} {t u : PayloadType} {message : t.Message} {own m : AuthenticatedMessage}

theorem WrappedAs.payload_eq (h : WrappedAs libs t message own) (hprost : libs.prost.IsProto3) :
    own.payload = t.messageType.encode message := by
  obtain ⟨nodeInfo, privateKey, _, hwrap⟩ := h.wrapped
  obtain ⟨_, _, hown⟩ := signAndWrap_eq_ok.mp hwrap
  rw [hown]
  exact (hprost t).encode message

theorem WrappedAs.sender_id (h : WrappedAs libs t message own) :
    own.sender.map NodeInformation.id = some (ownId libs.toCrates own.publicKey).toStr := by
  obtain ⟨nodeInfo, privateKey, hid, hwrap⟩ := h.wrapped
  exact WrappedByOwner.sender_id ⟨⟨_, _, nodeInfo, message, privateKey, hid, hwrap⟩, h.valid⟩

/-- Bytes that decode as `u`, on messages and on their encodings. -/
theorem decode_iff_readAs (hprost : libs.prost.IsProto3) (h : t.IsValue message) :
    (∃ payload, (u.codec libs.prost).decode (t.messageType.encode message) = .ok payload) ↔
      t.ReadAs message u := by
  rw [← PayloadType.decode_isSome_iff h, Option.isSome_iff_exists]
  exact exists_congr fun payload => (hprost u).decode _ payload

/-- A message as it was wrapped is accepted as `u` exactly when `u` reads
it. -/
theorem WrappedAs.acceptedAs_iff (h : WrappedAs libs t message own)
    (hprost : libs.prost.IsProto3) (u : PayloadType) :
    AcceptedAs libs own u ↔ t.ReadAs message u := by
  rw [← decode_iff_readAs hprost h.value, ← h.payload_eq hprost]
  constructor
  · intro ⟨⟨payload, m'⟩, haccepted⟩
    exact ⟨payload, (extractAndVerify_eq_ok.mp haccepted).2.2.1⟩
  · intro ⟨payload, hdecode⟩
    exact ⟨(payload, own), extractAndVerify_eq_ok.mpr ⟨h.valid, h.sender_id, hdecode, rfl⟩⟩

/-- What is accepted at all was signed as something that `u` reads. -/
theorem AcceptedAs.signed_as {signed : List AuthenticatedMessage} (haccepted : AcceptedAs libs m u)
    (hprost : libs.prost.IsProto3) (hunforged : Unforged libs signed m)
    (hsigned : ∀ own ∈ signed, ∃ (t : PayloadType) (message : t.Message),
      WrappedAs libs t message own) :
    ∃ own ∈ signed, own.publicKey = m.publicKey ∧ own.payload = m.payload ∧
      ∃ (t : PayloadType) (message : t.Message),
        WrappedAs libs t message own ∧ t.ReadAs message u := by
  obtain ⟨⟨payload, m'⟩, hok⟩ := haccepted
  obtain ⟨hverify, _, hdecode, _⟩ := extractAndVerify_eq_ok.mp hok
  obtain ⟨own, hown, hkey, hpayload⟩ := hunforged hverify
  obtain ⟨t, message, hwrapped⟩ := hsigned own hown
  refine ⟨own, hown, hkey, hpayload, t, message, hwrapped, ?_⟩
  rw [← decode_iff_readAs hprost hwrapped.value, ← hwrapped.payload_eq hprost, hpayload]
  exact ⟨payload, hdecode⟩

end Wrapped

/-! ## The handlers -/

/-- The type that a handler decodes its requests as. -/
def Rpc.requestType : Rpc → PayloadType
  | .ping => .pingRequest
  | .bootstrap => .bootstrapRequest
  | .challengeResolution => .challengeResolutionRequest
  | .store => .storeRequest
  | .findNode => .findNodeRequest
  | .findValue => .findValueRequest

/-- The handler answers with a status and leaves the server as it is. -/
def Server.Refuses (libs : Libraries) (server : Server) (rpc : Rpc) (inputs : Inputs)
    (request : AuthenticatedMessage) : Prop :=
  match rpc with
  | .ping => ∃ status, server.ping libs request = server.refuse status
  | .bootstrap => ∃ status, server.bootstrap libs inputs request = server.refuse status
  | .challengeResolution =>
      ∃ status, server.challengeResolution libs inputs request = server.refuse status
  | .store => ∃ status, server.store libs inputs request = server.refuse status
  | .findNode => ∃ status, server.findNode libs request = server.refuse status
  | .findValue => ∃ status, server.findValue libs request = server.refuse status

/-- No handler goes on with a request that is not accepted as its type. -/
theorem Server.refuses_of_not_acceptedAs {libs : Libraries} {server : Server} {rpc : Rpc}
    {inputs : Inputs} {request : AuthenticatedMessage}
    (h : ¬ AcceptedAs libs request rpc.requestType) : server.Refuses libs rpc inputs request := by
  have hopen : ∀ {α : Type} (codec : Codec α),
      (¬ ∃ accepted, extractAndVerify libs codec request = .ok accepted) →
        ∃ status, openRequest libs codec request = .error status := by
    intro α codec hnot
    unfold openRequest
    cases hverify : extractAndVerify libs codec request with
    | error status => exact ⟨status, rfl⟩
    | ok accepted => exact absurd ⟨accepted, hverify⟩ hnot
  obtain ⟨status, hstatus⟩ := hopen _ h
  cases rpc with
  | ping =>
    have herror : openRequest libs libs.prost.pingRequest request = .error status := hstatus
    exact ⟨status, by simp only [ping, herror]⟩
  | bootstrap =>
    have herror : openRequest libs libs.prost.bootstrapRequest request = .error status := hstatus
    exact ⟨status, by simp only [bootstrap, herror]⟩
  | challengeResolution =>
    have herror : openRequest libs libs.prost.challengeResolutionRequest request =
        .error status := hstatus
    exact ⟨status, by simp only [challengeResolution, herror]⟩
  | store =>
    have herror : openRequest libs libs.prost.storeRequest request = .error status := hstatus
    exact ⟨status, by simp only [store, herror]⟩
  | findNode =>
    have herror : openRequest libs libs.prost.findNodeRequest request = .error status := hstatus
    exact ⟨status, by simp only [findNode, herror]⟩
  | findValue =>
    have herror : openRequest libs libs.prost.findValueRequest request = .error status := hstatus
    exact ⟨status, by simp only [findValue, herror]⟩

/-- **What a signed message is accepted as**: a message wrapped as one type is
accepted as another exactly when that type reads each of its fields; and where
no signature is forged, a handler refuses a message, or the holder of its key
signed its bytes as a message whose fields the type of its requests reads. -/
theorem signed_as_iff (libs : Libraries) (hprost : libs.prost.IsProto3) :
    (∀ (t : PayloadType) (message : t.Message) (own : AuthenticatedMessage),
      WrappedAs libs t message own → ∀ u : PayloadType,
        AcceptedAs libs own u ↔ t.ReadAs message u) ∧
    ∀ (signed : List AuthenticatedMessage) (m : AuthenticatedMessage),
      (∀ own ∈ signed, ∃ (t : PayloadType) (message : t.Message), WrappedAs libs t message own) →
      Unforged libs signed m →
      ∀ (server : Server) (rpc : Rpc) (inputs : Inputs), server.Refuses libs rpc inputs m ∨
        ∃ own ∈ signed, own.publicKey = m.publicKey ∧ own.payload = m.payload ∧
          ∃ (t : PayloadType) (message : t.Message),
            WrappedAs libs t message own ∧ t.ReadAs message rpc.requestType := by
  refine ⟨fun t message own h u => h.acceptedAs_iff hprost u, ?_⟩
  intro signed m hsigned hunforged server rpc inputs
  by_cases haccepted : AcceptedAs libs m rpc.requestType
  · exact Or.inr (haccepted.signed_as hprost hunforged hsigned)
  · exact Or.inl (Server.refuses_of_not_acceptedAs haccepted)

/-! The stranger signs a lookup of a node. -/

def textLookup : FindNodeRequest := { targetId := "7" }

/-- Libraries with the proto3 encodings, in which only the stranger's
signature under its lookup verifies. -/
def textLibraries : Libraries :=
  { strangerLibraries with
    prost := .proto3
    openSsl :=
      { sign := fun key payload => .ok (key ++ payload)
        verify := fun key payload signature =>
          .ok (decide (key = [2] ∧ payload = FindNodeRequest.messageType.encode textLookup ∧
            signature = [2] ++ FindNodeRequest.messageType.encode textLookup)) } }

def signedLookup : AuthenticatedMessage where
  sender := some stranger.toInformation
  publicKey := [2]
  signature := [2] ++ FindNodeRequest.messageType.encode textLookup
  payload := FindNodeRequest.messageType.encode textLookup

theorem signedLookup_wrappedAs : WrappedAs textLibraries .findNodeRequest textLookup signedLookup where
  value := ⟨trivial, by decide +kernel⟩
  wrapped := ⟨stranger, [2], rfl, rfl⟩
  valid := by simp [textLibraries, signedLookup]

theorem unforged_text (m : AuthenticatedMessage) : Unforged textLibraries [signedLookup] m := by
  intro hverify
  have hvalid : m.publicKey = [2] ∧ m.payload = FindNodeRequest.messageType.encode textLookup ∧
      m.signature = [2] ++ FindNodeRequest.messageType.encode textLookup := by
    simpa [textLibraries] using hverify
  exact ⟨signedLookup, List.mem_singleton_self _, hvalid.1.symm, hvalid.2.1.symm⟩

/-- It is a lookup of an auction as well, and not the solution of a
challenge. -/
theorem signed_as_iff_signedLookup :
    (AcceptedAs textLibraries signedLookup .findValueRequest ∧
      ¬ AcceptedAs textLibraries signedLookup .challengeResolutionRequest) ∧
    (sampleServer.Refuses textLibraries .findValue sampleInputs signedLookup ∨
      ∃ own ∈ [signedLookup], own.publicKey = signedLookup.publicKey ∧
        own.payload = signedLookup.payload ∧
        ∃ (t : PayloadType) (message : t.Message),
          WrappedAs textLibraries t message own ∧
            t.ReadAs message Rpc.findValue.requestType) := by
  obtain ⟨haccepted, hhandled⟩ := signed_as_iff textLibraries Prost.isProto3_proto3
  have hlookup := signedLookup_wrappedAs
  refine ⟨⟨?_, fun hsolution => ?_⟩, ?_⟩
  · rw [haccepted _ _ _ hlookup]
    exact PayloadType.readAs_of_isText rfl rfl hlookup.value
  · rw [haccepted _ _ _ hlookup] at hsolution
    have hvarint := hsolution { number := 1, value := .lengthDelimited (encodeUtf8 "7") }
      (List.mem_singleton_self _)
    cases hvarint
  · refine hhandled [signedLookup] signedLookup (fun own hown => ?_) (unforged_text _) _ _ _
    rw [List.mem_singleton.mp hown]
    exact ⟨.findNodeRequest, textLookup, hlookup⟩

/-- **A message changes its type**: where no signature is forged, the lookup of
a node that the stranger signed is accepted as a lookup of an auction. -/
theorem lookup_accepted_as_other :
    ¬ ∀ (libs : Libraries) (signed : List AuthenticatedMessage), libs.prost.IsProto3 →
      (∀ m, Unforged libs signed m) →
      ∀ (t u : PayloadType), t ≠ u → ∀ (message : t.Message), ∀ own ∈ signed,
        WrappedAs libs t message own → ¬ AcceptedAs libs own u := by
  intro hall
  refine hall textLibraries [signedLookup] Prost.isProto3_proto3 unforged_text
    .findNodeRequest .findValueRequest (by decide) textLookup signedLookup
    (List.mem_singleton_self _) signedLookup_wrappedAs ?_
  rw [signedLookup_wrappedAs.acceptedAs_iff Prost.isProto3_proto3]
  exact PayloadType.readAs_of_isText rfl rfl signedLookup_wrappedAs.value

end KademliaAuction
