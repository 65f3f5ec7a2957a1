/-
KademliaAuction.GRpc.IdentityTheorems — the id of a sender.

`main` makes a node's id from its public key by printing the hash with
`format_as_hex_string` and parsing the text; `sign_and_wrap` prints the id
with `Display`; `extract_and_verify` compares that text with the printed hash
of the key. The two ways to print agree on every number
(`toStr_ofU256`), so the comparison accepts exactly the id that belongs to
the key, and a text that passes it always parses.

Every handler still has two branches for a sender that is missing or does
not parse. `identity_check_exact` says that none of them is ever taken.
-/
import KademliaAuction.GRpc.JoinTheorems

namespace KademliaAuction

open Blockchain Proto Routing Lib

/-! ## Accepted and wrapped messages -/

/-- The sender of an accepted message is there and parses, to the id of its
public key. -/
theorem sender_of_accepted {libs : Libraries} {α : Type} {codec : Codec α}
    {m m' : AuthenticatedMessage} {payload : α}
    (h : extractAndVerify libs codec m = .ok (payload, m')) :
    ∃ senderProto sender, m'.sender = some senderProto ∧ NodeInfo.tryFrom senderProto = .ok sender ∧
      sender.id.asU256 = hashData libs.toCrates m.publicKey := by
  obtain ⟨_, hid, _, rfl⟩ := extractAndVerify_eq_ok.mp h
  obtain ⟨senderProto, hsender, hidproto⟩ := Option.map_eq_some_iff.mp hid
  have hparse : NodeInfo.tryFrom senderProto =
      .ok { id := ownId libs.toCrates m'.publicKey, ip := senderProto.ip,
            port := senderProto.port } := by
    unfold NodeInfo.tryFrom
    rw [hidproto, Address.fromStr_toStr]
  exact ⟨senderProto, _, hsender, hparse, Address.asU256_ofU256 _⟩

/-- A message that a node wraps with its own key carries the id that the
check computes. -/
theorem wrapped_id {libs : Libraries} {α : Type} {codec : Codec α} {nodeInfo : NodeInfo}
    {message : α} {privateKey publicKey : Bytes} {m : AuthenticatedMessage}
    (hid : Address.fromStr (formatAsHexString (hashData libs.toCrates publicKey)) = .ok nodeInfo.id)
    (hwrap : signAndWrap libs codec nodeInfo message privateKey publicKey = .ok m) :
    m.sender.map NodeInformation.id =
      some (formatAsHexString (hashData libs.toCrates m.publicKey)) := by
  rw [fromStr_ownId, Except.ok.injEq] at hid
  obtain ⟨_, _, rfl⟩ := signAndWrap_eq_ok.mp hwrap
  simp [NodeInfo.toInformation, ← hid, ownId, toStr_ofU256]

theorem begins_append {beginning s : String} (h : beginning.toList <+: s.toList) (t : String) :
    beginning.toList <+: (s ++ t).toList := by
  rw [String.toList_append]
  exact h.trans (List.prefix_append _ _)

/-- Only an id that differs is refused as one. -/
theorem extractAndVerify_ne_mismatch {libs : Libraries} {α : Type} {codec : Codec α}
    {m : AuthenticatedMessage} (hid : m.sender.map NodeInformation.id =
      some (formatAsHexString (hashData libs.toCrates m.publicKey))) :
    extractAndVerify libs codec m ≠
      .error (Status.unauthenticated "Sender ID does not match public key hash") := by
  intro h
  unfold extractAndVerify at h
  split at h
  · rename_i e _
    have htext : "Signature check error: " ++ e = "Sender ID does not match public key hash" :=
      congrArg Status.message (Except.error.inj h)
    have hbegins : "Si".toList <+: ("Signature check error: " ++ e).toList :=
      begins_append (by decide +kernel) _
    rw [htext] at hbegins
    exact absurd hbegins (by decide +kernel)
  · exact absurd (Except.error.inj h) (by decide +kernel)
  · dsimp only at h
    rw [if_neg (not_not_intro hid)] at h
    split at h
    · exact nomatch congrArg Status.code (Except.error.inj h)
    · cases h

/-- What carries the id of its key is accepted if its signature is right and
its payload decodes. -/
theorem extractAndVerify_iff_of_id {libs : Libraries} {α : Type} {codec : Codec α}
    {m : AuthenticatedMessage} {payload : α} (hid : m.sender.map NodeInformation.id =
      some (formatAsHexString (hashData libs.toCrates m.publicKey))) :
    extractAndVerify libs codec m = .ok (payload, m) ↔
      verifySignature libs m.payload m.signature m.publicKey = .ok true ∧
        codec.decode m.payload = .ok payload := by
  rw [extractAndVerify_eq_ok, ownId, toStr_ofU256, verifySignature]
  tauto

/-! ## What a handler answers -/

/-- The status that is returned, if it is one. -/
def refusal {α : Type} : Except Status α → Option Status
  | .error status => some status
  | .ok _ => none

/-- The status of a request that is not answered. -/
def Server.status (libs : Libraries) (server : Server) (rpc : Rpc) (inputs : Inputs)
    (request : AuthenticatedMessage) : Option Status :=
  match rpc with
  | .ping => refusal (server.ping libs request).reply
  | .bootstrap => refusal (server.bootstrap libs inputs request).reply
  | .challengeResolution => refusal (server.challengeResolution libs inputs request).reply
  | .store => refusal (server.store libs inputs request).reply
  | .findNode => refusal (server.findNode libs request).reply
  | .findValue => refusal (server.findValue libs request).reply

/-- The two statuses for a sender that is missing or does not parse. -/
def SenderError (libs : Libraries) (status : Status) : Prop :=
  status = Status.invalidArgument "Missing sender information in request" ∨
    ∃ (senderProto : NodeInformation) (e : String), status = Status.internal
      s!"Failed to parse NodeInfo from sender_proto: {libs.debugNodeInformation senderProto}, error: {e}"

/-- Opening a request fails exactly where the message is not accepted, with
the same status. -/
theorem Server.openRequest_error {libs : Libraries} {α : Type} {codec : Codec α}
    {request : AuthenticatedMessage} {status : Status} :
    openRequest libs codec request = .error status ↔
      extractAndVerify libs codec request = .error status := by
  unfold openRequest
  cases hverify : extractAndVerify libs codec request with
  | error refused => simp only [Except.error.injEq]
  | ok opened =>
    obtain ⟨payload, parsed⟩ := opened
    obtain ⟨senderProto, sender, hsender, hparse, _⟩ := sender_of_accepted hverify
    simp only [hsender, hparse, reduceCtorEq]

/-! ## Texts

Statuses are told apart by how their texts begin. -/

/-- How the other statuses begin. -/
def otherBeginnings : List String :=
  ["Signature check e", "Invalid signature", "Sender ID does no", "Failed to decode ",
    "sign_and_wrap fai", "Missing auction i", "Failed to deseria", "Failed to parse t",
    "Invalid auction k"]

/-- The status begins like one of the others. -/
def Status.BeginsOther (status : Status) : Prop :=
  ∃ beginning ∈ otherBeginnings, beginning.toList <+: status.message.toList

/-- No other status is a sender error. -/
theorem Status.BeginsOther.not_senderError {libs : Libraries} {status : Status}
    (h : status.BeginsOther) : ¬ SenderError libs status := by
  obtain ⟨beginning, hmem, hbegins⟩ := h
  have hlength : ∀ b ∈ otherBeginnings, b.toList.length = 17 := by decide +kernel
  have hdiffers : ∀ b ∈ otherBeginnings,
      b.toList ≠ "Missing sender in".toList ∧ b.toList ≠ "Failed to parse N".toList := by
    decide +kernel
  have hsame : ∀ {other : String}, other.toList <+: status.message.toList →
      other.toList.length = 17 → beginning.toList = other.toList := fun hother h17 =>
    (List.prefix_of_prefix_length_le hbegins hother (by rw [hlength _ hmem, h17])).eq_of_length
      (by rw [hlength _ hmem, h17])
  rintro (rfl | ⟨senderProto, e, rfl⟩)
  · exact (hdiffers _ hmem).1 (hsame (by decide +kernel) (by decide +kernel))
  · refine (hdiffers _ hmem).2 (hsame ?_ (by decide +kernel))
    exact begins_append (begins_append (begins_append (by decide +kernel) _) _) _

/-- A refused message is refused with one of the texts of
`extract_and_verify`. -/
theorem beginsOther_of_extractAndVerify {libs : Libraries} {α : Type} {codec : Codec α}
    {request : AuthenticatedMessage} {status : Status}
    (h : extractAndVerify libs codec request = .error status) : status.BeginsOther := by
  unfold extractAndVerify at h
  split at h
  · obtain rfl := Except.error.inj h
    exact ⟨"Signature check e", by decide, begins_append (by decide +kernel) _⟩
  · obtain rfl := Except.error.inj h
    exact ⟨"Invalid signature", by decide, by decide +kernel⟩
  · simp only at h
    split at h
    · obtain rfl := Except.error.inj h
      exact ⟨"Sender ID does no", by decide, by decide +kernel⟩
    · split at h
      · obtain rfl := Except.error.inj h
        exact ⟨"Failed to decode ", by decide, begins_append (by decide +kernel) _⟩
      · cases h

/-- So is a request that is not opened. -/
theorem beginsOther_of_openRequest {libs : Libraries} {α : Type} {codec : Codec α}
    {request : AuthenticatedMessage} {refused status : Status}
    (hopen : Server.openRequest libs codec request = .error refused)
    (h : some refused = some status) : status.BeginsOther := by
  obtain rfl := Option.some.inj h
  exact beginsOther_of_extractAndVerify (Server.openRequest_error.mp hopen)

/-- Signing an answer can fail. -/
theorem beginsOther_of_signReply {libs : Libraries} {α : Type} {server : Server} {codec : Codec α}
    {response : α} {status : Status}
    (h : refusal (server.signReply libs codec response) = some status) : status.BeginsOther := by
  unfold Server.signReply at h
  split at h
  · obtain rfl := Option.some.inj h
    exact ⟨"sign_and_wrap fai", by decide, begins_append (by decide +kernel) _⟩
  · cases h

/-- Whatever a handler refuses a request with, it is no sender error. -/
theorem Server.beginsOther_of_status {libs : Libraries} {server : Server} {rpc : Rpc}
    {inputs : Inputs} {request : AuthenticatedMessage} {status : Status}
    (h : server.status libs rpc inputs request = some status) : status.BeginsOther := by
  cases rpc with
  | ping =>
    change refusal (server.ping libs request).reply = some status at h
    unfold ping at h
    split at h
    · rename_i hopen
      exact beginsOther_of_openRequest hopen h
    · exact beginsOther_of_signReply h
  | bootstrap =>
    change refusal (server.bootstrap libs inputs request).reply = some status at h
    unfold bootstrap at h
    split at h
    · rename_i hopen
      exact beginsOther_of_openRequest hopen h
    · exact beginsOther_of_signReply h
  | challengeResolution =>
    change refusal (server.challengeResolution libs inputs request).reply = some status at h
    unfold challengeResolution at h
    split at h
    · rename_i hopen
      exact beginsOther_of_openRequest hopen h
    · split at h
      · exact beginsOther_of_signReply h
      · exact beginsOther_of_signReply h
  | store =>
    change refusal (server.store libs inputs request).reply = some status at h
    unfold store at h
    split at h
    · rename_i hopen
      exact beginsOther_of_openRequest hopen h
    · split at h
      · obtain rfl := Option.some.inj h
        exact ⟨"Missing auction i", by decide, by decide +kernel⟩
      · split at h
        · obtain rfl := Option.some.inj h
          exact ⟨"Failed to deseria", by decide, begins_append (by decide +kernel) _⟩
        · unfold storeDecoded at h
          simp only at h
          split at h
          · exact beginsOther_of_signReply h
          · exact beginsOther_of_signReply h
  | findNode =>
    change refusal (server.findNode libs request).reply = some status at h
    unfold findNode at h
    split at h
    · rename_i hopen
      exact beginsOther_of_openRequest hopen h
    · split at h
      · obtain rfl := Option.some.inj h
        exact ⟨"Failed to parse t", by decide,
          begins_append (begins_append (begins_append (by decide +kernel) _) _) _⟩
      · exact beginsOther_of_signReply h
  | findValue =>
    change refusal (server.findValue libs request).reply = some status at h
    unfold findValue at h
    split at h
    · rename_i hopen
      exact beginsOther_of_openRequest hopen h
    · split at h
      · obtain rfl := Option.some.inj h
        exact ⟨"Invalid auction k", by decide,
          begins_append (begins_append (begins_append (by decide +kernel) _) _) _⟩
      · exact beginsOther_of_signReply h

/-! ## The check -/

/-- **The identity check is exact**: the printed hash of a public key parses,
and prints as it was; what a node wraps with the id that `main` makes passes
the check, so that it is accepted as any type as which its payload decodes, if
its signature verifies; the sender of an accepted message is there and parses,
to an id whose value is the hash of the key; and the handlers' own branches for
a sender that is missing or does not parse are never taken: opening a request
fails only as `extract_and_verify` does, and no handler answers with their
statuses. -/
theorem identity_check_exact (libs : Libraries) :
    (∀ publicKey, ∃ id, Address.fromStr (formatAsHexString (hashData libs.toCrates publicKey)) =
        .ok id ∧ id.toStr = formatAsHexString (hashData libs.toCrates publicKey) ∧
      ∀ {α : Type} (codec : Codec α) (message : α) (ip : String) (port : Nat) (privateKey : Bytes)
        (m : AuthenticatedMessage),
        signAndWrap libs codec { id, ip, port } message privateKey publicKey = .ok m →
          m.sender.map NodeInformation.id =
              some (formatAsHexString (hashData libs.toCrates m.publicKey)) ∧
          ∀ {β : Type} (codec' : Codec β),
            extractAndVerify libs codec' m ≠
                .error (Status.unauthenticated "Sender ID does not match public key hash") ∧
            ∀ payload, extractAndVerify libs codec' m = .ok (payload, m) ↔
              verifySignature libs m.payload m.signature m.publicKey = .ok true ∧
                codec'.decode m.payload = .ok payload) ∧
    (∀ {α : Type} (codec : Codec α) (m m' : AuthenticatedMessage) (payload : α),
      extractAndVerify libs codec m = .ok (payload, m') →
        ∃ senderProto sender, m'.sender = some senderProto ∧
          NodeInfo.tryFrom senderProto = .ok sender ∧
          sender.id.asU256 = hashData libs.toCrates m.publicKey) ∧
    (∀ {α : Type} (codec : Codec α) (request : AuthenticatedMessage) (status : Status),
      Server.openRequest libs codec request = .error status ↔
        extractAndVerify libs codec request = .error status) ∧
    (∀ (server : Server) (rpc : Rpc) (inputs : Inputs) (request : AuthenticatedMessage)
      (status : Status), server.status libs rpc inputs request = some status →
        ¬ SenderError libs status) := by
  refine ⟨fun publicKey => ?_, fun codec m m' payload h => sender_of_accepted h,
    fun codec request status => Server.openRequest_error,
    fun server rpc inputs request status h =>
      (Server.beginsOther_of_status h).not_senderError⟩
  have hparse := fromStr_ownId libs.toCrates publicKey
  refine ⟨ownId libs.toCrates publicKey, hparse, toStr_ofU256 _,
    fun codec message ip port privateKey m hwrap => ?_⟩
  have hid := wrapped_id hparse hwrap
  exact ⟨hid, fun codec' => ⟨extractAndVerify_ne_mismatch hid,
    fun payload => extractAndVerify_iff_of_id hid⟩⟩

/-- The stranger wraps its lookup, which is then accepted, with the stranger as
its sender. -/
theorem identity_check_exact_lookup :
    extractAndVerify lookupLibraries lookupLibraries.prost.findNodeRequest lookup.message =
        .ok ({ targetId := (Address.ofU256 5).toStr }, lookup.message) ∧
      ∃ senderProto sender, lookup.message.sender = some senderProto ∧
        NodeInfo.tryFrom senderProto = .ok sender ∧
        sender.id.asU256 = hashData lookupLibraries.toCrates lookup.message.publicKey := by
  obtain ⟨hwrapped, haccepted, _⟩ := identity_check_exact lookupLibraries
  obtain ⟨id, hparse, _, hpasses⟩ := hwrapped [2]
  obtain rfl : stranger.id = id := Except.ok.inj ((fromStr_ownId _ [2]).symm.trans hparse)
  have hwrap : signAndWrap lookupLibraries lookupLibraries.prost.findNodeRequest stranger
      { targetId := (Address.ofU256 5).toStr } [2] [2] = .ok lookup.message := rfl
  obtain ⟨_, hexact⟩ := hpasses _ _ stranger.ip stranger.port _ _ hwrap
  have hlookup := ((hexact lookupLibraries.prost.findNodeRequest).2
    { targetId := (Address.ofU256 5).toStr }).mpr ⟨rfl, rfl⟩
  exact ⟨hlookup, haccepted _ _ _ _ hlookup⟩

end KademliaAuction
