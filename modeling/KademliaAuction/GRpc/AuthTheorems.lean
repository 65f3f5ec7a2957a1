/-
KademliaAuction.GRpc.AuthTheorems — what an accepted message says about its
sender, against an adversary who may copy, alter and resend messages.

`sign_and_wrap` signs the payload. The sender's id is bound to the signing
key by its hash, but ip and port travel beside the payload, signed by no one.
`wireSystem` is a server, the messages that their owners have signed so far,
and an adversary who delivers any message at all; the signature scheme is
unforgeable in that a signature verifies only over a payload the holder of
the key has signed (`Genuine`).

`accepted_sender` says what remains true: payload and sender id of an
accepted message are its owner's, and every id in the routing table was
announced by its owner. `altered_port_accepted` is a run in which the port is
not.
-/
import KademliaAuction.GRpc.JoinTheorems

namespace KademliaAuction

open Blockchain Proto Routing Lib

/-- The message comes out of `sign_and_wrap`, called by the holder of its
public key, so that it verifies, with the node information that `main` builds
for that key. -/
structure WrappedByOwner (libs : Libraries) (own : AuthenticatedMessage) : Prop where
  wrapped : ∃ (α : Type) (codec : Codec α) (nodeInfo : NodeInfo) (message : α) (privateKey : Bytes),
    nodeInfo.id = ownId libs.toCrates own.publicKey ∧
      signAndWrap libs codec nodeInfo message privateKey own.publicKey = .ok own
  valid : libs.openSsl.verify own.publicKey own.payload own.signature = .ok true

/-- Its signature, if it is right, is over a payload that the holder of its
public key has signed. -/
def Unforged (libs : Libraries) (signed : List AuthenticatedMessage) (m : AuthenticatedMessage) :
    Prop :=
  libs.openSsl.verify m.publicKey m.payload m.signature = .ok true →
    ∃ own ∈ signed, own.publicKey = m.publicKey ∧ own.payload = m.payload

/-! ## The wire -/

/-- A server, and the messages signed so far. -/
structure Wire where
  server : Server
  signed : List AuthenticatedMessage

/-- A node signs a message, or the adversary delivers one. -/
inductive WireAction where
  | sign (own : AuthenticatedMessage)
  | deliver (r : ServerRequest)

/-- A server on an open network. -/
def wireSystem (libs : Libraries) (start : Server) : System Wire WireAction where
  Init := fun s => s = { server := start, signed := [] }
  next := fun s action =>
    match action with
    | .sign own => some { s with signed := s.signed ++ [own] }
    | .deliver r => some { s with server := s.server.handle libs r.rpc r.inputs r.message }

/-- Nodes sign with `sign_and_wrap`, and the adversary forges no signature. -/
def Genuine (libs : Libraries) (s : Wire) : WireAction → Prop
  | .sign own => WrappedByOwner libs own
  | .deliver r => Unforged libs s.signed r.message

/-! ## What is authenticated -/

theorem WrappedByOwner.sender_id {libs : Libraries} {own : AuthenticatedMessage}
    (h : WrappedByOwner libs own) :
    own.sender.map NodeInformation.id = some (ownId libs.toCrates own.publicKey).toStr := by
  obtain ⟨α, codec, nodeInfo, message, privateKey, hid, hwrap⟩ := h.wrapped
  obtain ⟨_, _, hown⟩ := signAndWrap_eq_ok.mp hwrap
  have hsender : own.sender = some nodeInfo.toInformation := by rw [hown]
  rw [hsender, ← hid]
  rfl

/-- Payload and sender id of an accepted message are those of a message its
owner has signed. -/
theorem accepted_of_unforged {libs : Libraries} {signed : List AuthenticatedMessage}
    (hsigned : ∀ own ∈ signed, WrappedByOwner libs own) {α : Type} {codec : Codec α}
    {m m' : AuthenticatedMessage} {payload : α} (hunforged : Unforged libs signed m)
    (haccepted : extractAndVerify libs codec m = .ok (payload, m')) :
    ∃ own ∈ signed, WrappedByOwner libs own ∧ own.publicKey = m.publicKey ∧
      own.payload = m.payload ∧
      own.sender.map NodeInformation.id = m.sender.map NodeInformation.id := by
  obtain ⟨hverify, hid, _, _⟩ := extractAndVerify_eq_ok.mp haccepted
  obtain ⟨own, hmem, hkey, hpayload⟩ := hunforged hverify
  have howner := hsigned own hmem
  refine ⟨own, hmem, howner, hkey, hpayload, ?_⟩
  rw [howner.sender_id, hid, hkey]

/-- Acceptance does not look at ip and port. -/
theorem extractAndVerify_alter {libs : Libraries} {α : Type} {codec : Codec α}
    {m m' : AuthenticatedMessage} {payload : α}
    (h : extractAndVerify libs codec m = .ok (payload, m')) (ip : String) (port : Nat) :
    let altered := { m with sender := m.sender.map fun s => { s with ip, port } }
    extractAndVerify libs codec altered = .ok (payload, altered) := by
  obtain ⟨hverify, hid, hdecode, _⟩ := extractAndVerify_eq_ok.mp h
  refine extractAndVerify_eq_ok.mpr ⟨hverify, ?_, hdecode, rfl⟩
  rw [← hid, Option.map_map]
  rfl

/-- The id was announced by its owner: a message of the holder of a key that
hashes to it carries it. -/
def AnnouncedByOwner (libs : Libraries) (signed : List AuthenticatedMessage) (id : Address) : Prop :=
  ∃ own ∈ signed, WrappedByOwner libs own ∧ ownId libs.toCrates own.publicKey = id ∧
    own.sender.map NodeInformation.id = some id.toStr

/-- What genuine runs maintain. -/
structure WireInvariant (libs : Libraries) (s : Wire) : Prop where
  placed : s.server.host.node.routingTable.WellPlaced
  signed : ∀ own ∈ s.signed, WrappedByOwner libs own
  contacts : ∀ contact ∈ s.server.host.node.routingTable.contacts,
    AnnouncedByOwner libs s.signed contact.id

theorem Server.verified_of_openRequest {libs : Libraries} {α : Type} {codec : Codec α}
    {request : AuthenticatedMessage} {payload : α} {senderProto : NodeInformation} {sender : NodeInfo}
    (h : openRequest libs codec request = .ok (payload, senderProto, sender)) :
    libs.openSsl.verify request.publicKey request.payload request.signature = .ok true ∧
      sender.id = ownId libs.toCrates request.publicKey := by
  obtain ⟨hverify, _, _, hsender, _⟩ := openRequest_eq_ok.mp h
  exact ⟨hverify, by rw [hsender]⟩

/-- A taken-in sender comes from an opened request. -/
theorem Server.takesIn_eq_some {libs : Libraries} {rpc : Rpc} {request : AuthenticatedMessage}
    {sender : NodeInfo} (h : takesIn libs rpc request = some sender) :
    libs.openSsl.verify request.publicKey request.payload request.signature = .ok true ∧
      sender.id = ownId libs.toCrates request.publicKey := by
  cases rpc with
  | findNode =>
    simp only [takesIn] at h
    split at h
    · cases h
    · rename_i hopen
      obtain ⟨_, _, rfl⟩ := Option.map_eq_some_iff.mp h
      exact verified_of_openRequest hopen
  | findValue =>
    simp only [takesIn] at h
    split at h
    · cases h
    · rename_i hopen
      obtain ⟨_, _, rfl⟩ := Option.map_eq_some_iff.mp h
      exact verified_of_openRequest hopen
  | ping => cases h
  | bootstrap => cases h
  | challengeResolution => cases h
  | store => cases h

theorem WireInvariant.step {libs : Libraries} {start : Server} {s s' : Wire} {action : WireAction}
    (hinv : WireInvariant libs s) (hok : Genuine libs s action)
    (hnext : (wireSystem libs start).next s action = some s') : WireInvariant libs s' := by
  cases action with
  | sign own =>
    obtain rfl := Option.some.inj hnext
    refine ⟨hinv.placed, fun m hm => ?_, fun contact hc => ?_⟩
    · rcases List.mem_append.mp hm with hold | hnew
      · exact hinv.signed m hold
      · rw [List.mem_singleton.mp hnew]
        exact hok
    · obtain ⟨m, hm, hannounced⟩ := hinv.contacts contact hc
      exact ⟨m, List.mem_append_left _ hm, hannounced⟩
  | deliver r =>
    obtain rfl := Option.some.inj hnext
    obtain ⟨htable, _⟩ := s.server.handle_routingTable libs r.rpc r.inputs r.message
    cases htakes : Server.takesIn libs r.rpc r.message with
    | none =>
      rw [htakes] at htable
      exact ⟨by rw [htable]; exact hinv.placed, hinv.signed, by rw [htable]; exact hinv.contacts⟩
    | some sender =>
      rw [htakes] at htable
      refine ⟨by rw [htable]; exact hinv.placed.insertContact sender, hinv.signed, ?_⟩
      rw [htable]
      intro contact hc
      rcases hinv.placed.mem_contacts_insertContact hc with rfl | hold
      · obtain ⟨hverify, hid⟩ := Server.takesIn_eq_some htakes
        obtain ⟨own, hmem, hkey, _⟩ := hok hverify
        have howner := hinv.signed own hmem
        refine ⟨own, hmem, howner, by rw [hkey, hid], ?_⟩
        rw [howner.sender_id, hkey, hid]
      · exact hinv.contacts contact hold

/-- **What is authenticated**: in every genuine run, payload and sender id of
an accepted message are those of a message its owner signed, while its ip and
port can be altered at will; and every id in the routing table was announced
by its owner. -/
theorem accepted_sender (libs : Libraries) (id : Address) (ip : String) (port : Nat)
    (config : Config) (disk : Storage.DataDir) {s : Wire}
    (h : (wireSystem libs (Server.start id ip port config disk)).ReachableUnder (Genuine libs) s) :
    (∀ (α : Type) (codec : Codec α) (m m' : AuthenticatedMessage) (payload : α),
      Unforged libs s.signed m → extractAndVerify libs codec m = .ok (payload, m') →
        (∃ own ∈ s.signed, WrappedByOwner libs own ∧ own.publicKey = m.publicKey ∧
          own.payload = m.payload ∧
          own.sender.map NodeInformation.id = m.sender.map NodeInformation.id) ∧
        ∀ (ip : String) (port : Nat),
          let altered := { m with sender := m.sender.map fun s => { s with ip, port } }
          extractAndVerify libs codec altered = .ok (payload, altered)) ∧
    ∀ contact ∈ s.server.host.node.routingTable.contacts,
      AnnouncedByOwner libs s.signed contact.id := by
  have hinv : WireInvariant libs s := by
    refine h.invariant ?_ fun _ _ _ hinv hok hnext => hinv.step hok hnext
    intro s hs
    obtain rfl : s = _ := hs
    refine ⟨RoutingTable.wellPlaced_new _ config, by simp, fun contact hc => ?_⟩
    rw [show (Server.start id ip port config disk).host.node.routingTable.contacts = [] from
      RoutingTable.contacts_new _ config] at hc
    cases hc
  refine ⟨fun α codec m m' payload hunforged haccepted => ?_, hinv.contacts⟩
  exact ⟨accepted_of_unforged hinv.signed hunforged haccepted, extractAndVerify_alter haccepted⟩

/-! The stranger's lookup arrives with another port. -/

/-- Libraries in which one signature verifies, the stranger's under its
lookup. -/
def strangerLibraries : Libraries :=
  { lookupLibraries with
    openSsl :=
      { sign := fun key payload => .ok (key ++ payload)
        verify := fun key payload signature =>
          .ok (decide (key = [2] ∧ payload = [] ∧ signature = [2])) } }

def alteredLookup : ServerRequest :=
  { lookup with message :=
    { lookup.message with sender := some { stranger.toInformation with port := 6666 } } }

def wireStart : Wire := { server := sampleServer, signed := [] }

def wireSigned : Wire := { server := sampleServer, signed := [lookup.message] }

def wireAltered : Wire where
  server := sampleServer.handle strangerLibraries .findNode sampleInputs alteredLookup.message
  signed := [lookup.message]

theorem lookup_wrappedByOwner : WrappedByOwner strangerLibraries lookup.message :=
  ⟨⟨FindNodeRequest, strangerLibraries.prost.findNodeRequest, stranger,
    { targetId := (Address.ofU256 5).toStr }, [2], rfl, rfl⟩, rfl⟩

/-- No signature is forged once the lookup is signed. -/
theorem unforged_stranger (m : AuthenticatedMessage) :
    Unforged strangerLibraries [lookup.message] m := by
  intro hverify
  have hvalid : m.publicKey = [2] ∧ m.payload = [] ∧ m.signature = [2] := by
    simpa [strangerLibraries] using hverify
  exact ⟨lookup.message, List.mem_singleton_self _, hvalid.1.symm, hvalid.2.1.symm⟩

theorem reachable_wireAltered :
    (wireSystem strangerLibraries sampleServer).ReachableUnder (Genuine strangerLibraries)
      wireAltered := by
  have hstart : (wireSystem strangerLibraries sampleServer).ReachableUnder
      (Genuine strangerLibraries) wireStart := .init rfl
  have hsigned : (wireSystem strangerLibraries sampleServer).ReachableUnder
      (Genuine strangerLibraries) wireSigned :=
    hstart.step (a := .sign lookup.message) lookup_wrappedByOwner rfl
  exact hsigned.step (a := .deliver alteredLookup) (unforged_stranger _) rfl

theorem openRequest_alteredLookup :
    Server.openRequest strangerLibraries strangerLibraries.prost.findNodeRequest
      alteredLookup.message = .ok ({ targetId := (Address.ofU256 5).toStr },
        { stranger.toInformation with port := 6666 }, { stranger with port := 6666 }) :=
  Server.openRequest_eq_ok.mpr ⟨rfl, rfl, rfl, rfl, rfl⟩

theorem accepted_sender_altered :
    (∃ own ∈ wireAltered.signed, WrappedByOwner strangerLibraries own ∧
      own.publicKey = alteredLookup.message.publicKey ∧
      own.payload = alteredLookup.message.payload ∧
      own.sender.map NodeInformation.id =
        alteredLookup.message.sender.map NodeInformation.id) ∧
    ∀ contact ∈ wireAltered.server.host.node.routingTable.contacts,
      AnnouncedByOwner strangerLibraries wireAltered.signed contact.id := by
  have haccepted : extractAndVerify strangerLibraries strangerLibraries.prost.findNodeRequest
      alteredLookup.message = .ok ({ targetId := (Address.ofU256 5).toStr },
        alteredLookup.message) :=
    extractAndVerify_eq_ok.mpr ⟨rfl, rfl, rfl, rfl⟩
  obtain ⟨haccept, hcontacts⟩ := accepted_sender strangerLibraries (Address.ofU256 1) "127.0.0.1" 8000
    Config.testConfig { auctions := .absent, ledger := .absent } reachable_wireAltered
  exact ⟨(haccept _ _ _ _ _ (unforged_stranger _) haccepted).1, hcontacts⟩

/-- **The port is not authenticated**: the lookup with an altered port is
accepted, although its owner signed none with that port, and the altered
contact is taken into the routing table. -/
theorem altered_port_accepted :
    ¬ (∀ s, (wireSystem strangerLibraries sampleServer).ReachableUnder (Genuine strangerLibraries) s →
      ∀ (m m' : AuthenticatedMessage) (payload : FindNodeRequest), Unforged strangerLibraries s.signed m →
        extractAndVerify strangerLibraries strangerLibraries.prost.findNodeRequest m =
          .ok (payload, m') →
        ∃ own ∈ s.signed, own.publicKey = m.publicKey ∧ own.payload = m.payload ∧
          own.sender = m.sender) ∧
    ¬ (∀ s, (wireSystem strangerLibraries sampleServer).ReachableUnder (Genuine strangerLibraries) s →
      ∀ contact ∈ s.server.host.node.routingTable.contacts,
        ∃ own ∈ s.signed, own.sender = some contact.toInformation) := by
  have hother : lookup.message.sender ≠ some { stranger.toInformation with port := 6666 } := by
    decide +kernel
  constructor
  · intro hall
    obtain ⟨own, hmem, _, _, hsender⟩ := hall wireAltered reachable_wireAltered alteredLookup.message
      alteredLookup.message { targetId := (Address.ofU256 5).toStr } (unforged_stranger _)
      (extractAndVerify_eq_ok.mpr ⟨rfl, rfl, rfl, rfl⟩)
    rw [List.mem_singleton.mp hmem] at hsender
    exact hother hsender
  · intro hall
    have htakes : Server.takesIn strangerLibraries .findNode alteredLookup.message =
        some { stranger with port := 6666 } := by
      unfold Server.takesIn
      simp only [openRequest_alteredLookup, Address.fromStr_toStr]
      rfl
    have hplaced : sampleServer.host.node.routingTable.WellPlaced :=
      RoutingTable.wellPlaced_new _ Config.testConfig
    have hin : ({ stranger with port := 6666 } : NodeInfo) ∈
        wireAltered.server.host.node.routingTable.contacts := by
      have htable := (sampleServer.handle_routingTable strangerLibraries .findNode sampleInputs
        alteredLookup.message).1
      rw [htakes] at htable
      unfold wireAltered
      rw [htable]
      exact hplaced.self_mem_insertContact (by decide +kernel)
    obtain ⟨own, hmem, hsender⟩ := hall wireAltered reachable_wireAltered _ hin
    rw [List.mem_singleton.mp hmem] at hsender
    exact hother hsender

end KademliaAuction
