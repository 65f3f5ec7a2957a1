/-
KademliaAuction.GRpc.ChallengeTheorems — which answers to a challenge are
accepted.

A server keeps one challenge for each sender: `bootstrap` sets it and
`challenge_resolution` clears it, whatever the answer was worth. Over a
history of requests that makes the challenges a log of writes in the sense of
`Lib.KeyedLog` (`handleAll_challengesMap`), so that an answer is judged by
the last request of its sender alone. `challenge_acceptance` has the exact
condition, and that `proof_of_work` meets the part of it that is the
client's.
-/
import KademliaAuction.GRpc.JoinTheorems
import KademliaAuction.Lib.KeyedLog
import KademliaAuction.Utils

namespace KademliaAuction

open Blockchain Proto Routing Lib

/-! ## The challenges as a log -/

section Log

variable (libs : Libraries)

/-- The sender id of a verified `bootstrap` or `challenge_resolution`
request. -/
def requester (r : ServerRequest) : Option String :=
  match r.rpc with
  | .bootstrap =>
      match Server.openRequest libs libs.prost.bootstrapRequest r.message with
      | .error _ => none
      | .ok (_, senderProto, _) => some senderProto.id
  | .challengeResolution =>
      match Server.openRequest libs libs.prost.challengeResolutionRequest r.message with
      | .error _ => none
      | .ok (_, senderProto, _) => some senderProto.id
  | _ => none

/-- What a request writes to the challenges: a bootstrap sets the one of its
sender, a resolution clears it. -/
def challengeEffect (difficulty : Nat) (r : ServerRequest) :
    Option (String × Option (U256 × Nat × Int)) :=
  (requester libs r).map fun sender =>
    (sender, match r.rpc with
      | .bootstrap => some (r.inputs.challenge, difficulty, r.inputs.now + 600000)
      | _ => none)

/-- The server after a history of requests. -/
def Server.handleAll (server : Server) (history : List ServerRequest) : Server :=
  history.foldl (fun server r => server.handle libs r.rpc r.inputs r.message) server

/-- `r` is the last request of the sender in the history, and a bootstrap. -/
def LastBootstrap (sender : String) (history : List ServerRequest) (r : ServerRequest) : Prop :=
  ∃ before after, history = before ++ r :: after ∧ r.rpc = .bootstrap ∧
    requester libs r = some sender ∧ ∀ r' ∈ after, requester libs r' ≠ some sender

variable {libs}

theorem about_challengeEffect (difficulty : Nat) (r : ServerRequest) :
    KeyedLog.about (challengeEffect libs difficulty) r = requester libs r := by
  simp [KeyedLog.about, challengeEffect, Function.comp_def]

theorem challengeEffect_eq_some {difficulty : Nat} {r : ServerRequest} {sender : String}
    {challenge : U256 × Nat × Int} :
    challengeEffect libs difficulty r = some (sender, some challenge) ↔
      r.rpc = .bootstrap ∧ requester libs r = some sender ∧
        challenge = (r.inputs.challenge, difficulty, r.inputs.now + 600000) := by
  unfold challengeEffect
  cases hsender : requester libs r with
  | none => simp
  | some id =>
    cases hrpc : r.rpc with
    | bootstrap => simp [eq_comm]
    | _ => simp

namespace Server

/-- **What a request does to the challenges.** -/
theorem handle_challengesMap (server : Server) (r : ServerRequest) :
    (server.handle libs r.rpc r.inputs r.message).challengesMap =
      KeyedLog.write (challengeEffect libs server.host.node.config.challengeDifficulty)
        server.challengesMap r := by
  obtain ⟨rpc, inputs, message⟩ := r
  unfold KeyedLog.write challengeEffect requester
  cases rpc with
  | ping =>
    simp only [handle, ping]
    split <;> rfl
  | bootstrap =>
    simp only [handle, bootstrap]
    cases openRequest libs libs.prost.bootstrapRequest message with
    | error status => rfl
    | ok opened => rfl
  | challengeResolution =>
    simp only [handle, challengeResolution]
    cases openRequest libs libs.prost.challengeResolutionRequest message with
    | error status => rfl
    | ok opened =>
      obtain ⟨payload, senderProto, sender⟩ := opened
      simp only [Option.map_some]
      split
      · rfl
      · -- There is nothing to clear.
        rename_i hnone
        exact (Function.update_eq_self_iff.mpr hnone.symm).symm
  | store =>
    simp only [handle, store]
    split
    · rfl
    · split
      · rfl
      · split
        · rfl
        · simp only [storeDecoded]
          split <;> rfl
  | findNode =>
    simp only [handle, findNode]
    split
    · rfl
    · split <;> rfl
  | findValue =>
    simp only [handle, findValue]
    split
    · rfl
    · split <;> rfl

theorem handle_config (server : Server) (r : ServerRequest) :
    (server.handle libs r.rpc r.inputs r.message).host.node.config = server.host.node.config := by
  rcases server.handle_host libs r.rpc r.inputs r.message with
    ⟨auction, _, _, hhost⟩ | ⟨sender, _, _, hhost⟩ | ⟨_, _, hhost⟩
  · rw [hhost, Host.config_storeAuction]
  · rw [hhost]
    rfl
  · rw [hhost]

theorem handleAll_concat (server : Server) (history : List ServerRequest) (r : ServerRequest) :
    server.handleAll libs (history ++ [r]) =
      (server.handleAll libs history).handle libs r.rpc r.inputs r.message := by
  simp [handleAll]

/-- Requests change neither who the node is nor its configuration. -/
theorem handleAll_node (libs : Libraries) (server : Server) (history : List ServerRequest) :
    (server.handleAll libs history).host.node.nodeInfo = server.host.node.nodeInfo ∧
      (server.handleAll libs history).host.node.config = server.host.node.config := by
  induction history using List.reverseRecOn with
  | nil => exact ⟨rfl, rfl⟩
  | append_singleton history r ih =>
    rw [handleAll_concat]
    exact ⟨((handleAll libs server history).handle_routingTable libs r.rpc r.inputs
        r.message).2.trans ih.1, (handle_config _ r).trans ih.2⟩

/-- **The challenges of a server are a log of its requests.** -/
theorem handleAll_challengesMap (server : Server) (history : List ServerRequest) :
    (server.handleAll libs history).challengesMap =
      KeyedLog.replay (challengeEffect libs server.host.node.config.challengeDifficulty)
        server.challengesMap history := by
  induction history using List.reverseRecOn with
  | nil => rfl
  | append_singleton history r ih =>
    rw [handleAll_concat, handle_challengesMap, (handleAll_node libs server history).2, ih,
      KeyedLog.replay_concat]

end Server

end Log

/-! ## Acceptance -/

section Acceptance

variable {libs : Libraries}

/-- The challenge that a server just started keeps for a sender: the one of
its last request, if that was a bootstrap. -/
theorem handleAll_challenge (host : Host) (history : List ServerRequest) (sender : String)
    (challenge : U256 × Nat × Int) :
    ((Server.new host).handleAll libs history).challengesMap sender = some challenge ↔
      ∃ r, LastBootstrap libs sender history r ∧
        challenge = (r.inputs.challenge, host.node.config.challengeDifficulty,
          r.inputs.now + 600000) := by
  rw [Server.handleAll_challengesMap, KeyedLog.replay_eq_some_iff rfl]
  simp only [about_challengeEffect, challengeEffect_eq_some, LastBootstrap]
  constructor
  · rintro ⟨before, r, after, hhistory, ⟨hrpc, hsender, hchallenge⟩, hlast⟩
    exact ⟨r, ⟨before, after, hhistory, hrpc, hsender, hlast⟩, hchallenge⟩
  · rintro ⟨r, ⟨before, after, hhistory, hrpc, hsender, hlast⟩, hchallenge⟩
    exact ⟨before, r, after, hhistory, ⟨hrpc, hsender, hchallenge⟩, hlast⟩

/-- The server's check is that of the client's search, before the challenge
expires. -/
theorem Server.solves_iff {crates : Crates} {hash : U256} {difficulty nonce : Nat}
    {expiration now : Int} :
    solves crates (hash, difficulty, expiration) nonce now = true ↔
      now ≤ expiration ∧ SolvesWork crates (toString hash.toNat) difficulty nonce := by
  unfold solves SolvesWork
  simp only
  split
  · simp only [Bool.false_eq_true, false_iff]
    omega
  · simp only [decide_eq_true_eq]
    exact ⟨fun h => ⟨by omega, h⟩, fun h => h.2⟩

theorem Server.challengeResolution_reply {server : Server} {inputs : Inputs}
    {request : AuthenticatedMessage} {payload : ChallengeResolutionRequest}
    {senderProto : NodeInformation} {sender : NodeInfo}
    (hopen : openRequest libs libs.prost.challengeResolutionRequest request =
      .ok (payload, senderProto, sender)) :
    (server.challengeResolution libs inputs request).reply =
      server.signReply libs libs.prost.challengeResolutionResponse
        { accepted := (server.challengesMap senderProto.id).any
            fun challenge => solves libs.toCrates challenge payload.nonce inputs.now } := by
  simp only [challengeResolution, hopen]
  split
  · rename_i challenge hchallenge
    rw [hchallenge]
    rfl
  · rename_i hnone
    rw [hnone]
    rfl

/-- Who signs a reply is all that it takes from the server. -/
theorem Server.signReply_congr {server server' : Server} {α : Type} {codec : Codec α} {response : α}
    (hinfo : server'.host.node.nodeInfo = server.host.node.nodeInfo)
    (hconfig : server'.host.node.config = server.host.node.config) :
    server'.signReply libs codec response = server.signReply libs codec response := by
  unfold signReply
  rw [hinfo, hconfig]

/-- The check against the challenge that is kept, over the history. -/
theorem any_solves_iff (host : Host) (history : List ServerRequest) (sender : String)
    (nonce : Nat) (now : Int) :
    (((Server.new host).handleAll libs history).challengesMap sender).any
        (fun challenge => Server.solves libs.toCrates challenge nonce now) = true ↔
      ∃ r, LastBootstrap libs sender history r ∧ now ≤ r.inputs.now + 600000 ∧
        SolvesWork libs.toCrates (toString r.inputs.challenge.toNat)
          host.node.config.challengeDifficulty nonce := by
  rw [Option.any_eq_true]
  constructor
  · rintro ⟨challenge, hkept, hsolves⟩
    obtain ⟨r, hlast, rfl⟩ := (handleAll_challenge host history sender challenge).mp hkept
    exact ⟨r, hlast, Server.solves_iff.mp hsolves⟩
  · rintro ⟨r, hlast, hsolves⟩
    exact ⟨_, (handleAll_challenge host history sender _).mpr ⟨r, hlast, rfl⟩,
      Server.solves_iff.mpr hsolves⟩

/-- The challenge of a sender depends on that sender's requests only. -/
theorem handleAll_challenge_congr (host : Host) {history history' : List ServerRequest}
    {sender : String}
    (hsame : (history'.filter fun r => requester libs r = some sender) =
      (history.filter fun r => requester libs r = some sender)) :
    ((Server.new host).handleAll libs history').challengesMap sender =
      ((Server.new host).handleAll libs history).challengesMap sender := by
  rw [Server.handleAll_challengesMap, Server.handleAll_challengesMap, ← KeyedLog.replay_filter,
    ← KeyedLog.replay_filter sender history]
  simp only [about_challengeEffect, hsame]

/-- The challenge is sent as the text that the server hashes, with the
difficulty it asks for. -/
theorem Server.bootstrap_response {server : Server} {inputs : Inputs}
    {request : AuthenticatedMessage} {signed : Signed BootstrapResponse}
    (h : (server.bootstrap libs inputs request).reply = .ok signed) :
    signed.response =
      { hash := toString inputs.challenge.toNat
        difficulty := server.host.node.config.challengeDifficulty } := by
  unfold bootstrap at h
  split at h
  · cases h
  · simp only [answer, signReply] at h
    split at h
    · cases h
    · rw [← Except.ok.inj h]

/-- **Acceptance is exact**: a verified answer is accepted if and only if the
last request of its sender was a bootstrap, no more than ten minutes ago, and
the nonce solves its challenge; the requests of others change nothing; and
what `proof_of_work` returns for the challenge as it was sent solves it. -/
theorem challenge_acceptance (libs : Libraries) (host : Host) (history : List ServerRequest)
    (inputs : Inputs) (request : AuthenticatedMessage) {payload : ChallengeResolutionRequest}
    {senderProto : NodeInformation} {sender : NodeInfo}
    (hopen : Server.openRequest libs libs.prost.challengeResolutionRequest request =
      .ok (payload, senderProto, sender)) :
    (∃ accepted,
      (((Server.new host).handleAll libs history).challengeResolution libs inputs request).reply =
        ((Server.new host).handleAll libs history).signReply libs
          libs.prost.challengeResolutionResponse { accepted } ∧
      (accepted = true ↔ ∃ r, LastBootstrap libs senderProto.id history r ∧
        inputs.now ≤ r.inputs.now + 600000 ∧
        host.node.config.challengeDifficulty ≤ leadingZeros
          (hashStr libs.toCrates (toString r.inputs.challenge.toNat ++ toString payload.nonce)))) ∧
    (∀ history',
      (history'.filter fun r => requester libs r = some senderProto.id) =
          (history.filter fun r => requester libs r = some senderProto.id) →
        (((Server.new host).handleAll libs history').challengeResolution libs inputs
            request).reply =
          (((Server.new host).handleAll libs history).challengeResolution libs inputs
            request).reply) ∧
    ∀ (earlier : List ServerRequest) (r : ServerRequest) (signed : Signed BootstrapResponse)
      (nonce : Nat),
      (((Server.new host).handleAll libs earlier).bootstrap libs r.inputs r.message).reply =
          .ok signed →
        (∃ fuel, proofOfWork libs.toCrates signed.response.hash signed.response.difficulty fuel =
          some nonce) →
        host.node.config.challengeDifficulty ≤ leadingZeros
          (hashStr libs.toCrates (toString r.inputs.challenge.toNat ++ toString nonce)) := by
  refine ⟨⟨_, Server.challengeResolution_reply hopen, any_solves_iff host history _ _ _⟩,
    fun history' hsame => ?_, fun earlier r signed nonce hreply hfound => ?_⟩
  · obtain ⟨hinfo, hconfig⟩ := Server.handleAll_node libs (Server.new host) history
    obtain ⟨hinfo', hconfig'⟩ := Server.handleAll_node libs (Server.new host) history'
    rw [Server.challengeResolution_reply hopen, Server.challengeResolution_reply hopen,
      handleAll_challenge_congr host hsame]
    exact Server.signReply_congr (hinfo'.trans hinfo.symm) (hconfig'.trans hconfig.symm)
  · rw [Server.bootstrap_response hreply, (Server.handleAll_node libs (Server.new host) earlier).2]
      at hfound
    exact (proofOfWork_eq_some_iff.mp hfound).2.1

end Acceptance

/-! The stranger of `JoinTheorems` asks for a challenge and answers it. -/

def introduction : ServerRequest where
  rpc := .bootstrap
  inputs := sampleInputs
  message := lookup.message

/-- Where messages are verified like those of the stranger, so are these. -/
theorem openRequest_stranger {α : Type} {codec : Codec α} (payload : α)
    (h : codec.decode [] = .ok payload) :
    Server.openRequest lookupLibraries codec lookup.message =
      .ok (payload, stranger.toInformation, stranger) :=
  Server.openRequest_eq_ok.mpr ⟨rfl, rfl, rfl, rfl, h⟩

theorem lastBootstrap_introduction :
    LastBootstrap lookupLibraries stranger.toInformation.id [introduction] introduction := by
  refine ⟨[], [], rfl, rfl, ?_, fun r hr => absurd hr List.not_mem_nil⟩
  have hopen : Server.openRequest lookupLibraries lookupLibraries.prost.bootstrapRequest
      lookup.message = .ok ({}, stranger.toInformation, stranger) := openRequest_stranger _ rfl
  simp [requester, introduction, hopen]

theorem challenge_acceptance_stranger :
    (((Server.new sampleHost).handleAll lookupLibraries [introduction]).challengeResolution
        lookupLibraries sampleInputs lookup.message).reply =
      ((Server.new sampleHost).handleAll lookupLibraries [introduction]).signReply lookupLibraries
        lookupLibraries.prost.challengeResolutionResponse { accepted := true } := by
  obtain ⟨⟨accepted, hreply, haccepted⟩, _⟩ := challenge_acceptance lookupLibraries sampleHost
    [introduction] sampleInputs lookup.message (openRequest_stranger { nonce := 0 } rfl)
  obtain rfl : accepted = true :=
    haccepted.mpr ⟨introduction, lastBootstrap_introduction, by decide, by decide +kernel⟩
  exact hreply

end KademliaAuction
