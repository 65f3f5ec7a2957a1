/-
KademliaAuction.GRpc.Joining — joining the network (`join_network` of
`src/g_rpc/client.rs`).

A client asks the bootstrap node for a challenge, solves it and sends the
answer, and tries again, up to a number of times, when one of the calls fails
or the answer is rejected. When it gives up the process exits. An `Attempt`
has the two connections of one try; a `Round` is a try against a server that
handles the requests of others in between.

A try is accepted, or has failed, or is hopeless: the challenge has no
solution, and the proof of work never ends. `join_outcome` says how joining
ends: with the first try that is accepted, with the exit of the process when
all have failed, or never, when a hopeless one comes first. A round that no
request of the same sender disturbs, and that takes ten minutes at most, is
accepted, whatever the other clients send meanwhile.
-/
import KademliaAuction.GRpc.Calls
import KademliaAuction.GRpc.ChallengeTheorems
import KademliaAuction.GRpc.Discovery

namespace KademliaAuction

open Blockchain Proto Routing Lib

/-- The connections of one try: to ask for a challenge and to answer it. -/
structure Attempt where
  bootstrap : Link
  resolution : Link

/-- How `join_network` ends: it returns, leaving the node as it is then, or
the process exits. -/
inductive JoinEnd where
  | joined (node : Node)
  | exited

section Client

variable (libs : Libraries) (node : Node)

/-- One round of the loop: the node that has accepted the answer, or `none`
where the round has failed. The outer `none` is a proof of work that has not
been found within the fuel. -/
def attemptJoin (attempt : Attempt) (fuel : Nat) : Option (Option NodeInfo) :=
  let ip := node.config.bootstrapPeerIp
  let port := node.config.bootstrapPeerPort
  match Client.bootstrap libs node ip port attempt.bootstrap with
  | .error _ => some none
  | .ok (challengeHashString, difficulty) =>
      match proofOfWork libs.toCrates challengeHashString difficulty fuel with
      | none => none
      | some challengeSolution =>
          match Client.challengeResolution libs node ip port attempt.resolution challengeSolution with
          | .ok (true, bootstrapNodeInfo) => some (some bootstrapNodeInfo)
          | .ok (false, _) => some none
          | .error _ => some none

/-- What follows an accepted answer: the bootstrap node goes into the routing
table, and a peer that stays looks for neighbours. -/
def enterNetwork (discoverPeers : Bool) (discovery : NodeInfo → Link) (fuel : Nat)
    (bootstrapNodeInfo : NodeInfo) : Option JoinEnd :=
  let node := node.insertNodeToRoutingTable bootstrapNodeInfo
  if discoverPeers then
    (Discovery.iterativeFindNode (fun n => Client.findNode libs node n.ip n.port (discovery n)
      node.nodeInfo.id) node.nodeInfo.id node fuel).map fun s => .joined s.node
  else some (.joined node)

/-- The `for` loop: the tries that are left, and their connections. -/
def joinLoop (discoverPeers : Bool) (discovery : NodeInfo → Link) (fuel : Nat) :
    Nat → (Nat → Attempt) → Option JoinEnd
  | 0, _ => some .exited
  | n + 1, attempts =>
      match attemptJoin libs node (attempts 0) fuel with
      | none => none
      | some none => joinLoop discoverPeers discovery fuel n fun i => attempts (i + 1)
      | some (some bootstrapNodeInfo) =>
          enterNetwork libs node discoverPeers discovery fuel bootstrapNodeInfo

/-- `join_network`. The bootstrap node has nobody to join. -/
def joinNetwork (discoverPeers : Bool) (nMaxRetries : Nat) (attempts : Nat → Attempt)
    (discovery : NodeInfo → Link) (fuel : Nat) : Option JoinEnd :=
  if node.nodeInfo.port = node.config.bootstrapPeerPort then some (.joined node)
  else joinLoop libs node discoverPeers discovery fuel nMaxRetries attempts

/-! ## What a try comes to -/

namespace Attempt

variable (attempt : Attempt)

/-- The challenge that the try is given. -/
def challenge : Except String (String × Nat) :=
  Client.bootstrap libs node node.config.bootstrapPeerIp node.config.bootstrapPeerPort
    attempt.bootstrap

/-- What becomes of a nonce. -/
def judgement (nonce : Nat) : Except String (Bool × NodeInfo) :=
  Client.challengeResolution libs node node.config.bootstrapPeerIp node.config.bootstrapPeerPort
    attempt.resolution nonce

/-- The try is given a challenge, and this is the nonce that is found. -/
def Solves (nonce : Nat) : Prop :=
  ∃ hash difficulty, attempt.challenge libs node = .ok (hash, difficulty) ∧
    IsLeast {nonce | nonce < 2 ^ 64 ∧ SolvesWork libs.toCrates hash difficulty nonce} nonce

/-- The nonce is accepted, by this node. -/
def Accepted (info : NodeInfo) : Prop :=
  ∃ nonce, attempt.Solves libs node nonce ∧ attempt.judgement libs node nonce = .ok (true, info)

/-- One of the calls has failed, or the nonce is rejected. -/
def Failed : Prop :=
  (∃ e, attempt.challenge libs node = .error e) ∨
    ∃ nonce, attempt.Solves libs node nonce ∧
      ∀ info, attempt.judgement libs node nonce ≠ .ok (true, info)

/-- The try is given a challenge that no nonce solves. -/
def Hopeless : Prop :=
  ∃ hash difficulty, attempt.challenge libs node = .ok (hash, difficulty) ∧
    ∀ nonce < 2 ^ 64, ¬ SolvesWork libs.toCrates hash difficulty nonce

end Attempt

variable {libs node}

theorem proofOfWork_mono {crates : Crates} {input : String} {difficulty nonce fuel fuel' : Nat}
    (hle : fuel ≤ fuel') (h : proofOfWork crates input difficulty fuel = some nonce) :
    proofOfWork crates input difficulty fuel' = some nonce := by
  rw [proofOfWork, workFrom_eq_loop] at h ⊢
  exact Loop.loop_mono hle h

namespace Attempt

variable {attempt : Attempt} {nonce : Nat}

/-- After the challenge and its solution, the try is decided. -/
theorem Solves.attemptJoin_eq (h : attempt.Solves libs node nonce) :
    ∃ enough, ∀ fuel, enough ≤ fuel → attemptJoin libs node attempt fuel =
      match attempt.judgement libs node nonce with
      | .ok (true, bootstrapNodeInfo) => some (some bootstrapNodeInfo)
      | .ok (false, _) => some none
      | .error _ => some none := by
  obtain ⟨hash, difficulty, hchallenge, hleast⟩ := h
  obtain ⟨enough, hfound⟩ := proofOfWork_isLeast_iff.mpr hleast
  refine ⟨enough, fun fuel hfuel => ?_⟩
  unfold attemptJoin
  dsimp only
  rw [show Client.bootstrap libs node _ _ attempt.bootstrap = _ from hchallenge]
  dsimp only
  rw [proofOfWork_mono hfuel hfound]
  rfl

theorem Accepted.settles {info : NodeInfo} (h : attempt.Accepted libs node info) :
    Loop.Settles (attemptJoin libs node attempt) (some info) := by
  obtain ⟨nonce, hsolves, hjudgement⟩ := h
  obtain ⟨enough, hends⟩ := hsolves.attemptJoin_eq
  refine ⟨enough, fun fuel hfuel => ?_⟩
  rw [hends fuel hfuel, hjudgement]

theorem Failed.settles (h : attempt.Failed libs node) :
    Loop.Settles (attemptJoin libs node attempt) none := by
  rcases h with ⟨e, hchallenge⟩ | ⟨nonce, hsolves, hjudgement⟩
  · refine Loop.settles_const fun fuel => ?_
    unfold attemptJoin
    dsimp only
    rw [show Client.bootstrap libs node _ _ attempt.bootstrap = _ from hchallenge]
  · obtain ⟨enough, hends⟩ := hsolves.attemptJoin_eq
    refine ⟨enough, fun fuel hfuel => ?_⟩
    rw [hends fuel hfuel]
    cases hjudged : attempt.judgement libs node nonce with
    | error e => rfl
    | ok judged =>
      obtain ⟨accepted, info⟩ := judged
      cases accepted with
      | false => rfl
      | true => exact absurd hjudged (hjudgement info)

theorem Hopeless.attemptJoin_eq (h : attempt.Hopeless libs node) (fuel : Nat) :
    attemptJoin libs node attempt fuel = none := by
  obtain ⟨hash, difficulty, hchallenge, hunsolved⟩ := h
  have hwork : proofOfWork libs.toCrates hash difficulty fuel = none := by
    cases hfound : proofOfWork libs.toCrates hash difficulty fuel with
    | none => rfl
    | some nonce =>
      obtain ⟨hlt, hsolves, _⟩ := proofOfWork_eq_some_iff.mp ⟨fuel, hfound⟩
      exact absurd hsolves (hunsolved nonce hlt)
  unfold attemptJoin
  dsimp only
  rw [show Client.bootstrap libs node _ _ attempt.bootstrap = _ from hchallenge]
  dsimp only
  rw [hwork]

/-- There is nothing else that can become of a try. -/
theorem cases (libs : Libraries) (node : Node) (attempt : Attempt) :
    (∃ info, attempt.Accepted libs node info) ∨ attempt.Failed libs node ∨
      attempt.Hopeless libs node := by
  cases hchallenge : attempt.challenge libs node with
  | error e => exact Or.inr (Or.inl (Or.inl ⟨e, hchallenge⟩))
  | ok challenge =>
    obtain ⟨hash, difficulty⟩ := challenge
    by_cases hsolved : ∃ nonce < 2 ^ 64, SolvesWork libs.toCrates hash difficulty nonce
    · obtain ⟨fuel, nonce, hfound⟩ := exists_proofOfWork_iff.mpr hsolved
      have hsolves : attempt.Solves libs node nonce :=
        ⟨hash, difficulty, hchallenge, proofOfWork_isLeast_iff.mp ⟨fuel, hfound⟩⟩
      by_cases haccepted : ∃ info, attempt.judgement libs node nonce = .ok (true, info)
      · obtain ⟨info, hjudgement⟩ := haccepted
        exact Or.inl ⟨info, nonce, hsolves, hjudgement⟩
      · exact Or.inr (Or.inl (Or.inr ⟨nonce, hsolves, fun info h => haccepted ⟨info, h⟩⟩))
    · exact Or.inr (Or.inr ⟨hash, difficulty, hchallenge,
        fun nonce hlt hsolves => hsolved ⟨nonce, hlt, hsolves⟩⟩)

end Attempt

/-! ## The loop -/

section Loop

variable {discoverPeers : Bool} {discovery : NodeInfo → Link} {n : Nat} {attempts : Nat → Attempt}

/-- Failed tries are passed over. -/
theorem joinLoop_of_failed {i : Nat} (hi : i ≤ n)
    (h : ∀ j < i, (attempts j).Failed libs node) : ∃ enough, ∀ fuel, enough ≤ fuel →
      joinLoop libs node discoverPeers discovery fuel n attempts =
        joinLoop libs node discoverPeers discovery fuel (n - i) fun j => attempts (i + j) := by
  induction i generalizing n attempts with
  | zero => exact ⟨0, fun fuel _ => by simp only [Nat.sub_zero, Nat.zero_add]⟩
  | succ i ih =>
    obtain ⟨left, rfl⟩ : ∃ left, n = left + 1 := ⟨n - 1, by omega⟩
    obtain ⟨enough, hfirst⟩ := (h 0 (by omega)).settles
    obtain ⟨enough', hrest⟩ := @ih left (fun j => attempts (j + 1)) (by omega)
      fun j hj => h (j + 1) (by omega)
    refine ⟨max enough enough', fun fuel hfuel => ?_⟩
    have hshift : (fun j => attempts (i + j + 1)) = fun j => attempts (i + 1 + j) := by
      funext j
      rw [Nat.add_right_comm]
    rw [joinLoop, hfirst fuel (by omega)]
    dsimp only
    rw [hrest fuel (by omega), Nat.add_sub_add_right, hshift]

theorem enterNetwork_ne_exited {fuel : Nat} {info : NodeInfo} :
    enterNetwork libs node discoverPeers discovery fuel info ≠ some .exited := by
  unfold enterNetwork
  dsimp only
  split
  · intro h
    obtain ⟨_, _, hend⟩ := Option.map_eq_some_iff.mp h
    cases hend
  · exact fun h => by cases h

/-- The first try that has not failed decides. -/
theorem joinLoop_of_accepted {i : Nat} (hi : i < n)
    (hbefore : ∀ j < i, (attempts j).Failed libs node) {info : NodeInfo}
    (h : (attempts i).Accepted libs node info) : ∃ enough, ∀ fuel, enough ≤ fuel →
      joinLoop libs node discoverPeers discovery fuel n attempts =
        enterNetwork libs node discoverPeers discovery fuel info := by
  obtain ⟨enough, hpassed⟩ := @joinLoop_of_failed libs node discoverPeers discovery n attempts i
    hi.le hbefore
  obtain ⟨enough', hsettled⟩ := h.settles
  refine ⟨max enough enough', fun fuel hfuel => ?_⟩
  obtain ⟨left, hleft⟩ : ∃ left, n - i = left + 1 := ⟨n - i - 1, by omega⟩
  rw [hpassed fuel (by omega), hleft, joinLoop, Nat.add_zero, hsettled fuel (by omega)]

theorem joinLoop_of_hopeless {i : Nat} (hi : i < n)
    (hbefore : ∀ j < i, (attempts j).Failed libs node)
    (h : (attempts i).Hopeless libs node) : ∃ enough, ∀ fuel, enough ≤ fuel →
      joinLoop libs node discoverPeers discovery fuel n attempts = none := by
  obtain ⟨enough, hpassed⟩ := @joinLoop_of_failed libs node discoverPeers discovery n attempts i
    hi.le hbefore
  refine ⟨enough, fun fuel hfuel => ?_⟩
  obtain ⟨left, hleft⟩ : ∃ left, n - i = left + 1 := ⟨n - i - 1, by omega⟩
  rw [hpassed fuel hfuel, hleft, joinLoop, Nat.add_zero, h.attemptJoin_eq fuel]

/-- The process exits exactly if all tries have failed. -/
theorem joinLoop_exited_iff :
    Loop.Settles (fun fuel => joinLoop libs node discoverPeers discovery fuel n attempts) .exited ↔
      ∀ i < n, (attempts i).Failed libs node := by
  constructor
  · intro hexited i
    induction i using Nat.strongRecOn with
    | ind i ih =>
      intro hi
      have hbefore : ∀ j < i, (attempts j).Failed libs node := fun j hj => ih j hj (hj.trans hi)
      obtain ⟨enough, hends⟩ := hexited
      rcases (attempts i).cases libs node with ⟨info, haccepted⟩ | hfailed | hhopeless
      · obtain ⟨enough', hjoined⟩ := @joinLoop_of_accepted libs node discoverPeers discovery n
          attempts i hi hbefore info haccepted
        have hleft := hends (max enough enough') (by omega)
        dsimp only at hleft
        rw [hjoined _ (by omega)] at hleft
        exact absurd hleft enterNetwork_ne_exited
      · exact hfailed
      · obtain ⟨enough', hnever⟩ := @joinLoop_of_hopeless libs node discoverPeers discovery n
          attempts i hi hbefore hhopeless
        have hleft := hends (max enough enough') (by omega)
        dsimp only at hleft
        rw [hnever _ (by omega)] at hleft
        cases hleft
  · intro hfailed
    obtain ⟨enough, hpassed⟩ := @joinLoop_of_failed libs node discoverPeers discovery n attempts n
      le_rfl hfailed
    refine ⟨enough, fun fuel hfuel => ?_⟩
    dsimp only
    rw [hpassed fuel hfuel, Nat.sub_self, joinLoop]

end Loop

end Client

/-! ## Tries against a server -/

/-- A try against a server: the server that hands out the challenge and what
it takes from outside, the requests it handles before the answer arrives, and
what it takes from outside then. -/
structure Round where
  server : Server
  introduction : Inputs
  between : List ServerRequest
  answer : Inputs

namespace Round

variable (libs : Libraries) (node : Node) (r : Round)

/-- The request for a challenge, if it can be signed. -/
def introductions : List ServerRequest :=
  node.request libs .bootstrap r.introduction libs.prost.bootstrapRequest {}

/-- The server when the answer arrives. -/
def waiting : Server := r.server.handleAll libs (r.introductions libs node ++ r.between)

def attempt : Attempt where
  bootstrap := r.server.link libs .bootstrap r.introduction
  resolution := (r.waiting libs node).link libs .challengeResolution r.answer

/-- The server accepts this nonce. -/
def accepts (nonce : Nat) : Bool :=
  (r.waiting libs node).wouldAccept libs.toCrates node.nodeInfo.id nonce r.answer.now

/-- The nonce is the one that `proof_of_work` looks for. -/
def IsSolution (nonce : Nat) : Prop :=
  IsLeast {nonce | nonce < 2 ^ 64 ∧ SolvesWork libs.toCrates
    (toString r.introduction.challenge.toNat) r.server.host.node.config.challengeDifficulty nonce}
    nonce

/-- In between there is no verified bootstrap or answer of the same id, and
the answer comes within ten minutes. -/
structure Undisturbed : Prop where
  others : ∀ q ∈ r.between, requester libs q ≠ some node.nodeInfo.id.toStr
  inTime : r.answer.now ≤ r.introduction.now + 600000

end Round

section Rounds

variable {libs : Libraries} {node : Node} {r : Round}

/-- Requests do not change the keys. -/
theorem Server.Serves.handleAll {server : Server} (h : server.Serves libs node)
    (requests : List ServerRequest) : (server.handleAll libs requests).Serves libs node := by
  obtain ⟨hinfo, hconfig⟩ := handleAll_node libs server requests
  exact ⟨h.proto3, h.client, h.server.congr hinfo hconfig⟩

/-- The first request of a round is one for a challenge, by the node. -/
theorem Round.introductions_eq (h : r.server.Serves libs node) : ∃ q : ServerRequest,
    r.introductions libs node = [q] ∧ q.rpc = .bootstrap ∧ q.inputs = r.introduction ∧
      requester libs q = some node.nodeInfo.id.toStr := by
  obtain ⟨own, hown, hopen⟩ := @Server.request_eq _ _ _ .bootstrapRequest h {}
    PayloadType.isValue_bootstrapRequest .bootstrap r.introduction
  refine ⟨{ rpc := .bootstrap, inputs := r.introduction, message := own }, hown, rfl, rfl, ?_⟩
  unfold requester
  dsimp only
  rw [show Server.openRequest libs libs.prost.bootstrapRequest own = _ from hopen]
  rfl

/-- **When the answer is accepted**: the last request of the node's id is one
for a challenge, not more than ten minutes ago, and the nonce solves it. -/
theorem Round.accepts_iff (h : r.server.Serves libs node) {nonce : Nat} :
    r.accepts libs node nonce = true ↔
      ∃ q, LastBootstrap libs node.nodeInfo.id.toStr (r.introductions libs node ++ r.between) q ∧
        r.answer.now ≤ q.inputs.now + 600000 ∧
        SolvesWork libs.toCrates (toString q.inputs.challenge.toNat)
          r.server.host.node.config.challengeDifficulty nonce := by
  obtain ⟨q, hq, hrpc, _, hrequester⟩ := r.introductions_eq h
  -- What was kept for the node before is overwritten.
  have hkept : (r.waiting libs node).challengesMap node.nodeInfo.id.toStr =
      KeyedLog.replay (challengeEffect libs r.server.host.node.config.challengeDifficulty)
        (fun _ => none) (r.introductions libs node ++ r.between) node.nodeInfo.id.toStr := by
    rw [waiting, Server.handleAll_challengesMap, hq]
    refine KeyedLog.replay_congr ?_ r.between
    have heffect : challengeEffect libs r.server.host.node.config.challengeDifficulty q =
        some (node.nodeInfo.id.toStr, some _) :=
      challengeEffect_eq_some.mpr ⟨hrpc, hrequester, rfl⟩
    rw [KeyedLog.write_of_about heffect, KeyedLog.write_of_about heffect]
  have hlast : ∀ challenge, (r.waiting libs node).challengesMap node.nodeInfo.id.toStr =
      some challenge ↔ ∃ q, LastBootstrap libs node.nodeInfo.id.toStr
        (r.introductions libs node ++ r.between) q ∧
        challenge = (q.inputs.challenge, r.server.host.node.config.challengeDifficulty,
          q.inputs.now + 600000) := by
    intro challenge
    rw [hkept, KeyedLog.replay_eq_some_iff rfl]
    simp only [about_challengeEffect, challengeEffect_eq_some, LastBootstrap]
    constructor
    · rintro ⟨before, q, after, hsplit, ⟨hrpc, hsender, hchallenge⟩, hlast⟩
      exact ⟨q, ⟨before, after, hsplit, hrpc, hsender, hlast⟩, hchallenge⟩
    · rintro ⟨q, ⟨before, after, hsplit, hrpc, hsender, hlast⟩, hchallenge⟩
      exact ⟨before, q, after, hsplit, ⟨hrpc, hsender, hchallenge⟩, hlast⟩
  unfold accepts Server.wouldAccept
  rw [Option.any_eq_true]
  constructor
  · rintro ⟨challenge, hchallenge, hsolves⟩
    obtain ⟨q, hq, rfl⟩ := (hlast challenge).mp hchallenge
    exact ⟨q, hq, Server.solves_iff.mp hsolves⟩
  · rintro ⟨q, hq, hsolves⟩
    exact ⟨_, (hlast _).mpr ⟨q, hq, rfl⟩, Server.solves_iff.mpr hsolves⟩

/-- An undisturbed round is accepted. -/
theorem Round.accepts_of_undisturbed (h : r.server.Serves libs node) {nonce : Nat}
    (hsolution : r.IsSolution libs nonce) (hundisturbed : r.Undisturbed libs node) :
    r.accepts libs node nonce = true := by
  obtain ⟨q, hq, hrpc, hinputs, hrequester⟩ := r.introductions_eq h
  refine (r.accepts_iff h).mpr ⟨q, ⟨[], r.between, by rw [hq]; rfl, hrpc, hrequester,
    hundisturbed.others⟩, ?_, ?_⟩
  · rw [hinputs]
    exact hundisturbed.inTime
  · rw [hinputs]
    exact hsolution.1.2

theorem Round.challenge_eq (h : r.server.Serves libs node)
    (hdifficulty : r.server.host.node.config.challengeDifficulty < 2 ^ 32) :
    (r.attempt libs node).challenge libs node =
      .ok (toString r.introduction.challenge.toNat,
        r.server.host.node.config.challengeDifficulty) :=
  Client.bootstrap_link h _ _ _ hdifficulty

theorem Round.judgement_eq (h : r.server.Serves libs node) {nonce : Nat} (hnonce : nonce < 2 ^ 64) :
    (r.attempt libs node).judgement libs node nonce =
      .ok (r.accepts libs node nonce, r.server.host.node.nodeInfo) := by
  have hwaiting : (r.waiting libs node).Serves libs node := h.handleAll _
  have hinfo : (r.waiting libs node).host.node.nodeInfo = r.server.host.node.nodeInfo :=
    (Server.handleAll_node libs r.server _).1
  unfold Attempt.judgement attempt
  dsimp only
  rw [Client.challengeResolution_link hwaiting _ _ _ hnonce, hinfo]
  rfl

section Solved

variable (h : r.server.Serves libs node)
  (hdifficulty : r.server.host.node.config.challengeDifficulty < 2 ^ 32) {nonce : Nat}
  (hsolution : r.IsSolution libs nonce)

include h hdifficulty hsolution

theorem Round.solves_iff (other : Nat) :
    (r.attempt libs node).Solves libs node other ↔ other = nonce := by
  unfold Attempt.Solves
  rw [r.challenge_eq h hdifficulty]
  constructor
  · rintro ⟨hash, difficulty, hchallenge, hleast⟩
    obtain ⟨rfl, rfl⟩ := Prod.mk.inj (Except.ok.inj hchallenge)
    exact hleast.unique hsolution
  · rintro rfl
    exact ⟨_, _, rfl, hsolution⟩

theorem Round.accepted_iff (info : NodeInfo) :
    (r.attempt libs node).Accepted libs node info ↔
      r.accepts libs node nonce = true ∧ info = r.server.host.node.nodeInfo := by
  unfold Attempt.Accepted
  simp only [r.solves_iff h hdifficulty hsolution, exists_eq_left,
    r.judgement_eq h hsolution.1.1, Except.ok.injEq, Prod.mk.injEq]
  exact and_congr_right fun _ => eq_comm

theorem Round.failed_iff :
    (r.attempt libs node).Failed libs node ↔ r.accepts libs node nonce = false := by
  unfold Attempt.Failed
  simp only [r.challenge_eq h hdifficulty, reduceCtorEq, exists_false, false_or,
    r.solves_iff h hdifficulty hsolution, exists_eq_left, r.judgement_eq h hsolution.1.1, ne_eq,
    Except.ok.injEq, Prod.mk.injEq]
  cases r.accepts libs node nonce <;> simp

end Solved

/-- A client that does not stay joins, if its first round is accepted. -/
theorem Round.joinNetwork_settles (h : r.server.Serves libs node)
    (hdifficulty : r.server.host.node.config.challengeDifficulty < 2 ^ 32) {nonce : Nat}
    (hsolution : r.IsSolution libs nonce) (haccepted : r.accepts libs node nonce = true)
    (hport : node.nodeInfo.port ≠ node.config.bootstrapPeerPort) {attempts : Nat → Attempt}
    (hfirst : attempts 0 = r.attempt libs node) (n : Nat) (discovery : NodeInfo → Link) :
    Loop.Settles (joinNetwork libs node false (n + 1) attempts discovery)
      (.joined (node.insertNodeToRoutingTable r.server.host.node.nodeInfo)) := by
  have hjoins : (attempts 0).Accepted libs node r.server.host.node.nodeInfo := by
    rw [hfirst]
    exact (r.accepted_iff h hdifficulty hsolution _).mpr ⟨haccepted, rfl⟩
  obtain ⟨enough, hends⟩ := @joinLoop_of_accepted libs node false discovery (n + 1) attempts 0
    (by omega) (fun j hj => absurd hj (Nat.not_lt_zero j)) _ hjoins
  refine ⟨enough, fun fuel hfuel => ?_⟩
  unfold joinNetwork
  rw [if_neg hport, hends fuel hfuel]
  rfl

end Rounds

/-! A peer that finds nobody at its first try, and joins at its second. -/

def firstRound : Round where
  server := peerServer 1 8000
  introduction := sampleInputs
  between := [lookup]
  answer := sampleInputs

theorem isSolution_firstRound : firstRound.IsSolution peerLibraries 0 :=
  ⟨⟨by decide, by decide +kernel⟩, fun _ _ => Nat.zero_le _⟩

theorem undisturbed_firstRound : firstRound.Undisturbed peerLibraries (peer 2 8001) where
  others := by
    intro q hq
    obtain rfl := List.mem_singleton.mp hq
    have hnone : requester peerLibraries lookup = none := rfl
    rw [hnone]
    exact (Option.some_ne_none _).symm
  inTime := by decide

/-- Nobody listens at the first try; the second is the round. -/
def secondTry (i : Nat) : Attempt :=
  if i = 0 then { bootstrap := Link.refused, resolution := Link.refused }
  else firstRound.attempt peerLibraries (peer 2 8001)

end KademliaAuction
