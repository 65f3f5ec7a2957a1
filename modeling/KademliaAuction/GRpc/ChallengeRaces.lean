/-
KademliaAuction.GRpc.ChallengeRaces — `bootstrap` and `challenge_resolution`
running at the same time.

`challenge_resolution` takes the lock on the challenges twice: to read the
entry of its sender, and, when it has judged the answer, to remove it. A
`Race` is a server with any number of resolutions between the two, in any
order of steps (`raceSystem`); a bootstrap is one step. To say which
challenge a reply is about, the bootstraps of each sender are counted, and a
challenge is known by its sender and its number. Without other steps in
between, the three steps are the handler (`run_resolution`).

`single_use_iff` has the condition under which a challenge is used once and
no other is removed: while a resolution is between its steps, its sender
does not ask for a new challenge, and does not send a second answer that
solves the same one. `challenge_races` are the runs that break the two
halves.
-/
import KademliaAuction.GRpc.ChallengeTheorems

namespace KademliaAuction

open Blockchain Proto Routing Lib

/-- A `challenge_resolution` between its two locks: it has read the entry of
its sender, or also judged the answer. `number` is that of the challenge
read. -/
inductive Resolution where
  | read (sender : String) (number : Nat) (challenge : U256 × Nat × Int) (nonce : Nat)
  | evaluated (sender : String) (number : Nat) (accepted : Bool)

namespace Resolution

def sender : Resolution → String
  | .read sender .. => sender
  | .evaluated sender .. => sender

def number : Resolution → Nat
  | .read _ number .. => number
  | .evaluated _ number _ => number

/-- The resolution has accepted its answer, or would in time. -/
def MayAccept (crates : Crates) : Resolution → Prop
  | .read _ _ challenge nonce =>
      SolvesWork crates (toString challenge.1.toNat) challenge.2.1 nonce
  | .evaluated _ _ accepted => accepted = true

end Resolution

/-- A server with its resolutions under way, by instance. `issued` counts the
bootstraps of each sender, `replies` has the challenge and the verdict of
each reply, and `removals` the number of the challenge that was judged and of
the one that was removed, if there was one. -/
structure Race where
  server : Server
  issued : String → Nat
  resolutions : Nat → Option Resolution
  replies : List (String × Nat × Bool)
  removals : List (Nat × Option Nat)

/-- One locked step of a handler. `read` and `evaluate` carry what the
instance takes from outside. -/
inductive RaceStep where
  | bootstrap (inputs : Inputs) (request : AuthenticatedMessage)
  | read (i : Nat) (request : AuthenticatedMessage)
  | evaluate (i : Nat) (now : Int)
  | remove (i : Nat)

namespace Race

variable (libs : Libraries) (s : Race)

/-- A bootstrap, which inserts a challenge if its request verifies. -/
def bootstrap (inputs : Inputs) (request : AuthenticatedMessage) : Race :=
  match Server.openRequest libs libs.prost.bootstrapRequest request with
  | .error _ => s
  | .ok (_, senderProto, _) =>
      { s with
        server := (s.server.bootstrap libs inputs request).server
        issued := Function.update s.issued senderProto.id (s.issued senderProto.id + 1) }

/-- The first lock of `challenge_resolution`; without an entry there is no
second. -/
def read (i : Nat) (request : AuthenticatedMessage) : Race :=
  match Server.openRequest libs libs.prost.challengeResolutionRequest request with
  | .error _ => s
  | .ok (payload, senderProto, _) =>
      match s.server.challengesMap senderProto.id with
      | none => s
      | some challenge =>
          { s with
            resolutions := Function.update s.resolutions i
              (some (.read senderProto.id (s.issued senderProto.id) challenge payload.nonce)) }

/-- The judgement of an answer, without a lock. -/
def evaluate (i : Nat) (now : Int) : Option Race :=
  match s.resolutions i with
  | some (.read sender number challenge nonce) =>
      some
        { s with
          resolutions := Function.update s.resolutions i
            (some (.evaluated sender number (Server.solves libs.toCrates challenge nonce now))) }
  | _ => none

/-- The entry of the sender is removed, and the reply sent. -/
def finish (i : Nat) (sender : String) (number : Nat) (accepted : Bool) : Race where
  server := { s.server with challengesMap := Function.update s.server.challengesMap sender none }
  issued := s.issued
  resolutions := Function.update s.resolutions i none
  replies := s.replies ++ [(sender, number, accepted)]
  removals := s.removals ++
    [(number, (s.server.challengesMap sender).map fun _ => s.issued sender)]

/-- The second lock of `challenge_resolution`. -/
def remove (i : Nat) : Option Race :=
  match s.resolutions i with
  | some (.evaluated sender number accepted) => some (s.finish i sender number accepted)
  | _ => none

end Race

/-- A server just started, whose handlers interleave. An instance reads when
it is not under way. -/
def raceSystem (libs : Libraries) (host : Host) : System Race RaceStep where
  Init := fun s => s =
    { server := Server.new host
      issued := fun _ => 0
      resolutions := fun _ => none
      replies := []
      removals := [] }
  next := fun s step =>
    match step with
    | .bootstrap inputs request => some (s.bootstrap libs inputs request)
    | .read i request =>
        if (s.resolutions i).isSome then none else some (s.read libs i request)
    | .evaluate i now => s.evaluate libs i now
    | .remove i => s.remove i

/-- A challenge is used once: each has at most one accepting reply, and what a
resolution removes is the challenge it has judged, if anything. -/
structure SingleUse (s : Race) : Prop where
  accepted : ∀ sender number, s.replies.count (sender, number, true) ≤ 1
  removed : ∀ removal ∈ s.removals, removal.2 = none ∨ removal.2 = some removal.1

/-- While a resolution is under way, its sender does not get a new challenge,
and does not have another answer read that solves the one under way. -/
def Undisturbed (libs : Libraries) (s : Race) : RaceStep → Prop
  | .bootstrap _ request =>
      ∀ payload senderProto sender,
        Server.openRequest libs libs.prost.bootstrapRequest request =
            .ok (payload, senderProto, sender) →
          ∀ i r, s.resolutions i = some r → r.sender ≠ senderProto.id
  | .read _ request =>
      ∀ payload senderProto sender challenge,
        Server.openRequest libs libs.prost.challengeResolutionRequest request =
            .ok (payload, senderProto, sender) →
          s.server.challengesMap senderProto.id = some challenge →
          SolvesWork libs.toCrates (toString challenge.1.toNat) challenge.2.1 payload.nonce →
          ∀ i r, s.resolutions i = some r → r.sender = senderProto.id →
            ¬ r.MayAccept libs.toCrates
  | _ => True

/-! ## What a step can do -/

namespace Race

variable {libs : Libraries} {s s' : Race}

@[simp] theorem finish_replies (i : Nat) (sender : String) (number : Nat) (accepted : Bool) :
    (s.finish i sender number accepted).replies = s.replies ++ [(sender, number, accepted)] := rfl

@[simp] theorem finish_removals (i : Nat) (sender : String) (number : Nat) (accepted : Bool) :
    (s.finish i sender number accepted).removals = s.removals ++
      [(number, (s.server.challengesMap sender).map fun _ => s.issued sender)] := rfl

theorem bootstrap_of_open {inputs : Inputs} {request : AuthenticatedMessage}
    {payload : BootstrapRequest} {senderProto : NodeInformation} {sender : NodeInfo}
    (hopen : Server.openRequest libs libs.prost.bootstrapRequest request =
      .ok (payload, senderProto, sender)) :
    s.bootstrap libs inputs request =
      { s with
        server :=
          { s.server with
            challengesMap := Function.update s.server.challengesMap senderProto.id
              (some (inputs.challenge, s.server.host.node.config.challengeDifficulty,
                inputs.now + 600000)) }
        issued := Function.update s.issued senderProto.id (s.issued senderProto.id + 1) } := by
  simp [bootstrap, hopen, Server.bootstrap, Server.answer]

theorem bootstrap_cases (libs : Libraries) (s : Race) (inputs : Inputs)
    (request : AuthenticatedMessage) :
    s.bootstrap libs inputs request = s ∨
      ∃ payload senderProto sender,
        Server.openRequest libs libs.prost.bootstrapRequest request =
          .ok (payload, senderProto, sender) := by
  unfold bootstrap
  cases Server.openRequest libs libs.prost.bootstrapRequest request with
  | error status => exact Or.inl rfl
  | ok opened => exact Or.inr ⟨opened.1, opened.2.1, opened.2.2, rfl⟩

theorem read_of_open {i : Nat} {request : AuthenticatedMessage}
    {payload : ChallengeResolutionRequest} {senderProto : NodeInformation} {sender : NodeInfo}
    (hopen : Server.openRequest libs libs.prost.challengeResolutionRequest request =
      .ok (payload, senderProto, sender)) {challenge : U256 × Nat × Int}
    (hentry : s.server.challengesMap senderProto.id = some challenge) :
    s.read libs i request =
      { s with
        resolutions := Function.update s.resolutions i
          (some (.read senderProto.id (s.issued senderProto.id) challenge payload.nonce)) } := by
  simp [read, hopen, hentry]

theorem read_cases (libs : Libraries) (s : Race) (i : Nat) (request : AuthenticatedMessage) :
    s.read libs i request = s ∨
      ∃ payload senderProto sender challenge,
        Server.openRequest libs libs.prost.challengeResolutionRequest request =
          .ok (payload, senderProto, sender) ∧
        s.server.challengesMap senderProto.id = some challenge := by
  unfold read
  cases Server.openRequest libs libs.prost.challengeResolutionRequest request with
  | error status => exact Or.inl rfl
  | ok opened =>
    obtain ⟨payload, senderProto, sender⟩ := opened
    simp only
    cases hentry : s.server.challengesMap senderProto.id with
    | none => exact Or.inl rfl
    | some challenge => exact Or.inr ⟨payload, senderProto, sender, challenge, rfl, hentry⟩

theorem evaluate_eq_some {i : Nat} {now : Int} :
    s.evaluate libs i now = some s' ↔
      ∃ sender number challenge nonce,
        s.resolutions i = some (.read sender number challenge nonce) ∧
          s' = { s with
            resolutions := Function.update s.resolutions i
              (some (.evaluated sender number
                (Server.solves libs.toCrates challenge nonce now))) } := by
  unfold evaluate
  split
  · rename_i sender number challenge nonce hread
    constructor
    · intro h
      exact ⟨sender, number, challenge, nonce, hread, (Option.some.inj h).symm⟩
    · rintro ⟨_, _, _, _, hread', rfl⟩
      rw [hread] at hread'
      cases hread'
      rfl
  · rename_i hnot
    constructor
    · intro h
      cases h
    · rintro ⟨sender, number, challenge, nonce, hread, _⟩
      exact absurd hread (hnot sender number challenge nonce)

theorem remove_eq_some {i : Nat} :
    s.remove i = some s' ↔
      ∃ sender number accepted,
        s.resolutions i = some (.evaluated sender number accepted) ∧
          s' = s.finish i sender number accepted := by
  unfold remove
  split
  · rename_i sender number accepted hevaluated
    constructor
    · intro h
      exact ⟨sender, number, accepted, hevaluated, (Option.some.inj h).symm⟩
    · rintro ⟨_, _, _, hevaluated', rfl⟩
      rw [hevaluated] at hevaluated'
      cases hevaluated'
      rfl
  · rename_i hnot
    constructor
    · intro h
      cases h
    · rintro ⟨sender, number, accepted, hevaluated, _⟩
      exact absurd hevaluated (hnot sender number accepted)

end Race

/-! ## The invariant -/

/-- What undisturbed runs maintain: a resolution under way has read the last
challenge of its sender; a challenge that has been answered is not in the map
any more; and of the resolutions under way at most one for each sender may
accept, and none whose challenge has been accepted. -/
structure RaceInvariant (libs : Libraries) (s : Race) : Prop where
  current : ∀ i r, s.resolutions i = some r → r.number = s.issued r.sender
  answered : ∀ sender number accepted, (sender, number, accepted) ∈ s.replies →
    number < s.issued sender ∨
      (number = s.issued sender ∧ s.server.challengesMap sender = none)
  alone : ∀ i j r r', s.resolutions i = some r → s.resolutions j = some r' →
    r.sender = r'.sender → r.MayAccept libs.toCrates → r'.MayAccept libs.toCrates → i = j
  unanswered : ∀ i r, s.resolutions i = some r → r.MayAccept libs.toCrates →
    (r.sender, r.number, true) ∉ s.replies
  singleUse : SingleUse s

section Invariant

variable {libs : Libraries} {s s' : Race}

theorem RaceInvariant.bootstrap (h : RaceInvariant libs s) {inputs : Inputs}
    {request : AuthenticatedMessage} (hok : Undisturbed libs s (.bootstrap inputs request)) :
    RaceInvariant libs (s.bootstrap libs inputs request) := by
  rcases Race.bootstrap_cases libs s inputs request with
    hsame | ⟨payload, senderProto, sender, hopen⟩
  · rw [hsame]
    exact h
  · have hothers := hok payload senderProto sender hopen
    rw [Race.bootstrap_of_open hopen]
    refine ⟨fun i r hr => ?_, fun id number accepted hreply => ?_, h.alone, h.unanswered,
      h.singleUse.accepted, h.singleUse.removed⟩
    · rw [h.current i r hr]
      exact (Function.update_of_ne (hothers i r hr) _ _).symm
    · simp only
      by_cases hid : id = senderProto.id
      · subst hid
        rw [Function.update_self]
        rcases h.answered _ number accepted hreply with hlt | ⟨heq, _⟩
        · exact Or.inl (by omega)
        · exact Or.inl (by omega)
      · rw [Function.update_of_ne hid, Function.update_of_ne hid]
        exact h.answered id number accepted hreply

/-- Where a resolution is put in the place of one that was as likely to
accept, or in a free place, nobody else changes. -/
theorem update_cases {resolutions : Nat → Option Resolution} {i j : Nat}
    {new : Option Resolution} {r : Resolution} (h : Function.update resolutions i new j = some r) :
    (j = i ∧ new = some r) ∨ (j ≠ i ∧ resolutions j = some r) := by
  by_cases hj : j = i
  · subst hj
    rw [Function.update_self] at h
    exact Or.inl ⟨rfl, h⟩
  · rw [Function.update_of_ne hj] at h
    exact Or.inr ⟨hj, h⟩

theorem RaceInvariant.read (h : RaceInvariant libs s) {i : Nat} {request : AuthenticatedMessage}
    (hok : Undisturbed libs s (.read i request)) : RaceInvariant libs (s.read libs i request) := by
  rcases Race.read_cases libs s i request with
    hsame | ⟨payload, senderProto, sender, challenge, hopen, hentry⟩
  · rw [hsame]
    exact h
  · have hothers := hok payload senderProto sender challenge hopen hentry
    rw [Race.read_of_open hopen hentry]
    refine ⟨fun j r hr => ?_, h.answered, fun j k r r' hr hr' hsender hmay hmay' => ?_,
      fun j r hr hmay hreply => ?_, h.singleUse.accepted, h.singleUse.removed⟩
    · rcases update_cases hr with ⟨_, hnew⟩ | ⟨_, hold⟩
      · obtain rfl := Option.some.inj hnew
        rfl
      · exact h.current j r hold
    · rcases update_cases hr with ⟨rfl, hnew⟩ | ⟨_, hold⟩
      · rcases update_cases hr' with ⟨rfl, _⟩ | ⟨_, hold'⟩
        · rfl
        · obtain rfl := Option.some.inj hnew
          exact absurd hmay' (hothers hmay k r' hold' hsender.symm)
      · rcases update_cases hr' with ⟨rfl, hnew'⟩ | ⟨_, hold'⟩
        · obtain rfl := Option.some.inj hnew'
          exact absurd hmay (hothers hmay' j r hold hsender)
        · exact h.alone j k r r' hold hold' hsender hmay hmay'
    · rcases update_cases hr with ⟨_, hnew⟩ | ⟨_, hold⟩
      · -- A challenge that has been answered would not have been found.
        obtain rfl := Option.some.inj hnew
        rcases h.answered _ _ _ hreply with hlt | ⟨_, hnone⟩
        · exact absurd hlt (Nat.lt_irrefl _)
        · have hboth : some challenge = none := hentry.symm.trans hnone
          cases hboth
      · exact h.unanswered j r hold hmay hreply

theorem RaceInvariant.evaluate (h : RaceInvariant libs s) {i : Nat} {now : Int}
    (hnext : s.evaluate libs i now = some s') : RaceInvariant libs s' := by
  obtain ⟨sender, number, challenge, nonce, hread, rfl⟩ := Race.evaluate_eq_some.mp hnext
  obtain ⟨hash, difficulty, expiration⟩ := challenge
  -- What has been accepted was solved, so the judged resolution takes the place of the one before.
  have hbefore : ∀ j r, Function.update s.resolutions i
      (some (.evaluated sender number
        (Server.solves libs.toCrates (hash, difficulty, expiration) nonce now))) j = some r →
      ∃ r', s.resolutions j = some r' ∧ r'.sender = r.sender ∧ r'.number = r.number ∧
        (r.MayAccept libs.toCrates → r'.MayAccept libs.toCrates) := by
    intro j r hr
    rcases update_cases hr with ⟨rfl, hnew⟩ | ⟨_, hold⟩
    · obtain rfl := Option.some.inj hnew
      exact ⟨_, hread, rfl, rfl, fun hmay => (Server.solves_iff.mp hmay).2⟩
    · exact ⟨r, hold, rfl, rfl, id⟩
  refine ⟨fun j r hr => ?_, h.answered, fun j k r r' hr hr' hsender hmay hmay' => ?_,
    fun j r hr hmay => ?_, h.singleUse.accepted, h.singleUse.removed⟩
  · obtain ⟨old, hold, hid, hnumber, _⟩ := hbefore j r hr
    rw [← hid, ← hnumber]
    exact h.current j old hold
  · obtain ⟨old, hold, hid, _, himp⟩ := hbefore j r hr
    obtain ⟨old', hold', hid', _, himp'⟩ := hbefore k r' hr'
    exact h.alone j k old old' hold hold' (by rw [hid, hid', hsender]) (himp hmay) (himp' hmay')
  · obtain ⟨old, hold, hid, hnumber, himp⟩ := hbefore j r hr
    rw [← hid, ← hnumber]
    exact h.unanswered j old hold (himp hmay)

/-- **When an ending resolution keeps challenges single-use**: when the
challenge it has judged is still there, or nothing is, and it is not the
second to accept it. -/
theorem singleUse_finish_iff (h : SingleUse s) {i : Nat} {sender : String} {number : Nat}
    {accepted : Bool} :
    SingleUse (s.finish i sender number accepted) ↔
      (s.server.challengesMap sender = none ∨ s.issued sender = number) ∧
        (accepted = true → (sender, number, true) ∉ s.replies) := by
  have hcount : ∀ id n, (s.finish i sender number accepted).replies.count (id, n, true) =
      s.replies.count (id, n, true) +
        if id = sender ∧ n = number ∧ accepted = true then 1 else 0 := by
    intro id n
    rw [Race.finish_replies, List.count_append, List.count_singleton]
    refine congrArg _ (if_congr ?_ rfl rfl)
    simp only [beq_iff_eq, Prod.mk.injEq]
    exact ⟨fun ⟨hid, hn, ha⟩ => ⟨hid.symm, hn.symm, ha⟩, fun ⟨hid, hn, ha⟩ => ⟨hid.symm, hn.symm, ha⟩⟩
  constructor
  · rintro ⟨honce, hown⟩
    refine ⟨?_, fun haccepted hmem => ?_⟩
    · have hlast := hown (number, (s.server.challengesMap sender).map fun _ => s.issued sender)
        (by simp)
      cases hentry : s.server.challengesMap sender with
      | none => exact Or.inl rfl
      | some challenge =>
        rw [hentry] at hlast
        rcases hlast with hnone | hsome
        · cases hnone
        · exact Or.inr (Option.some.inj hsome)
    · have htwice := honce sender number
      have hone : 1 ≤ s.replies.count (sender, number, true) := List.count_pos_iff.mpr hmem
      rw [hcount] at htwice
      simp only [haccepted, and_self, if_true] at htwice
      omega
  · rintro ⟨hentry, hnew⟩
    refine ⟨fun id n => ?_, fun removal hmem => ?_⟩
    · rw [hcount]
      split
      · rename_i hsame
        obtain ⟨rfl, rfl, haccepted⟩ := hsame
        rw [List.count_eq_zero_of_not_mem (hnew haccepted)]
      · exact h.accepted id n
    · rcases List.mem_append.mp hmem with hold | hlast
      · exact h.removed removal hold
      · rw [List.mem_singleton.mp hlast]
        rcases hentry with hnone | hsame
        · exact Or.inl (by simp [hnone])
        · rw [hsame]
          cases s.server.challengesMap sender with
          | none => exact Or.inl rfl
          | some challenge => exact Or.inr rfl

theorem RaceInvariant.remove (h : RaceInvariant libs s) {i : Nat} (hnext : s.remove i = some s') :
    RaceInvariant libs s' := by
  obtain ⟨sender, number, accepted, hevaluated, rfl⟩ := Race.remove_eq_some.mp hnext
  have hcurrent : number = s.issued sender := h.current i _ hevaluated
  have hsingle : SingleUse (s.finish i sender number accepted) :=
    (singleUse_finish_iff h.singleUse).mpr
      ⟨Or.inr hcurrent.symm, fun haccepted => h.unanswered i _ hevaluated haccepted⟩
  have hbefore : ∀ j r, Function.update s.resolutions i none j = some r →
      j ≠ i ∧ s.resolutions j = some r := by
    intro j r hr
    rcases update_cases hr with ⟨_, hnone⟩ | hold
    · cases hnone
    · exact hold
  refine ⟨fun j r hr => h.current j r (hbefore j r hr).2, fun id n verdict hreply => ?_,
    fun j k r r' hr hr' => h.alone j k r r' (hbefore j r hr).2 (hbefore k r' hr').2,
    fun j r hr hmay hreply => ?_, hsingle⟩
  · rcases List.mem_append.mp hreply with hold | hlast
    · rcases h.answered id n verdict hold with hlt | ⟨heq, hnone⟩
      · exact Or.inl hlt
      · refine Or.inr ⟨heq, ?_⟩
        simp only [Race.finish]
        by_cases hid : id = sender
        · rw [hid, Function.update_self]
        · rw [Function.update_of_ne hid]
          exact hnone
    · obtain ⟨rfl, rfl, rfl⟩ : id = sender ∧ n = number ∧ verdict = accepted := by
        simpa using hlast
      exact Or.inr ⟨hcurrent, Function.update_self _ _ _⟩
  · obtain ⟨hne, hold⟩ := hbefore j r hr
    rcases List.mem_append.mp hreply with hbefore | hlast
    · exact h.unanswered j r hold hmay hbefore
    · -- The other resolution of this sender that may accept is the one that ends here.
      obtain ⟨hid, _, haccepted⟩ : r.sender = sender ∧ r.number = number ∧ true = accepted := by
        simpa using hlast
      exact hne (h.alone j i r _ hold hevaluated hid hmay haccepted.symm)

theorem RaceInvariant.step {host : Host} {step : RaceStep} (h : RaceInvariant libs s)
    (hok : Undisturbed libs s step) (hnext : (raceSystem libs host).next s step = some s') :
    RaceInvariant libs s' := by
  cases step with
  | bootstrap inputs request =>
    obtain rfl := Option.some.inj hnext
    exact h.bootstrap hok
  | read i request =>
    simp only [raceSystem] at hnext
    split at hnext
    · cases hnext
    · obtain rfl := Option.some.inj hnext
      exact h.read hok
  | evaluate i now => exact h.evaluate hnext
  | remove i => exact h.remove hnext

theorem RaceInvariant.init {host : Host} (h : (raceSystem libs host).Init s) :
    RaceInvariant libs s := by
  subst h
  refine ⟨fun i r hr => ?_, fun id n accepted hreply => ?_, fun i j r r' hr => ?_,
    fun i r hr => ?_, ⟨fun id n => ?_, fun removal hmem => ?_⟩⟩
  · cases hr
  · cases hreply
  · cases hr
  · cases hr
  · simp
  · cases hmem

end Invariant

/-! ## Runs -/

section Runs

variable {libs : Libraries} {host : Host} {s s' : Race}

/-- A resolution that has read its challenge can judge and end at once. -/
theorem run_evaluate_remove (libs : Libraries) (host : Host) {i : Nat} {sender : String}
    {number nonce : Nat} {challenge : U256 × Nat × Int} (now : Int)
    (h : s.resolutions i = some (.read sender number challenge nonce)) :
    (raceSystem libs host).run s [.evaluate i now, .remove i] =
      some (s.finish i sender number (Server.solves libs.toCrates challenge nonce now)) := by
  simp [System.run, raceSystem, Race.evaluate, Race.remove, Race.finish, h]

/-- **The three steps are the handler**: taken in a row, they do to the server
what `challenge_resolution` does, and judge the answer as it does. -/
theorem run_resolution {inputs : Inputs} {request : AuthenticatedMessage}
    {payload : ChallengeResolutionRequest} {senderProto : NodeInformation} {sender : NodeInfo}
    (hopen : Server.openRequest libs libs.prost.challengeResolutionRequest request =
      .ok (payload, senderProto, sender)) {challenge : U256 × Nat × Int}
    (hentry : s.server.challengesMap senderProto.id = some challenge) {i : Nat}
    (hfree : s.resolutions i = none) :
    ∃ s' accepted,
      (raceSystem libs host).run s [.read i request, .evaluate i inputs.now, .remove i] = some s' ∧
      s'.server = (s.server.challengeResolution libs inputs request).server ∧
      s'.replies = s.replies ++ [(senderProto.id, s.issued senderProto.id, accepted)] ∧
      (s.server.challengeResolution libs inputs request).reply =
        s.server.signReply libs libs.prost.challengeResolutionResponse { accepted } := by
  have hread : (raceSystem libs host).next s (.read i request) = some (s.read libs i request) := by
    simp [raceSystem, hfree]
  rw [System.run, hread, Option.bind_some, Race.read_of_open hopen hentry,
    run_evaluate_remove libs host inputs.now (Function.update_self _ _ _)]
  refine ⟨_, _, rfl, ?_, rfl, ?_⟩
  · simp [Server.challengeResolution, hopen, hentry, Server.answer, Race.finish]
  · rw [Server.challengeResolution_reply hopen, hentry]
    rfl

/-- A resolution under way can come to its end, and accept if it may. -/
theorem exists_run_finish (libs : Libraries) (host : Host) {i : Nat} {r : Resolution}
    (h : s.resolutions i = some r) :
    ∃ steps accepted,
      (raceSystem libs host).run s steps = some (s.finish i r.sender r.number accepted) ∧
      (∀ step ∈ steps, ∀ t, Undisturbed libs t step) ∧
      (r.MayAccept libs.toCrates → accepted = true) := by
  cases r with
  | read sender number challenge nonce =>
    obtain ⟨hash, difficulty, expiration⟩ := challenge
    refine ⟨_, _, run_evaluate_remove libs host expiration h, ?_,
      fun hmay => Server.solves_iff.mpr ⟨le_rfl, hmay⟩⟩
    simp [Undisturbed]
  | evaluated sender number accepted =>
    refine ⟨[.remove i], accepted, ?_, by simp [Undisturbed], id⟩
    simp [System.run, raceSystem, Race.remove, h, Resolution.sender, Resolution.number]

/-- A bootstrap that overtakes a resolution of its sender: the resolution can
end by removing the new challenge. -/
theorem exists_violation_bootstrap (h : RaceInvariant libs s) {inputs : Inputs}
    {request : AuthenticatedMessage} (hbad : ¬ Undisturbed libs s (.bootstrap inputs request)) :
    ∃ steps s', (raceSystem libs host).run (s.bootstrap libs inputs request) steps = some s' ∧
      (∀ step ∈ steps, ∀ t, Undisturbed libs t step) ∧ ¬ SingleUse s' := by
  unfold Undisturbed at hbad
  push Not at hbad
  obtain ⟨payload, senderProto, sender, hopen, i, r, hr, hsender⟩ := hbad
  have hunder : (s.bootstrap libs inputs request).resolutions i = some r := by
    rw [Race.bootstrap_of_open hopen]
    exact hr
  obtain ⟨steps, accepted, hrun, hmeet, _⟩ := exists_run_finish libs host hunder
  refine ⟨steps, _, hrun, hmeet, fun hsingle => ?_⟩
  have hremoved := hsingle.removed
    (r.number, some (s.issued senderProto.id + 1)) (by
      rw [Race.finish_removals, Race.bootstrap_of_open hopen, hsender]
      simp)
  rcases hremoved with hnone | hsame
  · cases hnone
  · have hnumber : r.number = s.issued senderProto.id := by
      rw [h.current i r hr, hsender]
    have hnext : s.issued senderProto.id + 1 = r.number := Option.some.inj hsame
    omega

/-- A second answer that solves the challenge of a resolution under way: both
can end by accepting. -/
theorem exists_violation_read (h : RaceInvariant libs s) {i : Nat} {request : AuthenticatedMessage}
    (hfree : s.resolutions i = none) (hbad : ¬ Undisturbed libs s (.read i request)) :
    ∃ steps s', (raceSystem libs host).run (s.read libs i request) steps = some s' ∧
      (∀ step ∈ steps, ∀ t, Undisturbed libs t step) ∧ ¬ SingleUse s' := by
  unfold Undisturbed at hbad
  push Not at hbad
  obtain ⟨payload, senderProto, sender, challenge, hopen, hentry, hsolves, j, r, hr, hsender, hmay⟩ :=
    hbad
  have hne : j ≠ i := by
    rintro rfl
    rw [hfree] at hr
    cases hr
  have hfirst : (s.read libs i request).resolutions j = some r := by
    rw [Race.read_of_open hopen hentry]
    exact (Function.update_of_ne hne _ _).trans hr
  obtain ⟨steps, accepted, hrun, hmeet, haccepted⟩ := exists_run_finish libs host hfirst
  obtain rfl := haccepted hmay
  have hsecond : ((s.read libs i request).finish j r.sender r.number true).resolutions i =
      some (.read senderProto.id (s.issued senderProto.id) challenge payload.nonce) := by
    rw [Race.read_of_open hopen hentry]
    exact (Function.update_of_ne hne.symm _ _).trans (Function.update_self _ _ _)
  obtain ⟨steps', accepted', hrun', hmeet', haccepted'⟩ := exists_run_finish libs host hsecond
  obtain rfl := haccepted' hsolves
  refine ⟨steps ++ steps', _, by rw [System.run_append, hrun]; exact hrun', fun step hstep => ?_,
    fun hsingle => ?_⟩
  · rcases List.mem_append.mp hstep with hold | hnew
    · exact hmeet step hold
    · exact hmeet' step hnew
  · have honce := hsingle.accepted senderProto.id (s.issued senderProto.id)
    have hnumber : r.number = s.issued senderProto.id := by
      rw [h.current j r hr, hsender]
    rw [Race.finish_replies, Race.finish_replies, hsender, hnumber] at honce
    simp [Resolution.sender, Resolution.number, List.count_append] at honce

/-- **When challenges are single-use under concurrency**: in every undisturbed
run, each challenge has at most one accepting reply and no other challenge
than the one judged is removed; and a step goes on to such runs only if it is
undisturbed. -/
theorem single_use_iff (libs : Libraries) (host : Host) {s : Race}
    (h : (raceSystem libs host).ReachableUnder (Undisturbed libs) s) :
    SingleUse s ∧
      ∀ step s', (raceSystem libs host).next s step = some s' →
        (Undisturbed libs s step ↔
          ∀ steps, (raceSystem libs host).StepsMeet (Undisturbed libs) s' steps →
            (raceSystem libs host).Throughout SingleUse s' steps) := by
  have hinv : RaceInvariant libs s :=
    h.invariant (fun s hs => RaceInvariant.init hs) fun s step s' hs hok hnext => hs.step hok hnext
  refine ⟨hinv.singleUse, fun step s' hnext => ⟨fun hok steps hmeet => ?_, fun hall => ?_⟩⟩
  · exact System.throughout_of_stepsMeet (fun s hs => RaceInvariant.singleUse hs)
      (fun s step s' hs hok hnext => hs.step hok hnext) steps s' (hinv.step hok hnext) hmeet
  · by_contra hbad
    have hviolation : ∃ steps s'', (raceSystem libs host).run s' steps = some s'' ∧
        (∀ step ∈ steps, ∀ t, Undisturbed libs t step) ∧ ¬ SingleUse s'' := by
      cases step with
      | bootstrap inputs request =>
        obtain rfl := Option.some.inj hnext
        exact exists_violation_bootstrap hinv hbad
      | read i request =>
        simp only [raceSystem] at hnext
        split at hnext
        · cases hnext
        · rename_i hfree
          obtain rfl := Option.some.inj hnext
          exact exists_violation_read hinv (by simpa using hfree) hbad
      | evaluate i now => exact absurd trivial hbad
      | remove i => exact absurd trivial hbad
    obtain ⟨steps, s'', hrun, hmeet, hnot⟩ := hviolation
    exact hnot ((hall steps (System.stepsMeet_of_forall steps s' hmeet)).last hrun)

end Runs

/-! The stranger of `JoinTheorems` asks for a challenge and answers it, once
and twice, or asks for another in between. -/

def raceStart : Race where
  server := Server.new sampleHost
  issued := fun _ => 0
  resolutions := fun _ => none
  replies := []
  removals := []

def doubleAnswer : List RaceStep :=
  [.bootstrap sampleInputs lookup.message, .read 0 lookup.message, .read 1 lookup.message,
    .evaluate 0 0, .evaluate 1 0, .remove 0, .remove 1]

def staleRemoval : List RaceStep :=
  [.bootstrap sampleInputs lookup.message, .read 0 lookup.message,
    .bootstrap sampleInputs lookup.message, .evaluate 0 0, .remove 0]

/-- What another stranger sends, in either call. -/
def otherMessage : AuthenticatedMessage where
  sender := some { stranger with id := ownId lookupLibraries.toCrates [3] }.toInformation
  publicKey := [3]
  signature := [3]
  payload := []

/-- The answers of two senders are under way at the same time. -/
def interleavedAnswers : List RaceStep :=
  [.bootstrap sampleInputs lookup.message, .bootstrap sampleInputs otherMessage,
    .read 0 lookup.message, .read 1 otherMessage, .evaluate 1 0, .evaluate 0 0, .remove 0, .remove 1]

theorem Race.resolutions_bootstrap (libs : Libraries) (s : Race) (inputs : Inputs)
    (request : AuthenticatedMessage) :
    (s.bootstrap libs inputs request).resolutions = s.resolutions := by
  unfold bootstrap
  split <;> rfl

/-- A resolution that is new has the sender of the request. -/
theorem Race.sender_of_read {libs : Libraries} {s : Race} {i j : Nat}
    {request : AuthenticatedMessage} {r : Resolution}
    (h : (s.read libs i request).resolutions j = some r) :
    s.resolutions j = some r ∨ request.sender.map NodeInformation.id = some r.sender := by
  unfold read at h
  split at h
  · exact Or.inl h
  · rename_i hopen
    obtain ⟨_, hsender, _⟩ := Server.openRequest_eq_ok.mp hopen
    split at h
    · exact Or.inl h
    · by_cases hj : j = i
      · subst hj
        dsimp only at h
        rw [Function.update_self] at h
        obtain rfl := Option.some.inj h
        exact Or.inr (congrArg (Option.map NodeInformation.id) hsender)
      · dsimp only at h
        rw [Function.update_of_ne hj] at h
        exact Or.inl h

theorem undisturbed_interleavedAnswers :
    (raceSystem lookupLibraries sampleHost).StepsMeet (Undisturbed lookupLibraries) raceStart
      interleavedAnswers := by
  have hstart : ∀ i r, raceStart.resolutions i ≠ some r := fun i r h => by cases h
  refine ⟨fun _ _ _ _ i r hr => absurd hr (hstart i r), fun s hs => ⟨?_, fun t ht =>
    ⟨?_, fun u hu => ⟨?_, fun _ _ => ⟨trivial, fun _ _ => ⟨trivial, fun _ _ => ⟨trivial, fun _ _ =>
      ⟨trivial, fun _ _ => trivial⟩⟩⟩⟩⟩⟩⟩⟩
  all_goals obtain rfl := Option.some.inj hs
  · intro _ _ _ _ i r hr
    rw [Race.resolutions_bootstrap] at hr
    exact absurd hr (hstart i r)
  all_goals obtain rfl := Option.some.inj ht
  · intro _ _ _ _ _ _ _ i r hr
    rw [Race.resolutions_bootstrap, Race.resolutions_bootstrap] at hr
    exact absurd hr (hstart i r)
  · obtain rfl := Option.some.inj hu
    intro _ _ _ _ hopen _ _ i r hr hsame
    obtain ⟨_, hsender, _⟩ := Server.openRequest_eq_ok.mp hopen
    rcases Race.sender_of_read hr with hold | hnew
    · rw [Race.resolutions_bootstrap, Race.resolutions_bootstrap] at hold
      exact absurd hold (hstart i r)
    · -- The resolution under way is that of the first stranger.
      have hother := congrArg (Option.map NodeInformation.id) hsender
      rw [Option.map_some, ← hsame, ← hnew] at hother
      exact absurd hother (by decide +kernel)

theorem single_use_iff_interleavedAnswers :
    ∃ s, (raceSystem lookupLibraries sampleHost).run raceStart interleavedAnswers = some s ∧
      s.replies.map (fun reply => reply.2.2) = [true, true] ∧ SingleUse s := by
  have hrun : ((raceSystem lookupLibraries sampleHost).run raceStart interleavedAnswers).map
      (fun s => s.replies.map fun reply => reply.2.2) = some [true, true] := by
    decide +kernel
  obtain ⟨s, hs, hreplies⟩ := Option.map_eq_some_iff.mp hrun
  exact ⟨s, hs, hreplies, (single_use_iff lookupLibraries sampleHost
    (System.reachableUnder_of_run (.init rfl) undisturbed_interleavedAnswers hs)).1⟩

/-- **Races on a challenge**: two answers that are read before either is
removed are both accepted, and an answer to an old challenge removes the new
one. -/
theorem challenge_races :
    (¬ ∀ (libs : Libraries) (host : Host) (s : Race), (raceSystem libs host).Reachable s →
      ∀ sender number, s.replies.count (sender, number, true) ≤ 1) ∧
    ¬ ∀ (libs : Libraries) (host : Host) (s : Race), (raceSystem libs host).Reachable s →
      ∀ removal ∈ s.removals, removal.2 = none ∨ removal.2 = some removal.1 := by
  have hreach : ∀ steps s, (raceSystem lookupLibraries sampleHost).run raceStart steps = some s →
      (raceSystem lookupLibraries sampleHost).Reachable s := fun steps s hs =>
    System.reachableUnder_of_run (.init rfl) (System.stepsMeet_of_forall _ _ fun _ _ _ => trivial) hs
  refine ⟨fun hclaim => ?_, fun hclaim => ?_⟩
  · have hrun : ((raceSystem lookupLibraries sampleHost).run raceStart doubleAnswer).map
        (fun s => s.replies.count (stranger.id.toStr, 1, true)) = some 2 := by
      decide +kernel
    obtain ⟨s, hs, htwice⟩ := Option.map_eq_some_iff.mp hrun
    have honce := hclaim _ _ s (hreach doubleAnswer s hs) stranger.id.toStr 1
    omega
  · have hrun : ((raceSystem lookupLibraries sampleHost).run raceStart staleRemoval).map
        Race.removals = some [(1, some 2)] := by
      decide +kernel
    obtain ⟨s, hs, hremovals⟩ := Option.map_eq_some_iff.mp hrun
    have hown := hclaim _ _ s (hreach staleRemoval s hs) (1, some 2) (by simp [hremovals])
    revert hown
    decide

end KademliaAuction
