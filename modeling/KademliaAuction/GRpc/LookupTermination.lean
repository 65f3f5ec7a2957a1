/-
KademliaAuction.GRpc.LookupTermination — a lookup ends, whatever the peers
answer.

In `GRpc.Lookup` what a peer answers is fixed. Here it may depend on all calls
made so far (`peers`), so that an endpoint may answer anything each time it is
asked; `findAuctionLogged` is the same loop with the calls it makes.

Each call is to an endpoint that has not been called, and of what it answers
only the endpoints of contacts with other ids are put into the queue: the
loop searches a graph that it learns on the way (`LiveSearch.Step`,
`roundLogged_step`). So it ends if finitely many endpoints are ever named, and
if all answers are lists of contacts it has called exactly the endpoints that
can be reached through them (`lookup_ends`).
-/
import KademliaAuction.GRpc.LookupTheorems
import KademliaAuction.Lib.LiveSearch

namespace KademliaAuction

open Blockchain Proto Routing Lib

namespace Lookup

/-! ## Calls -/

/-- A call of `find_value` and its answer. -/
structure Call where
  endpoint : Endpoint
  answer : Except String FindValueResponse

namespace Call

/-- The text under which the endpoint is put into `queried`. -/
def text (call : Call) : String := queryKey call.endpoint.1 call.endpoint.2

/-- The answer is this list of contacts. -/
def Lists (call : Call) (nodes : List NodeInformation) : Prop :=
  call.answer = .ok { result := some (.nodes nodes) }

/-- The answer has a contact at this endpoint. -/
def Names (call : Call) (e : Endpoint) : Prop :=
  ∃ nodes, call.Lists nodes ∧ ∃ info ∈ nodes, (info.ip, info.port) = e

/-- The answer has a contact at this endpoint with another id than the
client's own. -/
def Refers (own : Address) (call : Call) (e : Endpoint) : Prop :=
  ∃ nodes, call.Lists nodes ∧ ∃ info ∈ nodes, ∃ contact, NodeInfo.tryFrom info = .ok contact ∧
    contact.id ≠ own ∧ contact.endpoint = e

end Call

/-- The contacts of an answer that are put into the queue. -/
def othersOf (own : Address) (nodes : List NodeInformation) : List NodeInfo :=
  (nodes.filterMap fun info => (NodeInfo.tryFrom info).toOption).filter fun node => node.id ≠ own

/-- The calls of one round, of which there is at most one. -/
def calls (peers : List Call → String → Nat → Except String FindValueResponse) (s : Lookup)
    (log : List Call) : List Call :=
  match s.nodesToQuery with
  | [] => []
  | node :: _ =>
      if queryKey node.ip node.port ∈ s.queried then []
      else [{ endpoint := node.endpoint, answer := peers log node.ip node.port }]

section Rounds

variable (codec : Codec Proto.Auction)
  (peers : List Call → String → Nat → Except String FindValueResponse)

/-- One round of the loop among these peers, with the calls made so far, the
latest first. -/
def roundLogged (own : Address) :
    Lookup × List Call → (Lookup × List Call) ⊕ (Except String (Option Auction) × List Call)
  | (s, log) =>
      match s.round codec (peers log) own with
      | .inl s' => .inl (s', s.calls peers log ++ log)
      | .inr result => .inr (result, s.calls peers log ++ log)

/-- `find_auction_in_network` among these peers, and the calls it makes. -/
def findAuctionLogged (node : Node) (key : Address) (fuel : Nat) :
    Option (Except String (Option Auction) × List Call) :=
  match node.findAuction key with
  | some auction => some (.ok (some auction), [])
  | none => Loop.loop (roundLogged codec peers node.nodeInfo.id) fuel (start node key, [])

/-- The endpoints that are named in a lookup. -/
def Named (node : Node) (key : Address) (e : Endpoint) : Prop :=
  ∃ s log, Loop.Reaches (roundLogged codec peers node.nodeInfo.id) (start node key, []) (s, log) ∧
    ∃ call ∈ log, call.Names e

end Rounds

/-- Among peers that always answer the same this is `findAuctionInNetwork`. -/
theorem findAuctionLogged_const (codec : Codec Proto.Auction)
    (findValue : String → Nat → Except String FindValueResponse) (node : Node) (key : Address)
    (fuel : Nat) :
    (findAuctionLogged codec (fun _ => findValue) node key fuel).map Prod.fst =
      findAuctionInNetwork codec findValue node key fuel := by
  have hloop : ∀ (s : Lookup) (log : List Call),
      (Loop.loop (roundLogged codec (fun _ => findValue) node.nodeInfo.id) fuel (s, log)).map
        Prod.fst = Loop.loop (round codec findValue node.nodeInfo.id) fuel s := by
    induction fuel with
    | zero => exact fun _ _ => rfl
    | succ fuel ih =>
      intro s log
      rw [Loop.loop, Loop.loop, roundLogged]
      cases s.round codec findValue node.nodeInfo.id with
      | inl s' => exact ih s' _
      | inr result => rfl
  unfold findAuctionLogged findAuctionInNetwork
  cases node.findAuction key with
  | some auction => rfl
  | none => exact hloop _ _

/-! ## Contacts -/

/-- All contacts parse, or the answer is an error. -/
theorem pushNodes_eq_ok {own : Address} {nodes : List NodeInformation} {pushed : List NodeInfo} :
    pushNodes own nodes [] = .ok pushed ↔
      (∀ info ∈ nodes, ∃ contact, NodeInfo.tryFrom info = .ok contact) ∧
        othersOf own nodes = pushed := by
  induction nodes generalizing pushed with
  | nil => simp [pushNodes, othersOf]
  | cons info nodes ih =>
    rw [pushNodes, List.forall_mem_cons]
    cases hparse : NodeInfo.tryFrom info with
    | error e => simp
    | ok contact =>
      dsimp only
      rw [pushNodes_eq]
      have hothers : othersOf own (info :: nodes) =
          (if contact.id ≠ own then [contact] else []) ++ othersOf own nodes := by
        unfold othersOf
        rw [List.filterMap_cons, hparse]
        by_cases hown : contact.id = own <;> simp [hown, Except.toOption]
      rw [hothers, List.nil_append]
      cases hrest : pushNodes own nodes [] with
      | error e =>
        have hnot : ¬ ∀ info ∈ nodes, ∃ contact, NodeInfo.tryFrom info = .ok contact := by
          intro hall
          have hok : pushNodes own nodes [] = .ok (othersOf own nodes) := ih.mpr ⟨hall, rfl⟩
          rw [hrest] at hok
          cases hok
        simp [Except.map, hnot]
      | ok rest =>
        obtain ⟨hall, hsame⟩ := ih.mp hrest
        rw [hsame]
        exact ⟨fun h => ⟨⟨⟨contact, rfl⟩, hall⟩, Except.ok.inj h⟩, fun h => congrArg Except.ok h.2⟩

theorem mem_othersOf {own : Address} {nodes : List NodeInformation} {contact : NodeInfo} :
    contact ∈ othersOf own nodes ↔
      contact.id ≠ own ∧ ∃ info ∈ nodes, NodeInfo.tryFrom info = .ok contact := by
  have hparsed : ∀ info : NodeInformation, (NodeInfo.tryFrom info).toOption = some contact ↔
      NodeInfo.tryFrom info = .ok contact := by
    intro info
    cases NodeInfo.tryFrom info <;> simp [Except.toOption]
  simp [othersOf, List.mem_filter, List.mem_filterMap, hparsed, and_comm]

/-- A contact keeps its endpoint when it is parsed. -/
theorem endpoint_of_tryFrom {info : NodeInformation} {contact : NodeInfo}
    (h : NodeInfo.tryFrom info = .ok contact) : contact.endpoint = (info.ip, info.port) := by
  unfold NodeInfo.tryFrom at h
  split at h
  · rw [← Except.ok.inj h]
    rfl
  · cases h

theorem Call.Refers.names {own : Address} {call : Call} {e : Endpoint} (h : call.Refers own e) :
    call.Names e := by
  obtain ⟨nodes, hlists, info, hinfo, contact, hparse, _, rfl⟩ := h
  exact ⟨nodes, hlists, info, hinfo, (endpoint_of_tryFrom hparse).symm⟩

/-! ## The search -/

/-- All contacts of the answer have an id. -/
def Call.ListsValid (call : Call) (nodes : List NodeInformation) : Prop :=
  call.Lists nodes ∧ ∀ info ∈ nodes, ∃ id, Address.fromStr info.id = .ok id

/-- What an answer puts into the queue. -/
def Call.referrals (own : Address) (call : Call) : List Endpoint :=
  match call.answer with
  | .ok { result := some (.nodes nodes) } => (othersOf own nodes).map NodeInfo.endpoint
  | _ => []

theorem Call.Lists.referrals {own : Address} {call : Call} {nodes : List NodeInformation}
    (h : call.Lists nodes) :
    call.referrals own = (othersOf own nodes).map NodeInfo.endpoint := by
  unfold Call.referrals
  rw [h]

theorem Call.mem_referrals {own : Address} {call : Call} {e : Endpoint}
    (h : e ∈ call.referrals own) : call.Refers own e := by
  unfold Call.referrals at h
  split at h
  · rename_i nodes hanswer
    obtain ⟨contact, hcontact, rfl⟩ := List.mem_map.mp h
    obtain ⟨hother, info, hinfo, hparse⟩ := mem_othersOf.mp hcontact
    exact ⟨nodes, hanswer, info, hinfo, contact, hparse, hother, rfl⟩
  · cases h

theorem exists_tryFrom_iff {info : NodeInformation} :
    (∃ contact, NodeInfo.tryFrom info = .ok contact) ↔ ∃ id, Address.fromStr info.id = .ok id := by
  unfold NodeInfo.tryFrom
  cases Address.fromStr info.id <;> simp

/-- The calls as visits: an answer names what is put into the queue. -/
def visitsOf (own : Address) (log : List Call) : List (Endpoint × List Endpoint) :=
  log.map fun call => (call.endpoint, call.referrals own)

@[simp] theorem visitsOf_map_fst (own : Address) (log : List Call) :
    (visitsOf own log).map Prod.fst = log.map Call.endpoint := by
  simp [visitsOf, Function.comp_def]

/-- The lookup as a search. -/
def toSearch (own : Address) (s : Lookup) (log : List Call) : LiveSearch.State Endpoint where
  visited := visitsOf own log
  pending := s.nodesToQuery.map NodeInfo.endpoint

variable {codec : Codec Proto.Auction}
  {peers : List Call → String → Nat → Except String FindValueResponse} {own : Address}

/-- What a round does: it leaves, drops an endpoint that has been called, or
calls one, and then goes on or leaves with what is no list of contacts. -/
theorem roundLogged_cases (codec : Codec Proto.Auction)
    (peers : List Call → String → Nat → Except String FindValueResponse) (own : Address)
    {s : Lookup} {log : List Call} (hlog : s.queried = log.map Call.text) :
    (s.nodesToQuery = [] ∧ roundLogged codec peers own (s, log) = .inr (.ok none, log)) ∨
    ∃ node rest, s.nodesToQuery = node :: rest ∧
      ((node.endpoint ∈ log.map Call.endpoint ∧
        roundLogged codec peers own (s, log) = .inl ({ s with nodesToQuery := rest }, log)) ∨
      (node.endpoint ∉ log.map Call.endpoint ∧ ∃ call : Call, call.endpoint = node.endpoint ∧
        ((∃ s', roundLogged codec peers own (s, log) = .inl (s', call :: log) ∧
            s'.nodesToQuery.map NodeInfo.endpoint =
              rest.map NodeInfo.endpoint ++ call.referrals own ∧
            s'.queried = call.text :: s.queried) ∨
        ∃ result, roundLogged codec peers own (s, log) = .inr (result, call :: log) ∧
          ¬ ∃ nodes, call.ListsValid nodes))) := by
  obtain ⟨nodesToQuery, queried⟩ := s
  dsimp only at hlog
  subst hlog
  cases nodesToQuery with
  | nil => exact Or.inl ⟨rfl, rfl⟩
  | cons node rest =>
    refine Or.inr ⟨node, rest, rfl, ?_⟩
    have hmem : queryKey node.ip node.port ∈ log.map Call.text ↔
        node.endpoint ∈ log.map Call.endpoint := by
      have hkeys : queryKey node.endpoint.1 node.endpoint.2 ∈
          (log.map Call.endpoint).map (fun e => queryKey e.1 e.2) ↔
            node.endpoint ∈ log.map Call.endpoint := queryKey_mem_iff
      rwa [List.map_map] at hkeys
    unfold roundLogged round calls
    dsimp only
    by_cases hold : node.endpoint ∈ log.map Call.endpoint
    · rw [if_pos (hmem.mpr hold), if_pos (hmem.mpr hold)]
      exact Or.inl ⟨hold, rfl⟩
    · rw [if_neg (fun hkey => hold (hmem.mp hkey)), if_neg (fun hkey => hold (hmem.mp hkey))]
      refine Or.inr ⟨hold, { endpoint := node.endpoint, answer := peers log node.ip node.port },
        rfl, ?_⟩
      unfold Call.referrals Call.ListsValid Call.Lists
      dsimp only
      cases peers log node.ip node.port with
      | error e => exact Or.inr ⟨_, rfl, fun ⟨_, hlists, _⟩ => nomatch hlists⟩
      | ok response =>
        obtain ⟨result⟩ := response
        cases result with
        | none => exact Or.inl ⟨_, rfl, (List.append_nil _).symm, rfl⟩
        | some result =>
          cases result with
          | value value => exact Or.inr ⟨_, rfl, fun ⟨_, hlists, _⟩ => nomatch hlists⟩
          | nodes nodes =>
            dsimp only
            rw [pushNodes_eq]
            cases hpush : pushNodes own nodes [] with
            | error e =>
              refine Or.inr ⟨_, rfl, fun ⟨nodes', hlists, hvalid⟩ => ?_⟩
              cases hlists
              have hok : pushNodes own nodes [] = .ok (othersOf own nodes) := pushNodes_eq_ok.mpr
                ⟨fun info hinfo => exists_tryFrom_iff.mpr (hvalid info hinfo), rfl⟩
              rw [hpush] at hok
              cases hok
            | ok pushed =>
              rw [(pushNodes_eq_ok.mp hpush).2]
              exact Or.inl ⟨_, rfl, List.map_append .., rfl⟩

/-- A round that goes on is a step of a search. -/
theorem roundLogged_step {s s' : Lookup} {log log' : List Call}
    (hlog : s.queried = log.map Call.text)
    (hround : roundLogged codec peers own (s, log) = .inl (s', log')) :
    LiveSearch.Step (toSearch own s log) (toSearch own s' log') ∧
      s'.queried = log'.map Call.text := by
  rcases roundLogged_cases codec peers own hlog with
    ⟨_, h⟩ | ⟨node, rest, hqueue, ⟨hold, h⟩ | ⟨hnew, call, hcall, ⟨t, h, hpending, hqueried⟩ | ⟨_, h, _⟩⟩⟩
  · rw [h] at hround
    cases hround
  · rw [h] at hround
    cases hround
    unfold toSearch
    rw [hqueue]
    exact ⟨.skip (by rwa [visitsOf_map_fst]), hlog⟩
  · rw [h] at hround
    cases hround
    unfold toSearch
    rw [hqueue, hpending, List.map_cons, List.map_cons, ← hcall]
    rw [← hcall] at hnew
    exact ⟨.visit (by rwa [visitsOf_map_fst]) _, by rw [hqueried, hlog]⟩
  · rw [h] at hround
    cases hround

/-! ## Runs -/

variable {node : Node} {key : Address}

/-- What all rounds of a lookup keep. -/
theorem traversal_of_reaches {state : Lookup × List Call}
    (h : Loop.Reaches (roundLogged codec peers own) (start node key, []) state) :
    state.1.queried = state.2.map Call.text ∧
      LiveSearch.Traversal [bootstrapEndpoint node] (toSearch own state.1 state.2) := by
  induction h with
  | refl => exact ⟨rfl, LiveSearch.traversal_start⟩
  | @step t u _ hround ih =>
    obtain ⟨hlog, htraversal⟩ := ih
    obtain ⟨hstep, hlog'⟩ := roundLogged_step hlog hround
    exact ⟨hlog', htraversal.step hstep⟩

/-- Only the bootstrap node and named endpoints are ever in the queue. -/
theorem known_of_reaches {state : Lookup × List Call}
    (h : Loop.Reaches (roundLogged codec peers node.nodeInfo.id) (start node key, []) state) :
    ∀ e ∈ (toSearch node.nodeInfo.id state.1 state.2).pending,
      e ∈ insert (bootstrapEndpoint node) {e | Named codec peers node key e} := by
  intro e he
  rcases (traversal_of_reaches h).2.source e he with hseed | ⟨p, hp, hnamed⟩
  · exact Set.mem_insert_iff.mpr (Or.inl (List.mem_singleton.mp hseed))
  · obtain ⟨call, hcall, rfl⟩ := List.mem_map.mp hp
    exact Set.mem_insert_of_mem _ ⟨_, _, h, call, hcall, (Call.mem_referrals hnamed).names⟩

/-- The answers are those of the peers. -/
theorem answer_of_reaches {state : Lookup × List Call}
    (h : Loop.Reaches (roundLogged codec peers own) (start node key, []) state) :
    ∀ call ∈ state.2, ∃ before, call.answer = peers before call.endpoint.1 call.endpoint.2 := by
  induction h with
  | refl => exact fun _ hcall => nomatch hcall
  | @step t u _ hround ih =>
    obtain ⟨s, log⟩ := t
    have hlog : u.2 = s.calls peers log ++ log := by
      rw [roundLogged] at hround
      cases hnext : s.round codec (peers log) own with
      | inl s' =>
        rw [hnext] at hround
        exact (congrArg Prod.snd (Sum.inl.inj hround)).symm
      | inr result =>
        rw [hnext] at hround
        cases hround
    intro call hcall
    rw [hlog] at hcall
    rcases List.mem_append.mp hcall with hnew | hold
    · unfold calls at hnew
      split at hnew
      · cases hnew
      · split at hnew
        · cases hnew
        · exact ⟨log, List.mem_singleton.mp hnew ▸ rfl⟩
    · exact ih call hold

/-- Peers that know finitely many endpoints name finitely many. -/
theorem named_finite {known : Set Endpoint} (hknown : known.Finite)
    (hpeers : ∀ log ip port nodes, peers log ip port = .ok { result := some (.nodes nodes) } →
      ∀ info ∈ nodes, (info.ip, info.port) ∈ known) :
    {e | Named codec peers node key e}.Finite := by
  refine hknown.subset ?_
  intro e ⟨s, log, hreach, call, hcall, nodes, hlists, info, hinfo, heq⟩
  obtain ⟨before, hanswer⟩ := answer_of_reaches hreach call hcall
  exact heq ▸ hpeers before _ _ nodes (hanswer.symm.trans hlists) info hinfo

/-- Where finitely many endpoints are named, the loop ends. -/
theorem exists_ends (hfinite : {e | Named codec peers node key e}.Finite) :
    ∃ outcome, Loop.Ends (roundLogged codec peers node.nodeInfo.id) (start node key, []) outcome := by
  refine Loop.exists_ends_of_acc
    (I := Loop.Reaches (roundLogged codec peers node.nodeInfo.id) (start node key, []))
    (fun state state' hreach hround => ⟨hreach.step hround, known_of_reaches hreach, ?_⟩) .refl
    (InvImage.accessible (fun state : Lookup × List Call =>
      toSearch node.nodeInfo.id state.1 state.2) (LiveSearch.acc_step (hfinite.insert _) _))
  exact (roundLogged_step (traversal_of_reaches hreach).1 hround).1

/-- How a loop ends: its calls are the visits of a search, and either nothing
is left in the queue or the last answer is no list of contacts. -/
theorem ends_cases {result : Except String (Option Auction)} {log : List Call}
    (h : Loop.Ends (roundLogged codec peers own) (start node key, []) (result, log)) :
    LiveSearch.Trail [bootstrapEndpoint node] (visitsOf own log) ∧
      ((result = .ok none ∧ LiveSearch.Traversal [bootstrapEndpoint node] ⟨visitsOf own log, []⟩) ∨
        ∃ call ∈ log, ¬ ∃ nodes, call.ListsValid nodes) := by
  obtain ⟨⟨s, before⟩, hreach, hround⟩ := h.invariant
    (I := Loop.Reaches (roundLogged codec peers own) (start node key, []))
    (fun _ _ hreach hround => hreach.step hround) .refl
  obtain ⟨hlog, htraversal⟩ := traversal_of_reaches hreach
  rcases roundLogged_cases codec peers own hlog with
    ⟨hqueue, h⟩ | ⟨next, rest, hqueue, ⟨_, h⟩ | ⟨hnew, call, hcall, ⟨_, h, _⟩ | ⟨_, h, hnot⟩⟩⟩
  · rw [h] at hround
    cases hround
    unfold toSearch at htraversal
    rw [hqueue] at htraversal
    exact ⟨htraversal.trail, Or.inl ⟨rfl, htraversal⟩⟩
  · rw [h] at hround
    cases hround
  · rw [h] at hround
    cases hround
  · rw [h] at hround
    cases hround
    refine ⟨?_, Or.inr ⟨call, List.mem_cons_self, hnot⟩⟩
    refine .cons htraversal.trail ?_ (htraversal.source call.endpoint ?_)
    · show call.endpoint ∉ (visitsOf own before).map Prod.fst
      rwa [visitsOf_map_fst, hcall]
    · rw [hcall]
      exact List.mem_map_of_mem (hqueue ▸ List.mem_cons_self)

end Lookup

open Lookup

/-- **A lookup ends** if finitely many endpoints are named, whatever its peers
answer and whenever. It calls each ip and port at most once, the first being
the bootstrap node and every other one of a contact with another id than its
own that an earlier answer named. If all answers are lists of contacts with
ids, it finds nothing, and has called exactly the endpoints that can be
reached through such contacts. -/
theorem lookup_ends (codec : Codec Proto.Auction)
    (peers : List Call → String → Nat → Except String FindValueResponse) (node : Node)
    (key : Address) (hlocal : node.findAuction key = none)
    (hfinite : {e | Named codec peers node key e}.Finite) :
    ∃ fuel result log, findAuctionLogged codec peers node key fuel = some (result, log) ∧
      (log.map Call.text).Nodup ∧
      (∀ call before, (call :: before) <:+ log → call.endpoint = bootstrapEndpoint node ∨
        ∃ earlier ∈ before, earlier.Refers node.nodeInfo.id call.endpoint) ∧
      ∀ contactsOf : Endpoint → List NodeInformation,
        (∀ call ∈ log, call.ListsValid (contactsOf call.endpoint)) →
          result = .ok none ∧
          ∀ e, e ∈ log.map Call.endpoint ↔
            Search.Reached
              (fun e => (othersOf node.nodeInfo.id (contactsOf e)).map NodeInfo.endpoint)
              [bootstrapEndpoint node] e := by
  obtain ⟨⟨result, log⟩, fuel, hrun⟩ := exists_ends hfinite
  obtain ⟨htrail, hlast⟩ := ends_cases ⟨fuel, hrun⟩
  refine ⟨fuel, result, log, ?_, ?_, fun call before hsuffix => ?_, fun contactsOf hvalid => ?_⟩
  · unfold findAuctionLogged
    rw [hlocal]
    exact hrun
  · have hkeys : log.map Call.text = (log.map Call.endpoint).map fun e => queryKey e.1 e.2 := by
      rw [List.map_map]
      rfl
    have hnodup := htrail.nodup
    rw [visitsOf_map_fst] at hnodup
    rw [hkeys]
    exact hnodup.map fun _ _ heq => queryKey_inj heq
  · rcases htrail.from_of_suffix (hsuffix.map _) with hseed | ⟨p, hp, hnamed⟩
    · exact Or.inl (List.mem_singleton.mp hseed)
    · obtain ⟨earlier, hearlier, rfl⟩ := List.mem_map.mp hp
      exact Or.inr ⟨earlier, hearlier, Call.mem_referrals hnamed⟩
  · rcases hlast with ⟨hresult, htraversal⟩ | ⟨call, hcall, hnot⟩
    · refine ⟨hresult, fun e => ?_⟩
      rw [← visitsOf_map_fst node.nodeInfo.id]
      refine htraversal.mem_visited_iff fun p hp => ?_
      obtain ⟨call, hcall, rfl⟩ := List.mem_map.mp hp
      exact (hvalid call hcall).1.referrals
    · exact absurd ⟨_, hvalid call hcall⟩ hnot

/-- Peers of which the first to be asked names the client and a peer, and all
later ones two peers. -/
def gossip (log : List Call) (_ip : String) (_port : Nat) : Except String FindValueResponse :=
  let contacts := if log.isEmpty then [deadPeer, askingNode.nodeInfo] else [holder, deadPeer]
  .ok { result := some (.nodes (contacts.map NodeInfo.toInformation)) }

theorem lookup_ends_gossip :
    ∃ fuel result log, findAuctionLogged (Codec.only soldWatch.toProto) gossip askingNode
      soldWatch.key fuel = some (result, log) ∧ (log.map Call.text).Nodup := by
  have hfinite : {e | Named (Codec.only soldWatch.toProto) gossip askingNode soldWatch.key e}.Finite := by
    refine named_finite
      (List.finite_toSet [deadPeer.endpoint, holder.endpoint, askingNode.nodeInfo.endpoint]) ?_
    intro log ip port nodes hanswer info hinfo
    simp only [gossip, Except.ok.injEq, FindValueResponse.mk.injEq, Option.some.injEq,
      FindValueResult.nodes.injEq] at hanswer
    obtain ⟨contact, hcontact, rfl⟩ := List.mem_map.mp (hanswer ▸ hinfo)
    have hall : ∀ contact ∈ [deadPeer, askingNode.nodeInfo] ++ [holder, deadPeer],
        contact.endpoint ∈ [deadPeer.endpoint, holder.endpoint, askingNode.nodeInfo.endpoint] := by
      decide
    refine hall contact ?_
    split at hcontact
    · exact List.mem_append_left _ hcontact
    · exact List.mem_append_right _ hcontact
  obtain ⟨fuel, result, log, hrun, hnodup, _⟩ :=
    lookup_ends (Codec.only soldWatch.toProto) gossip askingNode soldWatch.key
      (by decide +kernel) hfinite
  exact ⟨fuel, result, log, hrun, hnodup⟩

end KademliaAuction
