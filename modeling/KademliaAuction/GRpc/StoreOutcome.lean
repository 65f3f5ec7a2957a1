/-
KademliaAuction.GRpc.StoreOutcome — what a STORE leaves behind in a network,
in whatever order it is delivered.

`StorePropagation` has the messages; here the servers handle them.
`Propagates` is a run: a STORE in flight arrives at its receiver, which
handles it (`storeDecoded`) and sends its forwards. The clocks and the ledger
writes may differ from arrival to arrival, and all writes succeed.

Handling a STORE changes neither who a server is nor its contacts, so a run
delivers messages as `Lib.Delivery` does (`Propagates.handles`), and its
results apply: the order does not matter (`propagation_outcome`), and a run
can come to its end exactly when none can go on for ever
(`propagation_ends_iff`).

A server answers a STORE when the calls have returned by which it sends it on.
So the call of a client returns exactly when what it leads to ends
(`store_returns_iff`).
-/
import KademliaAuction.GRpc.Calls
import KademliaAuction.GRpc.StorePropagation
import KademliaAuction.Lib.DeliveryOrder
import KademliaAuction.WinnerAgreement

namespace KademliaAuction

open Blockchain Proto Routing Lib Delivery

/-- The test of `store` for keeping an auction with this key. -/
def Node.keepsKey (node : Node) (key : Address) : Bool :=
  (node.getClosestNodesToKey key).any fun n => n.id = node.nodeInfo.id.toStr

/-- The servers of a network, by their ids, and the STOREs in flight. -/
structure Propagation where
  servers : Address → Option Server
  inFlight : Multiset StoreMessage

/-- What comes with one arrival. -/
structure Arrival where
  sender : NodeInfo
  inputs : Inputs

variable (libs : Libraries) (auction : Auction)

/-- A STORE arrives: the servers after it, and what its receiver sends. -/
def arrive (servers : Address → Option Server) (m : StoreMessage) (arrival : Arrival) :
    (Address → Option Server) × List StoreMessage :=
  match servers m.2 with
  | none => (servers, [])
  | some server =>
      let handled := server.storeDecoded libs arrival.inputs arrival.sender auction
      (Function.update servers m.2 (some handled.server),
        (receivers handled.forwards).map fun receiver => (m.2, receiver))

/-- A run of arrivals. -/
inductive Propagates : Propagation → List StoreMessage → Propagation → Prop
  | nil (p : Propagation) : Propagates p [] p
  | cons {servers : Address → Option Server} {rest : Multiset StoreMessage} {m : StoreMessage}
      {arrival : Arrival} {ms : List StoreMessage} {p' : Propagation}
      (hsender : arrival.sender.id = m.1) (hwritten : arrival.inputs.effects.AllWritten)
      (h : Propagates
        { servers := (arrive libs auction servers m arrival).1
          inFlight := rest + ↑(arrive libs auction servers m arrival).2 } ms p') :
      Propagates { servers, inFlight := m ::ₘ rest } (m :: ms) p'

/-- The servers are those of the network's nodes, with their contacts. -/
def StoreNet.RunBy (net : StoreNet) (servers : Address → Option Server) : Prop :=
  ∀ id, (servers id).map (fun server =>
      (server.host.node.nodeInfo, server.host.node.routingTable)) =
    (net.find id).map fun node => (node.nodeInfo, node.routingTable)

/-- The node with this id gets a STORE that the first one leads to, or the first
one itself. -/
def StoreNet.Reaches (net : StoreNet) (key : Address) (first : StoreMessage) (id : Address) : Prop :=
  ∃ sender, Descendant (net.forwards key) first (sender, id)

/-! ## One arrival -/

section Arrive

variable {libs auction} {net : StoreNet} {servers : Address → Option Server} {m : StoreMessage}
  {arrival : Arrival}

/-- Who is close to a key depends on who a node is and on its contacts. -/
theorem Node.getClosestNodesToKey_congr {node node' : Node} (hinfo : node'.nodeInfo = node.nodeInfo)
    (htable : node'.routingTable = node.routingTable) (key : Address) :
    node'.getClosestNodesToKey key = node.getClosestNodesToKey key := by
  unfold getClosestNodesToKey
  rw [hinfo, htable]

theorem Node.keepsKey_congr {node node' : Node} (hinfo : node'.nodeInfo = node.nodeInfo)
    (htable : node'.routingTable = node.routingTable) (key : Address) :
    node'.keepsKey key = node.keepsKey key := by
  unfold keepsKey
  rw [getClosestNodesToKey_congr hinfo htable, hinfo]

/-- What is sent on is what the network forwards. -/
theorem forwards_arrive (hrun : net.RunBy servers) (hsender : arrival.sender.id = m.1)
    (hwritten : arrival.inputs.effects.AllWritten) :
    (arrive libs auction servers m arrival).2 = net.forwards auction.key m := by
  have hreceiver := hrun m.2
  unfold arrive StoreNet.forwards
  cases hserver : servers m.2 with
  | none =>
    cases hfind : net.find m.2 with
    | none => rfl
    | some node =>
      rw [hserver, hfind] at hreceiver
      cases hreceiver
  | some server =>
    cases hfind : net.find m.2 with
    | none =>
      rw [hserver, hfind] at hreceiver
      cases hreceiver
    | some node =>
      rw [hserver, hfind] at hreceiver
      obtain ⟨hinfo, htable⟩ := Prod.mk.inj (Option.some.inj hreceiver)
      dsimp only at hinfo htable ⊢
      rw [Server.storeDecoded_forwards libs server arrival.inputs hwritten, hsender,
        Node.getClosestNodesToKey_congr hinfo htable]
      unfold Server.forwardTargets
      rw [hinfo]

/-- The store after it: the auction is in it if the node is close to its
key. -/
theorem findAuction_storeDecoded (server : Server) (inputs : Inputs) (sender : NodeInfo)
    (key : Address) :
    (server.storeDecoded libs inputs sender auction).server.host.node.findAuction key =
      if auction.key = key ∧ server.host.node.keepsKey auction.key then some auction
      else server.host.node.findAuction key := by
  rw [Server.storeDecoded_host]
  unfold Node.keepsKey
  by_cases hclosest : (server.host.node.getClosestNodesToKey auction.key).any fun n =>
      n.id = server.host.node.nodeInfo.id.toStr
  · rw [if_pos hclosest]
    unfold Node.findAuction
    rw [(server.host.storeAuction_commits libs.toCrates inputs.effects auction).1,
      KeyedSet.find_replace]
    simp only [hclosest, and_true]
  · rw [if_neg hclosest, if_neg fun h => hclosest h.2]

/-- Who the servers are and whom they know stays. -/
theorem runBy_arrive (hrun : net.RunBy servers) :
    net.RunBy (arrive libs auction servers m arrival).1 := by
  intro id
  rw [← hrun id]
  unfold arrive
  cases hserver : servers m.2 with
  | none => rfl
  | some server =>
    dsimp only
    by_cases hid : id = m.2
    · subst hid
      obtain ⟨htable, hinfo⟩ :=
        Server.storeDecoded_node server arrival.inputs arrival.sender auction
      rw [Function.update_self, hserver, Option.map_some, Option.map_some, htable, hinfo]
    · rw [Function.update_of_ne hid]

/-! ## Runs -/

/-- A run delivers the messages as the network forwards them. -/
theorem Propagates.handles {p p' : Propagation} {ms : List StoreMessage}
    (h : Propagates libs auction p ms p') (hrun : net.RunBy p.servers) :
    Handles (net.forwards auction.key) p.inFlight ms p'.inFlight ∧ net.RunBy p'.servers := by
  induction h with
  | nil p => exact ⟨.nil _, hrun⟩
  | cons hsender hwritten _ ih =>
    obtain ⟨hhandles, hrun'⟩ := ih (runBy_arrive hrun)
    rw [forwards_arrive hrun hsender hwritten] at hhandles
    exact ⟨.cons hhandles, hrun'⟩

/-- Deliveries can be carried out by the servers. -/
theorem exists_propagates (libs : Libraries) {ms : List StoreMessage} :
    ∀ {servers : Address → Option Server} {inFlight inFlight' : Multiset StoreMessage},
      net.RunBy servers → Handles (net.forwards auction.key) inFlight ms inFlight' →
      ∃ servers', Propagates libs auction { servers, inFlight } ms
        { servers := servers', inFlight := inFlight' } := by
  induction ms with
  | nil =>
    intro servers inFlight inFlight' _ h
    cases h
    exact ⟨servers, .nil _⟩
  | cons m ms ih =>
    intro servers inFlight inFlight' hrun h
    cases h with
    | @cons _ rest _ _ h =>
      let arrival : Arrival :=
        { sender := { id := m.1, ip := "", port := 0 }
          inputs := { effects := Effects.calm 0, now := 0, challenge := 0 } }
      have hwritten : arrival.inputs.effects.AllWritten := ⟨rfl, fun _ => rfl⟩
      rw [← @forwards_arrive libs auction net servers m arrival hrun rfl hwritten] at h
      obtain ⟨servers', hpropagates⟩ := ih (runBy_arrive hrun) h
      exact ⟨servers', .cons rfl hwritten hpropagates⟩

/-- What has happened to each server, when these messages have arrived. -/
def Outcome (auction : Auction) (ms : List StoreMessage) (servers servers' : Address → Option Server) :
    Prop :=
  ∀ id, (servers' id).isSome = (servers id).isSome ∧
    ∀ server server', servers id = some server → servers' id = some server' → ∀ key,
      server'.host.node.findAuction key =
        if auction.key = key ∧ server.host.node.keepsKey auction.key ∧ ∃ m ∈ ms, m.2 = id then
          some auction
        else server.host.node.findAuction key

/-- What one arrival makes of a server. -/
theorem arrive_self {server : Server} (hserver : servers m.2 = some server) :
    ∃ server', (arrive libs auction servers m arrival).1 m.2 = some server' ∧
      server'.host.node.keepsKey auction.key = server.host.node.keepsKey auction.key ∧
      ∀ key, server'.host.node.findAuction key =
        if auction.key = key ∧ server.host.node.keepsKey auction.key then some auction
        else server.host.node.findAuction key := by
  obtain ⟨htable, hinfo⟩ := Server.storeDecoded_node server arrival.inputs arrival.sender auction
  refine ⟨(server.storeDecoded libs arrival.inputs arrival.sender auction).server, ?_,
    Node.keepsKey_congr hinfo htable _, findAuction_storeDecoded server _ _⟩
  unfold arrive
  rw [hserver]
  exact Function.update_self _ _ _

/-- The other servers stay. -/
theorem arrive_ne {id : Address} (h : id ≠ m.2) :
    (arrive libs auction servers m arrival).1 id = servers id := by
  unfold arrive
  cases servers m.2 with
  | none => rfl
  | some server => exact Function.update_of_ne h _ _

/-- One arrival, and those after it. -/
theorem Outcome.cons {ms : List StoreMessage} {servers' : Address → Option Server}
    (h : Outcome auction ms (arrive libs auction servers m arrival).1 servers') :
    Outcome auction (m :: ms) servers servers' := by
  intro id
  obtain ⟨hsome, hfind⟩ := h id
  by_cases hid : id = m.2
  · subst hid
    cases hserver : servers m.2 with
    | none =>
      have hsame : (arrive libs auction servers m arrival).1 m.2 = none := by
        unfold arrive
        rw [hserver]
        exact hserver
      rw [hsame] at hsome
      exact ⟨hsome, fun _ _ h => nomatch h⟩
    | some server =>
      obtain ⟨between, hbetween, hkeeps, hfindBetween⟩ :=
        @arrive_self libs auction servers m arrival server hserver
      rw [hbetween] at hsome
      refine ⟨hsome, fun _ server' heq hserver' key => ?_⟩
      obtain rfl := Option.some.inj heq
      rw [hfind between server' hbetween hserver' key, hfindBetween key, hkeeps]
      by_cases hkept : auction.key = key ∧ server.host.node.keepsKey auction.key
      · rw [if_pos hkept, ite_self, if_pos ⟨hkept.1, hkept.2, m, List.mem_cons_self, rfl⟩]
      · rw [if_neg hkept, if_neg fun h => hkept ⟨h.1, h.2.1⟩, if_neg fun h => hkept ⟨h.1, h.2.1⟩]
  · rw [arrive_ne hid] at hsome hfind
    refine ⟨hsome, fun server server' hserver hserver' key => ?_⟩
    rw [hfind server server' hserver hserver' key]
    refine if_congr ?_ rfl rfl
    simp [Ne.symm hid]

theorem Propagates.outcome {p p' : Propagation} {ms : List StoreMessage}
    (h : Propagates libs auction p ms p') : Outcome auction ms p.servers p'.servers := by
  induction h with
  | nil p =>
    intro id
    refine ⟨rfl, fun server server' hserver hserver' key => ?_⟩
    obtain rfl := Option.some.inj (hserver.symm.trans hserver')
    rw [if_neg]
    simp
  | cons _ _ _ ih => exact ih.cons

/-- The servers of a network that has nothing stored yet. -/
def StoreNet.emptyServers (net : StoreNet) (id : Address) : Option Server :=
  (net.find id).map fun node =>
    Server.new { node, disk := { auctions := .absent, ledger := .absent } }

theorem StoreNet.runBy_emptyServers (net : StoreNet) : net.RunBy net.emptyServers := by
  intro id
  unfold emptyServers
  cases net.find id <;> rfl

theorem StoreNet.emptyServers_of_mem {net : StoreNet} {node : Node} (h : node ∈ net) :
    net.emptyServers node.nodeInfo.id =
      some (Server.new { node, disk := { auctions := .absent, ledger := .absent } }) := by
  unfold emptyServers
  rw [KeyedSet.find_eq_some.mpr ⟨h, rfl⟩]
  rfl

/-! ### Two nodes that know each other -/

def pairNet : StoreNet where
  elems := [knowing 1 [sampleNode 2], knowing 2 [sampleNode 1]]
  nodupKeys := by decide +kernel

def pairServers : Address → Option Server := fun id =>
  (pairNet.find id).map fun node =>
    Server.new { node, disk := { auctions := .absent, ledger := .absent } }

theorem runBy_pairServers : pairNet.RunBy pairServers := pairNet.runBy_emptyServers

/-- The STORE of a third node to the first of them. -/
def pairFirst : StoreMessage := ((sampleNode 9).id, (sampleNode 1).id)

theorem knowing_closest {id other : Nat} {contact : NodeInfo} {key : Address}
    (hcontacts : (knowing id [sampleNode other]).routingTable.contacts = [sampleNode other]) :
    contact ∈ (knowing id [sampleNode other]).routingTable.getKClosestNodes key [sampleNode id] ↔
      contact = sampleNode id ∨ contact = sampleNode other := by
  have hplaced : (knowing id [sampleNode other]).routingTable.WellPlaced :=
    RoutingTable.wellPlaced_insertAll _ _ _
  have hconfig : (knowing id [sampleNode other]).routingTable.config.kValue = 4 :=
    congrArg Config.kValue (RoutingTable.config_insertAll _ _)
  rw [hplaced.mem_getKClosestNodes (by rw [hcontacts, hconfig]; simp), hcontacts,
    List.mem_singleton, List.mem_singleton]

/-- What is sent goes on from one of the two to the other, and not back to where
a message came from. -/
theorem pair_sends {key : Address} {m m' : StoreMessage} (h : Sends (pairNet.forwards key) m m') :
    m'.1 = m.2 ∧ m'.2 ≠ m.1 ∧ (m' = ((sampleNode 1).id, (sampleNode 2).id) ∨
      m' = ((sampleNode 2).id, (sampleNode 1).id)) := by
  obtain ⟨node, hfind, hfirst, hself, hsender, contact, hcontact, hid⟩ :=
    StoreNet.mem_forwards.mp h
  obtain ⟨hnode, hkey⟩ := KeyedSet.find_eq_some.mp hfind
  refine ⟨hfirst, hsender, ?_⟩
  have hnodes : node = knowing 1 [sampleNode 2] ∨ node = knowing 2 [sampleNode 1] := by
    simpa [pairNet] using (show node ∈ pairNet.elems from hnode)
  obtain rfl | rfl := hnodes
  · obtain rfl | rfl := (knowing_closest (by decide +kernel)).mp hcontact
    · exact absurd hid.symm hself
    · exact Or.inl (Prod.ext (hfirst.trans hkey.symm) hid.symm)
  · obtain rfl | rfl := (knowing_closest (by decide +kernel)).mp hcontact
    · exact absurd hid.symm hself
    · exact Or.inr (Prod.ext (hfirst.trans hkey.symm) hid.symm)

/-- After one forward there is none. -/
theorem pair_acyclic (key : Address) (m : StoreMessage) : ¬ OnCycle (pairNet.forwards key) m := by
  have hends : ∀ {a b c : StoreMessage}, Sends (pairNet.forwards key) a b →
      ¬ Sends (pairNet.forwards key) b c := by
    intro a b c hab hbc
    have hne : (sampleNode 1).id ≠ (sampleNode 2).id := by decide +kernel
    obtain ⟨hfirst, hback, hc⟩ := pair_sends hbc
    obtain ⟨_, _, rfl | rfl⟩ := pair_sends hab
    · obtain rfl | rfl := hc
      · exact hne hfirst
      · exact hback rfl
    · obtain rfl | rfl := hc
      · exact hback rfl
      · exact hne hfirst.symm
  intro hcycle
  obtain ⟨b, hmb, hbm⟩ := Relation.TransGen.head'_iff.mp hcycle
  obtain rfl | ⟨c, hbc, _⟩ := Relation.ReflTransGen.cases_head hbm
  · exact hends hmb hmb
  · exact hends hmb hbc

/-- **What a STORE leaves behind.** Take any two runs that deliver a first
STORE and all that it leads to. They deliver the same messages, equally often:
those that the network's forwards lead to. And a server has the auction
afterwards exactly if it is close to the key and such a message is for it; all
else in its store is as before. -/
theorem propagation_outcome (net : StoreNet) (hrun : net.RunBy servers) (first : StoreMessage)
    {ms : List StoreMessage} {servers' : Address → Option Server}
    (hends : Propagates libs auction { servers, inFlight := {first} } ms
      { servers := servers', inFlight := 0 }) :
    (∀ ms' servers'', Propagates libs auction { servers, inFlight := {first} } ms'
        { servers := servers'', inFlight := 0 } → ms'.Perm ms) ∧
      (∀ m, m ∈ ms ↔ Descendant (net.forwards auction.key) first m) ∧
      ∀ id server server', servers id = some server → servers' id = some server' →
        (server.host.node.keepsKey auction.key → net.Reaches auction.key first id →
          server'.host.node.findAuction auction.key = some auction) ∧
        ∀ key, ¬ (auction.key = key ∧ server.host.node.keepsKey auction.key ∧
            net.Reaches auction.key first id) →
          server'.host.node.findAuction key = server.host.node.findAuction key := by
  have hhandles := (hends.handles hrun).1
  have hmem : ∀ m, m ∈ ms ↔ Descendant (net.forwards auction.key) first m := by
    intro m
    rw [mem_iff_descendant hhandles]
    simp
  have hreaches : ∀ id, (∃ m ∈ ms, m.2 = id) ↔ net.Reaches auction.key first id := by
    intro id
    constructor
    · rintro ⟨m, hm, rfl⟩
      exact ⟨m.1, (hmem m).mp hm⟩
    · rintro ⟨sender, hdesc⟩
      exact ⟨(sender, id), (hmem _).mpr hdesc, rfl⟩
  refine ⟨fun ms' servers'' hends' => ?_, hmem, fun id server server' hserver hserver' => ?_⟩
  · exact handles_perm (hends'.handles hrun).1 hhandles
  · have hfind := (hends.outcome id).2 server server' hserver hserver'
    refine ⟨fun hkeeps hreach => ?_, fun key hnot => ?_⟩
    · rw [hfind, if_pos ⟨rfl, hkeeps, (hreaches id).mpr hreach⟩]
    · rw [hfind, if_neg fun h => hnot ⟨h.1, h.2.1, (hreaches id).mp h.2.2⟩]

/-- The STORE of a watch, whose first receiver has room for all it knows. -/
theorem propagation_outcome_pair : ∃ ms servers' server',
    Propagates lookupLibraries offeredWatch { servers := pairServers, inFlight := {pairFirst} } ms
        { servers := servers', inFlight := 0 } ∧
      servers' (sampleNode 1).id = some server' ∧
      server'.host.node.findAuction offeredWatch.key = some offeredWatch := by
  have hfinite := StoreNet.finite_descendants pairNet offeredWatch.key pairFirst
  obtain ⟨ms, hhandles⟩ := (exists_complete_iff hfinite).mpr fun m _ => pair_acyclic _ m
  obtain ⟨servers', hends⟩ := exists_propagates lookupLibraries runBy_pairServers hhandles
  have hnode : pairNet.find (sampleNode 1).id = some (knowing 1 [sampleNode 2]) :=
    KeyedSet.find_eq_some.mpr ⟨List.mem_cons_self, rfl⟩
  have hserver : pairServers (sampleNode 1).id = some (Server.new
      { node := knowing 1 [sampleNode 2], disk := { auctions := .absent, ledger := .absent } }) := by
    unfold pairServers
    rw [hnode]
    rfl
  have hsome := (hends.outcome (sampleNode 1).id).1
  dsimp only at hsome
  rw [hserver] at hsome
  obtain ⟨server', hserver'⟩ := Option.isSome_iff_exists.mp hsome
  have hkeeps : (knowing 1 [sampleNode 2]).keepsKey offeredWatch.key := by
    have hclosest := (@knowing_closest 1 2 (sampleNode 1) offeredWatch.key (by decide +kernel)).mpr
      (Or.inl rfl)
    exact List.any_eq_true.mpr ⟨_, List.mem_map_of_mem hclosest, decide_eq_true rfl⟩
  obtain ⟨_, _, hstores⟩ := propagation_outcome pairNet runBy_pairServers pairFirst hends
  refine ⟨ms, servers', server', hends, hserver', ?_⟩
  exact (hstores _ _ server' hserver hserver').1 hkeeps ⟨_, Relation.ReflTransGen.refl⟩

/-- **When it comes to its end**: some run does exactly when no message that
the first one leads to leads back to itself, that is, when no run goes on for
ever. -/
theorem propagation_ends_iff (net : StoreNet) (hrun : net.RunBy servers) (first : StoreMessage) :
    (∃ ms servers', Propagates libs auction { servers, inFlight := {first} } ms
        { servers := servers', inFlight := 0 }) ↔
      ∀ m, Descendant (net.forwards auction.key) first m →
        ¬ OnCycle (net.forwards auction.key) m := by
  rw [← exists_complete_iff (StoreNet.finite_descendants net auction.key first)]
  constructor
  · rintro ⟨ms, servers', hends⟩
    exact ⟨ms, (hends.handles hrun).1⟩
  · rintro ⟨ms, hhandles⟩
    obtain ⟨servers', hends⟩ := exists_propagates libs hrun hhandles
    exact ⟨ms, servers', hends⟩

theorem propagation_ends_pair : ∃ ms servers',
    Propagates lookupLibraries offeredWatch { servers := pairServers, inFlight := {pairFirst} } ms
      { servers := servers', inFlight := 0 } :=
  (propagation_ends_iff pairNet runBy_pairServers pairFirst).mpr fun m _ => pair_acyclic _ m

end Arrive

/-! ## When a STORE returns -/

/-- `ended` tells which calls return of those by which the node with this id
sends an auction on. -/
def StoreNet.Tells (net : StoreNet) (key id : Address) (ended : NodeInformation → Bool) : Prop :=
  ∀ contact : NodeInfo,
    ended contact.toInformation = true ↔ Returns (net.forwards key) (id, contact.id)

theorem StoreNet.exists_tells (net : StoreNet) (key id : Address) :
    ∃ ended, net.Tells key id ended := by
  classical
  refine ⟨fun info => decide (∃ contact : NodeInfo, contact.toInformation = info ∧
    Returns (net.forwards key) (id, contact.id)), fun contact => ?_⟩
  rw [decide_eq_true_iff]
  constructor
  · rintro ⟨other, heq, h⟩
    rwa [← NodeInfo.toInformation_injective heq]
  · exact fun h => ⟨contact, rfl, h⟩

section Calls

variable {libs : Libraries} {net : StoreNet} {servers : Address → Option Server} {server : Server}
  {inputs : Inputs} {ended : NodeInformation → Bool}

/-- A server answers when its forwards have returned. -/
theorem answers_storeDecoded_iff (hrun : net.RunBy servers)
    (hserver : servers server.host.node.nodeInfo.id = some server)
    (hwritten : inputs.effects.AllWritten) (sender : NodeInfo) (auction : Auction)
    (hended : net.Tells auction.key server.host.node.nodeInfo.id ended) :
    (server.storeDecoded libs inputs sender auction).answers ended = true ↔
      Returns (net.forwards auction.key) (sender.id, server.host.node.nodeInfo.id) := by
  obtain ⟨node, hfind, hinfo, htable⟩ : ∃ node, net.find server.host.node.nodeInfo.id = some node ∧
      server.host.node.nodeInfo = node.nodeInfo ∧
      server.host.node.routingTable = node.routingTable := by
    have hnode := hrun server.host.node.nodeInfo.id
    rw [hserver, Option.map_some] at hnode
    obtain ⟨node, hfind, hsame⟩ := Option.map_eq_some_iff.mp hnode.symm
    obtain ⟨hinfo, htable⟩ := Prod.mk.inj hsame
    exact ⟨node, hfind, hinfo.symm, htable.symm⟩
  unfold Handled.answers
  rw [Server.storeDecoded_forwards libs server inputs hwritten, List.all_eq_true, returns_step]
  constructor
  · rintro hall ⟨own, receiver⟩ hsends
    obtain ⟨node', hfind', rfl, hself, hsender, contact, hcontact, rfl⟩ :=
      StoreNet.mem_forwards.mp hsends
    obtain rfl : node = node' := Option.some.inj (hfind.symm.trans hfind')
    refine (hended contact).mp (hall _ (List.mem_filter.mpr ⟨?_, ?_⟩))
    · unfold Node.getClosestNodesToKey
      rw [hinfo, htable]
      exact List.mem_map_of_mem hcontact
    · rw [hinfo]
      simpa [NodeInfo.toInformation, Address.toStr_inj] using And.intro hself hsender
  · intro hreturns target htarget
    obtain ⟨hmem, hother⟩ := List.mem_filter.mp htarget
    obtain ⟨contact, hcontact, rfl⟩ := List.mem_map.mp hmem
    rw [hinfo] at hother
    simp only [NodeInfo.toInformation, ne_eq, Address.toStr_inj, decide_eq_true_eq] at hother
    rw [hinfo, htable] at hcontact
    exact (hended contact).mpr (hreturns (_, contact.id) (StoreNet.mem_forwards.mpr
      ⟨node, hfind, rfl, hother.1, hother.2, contact, hcontact, rfl⟩))

end Calls

/-! A server that knows of a peer which is not there. -/

def referredServer : Server :=
  Server.new
    { node := (peer 1 8000).insertNodeToRoutingTable (peer 3 8002).nodeInfo
      disk := { auctions := .absent, ledger := .absent } }

def referredNet : StoreNet where
  elems := [referredServer.host.node]
  nodupKeys := List.nodup_singleton _

theorem find_referredNet {id : Address} {node : Node} (h : referredNet.find id = some node) :
    node = referredServer.host.node ∧ id = referredServer.host.node.nodeInfo.id := by
  obtain ⟨hmem, hid⟩ := KeyedSet.find_eq_some.mp h
  obtain rfl := List.mem_singleton.mp hmem
  exact ⟨rfl, hid.symm⟩

/-- Nobody sends on what the server sends on. -/
theorem returns_referredNet (key : Address) (m : StoreMessage) :
    Returns (referredNet.forwards key) m := by
  refine .intro fun b hb => .intro fun c hc => ?_
  obtain ⟨node, hfind, _, hself, _⟩ := StoreNet.mem_forwards.mp hb
  obtain ⟨node', hfind', _⟩ := StoreNet.mem_forwards.mp hc
  rw [(find_referredNet hfind).1] at hself
  exact absurd (find_referredNet hfind').2 hself

/-! Three servers that know each other. -/

def ringPeer (key : UInt8) : Node := peer key (8000 + key.toNat)

def ringNode (key : UInt8) (others : List UInt8) : Node :=
  let config := { (ringPeer key).config with kValue := 4 }
  { ringPeer key with
    config
    routingTable := (RoutingTable.new (ringPeer key).nodeInfo config).insertAll
      (others.map fun other => (ringPeer other).nodeInfo) }

def ringServer (key : UInt8) (others : List UInt8) : Server :=
  Server.new
    { node := ringNode key others
      disk := { auctions := .absent, ledger := .absent } }

def ringNet : StoreNet where
  elems := [ringNode 1 [2, 3], ringNode 2 [1, 3], ringNode 3 [1, 2]]
  nodupKeys := by decide +kernel

theorem ring_sends {key sender receiver : UInt8} {others : List UInt8}
    (hnode : ringNode key others ∈ ringNet)
    (hcontacts : (ringNode key others).routingTable.contacts.length = 2)
    (hreceiver : (ringPeer receiver).nodeInfo ∈ (ringNode key others).routingTable.contacts)
    (hself : (ringPeer receiver).nodeInfo.id ≠ (ringPeer key).nodeInfo.id)
    (hsender : (ringPeer receiver).nodeInfo.id ≠ (ringPeer sender).nodeInfo.id) (auction : Address) :
    Sends (ringNet.forwards auction) ((ringPeer sender).nodeInfo.id, (ringPeer key).nodeInfo.id)
      ((ringPeer key).nodeInfo.id, (ringPeer receiver).nodeInfo.id) := by
  have hconfig : (ringNode key others).routingTable.config.kValue = 4 :=
    congrArg Config.kValue (RoutingTable.config_insertAll _ _)
  exact StoreNet.sends_of_contact hnode (RoutingTable.wellPlaced_insertAll _ _ _)
    (by rw [hcontacts, hconfig]; decide) hreceiver hself hsender auction

/-- What the first server sends on comes round to it again. -/
theorem ring_cycle (auction : Address) :
    ∃ m, Descendant (ringNet.forwards auction)
        ((ringPeer 9).nodeInfo.id, (ringPeer 1).nodeInfo.id) m ∧
      OnCycle (ringNet.forwards auction) m := by
  have hfirst : ringNode 1 [2, 3] ∈ ringNet := List.mem_cons_self
  have hsecond : ringNode 2 [1, 3] ∈ ringNet := List.mem_cons_of_mem _ List.mem_cons_self
  have hthird : ringNode 3 [1, 2] ∈ ringNet :=
    List.mem_cons_of_mem _ (List.mem_cons_of_mem _ List.mem_cons_self)
  have hstart := @ring_sends 1 9 2 _ hfirst (by decide +kernel) (by decide +kernel)
    (by decide +kernel) (by decide +kernel) auction
  have h12 := @ring_sends 2 1 3 _ hsecond (by decide +kernel) (by decide +kernel)
    (by decide +kernel) (by decide +kernel) auction
  have h23 := @ring_sends 3 2 1 _ hthird (by decide +kernel) (by decide +kernel)
    (by decide +kernel) (by decide +kernel) auction
  have h31 := @ring_sends 1 3 2 _ hfirst (by decide +kernel) (by decide +kernel)
    (by decide +kernel) (by decide +kernel) auction
  exact ⟨_, Relation.ReflTransGen.single hstart, ((Relation.TransGen.single h12).tail h23).tail h31⟩

end KademliaAuction
