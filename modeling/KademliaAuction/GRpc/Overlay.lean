/-
KademliaAuction.GRpc.Overlay — the processes of a network while they join it.

Every process is a server and a client with one routing table. The client
joins with `join_network(true)`: it puts the bootstrap node into the table,
seeds its shortlist from it and runs the loop of `iterative_find_node`. An
`Overlay` has all of them at once, each wherever it is. A step is what takes a
lock once: a request that a server handles, the reading of the seeds, the
insertion of one contact of an answer. `Seeking` is where a client is, with
its variables; `round_alone` says that the steps of a client that nobody
disturbs are the rounds of `Discovery.round`.

Calls are answered, by the process that listens at the address. Other
requests, of clients that do not join, may be handled at any time.
-/
import KademliaAuction.GRpc.Joining

namespace KademliaAuction

open Blockchain Proto Routing Lib

/-- What stays as it is: the libraries, the processes with their settings, and
which of them is the bootstrap node. -/
structure Roster (ι : Type) where
  libs : Libraries
  info : ι → NodeInfo
  config : ι → Config
  boot : ι

/-- Where a client is: it has not joined; it has put the bootstrap node into
the table; it is at the head of its loop; or it has the answer of a node and
runs through the contacts of it that are left. The variables are those of
`iterative_find_node`, less the node, which is the server's. -/
inductive Seeking where
  | outside
  | entered
  | searching (s : Discovery)
  | reading (s : Discovery) (node : NodeInfo) (newNodes : List NodeInfo)

/-- The processes, by their two halves. -/
structure Overlay (ι : Type) where
  servers : ι → Server
  clients : ι → Seeking

/-- A step: a server handles a request; or the client of a process goes on,
where the label says who listens at the address that it asks, and what this
server takes from outside. -/
inductive OverlayEvent (ι : Type) where
  | handles (i : ι) (request : ServerRequest)
  | enters (i : ι)
  | begins (i : ι)
  | skips (i : ι)
  | asks (i j : ι) (inputs : Inputs)
  | considers (i : ι)
  | sorts (i : ι)

/-- The process whose client goes on. -/
def OverlayEvent.client? {ι : Type} : OverlayEvent ι → Option ι
  | .handles _ _ => none
  | .enters i | .begins i | .skips i | .asks i _ _ | .considers i | .sorts i => some i

/-- The server with another node. -/
def Server.withNode (server : Server) (node : Node) : Server :=
  { server with host := { server.host with node } }

namespace Overlay

variable {ι : Type} [DecidableEq ι] (roster : Roster ι) (net : Overlay ι)

def node (i : ι) : Node := (net.servers i).host.node

def setServer (i : ι) (server : Server) : Overlay ι :=
  { net with servers := Function.update net.servers i server }

def setClient (i : ι) (client : Seeking) : Overlay ι :=
  { net with clients := Function.update net.clients i client }

def setNode (i : ι) (node : Node) : Overlay ι := net.setServer i ((net.servers i).withNode node)

/-- The request of `find_node` for the own id. -/
def findOwn (i : ι) (inputs : Inputs) : List ServerRequest :=
  (net.node i).request roster.libs .findNode inputs roster.libs.prost.findNodeRequest
    { targetId := (net.node i).nodeInfo.id.toStr }

/-- What `i` gets when it asks for its own id and `j` listens. -/
def answerOf (i j : ι) (inputs : Inputs) (node : NodeInfo) : Except String (List NodeInfo) :=
  Client.findNode roster.libs (net.node i) node.ip node.port
    ((net.servers j).link roster.libs .findNode inputs) (net.node i).nodeInfo.id

/-- `i` marks a node as queried and asks it, where `j` listens. -/
def ask (i j : ι) (inputs : Inputs) (s : Discovery) (node : NodeInfo) : Overlay ι :=
  let s := { s with queried := node.id :: s.queried }
  let asked := net.setServer j
    ((net.servers j).handleAll roster.libs (net.findOwn roster i inputs))
  match net.answerOf roster i j inputs node with
  | .error _ => asked.setClient i (.searching s)
  | .ok newNodes => asked.setClient i (.reading s node newNodes)

/-- `i` looks at the next contact of an answer. -/
def consider (i : ι) (s : Discovery) (node newNode : NodeInfo) (newNodes : List NodeInfo) :
    Overlay ι :=
  let s := Discovery.considerNode node { s with node := net.node i } newNode
  (net.setNode i s.node).setClient i (.reading s node newNodes)

/-- A step; `none` where the client is not there, or somebody else
listens. -/
def next : OverlayEvent ι → Option (Overlay ι)
  | .handles i request =>
      some (net.setServer i
        ((net.servers i).handle roster.libs request.rpc request.inputs request.message))
  | .enters i =>
      match net.clients i with
      | .outside =>
          if (net.node i).nodeInfo.port = (net.node i).config.bootstrapPeerPort then none
          else
            let node := (net.node i).insertNodeToRoutingTable (net.node roster.boot).nodeInfo
            some ((net.setNode i node).setClient i .entered)
      | _ => none
  | .begins i =>
      match net.clients i with
      | .entered =>
          some (net.setClient i
            (.searching (Discovery.seeded (net.node i) (net.node i).nodeInfo.id)))
      | _ => none
  | .skips i =>
      match net.clients i with
      | .searching s =>
          match s.shortlist with
          | [] => none
          | node :: rest =>
              if node.id ∈ s.queried then
                some (net.setClient i (.searching { s with shortlist := rest }))
              else none
      | _ => none
  | .asks i j inputs =>
      match net.clients i with
      | .searching s =>
          match s.shortlist with
          | [] => none
          | node :: rest =>
              if node.id ∈ s.queried then none
              else if (node.ip, node.port) =
                  ((net.node j).nodeInfo.ip, (net.node j).nodeInfo.port) then
                some (net.ask roster i j inputs { s with shortlist := rest } node)
              else none
      | _ => none
  | .considers i =>
      match net.clients i with
      | .reading s node (newNode :: newNodes) => some (net.consider i s node newNode newNodes)
      | _ => none
  | .sorts i =>
      match net.clients i with
      | .reading s _ [] =>
          some (net.setClient i (.searching { s with
            shortlist := s.shortlist.mergeSort
              (RoutingTable.closerOrEqual (net.node i).nodeInfo.id) }))
      | _ => none

end Overlay

namespace Overlay

variable {ι : Type} [DecidableEq ι] (roster : Roster ι) (net : Overlay ι)

/-- All that a step can do. -/
inductive Moves : OverlayEvent ι → Overlay ι → Prop
  | handles (i : ι) (request : ServerRequest) : Moves (.handles i request)
      (net.setServer i
        ((net.servers i).handle roster.libs request.rpc request.inputs request.message))
  | enters {i : ι} (hclient : net.clients i = .outside)
      (hport : (net.node i).nodeInfo.port ≠ (net.node i).config.bootstrapPeerPort) :
      Moves (.enters i) ((net.setNode i
        ((net.node i).insertNodeToRoutingTable (net.node roster.boot).nodeInfo)).setClient i
          .entered)
  | begins {i : ι} (hclient : net.clients i = .entered) : Moves (.begins i)
      (net.setClient i (.searching (Discovery.seeded (net.node i) (net.node i).nodeInfo.id)))
  | skips {i : ι} {s : Discovery} {node : NodeInfo} {rest : List NodeInfo}
      (hclient : net.clients i = .searching s) (hlist : s.shortlist = node :: rest)
      (hqueried : node.id ∈ s.queried) :
      Moves (.skips i) (net.setClient i (.searching { s with shortlist := rest }))
  | asks {i j : ι} {inputs : Inputs} {s : Discovery} {node : NodeInfo} {rest : List NodeInfo}
      (hclient : net.clients i = .searching s) (hlist : s.shortlist = node :: rest)
      (hqueried : node.id ∉ s.queried)
      (haddress : (node.ip, node.port) = ((net.node j).nodeInfo.ip, (net.node j).nodeInfo.port)) :
      Moves (.asks i j inputs) (net.ask roster i j inputs { s with shortlist := rest } node)
  | considers {i : ι} {s : Discovery} {node newNode : NodeInfo} {newNodes : List NodeInfo}
      (hclient : net.clients i = .reading s node (newNode :: newNodes)) :
      Moves (.considers i) (net.consider i s node newNode newNodes)
  | sorts {i : ι} {s : Discovery} {node : NodeInfo} (hclient : net.clients i = .reading s node []) :
      Moves (.sorts i) (net.setClient i (.searching { s with
        shortlist := s.shortlist.mergeSort
          (RoutingTable.closerOrEqual (net.node i).nodeInfo.id) }))

theorem next_eq_some {event : OverlayEvent ι} {net' : Overlay ι} :
    net.next roster event = some net' ↔ net.Moves roster event net' := by
  constructor
  · intro h
    cases event with
    | handles i request =>
      obtain rfl := Option.some.inj h
      exact .handles i request
    | enters i =>
      simp only [next] at h
      split at h
      · split at h
        · cases h
        · obtain rfl := Option.some.inj h
          exact .enters ‹_› ‹_›
      · cases h
    | begins i =>
      simp only [next] at h
      split at h
      · obtain rfl := Option.some.inj h
        exact .begins ‹_›
      · cases h
    | skips i =>
      simp only [next] at h
      split at h
      · split at h
        · cases h
        · split at h
          · obtain rfl := Option.some.inj h
            exact .skips ‹_› ‹_› ‹_›
          · cases h
      · cases h
    | asks i j inputs =>
      simp only [next] at h
      split at h
      · split at h
        · cases h
        · split at h
          · cases h
          · split at h
            · obtain rfl := Option.some.inj h
              exact .asks ‹_› ‹_› ‹_› ‹_›
            · cases h
      · cases h
    | considers i =>
      simp only [next] at h
      split at h
      · obtain rfl := Option.some.inj h
        exact .considers ‹_›
      · cases h
    | sorts i =>
      simp only [next] at h
      split at h
      · obtain rfl := Option.some.inj h
        exact .sorts ‹_›
      · cases h
  · intro h
    cases h with
    | handles => rfl
    | enters hclient hport => simp only [next, hclient, if_neg hport]
    | begins hclient => simp only [next, hclient]
    | skips hclient hlist hqueried => simp only [next, hclient, hlist, if_pos hqueried]
    | asks hclient hlist hqueried haddress =>
      simp only [next, hclient, hlist, if_neg hqueried, haddress, if_true]
    | considers hclient => simp only [next, hclient]
    | sorts hclient => simp only [next, hclient]

end Overlay

/-- All processes have just started, with these data directories. -/
def Overlay.start {ι : Type} (roster : Roster ι) (disk : ι → Storage.DataDir) : Overlay ι where
  servers := fun i => Server.start (roster.info i).id (roster.info i).ip (roster.info i).port
    (roster.config i) (disk i)
  clients := fun _ => .outside

/-- The network, from the start. -/
def overlaySystem {ι : Type} [DecidableEq ι] (roster : Roster ι) (disk : ι → Storage.DataDir) :
    System (Overlay ι) (OverlayEvent ι) where
  Init := fun net => net = Overlay.start roster disk
  next := Overlay.next roster

namespace Overlay

variable {ι : Type} [DecidableEq ι] {roster : Roster ι} {net : Overlay ι} {i j k : ι}

/-! ## One half at a time -/

@[simp] theorem servers_setClient (client : Seeking) :
    (net.setClient i client).servers = net.servers := rfl

@[simp] theorem clients_setServer (server : Server) :
    (net.setServer i server).clients = net.clients := rfl

@[simp] theorem clients_setNode (node : Node) : (net.setNode i node).clients = net.clients := rfl

@[simp] theorem node_setClient (client : Seeking) :
    (net.setClient i client).node k = net.node k := rfl

theorem node_setServer_self (server : Server) :
    (net.setServer i server).node i = server.host.node := by
  unfold node setServer
  dsimp only
  rw [Function.update_self]

theorem node_setServer_of_ne (h : k ≠ i) (server : Server) :
    (net.setServer i server).node k = net.node k := by
  unfold node setServer
  dsimp only
  rw [Function.update_of_ne h]

@[simp] theorem node_setNode_self (node : Node) : (net.setNode i node).node i = node :=
  node_setServer_self _

theorem clients_setClient_self (client : Seeking) :
    (net.setClient i client).clients i = client :=
  Function.update_self ..

theorem clients_setClient_of_ne (h : k ≠ i) (client : Seeking) :
    (net.setClient i client).clients k = net.clients k :=
  Function.update_of_ne h ..

/-- What is set first is overwritten. -/
theorem setNode_setClient_twice (node node' : Node) (client client' : Seeking) :
    (((net.setNode i node).setClient i client).setNode i node').setClient i client' =
      (net.setNode i node').setClient i client' := by
  unfold setNode setServer setClient
  simp only [Function.update_idem, Function.update_self]
  rfl

theorem setServer_self : net.setServer i (net.servers i) = net := by
  unfold setServer
  rw [Function.update_eq_self]

theorem setNode_self : net.setNode i (net.node i) = net := setServer_self

/-! ## A client that nobody disturbs -/

theorem considerNode_nodeInfo (node : NodeInfo) (s : Discovery) (newNode : NodeInfo) :
    (Discovery.considerNode node s newNode).node.nodeInfo = s.node.nodeInfo := by
  unfold Discovery.considerNode
  dsimp only
  split_ifs <;> rfl

theorem foldl_considerNode_nodeInfo (node : NodeInfo) (newNodes : List NodeInfo) (s : Discovery) :
    (newNodes.foldl (Discovery.considerNode node) s).node.nodeInfo = s.node.nodeInfo := by
  induction newNodes generalizing s with
  | nil => rfl
  | cons newNode newNodes ih => exact (ih _).trans (considerNode_nodeInfo node s newNode)

/-- The contacts of an answer, one after the other. -/
theorem run_considers {s : Discovery} {node : NodeInfo} {newNodes : List NodeInfo}
    (disk : ι → Storage.DataDir) (hclient : net.clients i = .reading s node newNodes)
    (hnode : s.node = net.node i) :
    (overlaySystem roster disk).run net (List.replicate newNodes.length (.considers i)) =
      some ((net.setNode i (newNodes.foldl (Discovery.considerNode node) s).node).setClient i
        (.reading (newNodes.foldl (Discovery.considerNode node) s) node [])) := by
  induction newNodes generalizing net s with
  | nil =>
    have hsame : net.setClient i (.reading s node []) = net := by
      unfold setClient
      rw [← hclient, Function.update_eq_self]
    rw [List.foldl_nil, hnode, setNode_self, hsame]
    rfl
  | cons newNode newNodes ih =>
    have hnext : (overlaySystem roster disk).next net (.considers i) =
        some ((net.setNode i (Discovery.considerNode node s newNode).node).setClient i
          (.reading (Discovery.considerNode node s newNode) node newNodes)) := by
      have hmoves := (next_eq_some roster net).mpr (.considers hclient)
      unfold consider at hmoves
      rw [← hnode] at hmoves
      exact hmoves
    rw [List.length_cons, List.replicate_succ, System.run, hnext, Option.bind_some,
      ih (clients_setClient_self _) (node_setNode_self _).symm, setNode_setClient_twice,
      List.foldl_cons]

theorem setClient_setClient (client client' : Seeking) :
    (net.setClient i client).setClient i client' = net.setClient i client' := by
  unfold setClient
  rw [Function.update_idem]

/-- One question, with all contacts of the answer. -/
theorem ask_alone {s : Discovery} {node : NodeInfo} {rest : List NodeInfo} {inputs : Inputs}
    (disk : ι → Storage.DataDir) (hij : i ≠ j) (hclient : net.clients i = .searching s)
    (hnode : s.node = net.node i) (hlist : s.shortlist = node :: rest)
    (hqueried : node.id ∉ s.queried)
    (haddress : (node.ip, node.port) = ((net.node j).nodeInfo.ip, (net.node j).nodeInfo.port))
    {s' : Discovery} (hs' : s' = { s with shortlist := rest }.askNode
      (net.answerOf roster i j inputs) (net.node i).nodeInfo.id node) :
    ∃ events, (∀ event ∈ events, event.client? = some i) ∧
      (overlaySystem roster disk).run net events =
        some (((net.setServer j ((net.servers j).handleAll roster.libs
          (net.findOwn roster i inputs))).setNode i s'.node).setClient i (.searching s')) := by
  have hnext : (overlaySystem roster disk).next net (.asks i j inputs) = some _ :=
    (next_eq_some roster net).mpr (.asks hclient hlist hqueried haddress)
  have hother : ∀ server, (net.setServer j server).node i = net.node i :=
    fun server => node_setServer_of_ne hij server
  unfold ask at hnext
  unfold Discovery.askNode at hs'
  dsimp only at hnext hs'
  cases hanswer : net.answerOf roster i j inputs node with
  | error e =>
    rw [hanswer] at hnext hs'
    refine ⟨[.asks i j inputs], by simp [OverlayEvent.client?], ?_⟩
    rw [System.run, hnext, hs']
    dsimp only
    rw [hnode, ← hother, setNode_self]
    rfl
  | ok newNodes =>
    rw [hanswer] at hnext hs'
    dsimp only at hnext hs'
    refine ⟨.asks i j inputs :: (List.replicate newNodes.length (.considers i) ++ [.sorts i]),
      ?_, ?_⟩
    · intro event hevent
      simp only [List.mem_cons, List.mem_append, List.mem_replicate, List.not_mem_nil, or_false]
        at hevent
      rcases hevent with rfl | ⟨_, rfl⟩ | rfl <;> rfl
    · let asked := net.setServer j ((net.servers j).handleAll roster.libs
        (net.findOwn roster i inputs))
      let start : Discovery := { s with queried := node.id :: s.queried, shortlist := rest }
      let last := newNodes.foldl (Discovery.considerNode node) start
      have hread : (overlaySystem roster disk).run (asked.setClient i (.reading start node newNodes))
          (List.replicate newNodes.length (.considers i)) = some _ :=
        run_considers disk (clients_setClient_self _) (hnode.trans (hother _).symm)
      have hcommute : (asked.setClient i (.reading start node newNodes)).setNode i last.node =
          (asked.setNode i last.node).setClient i (.reading start node newNodes) := rfl
      rw [hcommute, setClient_setClient] at hread
      have hsorts : (overlaySystem roster disk).next
          ((asked.setNode i last.node).setClient i (.reading last node [])) (.sorts i) = some _ :=
        (next_eq_some roster _).mpr (.sorts (clients_setClient_self _))
      have hid : last.node.nodeInfo.id = (net.node i).nodeInfo.id := by
        rw [foldl_considerNode_nodeInfo, ← hnode]
      rw [node_setClient, node_setNode_self, hid, setClient_setClient] at hsorts
      rw [System.run, hnext, Option.bind_some, System.run_append, hread, Option.bind_some,
        System.run, hsorts, hs']
      rfl

/-- **The steps of a client that nobody disturbs** are a round of its loop. -/
theorem round_alone {s s' : Discovery} {inputs : Inputs} (disk : ι → Storage.DataDir) (hij : i ≠ j)
    (hclient : net.clients i = .searching s) (hnode : s.node = net.node i)
    (hlistens : ∀ node rest, s.shortlist = node :: rest →
      (node.ip, node.port) = ((net.node j).nodeInfo.ip, (net.node j).nodeInfo.port))
    (hround : s.round (net.answerOf roster i j inputs) (net.node i).nodeInfo.id = .inl s') :
    ∃ events server, (∀ event ∈ events, event.client? = some i) ∧
      (overlaySystem roster disk).run net events =
        some (((net.setServer j server).setNode i s'.node).setClient i (.searching s')) := by
  rcases s.round_cases (net.answerOf roster i j inputs) (net.node i).nodeInfo.id with
    ⟨_, hleave⟩ | ⟨node, rest, hlist, ⟨hqueried, hgo⟩ | ⟨hqueried, hgo⟩⟩
  · cases hleave.symm.trans hround
  · obtain rfl := Sum.inl.inj (hgo.symm.trans hround)
    have hnext : (overlaySystem roster disk).next net (.skips i) = some _ :=
      (next_eq_some roster net).mpr (.skips hclient hlist hqueried)
    refine ⟨[.skips i], net.servers j, by simp [OverlayEvent.client?], ?_⟩
    rw [System.run, hnext, setServer_self]
    dsimp only
    rw [hnode, setNode_self]
    rfl
  · obtain ⟨events, hown, hrun⟩ := ask_alone disk hij hclient hnode hlist hqueried
      (hlistens node rest hlist) (Sum.inl.inj (hgo.symm.trans hround)).symm
    exact ⟨events, _, hown, hrun⟩

end Overlay

end KademliaAuction
