/-
KademliaAuction.GRpc.RunCommand — the one-shot commands (`run_command` of
`src/g_rpc/client.rs`).

A process that is started with a command joins the network, looks up or makes
an auction, publishes what it has made of it, prints a text and ends. What it
takes from outside are its connections, the outcome of its writes and the
clock. `CommandEnd` says how it ends; the STOREs it has attempted are kept in
it, as in a `TickTrace`. A process whose STORE is not answered does not end:
it has no `CommandEnd`, whatever the fuel.

The lemmas are about the parts of a run: joining leaves a node as it is but
for its routing table (`joined_node`), a lookup at a server that nobody but
dead endpoints stands behind gives what the server has (`lookup_of_held`,
`lookup_of_missing`), and publishing when the writes succeed
(`publishAuction_written`).
-/
import KademliaAuction.Command
import KademliaAuction.GRpc.Automation
import KademliaAuction.GRpc.Joining
import KademliaAuction.GRpc.Lookup

namespace KademliaAuction

open Blockchain Proto Routing Lib

/-- What a command takes from outside. -/
structure CommandInputs where
  attempts : Nat → Attempt
  discovery : NodeInfo → Link
  findValue : String → Nat → Link
  store : StoreLink
  effects : Effects
  now : Int

/-- How a command ends: with the exit of `join_network`, in the loop of
`start`, or with a text to print or an error. -/
inductive CommandEnd where
  | exited
  | serving (host : Host)
  | returned (result : Except String (List String)) (host : Host) (stores : List Auction)

namespace RunCommand

/-! ## What is printed -/

/-- The text of `CreateAuction`. -/
def createdText (auction : Auction) : List String :=
  [s!"Created auction\nkey: {auction.key.toStr}\nobject: {auction.object}\n" ++
    s!"initial_value: {auction.initialValue}\nseller: {auction.seller.toStr}"]

/-- The text of `Bid`. -/
def placedText (auction : Auction) (amount : Nat) (buyer : Address) : List String :=
  [s!"Placed bid\nauction: {auction.key.toStr}\namount: {amount}\nbuyer: {buyer.toStr}"]

/-- `print_auction`. -/
def printAuction (auction : Auction) : List String :=
  (s!"Auction\nkey: {auction.key.toStr}\nobject: {auction.object}\n" ++
    s!"initial_value: {auction.initialValue}\ncurrent_price: {auction.highestBidAmount}\n" ++
    s!"seller: {auction.seller.toStr}\nbids: {auction.bids.length}") ::
  auction.bids.map fun bid => s!"bid: buyer={bid.buyer.toStr} amount={bid.amount}"

/-! ## The command -/

variable (libs : Libraries) (inputs : CommandInputs)

/-- `publish_auction`, with the connection to the bootstrap node. It does not
return where it sends the auction and that call does not. -/
def publishAuction (host : Host) (auction : Auction) : Option TickTrace :=
  let sent := Client.sendStoreToNode libs host.node host.node.config.bootstrapPeerIp
    host.node.config.bootstrapPeerPort inputs.store auction
  let trace := Automation.publishAuction libs.toCrates
    { effects := inputs.effects, send := sent.getD (.ok ()) } host auction
  if sent.isNone ∧ trace.stores ≠ [] then none else some trace

/-- `publish_auction(..).await?` and the text after it. -/
def publishAndPrint (host : Host) (auction : Auction) (text : List String) : Option CommandEnd :=
  (publishAuction libs inputs host auction).map fun trace =>
    .returned (trace.result.map fun _ => text) trace.host trace.stores

/-- `?.ok_or_else(..)?`. -/
def foundOr (key : Address) : Except String (Option Auction) → Except String Auction
  | .error e => .error e
  | .ok none => .error s!"Auction not found for key {key.toStr}"
  | .ok (some auction) => .ok auction

/-- `find_auction_in_network(key).await?.ok_or_else(..)?`. -/
def findAuction (node : Node) (key : Address) (fuel : Nat) : Option (Except String Auction) :=
  (Lookup.findAuctionInNetwork libs.prost.auction
    (fun ip port => Client.findValue libs node ip port (inputs.findValue ip port) key)
    node key fuel).map (foundOr key)

/-- The `match` of `run_command`, once the node has joined. -/
def perform (host : Host) (fuel : Nat) : Command → Option CommandEnd
  | .Serve => some (.serving host)
  | .CreateAuction object initialValue =>
      let auction := Auction.new libs.toCrates object initialValue.toNat host.node.nodeInfo.id
        inputs.now
      publishAndPrint libs inputs host auction (createdText auction)
  | .FindAuction key =>
      (findAuction libs inputs host.node key fuel).map fun found =>
        .returned (found.map printAuction) host []
  | .Bid key amount =>
      (findAuction libs inputs host.node key fuel).bind fun
        | .error e => some (.returned (.error e) host [])
        | .ok auction =>
            match auction.placeBid host.node.nodeInfo.id amount.toNat inputs.now with
            | .error e => some (.returned (.error e) host [])
            | .ok auction =>
                publishAndPrint libs inputs host auction
                  (placedText auction amount.toNat host.node.nodeInfo.id)

/-- `run_command`. -/
def runCommand (nMaxRetries : Nat) (host : Host) (command : Command) (fuel : Nat) :
    Option CommandEnd :=
  (joinNetwork libs host.node false nMaxRetries inputs.attempts inputs.discovery fuel).bind fun
    | .exited => some .exited
    | .joined node => perform libs inputs { host with node } fuel command

end RunCommand

/-! ## Joining -/

section Join

variable {libs : Libraries} {node : Node} {fuel fuel' : Nat} {discovery : NodeInfo → Link}

theorem attemptJoin_mono {attempt : Attempt} {result : Option NodeInfo} (hle : fuel ≤ fuel')
    (h : attemptJoin libs node attempt fuel = some result) :
    attemptJoin libs node attempt fuel' = some result := by
  unfold attemptJoin at h ⊢
  dsimp only at h ⊢
  cases hbootstrap : Client.bootstrap libs node node.config.bootstrapPeerIp
      node.config.bootstrapPeerPort attempt.bootstrap with
  | error e =>
    rw [hbootstrap] at h
    exact h
  | ok challenge =>
    obtain ⟨hash, difficulty⟩ := challenge
    rw [hbootstrap] at h
    dsimp only at h ⊢
    cases hwork : proofOfWork libs.toCrates hash difficulty fuel with
    | none =>
      rw [hwork] at h
      cases h
    | some nonce =>
      rw [hwork] at h
      rw [proofOfWork_mono hle hwork]
      exact h

/-- A client that does not stay: the loop enters the network at once. -/
theorem joinLoop_mono {n : Nat} {attempts : Nat → Attempt} {joinEnd : JoinEnd} (hle : fuel ≤ fuel')
    (h : joinLoop libs node false discovery fuel n attempts = some joinEnd) :
    joinLoop libs node false discovery fuel' n attempts = some joinEnd := by
  induction n generalizing attempts with
  | zero => exact h
  | succ n ih =>
    rw [joinLoop] at h ⊢
    cases hattempt : attemptJoin libs node (attempts 0) fuel with
    | none =>
      rw [hattempt] at h
      cases h
    | some result =>
      rw [hattempt] at h
      rw [attemptJoin_mono hle hattempt]
      cases result with
      | none => exact ih h
      | some info => exact h

theorem joinNetwork_mono {nMaxRetries : Nat} {attempts : Nat → Attempt} {joinEnd : JoinEnd}
    (hle : fuel ≤ fuel')
    (h : joinNetwork libs node false nMaxRetries attempts discovery fuel = some joinEnd) :
    joinNetwork libs node false nMaxRetries attempts discovery fuel' = some joinEnd := by
  unfold joinNetwork at h ⊢
  split at h
  · rename_i hport
    rw [if_pos hport]
    exact h
  · rename_i hport
    rw [if_neg hport]
    exact joinLoop_mono hle h

/-- Two nodes that differ in their routing tables, and in nothing else. -/
def Node.SameButTable (node node' : Node) : Prop :=
  node' = { node with routingTable := node'.routingTable }

/-- Joining changes nothing but the routing table. -/
theorem joined_node {nMaxRetries : Nat} {attempts : Nat → Attempt} {node' : Node}
    (h : joinNetwork libs node false nMaxRetries attempts discovery fuel = some (.joined node')) :
    node.SameButTable node' := by
  have hloop : ∀ n attempts,
      joinLoop libs node false discovery fuel n attempts = some (.joined node') →
        node.SameButTable node' := by
    intro n
    induction n with
    | zero => exact fun attempts h => by cases h
    | succ n ih =>
      intro attempts h
      rw [joinLoop] at h
      cases hattempt : attemptJoin libs node (attempts 0) fuel with
      | none =>
        rw [hattempt] at h
        cases h
      | some result =>
        rw [hattempt] at h
        cases result with
        | none => exact ih _ h
        | some info =>
          obtain rfl := JoinEnd.joined.inj (Option.some.inj h)
          rfl
  unfold joinNetwork at h
  split at h
  · obtain rfl := JoinEnd.joined.inj (Option.some.inj h)
    rfl
  · exact hloop _ _ h

end Join

/-! ## A lookup at one server -/

section Lookups

variable {libs : Libraries} {node : Node} {server : Server} {key : Address} {link : String → Nat → Link}

/-- The bootstrap endpoint leads to the server; at no other endpoint does
anybody listen. -/
structure OnlyServer (libs : Libraries) (node : Node) (server : Server) (inputs : Inputs)
    (link : String → Nat → Link) : Prop where
  bootstrap : link node.config.bootstrapPeerIp node.config.bootstrapPeerPort =
    server.link libs .findValue inputs
  others : ∀ e, e ≠ Lookup.bootstrapEndpoint node → link e.1 e.2 = Link.refused

namespace Lookup

/-- The endpoints that are left have been asked or refuse: a lookup finds
nothing there. -/
theorem settles_of_refused (codec : Codec Proto.Auction)
    {findValue : String → Nat → Except String FindValueResponse} (own : Address) {e : Endpoint}
    (hothers : ∀ e', e' ≠ e → ∃ error, findValue e'.1 e'.2 = .error error)
    (nodesToQuery : List NodeInfo) (queried : List String) (hasked : queryKey e.1 e.2 ∈ queried) :
    ∃ result, Loop.Settles
        (fun fuel => Loop.loop (round codec findValue own) fuel { nodesToQuery, queried }) result ∧
      ∀ auction, result ≠ .ok (some auction) := by
  induction nodesToQuery with
  | nil =>
    refine ⟨.ok none, ⟨1, fun fuel hfuel => ?_⟩, fun auction h => by cases h⟩
    obtain ⟨rounds, rfl⟩ : ∃ rounds, fuel = rounds + 1 := ⟨fuel - 1, by omega⟩
    rfl
  | cons node rest ih =>
    by_cases hold : queryKey node.ip node.port ∈ queried
    · obtain ⟨result, ⟨enough, hsettled⟩, hnone⟩ := ih
      refine ⟨result, ⟨enough + 1, fun fuel hfuel => ?_⟩, hnone⟩
      obtain ⟨rounds, rfl⟩ : ∃ rounds, fuel = rounds + 1 := ⟨fuel - 1, by omega⟩
      dsimp only
      rw [Loop.loop, round]
      dsimp only
      rw [if_pos hold]
      exact hsettled rounds (by omega)
    · have hne : node.endpoint ≠ e := by
        rintro rfl
        exact hold hasked
      obtain ⟨error, herror⟩ := hothers node.endpoint hne
      refine ⟨.error s!"Failed to query {node.ip}:{node.port} for auction",
        ⟨1, fun fuel hfuel => ?_⟩, ?_⟩
      · obtain ⟨rounds, rfl⟩ : ∃ rounds, fuel = rounds + 1 := ⟨fuel - 1, by omega⟩
        dsimp only
        rw [Loop.loop, round]
        dsimp only
        rw [if_neg hold, show findValue node.ip node.port = .error error from herror]
      · exact fun auction h => by cases h

end Lookup

/-- What a lookup asks the endpoints. -/
def askThrough (libs : Libraries) (node : Node) (link : String → Nat → Link) (key : Address)
    (ip : String) (port : Nat) : Except String FindValueResponse :=
  Client.findValue libs node ip port (link ip port) key

variable {inputs : Inputs}
  (h : server.Serves libs node) (honly : OnlyServer libs node server inputs link)
  (hvalue : PayloadType.findValueResponse.IsValue
    (Server.valueOrNodes libs.prost server.host.node key))

include h honly hvalue

theorem askThrough_bootstrap :
    askThrough libs node link key node.config.bootstrapPeerIp node.config.bootstrapPeerPort =
      .ok (Server.valueOrNodes libs.prost server.host.node key) := by
  unfold askThrough
  rw [honly.bootstrap]
  exact Client.findValue_link h inputs _ _ hvalue

/-- The server has the auction: the client gets it as it is received. -/
theorem lookup_of_held {auction : Auction} (hlocal : node.findAuction key = none)
    (hheld : server.host.node.findAuction key = some auction)
    (hcarries : libs.prost.auction.Carries auction.toProto) :
    Loop.Settles (Lookup.findAuctionInNetwork libs.prost.auction (askThrough libs node link key)
      node key) (.ok (some auction.received)) := by
  have hanswer := askThrough_bootstrap h honly hvalue
  have hresponse : Server.valueOrNodes libs.prost server.host.node key =
      { result := some (.value (libs.prost.auction.encode auction.toProto)) } := by
    unfold Server.valueOrNodes
    rw [hheld]
  refine ⟨1, fun fuel hfuel => ?_⟩
  obtain ⟨rounds, rfl⟩ : ∃ rounds, fuel = rounds + 1 := ⟨fuel - 1, by omega⟩
  unfold Lookup.findAuctionInNetwork
  rw [hlocal]
  dsimp only
  rw [Loop.loop, Lookup.round, Lookup.start]
  dsimp only
  rw [if_neg List.not_mem_nil, hanswer, hresponse]
  dsimp only
  rw [Lookup.decodeValue, hcarries]
  dsimp only
  rw [Auction.tryFrom_toProto_received]
  rfl

/-- The server does not have it: the client finds nothing. -/
theorem lookup_of_missing (hlocal : node.findAuction key = none)
    (hmissing : server.host.node.findAuction key = none) :
    ∃ result, Loop.Settles (Lookup.findAuctionInNetwork libs.prost.auction
        (askThrough libs node link key) node key) result ∧
      ∀ auction, result ≠ .ok (some auction) := by
  have hanswer := askThrough_bootstrap h honly hvalue
  have hresponse : Server.valueOrNodes libs.prost server.host.node key =
      { result := some (.nodes (server.host.node.getClosestNodesToKey key)) } := by
    unfold Server.valueOrNodes
    rw [hmissing]
  have hothers : ∀ e, e ≠ Lookup.bootstrapEndpoint node →
      ∃ error, askThrough libs node link key e.1 e.2 = .error error := by
    intro e hne
    unfold askThrough
    rw [honly.others e hne]
    exact ⟨_, rfl⟩
  obtain ⟨result, ⟨enough, hsettled⟩, hnone⟩ :=
    Lookup.settles_of_refused libs.prost.auction node.nodeInfo.id hothers
      ((server.host.node.routingTable.getKClosestNodes key [server.host.node.nodeInfo]).filter
        fun n => n.id ≠ node.nodeInfo.id)
      [Lookup.queryKey node.config.bootstrapPeerIp node.config.bootstrapPeerPort]
      (List.mem_singleton_self _)
  refine ⟨result, ⟨enough + 1, fun fuel hfuel => ?_⟩, hnone⟩
  obtain ⟨rounds, rfl⟩ : ∃ rounds, fuel = rounds + 1 := ⟨fuel - 1, by omega⟩
  unfold Lookup.findAuctionInNetwork
  rw [hlocal]
  dsimp only
  rw [Loop.loop, Lookup.round, Lookup.start]
  dsimp only
  rw [if_neg List.not_mem_nil, hanswer, hresponse]
  dsimp only
  rw [Node.getClosestNodesToKey, Lookup.pushNodes_toInformation]
  exact hsettled rounds (by omega)

end Lookups

end KademliaAuction
