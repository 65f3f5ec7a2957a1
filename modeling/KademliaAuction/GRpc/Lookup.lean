/-
KademliaAuction.GRpc.Lookup — looking for an auction in the network
(`find_auction_in_network` of `src/g_rpc/client.rs`).

The client looks into its own store, and then asks the bootstrap node and the
nodes it is referred to, in order, until one answers with a value. What
`find_value` returns for an ip and a port is the parameter `findValue`, and
the encoding of auctions is `codec`. `Lookup` has the two variables of the
loop.

The loop is a breadth-first search that leaves at the first endpoint with a
`verdict`: one that fails to answer, gives a value, or names a node that
does not parse (`round_search`). So a lookup gives an auction if the own store
has it, or if the first of these endpoints gives it
(`findAuctionInNetwork_eq_ok_iff`).
-/
import KademliaAuction.GRpc.Client
import KademliaAuction.Lib.BreadthFirst
import KademliaAuction.OfferKeys

namespace KademliaAuction

open Blockchain Proto Routing Lib

/-- The variables of `find_auction_in_network`. -/
structure Lookup where
  nodesToQuery : List NodeInfo
  queried : List String

namespace Lookup

/-- The text under which an endpoint is put into `queried`. -/
def queryKey (ip : String) (port : Nat) : String := s!"{ip}:{port}"

/-- `for node_info in nodes.nodes`: the own node is left out. -/
def pushNodes (own : Address) :
    List NodeInformation → List NodeInfo → Except String (List NodeInfo)
  | [], nodesToQuery => .ok nodesToQuery
  | nodeInfo :: rest, nodesToQuery =>
      match NodeInfo.tryFrom nodeInfo with
      | .error e => .error e
      | .ok node =>
          pushNodes own rest (if node.id ≠ own then nodesToQuery ++ [node] else nodesToQuery)

/-- `Auction::decode` and `Auction::try_from`. -/
def decodeValue (codec : Codec Proto.Auction) (value : Bytes) : Except String Auction :=
  match codec.decode value with
  | .error _ => .error "Failed to decode auction value"
  | .ok proto => Auction.tryFrom proto

variable (codec : Codec Proto.Auction) (findValue : String → Nat → Except String FindValueResponse)

/-- One round of the loop. -/
def round (own : Address) (s : Lookup) : Lookup ⊕ Except String (Option Auction) :=
  match s.nodesToQuery with
  | [] => .inr (.ok none)
  | node :: rest =>
      let queryKey := queryKey node.ip node.port
      if queryKey ∈ s.queried then .inl { s with nodesToQuery := rest }
      else
        let queried := queryKey :: s.queried
        match findValue node.ip node.port with
        | .error _ => .inr (.error s!"Failed to query {node.ip}:{node.port} for auction")
        | .ok response =>
            match response.result with
            | some (.value value) => .inr ((decodeValue codec value).map some)
            | some (.nodes nodes) =>
                match pushNodes own nodes rest with
                | .error e => .inr (.error e)
                | .ok nodesToQuery => .inl { nodesToQuery, queried }
            | none => .inl { nodesToQuery := rest, queried }

/-- The bootstrap node is the first to be asked. -/
def start (node : Node) (key : Address) : Lookup where
  nodesToQuery :=
    [{ id := key, ip := node.config.bootstrapPeerIp, port := node.config.bootstrapPeerPort }]
  queried := []

/-- `find_auction_in_network`, for at most `fuel` rounds. -/
def findAuctionInNetwork (node : Node) (key : Address) (fuel : Nat) :
    Option (Except String (Option Auction)) :=
  match node.findAuction key with
  | some auction => some (.ok (some auction))
  | none => Loop.loop (round codec findValue node.nodeInfo.id) fuel (start node key)

/-- The `Bid` command: what it publishes, if anything. -/
def bidCommand (node : Node) (key : Address) (amount : Nat) (now : Int) (fuel : Nat) :
    Option Publication :=
  match findAuctionInNetwork codec findValue node key fuel with
  | some (.ok (some auction)) => Client.bid node auction amount now
  | _ => none

/-! ## Endpoints -/

/-- An ip and a port: whom a lookup can ask. -/
abbrev Endpoint := String × Nat

end Lookup

/-- Where a node is asked. -/
def NodeInfo.endpoint (node : NodeInfo) : Lookup.Endpoint := (node.ip, node.port)

namespace Lookup

theorem pushNodes_eq (own : Address) (nodes : List NodeInformation) (queue : List NodeInfo) :
    pushNodes own nodes queue = (pushNodes own nodes []).map (queue ++ ·) := by
  induction nodes generalizing queue with
  | nil => simp [pushNodes, Except.map]
  | cons nodeInfo rest ih =>
    unfold pushNodes
    cases NodeInfo.tryFrom nodeInfo with
    | error e => rfl
    | ok node =>
      dsimp only
      rw [ih, ih (if node.id ≠ own then [] ++ [node] else [])]
      cases pushNodes own rest [] with
      | error e => rfl
      | ok pushed =>
        split
        · simp [Except.map]
        · simp [Except.map]

theorem pushNodes_toInformation (own : Address) (contacts : List NodeInfo) :
    pushNodes own (contacts.map NodeInfo.toInformation) [] =
      .ok (contacts.filter fun node => node.id ≠ own) := by
  induction contacts with
  | nil => rfl
  | cons contact contacts ih =>
    rw [List.map_cons, pushNodes, NodeInfo.tryFrom_toInformation]
    dsimp only
    rw [pushNodes_eq, ih]
    by_cases hown : contact.id = own
    · simp [hown, Except.map]
    · simp [hown, Except.map]

/-- The text of an endpoint determines it: the last colon is before the
port. -/
theorem queryKey_inj {e e' : Endpoint} (h : queryKey e.1 e.2 = queryKey e'.1 e'.2) : e = e' := by
  have hlists : e.1.toList ++ ':' :: (toString e.2).toList =
      e'.1.toList ++ ':' :: (toString e'.2).toList := by
    have hcolon : ∀ s t : String, (s ++ ":" ++ t).toList = s.toList ++ ':' :: t.toList := by
      intro s t
      simp [String.toList_append]
    rw [← hcolon, ← hcolon]
    exact congrArg String.toList h
  have hdigits : ∀ n : Nat, ':' ∉ (toString n).toList := by
    intro n hmem
    rw [Nat.toString_eq_repr, Nat.toList_repr] at hmem
    exact absurd (Nat.isDigit_of_mem_toDigits (by omega) (by omega) hmem) (by decide)
  -- A colon in what the one ip has more would be in the other's port.
  have hcut : ∀ {as bs cs ds w : List Char}, ':' ∉ bs → cs = as ++ w →
      ':' :: bs = w ++ ':' :: ds → cs = as ∧ bs = ds := by
    intro as bs cs ds w hbs hcs hrest
    cases w with
    | nil => exact ⟨by simpa using hcs, (List.cons.inj hrest).2⟩
    | cons c w =>
      rw [(List.cons.inj hrest).2] at hbs
      simp at hbs
  have hparts : e.1.toList = e'.1.toList ∧ (toString e.2).toList = (toString e'.2).toList := by
    rcases List.append_eq_append_iff.mp hlists with ⟨w, hip, hport⟩ | ⟨w, hip, hport⟩
    · obtain ⟨h1, h2⟩ := hcut (hdigits e.2) hip hport
      exact ⟨h1.symm, h2⟩
    · obtain ⟨h1, h2⟩ := hcut (hdigits e'.2) hip hport
      exact ⟨h1, h2.symm⟩
  have hport : e.2 = e'.2 := Offer.toString_nat_inj (String.toList_inj.mp hparts.2)
  exact Prod.ext (String.toList_inj.mp hparts.1) hport

theorem queryKey_mem_iff {visited : List Endpoint} {e : Endpoint} :
    queryKey e.1 e.2 ∈ visited.map (fun e => queryKey e.1 e.2) ↔ e ∈ visited := by
  rw [List.mem_map]
  constructor
  · intro ⟨e', he', heq⟩
    exact queryKey_inj heq ▸ he'
  · exact fun he => ⟨e, he, rfl⟩

/-! ## The search -/

/-- How a lookup ends at an endpoint, unless it goes on. -/
def verdict (codec : Codec Proto.Auction)
    (findValue : String → Nat → Except String FindValueResponse) (own : Address) (e : Endpoint) :
    Option (Except String Auction) :=
  match findValue e.1 e.2 with
  | .error _ => some (.error s!"Failed to query {e.1}:{e.2} for auction")
  | .ok response =>
      match response.result with
      | some (.value value) => some (decodeValue codec value)
      | some (.nodes nodes) =>
          match pushNodes own nodes [] with
          | .error e => some (.error e)
          | .ok _ => none
      | none => none

/-- The endpoints that an endpoint refers the client to. -/
def referred (findValue : String → Nat → Except String FindValueResponse) (own : Address)
    (e : Endpoint) : List Endpoint :=
  match findValue e.1 e.2 with
  | .ok { result := some (.nodes nodes) } =>
      match pushNodes own nodes [] with
      | .error _ => []
      | .ok pushed => pushed.map NodeInfo.endpoint
  | _ => []

/-- The result of the loop, by the verdict it leaves with. -/
def resultOf : Option (Except String Auction) → Except String (Option Auction)
  | none => .ok none
  | some outcome => outcome.map some

theorem resultOf_eq_ok_some {outcome : Option (Except String Auction)} {auction : Auction} :
    .ok (some auction) = resultOf outcome ↔ outcome = some (.ok auction) := by
  cases outcome with
  | none => simp [resultOf]
  | some outcome =>
    cases outcome with
    | error e => simp [resultOf, Except.map]
    | ok a => simp [resultOf, Except.map, eq_comm]

/-- The loop and a search of the endpoints are at the same point. -/
def AtSame (s : Lookup) (t : Search.State Endpoint) : Prop :=
  s.queried = t.visited.map (fun e => queryKey e.1 e.2) ∧
    t.pending = s.nodesToQuery.map NodeInfo.endpoint

variable {codec : Codec Proto.Auction}
  {findValue : String → Nat → Except String FindValueResponse} {own : Address}

/-- A round of the loop is a round of a breadth-first search. -/
theorem round_search {s : Lookup} {t : Search.State Endpoint} (h : AtSame s t) :
    (∃ s' t', s.round codec findValue own = .inl s' ∧
      Search.bfsRound (referred findValue own) (verdict codec findValue own) t = .inl t' ∧
        AtSame s' t') ∨
    ∃ outcome, s.round codec findValue own = .inr (resultOf outcome) ∧
      Search.bfsRound (referred findValue own) (verdict codec findValue own) t = .inr outcome := by
  obtain ⟨nodesToQuery, queried⟩ := s
  obtain ⟨visited, pending⟩ := t
  obtain ⟨hqueried, hpending⟩ := h
  dsimp only at hqueried hpending
  subst hqueried hpending
  cases nodesToQuery with
  | nil => exact Or.inr ⟨none, rfl, rfl⟩
  | cons node rest =>
    have hmem : queryKey node.ip node.port ∈ visited.map (fun e => queryKey e.1 e.2) ↔
        node.endpoint ∈ visited := queryKey_mem_iff (e := node.endpoint)
    unfold round
    rw [List.map_cons, Search.bfsRound]
    dsimp only
    by_cases hold : node.endpoint ∈ visited
    · rw [if_pos (hmem.mpr hold), if_pos hold]
      exact Or.inl ⟨_, _, rfl, rfl, rfl, rfl⟩
    · rw [if_neg (fun hkey => hold (hmem.mp hkey)), if_neg hold]
      unfold verdict referred NodeInfo.endpoint
      dsimp only
      cases findValue node.ip node.port with
      | error e => exact Or.inr ⟨_, rfl, rfl⟩
      | ok response =>
        obtain ⟨result⟩ := response
        cases result with
        | none => exact Or.inl ⟨_, _, rfl, rfl, rfl, List.append_nil _⟩
        | some result =>
          cases result with
          | value value => exact Or.inr ⟨_, rfl, rfl⟩
          | nodes nodes =>
            dsimp only
            rw [pushNodes_eq]
            cases pushNodes own nodes [] with
            | error e => exact Or.inr ⟨_, rfl, rfl⟩
            | ok pushed => exact Or.inl ⟨_, _, rfl, rfl, rfl, (List.map_append ..).symm⟩

/-- The endpoint of the bootstrap node. -/
def bootstrapEndpoint (node : Node) : Endpoint :=
  (node.config.bootstrapPeerIp, node.config.bootstrapPeerPort)

/-- Where a lookup stops that starts at the bootstrap node. -/
def StopsAt (codec : Codec Proto.Auction)
    (findValue : String → Nat → Except String FindValueResponse) (node : Node) (e : Endpoint) :
    Prop :=
  Search.FirstStop (referred findValue node.nodeInfo.id) (verdict codec findValue node.nodeInfo.id)
    [bootstrapEndpoint node] e

variable {node : Node} {key : Address}

/-- **When a lookup gives an auction**: the own store has it, or the first
stop of the search gives it. -/
theorem findAuctionInNetwork_eq_ok_iff {auction : Auction} :
    (∃ fuel, findAuctionInNetwork codec findValue node key fuel = some (.ok (some auction))) ↔
      node.findAuction key = some auction ∨
        (node.findAuction key = none ∧ ∃ e, StopsAt codec findValue node e ∧
          verdict codec findValue node.nodeInfo.id e = some (.ok auction)) := by
  cases hlocal : node.findAuction key with
  | some stored =>
    unfold findAuctionInNetwork
    simp [hlocal]
  | none =>
    unfold findAuctionInNetwork
    simp only [hlocal, reduceCtorEq, true_and, false_or]
    show Loop.Ends (round codec findValue node.nodeInfo.id) (start node key) (.ok (some auction)) ↔ _
    rw [Loop.ends_iff_of_simulation (fun s t h => round_search h)
      (show AtSame (start node key) ⟨[], [bootstrapEndpoint node]⟩ from ⟨rfl, rfl⟩)]
    simp only [resultOf_eq_ok_some, exists_eq_right]
    exact Search.ends_bfsRound_iff

end Lookup

end KademliaAuction
