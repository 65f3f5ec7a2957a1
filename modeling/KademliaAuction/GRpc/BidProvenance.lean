/-
KademliaAuction.GRpc.BidProvenance — where the bids in a store come from.

A STORE request is signed by whoever sends it, and carries a whole auction
with all its bids. A bid has the id of its buyer and no signature, and neither
`store` nor `try_from` compares buyer and sender. `openNetwork` has any number
of participants, who place bids with `place_bid`, publish, and forward what
they are sent, and an adversary who signs what it likes with its own key and
delivers any message to anyone, as long as no signature is forged.

`bids_have_source`: in every run, each bid in a participant's store was
placed by its buyer, or came in a STORE that the adversary signed. In
`bid_in_anothers_name` it did, and the buyer has placed none.
-/
import KademliaAuction.AuctionTheorems
import KademliaAuction.GRpc.Client
import KademliaAuction.GRpc.SettlementTheorems
import KademliaAuction.GRpc.TrialDecoding

namespace KademliaAuction

open Blockchain Proto Routing Lib

/-! ## STORE messages -/

/-- The auction that the payload of a message has as a STORE request. -/
def storedIn (libs : Libraries) (m : AuthenticatedMessage) : Option Auction :=
  match libs.prost.storeRequest.decode m.payload with
  | .error _ => none
  | .ok request => request.auction.bind fun proto => (Auction.tryFrom proto).toOption

/-- The STORE request for an auction. -/
def storeOf (auction : Auction) : StoreRequest := { auction := some auction.toProto }

/-- `send_store_to_node`: the message that is sent, if it can be signed. -/
def signStore (libs : Libraries) (node : Node) (auction : Auction) : List AuthenticatedMessage :=
  match signAndWrap libs libs.prost.storeRequest node.nodeInfo (storeOf auction)
    node.config.privateKey node.config.publicKey with
  | .error _ => []
  | .ok message => [message]

/-! ## The network -/

/-- The participants; the auctions that each is about to publish; what each
has offered and bid; and the messages signed so far. -/
structure OpenNetwork (ι : Type) where
  servers : ι → Server
  pending : ι → List Auction
  begun : ι → List Publication
  signed : List AuthenticatedMessage

/-- The steps. A command makes its publication on a copy; publishing it is a
step of its own. `request` delivers any message to a participant, and `sign`
is a message of the adversary, or one of a participant that is sent as
something else than a STORE. -/
inductive OpenAction (ι : Type) where
  | createAuction (node : ι) (object : String) (initialValue : Nat) (durationMs now : Int)
  | bid (node : ι) (key : Address) (source : ι) (amount : Nat) (now : Int)
  | bidOnRandomAuction (node : ι) (auction : Auction) (increment : Nat) (now : Int)
  | close (node : ι) (now : Int) (order : List Auction) (effects : Effects)
  | publish (node : ι) (n : Nat) (effects : Effects)
  | request (node : ι) (r : ServerRequest)
  | sign (own : AuthenticatedMessage)
  | restart (node : ι) (config : Config)

/-- The libraries, and the public key of the adversary's pair. -/
structure OpenSite where
  libs : Libraries
  adversaryKey : Bytes

namespace OpenNetwork

variable {ι : Type} [DecidableEq ι] (site : OpenSite) (net : OpenNetwork ι)

/-- The node in memory. -/
def node (i : ι) : Node := (net.servers i).host.node

/-- What one participant does: it goes on as `server` with these auctions to
publish, having begun and sent something. -/
def act (i : ι) (server : Server) (pending : List Auction) (new : List Publication)
    (sent : List AuthenticatedMessage) : OpenNetwork ι where
  servers := Function.update net.servers i server
  pending := Function.update net.pending i pending
  begun := Function.update net.begun i (net.begun i ++ new)
  signed := net.signed ++ sent

/-- A command makes a publication. -/
def begin (i : ι) (p : Publication) : OpenNetwork ι :=
  net.act i (net.servers i) (net.pending i ++ [p.auction]) [p] []

/-- `find_auction_in_network`: the version in the node's own store, else the
one that a participant asked for it holds, as it is received. -/
def found (i source : ι) (key : Address) : Option Auction :=
  match (net.node i).findAuction key with
  | some auction => some auction
  | none =>
      ((net.node source).findAuction key).bind fun auction =>
        (Auction.tryFrom auction.toProto).toOption

/-- `publish_auction`: store locally, then send to the bootstrap node, unless
this is the bootstrap node or storing failed. -/
def publishAuction (i : ι) (n : Nat) (effects : Effects) (auction : Auction) : OpenNetwork ι :=
  let server := net.servers i
  let stored := server.host.storeAuction site.libs.toCrates effects auction
  let sent := if stored.1.isOk ∧
      server.host.node.nodeInfo.port ≠ server.host.node.config.bootstrapPeerPort then
    signStore site.libs server.host.node auction else []
  net.act i { server with host := stored.2 } ((net.pending i).eraseIdx n) [] sent

/-- What a participant sends on when it handles a request. -/
def forwarded (server : Server) (r : ServerRequest) : List AuthenticatedMessage :=
  if r.rpc = .store ∧ (server.store site.libs r.inputs r.message).forwards ≠ [] then
    (storedIn site.libs r.message).toList.flatMap (signStore site.libs server.host.node)
  else []

/-- One step. A participant that starts again has its key pair and its data
directory. -/
def step : OpenAction ι → Option (OpenNetwork ι)
  | .createAuction i object initialValue durationMs now =>
      some (net.begin i (Client.createAuction site.libs.toCrates (net.node i) object initialValue
        durationMs now))
  | .bid i key source amount now =>
      ((net.found i source key).bind fun found => Client.bid (net.node i) found amount now).map
        (net.begin i)
  | .bidOnRandomAuction i auction increment now =>
      (Client.bidOnRandomAuction (net.node i) auction increment now).map (net.begin i)
  | .close i now order effects =>
      if order.Perm (net.node i).auctions.elems then
        let server := net.servers i
        let closing := server.host.closeExpiredAuctions site.libs.toCrates effects now order
        some (net.act i { server with host := closing.2 }
          (net.pending i ++ closing.1.toOption.getD []) [] [])
      else none
  | .publish i n effects => (net.pending i)[n]?.map (net.publishAuction site i n effects)
  | .request i r =>
      let server := net.servers i
      some (net.act i (server.handle site.libs r.rpc r.inputs r.message) (net.pending i) []
        (forwarded site server r))
  | .sign own => some { net with signed := net.signed ++ [own] }
  | .restart i config =>
      let old := (net.node i).config
      if config.dataDir = old.dataDir ∧ config.publicKey = old.publicKey ∧
          config.privateKey = old.privateKey then
        some (net.act i (Server.new ((net.servers i).host.restart config)) [] [] [])
      else none

end OpenNetwork

variable {ι : Type} [DecidableEq ι]

/-- Participants with empty stores, ids of their own keys and nothing begun;
the adversary has another key. -/
structure OpenNetwork.Start (site : OpenSite) (net : OpenNetwork ι) : Prop where
  stores : ∀ i, (net.node i).auctions.elems = [] ∧ (net.servers i).host.disk.auctions = .absent
  ids : ∀ i, (net.node i).nodeInfo.id = ownId site.libs.toCrates (net.node i).config.publicKey
  keys : ∀ i, (net.node i).config.publicKey ≠ site.adversaryKey
  nothing : (∀ i, net.pending i = [] ∧ net.begun i = []) ∧ net.signed = []

def openNetwork (site : OpenSite) : System (OpenNetwork ι) (OpenAction ι) where
  Init := OpenNetwork.Start site
  next := fun net action => net.step site action

namespace OpenNetwork

/-- No signature is forged; what participants sign besides their STOREs, if it
reads as a STORE at all, has only bids on auctions that they hold; and what
they send is a value of the Rust type. -/
def Honest (site : OpenSite) (net : OpenNetwork ι) : OpenAction ι → Prop
  | .sign own => own.publicKey = site.adversaryKey ∨
      ∀ auction, storedIn site.libs own = some auction → ∀ bid ∈ auction.bids,
        ∃ i, ∃ held ∈ (net.node i).auctions, bid ∈ held.bids
  | .request _ r => Unforged site.libs net.signed r.message ∧
      ∀ auction, storedIn site.libs r.message = some auction →
        PayloadType.storeRequest.IsValue (storeOf auction)
  | .publish i n _ => ∀ auction, (net.pending i)[n]? = some auction →
      PayloadType.storeRequest.IsValue (storeOf auction)
  | _ => True

/-- The buyer of the bid is a participant, who has placed it with
`place_bid`. -/
def PlacedByBuyer (net : OpenNetwork ι) (bid : Bid) : Prop :=
  ∃ j, (net.node j).nodeInfo.id = bid.buyer ∧ ∃ p ∈ net.begun j, p.newBid = some bid

/-- The adversary has signed a STORE with this bid. -/
def SentByAdversary (site : OpenSite) (net : OpenNetwork ι) (bid : Bid) : Prop :=
  ∃ own ∈ net.signed, own.publicKey = site.adversaryKey ∧
    ∃ auction, storedIn site.libs own = some auction ∧ bid ∈ auction.bids

/-- All bids of the auction have been placed by their buyers, or sent by the
adversary. -/
def HasSources (site : OpenSite) (net : OpenNetwork ι) (auction : Auction) : Prop :=
  ∀ bid ∈ auction.bids, net.PlacedByBuyer bid ∨ net.SentByAdversary site bid

end OpenNetwork

/-! ## What messages carry -/

section Messages

variable {libs : Libraries}

/-- Only the payload of a message says what it carries. -/
theorem storedIn_congr {own m : AuthenticatedMessage} (h : own.payload = m.payload) :
    storedIn libs own = storedIn libs m := by
  unfold storedIn
  rw [h]

/-- A payload that is read as the STORE of an auction carries it, as it is
received. -/
theorem storedIn_of_decode {m : AuthenticatedMessage} {auction : Auction}
    (h : libs.prost.storeRequest.decode m.payload = .ok (storeOf auction)) :
    storedIn libs m = some auction.received := by
  unfold storedIn
  rw [h]
  show (Auction.tryFrom auction.toProto).toOption = _
  rw [Auction.tryFrom_toProto_received]
  rfl

/-- What is kept is what a message carries whose signature is right. -/
theorem storedIn_of_keeps {server : Server} {rpc : Rpc} {m : AuthenticatedMessage} {auction : Auction}
    (h : server.keeps libs rpc m = some auction) :
    storedIn libs m = some auction ∧
      libs.openSsl.verify m.publicKey m.payload m.signature = .ok true := by
  cases rpc with
  | store =>
    unfold Server.keeps at h
    dsimp only at h
    cases hopen : Server.openRequest libs libs.prost.storeRequest m with
    | error status =>
      rw [hopen] at h
      cases h
    | ok opened =>
      obtain ⟨payload, senderProto, sender⟩ := opened
      obtain ⟨hverify, _, _, _, hdecode⟩ := Server.openRequest_eq_ok.mp hopen
      rw [hopen] at h
      obtain ⟨proto, hproto, h⟩ := Option.bind_eq_some_iff.mp h
      obtain ⟨decoded, hdecoded, h⟩ := Option.bind_eq_some_iff.mp h
      split at h
      · obtain rfl := Option.some.inj h
        refine ⟨?_, hverify⟩
        unfold storedIn
        rw [hdecode]
        exact Option.bind_eq_some_iff.mpr ⟨proto, hproto, hdecoded⟩
      · cases h
  | ping => cases h
  | bootstrap => cases h
  | challengeResolution => cases h
  | findNode => cases h
  | findValue => cases h

/-- A STORE that is opened is kept by a node among the closest to the key. -/
theorem keeps_of_openRequest {server : Server} {m : AuthenticatedMessage} {auction : Auction}
    {senderProto : NodeInformation} {sender : NodeInfo}
    (hopen : Server.openRequest libs libs.prost.storeRequest m =
      .ok (storeOf auction, senderProto, sender))
    (hclosest : server.host.node.nodeInfo.toInformation ∈
      server.host.node.getClosestNodesToKey auction.key) :
    server.keeps libs .store m = some auction.received := by
  have hself : ((server.host.node.getClosestNodesToKey auction.received.key).any fun n =>
      n.id = server.host.node.nodeInfo.id.toStr) = true := by
    rw [auction.received_key]
    exact List.any_eq_true.mpr ⟨_, hclosest, by simp [NodeInfo.toInformation]⟩
  unfold Server.keeps
  simp only [hopen, storeOf, Option.bind_eq_bind, Option.bind_some,
    Auction.tryFrom_toProto_received, Except.toOption, hself, if_true]

/-- A STORE that is sent carries the auction, as it is received. -/
theorem storedIn_signStore (hprost : libs.prost.IsProto3) {node : Node} {auction : Auction}
    (hvalue : PayloadType.storeRequest.IsValue (storeOf auction)) {own : AuthenticatedMessage}
    (h : own ∈ signStore libs node auction) : storedIn libs own = some auction.received := by
  have hcodec : libs.prost.storeRequest.IsProto3 StoreRequest.messageType := hprost .storeRequest
  have hdecode : libs.prost.storeRequest.decode (libs.prost.storeRequest.encode (storeOf auction)) =
      .ok (storeOf auction) := by
    rw [hcodec.decode, hcodec.encode]
    exact PayloadType.decode_encode hvalue
  unfold signStore at h
  split at h
  · cases h
  · rename_i message hwrap
    obtain rfl := List.mem_singleton.mp h
    obtain ⟨_, _, hown⟩ := signAndWrap_eq_ok.mp hwrap
    exact storedIn_of_decode (by rw [hown]; exact hdecode)

end Messages

/-! ## The invariant -/

namespace OpenNetwork

/-- Stores, files, auctions to be published and signed STOREs: all their bids
have sources. -/
structure AllHaveSources (site : OpenSite) (net : OpenNetwork ι) : Prop where
  hosts : ∀ i, (net.servers i).host.Holds (net.HasSources site)
  pending : ∀ i, ∀ auction ∈ net.pending i, net.HasSources site auction
  signed : ∀ own ∈ net.signed, ∀ auction, storedIn site.libs own = some auction →
    net.HasSources site auction

variable {site : OpenSite} {net net' : OpenNetwork ι}

/-- The same nodes, with more begun and signed. -/
structure Extends (net net' : OpenNetwork ι) : Prop where
  ids : ∀ i, (net'.node i).nodeInfo.id = (net.node i).nodeInfo.id
  begun : ∀ i, net.begun i ⊆ net'.begun i
  signed : net.signed ⊆ net'.signed

omit [DecidableEq ι] in
/-- Sources remain sources. -/
theorem HasSources.mono (hext : net.Extends net') {auction : Auction}
    (h : net.HasSources site auction) : net'.HasSources site auction := by
  intro bid hbid
  rcases h bid hbid with ⟨j, hid, p, hp, hnew⟩ | ⟨own, hown, hkey, carried, hcarried, hmem⟩
  · exact Or.inl ⟨j, (hext.ids j).trans hid, p, hext.begun j hp, hnew⟩
  · exact Or.inr ⟨own, hext.signed hown, hkey, carried, hcarried, hmem⟩

omit [DecidableEq ι] in
/-- The sources are those of the bids. -/
theorem HasSources.of_bids {auction auction' : Auction} (h : net.HasSources site auction)
    (hbids : auction'.bids = auction.bids) : net.HasSources site auction' := by
  unfold HasSources
  rw [hbids]
  exact h

section Act

variable {i : ι} {server : Server} {pending : List Auction} {new : List Publication}
  {sent : List AuthenticatedMessage}

theorem servers_act : (net.act i server pending new sent).servers i = server := by
  simp [act]

theorem extends_act (hid : server.host.node.nodeInfo.id = (net.node i).nodeInfo.id) :
    net.Extends (net.act i server pending new sent) := by
  refine ⟨fun j => ?_, fun j p hp => ?_, List.subset_append_left _ _⟩
  · by_cases hj : j = i
    · subst hj
      rw [← hid, node, servers_act]
    · simp [act, node, hj]
  · unfold act
    by_cases hj : j = i
    · subst hj
      simpa using Or.inl hp
    · simpa [hj] using hp

/-- What one participant does keeps the invariant if its auctions and what it
sends have sources. -/
theorem AllHaveSources.act (h : net.AllHaveSources site)
    (hid : server.host.node.nodeInfo.id = (net.node i).nodeInfo.id)
    (hhost : server.host.Holds ((net.act i server pending new sent).HasSources site))
    (hpending : ∀ auction ∈ pending, (net.act i server pending new sent).HasSources site auction)
    (hsent : ∀ own ∈ sent, ∀ auction, storedIn site.libs own = some auction →
      (net.act i server pending new sent).HasSources site auction) :
    (net.act i server pending new sent).AllHaveSources site := by
  have hext : net.Extends (net.act i server pending new sent) := extends_act hid
  refine ⟨fun j => ?_, fun j auction hmem => ?_, fun own hown auction hstored => ?_⟩
  · by_cases hj : j = i
    · subst hj
      rw [servers_act]
      exact hhost
    · have hsame : ((net.act i server pending new sent).servers j) = net.servers j := by
        simp [OpenNetwork.act, hj]
      rw [hsame]
      exact (h.hosts j).mono fun _ => HasSources.mono hext
  · by_cases hj : j = i
    · subst hj
      exact hpending auction (by simpa [OpenNetwork.act] using hmem)
    · have hold : auction ∈ net.pending j := by simpa [OpenNetwork.act, hj] using hmem
      exact (h.pending j auction hold).mono hext
  · rcases List.mem_append.mp hown with hold | hnew
    · exact (h.signed own hold auction hstored).mono hext
    · exact hsent own hnew auction hstored

end Act

/-- A command that bids in its node's name on an auction with sources. -/
theorem AllHaveSources.begin (h : net.AllHaveSources site) {i : ι} {p : Publication}
    (hbase : net.HasSources site p.base)
    (hbuyer : ∀ bid, p.newBid = some bid → bid.buyer = (net.node i).nodeInfo.id) :
    (net.begin i p).AllHaveSources site := by
  have hext : net.Extends (net.begin i p) := extends_act rfl
  refine h.act rfl ((h.hosts i).mono fun _ => HasSources.mono hext) (fun auction hmem => ?_)
    fun own hown => nomatch hown
  rcases List.mem_append.mp hmem with hold | hnew
  · exact (h.pending i auction hold).mono hext
  · obtain rfl := List.mem_singleton.mp hnew
    intro bid hbid
    rw [p.auction_bids, List.mem_append, Option.mem_toList] at hbid
    rcases hbid with hbefore | hplaced
    · exact hbase.mono hext bid hbefore
    · refine Or.inl ⟨i, (hext.ids i).trans (hbuyer bid hplaced).symm, p, ?_, hplaced⟩
      simp [OpenNetwork.act]

omit [DecidableEq ι] in
/-- What a command finds is the version of some store. -/
theorem AllHaveSources.found (h : net.AllHaveSources site) {i source : ι} {key : Address}
    {found : Auction} (hfound : net.found i source key = some found) :
    net.HasSources site found := by
  unfold OpenNetwork.found at hfound
  split at hfound
  · rename_i auction hlocal
    obtain rfl := Option.some.inj hfound
    exact (h.hosts i).store auction (KeyedSet.find_eq_some.mp hlocal).1
  · obtain ⟨auction, hremote, hreceived⟩ := Option.bind_eq_some_iff.mp hfound
    rw [Auction.tryFrom_toProto_received] at hreceived
    obtain rfl : auction.received = found := Option.some.inj hreceived
    exact ((h.hosts source).store auction (KeyedSet.find_eq_some.mp hremote).1).of_bids
      auction.received_bids

omit [DecidableEq ι] in
/-- What a message carries whose signature is right and not forged. -/
theorem AllHaveSources.carried (h : net.AllHaveSources site) {m : AuthenticatedMessage}
    (hunforged : Unforged site.libs net.signed m)
    (hverify : site.libs.openSsl.verify m.publicKey m.payload m.signature = .ok true)
    {auction : Auction} (hstored : storedIn site.libs m = some auction) :
    net.HasSources site auction := by
  obtain ⟨own, hown, _, hpayload⟩ := hunforged hverify
  exact h.signed own hown auction ((storedIn_congr hpayload).trans hstored)

omit [DecidableEq ι] in
theorem mem_forwarded {server : Server} {r : ServerRequest} {own : AuthenticatedMessage}
    (h : own ∈ forwarded site server r) :
    site.libs.openSsl.verify r.message.publicKey r.message.payload r.message.signature = .ok true ∧
      ∃ auction, storedIn site.libs r.message = some auction ∧
        own ∈ signStore site.libs server.host.node auction := by
  unfold forwarded at h
  split at h
  · rename_i hforwards
    obtain ⟨auction, hauction, hown⟩ := List.mem_flatMap.mp h
    refine ⟨?_, auction, Option.mem_toList.mp hauction, hown⟩
    cases hopen : Server.openRequest site.libs site.libs.prost.storeRequest r.message with
    | error status =>
      refine absurd ?_ hforwards.2
      unfold Server.store
      rw [hopen]
      rfl
    | ok opened => exact (Server.openRequest_eq_ok.mp hopen).1
  · cases h

theorem AllHaveSources.request (hprost : site.libs.prost.IsProto3) (h : net.AllHaveSources site)
    {i : ι} {r : ServerRequest} (hok : Honest site net (.request i r)) :
    (net.act i ((net.servers i).handle site.libs r.rpc r.inputs r.message) (net.pending i) []
      (forwarded site (net.servers i) r)).AllHaveSources site := by
  obtain ⟨hunforged, hvalue⟩ := hok
  have hid : ((net.servers i).handle site.libs r.rpc r.inputs r.message).host.node.nodeInfo.id =
      (net.node i).nodeInfo.id :=
    congrArg NodeInfo.id ((net.servers i).handle_routingTable site.libs r.rpc r.inputs r.message).2
  have hext : net.Extends (net.act i ((net.servers i).handle site.libs r.rpc r.inputs r.message)
      (net.pending i) [] (forwarded site (net.servers i) r)) := extends_act hid
  refine h.act hid ?_ (fun auction hmem => (h.pending i auction hmem).mono hext) ?_
  · have hold := (h.hosts i).mono fun _ => HasSources.mono hext
    rcases (net.servers i).handle_host site.libs r.rpc r.inputs r.message with
      ⟨auction, hkeeps, _, hhost⟩ | ⟨sender, _, _, hhost⟩ | ⟨_, _, hhost⟩
    · obtain ⟨hstored, hverify⟩ := storedIn_of_keeps hkeeps
      rw [hhost]
      exact hold.storeAuction ((h.carried hunforged hverify hstored).mono hext) _ _
    · rw [hhost]
      exact ⟨hold.store, hold.file⟩
    · rw [hhost]
      exact hold
  · intro own hown auction hstored
    obtain ⟨hverify, carried, hcarried, hsigned⟩ := mem_forwarded hown
    rw [storedIn_signStore hprost (hvalue carried hcarried) hsigned] at hstored
    obtain rfl := Option.some.inj hstored
    exact ((h.carried hunforged hverify hcarried).mono hext).of_bids carried.received_bids

theorem AllHaveSources.publish (hprost : site.libs.prost.IsProto3) (h : net.AllHaveSources site)
    {i : ι} {n : Nat} {effects : Effects} (hok : Honest site net (.publish i n effects))
    {auction : Auction} (hmem : (net.pending i)[n]? = some auction) :
    (net.publishAuction site i n effects auction).AllHaveSources site := by
  have hauction := h.pending i auction (List.mem_of_getElem? hmem)
  have hid := congrArg NodeInfo.id
    ((net.servers i).host.nodeInfo_storeAuction site.libs.toCrates effects auction)
  unfold publishAuction
  refine h.act hid ?_ (fun a ha => ?_) fun own hown a hstored => ?_
  · exact ((h.hosts i).storeAuction hauction _ _).mono fun _ => HasSources.mono (extends_act hid)
  · exact (h.pending i a (List.mem_of_mem_eraseIdx ha)).mono (extends_act hid)
  · have hsigned : own ∈ signStore site.libs (net.servers i).host.node auction := by
      split at hown
      · exact hown
      · cases hown
    rw [storedIn_signStore hprost (hok auction hmem) hsigned] at hstored
    obtain rfl := Option.some.inj hstored
    exact (hauction.mono (extends_act hid)).of_bids auction.received_bids

theorem AllHaveSources.close (h : net.AllHaveSources site) {i : ι} {now : Int}
    {order : List Auction} {effects : Effects} (horder : order.Perm (net.node i).auctions.elems) :
    (net.act i { (net.servers i) with host :=
        ((net.servers i).host.closeExpiredAuctions site.libs.toCrates effects now order).2 }
      (net.pending i ++ ((net.servers i).host.closeExpiredAuctions site.libs.toCrates effects now
        order).1.toOption.getD []) [] []).AllHaveSources site := by
  have hid := congrArg NodeInfo.id
    ((net.servers i).host.nodeInfo_closeExpiredAuctions site.libs.toCrates effects now order)
  refine h.act hid ?_ (fun auction hmem => ?_) fun own hown => nomatch hown
  · have hclosed : ((net.servers i).host.closeExpiredAuctions site.libs.toCrates effects now
        order).2.Holds (net.HasSources site) :=
      (h.hosts i).closeExpiredAuctions (fun a ha _ => HasSources.of_bids ha a.close_bids) _ _ horder
    exact hclosed.mono fun _ => HasSources.mono (extends_act hid)
  · refine HasSources.mono (extends_act hid) ?_
    rcases List.mem_append.mp hmem with hold | hnew
    · exact h.pending i auction hold
    · have hjust : auction ∈ justClosed now order := by
        rcases (net.servers i).host.closeExpiredAuctions_cases site.libs.toCrates effects now order with
          ⟨_, _, heq⟩ | ⟨_, ⟨_, heq⟩ | ⟨_, _, heq⟩⟩
        · rw [heq] at hnew
          cases hnew
        · rw [heq] at hnew
          exact hnew
        · rw [heq] at hnew
          cases hnew
      obtain ⟨before, hbefore, _, _, rfl⟩ := mem_justClosed.mp hjust
      exact ((h.hosts i).store before (horder.mem_iff.mp hbefore)).of_bids before.close_bids

theorem AllHaveSources.step (hprost : site.libs.prost.IsProto3) (h : net.AllHaveSources site)
    {action : OpenAction ι} (hok : Honest site net action)
    (hstep : net.step site action = some net') : net'.AllHaveSources site := by
  cases action with
  | createAuction i object initialValue durationMs now =>
    obtain rfl := Option.some.inj hstep
    exact h.begin (fun bid hbid => nomatch hbid) (fun bid hbid => nomatch hbid)
  | bid i key source amount now =>
    obtain ⟨p, hp, rfl⟩ := Option.map_eq_some_iff.mp hstep
    obtain ⟨found, hfound, hplaced⟩ := Option.bind_eq_some_iff.mp hp
    refine h.begin ?_ fun bid hbid => ?_
    · rw [Client.base_placeBid hplaced]
      exact h.found hfound
    · obtain rfl := Option.some.inj ((Client.newBid_placeBid hplaced).symm.trans hbid)
      rfl
  | bidOnRandomAuction i auction increment now =>
    obtain ⟨p, hp, rfl⟩ := Option.map_eq_some_iff.mp hstep
    obtain ⟨hbase, hmem⟩ := Client.base_bidOnRandomAuction hp
    refine h.begin ?_ fun bid hbid => ?_
    · rw [hbase]
      exact (h.hosts i).store auction hmem
    · unfold Client.bidOnRandomAuction at hp
      split at hp
      · obtain rfl := Option.some.inj ((Client.newBid_placeBid hp).symm.trans hbid)
        rfl
      · cases hp
  | close i now order effects =>
    simp only [OpenNetwork.step] at hstep
    split at hstep
    · rename_i horder
      obtain rfl := Option.some.inj hstep
      exact h.close horder
    · cases hstep
  | publish i n effects =>
    obtain ⟨auction, hmem, rfl⟩ := Option.map_eq_some_iff.mp hstep
    exact h.publish hprost hok hmem
  | request i r =>
    obtain rfl := Option.some.inj hstep
    exact h.request hprost hok
  | sign own =>
    obtain rfl := Option.some.inj hstep
    have hext : net.Extends { net with signed := net.signed ++ [own] } :=
      ⟨fun _ => rfl, fun _ => List.Subset.refl _, List.subset_append_left _ _⟩
    refine ⟨fun i => (h.hosts i).mono fun _ => HasSources.mono hext,
      fun i auction hmem => (h.pending i auction hmem).mono hext, fun m hm auction hstored => ?_⟩
    rcases List.mem_append.mp hm with hold | hnew
    · exact (h.signed m hold auction hstored).mono hext
    · obtain rfl := List.mem_singleton.mp hnew
      intro bid hbid
      rcases hok with hadversary | hheld
      · exact Or.inr ⟨m, hm, hadversary, auction, hstored, hbid⟩
      · obtain ⟨i, held, hmem, hbidheld⟩ := hheld auction hstored bid hbid
        exact ((h.hosts i).store held hmem).mono hext bid hbidheld
  | restart i config =>
    simp only [OpenNetwork.step] at hstep
    split at hstep
    · obtain rfl := Option.some.inj hstep
      have hext : net.Extends
          (net.act i (Server.new ((net.servers i).host.restart config)) [] [] []) := extends_act rfl
      refine h.act rfl ?_ (fun a ha => nomatch ha) fun own hown => nomatch hown
      exact ((h.hosts i).restart config).mono fun _ => HasSources.mono hext
    · cases hstep

end OpenNetwork

open OpenNetwork

/-- **Where bids come from**: in every run in which no signature is forged,
each bid in the store of a participant was placed with `place_bid` by the
participant whose id it has, or is in a STORE that the adversary signed. -/
theorem bids_have_source (site : OpenSite) (hprost : site.libs.prost.IsProto3)
    {net : OpenNetwork ι} (h : (openNetwork site).ReachableUnder (Honest site) net) :
    ∀ i, ∀ auction ∈ (net.node i).auctions, ∀ bid ∈ auction.bids,
      net.PlacedByBuyer bid ∨ net.SentByAdversary site bid := by
  have hinv : net.AllHaveSources site := by
    refine h.invariant (fun net hstart => ?_) fun _ _ _ hinv hok hnext => hinv.step hprost hok hnext
    obtain ⟨hnothing, hsigned⟩ := hstart.nothing
    refine ⟨fun i => ⟨fun auction hmem => ?_, fun auctions hfile => ?_⟩, fun i auction hmem => ?_,
      fun own hown => ?_⟩
    · have hempty := (hstart.stores i).1
      rw [KeyedSet.mem_def, show (net.servers i).host.node.auctions.elems = [] from hempty] at hmem
      cases hmem
    · rw [(hstart.stores i).2] at hfile
      cases hfile
    · rw [(hnothing i).1] at hmem
      cases hmem
    · rw [hsigned] at hown
      cases hown
  exact fun i auction hmem => (hinv.hosts i).store auction hmem

/-! The adversary signs a STORE with a bid of the one participant. -/

/-- A participant with the empty public key. -/
def victim : Server :=
  Server.start (ownId lookupLibraries.toCrates []) "127.0.0.1" 8000 Config.testConfig
    { auctions := .absent, ledger := .absent }

/-- A bid with the participant's id. -/
def forgedBid : Bid where
  buyer := victim.host.node.nodeInfo.id
  auction := Address.ofU256 7
  amount := 125

/-- An open auction with that bid. -/
def forgedWatch : Auction :=
  { soldWatch with
    bids := [forgedBid]
    status := .Open
    winner := none
    winningBid := none }

def forgedStore : AuthenticatedMessage where
  sender := some stranger.toInformation
  publicKey := [2]
  signature := [2]
  payload := StoreRequest.messageType.encode (storeOf forgedWatch)

/-- The adversary has the key of the stranger, whose signature under this
STORE is the only one that verifies. -/
def forgedSite : OpenSite where
  adversaryKey := [2]
  libs :=
    { lookupLibraries with
      prost := .proto3
      openSsl :=
        { sign := fun key payload => .ok (key ++ payload)
          verify := fun key payload signature =>
            .ok (decide (key = [2] ∧ payload = forgedStore.payload ∧ signature = [2])) } }

def forgedRequest : ServerRequest where
  rpc := .store
  inputs := { sampleInputs with effects := Effects.calm 5 }
  message := forgedStore

def forgedStart : OpenNetwork Unit where
  servers := fun _ => victim
  pending := fun _ => []
  begun := fun _ => []
  signed := []

def forgedSigned : OpenNetwork Unit := { forgedStart with signed := [forgedStore] }

def forgedKept : OpenNetwork Unit :=
  forgedSigned.act () (victim.handle forgedSite.libs .store forgedRequest.inputs forgedStore) [] []
    (forwarded forgedSite victim forgedRequest)

theorem isValue_forgedWatch : PayloadType.storeRequest.IsValue (storeOf forgedWatch) where
  inRange := by
    intro auction hauction
    obtain rfl := Option.some.inj hauction
    refine ⟨by decide, fun bid hbid => ?_, by decide, by decide, by decide⟩
    obtain rfl := List.mem_singleton.mp hbid
    show 125 < 2 ^ 64
    decide
  size := by decide +kernel

theorem decode_forgedStore :
    forgedSite.libs.prost.storeRequest.decode forgedStore.payload = .ok (storeOf forgedWatch) := by
  have hcodec : forgedSite.libs.prost.storeRequest.IsProto3 StoreRequest.messageType :=
    Prost.isProto3_proto3 .storeRequest
  rw [hcodec.decode]
  exact PayloadType.decode_encode isValue_forgedWatch

theorem received_forgedWatch : forgedWatch.received = forgedWatch :=
  Auction.received_eq (by decide)

theorem storedIn_forgedStore : storedIn forgedSite.libs forgedStore = some forgedWatch := by
  rw [storedIn_of_decode decode_forgedStore, received_forgedWatch]

theorem keeps_forgedStore : victim.keeps forgedSite.libs .store forgedStore = some forgedWatch := by
  have hopen : Server.openRequest forgedSite.libs forgedSite.libs.prost.storeRequest forgedStore =
      .ok (storeOf forgedWatch, stranger.toInformation, stranger) :=
    Server.openRequest_eq_ok.mpr
      ⟨by simp [forgedSite, forgedStore], rfl, rfl, rfl, decode_forgedStore⟩
  have hclosest : victim.host.node.getClosestNodesToKey forgedWatch.key =
      [victim.host.node.nodeInfo.toInformation] :=
    congrArg (List.map NodeInfo.toInformation) (RoutingTable.getKClosestNodes_new
      victim.host.node.nodeInfo Config.testConfig forgedWatch.key)
  rw [keeps_of_openRequest hopen (hclosest ▸ List.mem_singleton_self _), received_forgedWatch]

theorem reachable_forgedKept :
    (openNetwork forgedSite).ReachableUnder (Honest forgedSite) forgedKept := by
  have hkeys : ∀ key : Bytes, key = [] → key ≠ [2] := by
    intro key hkey
    rw [hkey]
    decide
  have hstart : (openNetwork forgedSite).ReachableUnder (Honest forgedSite) forgedStart :=
    .init ⟨fun _ => ⟨rfl, rfl⟩, fun _ => rfl, fun _ => hkeys _ rfl, fun _ => ⟨rfl, rfl⟩, rfl⟩
  have hsigned : (openNetwork forgedSite).ReachableUnder (Honest forgedSite) forgedSigned :=
    hstart.step (a := .sign forgedStore) (Or.inl rfl) rfl
  refine hsigned.step (a := .request () forgedRequest) ⟨fun _ => ?_, fun auction hstored => ?_⟩ rfl
  · exact ⟨forgedStore, List.mem_singleton_self _, rfl, rfl⟩
  · obtain rfl := Option.some.inj (storedIn_forgedStore.symm.trans hstored)
    exact isValue_forgedWatch

/-- The auction that the participant holds after the adversary's STORE. -/
theorem mem_forgedKept : forgedWatch ∈ (forgedKept.node ()).auctions := by
  have hserver : forgedKept.servers () =
      victim.handle forgedSite.libs .store forgedRequest.inputs forgedStore := by
    unfold forgedKept
    exact servers_act
  rw [OpenNetwork.node, hserver, Server.handle_host_of_keeps _ keeps_forgedStore]
  exact Host.mem_storeAuction_self

theorem bids_have_source_forged :
    forgedKept.PlacedByBuyer forgedBid ∨ forgedKept.SentByAdversary forgedSite forgedBid :=
  bids_have_source forgedSite Prost.isProto3_proto3 reachable_forgedKept () forgedWatch
    mem_forgedKept forgedBid List.mem_cons_self

/-- **A bid in another's name**: the participant holds a bid with its own id
that it has not placed. -/
theorem bid_in_anothers_name :
    ¬ ∀ net : OpenNetwork Unit, (openNetwork forgedSite).ReachableUnder (Honest forgedSite) net →
      ∀ i, ∀ auction ∈ (net.node i).auctions, ∀ bid ∈ auction.bids,
        bid.buyer ≠ ownId forgedSite.libs.toCrates forgedSite.adversaryKey →
          net.PlacedByBuyer bid := by
  intro hclaim
  obtain ⟨_, _, p, hp, _⟩ := hclaim forgedKept reachable_forgedKept () forgedWatch mem_forgedKept
    forgedBid List.mem_cons_self (by decide +kernel)
  cases hp

end KademliaAuction
