/-
KademliaAuction.GRpc.HouseRefinement — the one-shot commands do what the
auction house does.

`perform_eq` is what a process does that has joined: it publishes what the
house is offered. So it ends as the house says if it is answered
(`perform_settles`), and never otherwise (`perform_hangs`). `Step.refines` is
one step of a demo, and `demo_refines_house` a whole run.

What is true of the house is then true of the server: `placed_bids_listed` says
that the bids which processes have printed as placed are on the list, in their
order and with no others, unless an old copy of the auction comes back.
-/
import KademliaAuction.GRpc.AuctionHouse
import KademliaAuction.GRpc.Responsibility
import KademliaAuction.Routing.Capacity

namespace KademliaAuction

open Blockchain Proto Routing Storage Lib RunCommand

/-! ## Stores and requests -/

section Stores

variable {libs : Libraries} {host : Host}

theorem Host.findAuction_storeAuction (crates : Crates) (effects : Effects) (auction : Auction) :
    (host.storeAuction crates effects auction).2.node.findAuction =
      AuctionMap.put host.node.findAuction auction := by
  funext key
  rw [Node.findAuction, (host.storeAuction_commits crates effects auction).1,
    KeyedSet.find_replace]
  rfl

/-- A process that starts where an auction has been stored has it. -/
theorem Host.findAuction_reload {crates : Crates} {effects : Effects} {auction : Auction}
    (hwritten : effects.auctionsWrite = .written) (id : Address) (ip : String) (port : Nat)
    (config : Config) :
    (Node.new id ip port config (host.storeAuction crates effects auction).2.disk).findAuction =
      AuctionMap.put host.node.findAuction auction := by
  have hfile : (host.storeAuction crates effects auction).2.disk.auctions =
      .json (host.node.auctions.replace auction).elems := by
    rcases host.storeAuction_cases crates effects auction with ⟨hnot, _⟩ | ⟨_, h⟩
    · exact absurd hwritten hnot
    · rw [h]
      exact ((host.afterReplace auction).recordDeclaredWin_commits crates effects auction).2.2
  funext key
  unfold Node.findAuction Node.new loadAuctions
  dsimp only
  rw [hfile]
  show (KeyedSet.collect (host.node.auctions.replace auction).elems).find key = _
  unfold KeyedSet.find
  rw [KeyedSet.elems_collect (host.node.auctions.replace auction).nodupKeys]
  exact KeyedSet.find_replace host.node.auctions auction key

namespace Server

variable {server : Server}

/-- A request changes the store by the auction that it makes the server
keep. -/
theorem findAuction_handle (rpc : Rpc) (inputs : Inputs) (request : AuthenticatedMessage) :
    (server.handle libs rpc inputs request).host.node.findAuction =
      AuctionMap.putAll server.host.node.findAuction (server.keeps libs rpc request).toList := by
  rcases server.handle_host libs rpc inputs request with
    ⟨auction, hkeeps, _, hhost⟩ | ⟨sender, hkeeps, _, hhost⟩ | ⟨hkeeps, _, hhost⟩
  · rw [hkeeps, hhost]
    exact Host.findAuction_storeAuction ..
  · rw [hkeeps, hhost]
    rfl
  · rw [hkeeps, hhost]
    rfl

theorem findAuction_handleAll (requests : List ServerRequest) :
    (server.handleAll libs requests).host.node.findAuction =
      AuctionMap.putAll server.host.node.findAuction (server.kept libs requests) := by
  induction requests generalizing server with
  | nil => rfl
  | cons q requests ih =>
    have hrest : (server.handleAll libs (q :: requests)).host.node.findAuction = _ :=
      @ih (server.handle libs q.rpc q.inputs q.message)
    rw [hrest, findAuction_handle, kept, AuctionMap.putAll, AuctionMap.putAll, AuctionMap.putAll,
      List.foldl_append]

/-- What a server keeps has been decoded. -/
theorem winningBid_of_keeps {rpc : Rpc} {request : AuthenticatedMessage} {auction : Auction}
    (h : server.keeps libs rpc request = some auction) : auction.winningBid ≠ some 0 := by
  obtain ⟨hstored, _⟩ := storedIn_of_keeps h
  unfold storedIn at hstored
  split at hstored
  · cases hstored
  · obtain ⟨proto, _, hdecoded⟩ := Option.bind_eq_some_iff.mp hstored
    exact Auction.winningBid_of_tryFrom (ok_of_toOption hdecoded)

theorem winningBid_of_kept {requests : List ServerRequest} {auction : Auction}
    (h : auction ∈ server.kept libs requests) : auction.winningBid ≠ some 0 := by
  induction requests generalizing server with
  | nil => cases h
  | cons q requests ih =>
    rcases List.mem_append.mp h with hfirst | hrest
    · exact winningBid_of_keeps (Option.mem_toList.mp hfirst)
    · exact ih hrest

end Server

/-- Publishing, when the writes succeed: it ends if the server answers. -/
theorem publishAuction_written {server : Server} (h : server.Serves libs host.node)
    (hport : host.NotBootstrap) {inputs : CommandInputs} (hwritten : inputs.effects.AllWritten)
    {storing : Inputs} {ended : NodeInformation → Bool}
    (hlink : inputs.store = server.storeLink libs storing ended) {auction : Auction}
    (hvalue : PayloadType.storeRequest.IsValue (storeOf auction)) :
    publishAuction libs inputs host auction =
      if (server.storeDecoded libs storing host.node.nodeInfo auction.received).answers ended then
        some
          { result := .ok ()
            host := (host.storeAuction libs.toCrates inputs.effects auction).2
            published := [auction]
            stores := [auction] }
      else none := by
  have hstored := (host.storeAuction_commits libs.toCrates inputs.effects auction).2.2 hwritten
  have htrace : ∀ send, Automation.publishAuction libs.toCrates
      { effects := inputs.effects, send } host auction =
        { result := send
          host := (host.storeAuction libs.toCrates inputs.effects auction).2
          published := [auction]
          stores := [auction] } := by
    intro send
    rcases Automation.publishAuction_cases libs.toCrates hport
        { effects := inputs.effects, send } auction with ⟨_, hok⟩ | ⟨hfailed, _⟩
    · exact hok
    · exact absurd ⟨true, hstored⟩ hfailed
  have hsent := Client.sendStoreToNode_link h storing host.node.config.bootstrapPeerIp
    host.node.config.bootstrapPeerPort ended hvalue
  unfold publishAuction
  dsimp only
  rw [hlink, show Client.sendStoreToNode libs host.node _ _ _ auction = _ from hsent, htrace]
  cases (server.storeDecoded libs storing host.node.nodeInfo auction.received).answers ended with
  | false => exact if_pos ⟨rfl, List.cons_ne_nil _ _⟩
  | true => exact if_neg fun hnone => absurd hnone.1 Bool.false_ne_true

/-- The server keeps what it is sent, if it is among the closest to the key. -/
theorem Server.findAuction_store {server : Server} {client : Node} (h : server.Serves libs client)
    {auction : Auction} (hvalue : PayloadType.storeRequest.IsValue (storeOf auction))
    (hclosest : server.host.node.nodeInfo.toInformation ∈
      server.host.node.getClosestNodesToKey auction.key) (storing : Inputs) :
    (server.handleAll libs (client.request libs .store storing libs.prost.storeRequest
        (storeOf auction))).host.node.findAuction =
      AuctionMap.put server.host.node.findAuction auction.received := by
  obtain ⟨own, hown, hopen⟩ := server.request_eq h hvalue .store storing
  rw [show client.request libs .store storing libs.prost.storeRequest (storeOf auction) = _
    from hown, findAuction_handleAll]
  unfold Server.kept
  rw [keeps_of_openRequest hopen hclosest]
  rfl

/-- Looking an auction up changes no store. -/
theorem Server.findAuction_findValue {server : Server} {client : Node}
    (h : server.Serves libs client) (key : Address) (asking : Inputs) :
    (server.handleAll libs (client.request libs .findValue asking libs.prost.findValueRequest
        { key := key.toStr })).host.node.findAuction = server.host.node.findAuction := by
  have hlength := length_toStr key
  obtain ⟨own, hown, _⟩ := @Server.request_eq _ server client .findValueRequest h
    { key := key.toStr } (PayloadType.isValue_findValueRequest (by omega)) .findValue asking
  rw [show client.request libs .findValue asking libs.prost.findValueRequest _ = _ from hown,
    findAuction_handleAll]
  rfl

end Stores

/-! ## Who is close -/

/-- Requests put contacts into the table. -/
theorem Server.grown_handleAll {libs : Libraries} {server : Server} (h : server.host.node.Grown)
    (requests : List ServerRequest) : (server.handleAll libs requests).host.node.Grown := by
  induction requests using List.reverseRecOn with
  | nil => exact h
  | append_singleton requests q ih =>
    obtain ⟨contacts, htable⟩ := ih
    obtain ⟨hnext, hinfo⟩ :=
      (server.handleAll libs requests).handle_routingTable libs q.rpc q.inputs q.message
    rw [handleAll_concat]
    unfold Node.Grown
    rw [hinfo, handle_config _ q, hnext]
    cases takesIn libs q.rpc q.message with
    | none => exact ⟨contacts, htable⟩
    | some sender =>
      refine ⟨contacts ++ [sender], ?_⟩
      rw [htable]
      unfold RoutingTable.insertAll
      rw [List.foldl_append]
      rfl

/-- A node that may name more nodes than its table can hold is always among
them. -/
theorem Node.Grown.own_closest {node : Node} (h : node.Grown)
    (hmax : 1 ≤ node.config.maxKbucketEntries)
    (hwide : 1 + 255 * node.config.maxKbucketEntries < node.config.kValue) (key : Address) :
    node.nodeInfo.toInformation ∈ node.getClosestNodesToKey key := by
  have hplaced := h.wellPlaced
  have hlength : node.routingTable.contacts.length ≤ 255 * node.config.maxKbucketEntries := by
    refine length_contacts_le hplaced.length_table fun i => ?_
    obtain ⟨contacts, htable⟩ := h
    rw [htable]
    exact len_bucket_le node.nodeInfo node.config hmax contacts i
  have hfit : [node.nodeInfo].length + node.routingTable.contacts.length <
      node.routingTable.config.kValue := by
    rw [h.table_config, List.length_singleton]
    omega
  exact List.mem_map_of_mem
    ((hplaced.mem_getKClosestNodes hfit).mpr (Or.inl (List.mem_singleton_self _)))

/-! ## A process at the house -/

namespace Demo

variable {ι : Type} (site : DemoSite ι) (demo : Demo ι) (p : Process ι)

/-- The libraries are proto3, the keys of the server and of all clients fit, no
client has the port of the bootstrap node, and the auctions are read back as
they are sent. -/
structure Ready : Prop where
  auctions : site.libs.prost.auction.IsProto3 Auction.messageType
  serves : ∀ i, demo.daemon.Serves site.libs (demo.host site i).node
  port : ∀ i, (demo.host site i).NotBootstrap
  clean : (demo.house site).Clean

/-- A one-shot command whose writes succeed. What it finds and offers is short
enough to be sent, and so are the contacts it is referred to; the server is
among the closest to the key of what it is sent. -/
structure Fits : Prop where
  oneShot : p.command ≠ .Serve
  written : p.effects.AllWritten
  found : ∀ key auction, p.command.key? = some key → (demo.house site).listed key = some auction →
    auction.toProto.Short
  named : ∀ key, p.command.key? = some key → (demo.house site).listed key = none →
    (∀ node ∈ demo.daemon.host.node.getClosestNodesToKey key, node.Short) ∧
      (demo.daemon.host.node.getClosestNodesToKey key).length < 2 ^ 30
  offered : ∀ auction,
    (demo.house site).offer site.libs.toCrates (demo.sale site p) = some auction →
      auction.toProto.Short
  closest : ∀ auction,
    (demo.house site).offer site.libs.toCrates (demo.sale site p) = some auction →
      demo.daemon.host.node.nodeInfo.toInformation ∈
        (demo.waiting site p).host.node.getClosestNodesToKey auction.key

/-- The server answers the STORE of what the process offers, if it offers
anything: the STOREs end that the server sends on. -/
def Answered : Prop :=
  ∀ auction, (demo.house site).offer site.libs.toCrates (demo.sale site p) = some auction →
    ((demo.waiting site p).storeDecoded site.libs p.storing (site.info p.client) auction).answers
      p.ended

variable {site demo p}

theorem carries_auction (hready : demo.Ready site) {auction : Proto.Auction} (hshort : auction.Short) :
    site.libs.prost.auction.Carries auction := by
  unfold Codec.Carries
  rw [hready.auctions.decode, hready.auctions.encode]
  exact PayloadType.decode_auction hshort

theorem Fits.isValue_answer (hready : demo.Ready site) (hfits : demo.Fits site p) {key : Address}
    (hkey : p.command.key? = some key) : PayloadType.findValueResponse.IsValue
      (Server.valueOrNodes site.libs.prost demo.daemon.host.node key) := by
  unfold Server.valueOrNodes
  cases hlisted : demo.daemon.host.node.findAuction key with
  | some auction =>
    have hshort := hfits.found key auction hkey hlisted
    dsimp only
    rw [hready.auctions.encode]
    exact PayloadType.isValue_findValueResponse_value (PayloadType.length_encode_auction_lt hshort)
  | none =>
    obtain ⟨hshort, hcount⟩ := hfits.named key hkey hlisted
    exact PayloadType.isValue_findValueResponse_nodes hshort hcount

theorem Fits.isValue_store (hfits : demo.Fits site p) {auction : Auction}
    (hoffer : (demo.house site).offer site.libs.toCrates (demo.sale site p) = some auction) :
    PayloadType.storeRequest.IsValue (storeOf auction) :=
  PayloadType.isValue_storeRequest (hfits.offered auction hoffer)

theorem waiting_node (hready : demo.Ready site) :
    (demo.waiting site p).Serves site.libs (demo.host site p.client).node ∧
      (demo.waiting site p).host.node.nodeInfo = demo.daemon.host.node.nodeInfo := by
  have hserves := hready.serves p.client
  have hasked : (demo.asked site p).Serves site.libs (demo.host site p.client).node ∧
      (demo.asked site p).host.node.nodeInfo = demo.daemon.host.node.nodeInfo := by
    unfold asked
    dsimp only
    split
    · exact ⟨hserves, rfl⟩
    · split
      · exact ⟨hserves, rfl⟩
      · exact ⟨hserves.handleAll _, (Server.handleAll_node _ _ _).1⟩
  exact ⟨hasked.1.handleAll _, (Server.handleAll_node _ _ _).1.trans hasked.2⟩

/-- When the STORE arrives, the list has what it had and what others have put
on it. -/
theorem findAuction_waiting (hready : demo.Ready site) :
    (demo.waiting site p).host.node.findAuction =
      AuctionMap.putAll (demo.house site).listed (demo.sale site p).meanwhile := by
  have hasked : (demo.asked site p).host.node.findAuction = demo.daemon.host.node.findAuction := by
    unfold asked
    dsimp only
    split
    · rfl
    · split
      · rfl
      · exact Server.findAuction_findValue (hready.serves p.client) _ _
  unfold waiting
  rw [Server.findAuction_handleAll, hasked]
  rfl

/-- A lookup finds what the house has. -/
theorem findAuction_settles (hready : demo.Ready site) (hfits : demo.Fits site p) {node : Node}
    (hnode : (demo.host site p.client).node.SameButTable node) {key : Address}
    (hkey : p.command.key? = some key) :
    match (demo.house site).find p.client key with
    | some auction =>
        Loop.Settles (RunCommand.findAuction site.libs (demo.inputs site p) node key) (.ok auction)
    | none => ∃ e,
        Loop.Settles (RunCommand.findAuction site.libs (demo.inputs site p) node key) (.error e) := by
  have hserves : demo.daemon.Serves site.libs node := by
    have h := hready.serves p.client
    rw [hnode]
    exact ⟨h.proto3, h.client.congr rfl rfl, h.server⟩
  have honly : OnlyServer site.libs node demo.daemon p.asking (demo.inputs site p).findValue := by
    rw [hnode]
    refine ⟨if_pos rfl, fun e hne => if_neg hne⟩
  have hcopy : node.findAuction key = (demo.house site).copies p.client key := by
    rw [hnode]
    rfl
  unfold House.find
  cases hown : (demo.house site).copies p.client key with
  | some auction =>
    refine Loop.settles_const fun fuel => ?_
    unfold RunCommand.findAuction Lookup.findAuctionInNetwork
    rw [hcopy, hown]
    rfl
  | none =>
    have hlocal := hcopy.trans hown
    rw [Option.none_or]
    cases hlisted : (demo.house site).listed key with
    | some auction =>
      have hfound := (lookup_of_held hserves honly (hfits.isValue_answer hready hkey) hlocal hlisted
        (carries_auction hready (hfits.found key auction hkey hlisted))).map (foundOr key)
      rw [Auction.received_eq (hready.clean.listed key auction hlisted)] at hfound
      exact hfound
    | none =>
      obtain ⟨result, hsettled, hnone⟩ :=
        lookup_of_missing hserves honly (hfits.isValue_answer hready hkey) hlocal hlisted
      have hfound := hsettled.map (foundOr key)
      cases result with
      | error e => exact ⟨e, hfound⟩
      | ok found =>
        cases found with
        | none => exact ⟨_, hfound⟩
        | some auction => exact absurd rfl (hnone auction)

variable [DecidableEq ι]

/-- A process that stores nothing. -/
theorem house_after_nothing (hready : demo.Ready site) {result : Except String (List String)}
    {host : Host} (hdisk : host.disk = demo.dirs p.client) :
    (demo.after site p (.returned result host [])).house site =
      (demo.house site).listAll (demo.sale site p).meanwhile := by
  have hdirs : Function.update demo.dirs p.client host.disk = demo.dirs := by
    rw [hdisk]
    exact Function.update_eq_self ..
  have hlisted : (demo.waiting site p).host.node.findAuction = _ := findAuction_waiting hready
  unfold House.listAll
  rw [← hlisted]
  show ({ daemon := demo.waiting site p, dirs := Function.update demo.dirs p.client host.disk } :
    Demo ι).house site = _
  rw [hdirs]
  rfl

/-- A process that publishes. -/
theorem house_after_published (hready : demo.Ready site) (hfits : demo.Fits site p) {node : Node}
    (hnode : (demo.host site p.client).node.SameButTable node)
    {result : Except String (List String)} {auction : Auction}
    (hoffer : (demo.house site).offer site.libs.toCrates (demo.sale site p) = some auction) :
    (demo.after site p (.returned result
        (({ node, disk := demo.dirs p.client } : Host).storeAuction site.libs.toCrates p.effects
          auction).2 [auction])).house site =
      ((demo.house site).listAll (demo.sale site p).meanwhile).publish p.client auction := by
  obtain ⟨hserves, hinfo⟩ := @waiting_node ι site demo p hready
  have hreceived := Auction.received_eq (hready.clean.offer hoffer)
  have hclosest := hfits.closest auction hoffer
  rw [← hinfo] at hclosest
  have hlisted := Server.findAuction_store hserves (hfits.isValue_store hoffer) hclosest p.storing
  rw [hreceived, findAuction_waiting hready] at hlisted
  unfold House.publish House.listAll house
  rw [House.mk.injEq]
  unfold after
  dsimp only
  rw [List.flatMap_cons, List.flatMap_nil, List.append_nil]
  refine ⟨hlisted, ?_⟩
  funext i
  unfold host
  dsimp only
  by_cases hi : i = p.client
  · subst hi
    rw [Function.update_self, Function.update_self, Host.findAuction_reload hfits.written.1]
    dsimp only
    rw [hnode]
    rfl
  · rw [Function.update_of_ne hi, Function.update_of_ne hi]

omit [DecidableEq ι] in
/-- Publishing an offer ends if the server answers. -/
theorem publishAndPrint_eq (hready : demo.Ready site) (hfits : demo.Fits site p) {node : Node}
    (hnode : (demo.host site p.client).node.SameButTable node) {auction : Auction}
    (hoffer : (demo.house site).offer site.libs.toCrates (demo.sale site p) = some auction)
    (text : List String) :
    publishAndPrint site.libs (demo.inputs site p) { node, disk := demo.dirs p.client } auction
        text =
      if ((demo.waiting site p).storeDecoded site.libs p.storing (site.info p.client) auction).answers
          p.ended then
        some (.returned (.ok text) (({ node, disk := demo.dirs p.client } : Host).storeAuction
          site.libs.toCrates p.effects auction).2 [auction])
      else none := by
  have hserves := (@waiting_node ι site demo p hready).1
  have hserved : (demo.waiting site p).Serves site.libs node := by
    rw [hnode]
    exact ⟨hserves.proto3, hserves.client.congr rfl rfl, hserves.server⟩
  have hport : ({ node, disk := demo.dirs p.client } : Host).NotBootstrap := by
    unfold Host.NotBootstrap
    dsimp only
    rw [hnode]
    exact hready.port p.client
  have hinfo : node.nodeInfo = site.info p.client := by
    rw [hnode]
    rfl
  unfold publishAndPrint
  rw [publishAuction_written hserved hport hfits.written rfl (hfits.isValue_store hoffer)]
  dsimp only
  rw [hinfo, Auction.received_eq (hready.clean.offer hoffer)]
  split <;> rfl

omit [DecidableEq ι] in
/-- What a command that has joined does: it publishes what it offers at the
house, or it ends with nothing to offer. What it prints is the house's text. -/
theorem perform_eq (hready : demo.Ready site) (hfits : demo.Fits site p) {node : Node}
    (hnode : (demo.host site p.client).node.SameButTable node) :
    match (demo.house site).offer site.libs.toCrates (demo.sale site p) with
    | some auction => ∃ text enough,
        (demo.house site).text site.libs.toCrates (demo.sale site p) = some text ∧
        ∀ fuel, enough ≤ fuel →
          perform site.libs (demo.inputs site p) { node, disk := demo.dirs p.client } fuel p.command =
            publishAndPrint site.libs (demo.inputs site p) { node, disk := demo.dirs p.client }
              auction text
    | none => ∃ result,
        (CommandEnd.returned result { node, disk := demo.dirs p.client } []).printed =
          (demo.house site).text site.libs.toCrates (demo.sale site p) ∧
        Loop.Settles (fun fuel => perform site.libs (demo.inputs site p)
          { node, disk := demo.dirs p.client } fuel p.command)
            (.returned result { node, disk := demo.dirs p.client } []) := by
  have hid : node.nodeInfo.id = (demo.sale site p).id := by
    rw [hnode]
    rfl
  have hnow : (demo.inputs site p).now = (demo.sale site p).now := rfl
  have hsale : (demo.sale site p).command = p.command := rfl
  have hlookup : ∀ {key}, p.command.key? = some key → _ :=
    fun {key} => @findAuction_settles ι site demo p hready hfits node hnode key
  cases hcommand : p.command with
  | Serve => exact absurd hcommand hfits.oneShot
  | CreateAuction object initialValue =>
    rw [hcommand] at hsale
    have hoffer := House.offer_createAuction site.libs.toCrates (demo.house site) hsale
    have htext : (demo.house site).text site.libs.toCrates (demo.sale site p) =
        ((demo.house site).offer site.libs.toCrates (demo.sale site p)).map createdText := by
      unfold House.text
      rw [hsale]
    rw [htext, hoffer]
    refine ⟨_, 0, rfl, fun fuel _ => ?_⟩
    unfold perform
    dsimp only
    rw [hid, hnow]
  | FindAuction key =>
    rw [hcommand] at hsale
    have hoffer : (demo.house site).offer site.libs.toCrates (demo.sale site p) = none := by
      unfold House.offer
      rw [hsale]
    have htext : (demo.house site).text site.libs.toCrates (demo.sale site p) =
        ((demo.house site).find p.client key).map printAuction := by
      unfold House.text
      rw [hsale]
      rfl
    have hfind := @hlookup key (by rw [hcommand]; rfl)
    rw [htext, hoffer]
    cases hfound : (demo.house site).find p.client key with
    | some auction =>
      rw [hfound] at hfind
      exact ⟨.ok (printAuction auction), rfl, hfind.map _⟩
    | none =>
      rw [hfound] at hfind
      obtain ⟨e, hfind⟩ := hfind
      exact ⟨.error e, rfl, hfind.map _⟩
  | Bid key amount =>
    rw [hcommand] at hsale
    have hoffer := House.offer_bid site.libs.toCrates (demo.house site) hsale
    have htext : (demo.house site).text site.libs.toCrates (demo.sale site p) =
        ((demo.house site).offer site.libs.toCrates (demo.sale site p)).map fun auction =>
          placedText auction amount.toNat (demo.sale site p).id := by
      unfold House.text
      rw [hsale]
    have hfind := @hlookup key (by rw [hcommand]; rfl)
    rw [htext, hoffer]
    cases hfound : (demo.house site).find p.client key with
    | none =>
      rw [show (demo.house site).find (demo.sale site p).client key = none from hfound]
      rw [hfound] at hfind
      obtain ⟨e, hfind⟩ := hfind
      exact ⟨.error e, rfl, hfind.bind (Loop.settles_const fun _ => rfl)⟩
    | some base =>
      rw [show (demo.house site).find (demo.sale site p).client key = some base from hfound,
        Option.bind_some]
      rw [hfound] at hfind
      cases hplaced : base.placeBid (demo.sale site p).id amount.toNat (demo.sale site p).now with
      | error e =>
        refine ⟨.error e, rfl, hfind.bind (Loop.settles_const fun _ => ?_)⟩
        dsimp only
        rw [hid, hnow, hplaced]
      | ok auction =>
        obtain ⟨enough, hfind⟩ := hfind
        refine ⟨_, enough, rfl, fun fuel hfuel => ?_⟩
        unfold perform
        dsimp only at hfind ⊢
        rw [hfind fuel hfuel, Option.bind_some]
        dsimp only
        rw [hid, hnow, hplaced]

/-- **A command that has joined does what the house does**, if it is
answered. -/
theorem perform_settles (hready : demo.Ready site) (hfits : demo.Fits site p)
    (hanswered : demo.Answered site p) {node : Node}
    (hnode : (demo.host site p.client).node.SameButTable node) :
    ∃ commandEnd, commandEnd ≠ .exited ∧
      Loop.Settles (fun fuel => perform site.libs (demo.inputs site p)
        { node, disk := demo.dirs p.client } fuel p.command) commandEnd ∧
      commandEnd.printed = ((demo.house site).perform site.libs.toCrates (demo.sale site p)).1 ∧
      (demo.after site p commandEnd).house site =
        ((demo.house site).perform site.libs.toCrates (demo.sale site p)).2 := by
  have hperform := perform_eq hready hfits hnode
  cases hoffer : (demo.house site).offer site.libs.toCrates (demo.sale site p) with
  | none =>
    rw [hoffer] at hperform
    obtain ⟨result, hprinted, hsettled⟩ := hperform
    refine ⟨_, CommandEnd.noConfusion, hsettled, hprinted, ?_⟩
    rw [House.perform_of_none hoffer]
    exact house_after_nothing hready rfl
  | some auction =>
    rw [hoffer] at hperform
    obtain ⟨text, enough, htext, hperform⟩ := hperform
    have hpublish := publishAndPrint_eq hready hfits hnode hoffer text
    rw [if_pos (hanswered auction hoffer)] at hpublish
    refine ⟨_, CommandEnd.noConfusion, ⟨enough, fun fuel hfuel => (hperform fuel hfuel).trans hpublish⟩,
      htext.symm, ?_⟩
    rw [House.perform_of_some hoffer]
    exact house_after_published hready hfits hnode hoffer

omit [DecidableEq ι] in
/-- A command that has joined and is not answered does not end. -/
theorem perform_hangs (hready : demo.Ready site) (hfits : demo.Fits site p)
    (hsilent : ¬ demo.Answered site p) {node : Node}
    (hnode : (demo.host site p.client).node.SameButTable node) (commandEnd : CommandEnd) :
    ¬ Loop.Settles (fun fuel => perform site.libs (demo.inputs site p)
      { node, disk := demo.dirs p.client } fuel p.command) commandEnd := by
  simp only [Answered, not_forall] at hsilent
  obtain ⟨auction, hoffer, hsilent⟩ := hsilent
  have hperform := perform_eq hready hfits hnode
  rw [hoffer] at hperform
  obtain ⟨text, enough, _, hperform⟩ := hperform
  rintro ⟨enough', hends⟩
  have hend := hends (max enough enough') (Nat.le_max_right _ _)
  dsimp only at hend
  rw [hperform _ (Nat.le_max_left _ _), publishAndPrint_eq hready hfits hnode hoffer,
    if_neg hsilent] at hend
  cases hend

/-- A process that ends has joined and done what the house does, or has given
up. -/
theorem ends_cases (hready : demo.Ready site) (hfits : demo.Fits site p) {commandEnd : CommandEnd}
    (hends : demo.Ends site p commandEnd) :
    commandEnd = .exited ∨
      (commandEnd.printed = ((demo.house site).perform site.libs.toCrates (demo.sale site p)).1 ∧
        (demo.after site p commandEnd).house site =
          ((demo.house site).perform site.libs.toCrates (demo.sale site p)).2) := by
  obtain ⟨joinEnd, hjoin, hrest⟩ := Loop.Settles.of_bind
    (fun _ _ _ hle h => joinNetwork_mono hle h) hends
  cases joinEnd with
  | exited => exact Or.inl (hrest.unique (Loop.settles_const fun _ => rfl))
  | joined node =>
    obtain ⟨enough, hjoined⟩ := hjoin
    have hnode := joined_node (hjoined enough le_rfl)
    by_cases hanswered : demo.Answered site p
    · obtain ⟨commandEnd', _, hsettled, hprinted, hafter⟩ :=
        perform_settles hready hfits hanswered hnode
      obtain rfl := hrest.unique hsettled
      exact Or.inr ⟨hprinted, hafter⟩
    · exact absurd hrest (perform_hangs hready hfits hanswered hnode commandEnd)

/-- One step: the server handles a request of somebody, or a process runs and
gives up or ends. The house sees who lists what, or the command. -/
inductive Step (site : DemoSite ι) (demo : Demo ι) :
    HouseEvent ι → Option (List String) → Demo ι → Prop
  | request (q : ServerRequest) :
      Step site demo (.listed (demo.daemon.keeps site.libs q.rpc q.message).toList) none
        { demo with daemon := demo.daemon.handle site.libs q.rpc q.inputs q.message }
  | gaveUp {p : Process ι} (hends : demo.Ends site p .exited) :
      Step site demo (.listed []) none demo
  | command {p : Process ι} {commandEnd : CommandEnd} (hfits : demo.Fits site p)
      (hends : demo.Ends site p commandEnd) (hjoined : commandEnd ≠ .exited) :
      Step site demo (.sale (demo.sale site p)) commandEnd.printed (demo.after site p commandEnd)

/-- One step after the other, with what the house sees and what is printed. -/
inductive Run (site : DemoSite ι) :
    Demo ι → List (HouseEvent ι) → List (Option (List String)) → Demo ι → Prop
  | nil {demo : Demo ι} : Run site demo [] [] demo
  | cons {demo demo' last : Demo ι} {event : HouseEvent ι} {text : Option (List String)}
      {events : List (HouseEvent ι)} {texts : List (Option (List String))}
      (hstep : demo.Step site event text demo') (hrest : Run site demo' events texts last) :
      Run site demo (event :: events) (text :: texts) last

/-- A step is one of the house. -/
theorem Step.refines {demo' : Demo ι} {event : HouseEvent ι} {text : Option (List String)}
    (hready : demo.Ready site) (hstep : demo.Step site event text demo') :
    (demo.house site).step site.libs.toCrates event = (text, demo'.house site) := by
  cases hstep with
  | request q =>
    have hlisted :=
      @Server.findAuction_handle site.libs demo.daemon q.rpc q.inputs q.message
    unfold House.step House.listAll house
    dsimp only
    rw [hlisted]
    rfl
  | gaveUp hends => rfl
  | command hfits hends hjoined =>
    rcases ends_cases hready hfits hends with hexited | ⟨hprinted, hafter⟩
    · exact absurd hexited hjoined
    · unfold House.step
      rw [hprinted, hafter]

theorem Step.ready {demo' : Demo ι} {event : HouseEvent ι} {text : Option (List String)}
    (hready : demo.Ready site) (hstep : demo.Step site event text demo') : demo'.Ready site := by
  have hhouse := hstep.refines hready
  cases hstep with
  | request q =>
    have hafter : (demo.house site).listAll (demo.daemon.keeps site.libs q.rpc q.message).toList =
        ({ demo with daemon := demo.daemon.handle site.libs q.rpc q.inputs q.message } :
          Demo ι).house site := congrArg Prod.snd hhouse
    refine ⟨hready.auctions, fun i => (hready.serves i).handleAll [q], hready.port, ?_⟩
    rw [← hafter]
    exact hready.clean.listAll fun auction hmem =>
      Server.winningBid_of_keeps (Option.mem_toList.mp hmem)
  | gaveUp hends => exact hready
  | @command p commandEnd hfits hends hjoined =>
    have hafter : ((demo.house site).perform site.libs.toCrates (demo.sale site p)).2 =
        (demo.after site p commandEnd).house site := congrArg Prod.snd hhouse
    have hclean : ((demo.after site p commandEnd).house site).Clean := by
      rw [← hafter]
      exact hready.clean.perform fun auction hmem => Server.winningBid_of_kept hmem
    cases commandEnd with
    | exited => exact absurd rfl hjoined
    | serving host => exact hready
    | returned result host stores =>
      refine ⟨hready.auctions, fun i => ?_, hready.port, hclean⟩
      -- Who a node is does not depend on the demo.
      have hclient : ((demo.after site p (.returned result host stores)).host site i).node.Genuine
          site.libs := (hready.serves i).client.congr rfl rfl
      have hwaiting := (@waiting_node ι site demo p hready).1.handleAll
        (stores.flatMap fun auction => (demo.host site p.client).node.request site.libs .store
          p.storing site.libs.prost.storeRequest { auction := some auction.toProto })
      exact ⟨hwaiting.proto3, hclient, hwaiting.server⟩

/-- A process that joins takes its step, if it is answered. -/
theorem exists_step (hready : demo.Ready site) (hfits : demo.Fits site p)
    (hanswered : demo.Answered site p) {node : Node}
    (hjoin : Loop.Settles (joinNetwork site.libs (demo.host site p.client).node false
      site.nMaxRetries p.attempts p.discovery) (.joined node)) :
    ∃ demo', demo.Step site (.sale (demo.sale site p))
      ((demo.house site).perform site.libs.toCrates (demo.sale site p)).1 demo' := by
  obtain ⟨enough, hjoined⟩ := id hjoin
  obtain ⟨commandEnd, hne, hsettled, hprinted, _⟩ :=
    perform_settles hready hfits hanswered (joined_node (hjoined enough le_rfl))
  rw [← hprinted]
  exact ⟨_, .command hfits (hjoin.bind hsettled) hne⟩

omit [DecidableEq ι] in
/-- Else it does not end. -/
theorem not_ends (hready : demo.Ready site) (hfits : demo.Fits site p)
    (hsilent : ¬ demo.Answered site p) {node : Node}
    (hjoin : Loop.Settles (joinNetwork site.libs (demo.host site p.client).node false
      site.nMaxRetries p.attempts p.discovery) (.joined node)) (commandEnd : CommandEnd) :
    ¬ demo.Ends site p commandEnd := by
  intro hends
  obtain ⟨joinEnd, hjoin', hrest⟩ := Loop.Settles.of_bind
    (fun _ _ _ hle h => joinNetwork_mono hle h) hends
  obtain rfl := hjoin.unique hjoin'
  obtain ⟨enough, hjoined⟩ := hjoin
  exact perform_hangs hready hfits hsilent (joined_node (hjoined enough le_rfl)) commandEnd hrest

theorem Run.refines {demo' : Demo ι} {events : List (HouseEvent ι)}
    {texts : List (Option (List String))} (hready : demo.Ready site)
    (hrun : Run site demo events texts demo') :
    (demo.house site).run site.libs.toCrates events = (texts, demo'.house site) ∧
      demo'.Ready site := by
  induction hrun with
  | nil => exact ⟨rfl, hready⟩
  | cons hstep hrest ih =>
    obtain ⟨hhouse, hlast⟩ := ih (hstep.ready hready)
    refine ⟨?_, hlast⟩
    rw [House.run_cons, hstep.refines hready]
    dsimp only
    rw [hhouse]

end Demo

/-! A client that creates an auction. -/

def posterSite : DemoSite Unit where
  libs := peerLibraries
  info := fun _ => (peer 2 8001).nodeInfo
  config := fun _ => peerConfig 2 8001
  nMaxRetries := 3

def posterDemo : Demo Unit where
  daemon := peerServer 1 8000
  dirs := fun _ => { auctions := .absent, ledger := .absent }

def posterProcess (command : Command) : Process Unit where
  client := ()
  command := command
  attempts := fun _ => firstRound.attempt peerLibraries (peer 2 8001)
  discovery := fun _ => Link.refused
  asking := sampleInputs
  meanwhile := []
  effects := Effects.calm 0
  now := 0
  storing := sampleInputs
  ended := fun _ => true

/-- Every STORE that is sent on ends. -/
theorem answered_posterProcess (demo : Demo Unit) (command : Command) :
    demo.Answered posterSite (posterProcess command) :=
  fun _ _ => List.all_eq_true.mpr fun _ _ => rfl

def poster : Auction :=
  Auction.new peerLibraries.toCrates "Poster" 25 (peer 2 8001).nodeInfo.id 0

theorem ready_posterDemo : posterDemo.Ready posterSite where
  auctions := Codec.isProto3_proto3 _
  serves := fun _ => peerServer_serves 1 2 8000 8001
  port := fun _ => (by decide : (8001 : Nat) ≠ 8000)
  clean :=
    { listed := fun _ _ h => by cases h
      copies := fun _ _ _ h => by cases h }

theorem short_poster : poster.toProto.Short :=
  Auction.short_toProto (by decide) (fun bid hbid => by cases hbid) (by decide) (by decide)
    (by decide) (by decide) (by decide)

theorem closest_peerServer (key : Address) :
    (peerServer 1 8000).host.node.getClosestNodesToKey key =
      [(peerServer 1 8000).host.node.nodeInfo.toInformation] :=
  congrArg (List.map NodeInfo.toInformation)
    (RoutingTable.getKClosestNodes_new (peerServer 1 8000).host.node.nodeInfo
      (peerConfig 1 8000) key)

theorem fits_poster : posterDemo.Fits posterSite (posterProcess (.CreateAuction "Poster" 25)) where
  oneShot := by decide
  written := Effects.allWritten_calm 0
  found := fun _ _ h => by cases h
  named := fun _ h => by cases h
  offered := by
    intro auction hoffer
    obtain rfl := Option.some.inj hoffer
    exact short_poster
  closest := by
    intro auction hoffer
    show _ ∈ (peerServer 1 8000).host.node.getClosestNodesToKey auction.key
    rw [closest_peerServer]
    exact List.mem_singleton_self _

theorem joins_poster (command : Command) : Loop.Settles (joinNetwork posterSite.libs
      (posterDemo.host posterSite ()).node false posterSite.nMaxRetries
      (posterProcess command).attempts (posterProcess command).discovery)
    (.joined ((peer 2 8001).insertNodeToRoutingTable (peer 1 8000).nodeInfo)) :=
  firstRound.joinNetwork_settles (peerServer_serves 1 2 8000 8001) (by decide)
    isSolution_firstRound
    (firstRound.accepts_of_undisturbed (peerServer_serves 1 2 8000 8001) isSolution_firstRound
      undisturbed_firstRound)
    (by decide) rfl 2 _

def wideServer : Server :=
  { peerServer 1 8000 with
    host := ((Host.fresh (peer 1 8000).nodeInfo.id "127.0.0.1" 8000
      { peerConfig 1 8000 with kValue := 600 }).storeAuction peerLibraries.toCrates
        (Effects.calm 0) poster).2 }

def bidDemo : Demo Unit := { posterDemo with daemon := wideServer }

def bidProcess : Process Unit := posterProcess (.Bid poster.key 40)

theorem findAuction_wideServer : wideServer.host.node.findAuction =
    AuctionMap.put (fun _ => none) poster :=
  Host.findAuction_storeAuction ..

theorem ready_bidDemo : bidDemo.Ready posterSite where
  auctions := Codec.isProto3_proto3 _
  serves := fun _ => by
    have hserves := peerServer_serves 1 2 8000 8001
    exact ⟨hserves.proto3, hserves.client, genuine_of_key rfl rfl rfl⟩
  port := fun _ => (by decide : (8001 : Nat) ≠ 8000)
  clean :=
    { listed := by
        intro key auction hlisted
        rw [show (bidDemo.house posterSite).listed = _ from findAuction_wideServer] at hlisted
        unfold AuctionMap.put at hlisted
        split at hlisted
        · obtain rfl := Option.some.inj hlisted
          exact (Option.some_ne_none 0).symm
        · cases hlisted
      copies := fun _ _ _ h => by cases h }

theorem find_poster : (bidDemo.house posterSite).find () poster.key = some poster := by
  have hlisted : (bidDemo.house posterSite).listed poster.key = some poster := by
    rw [show (bidDemo.house posterSite).listed = _ from findAuction_wideServer]
    exact if_pos rfl
  exact hlisted

theorem offer_bidProcess : (bidDemo.house posterSite).offer posterSite.libs.toCrates
    (bidDemo.sale posterSite bidProcess) = some { poster with
      bids := [{ buyer := (peer 2 8001).nodeInfo.id, auction := poster.key, amount := 40 }] } := by
  rw [House.offer_bid _ _ rfl, show (bidDemo.house posterSite).find _ poster.key = _ from find_poster,
    Option.bind_some,
    Auction.placeBid_eq_ok.mpr ⟨rfl, by decide, by decide, rfl⟩]
  rfl

theorem fits_bidProcess : bidDemo.Fits posterSite bidProcess where
  oneShot := by decide
  written := Effects.allWritten_calm 0
  found := by
    intro key auction hkey hlisted
    rw [show (bidDemo.house posterSite).listed = _ from findAuction_wideServer] at hlisted
    unfold AuctionMap.put at hlisted
    split at hlisted
    · obtain rfl := Option.some.inj hlisted
      exact short_poster
    · cases hlisted
  named := by
    intro key hkey hlisted
    obtain rfl := Option.some.inj hkey
    have hfound := find_poster
    rw [show (bidDemo.house posterSite).find () poster.key =
      (bidDemo.house posterSite).listed poster.key from rfl, hlisted] at hfound
    cases hfound
  offered := by
    intro auction hoffer
    rw [offer_bidProcess] at hoffer
    obtain rfl := Option.some.inj hoffer
    refine Auction.short_toProto (by decide) (fun bid hbid => ?_) (by decide) (by decide)
      (by decide) (by decide) (by decide)
    obtain rfl := List.mem_singleton.mp hbid
    exact (by decide : 40 < 2 ^ 64)
  closest := by
    intro auction _
    have hstart : wideServer.host.node.Grown := ⟨[], rfl⟩
    let requests := (bidDemo.host posterSite ()).node.request peerLibraries .findValue sampleInputs
      peerLibraries.prost.findValueRequest { key := poster.key.toStr }
    have hwaiting : bidDemo.waiting posterSite bidProcess =
        wideServer.handleAll peerLibraries requests := rfl
    obtain ⟨hinfo, hconfig⟩ := Server.handleAll_node peerLibraries wideServer requests
    have hclosest := (Server.grown_handleAll hstart requests).own_closest
      (by rw [hconfig]; decide) (by rw [hconfig]; decide) auction.key
    rw [hwaiting]
    rwa [hinfo] at hclosest

end KademliaAuction
