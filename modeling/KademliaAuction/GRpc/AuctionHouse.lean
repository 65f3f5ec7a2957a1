/-
KademliaAuction.GRpc.AuctionHouse — what the one-shot commands are for: an
auction house.

A `House` has one list of auctions, and each client a copy of what it has
published. To find an auction is to look at the own copy and then at the list;
to create or to bid is to put a version on both. `House.perform` is this much,
and knows of no messages, signatures, files or processes.

A `Demo` is what runs: the server of the bootstrap node and, for each client,
a data directory, from which every command starts a new process. `Demo.house`
reads the house off it. A process is `Demo.Ends`, what it leaves behind
`Demo.after`, and what the server handles meanwhile is any list of requests.
The server answers a STORE when those that it sends on have ended; a process
that waits for ever has no end.

`bids_placed` is about the house alone: the bids that are placed on an auction
stay on it, in their order, as long as nobody bids on an old copy.
-/
import KademliaAuction.GRpc.BidProvenance
import KademliaAuction.GRpc.RunCommand
import KademliaAuction.StoreRefinement

namespace KademliaAuction

open Blockchain Proto Routing Storage Lib RunCommand

/-! ## The house -/

/-- An auction replaces the one with its key. -/
def AuctionMap.put (m : AuctionMap) (auction : Auction) : AuctionMap := fun key =>
  if auction.key = key then some auction else m key

def AuctionMap.putAll (m : AuctionMap) (auctions : List Auction) : AuctionMap :=
  auctions.foldl AuctionMap.put m

/-- The list of auctions, and the copies of the clients. -/
structure House (ι : Type) where
  listed : AuctionMap
  copies : ι → AuctionMap

/-- A command of a client, and what others put on the list after the client
has looked at it. -/
structure Sale (ι : Type) where
  client : ι
  id : Address
  command : Command
  now : Int
  meanwhile : List Auction

namespace House

variable {ι : Type} (crates : Crates) (house : House ι) (sale : Sale ι)

/-- Others put auctions on the list. -/
def listAll (auctions : List Auction) : House ι :=
  { house with listed := house.listed.putAll auctions }

/-- A client puts an auction on the list and among its copies. -/
def publish [DecidableEq ι] (client : ι) (auction : Auction) : House ι where
  listed := house.listed.put auction
  copies := Function.update house.copies client ((house.copies client).put auction)

/-- The own copy comes first. -/
def find (client : ι) (key : Address) : Option Auction :=
  (house.copies client key).or (house.listed key)

/-- The version that a command publishes. -/
def offer : Option Auction :=
  match sale.command with
  | .CreateAuction object initialValue =>
      some (Auction.new crates object initialValue.toNat sale.id sale.now)
  | .Bid key amount =>
      (house.find sale.client key).bind fun base =>
        (base.placeBid sale.id amount.toNat sale.now).toOption
  | _ => none

/-- What a command prints. -/
def text : Option (List String) :=
  match sale.command with
  | .Serve => none
  | .CreateAuction _ _ => (house.offer crates sale).map createdText
  | .FindAuction key => (house.find sale.client key).map printAuction
  | .Bid _ amount => (house.offer crates sale).map fun auction =>
      placedText auction amount.toNat sale.id

theorem offer_createAuction {sale : Sale ι} {object : String} {initialValue : UInt64}
    (h : sale.command = .CreateAuction object initialValue) :
    house.offer crates sale =
      some (Auction.new crates object initialValue.toNat sale.id sale.now) := by
  unfold offer
  rw [h]

theorem offer_bid {sale : Sale ι} {key : Address} {amount : UInt64}
    (h : sale.command = .Bid key amount) :
    house.offer crates sale = (house.find sale.client key).bind fun base =>
      (base.placeBid sale.id amount.toNat sale.now).toOption := by
  unfold offer
  rw [h]

/-- A command, with its text if it succeeds. -/
def perform [DecidableEq ι] : Option (List String) × House ι :=
  (house.text crates sale,
    match house.offer crates sale with
    | none => house.listAll sale.meanwhile
    | some auction => (house.listAll sale.meanwhile).publish sale.client auction)

variable {crates house sale} [DecidableEq ι]

theorem perform_of_none (h : house.offer crates sale = none) :
    (house.perform crates sale).2 = house.listAll sale.meanwhile := by
  unfold perform
  rw [h]

theorem perform_of_some {auction : Auction} (h : house.offer crates sale = some auction) :
    (house.perform crates sale).2 =
      (house.listAll sale.meanwhile).publish sale.client auction := by
  unfold perform
  rw [h]

end House

/-! ## Clean houses -/

theorem AuctionMap.putAll_cases {m : AuctionMap} {auctions : List Auction} {key : Address}
    {auction : Auction} (h : m.putAll auctions key = some auction) :
    auction ∈ auctions ∨ m key = some auction := by
  induction auctions generalizing m with
  | nil => exact Or.inr h
  | cons first auctions ih =>
    rcases ih h with hmem | hput
    · exact Or.inl (List.mem_cons_of_mem _ hmem)
    · unfold AuctionMap.put at hput
      split at hput
      · obtain rfl := Option.some.inj hput
        exact Or.inl List.mem_cons_self
      · exact Or.inr hput

/-- No auction has a winning bid of zero, which is lost on the way. -/
structure House.Clean {ι : Type} (house : House ι) : Prop where
  listed : ∀ key auction, house.listed key = some auction → auction.winningBid ≠ some 0
  copies : ∀ i key auction, house.copies i key = some auction → auction.winningBid ≠ some 0

namespace House.Clean

variable {ι : Type} {house : House ι}

theorem find (h : house.Clean) {client : ι} {key : Address} {auction : Auction}
    (hfound : house.find client key = some auction) : auction.winningBid ≠ some 0 := by
  rcases Option.or_eq_some_iff.mp hfound with hcopy | ⟨_, hlisted⟩
  · exact h.copies _ _ auction hcopy
  · exact h.listed _ auction hlisted

theorem listAll (h : house.Clean) {auctions : List Auction}
    (hauctions : ∀ auction ∈ auctions, auction.winningBid ≠ some 0) :
    (house.listAll auctions).Clean where
  listed := by
    intro key auction hlisted
    rcases AuctionMap.putAll_cases hlisted with hmem | hold
    · exact hauctions auction hmem
    · exact h.listed key auction hold
  copies := h.copies

theorem publish [DecidableEq ι] (h : house.Clean) {client : ι} {auction : Auction}
    (hauction : auction.winningBid ≠ some 0) : (house.publish client auction).Clean := by
  have hput : ∀ {m : AuctionMap}, (∀ key a, m key = some a → a.winningBid ≠ some 0) →
      ∀ key a, m.put auction key = some a → a.winningBid ≠ some 0 := by
    intro m hm key a ha
    unfold AuctionMap.put at ha
    split at ha
    · obtain rfl := Option.some.inj ha
      exact hauction
    · exact hm key a ha
  refine ⟨hput h.listed, fun i key a ha => ?_⟩
  by_cases hi : i = client
  · subst hi
    unfold House.publish at ha
    dsimp only at ha
    rw [Function.update_self] at ha
    exact hput (h.copies i) key a ha
  · unfold House.publish at ha
    dsimp only at ha
    rw [Function.update_of_ne hi] at ha
    exact h.copies i key a ha

/-- What a command offers is a new auction or one that it has found. -/
theorem offer (h : house.Clean) {crates : Crates} {sale : Sale ι} {auction : Auction}
    (hoffer : house.offer crates sale = some auction) : auction.winningBid ≠ some 0 := by
  unfold House.offer at hoffer
  split at hoffer
  · obtain rfl := Option.some.inj hoffer
    exact (Option.some_ne_none 0).symm
  · obtain ⟨base, hfound, hplaced⟩ := Option.bind_eq_some_iff.mp hoffer
    obtain ⟨_, _, _, rfl⟩ := Auction.placeBid_eq_ok.mp (ok_of_toOption hplaced)
    have hbase : base.winningBid ≠ some 0 := h.find hfound
    exact hbase
  · cases hoffer

theorem perform [DecidableEq ι] (h : house.Clean) {crates : Crates} {sale : Sale ι}
    (hmeanwhile : ∀ auction ∈ sale.meanwhile, auction.winningBid ≠ some 0) :
    (house.perform crates sale).2.Clean := by
  unfold House.perform
  cases hoffer : house.offer crates sale with
  | none => exact h.listAll hmeanwhile
  | some auction => exact (h.listAll hmeanwhile).publish (h.offer hoffer)

end House.Clean

/-- What happens at the house: somebody lists auctions, or a client gives a
command. -/
inductive HouseEvent (ι : Type) where
  | listed (auctions : List Auction)
  | sale (sale : Sale ι)

namespace House

variable {ι : Type} [DecidableEq ι] (crates : Crates)

def step (house : House ι) : HouseEvent ι → Option (List String) × House ι
  | .listed auctions => (none, house.listAll auctions)
  | .sale sale => house.perform crates sale

/-- The texts that are printed, and the house in the end. -/
def run (house : House ι) : List (HouseEvent ι) → List (Option (List String)) × House ι
  | [] => ([], house)
  | event :: events =>
      let (text, after) := house.step crates event
      let (texts, last) := run after events
      (text :: texts, last)

theorem run_cons (house : House ι) (event : HouseEvent ι) (events : List (HouseEvent ι)) :
    house.run crates (event :: events) =
      ((house.step crates event).1 :: ((house.step crates event).2.run crates events).1,
        ((house.step crates event).2.run crates events).2) := rfl

end House

/-! ## Bids -/

theorem AuctionMap.putAll_of_other {m : AuctionMap} {auctions : List Auction} {key : Address}
    (h : ∀ auction ∈ auctions, auction.key ≠ key) : m.putAll auctions key = m key := by
  induction auctions generalizing m with
  | nil => rfl
  | cons first auctions ih =>
    have hrest : (m.put first).putAll auctions key = m.put first key :=
      ih fun auction hmem => h auction (List.mem_cons_of_mem _ hmem)
    rw [AuctionMap.putAll, List.foldl_cons]
    exact hrest.trans (if_neg (h first List.mem_cons_self))

namespace House

variable {ι : Type}

/-- The bid on an auction that a client has been told is placed. -/
def placedBid (key : Address) : HouseEvent ι → Option (List String) → Option Bid
  | .sale sale, some _ =>
      match sale.command with
      | .Bid key' amount =>
          if key' = key then some { buyer := sale.id, auction := key, amount := amount.toNat }
          else none
      | _ => none
  | _, _ => none

def placedBids (key : Address) (events : List (HouseEvent ι))
    (texts : List (Option (List String))) : List Bid :=
  (events.zip texts).filterMap fun (event, text) => placedBid key event text

section Placed

variable {crates : Crates} {house : House ι} {key : Address} {sale : Sale ι}

theorem placedBid_of_some {amount : UInt64} {offered : Auction}
    (hcommand : sale.command = .Bid key amount) (hoffer : house.offer crates sale = some offered) :
    placedBid key (.sale sale) (house.text crates sale) =
      some { buyer := sale.id, auction := key, amount := amount.toNat } := by
  simp [placedBid, text, hcommand, hoffer]

theorem placedBid_of_none
    (h : ∀ amount, sale.command = .Bid key amount → house.offer crates sale = none) :
    placedBid key (.sale sale) (house.text crates sale) = none := by
  cases hcommand : sale.command with
  | Serve => simp [placedBid, text, hcommand]
  | CreateAuction => cases htext : house.text crates sale <;> simp [placedBid, hcommand]
  | FindAuction => cases htext : house.text crates sale <;> simp [placedBid, hcommand]
  | Bid key' amount =>
    by_cases hkey : key' = key
    · subst hkey
      simp [placedBid, text, hcommand, h amount hcommand]
    · cases htext : house.text crates sale <;> simp [placedBid, hcommand, hkey]

end Placed

variable [DecidableEq ι] (crates : Crates)

/-- Nobody lists an auction of the key or creates it again, and who bids on it
has no copy of its own. -/
def Quiet (house : House ι) (key : Address) : HouseEvent ι → Prop
  | .listed auctions => ∀ auction ∈ auctions, auction.key ≠ key
  | .sale sale =>
      (∀ auction ∈ sale.meanwhile, auction.key ≠ key) ∧
      (∀ amount, sale.command = .Bid key amount → house.copies sale.client key = none) ∧
      ∀ auction, house.offer crates sale = some auction → auction.key = key →
        ∃ amount, sale.command = .Bid key amount

def QuietOn (key : Address) : House ι → List (HouseEvent ι) → Prop
  | _, [] => True
  | house, event :: events =>
      house.Quiet crates key event ∧ QuietOn key (house.step crates event).2 events

variable {crates} {house : House ι} {key : Address} {auction : Auction}

/-- A quiet step adds the bid that it says is placed. -/
theorem listed_step {event : HouseEvent ι} (hlisted : house.listed key = some auction)
    (hkey : auction.key = key) (hquiet : house.Quiet crates key event) :
    (house.step crates event).2.listed key = some { auction with
      bids := auction.bids ++ (placedBid key event (house.step crates event).1).toList } := by
  have hsame : some auction =
      some { auction with bids := auction.bids ++ (none : Option Bid).toList } := by
    rw [Option.toList_none, List.append_nil]
  cases event with
  | listed auctions =>
    have hother : (house.listAll auctions).listed key = house.listed key :=
      AuctionMap.putAll_of_other hquiet
    exact (hother.trans hlisted).trans hsame
  | sale sale =>
    obtain ⟨hmeanwhile, hfresh, honly⟩ := hquiet
    have hother : (house.listAll sale.meanwhile).listed key = some auction :=
      (AuctionMap.putAll_of_other hmeanwhile).trans hlisted
    -- A bid on the key is made on the version that is listed.
    have hbid : ∀ amount, sale.command = .Bid key amount →
        house.offer crates sale = (auction.placeBid sale.id amount.toNat sale.now).toOption := by
      intro amount hcommand
      rw [offer_bid crates house hcommand, find, hfresh amount hcommand, Option.none_or, hlisted,
        Option.bind_some]
    unfold step
    cases hoffer : house.offer crates sale with
    | none =>
      have htext : (house.perform crates sale).1 = house.text crates sale := rfl
      rw [perform_of_none hoffer, htext, placedBid_of_none fun _ _ => hoffer, ← hsame]
      exact hother
    | some offered =>
      have htext : (house.perform crates sale).1 = house.text crates sale := rfl
      rw [perform_of_some hoffer, htext]
      by_cases hsamekey : offered.key = key
      · obtain ⟨amount, hcommand⟩ := honly offered hoffer hsamekey
        have hplaced := ok_of_toOption ((hbid amount hcommand).symm.trans hoffer)
        obtain ⟨_, _, _, heq⟩ := Auction.placeBid_eq_ok.mp hplaced
        rw [placedBid_of_some hcommand hoffer, Option.toList_some, ← hkey, ← heq, hkey]
        exact if_pos hsamekey
      · rw [placedBid_of_none, ← hsame]
        · exact (if_neg hsamekey).trans hother
        · intro amount hcommand
          have hplaced := ok_of_toOption ((hbid amount hcommand).symm.trans hoffer)
          obtain ⟨_, _, _, rfl⟩ := Auction.placeBid_eq_ok.mp hplaced
          exact absurd hkey hsamekey

/-- **Placed bids stay**: in a quiet run, an auction of the list ends with the
bids that it had, followed by those that the clients have been told are
placed. -/
theorem bids_placed {events : List (HouseEvent ι)} (hlisted : house.listed key = some auction)
    (hkey : auction.key = key) (hquiet : house.QuietOn crates key events) :
    (house.run crates events).2.listed key = some { auction with
      bids := auction.bids ++ placedBids key events (house.run crates events).1 } := by
  induction events generalizing house auction with
  | nil =>
    have hnone : placedBids key ([] : List (HouseEvent ι)) [] = [] := rfl
    unfold run
    dsimp only
    rw [hnone, List.append_nil]
    exact hlisted
  | cons event events ih =>
    have hrest := ih (listed_step hlisted hkey hquiet.1) hkey hquiet.2
    have hbids : placedBids key (event :: events) (house.run crates (event :: events)).1 =
        (placedBid key event (house.step crates event).1).toList ++
          placedBids key events ((house.step crates event).2.run crates events).1 := by
      unfold placedBids
      rw [run_cons, List.zip_cons_cons, List.filterMap_cons]
      dsimp only
      cases placedBid key event (house.step crates event).1 with
      | none => rfl
      | some bid => rfl
    rw [hbids, ← List.append_assoc]
    exact hrest

end House

/-! ## What runs -/

/-- What stays as it is: the libraries, and the clients with their settings. -/
structure DemoSite (ι : Type) where
  libs : Libraries
  info : ι → NodeInfo
  config : ι → Config
  nMaxRetries : Nat

/-- The server of the bootstrap node, and the data directories of the
clients. -/
structure Demo (ι : Type) where
  daemon : Server
  dirs : ι → DataDir

/-- A one-shot process: its client and command, the connections it joins with,
what the server takes from outside when the process asks and when it stores,
the requests that the server handles between the two, and which of the STOREs
end that the server sends on. -/
structure Process (ι : Type) where
  client : ι
  command : Command
  attempts : Nat → Attempt
  discovery : NodeInfo → Link
  asking : Inputs
  meanwhile : List ServerRequest
  effects : Effects
  now : Int
  storing : Inputs
  ended : NodeInformation → Bool

/-- The key that a command looks up. -/
def Command.key? : Command → Option Address
  | .FindAuction key => some key
  | .Bid key _ => some key
  | _ => none

/-- The auctions that requests make a server keep, one after the other. -/
def Server.kept (libs : Libraries) : Server → List ServerRequest → List Auction
  | _, [] => []
  | server, q :: requests =>
      (server.keeps libs q.rpc q.message).toList ++
        kept libs (server.handle libs q.rpc q.inputs q.message) requests

/-- What the process has printed, if it has succeeded. -/
def CommandEnd.printed : CommandEnd → Option (List String)
  | .returned (.ok text) _ _ => some text
  | _ => none

namespace Demo

variable {ι : Type} [DecidableEq ι] (site : DemoSite ι) (demo : Demo ι) (p : Process ι)

/-- The process of a client as it starts. -/
def host (i : ι) : Host where
  node := Node.new (site.info i).id (site.info i).ip (site.info i).port (site.config i) (demo.dirs i)
  disk := demo.dirs i

def house : House ι where
  listed := demo.daemon.host.node.findAuction
  copies := fun i => (demo.host site i).node.findAuction

/-- The server when the process has looked its auction up: it is asked unless
the process has its own copy. -/
def asked : Server :=
  let node := (demo.host site p.client).node
  match p.command.key? with
  | none => demo.daemon
  | some key =>
      if (node.findAuction key).isSome then demo.daemon
      else demo.daemon.handleAll site.libs (node.request site.libs .findValue p.asking
        site.libs.prost.findValueRequest { key := key.toStr })

/-- The server when the STORE of the process arrives. -/
def waiting : Server := (demo.asked site p).handleAll site.libs p.meanwhile

/-- The connections of the process: nobody but the server listens. -/
def inputs : CommandInputs where
  attempts := p.attempts
  discovery := p.discovery
  findValue := fun ip port =>
    if (ip, port) = Lookup.bootstrapEndpoint (demo.host site p.client).node then
      demo.daemon.link site.libs .findValue p.asking
    else Link.refused
  store := (demo.waiting site p).storeLink site.libs p.storing p.ended
  effects := p.effects
  now := p.now

/-- The process runs, with fuel enough, and ends like this. -/
def Ends (commandEnd : CommandEnd) : Prop :=
  Loop.Settles (runCommand site.libs (demo.inputs site p) site.nMaxRetries
    (demo.host site p.client) p.command) commandEnd

/-- What the process leaves behind. -/
def after : CommandEnd → Demo ι
  | .returned _ host stores =>
      { daemon := (demo.waiting site p).handleAll site.libs (stores.flatMap fun auction =>
          (demo.host site p.client).node.request site.libs .store p.storing
            site.libs.prost.storeRequest { auction := some auction.toProto })
        dirs := Function.update demo.dirs p.client host.disk }
  | _ => demo

/-- What the process does at the house. -/
def sale : Sale ι where
  client := p.client
  id := (site.info p.client).id
  command := p.command
  now := p.now
  meanwhile := (demo.asked site p).kept site.libs p.meanwhile

end Demo

end KademliaAuction
