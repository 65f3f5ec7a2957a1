/-
KademliaAuction.GRpc.Automation — the automation tick of a client
(`src/g_rpc/client.rs`).

A tick closes what has expired, publishes the closed auctions one after the
other, and then creates an auction, bids on one, or does nothing, as it
draws. A `Tick` is what one of them takes from outside: the clock, the order
of the hash set, how each write ends, what each STORE comes to, and the
draws. A `TickTrace` is what it does. `start` logs a failed tick and goes on
to the next, so a run of `automation` is a list of ticks.

The list of closed auctions is only in the `Ok` of `close_expired_auctions`,
and the loop that publishes it leaves at the first error. `closes_iff` says
what a tick closes, `sends_all_iff` how far the loop comes, and
`publishesClosed_iff` puts them together: when a tick publishes what it
closes. `closed_auctions_published` is the same for runs, and
`closed_auction_lost` a run in which one auction is never published.
-/
import KademliaAuction.GRpc.Client
import KademliaAuction.LedgerTheorems

namespace KademliaAuction

open Blockchain Storage Lib

/-- What one call of `publish_auction` takes from outside: how its writes end
and what `send_store_to_node` returns. -/
structure PublishInputs where
  effects : Effects
  send : Except String Unit

/-- What a tick, or a part of it, has done: its result, the host it leaves,
the auctions it has passed to `publish_auction`, and those whose STORE it has
attempted. -/
structure TickTrace where
  result : Except String Unit
  host : Host
  published : List Auction
  stores : List Auction

namespace TickTrace

/-- Nothing done, with the given result. -/
def stop (result : Except String Unit) (host : Host) : TickTrace :=
  { result, host, published := [], stores := [] }

/-- `?` and what comes after it. -/
def andThen (trace : TickTrace) (next : Host → TickTrace) : TickTrace :=
  match trace.result with
  | .error _ => trace
  | .ok () =>
      let rest := next trace.host
      { rest with
        published := trace.published ++ rest.published
        stores := trace.stores ++ rest.stores }

end TickTrace

/-- The random choice at the end of a tick, with its draws: numbers that are
taken into their range where they are used. -/
inductive RandomAction where
  | create (item value : Nat) (now : Int)
  | bid (choice increment : Nat) (now : Int)
  | idle

/-- What one tick takes from outside. The calls of `publish_auction` in its
loop are numbered. -/
structure Tick where
  now : Int
  order : List Auction
  closing : Effects
  publishing : Nat → PublishInputs
  action : RandomAction
  acting : PublishInputs

/-! ## The tick -/

namespace Automation

variable (crates : Crates)

/-- The `items` of `create_random_auction`. -/
def items : List String :=
  ["Vintage keyboard", "Mechanical watch", "Signed poster", "Film camera", "Studio headphones",
    "Arcade cabinet", "Antique map", "Handmade chess set"]

/-- `publish_auction`: the bootstrap node stores the auction and sends it to
nobody. -/
def publishAuction (inputs : PublishInputs) (host : Host) (auction : Auction) : TickTrace :=
  match host.storeAuction crates inputs.effects auction with
  | (.error e, host) => { TickTrace.stop (.error e) host with published := [auction] }
  | (.ok _, host) =>
      if host.node.nodeInfo.port ≠ host.node.config.bootstrapPeerPort then
        { result := inputs.send, host, published := [auction], stores := [auction] }
      else { TickTrace.stop (.ok ()) host with published := [auction] }

/-- The `for` loop of `run_automation_tick`. -/
def publishClosed : (Nat → PublishInputs) → List Auction → Host → TickTrace
  | _, [], host => .stop (.ok ()) host
  | publishing, auction :: rest, host =>
      (publishAuction crates (publishing 0) host auction).andThen
        (publishClosed (fun n => publishing (n + 1)) rest)

/-- `create_random_auction`, with a price of 10 to 149. -/
def createRandomAuction (item value : Nat) (now : Int) (inputs : PublishInputs) (host : Host) :
    TickTrace :=
  match items[item % items.length]? with
  | none => .stop (.error "No automation items configured") host
  | some object =>
      publishAuction crates inputs host
        (Auction.newWithDuration crates object (10 + value % 140) host.node.nodeInfo.id
          host.node.config.auctionDurationMs now)

/-- `bid_on_random_auction`, with an increment of 1 to 24. The sum is taken in
`u64`; where it wraps, `place_bid` refuses it. -/
def bidOnRandomAuction (choice increment : Nat) (now : Int) (inputs : PublishInputs)
    (host : Host) : TickTrace :=
  let auctions := host.node.allAuctions.filter fun auction =>
    auction.status = .Open ∧ auction.seller ≠ host.node.nodeInfo.id
  match auctions[choice % auctions.length]? with
  | none => .stop (.ok ()) host
  | some auction =>
      let amount := (auction.highestBidAmount + (1 + increment % 24)) % 2 ^ 64
      match auction.placeBid host.node.nodeInfo.id amount now with
      | .error e => .stop (.error e) host
      | .ok auction => publishAuction crates inputs host auction

/-- The `match` on the drawn action. -/
def act (action : RandomAction) (inputs : PublishInputs) (host : Host) : TickTrace :=
  match action with
  | .create item value now => createRandomAuction crates item value now inputs host
  | .bid choice increment now => bidOnRandomAuction crates choice increment now inputs host
  | .idle => .stop (.ok ()) host

/-- `run_automation_tick`. -/
def runAutomationTick (host : Host) (tick : Tick) : TickTrace :=
  match host.closeExpiredAuctions crates tick.closing tick.now tick.order with
  | (.error e, host) => .stop (.error e) host
  | (.ok closed, host) =>
      (publishClosed crates tick.publishing closed host).andThen
        (act crates tick.action tick.acting)

end Automation

/-- The node is not the bootstrap node. -/
def Host.NotBootstrap (host : Host) : Prop :=
  host.node.nodeInfo.port ≠ host.node.config.bootstrapPeerPort

/-- The ticks of a node that is not the bootstrap node. Each finds the store
in some order. -/
def automation (crates : Crates) : System Host Tick where
  Init := Host.NotBootstrap
  next := fun host tick =>
    if tick.order.Perm host.node.auctions.elems then
      some (Automation.runAutomationTick crates host tick).host
    else none

theorem automation_next {crates : Crates} {host host' : Host} {tick : Tick} :
    (automation crates).next host tick = some host' ↔
      tick.order.Perm host.node.auctions.elems ∧
        (Automation.runAutomationTick crates host tick).host = host' := by
  simp [automation]

/-! ## Which writes a call needs -/

/-- If settling the auction commits a block, the ledger is written with
it. -/
def WinWritten (effects : Effects) (node : Node) (ledger : List Block) (auction : Auction) : Prop :=
  Unsettled node ledger auction → effects.ledgerWrite ledger.length = .written

/-- Every block that settling the auctions one after the other commits is
written. -/
def WinsWritten (crates : Crates) (effects : Effects) (node : Node) :
    List Block → List Auction → Prop
  | _, [] => True
  | ledger, auction :: wins =>
      WinWritten effects node ledger auction ∧
        WinsWritten crates effects node (settle crates effects node ledger auction) wins

section Writes

variable (crates : Crates) (effects : Effects)

theorem winWritten_congr {effects : Effects} {node node' : Node} (hinfo : node'.nodeInfo = node.nodeInfo)
    (hconfig : node'.config = node.config) (ledger : List Block) (auction : Auction) :
    WinWritten effects node' ledger auction ↔ WinWritten effects node ledger auction := by
  unfold WinWritten Unsettled
  rw [hinfo, hconfig]

theorem recordDeclaredWin_ok_iff (host : Host) (auction : Auction) :
    (host.recordDeclaredWin crates effects auction).1 = .ok () ↔
      WinWritten effects host.node host.node.ledger auction := by
  unfold WinWritten
  rcases host.recordDeclaredWin_cases crates effects auction with
    ⟨hskip, h⟩ | ⟨_, hok, h⟩ | ⟨hdue, hnot, e, h⟩
  · simp [h, hskip]
  · simp [h, hok]
  · simp [h, hdue, hnot]

/-- Several wins, by induction along them; the ledger on the way is the one
that `settle` makes. -/
theorem recordDeclaredWins_ok_iff (node : Node) (wins : List Auction) (host : Host)
    (hinfo : host.node.nodeInfo = node.nodeInfo) (hconfig : host.node.config = node.config) :
    (Host.recordDeclaredWins crates effects wins host).1 = .ok () ↔
      WinsWritten crates effects node host.node.ledger wins := by
  induction wins generalizing host with
  | nil => simp [Host.recordDeclaredWins, WinsWritten]
  | cons auction wins ih =>
    have hfirst := recordDeclaredWin_ok_iff crates effects host auction
    obtain ⟨hcommits, _, _⟩ := host.recordDeclaredWin_commits crates effects auction
    rw [winWritten_congr hinfo hconfig] at hfirst
    rw [Host.recordDeclaredWins, WinsWritten, ← hfirst]
    generalize host.recordDeclaredWin crates effects auction = recorded at hcommits
    obtain ⟨result, after⟩ := recorded
    cases result with
    | error e => simp
    | ok _ =>
      have hledger : after.node.ledger =
          settle crates effects node host.node.ledger auction := by
        rw [← settle_congr hinfo hconfig]
        exact hcommits.ledger
      have hrest := ih after (hcommits.nodeInfo.trans hinfo) (hcommits.config.trans hconfig)
      rw [hledger] at hrest
      simpa using hrest

/-- `store_auction` succeeds when it writes the store and the block it
commits, if any. -/
theorem storeAuction_ok_iff (host : Host) (auction : Auction) :
    (∃ value, (host.storeAuction crates effects auction).1 = .ok value) ↔
      effects.auctionsWrite = .written ∧
        WinWritten effects host.node host.node.ledger auction := by
  rcases host.storeAuction_cases crates effects auction with ⟨hnot, e, h⟩ | ⟨hok, h⟩
  · simp [h, hnot]
  · have hwin : _ ↔ WinWritten effects host.node host.node.ledger auction :=
      recordDeclaredWin_ok_iff crates effects (host.afterReplace auction) auction
    rw [h, ← hwin]
    simp only [hok, true_and]
    cases ((host.afterReplace auction).recordDeclaredWin crates effects auction).1 <;>
      simp [Except.map]

end Writes

/-! ## What a tick publishes -/

section Publishing

variable {crates : Crates} {host : Host}

theorem TickTrace.andThen_error {trace : TickTrace} {next : Host → TickTrace} {e : String}
    (h : trace.result = .error e) : trace.andThen next = trace := by
  simp [andThen, h]

theorem TickTrace.andThen_ok {trace : TickTrace} {next : Host → TickTrace}
    (h : trace.result = .ok ()) : trace.andThen next =
      { next trace.host with
        published := trace.published ++ (next trace.host).published
        stores := trace.stores ++ (next trace.host).stores } := by
  simp [andThen, h]

/-- What a part publishes, the whole does. -/
theorem TickTrace.subset_andThen (trace : TickTrace) (next : Host → TickTrace) :
    trace.published ⊆ (trace.andThen next).published ∧
      trace.stores ⊆ (trace.andThen next).stores := by
  cases h : trace.result with
  | error e =>
    rw [andThen_error h]
    exact ⟨fun _ ha => ha, fun _ ha => ha⟩
  | ok _ =>
    rw [andThen_ok h]
    exact ⟨List.subset_append_left _ _, List.subset_append_left _ _⟩

theorem TickTrace.host_andThen {P : Host → Prop} {trace : TickTrace} {next : Host → TickTrace}
    (h : P trace.host) (hnext : ∀ host, P host → P (next host).host) :
    P (trace.andThen next).host := by
  cases hresult : trace.result with
  | error e =>
    rw [andThen_error hresult]
    exact h
  | ok _ =>
    rw [andThen_ok hresult]
    exact hnext _ h

theorem Commits.notBootstrap {effects : Effects} {host' : Host} {wins : List Auction}
    (h : Commits crates effects host host' wins) : host'.NotBootstrap ↔ host.NotBootstrap := by
  unfold Host.NotBootstrap
  rw [h.nodeInfo, h.config]

theorem Host.notBootstrap_storeAuction {effects : Effects} {auction : Auction} :
    (host.storeAuction crates effects auction).2.NotBootstrap ↔ host.NotBootstrap := by
  simp [NotBootstrap]

theorem Host.notBootstrap_closeExpiredAuctions {effects : Effects} {now : Int}
    {order : List Auction} :
    (host.closeExpiredAuctions crates effects now order).2.NotBootstrap ↔ host.NotBootstrap := by
  simp [NotBootstrap]

namespace Automation

/-- **`publish_auction`** of a node that is not the bootstrap node: the
auction is stored and then sent, or not stored. -/
theorem publishAuction_cases (crates : Crates) (hport : host.NotBootstrap) (inputs : PublishInputs)
    (auction : Auction) :
    ((∃ value, (host.storeAuction crates inputs.effects auction).1 = .ok value) ∧
      publishAuction crates inputs host auction =
        { result := inputs.send
          host := (host.storeAuction crates inputs.effects auction).2
          published := [auction]
          stores := [auction] }) ∨
    (¬ (∃ value, (host.storeAuction crates inputs.effects auction).1 = .ok value) ∧ ∃ e,
      publishAuction crates inputs host auction =
        { result := .error e
          host := (host.storeAuction crates inputs.effects auction).2
          published := [auction]
          stores := [] }) := by
  have hport' : (host.storeAuction crates inputs.effects auction).2.NotBootstrap :=
    Host.notBootstrap_storeAuction.mpr hport
  unfold publishAuction
  generalize host.storeAuction crates inputs.effects auction = stored at hport'
  obtain ⟨result, after⟩ := stored
  cases result with
  | error e => exact Or.inr ⟨by simp, e, rfl⟩
  | ok value => exact Or.inl ⟨⟨value, rfl⟩, if_pos hport'⟩

theorem publishAuction_host (crates : Crates) (inputs : PublishInputs) (host : Host) (auction : Auction) :
    (publishAuction crates inputs host auction).host =
        (host.storeAuction crates inputs.effects auction).2 ∧
      (publishAuction crates inputs host auction).published = [auction] := by
  unfold publishAuction
  generalize host.storeAuction crates inputs.effects auction = stored
  obtain ⟨result, after⟩ := stored
  cases result with
  | error e => exact ⟨rfl, rfl⟩
  | ok value =>
    simp only
    split <;> exact ⟨rfl, rfl⟩

theorem publishAuction_notBootstrap (crates : Crates) (inputs : PublishInputs) (host : Host)
    (auction : Auction) :
    (publishAuction crates inputs host auction).host.NotBootstrap ↔ host.NotBootstrap := by
  rw [(publishAuction_host crates inputs host auction).1]
  exact Host.notBootstrap_storeAuction

/-- Every call of the loop stores its auction, and every STORE before the last
goes well. The ledger is the one that the calls before leave. -/
def AllSent (crates : Crates) (node : Node) :
    (Nat → PublishInputs) → List Block → List Auction → Prop
  | _, _, [] => True
  | publishing, ledger, auction :: rest =>
      (publishing 0).effects.auctionsWrite = .written ∧
        WinWritten (publishing 0).effects node ledger auction ∧
        (rest ≠ [] → (publishing 0).send = .ok ()) ∧
        AllSent crates node (fun n => publishing (n + 1))
          (settle crates (publishing 0).effects node ledger auction) rest

/-- One turn of the loop: the auction is stored and sent, and the loop goes
on; or it ends here, with the auction stored or not. -/
theorem publishClosed_cons_cases (hport : host.NotBootstrap) (publishing : Nat → PublishInputs)
    (auction : Auction) (rest : List Auction) :
    ((∃ value, (host.storeAuction crates (publishing 0).effects auction).1 = .ok value) ∧
      (publishing 0).send = .ok () ∧
      ∀ later, later = publishClosed crates (fun n => publishing (n + 1)) rest
          (host.storeAuction crates (publishing 0).effects auction).2 →
        publishClosed crates publishing (auction :: rest) host =
          { later with
            published := auction :: later.published
            stores := auction :: later.stores }) ∨
    ((∃ value, (host.storeAuction crates (publishing 0).effects auction).1 = .ok value) ∧
      ∃ e, (publishing 0).send = .error e ∧
        publishClosed crates publishing (auction :: rest) host =
          { result := .error e
            host := (host.storeAuction crates (publishing 0).effects auction).2
            published := [auction]
            stores := [auction] }) ∨
    (¬ (∃ value, (host.storeAuction crates (publishing 0).effects auction).1 = .ok value) ∧
      ∃ e, publishClosed crates publishing (auction :: rest) host =
        { result := .error e
          host := (host.storeAuction crates (publishing 0).effects auction).2
          published := [auction]
          stores := [] }) := by
  rw [publishClosed]
  rcases publishAuction_cases crates hport (publishing 0) auction with ⟨hok, h⟩ | ⟨hfailed, e, h⟩
  · rw [h]
    cases hsend : (publishing 0).send with
    | error e => exact Or.inr (Or.inl ⟨hok, e, rfl, TickTrace.andThen_error rfl⟩)
    | ok _ =>
      refine Or.inl ⟨hok, rfl, ?_⟩
      rintro later rfl
      exact TickTrace.andThen_ok rfl
  · rw [h]
    exact Or.inr (Or.inr ⟨hfailed, e, TickTrace.andThen_error rfl⟩)

/-- A loop that comes to its end has attempted every STORE. -/
theorem publishClosed_stores (publishing : Nat → PublishInputs) (closed : List Auction)
    (hport : host.NotBootstrap)
    (hok : (publishClosed crates publishing closed host).result = .ok ()) :
    (publishClosed crates publishing closed host).stores = closed := by
  induction closed generalizing publishing host with
  | nil => rfl
  | cons auction rest ih =>
    rcases publishClosed_cons_cases hport publishing auction rest with
      ⟨_, _, h⟩ | ⟨_, e, _, h⟩ | ⟨_, e, h⟩
    · rw [h _ rfl] at hok ⊢
      exact congrArg (auction :: ·) (ih _ (Host.notBootstrap_storeAuction.mpr hport) hok)
    · rw [h] at hok
      cases hok
    · rw [h] at hok
      cases hok

theorem publishClosed_stores_subset (publishing : Nat → PublishInputs) (closed : List Auction)
    (hport : host.NotBootstrap) :
    (publishClosed crates publishing closed host).stores ⊆
      (publishClosed crates publishing closed host).published := by
  induction closed generalizing publishing host with
  | nil => exact List.nil_subset _
  | cons auction rest ih =>
    rcases publishClosed_cons_cases hport publishing auction rest with
      ⟨_, _, h⟩ | ⟨_, e, _, h⟩ | ⟨_, e, h⟩
    · rw [h _ rfl]
      exact List.cons_subset_cons auction (ih _ (Host.notBootstrap_storeAuction.mpr hport))
    · rw [h]
      exact List.Subset.refl _
    · rw [h]
      exact List.nil_subset _

/-- What comes after the loop plays no part in whether it attempts every
STORE. -/
theorem publishClosed_andThen_iff (publishing : Nat → PublishInputs) (closed : List Auction)
    (hport : host.NotBootstrap) (next : Host → TickTrace) :
    (∀ auction ∈ closed,
        auction ∈ ((publishClosed crates publishing closed host).andThen next).published ∧
          auction ∈ ((publishClosed crates publishing closed host).andThen next).stores) ↔
      ∀ auction ∈ closed, auction ∈ (publishClosed crates publishing closed host).stores := by
  have hsub : (publishClosed crates publishing closed host).stores ⊆
      (publishClosed crates publishing closed host).published :=
    publishClosed_stores_subset publishing closed hport
  constructor
  · intro hall auction hmem
    cases hresult : (publishClosed crates publishing closed host).result with
    | error e =>
      rw [TickTrace.andThen_error hresult] at hall
      exact (hall auction hmem).2
    | ok _ =>
      rw [publishClosed_stores publishing closed hport hresult]
      exact hmem
  · intro hall auction hmem
    obtain ⟨hpublished, hstores⟩ :=
      (publishClosed crates publishing closed host).subset_andThen next
    exact ⟨hpublished (hsub (hall auction hmem)), hstores (hall auction hmem)⟩

/-- **How far the loop comes**: it attempts the STORE of every auction when
all of them are stored and all STOREs before the last go well. By induction
along the auctions, which are distinct. -/
theorem sends_all_iff (node : Node) (publishing : Nat → PublishInputs) (closed : List Auction)
    (hport : host.NotBootstrap) (hinfo : host.node.nodeInfo = node.nodeInfo)
    (hconfig : host.node.config = node.config) (hnodup : closed.Nodup) :
    (∀ auction ∈ closed, auction ∈ (publishClosed crates publishing closed host).stores) ↔
      AllSent crates node publishing host.node.ledger closed := by
  induction closed generalizing publishing host with
  | nil => simp [AllSent]
  | cons auction rest ih =>
    obtain ⟨hnew, hrestNodup⟩ := List.nodup_cons.mp hnodup
    have hstored := storeAuction_ok_iff crates (publishing 0).effects host auction
    rw [winWritten_congr hinfo hconfig] at hstored
    rw [AllSent]
    rcases publishClosed_cons_cases hport publishing auction rest with
      ⟨hok, hsend, h⟩ | ⟨hok, e, hsend, h⟩ | ⟨hfailed, e, h⟩
    · obtain ⟨hwritten, hwin⟩ := hstored.mp hok
      obtain ⟨_, ⟨settled, _, hcommits, hsettled⟩, _⟩ :=
        host.storeAuction_commits crates (publishing 0).effects auction
      have hledger : (host.storeAuction crates (publishing 0).effects auction).2.node.ledger =
          settle crates (publishing 0).effects node host.node.ledger auction := by
        rw [hcommits.ledger, hsettled hwritten, ← settle_congr hinfo hconfig]
        rfl
      have hrest := ih (fun n => publishing (n + 1)) (Host.notBootstrap_storeAuction.mpr hport)
        (hcommits.nodeInfo.trans hinfo) (hcommits.config.trans hconfig) hrestNodup
      rw [hledger] at hrest
      rw [h _ rfl]
      simp only [hwritten, hwin, hsend, true_and, implies_true]
      rw [← hrest]
      simp only [List.mem_cons, forall_eq_or_imp, true_or, true_and]
      refine forall_congr' fun a => forall_congr' fun ha => ?_
      have hne : a ≠ auction := fun heq => hnew (heq ▸ ha)
      simp [hne]
    · obtain ⟨hwritten, hwin⟩ := hstored.mp hok
      rw [h]
      simp only [hwritten, hwin, hsend, true_and]
      -- Nothing after this auction is sent, so there must be nothing after it.
      cases rest with
      | nil => simp [AllSent]
      | cons next rest =>
        simp only [List.mem_cons, not_or, reduceCtorEq] at hnew ⊢
        simp [Ne.symm hnew.1]
    · rw [hstored] at hfailed
      rw [h]
      constructor
      · intro hall
        exact absurd (hall auction List.mem_cons_self) List.not_mem_nil
      · rintro ⟨hwritten, hwin, _⟩
        exact absurd ⟨hwritten, hwin⟩ hfailed

theorem publishClosed_notBootstrap (publishing : Nat → PublishInputs) (closed : List Auction)
    (hport : host.NotBootstrap) :
    (publishClosed crates publishing closed host).host.NotBootstrap := by
  induction closed generalizing publishing host with
  | nil => exact hport
  | cons auction rest ih =>
    exact TickTrace.host_andThen (P := Host.NotBootstrap)
      ((publishAuction_notBootstrap crates (publishing 0) host auction).mpr hport)
      fun host hport => ih _ hport

theorem act_notBootstrap (action : RandomAction) (inputs : PublishInputs)
    (hport : host.NotBootstrap) : (act crates action inputs host).host.NotBootstrap := by
  cases action with
  | create item value now =>
    simp only [act, createRandomAuction]
    split
    · exact hport
    · exact (publishAuction_notBootstrap crates inputs host _).mpr hport
  | bid choice increment now =>
    simp only [act, bidOnRandomAuction]
    split
    · exact hport
    · split
      · exact hport
      · exact (publishAuction_notBootstrap crates inputs host _).mpr hport
  | idle => exact hport

theorem runAutomationTick_notBootstrap (tick : Tick) (hport : host.NotBootstrap) :
    (runAutomationTick crates host tick).host.NotBootstrap := by
  have hport' : (host.closeExpiredAuctions crates tick.closing tick.now tick.order).2.NotBootstrap :=
    Host.notBootstrap_closeExpiredAuctions.mpr hport
  unfold runAutomationTick
  generalize host.closeExpiredAuctions crates tick.closing tick.now tick.order = pass at hport'
  obtain ⟨result, after⟩ := pass
  cases result with
  | error e => exact hport'
  | ok closed =>
    exact TickTrace.host_andThen (publishClosed_notBootstrap _ closed hport')
      fun host hport => act_notBootstrap tick.action tick.acting hport

end Automation

end Publishing

/-! ## What a tick closes -/

section Closing

variable (crates : Crates) (auction : Auction) (host : Host) (tick : Tick)

/-- Inside `close_expired_auctions` the tick changes an open auction of the
store to this closed one. -/
def Closes : Prop :=
  (∃ before ∈ host.node.auctions, before.key = auction.key ∧ before.status = .Open) ∧
    auction.status = .Closed ∧
    auction ∈
      (host.closeExpiredAuctions crates tick.closing tick.now tick.order).2.node.auctions

/-- The tick passes the auction to `publish_auction`. -/
def Publishes : Prop := auction ∈ (Automation.runAutomationTick crates host tick).published

/-- The tick attempts a STORE of the auction. -/
def AttemptsStore : Prop := auction ∈ (Automation.runAutomationTick crates host tick).stores

/-- If the pass closes something (it does unless it cannot write a block that
it commits), then it writes the store, and the loop after it comes to the last
STORE. -/
def PublishesClosed : Prop :=
  WinsWritten crates tick.closing host.node host.node.ledger (justClosed tick.now tick.order) →
    justClosed tick.now tick.order ≠ [] →
      tick.closing.auctionsWrite = .written ∧
        Automation.AllSent crates host.node tick.publishing
          (settleAll crates tick.closing host.node host.node.ledger
            (justClosed tick.now tick.order))
          (justClosed tick.now tick.order)

variable {crates auction host tick}

/-- **What a tick closes**: everything that is due, or nothing where a block
cannot be written. -/
theorem closes_iff (horder : tick.order.Perm host.node.auctions.elems) :
    Closes crates auction host tick ↔
      WinsWritten crates tick.closing host.node host.node.ledger
          (justClosed tick.now tick.order) ∧
        auction ∈ justClosed tick.now tick.order := by
  rw [← recordDeclaredWins_ok_iff crates tick.closing host.node _ host rfl rfl]
  obtain ⟨_, _, _, hstore, _, _⟩ := Host.recordDeclaredWins_commits crates tick.closing
    (justClosed tick.now tick.order) host
  have hclosed : (Host.recordDeclaredWins crates tick.closing (justClosed tick.now tick.order)
        host).1 = .ok () →
      ((host.closeExpiredAuctions crates tick.closing tick.now tick.order).2.node.auctions =
        Host.closedStore tick.now tick.order) := by
    intro hok
    rcases host.closeExpiredAuctions_cases crates tick.closing tick.now tick.order with
      ⟨e, herror, _⟩ | ⟨_, ⟨_, h⟩ | ⟨_, _, h⟩⟩
    · rw [hok] at herror
      cases herror
    · rw [h]
      rfl
    · rw [h]
      rfl
  unfold Closes
  constructor
  · rintro ⟨⟨before, hbefore, hkey, hopen⟩, hstatus, hmem⟩
    have hok : (Host.recordDeclaredWins crates tick.closing (justClosed tick.now tick.order)
        host).1 = .ok () := by
      rcases host.closeExpiredAuctions_cases crates tick.closing tick.now tick.order with
        ⟨e, _, h⟩ | ⟨hok, _⟩
      · -- The store is the one before, and holds one version of each key.
        rw [h, hstore] at hmem
        rw [KeyedSet.eq_of_key_eq hbefore hmem hkey, hstatus] at hopen
        cases hopen
      · exact hok
    refine ⟨hok, ?_⟩
    rw [hclosed hok] at hmem
    obtain ⟨before', hbefore', rfl⟩ := (Host.mem_collect_closeIfExpired horder).mp hmem
    rw [Auction.closeIfExpired_key] at hkey
    obtain rfl := KeyedSet.eq_of_key_eq hbefore hbefore' hkey
    rcases before.closeIfExpired_cases tick.now with ⟨h, _⟩ | ⟨h, _, hdue⟩
    · rw [h, hopen] at hstatus
      cases hstatus
    · rw [h]
      exact mem_justClosed.mpr ⟨before, horder.mem_iff.mpr hbefore, hopen, hdue, rfl⟩
  · rintro ⟨hok, hmem⟩
    obtain ⟨before, hbefore, hopen, hdue, rfl⟩ := mem_justClosed.mp hmem
    refine ⟨⟨before, horder.mem_iff.mp hbefore, before.close_key.symm, hopen⟩,
      before.close_status, ?_⟩
    rw [hclosed hok]
    refine (Host.mem_collect_closeIfExpired horder).mpr ⟨before, horder.mem_iff.mp hbefore, ?_⟩
    rcases before.closeIfExpired_cases tick.now with ⟨_, hkept⟩ | ⟨h, _, _⟩
    · rcases hkept with hclosed | hearly
      · rw [hopen] at hclosed
        cases hclosed
      · omega
    · rw [h]

theorem keys_justClosed_sublist (now : Int) (order : List Auction) :
    ((justClosed now order).map Auction.key).Sublist (order.map Auction.key) := by
  induction order with
  | nil => exact List.Sublist.slnil
  | cons auction rest ih =>
    rcases auction.closeIfExpired_cases now with ⟨h, _⟩ | ⟨h, _⟩
    · rw [show justClosed now (auction :: rest) = justClosed now rest by simp [justClosed, h]]
      exact ih.cons auction.key
    · rw [show justClosed now (auction :: rest) = auction.close :: justClosed now rest by
        simp [justClosed, h]]
      simpa using ih.cons_cons auction.key

/-- No auction is closed twice. -/
theorem nodup_justClosed (now : Int) {store : AuctionSet} {order : List Auction}
    (horder : order.Perm store.elems) : (justClosed now order).Nodup := by
  have hkeys : (order.map Auction.key).Nodup := (horder.map _).nodup_iff.mpr store.nodupKeys
  exact (hkeys.sublist (keys_justClosed_sublist now order)).of_map _

/-- **When a tick publishes what it closes**: every auction that it closes has
a STORE attempted exactly when the pass writes the store and the loop comes to
its last STORE. -/
theorem publishesClosed_iff (hport : host.NotBootstrap)
    (horder : tick.order.Perm host.node.auctions.elems) :
    (∀ auction, Closes crates auction host tick →
        Publishes crates auction host tick ∧ AttemptsStore crates auction host tick) ↔
      PublishesClosed crates host tick := by
  have hnodup := nodup_justClosed tick.now horder
  have hruns := recordDeclaredWins_ok_iff crates tick.closing host.node
    (justClosed tick.now tick.order) host rfl rfl
  obtain ⟨settled, _, hcommits, _, _, hsettled⟩ := Host.recordDeclaredWins_commits crates
    tick.closing (justClosed tick.now tick.order) host
  simp only [closes_iff horder, Publishes, AttemptsStore, PublishesClosed,
    Automation.runAutomationTick]
  rcases host.closeExpiredAuctions_cases crates tick.closing tick.now tick.order with
    ⟨e, herror, h⟩ | ⟨hok, ⟨hwritten, h⟩ | ⟨hnot, e, h⟩⟩
  · have hfails : ¬ WinsWritten crates tick.closing host.node host.node.ledger
        (justClosed tick.now tick.order) := by
      rw [← hruns, herror]
      simp
    simp [hfails]
  · have hall : settled = justClosed tick.now tick.order := by
      rcases hsettled with ⟨e, herror, _⟩ | ⟨hall, _⟩
      · rw [hok] at herror
        cases herror
      · exact hall
    obtain rfl := hall
    have hdone : Commits crates tick.closing host
        ((Host.recordDeclaredWins crates tick.closing (justClosed tick.now tick.order)
          host).2.withAuctions (Host.closedStore tick.now tick.order)
            (.json (Host.closedStore tick.now tick.order).elems))
        (justClosed tick.now tick.order) := hcommits.of_eq_ledger rfl rfl rfl rfl rfl
    have hafter := hdone.notBootstrap.mpr hport
    rw [h]
    simp only [hruns.mp hok, true_and, hwritten, forall_const]
    rw [Automation.publishClosed_andThen_iff tick.publishing _ hafter,
      Automation.sends_all_iff host.node tick.publishing _ hafter hdone.nodeInfo hdone.config hnodup,
      hdone.ledger]
    constructor
    · exact fun hsent _ => hsent
    · intro hsent
      by_cases hnone : justClosed tick.now tick.order = []
      · simp [hnone, Automation.AllSent]
      · exact hsent hnone
  · rw [h]
    simp only [hruns.mp hok, true_and, hnot, false_and, TickTrace.stop, List.not_mem_nil, and_false]
    simp [List.eq_nil_iff_forall_not_mem]

end Closing

/-! ## Runs -/

/-- **Closed auctions are published**: in every run of ticks that each write
and send what they close, every auction that a tick closes is passed to
`publish_auction`, and its STORE attempted, in that tick or a later one. -/
theorem closed_auctions_published (crates : Crates) (host : Host)
    (hinit : (automation crates).Init host) (ticks : List Tick)
    (h : (automation crates).StepsMeet (PublishesClosed crates) host ticks) (auction : Auction) :
    (automation crates).LeadsTo (Closes crates auction)
      (fun host tick => Publishes crates auction host tick ∧ AttemptsStore crates auction host tick)
      host ticks := by
  refine System.leadsTo_of_stepsMeet (I := Host.NotBootstrap) ?_ ?_ ticks host hinit h
  · intro host tick host' hport hnext
    obtain ⟨_, rfl⟩ := automation_next.mp hnext
    exact Automation.runAutomationTick_notBootstrap tick hport
  · intro host tick host' hport hnext hcond hcloses
    obtain ⟨horder, _⟩ := automation_next.mp hnext
    exact (publishesClosed_iff hport horder).mpr hcond auction hcloses

/-! A peer whose own auction is due. -/

def dueWatch : Auction :=
  { soldWatch with status := .Open, endsAt := 10, winner := none, winningBid := none }

def peerHost : Host :=
  ((Host.fresh (Address.ofU256 1) "127.0.0.1" 8001 Config.testConfig).storeAuction sampleCrates
    (Effects.calm 0) dueWatch).2

theorem peerHost_notBootstrap : peerHost.NotBootstrap := by
  unfold Host.NotBootstrap
  decide

/-- A tick that draws nothing, and in which nothing fails but, perhaps, a
write of the closing pass. -/
def idleTick (now : Int) (order : List Auction) (closing : Effects) : Tick where
  now := now
  order := order
  closing := closing
  publishing := fun _ => { effects := Effects.calm now, send := .ok () }
  action := .idle
  acting := { effects := Effects.calm now, send := .ok () }

def closingTick : Tick := idleTick 10 [dueWatch] (Effects.calm 10)

/-- The pass closes the auction and cannot write the store. -/
def failingTick : Tick :=
  idleTick 10 [dueWatch] { Effects.calm 10 with auctionsWrite := .openFailed }

/-- A tick after the auction is closed. -/
def laterTick : Tick := idleTick 11 [dueWatch.close] (Effects.calm 11)

theorem closed_auctions_published_dueWatch :
    (automation sampleCrates).LeadsTo (Closes sampleCrates dueWatch.close)
      (fun host tick => Publishes sampleCrates dueWatch.close host tick ∧
        AttemptsStore sampleCrates dueWatch.close host tick)
      peerHost [closingTick] :=
  closed_auctions_published sampleCrates peerHost peerHost_notBootstrap [closingTick]
    ⟨fun _ _ => ⟨rfl, rfl, fun _ => rfl, fun _ => rfl, trivial⟩, fun _ _ => trivial⟩ _

theorem laterTick_quiet (crates : Crates) (host : Host) :
    (Automation.runAutomationTick crates host laterTick).result = .ok () ∧
      (Automation.runAutomationTick crates host laterTick).published = [] ∧
      (Automation.runAutomationTick crates host laterTick).host.node.auctions.elems =
        [dueWatch.close] := ⟨rfl, rfl, rfl⟩

/-- Later ticks, as many as one likes, can all be taken and succeed. -/
theorem run_laterTicks (crates : Crates) (n : Nat) {host : Host}
    (hstore : host.node.auctions.elems = [dueWatch.close]) :
    ((automation crates).run host (List.replicate n laterTick)).isSome ∧
      (automation crates).StepsMeet
        (fun host tick => (Automation.runAutomationTick crates host tick).result = .ok ())
        host (List.replicate n laterTick) := by
  induction n generalizing host with
  | zero => exact ⟨rfl, trivial⟩
  | succ n ih =>
    have hnext : (automation crates).next host laterTick =
        some (Automation.runAutomationTick crates host laterTick).host :=
      automation_next.mpr ⟨by rw [hstore]; rfl, rfl⟩
    obtain ⟨hresult, _, hafter⟩ := laterTick_quiet crates host
    obtain ⟨hrun, hmeet⟩ := ih hafter
    rw [List.replicate_succ, System.run, System.StepsMeet, hnext]
    refine ⟨hrun, hresult, fun host' hsome => ?_⟩
    obtain rfl := Option.some.inj hsome
    exact hmeet

/-- **A closed auction that is never published**: the tick that closes it
fails to write the store, and however many ticks succeed after that, none
passes it to `publish_auction`. -/
theorem closed_auction_lost :
    ¬ ∃ enough, ∀ (crates : Crates) (host : Host) (tick : Tick) (later : List Tick)
      (auction : Auction), (automation crates).Init host → enough ≤ later.length →
      ((automation crates).run host (tick :: later)).isSome →
      (∀ host', (automation crates).next host tick = some host' → (automation crates).StepsMeet
        (fun host tick => (Automation.runAutomationTick crates host tick).result = .ok ())
        host' later) →
      Closes crates auction host tick →
        (automation crates).SomeStepMeets (Publishes crates auction) host (tick :: later) := by
  rintro ⟨enough, hclaim⟩
  have hnext : (automation sampleCrates).next peerHost failingTick =
      some (Automation.runAutomationTick sampleCrates peerHost failingTick).host :=
    automation_next.mpr ⟨List.Perm.refl _, rfl⟩
  have hstore : (Automation.runAutomationTick sampleCrates peerHost
      failingTick).host.node.auctions.elems = [dueWatch.close] := rfl
  obtain ⟨hrun, hmeet⟩ := run_laterTicks sampleCrates enough hstore
  have hpublished := hclaim sampleCrates peerHost failingTick (List.replicate enough laterTick)
    dueWatch.close peerHost_notBootstrap (by simp) (by rw [System.run, hnext]; exact hrun)
    (fun host' hsome => by
      obtain rfl := Option.some.inj (hnext.symm.trans hsome)
      exact hmeet)
    ⟨⟨dueWatch, List.mem_singleton_self _, dueWatch.close_key.symm, rfl⟩, rfl,
      List.mem_singleton_self _⟩
  obtain ⟨host', hsome, hnow | hlater⟩ := hpublished
  · exact absurd hnow (by unfold Publishes; decide +kernel)
  · obtain rfl := Option.some.inj (hnext.symm.trans hsome)
    refine System.not_someStepMeets (I := fun host => host.node.auctions.elems = [dueWatch.close])
      (L := (· = laterTick)) ?_ _ _ rfl (fun _ htick => List.eq_of_mem_replicate htick) hlater
    rintro host tick host' _ rfl hstep
    obtain ⟨_, rfl⟩ := automation_next.mp hstep
    obtain ⟨_, hnone, hafter⟩ := laterTick_quiet sampleCrates host
    exact ⟨hafter, by simp [Publishes, hnone]⟩

end KademliaAuction
