/-
KademliaAuction.StoreRefinement — the auction store is a finite map, and
closing does not depend on the order of the hash set.

The abstract store maps keys to auctions (`AuctionMap`): a store call updates
one key, a closing pass changes all auctions on the spot. A node whose writes
succeed refines it (`findAuction_run`), and what the map holds after a list of
calls can be read off the list (`LastStored`). `store_refines_map` puts this
together, with what a closing pass returns and that a second one at the same
time does nothing.

A pass settles the auctions it closes one after the other, and each block
changes the ledger that the next one is judged by. But their keys differ, and
the gate does not move during a pass: a shut gate keeps the ledger as it is,
and an open one stays open. So a pass appends the wins that are unsettled when
it begins (`transactions_settleAll`), in some order, and
`close_order_irrelevant` follows.
-/
import KademliaAuction.Lib.KeyedLog
import KademliaAuction.Reputation

namespace KademliaAuction

open Blockchain Routing Storage Lib

/-! ## The map -/

/-- The auction of each key. -/
abbrev AuctionMap := Address → Option Auction

/-- The auction that a call stores. -/
def NodeAction.stored? : NodeAction → Option Auction
  | .store auction _ => some auction
  | _ => none

/-- An auction after a call that does not store it. -/
def NodeAction.leaves (action : NodeAction) (auction : Auction) : Auction :=
  match action with
  | .close now _ _ => (auction.closeIfExpired now).2
  | _ => auction

/-- What a call does to the map. -/
def AuctionMap.after (m : AuctionMap) (action : NodeAction) : AuctionMap := fun key =>
  match action.stored? with
  | some auction => if auction.key = key then some auction else m key
  | none => (m key).map action.leaves

/-- The map after some calls, from the empty one on. -/
def AuctionMap.ofCalls (calls : List NodeAction) : AuctionMap :=
  calls.foldl AuctionMap.after fun _ => none

/-- Under this key, the calls last stored an auction that the later ones have
made into this one. -/
def LastStored (key : Address) (calls : List NodeAction) (auction : Auction) : Prop :=
  ∃ before store stored later, calls = before ++ store :: later ∧ store.stored? = some stored ∧
    stored.key = key ∧ (∀ other ∈ later.filterMap NodeAction.stored?, other.key ≠ key) ∧
    auction = later.foldl (fun auction call => call.leaves auction) stored

section Map

variable {key : Address} {calls : List NodeAction} {auction : Auction}

theorem ofCalls_concat (calls : List NodeAction) (call : NodeAction) :
    AuctionMap.ofCalls (calls ++ [call]) = (AuctionMap.ofCalls calls).after call := by
  unfold AuctionMap.ofCalls
  rw [List.foldl_append, List.foldl_cons, List.foldl_nil]

theorem leaves_of_stored? {call : NodeAction} {stored : Auction} (h : call.stored? = some stored)
    (auction : Auction) : call.leaves auction = auction := by
  cases call with
  | store => rfl
  | close => cases h
  | restart => cases h

/-- One more call. -/
theorem lastStored_concat {call : NodeAction} :
    LastStored key (calls ++ [call]) auction ↔
      (call.stored? = some auction ∧ auction.key = key) ∨
        ((∀ stored, call.stored? = some stored → stored.key ≠ key) ∧
          ∃ old, LastStored key calls old ∧ auction = call.leaves old) := by
  constructor
  · intro ⟨before, store, stored, later, hcalls, hstore, hkey, hothers, heq⟩
    rcases KeyedLog.concat_eq_append_cons hcalls with ⟨rfl, rfl⟩ | ⟨later, rfl, rfl⟩
    · rw [heq]
      exact Or.inl ⟨hstore, hkey⟩
    · rw [List.foldl_append] at heq
      refine Or.inr ⟨fun other hother => hothers other ?_, _,
        ⟨before, store, stored, later, rfl, hstore, hkey, fun other hother => hothers other ?_, rfl⟩,
        heq⟩
      · exact List.mem_filterMap.mpr ⟨call, List.mem_append_right _ List.mem_cons_self, hother⟩
      · rw [List.filterMap_append]
        exact List.mem_append_left _ hother
  · rintro (⟨hstore, hkey⟩ | ⟨hother, old, ⟨before, store, stored, later, rfl, hstore, hkey, hothers,
      rfl⟩, rfl⟩)
    · exact ⟨calls, call, auction, [], rfl, hstore, hkey, (fun other hother => nomatch hother), rfl⟩
    · refine ⟨before, store, stored, later ++ [call], by simp, hstore, hkey, fun other hmem => ?_, ?_⟩
      · rw [List.filterMap_append, List.mem_append] at hmem
        rcases hmem with hold | hnew
        · exact hothers other hold
        · obtain ⟨last, hlast, hstored⟩ := List.mem_filterMap.mp hnew
          rw [List.mem_singleton.mp hlast] at hstored
          exact hother other hstored
      · rw [List.foldl_append, List.foldl_cons, List.foldl_nil]

/-- What the map holds after some calls. -/
theorem ofCalls_eq_some_iff :
    AuctionMap.ofCalls calls key = some auction ↔ LastStored key calls auction := by
  induction calls using List.reverseRecOn generalizing auction with
  | nil =>
    refine ⟨(fun h => nomatch h), fun ⟨before, store, _, later, hcalls, _⟩ => ?_⟩
    simp at hcalls
  | append_singleton calls call ih =>
    rw [ofCalls_concat, lastStored_concat, AuctionMap.after]
    cases hstored : call.stored? with
    | none =>
      show Option.map call.leaves (AuctionMap.ofCalls calls key) = some auction ↔ _
      constructor
      · intro h
        obtain ⟨old, hold, rfl⟩ := Option.map_eq_some_iff.mp h
        exact Or.inr ⟨(fun stored hstored => nomatch hstored), old, ih.mp hold, rfl⟩
      · intro h
        obtain ⟨_, old, hold, rfl⟩ := h.resolve_left fun h => nomatch h.1
        exact Option.map_eq_some_iff.mpr ⟨old, ih.mpr hold, rfl⟩
    | some stored =>
      simp only [Option.some.injEq, forall_eq']
      by_cases hkey : stored.key = key
      · simp only [hkey, if_true, Option.some.injEq, ne_eq, not_true_eq_false, false_and, or_false]
        refine ⟨fun heq => ⟨heq, heq ▸ hkey⟩, fun h => h.1⟩
      · have hleave : ∀ old, call.leaves old = old := leaves_of_stored? hstored
        simp only [hkey, if_false, ih, ne_eq, not_false_eq_true, true_and, hleave, exists_eq_right']
        refine ⟨Or.inr, fun h => h.resolve_left fun ⟨heq, hk⟩ => hkey (heq ▸ hk)⟩

theorem ofCalls_eq_none_iff :
    AuctionMap.ofCalls calls key = none ↔
      ∀ stored ∈ calls.filterMap NodeAction.stored?, stored.key ≠ key := by
  induction calls using List.reverseRecOn with
  | nil => exact ⟨(fun _ stored hstored => nomatch hstored), fun _ => rfl⟩
  | append_singleton calls call ih =>
    rw [ofCalls_concat, AuctionMap.after, List.filterMap_append]
    simp only [List.mem_append, or_imp, forall_and, ← ih]
    cases hstored : call.stored? with
    | none => simp [hstored]
    | some stored =>
      by_cases hkey : stored.key = key
      · simp [hstored, hkey]
      · simp [hstored, hkey]

end Map

/-! ## The node refines the map -/

section Refinement

variable {crates : Crates} {host host' : Host}

theorem find_closedStore {now : Int} {order : List Auction}
    (horder : order.Perm host.node.auctions.elems) (key : Address) :
    (Host.closedStore now order).find key =
      (host.node.findAuction key).map fun auction => (auction.closeIfExpired now).2 :=
  KeyedSet.find_collect_map (fun auction => auction.closeIfExpired_key now) horder key

/-- A closing pass whose writes succeed. -/
theorem closeExpiredAuctions_written (crates : Crates) (host : Host) {effects : Effects}
    (hwritten : effects.AllWritten) (now : Int) (order : List Auction) :
    (host.closeExpiredAuctions crates effects now order).1 = .ok (justClosed now order) ∧
      (host.closeExpiredAuctions crates effects now order).2.node.auctions =
        Host.closedStore now order ∧
      (host.closeExpiredAuctions crates effects now order).2.node.ledger =
        settleAll crates effects host.node host.node.ledger (justClosed now order) := by
  obtain ⟨settled, _, hcommits, _, hall⟩ := host.closeExpiredAuctions_commits crates effects now order
  obtain ⟨rfl, hok, hstore⟩ := hall hwritten
  exact ⟨hok, hstore, hcommits.ledger⟩

/-- A call whose writes succeed does to the store what it does to the map. -/
theorem findAuction_apply {action : NodeAction} (hwritten : action.AllWritten)
    (h : action.apply crates host = some host') :
    host'.node.findAuction = AuctionMap.after host.node.findAuction action := by
  funext key
  cases action with
  | store auction effects =>
    obtain ⟨hstore, _⟩ := host.storeAuction_commits crates effects auction
    rw [← NodeAction.apply_store.mp h, Node.findAuction, hstore, KeyedSet.find_replace]
    rfl
  | close now order effects =>
    obtain ⟨horder, rfl⟩ := NodeAction.apply_close.mp h
    obtain ⟨_, hstore, _⟩ := closeExpiredAuctions_written crates host hwritten now order
    rw [Node.findAuction, hstore]
    exact find_closedStore horder key
  | restart config => exact hwritten.elim

/-- **Refinement**: a run of such calls ends with the map that they make. -/
theorem findAuction_run {Init : Host → Prop} {calls : List NodeAction}
    (hwritten : ∀ call ∈ calls, call.AllWritten)
    (hrun : (nodeSystem crates Init).run host calls = some host') :
    host'.node.findAuction = calls.foldl AuctionMap.after host.node.findAuction := by
  induction calls generalizing host with
  | nil =>
    obtain rfl := Option.some.inj hrun
    rfl
  | cons call calls ih =>
    rw [List.forall_mem_cons] at hwritten
    obtain ⟨between, hnext, hrest⟩ := Option.bind_eq_some_iff.mp hrun
    rw [List.foldl_cons, ← findAuction_apply hwritten.1 hnext]
    exact ih hwritten.2 hrest

end Refinement

/-! ## What a pass closes -/

/-- Once closed, or not yet due, an auction stays as it is. -/
theorem closeIfExpired_again (auction : Auction) (now : Int) :
    (auction.closeIfExpired now).2.closeIfExpired now = (false, (auction.closeIfExpired now).2) := by
  rcases auction.closeIfExpired_cases now with ⟨h, _⟩ | ⟨h, _, _⟩
  · rw [h, h]
  · rw [h]
    unfold Auction.closeIfExpired
    rw [if_pos (Or.inl auction.close_status)]

theorem justClosed_sublist (now : Int) (order : List Auction) :
    ((justClosed now order).map Auction.key).Sublist (order.map Auction.key) := by
  induction order with
  | nil => exact List.Sublist.refl _
  | cons auction order ih =>
    unfold justClosed at ih ⊢
    rw [List.filterMap_cons]
    rcases auction.closeIfExpired_cases now with ⟨h, _⟩ | ⟨h, _, _⟩
    · rw [h]
      exact ih.cons _
    · rw [h, List.map_cons, List.map_cons, Auction.close_key]
      exact ih.cons_cons _

theorem nodup_keys_justClosed {host : Host} {order : List Auction}
    (horder : order.Perm host.node.allAuctions) (now : Int) :
    ((justClosed now order).map Auction.key).Nodup :=
  ((horder.map Auction.key).nodup_iff.mpr host.node.auctions.nodupKeys).sublist
    (justClosed_sublist now order)

/-- A pass returns the auctions whose status it changes. -/
theorem mem_justClosed_iff {now : Int} {order : List Auction} {auction : Auction} :
    auction ∈ justClosed now order ↔
      ∃ before ∈ order, auction = (before.closeIfExpired now).2 ∧ before.status ≠ auction.status := by
  rw [mem_justClosed]
  refine exists_congr fun before => and_congr_right fun _ => ?_
  rcases before.closeIfExpired_cases now with ⟨h, hwhy⟩ | ⟨h, hopen, hdue⟩
  · rw [h]
    constructor
    · intro ⟨hopen, hdue, _⟩
      rcases hwhy with hclosed | hearly
      · rw [hopen] at hclosed
        cases hclosed
      · omega
    · rintro ⟨rfl, hne⟩
      exact absurd rfl hne
  · rw [h]
    constructor
    · rintro ⟨_, _, rfl⟩
      exact ⟨rfl, by rw [hopen, Auction.close_status]; exact nofun⟩
    · intro ⟨heq, _⟩
      exact ⟨hopen, hdue, heq⟩

/-- The store and the result of a pass whose writes succeed. -/
theorem closeExpiredAuctions_eq {crates : Crates} {effects : Effects} {now : Int}
    {host after : Host} {order : List Auction} {result : Except String (List Auction)}
    (hwritten : effects.AllWritten) (horder : order.Perm host.node.allAuctions)
    (h : host.closeExpiredAuctions crates effects now order = (result, after)) :
    result = .ok (justClosed now order) ∧
      after.node.allAuctions = order.map (fun auction => (auction.closeIfExpired now).2) ∧
      (∀ key, after.node.findAuction key =
        (host.node.findAuction key).map fun auction => (auction.closeIfExpired now).2) ∧
      after.node.ledger =
        settleAll crates effects host.node host.node.ledger (justClosed now order) := by
  obtain ⟨hok, hstore, hledger⟩ := closeExpiredAuctions_written crates host hwritten now order
  rw [h] at hok hstore hledger
  refine ⟨hok, ?_, fun key => ?_, hledger⟩
  · rw [Node.allAuctions, hstore]
    exact KeyedSet.elems_collect_map (fun auction => auction.closeIfExpired_key now) horder
  · rw [Node.findAuction, hstore]
    exact find_closedStore horder key

/-- What the caller sees of a closing pass at `now` whose writes succeed: it
returns the auctions whose status it changed, each once, and a second pass at
the same time returns none and changes nothing. -/
def ClosesOnce (crates : Crates) (host : Host) (now : Int) : Prop :=
  ∀ effects order result after, effects.AllWritten → order.Perm host.node.allAuctions →
    host.closeExpiredAuctions crates effects now order = (result, after) →
    (∃ closed, result = .ok closed ∧ closed.Nodup ∧
      ∀ auction, auction ∈ closed ↔ after.node.findAuction auction.key = some auction ∧
        ∃ before, host.node.findAuction auction.key = some before ∧
          before.status ≠ auction.status) ∧
    ∀ effects' again result' after', effects'.AllWritten → again.Perm after.node.allAuctions →
      after.closeExpiredAuctions crates effects' now again = (result', after') →
      result' = .ok [] ∧ after'.node.findAuction = after.node.findAuction ∧
        after'.node.allAuctions.Perm after.node.allAuctions ∧
        after'.node.ledger = after.node.ledger

theorem closesOnce (crates : Crates) (host : Host) (now : Int) : ClosesOnce crates host now := by
  intro effects order result after hwritten horder hclose
  obtain ⟨rfl, helems, hfind, _⟩ := closeExpiredAuctions_eq hwritten horder hclose
  have hnodup : (justClosed now order).Nodup :=
    List.Nodup.of_map Auction.key (nodup_keys_justClosed horder now)
  refine ⟨⟨justClosed now order, rfl, hnodup, fun auction => ?_⟩, ?_⟩
  · rw [mem_justClosed_iff, hfind]
    constructor
    · intro ⟨before, hbefore, heq, hne⟩
      have hlocal : host.node.findAuction auction.key = some before := by
        rw [heq, Auction.closeIfExpired_key]
        exact KeyedSet.mem_iff_find.mp (horder.mem_iff.mp hbefore)
      refine ⟨?_, before, hlocal, hne⟩
      rw [hlocal, heq]
      rfl
    · intro ⟨hafter, before, hlocal, hne⟩
      rw [hlocal] at hafter
      have hbefore : before ∈ order := horder.mem_iff.mpr (KeyedSet.find_eq_some.mp hlocal).1
      exact ⟨before, hbefore, (Option.some.inj hafter).symm, hne⟩
  · intro effects' again result' after' hwritten' hperm hclose'
    obtain ⟨rfl, helems', hfind', hledger'⟩ := closeExpiredAuctions_eq hwritten' hperm hclose'
    have hstays : ∀ auction ∈ after.node.allAuctions,
        auction.closeIfExpired now = (false, auction) := by
      intro auction hmem
      rw [helems, List.mem_map] at hmem
      obtain ⟨before, _, rfl⟩ := hmem
      exact closeIfExpired_again before now
    have hnone : justClosed now again = [] := by
      refine List.eq_nil_iff_forall_not_mem.mpr fun auction hmem => ?_
      obtain ⟨closed, hclosed, heq, hne⟩ := mem_justClosed_iff.mp hmem
      rw [hstays closed (hperm.mem_iff.mp hclosed)] at heq
      exact hne (by rw [heq])
    refine ⟨by rw [hnone], ?_, ?_, by rw [hledger', hnone]; rfl⟩
    · funext key
      rw [hfind']
      cases hkey : after.node.findAuction key with
      | none => rfl
      | some auction =>
        rw [Option.map_some, hstays auction (KeyedSet.find_eq_some.mp hkey).1]
    · have hsame : again.map (fun auction => (auction.closeIfExpired now).2) = again := by
        refine (List.map_congr_left fun auction hmem => ?_).trans (List.map_id again)
        rw [hstays auction (hperm.mem_iff.mp hmem)]
        rfl
      rw [helems', hsame]
      exact hperm

/-- **The store is a finite map**: after any calls whose writes succeed, on an
empty store, a key finds what was last stored under it, closed by every later
pass that found it due; each key that was stored is there once; and a closing
pass returns exactly what it closed, and does nothing the second time. -/
theorem store_refines_map (crates : Crates) {host host' : Host} (calls : List NodeAction)
    (hempty : host.node.allAuctions = []) (hwritten : ∀ call ∈ calls, call.AllWritten)
    (hrun : (nodeSystem crates (· = host)).run host calls = some host') :
    (∀ key auction, host'.node.findAuction key = some auction ↔ LastStored key calls auction) ∧
    (∀ key, host'.node.findAuction key = none ↔
      ∀ stored ∈ calls.filterMap NodeAction.stored?, stored.key ≠ key) ∧
    (host'.node.allAuctions.map Auction.key).Nodup ∧
    (∀ key, key ∈ host'.node.allAuctions.map Auction.key ↔
      ∃ stored ∈ calls.filterMap NodeAction.stored?, stored.key = key) ∧
    ∀ now, ClosesOnce crates host' now := by
  have hmap : host'.node.findAuction = AuctionMap.ofCalls calls := by
    rw [findAuction_run hwritten hrun, AuctionMap.ofCalls]
    congr 1
    funext key
    exact KeyedSet.find_eq_none.mpr fun auction hmem => by
      rw [KeyedSet.mem_def, show host.node.auctions.elems = [] from hempty] at hmem
      cases hmem
  refine ⟨fun key auction => ?_, fun key => ?_, host'.node.auctions.nodupKeys, fun key => ?_,
    closesOnce crates host'⟩
  · rw [hmap, ofCalls_eq_some_iff]
  · rw [hmap, ofCalls_eq_none_iff]
  · rw [Node.allAuctions, KeyedSet.mem_map_key, Option.isSome_iff_ne_none]
    show host'.node.findAuction key ≠ none ↔ _
    rw [hmap, ne_eq, ofCalls_eq_none_iff]
    push Not
    rfl

/-- An open auction with a bid, which has ended at time 1. -/
def endedWatch : Auction := { soldWatch with status := .Open, winner := none, winningBid := none }

def watchCalls : List NodeAction :=
  [.store endedWatch (Effects.calm 0), .close 5 [endedWatch] (Effects.calm 5)]

theorem store_refines_map_watchCalls :
    ∃ host', (nodeSystem sampleCrates (· = sampleHost)).run sampleHost watchCalls = some host' ∧
      (∀ key auction, host'.node.findAuction key = some auction ↔
        LastStored key watchCalls auction) ∧
      (∀ key, host'.node.findAuction key = none ↔
        ∀ stored ∈ watchCalls.filterMap NodeAction.stored?, stored.key ≠ key) ∧
      (host'.node.allAuctions.map Auction.key).Nodup ∧
      (∀ key, key ∈ host'.node.allAuctions.map Auction.key ↔
        ∃ stored ∈ watchCalls.filterMap NodeAction.stored?, stored.key = key) ∧
      ∀ now, ClosesOnce sampleCrates host' now := by
  have hends : ((nodeSystem sampleCrates (· = sampleHost)).run sampleHost watchCalls).isSome := by
    decide +kernel
  have hwritten : ∀ call ∈ watchCalls, call.AllWritten :=
    List.forall_mem_cons.mpr ⟨Effects.allWritten_calm 0,
      List.forall_mem_cons.mpr ⟨Effects.allWritten_calm 5, List.forall_mem_nil _⟩⟩
  obtain ⟨host', hrun⟩ := Option.isSome_iff_exists.mp hends
  exact ⟨host', hrun, store_refines_map sampleCrates watchCalls rfl hwritten hrun⟩

/-! ## The order of a pass -/

section Order

variable {crates : Crates} {effects : Effects} {node : Node}

/-- The transaction that settling an auction appends to a ledger, if any. -/
def winTransaction (node : Node) (ledger : List Block) (auction : Auction) : Option Transaction :=
  match auction.declaredWin with
  | none => none
  | some (winner, winningBid) =>
      if recordsWin ledger auction.key = true ∨
          hasReputationToCommit node.config ledger node.nodeInfo.id = false then none
      else some (Transaction.auctionWon auction.key auction.seller winner winningBid)

/-- Settling appends one block with that transaction, or nothing. -/
theorem settle_eq_append (crates : Crates) (effects : Effects) (node : Node) (ledger : List Block)
    (auction : Auction) :
    ∃ appended, settle crates effects node ledger auction = ledger ++ appended ∧
      transactions appended = (winTransaction node ledger auction).toList := by
  unfold settle winTransaction
  cases auction.declaredWin with
  | none => exact ⟨[], (List.append_nil _).symm, rfl⟩
  | some win =>
    dsimp only
    split
    · exact ⟨[], (List.append_nil _).symm, rfl⟩
    · exact ⟨_, rfl, rfl⟩

theorem recordsWin_append {ledger appended : List Block} {key : Address} :
    recordsWin (ledger ++ appended) key = (recordsWin ledger key || recordsWin appended key) := by
  unfold recordsWin
  rw [List.any_append]

/-- Settling an auction does not change what settling another one appends: its
block is for another key, and the gate stays where it is. -/
theorem winTransaction_settle {ledger : List Block} {auction other : Auction}
    (hkey : other.key ≠ auction.key) :
    winTransaction node (settle crates effects node ledger auction) other =
      winTransaction node ledger other := by
  rcases settle_cases crates effects node ledger auction with
    ⟨hsame, _⟩ | ⟨winner, winningBid, _, _, hrep, hpush⟩
  · rw [hsame]
  · have hrecord : recordsWin (settle crates effects node ledger auction) other.key =
        recordsWin ledger other.key := by
      have hblock : recordsWin [winBlock crates effects ledger auction.key auction.seller winner
          winningBid] other.key = false := by
        simp [recordsWin, winBlock, hkey.symm]
      rw [hpush, recordsWin_append, hblock, Bool.or_false]
    have hgate : hasReputationToCommit node.config (settle crates effects node ledger auction)
        node.nodeInfo.id = hasReputationToCommit node.config ledger node.nodeInfo.id := by
      rw [hrep]
      exact hasReputationToCommit_mono (prefix_settle node ledger auction) hrep
    unfold winTransaction
    rw [hrecord, hgate]

/-- **What a pass appends**: the transactions of the auctions that are
unsettled when it begins. -/
theorem transactions_settleAll (crates : Crates) (effects : Effects) (node : Node)
    {wins : List Auction} (hkeys : (wins.map Auction.key).Nodup) (ledger : List Block) :
    ∃ appended, settleAll crates effects node ledger wins = ledger ++ appended ∧
      transactions appended = wins.filterMap (winTransaction node ledger) := by
  induction wins generalizing ledger with
  | nil => exact ⟨[], (List.append_nil _).symm, rfl⟩
  | cons auction wins ih =>
    rw [List.map_cons, List.nodup_cons] at hkeys
    obtain ⟨first, hfirst, hfirstTx⟩ :=
      settle_eq_append crates effects node ledger auction
    obtain ⟨rest, hrest, hrestTx⟩ := ih hkeys.2 (settle crates effects node ledger auction)
    have hothers : wins.filterMap (winTransaction node (settle crates effects node ledger auction)) =
        wins.filterMap (winTransaction node ledger) := by
      refine List.filterMap_congr fun other hother => winTransaction_settle fun heq => ?_
      exact hkeys.1 (heq ▸ List.mem_map_of_mem hother)
    refine ⟨first ++ rest, ?_, ?_⟩
    · rw [settleAll_cons, hrest, hfirst, List.append_assoc]
    · rw [transactions, List.flatMap_append]
      show transactions first ++ transactions rest = _
      rw [hfirstTx, hrestTx, hothers, List.filterMap_cons]
      cases winTransaction node ledger auction with
      | none => rfl
      | some tx => rfl

end Order

/-- **The order of the hash set does not matter**: two passes over one store
at one time, in any orders and with their writes succeeding, leave the same
map, return the same auctions and append the same transactions. -/
theorem close_order_irrelevant (crates : Crates) (host : Host) (now : Int)
    {order order' : List Auction} {effects effects' : Effects}
    (horder : order.Perm host.node.allAuctions) (horder' : order'.Perm host.node.allAuctions)
    (hwritten : effects.AllWritten) (hwritten' : effects'.AllWritten)
    {result result' : Except String (List Auction)} {after after' : Host}
    (hclose : host.closeExpiredAuctions crates effects now order = (result, after))
    (hclose' : host.closeExpiredAuctions crates effects' now order' = (result', after')) :
    after.node.findAuction = after'.node.findAuction ∧
    (∃ closed closed', result = .ok closed ∧ result' = .ok closed' ∧ closed.Perm closed') ∧
    ∃ appended appended', after.node.ledger = host.node.ledger ++ appended ∧
      after'.node.ledger = host.node.ledger ++ appended' ∧
      (transactions appended).Perm (transactions appended') := by
  obtain ⟨hok, _, hfind, hledger⟩ := closeExpiredAuctions_eq hwritten horder hclose
  obtain ⟨hok', _, hfind', hledger'⟩ := closeExpiredAuctions_eq hwritten' horder' hclose'
  have hperm : (justClosed now order).Perm (justClosed now order') :=
    (horder.trans horder'.symm).filterMap _
  obtain ⟨appended, happended, htx⟩ := transactions_settleAll crates effects host.node
    (nodup_keys_justClosed horder now) host.node.ledger
  obtain ⟨appended', happended', htx'⟩ := transactions_settleAll crates effects' host.node
    (nodup_keys_justClosed horder' now) host.node.ledger
  refine ⟨funext fun key => (hfind key).trans (hfind' key).symm, ⟨_, _, hok, hok', hperm⟩,
    appended, appended', hledger.trans happended, hledger'.trans happended', ?_⟩
  rw [htx, htx']
  exact hperm.filterMap _

/-- Two auctions that are due. -/
def twoDue : Host :=
  ((sampleHost.storeAuction sampleCrates (Effects.calm 0) endedWatch).2.storeAuction sampleCrates
    (Effects.calm 0) { endedWatch with key := Address.ofU256 8 }).2

/-- The pass that comes to the watch first. -/
def watchFirst : Except String (List Auction) × Host :=
  twoDue.closeExpiredAuctions sampleCrates (Effects.calm 5) 5
    [endedWatch, { endedWatch with key := Address.ofU256 8 }]

/-- The pass that comes to it last. -/
def watchLast : Except String (List Auction) × Host :=
  twoDue.closeExpiredAuctions sampleCrates (Effects.calm 6) 5
    [{ endedWatch with key := Address.ofU256 8 }, endedWatch]

theorem close_order_irrelevant_twoDue :
    watchFirst.2.node.findAuction = watchLast.2.node.findAuction ∧
    (∃ closed closed', watchFirst.1 = .ok closed ∧ watchLast.1 = .ok closed' ∧
      closed.Perm closed') ∧
    ∃ appended appended', watchFirst.2.node.ledger = twoDue.node.ledger ++ appended ∧
      watchLast.2.node.ledger = twoDue.node.ledger ++ appended' ∧
      (transactions appended).Perm (transactions appended') :=
  close_order_irrelevant sampleCrates twoDue 5 (List.Perm.refl _) (List.Perm.swap _ _ _)
    (Effects.allWritten_calm 5) (Effects.allWritten_calm 6) rfl rfl

end KademliaAuction
