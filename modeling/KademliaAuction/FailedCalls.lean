/-
KademliaAuction.FailedCalls — what a call that returns `Err` leaves in
memory.

`close_expired_auctions` collects the changed auctions in a vector and puts
them in place only when every win is recorded, and both calls report a failed
write with `?`. But `store_auction` replaces the auction before it writes the
store, a closing pass replaces the store before it writes it, and
`record_auction_win` pushes its block before it saves the ledger; nothing is
taken back. So memory is ahead of what the caller was told.

`err_leaves_memory_iff` says for which calls an `Err` still means that
nothing has changed: those in which each write that fails comes before there
is anything to undo. The number of blocks that a pass commits is the number
of closed auctions that are unsettled before it (`winsWritten_iff`), because a
block for one auction does not settle another.
-/
import KademliaAuction.Durability
import KademliaAuction.GRpc.Automation
import KademliaAuction.Reputation
import KademliaAuction.StoreRefinement

namespace KademliaAuction

open Blockchain Routing Storage Lib

/-- The same auctions and the same ledger in memory. -/
def Host.SameMemory (before after : Host) : Prop :=
  (∀ auction, auction ∈ after.node.auctions ↔ auction ∈ before.node.auctions) ∧
    after.node.ledger = before.node.ledger

/-- The call returns `Err`. -/
def NodeAction.ReturnsErr (crates : Crates) (host : Host) : NodeAction → Prop
  | .store auction effects => ∃ e, (host.storeAuction crates effects auction).1 = .error e
  | .close now order effects =>
      ∃ e, (host.closeExpiredAuctions crates effects now order).1 = .error e
  | .restart _ => False

/-- If the call returns `Err`, memory is as it was. -/
def ErrLeavesMemory (crates : Crates) (host : Host) (action : NodeAction) : Prop :=
  action.ReturnsErr crates host →
    ∀ host', action.apply crates host = some host' → host.SameMemory host'

instance (node : Node) (ledger : List Block) (auction : Auction) :
    Decidable (Unsettled node ledger auction) :=
  decidable_of_iff (auction.declaredWin.isSome ∧ recordsWin ledger auction.key = false ∧
      hasReputationToCommit node.config ledger node.nodeInfo.id = true)
    (by rw [Option.isSome_iff_exists]; rfl)

/-- How many blocks have to be committed for these closed auctions. -/
def blocksDue (node : Node) (ledger : List Block) (closed : List Auction) : Nat :=
  closed.countP fun auction => Unsettled node ledger auction

/-- No write fails when there is something to undo: storing fails on the
store only with an auction that is held as it is, and on the ledger only with
nothing to commit; a closing pass saves every block it commits, and fails on
the store only with nothing to close. -/
def NothingToUndo (host : Host) : NodeAction → Prop
  | .store auction effects =>
      (effects.auctionsWrite ≠ .written → auction ∈ host.node.auctions) ∧
        (effects.auctionsWrite = .written → Unsettled host.node host.node.ledger auction →
          effects.ledgerWrite host.node.ledger.length = .written)
  | .close now order effects => order.Perm host.node.auctions.elems →
      (∀ n < blocksDue host.node host.node.ledger (justClosed now order),
        effects.ledgerWrite (host.node.ledger.length + n) = .written) ∧
      (effects.auctionsWrite ≠ .written →
        ∀ auction ∈ host.node.auctions, ¬ (auction.status = .Open ∧ auction.endsAt ≤ now))
  | .restart _ => True

/-! ## The ledger -/

section Ledger

variable {crates : Crates} {effects : Effects}

/-- A block for one auction does not settle another, and does not take the
node's reputation away. -/
theorem unsettled_settle_iff {node : Node} {ledger : List Block} {a b : Auction}
    (ha : Unsettled node ledger a) (hkey : b.key ≠ a.key) :
    Unsettled node (settle crates effects node ledger a) b ↔ Unsettled node ledger b := by
  have hpre : ledger <+: settle crates effects node ledger a := prefix_settle node ledger a
  obtain ⟨winner, winningBid, _, hpush⟩ :
      ∃ winner winningBid, _ ∧ settle crates effects node ledger a = _ := settle_of_unsettled ha
  have hrecords : recordsWin (settle crates effects node ledger a) b.key =
      recordsWin ledger b.key := by
    rw [Bool.eq_iff_iff, recordsWin_eq_true, recordsWin_eq_true, hpush, wonKeys_concat_winBlock]
    simp [hkey]
  have hafter := hasReputationToCommit_mono hpre ha.2.2
  unfold Unsettled
  rw [hrecords, hafter, ha.2.2]

theorem length_settle {node : Node} {ledger : List Block} {a : Auction}
    (ha : Unsettled node ledger a) :
    (settle crates effects node ledger a).length = ledger.length + 1 := by
  obtain ⟨_, _, _, hpush⟩ : ∃ winner winningBid, _ ∧ settle crates effects node ledger a = _ :=
    settle_of_unsettled ha
  rw [hpush, List.length_append, List.length_singleton]

/-- Once `a` has its block, as many blocks as before are due for the others. -/
theorem blocksDue_settle {node : Node} {ledger : List Block} {a : Auction} {wins : List Auction}
    (ha : Unsettled node ledger a) (hkey : a.key ∉ wins.map Auction.key) :
    blocksDue node (settle crates effects node ledger a) wins = blocksDue node ledger wins := by
  refine List.countP_congr fun b hb => ?_
  have hother : b.key ≠ a.key := fun heq => hkey (heq ▸ List.mem_map_of_mem hb)
  simpa using unsettled_settle_iff ha hother

/-- Wins are taken up without a failure when the ledger can be saved with
each block that is due. -/
theorem winsWritten_iff (node : Node) (ledger : List Block) (wins : List Auction)
    (hkeys : (wins.map Auction.key).Nodup) :
    WinsWritten crates effects node ledger wins ↔
      ∀ n < blocksDue node ledger wins, effects.ledgerWrite (ledger.length + n) = .written := by
  induction wins generalizing ledger with
  | nil => simp [WinsWritten, blocksDue]
  | cons a wins ih =>
    rw [List.map_cons, List.nodup_cons] at hkeys
    rw [WinsWritten, WinWritten, ih _ hkeys.2]
    by_cases hdue : Unsettled node ledger a
    · rw [blocksDue_settle hdue hkeys.1, length_settle hdue]
      have hcount : blocksDue node ledger (a :: wins) = blocksDue node ledger wins + 1 :=
        List.countP_cons_of_pos (by simpa using hdue)
      rw [hcount]
      constructor
      · intro hwritten n hn
        obtain ⟨hfirst, hrest⟩ := hwritten
        cases n with
        | zero => exact hfirst hdue
        | succ n =>
          have := hrest n (by omega)
          rwa [Nat.add_assoc, Nat.add_comm 1 n] at this
      · intro hall
        refine ⟨fun _ => hall 0 (by omega), fun n hn => ?_⟩
        have := hall (n + 1) (by omega)
        rwa [Nat.add_assoc, Nat.add_comm 1 n]
    · have hcount : blocksDue node ledger (a :: wins) = blocksDue node ledger wins :=
        List.countP_cons_of_neg (by simpa using hdue)
      rw [hcount, settle_of_not_unsettled hdue]
      simp [hdue]

/-- After a failed save there is a block more in memory. -/
theorem recordDeclaredWins_failed (wins : List Auction) (host : Host) {e : String}
    (herror : (Host.recordDeclaredWins crates effects wins host).1 = .error e) :
    host.node.ledger.length <
      (Host.recordDeclaredWins crates effects wins host).2.node.ledger.length := by
  induction wins generalizing host with
  | nil => cases herror
  | cons a wins ih =>
    have hgrown : Unsettled host.node host.node.ledger a → host.node.ledger.length <
        (settle crates effects host.node host.node.ledger a).length := fun hdue =>
      length_settle hdue ▸ Nat.lt_succ_self _
    rw [Host.recordDeclaredWins] at herror ⊢
    rcases host.recordDeclaredWin_cases crates effects a with
      ⟨_, h⟩ | ⟨hdue, _, h⟩ | ⟨hdue, _, _, h⟩
    · rw [h] at herror ⊢
      exact ih host herror
    · rw [h] at herror ⊢
      exact (hgrown hdue).trans (ih _ herror)
    · rw [h]
      exact hgrown hdue

end Ledger

/-! ## The calls -/

section Calls

variable {crates : Crates} {effects : Effects} {host : Host}

/-- Replacing an auction changes nothing when it is held as it is. -/
theorem mem_replace_iff_mem {store : AuctionSet} {auction : Auction} :
    (∀ a, a ∈ store.replace auction ↔ a ∈ store) ↔ auction ∈ store := by
  constructor
  · intro h
    exact (h auction).mp (KeyedSet.mem_replace_self _ _)
  · intro hheld a
    rw [KeyedSet.mem_replace]
    constructor
    · intro h
      rcases h with rfl | ⟨hold, _⟩
      · exact hheld
      · exact hold
    · intro hold
      by_cases hkey : a.key = auction.key
      · exact Or.inl (KeyedSet.eq_of_key_eq hold hheld hkey)
      · exact Or.inr ⟨hold, hkey⟩

theorem store_errLeavesMemory_iff (auction : Auction) :
    ErrLeavesMemory crates host (.store auction effects) ↔
      NothingToUndo host (.store auction effects) := by
  unfold ErrLeavesMemory NothingToUndo NodeAction.ReturnsErr
  simp only [NodeAction.apply_store, forall_eq']
  rcases host.storeAuction_cases crates effects auction with ⟨hnot, e, h⟩ | ⟨hok, h⟩
  · rw [h]
    simp only [hnot, ne_eq, not_false_eq_true, forall_const, false_implies, and_true,
      Except.error.injEq, exists_eq']
    rw [← mem_replace_iff_mem]
    exact and_iff_left rfl
  · rw [h]
    simp only [hok, ne_eq, not_true_eq_false, false_implies, forall_const, true_and]
    rcases (host.afterReplace auction).recordDeclaredWin_cases crates effects auction with
      ⟨hskip, hrecord⟩ | ⟨hdue, hwritten, hrecord⟩ | ⟨hdue, hfailed, e, hrecord⟩
    · rw [hrecord]
      refine ⟨fun _ hdue => absurd hdue hskip, fun _ herror => ?_⟩
      obtain ⟨_, herror⟩ := herror
      cases herror
    · rw [hrecord]
      refine ⟨fun _ _ => hwritten, fun _ herror => ?_⟩
      obtain ⟨_, herror⟩ := herror
      cases herror
    · rw [hrecord]
      constructor
      · intro hsame
        exact absurd (hsame ⟨e, rfl⟩).2 (settle_ne_of_unsettled hdue)
      · intro hwritten
        exact absurd (hwritten hdue) hfailed

/-- A pass that closes something changes the store. -/
theorem mem_closedStore_iff_mem {now : Int} {order : List Auction}
    (horder : order.Perm host.node.auctions.elems) :
    (∀ a, a ∈ Host.closedStore now order ↔ a ∈ host.node.auctions) ↔
      ∀ auction ∈ host.node.auctions, ¬ (auction.status = .Open ∧ auction.endsAt ≤ now) := by
  unfold Host.closedStore
  simp only [Host.mem_collect_closeIfExpired horder]
  constructor
  · intro hsame auction hmem ⟨hopen, hdue⟩
    obtain ⟨before, hbefore, heq⟩ := (hsame auction).mpr hmem
    rcases before.closeIfExpired_cases now with ⟨h, hwhy⟩ | ⟨h, _, _⟩
    · rw [h] at heq
      subst heq
      rcases hwhy with hclosed | hearly
      · rw [hopen] at hclosed
        cases hclosed
      · omega
    · rw [h] at heq
      rw [heq, Auction.close_status] at hopen
      cases hopen
  · intro hnone a
    have hkept : ∀ before ∈ host.node.auctions, (before.closeIfExpired now).2 = before := by
      intro before hbefore
      rcases before.closeIfExpired_cases now with ⟨h, _⟩ | ⟨_, hopen, hdue⟩
      · rw [h]
      · exact absurd ⟨hopen, hdue⟩ (hnone before hbefore)
    constructor
    · intro ⟨before, hbefore, heq⟩
      rw [heq, hkept before hbefore]
      exact hbefore
    · intro hmem
      exact ⟨a, hmem, (hkept a hmem).symm⟩

/-- Where nothing is due, nothing is closed. -/
theorem justClosed_eq_nil {now : Int} {order : List Auction}
    (horder : order.Perm host.node.auctions.elems)
    (hnone : ∀ auction ∈ host.node.auctions, ¬ (auction.status = .Open ∧ auction.endsAt ≤ now)) :
    justClosed now order = [] := by
  refine List.eq_nil_iff_forall_not_mem.mpr fun closed hclosed => ?_
  obtain ⟨auction, hmem, hopen, hdue, _⟩ := mem_justClosed.mp hclosed
  exact hnone auction (horder.mem_iff.mp hmem) ⟨hopen, hdue⟩

theorem close_errLeavesMemory_iff (now : Int) (order : List Auction) :
    ErrLeavesMemory crates host (.close now order effects) ↔
      NothingToUndo host (.close now order effects) := by
  unfold ErrLeavesMemory NothingToUndo NodeAction.ReturnsErr
  simp only [NodeAction.apply_close, and_imp]
  by_cases horder : order.Perm host.node.auctions.elems
  · have hsaves := recordDeclaredWins_ok_iff crates effects host.node (justClosed now order) host
      rfl rfl
    rw [winsWritten_iff _ _ _ (nodup_keys_justClosed horder now)] at hsaves
    simp only [horder, forall_const, forall_eq']
    rw [← hsaves]
    rcases host.closeExpiredAuctions_cases crates effects now order with
      ⟨e, herror, h⟩ | ⟨hdone, ⟨hok, h⟩ | ⟨hnot, e, h⟩⟩
    · -- a save has failed, and its block stays
      rw [h]
      constructor
      · intro hsame
        have hgrown := recordDeclaredWins_failed (justClosed now order) host herror
        rw [(hsame ⟨e, rfl⟩).2] at hgrown
        exact absurd hgrown (Nat.lt_irrefl _)
      · intro hnothing
        have hok := hnothing.1
        rw [herror] at hok
        cases hok
    · rw [h]
      simp [hok, hdone]
    · -- the store could not be written, with all blocks saved
      rw [h]
      simp only [hdone, hnot, ne_eq, not_false_eq_true, forall_const, true_and,
        Except.error.injEq, exists_eq']
      rw [← mem_closedStore_iff_mem horder]
      constructor
      · intro hsame
        exact hsame.1
      · intro hstore
        have hnone := justClosed_eq_nil horder ((mem_closedStore_iff_mem horder).mp hstore)
        refine ⟨hstore, ?_⟩
        rw [hnone]
        rfl
  · simp [horder]

/-- **When an `Err` leaves memory as it was**: for every call on every host,
with any writes failing, exactly when no write fails with something to
undo. -/
theorem err_leaves_memory_iff (crates : Crates) (host : Host) (action : NodeAction) :
    ErrLeavesMemory crates host action ↔ NothingToUndo host action := by
  cases action with
  | store auction effects => exact store_errLeavesMemory_iff auction
  | close now order effects => exact close_errLeavesMemory_iff now order
  | restart config => simp [ErrLeavesMemory, NothingToUndo, NodeAction.ReturnsErr]

end Calls

/-- A call at time `now` that cannot write the store. -/
def Effects.storeFails (now : Int) : Effects :=
  { Effects.calm now with auctionsWrite := .openFailed }

/-- **A refused auction stays**: the store cannot be written, `store_auction`
returns `Err`, and the auction is in memory; and with the ledger failing
instead, its block is. -/
theorem refused_auction_stays :
    ¬ ErrLeavesMemory sampleCrates sampleHost (.store soldWatch (Effects.storeFails 5)) ∧
    ¬ ErrLeavesMemory sampleCrates sampleHost (.store soldWatch (Effects.ledgerFails 5)) := by
  constructor
  · intro hsame
    obtain ⟨hstore, _⟩ := hsame ⟨_, rfl⟩ _ rfl
    have hheld := (hstore soldWatch).mp (KeyedSet.mem_replace_self _ _)
    rw [KeyedSet.mem_def] at hheld
    exact absurd hheld (by decide +kernel)
  · intro hsame
    obtain ⟨_, hledger⟩ := hsame ⟨_, rfl⟩ _ rfl
    have hlength := congrArg List.length hledger
    exact absurd hlength (by decide +kernel)

end KademliaAuction
