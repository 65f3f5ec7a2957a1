/-
KademliaAuction.Durability — when an `Ok` means that the ledger is saved.

`record_auction_win` pushes its block before it saves the ledger, so a
failed save leaves memory ahead of the file. The call reports the failure,
but the next one does not know of it: the block is in memory, and the win
counts as recorded. `Host.LedgerSaved` compares the two ledgers,
`recordDeclaredWins_saved` says what a sequence of wins does to them, and
`ok_means_saved_iff` which runs return `Ok` only with a saved ledger: those
in which no call that has nothing to commit succeeds while memory is ahead.
-/
import KademliaAuction.LedgerTheorems

namespace KademliaAuction

open Blockchain Routing Storage Lib

/-- `ledger.json` holds the ledger in memory; a file that is not there counts
as empty. -/
def Host.LedgerSaved (host : Host) : Prop :=
  loadLedger host.node.config.dataDir host.disk = .ok host.node.ledger

/-- A file that parses can be loaded. -/
theorem exists_loadLedger {disk : DataDir} (h : disk.ledger ≠ .garbled) (dataDir : String) :
    ∃ ledger, loadLedger dataDir disk = .ok ledger := by
  unfold loadLedger
  cases hfile : disk.ledger with
  | absent => exact ⟨[], rfl⟩
  | json ledger => exact ⟨ledger, rfl⟩
  | garbled => exact absurd hfile h

/-- What is loaded depends on the file only. -/
theorem loadLedger_congr {dataDir dataDir' : String} {disk disk' : DataDir} {ledger : List Block}
    (hfile : disk'.ledger = disk.ledger) (h : loadLedger dataDir disk = .ok ledger) :
    loadLedger dataDir' disk' = .ok ledger := by
  unfold loadLedger at h ⊢
  rw [hfile]
  cases hdisk : disk.ledger with
  | garbled =>
    rw [hdisk] at h
    cases h
  | _ =>
    rw [hdisk] at h
    exact h

/-- A restart has the ledger that the file holds. -/
theorem Host.restart_ledger {host : Host} {config : Config}
    (hdir : config.dataDir = host.node.config.dataDir) {ledger : List Block}
    (h : loadLedger host.node.config.dataDir host.disk = .ok ledger) :
    (host.restart config).node.ledger = ledger := by
  simp [Host.restart, Node.new, hdir, h, Except.toOption]

/-- The call returns `Ok`. -/
def NodeAction.ReturnsOk (crates : Crates) (host : Host) : NodeAction → Prop
  | .store auction effects => ∃ value, (host.storeAuction crates effects auction).1 = .ok value
  | .close now order effects =>
      ∃ closed, (host.closeExpiredAuctions crates effects now order).1 = .ok closed
  | .restart _ => False

/-- If the call returns `Ok`, the ledger is saved after it. -/
def OkMeansSaved (crates : Crates) (host : Host) (action : NodeAction) : Prop :=
  action.ReturnsOk crates host →
    ∀ host', action.apply crates host = some host' → host'.LedgerSaved

/-- Where the call can write the store, the ledger is saved before it, or the
call has a block to commit. -/
def SavedOrCommits (host : Host) : NodeAction → Prop
  | .store auction effects => effects.auctionsWrite = .written →
      host.LedgerSaved ∨ Unsettled host.node host.node.ledger auction
  | .close now order effects => order.Perm host.node.auctions.elems →
      effects.auctionsWrite = .written →
        host.LedgerSaved ∨ ∃ auction ∈ justClosed now order,
          Unsettled host.node host.node.ledger auction
  | .restart _ => True

section Saved

variable {crates : Crates} {effects : Effects} {host : Host}

theorem ledgerSaved_withLedger (host : Host) (ledger : List Block) :
    (host.withLedger ledger (.json ledger)).LedgerSaved := rfl

theorem ledgerSaved_withAuctions {auctions : AuctionSet} {file : File Auction} :
    (host.withAuctions auctions file).LedgerSaved ↔ host.LedgerSaved := Iff.rfl

/-- One win that is taken up without a failure: nothing has changed, or the
ledger is saved. -/
theorem recordDeclaredWin_saved {auction : Auction}
    (hok : (host.recordDeclaredWin crates effects auction).1 = .ok ()) :
    (¬ Unsettled host.node host.node.ledger auction ∧
      (host.recordDeclaredWin crates effects auction).2 = host) ∨
    (Unsettled host.node host.node.ledger auction ∧
      (host.recordDeclaredWin crates effects auction).2.LedgerSaved) := by
  rcases host.recordDeclaredWin_cases crates effects auction with
    ⟨hskip, h⟩ | ⟨hdue, _, h⟩ | ⟨_, _, e, h⟩
  · exact Or.inl ⟨hskip, by rw [h]⟩
  · refine Or.inr ⟨hdue, ?_⟩
    rw [h]
    exact ledgerSaved_withLedger host _
  · rw [h] at hok
    cases hok

/-- Several wins, by induction along them: the first that is unsettled makes
the ledger saved, and it stays so. -/
theorem recordDeclaredWins_saved : ∀ (wins : List Auction) (host : Host),
    (Host.recordDeclaredWins crates effects wins host).1 = .ok () →
    ((∀ auction ∈ wins, ¬ Unsettled host.node host.node.ledger auction) ∧
      (Host.recordDeclaredWins crates effects wins host).2 = host) ∨
    ((∃ auction ∈ wins, Unsettled host.node host.node.ledger auction) ∧
      (Host.recordDeclaredWins crates effects wins host).2.LedgerSaved) := by
  intro wins host hok
  induction wins generalizing host with
  | nil => exact Or.inl ⟨fun _ hmem => absurd hmem List.not_mem_nil, rfl⟩
  | cons auction wins ih =>
    have hfirst : (host.recordDeclaredWin crates effects auction).1 = .ok () → _ :=
      recordDeclaredWin_saved
    rw [Host.recordDeclaredWins] at hok ⊢
    generalize host.recordDeclaredWin crates effects auction = recorded at hok hfirst
    obtain ⟨result, after⟩ := recorded
    cases result with
    | error e => cases hok
    | ok _ =>
      rcases hfirst rfl with ⟨hskip, rfl⟩ | ⟨hdue, hsaved⟩
      · rcases ih after hok with ⟨hnone, hsame⟩ | ⟨hsome, hsaved⟩
        · refine Or.inl ⟨fun a ha => ?_, hsame⟩
          rcases List.mem_cons.mp ha with rfl | ha
          · exact hskip
          · exact hnone a ha
        · obtain ⟨a, ha, hdue⟩ := hsome
          exact Or.inr ⟨⟨a, List.mem_cons_of_mem _ ha, hdue⟩, hsaved⟩
      · refine Or.inr ⟨⟨auction, List.mem_cons_self, hdue⟩, ?_⟩
        rcases ih after hok with ⟨_, hsame⟩ | ⟨_, hsaved'⟩
        · simp only
          rw [hsame]
          exact hsaved
        · exact hsaved'

/-- Nothing is done where nothing is unsettled. -/
theorem recordDeclaredWins_of_none : ∀ (wins : List Auction),
    (∀ auction ∈ wins, ¬ Unsettled host.node host.node.ledger auction) →
      Host.recordDeclaredWins crates effects wins host = (.ok (), host) := by
  intro wins hnone
  induction wins with
  | nil => rfl
  | cons auction wins ih =>
    rw [Host.recordDeclaredWins]
    rcases host.recordDeclaredWin_cases crates effects auction with
      ⟨_, h⟩ | ⟨hdue, _, _⟩ | ⟨hdue, _, _⟩
    · rw [h]
      exact ih fun a ha => hnone a (List.mem_cons_of_mem _ ha)
    · exact absurd hdue (hnone auction List.mem_cons_self)
    · exact absurd hdue (hnone auction List.mem_cons_self)

/-- Taking up wins without a failure means a saved ledger exactly when it was
saved before or there is something to commit. -/
theorem recordDeclaredWins_okMeansSaved (crates : Crates) (effects : Effects) (host : Host)
    (wins : List Auction) :
    ((Host.recordDeclaredWins crates effects wins host).1 = .ok () →
      (Host.recordDeclaredWins crates effects wins host).2.LedgerSaved) ↔
    (host.LedgerSaved ∨ ∃ auction ∈ wins, Unsettled host.node host.node.ledger auction) := by
  constructor
  · intro hmeans
    by_cases hsome : ∃ auction ∈ wins, Unsettled host.node host.node.ledger auction
    · exact Or.inr hsome
    · push Not at hsome
      rw [recordDeclaredWins_of_none wins hsome] at hmeans
      exact Or.inl (hmeans rfl)
  · intro hbefore hok
    rcases recordDeclaredWins_saved wins host hok with ⟨hnone, hsame⟩ | ⟨_, hsaved⟩
    · rw [hsame]
      refine hbefore.resolve_right ?_
      rintro ⟨auction, hmem, hdue⟩
      exact hnone auction hmem hdue
    · exact hsaved

end Saved

/-! ## The calls -/

section Calls

variable {crates : Crates} {effects : Effects} {host host' : Host}

theorem recordDeclaredWins_singleton (auction : Auction) :
    Host.recordDeclaredWins crates effects [auction] host =
      host.recordDeclaredWin crates effects auction := by
  rw [Host.recordDeclaredWins]
  cases host.recordDeclaredWin crates effects auction with
  | mk result after => cases result <;> rfl

theorem store_okMeansSaved_iff (auction : Auction) :
    OkMeansSaved crates host (.store auction effects) ↔
      SavedOrCommits host (.store auction effects) := by
  have hwins : _ ↔ (host.LedgerSaved ∨ ∃ a ∈ [auction], Unsettled host.node host.node.ledger a) :=
    recordDeclaredWins_okMeansSaved crates effects (host.afterReplace auction) [auction]
  rw [recordDeclaredWins_singleton] at hwins
  simp only [List.mem_singleton, exists_eq_left] at hwins
  unfold OkMeansSaved SavedOrCommits NodeAction.ReturnsOk
  simp only [NodeAction.apply_store, forall_eq']
  rcases host.storeAuction_cases crates effects auction with ⟨hnot, e, h⟩ | ⟨hok, h⟩
  · rw [h]
    simp [hnot]
  · rw [h]
    simp only [hok, forall_const]
    rw [← hwins]
    generalize (host.afterReplace auction).recordDeclaredWin crates effects auction = recorded
    obtain ⟨result, after⟩ := recorded
    cases result <;> simp [Except.map]

theorem close_okMeansSaved_iff (now : Int) (order : List Auction) :
    OkMeansSaved crates host (.close now order effects) ↔
      SavedOrCommits host (.close now order effects) := by
  have hwins := recordDeclaredWins_okMeansSaved crates effects host (justClosed now order)
  unfold OkMeansSaved SavedOrCommits NodeAction.ReturnsOk
  simp only [NodeAction.apply_close, and_imp]
  by_cases horder : order.Perm host.node.auctions.elems
  · simp only [horder, forall_const, forall_eq']
    rw [← hwins]
    rcases host.closeExpiredAuctions_cases crates effects now order with
      ⟨e, herror, h⟩ | ⟨hdone, ⟨hok, h⟩ | ⟨hnot, e, h⟩⟩
    · rw [h]
      simp [herror]
    · rw [h]
      simp [hok, hdone, ledgerSaved_withAuctions]
    · rw [h]
      simp [hnot]
  · simp [horder]

/-- One call: an `Ok` means a saved ledger exactly when the ledger was saved
before, or the call commits, or it cannot write the store. -/
theorem okMeansSaved_iff (crates : Crates) (host : Host) (action : NodeAction) :
    OkMeansSaved crates host action ↔ SavedOrCommits host action := by
  cases action with
  | store auction effects => exact store_okMeansSaved_iff auction
  | close now order effects => exact close_okMeansSaved_iff now order
  | restart config => simp [OkMeansSaved, SavedOrCommits, NodeAction.ReturnsOk]

end Calls

/-! ## Runs -/

/-- **When acknowledged means durable**: in a run of calls and restarts, from
any host and with any writes failing, every call that returns `Ok` leaves the
ledger saved exactly when every call that can write the store finds the
ledger saved or has a block to commit. -/
theorem ok_means_saved_iff (crates : Crates) (host : Host) (actions : List NodeAction) :
    (nodeSystem crates (· = host)).StepsMeet (OkMeansSaved crates) host actions ↔
      (nodeSystem crates (· = host)).StepsMeet SavedOrCommits host actions :=
  System.stepsMeet_congr (okMeansSaved_iff crates) actions host

/-- A failing write leaves the old file. -/
def Effects.Intact (effects : Effects) : Prop :=
  effects.auctionsWrite ≠ .torn ∧ ∀ n, effects.ledgerWrite n ≠ .torn

/-- The action is a call whose writes succeed or leave the old file. -/
def NodeAction.IntactCall : NodeAction → Prop
  | .store _ effects => effects.Intact
  | .close _ _ effects => effects.Intact
  | .restart _ => False

/-- A call at time `now` that cannot write the ledger. -/
def Effects.ledgerFails (now : Int) : Effects :=
  { Effects.calm now with ledgerWrite := fun _ => .openFailed }

theorem Effects.intact_ledgerFails (now : Int) : (Effects.ledgerFails now).Intact :=
  ⟨by simp [ledgerFails, calm], fun _ => by simp [ledgerFails]⟩

theorem Effects.AllWritten.intact {effects : Effects} (h : effects.AllWritten) : effects.Intact :=
  ⟨by simp [h.1], fun n => by simp [h.2 n]⟩

/-- **A second try is acknowledged**: storing a sold watch fails on the
ledger, storing it once more returns `Ok`, and `ledger.json` is still not
there. -/
theorem second_try_acknowledged :
    ¬ ∀ (crates : Crates) (host host' : Host) (action : NodeAction),
      (nodeSystem crates (· = sampleHost)).ReachableUnder (fun _ a => a.IntactCall) host →
      action.IntactCall → action.ReturnsOk crates host →
      action.apply crates host = some host' → host'.LedgerSaved := by
  intro hclaim
  have hreach : (nodeSystem sampleCrates (· = sampleHost)).ReachableUnder
      (fun _ a => a.IntactCall)
      (sampleHost.storeAuction sampleCrates (Effects.ledgerFails 5) soldWatch).2 :=
    .step (a := .store soldWatch (Effects.ledgerFails 5)) (.init rfl)
      (Effects.intact_ledgerFails 5) rfl
  have hsaved := hclaim sampleCrates _ _ (.store soldWatch (Effects.calm 6)) hreach
    (Effects.allWritten_calm 6).intact ⟨true, by decide +kernel⟩ rfl
  unfold Host.LedgerSaved at hsaved
  exact absurd hsaved (by decide +kernel)

end KademliaAuction
