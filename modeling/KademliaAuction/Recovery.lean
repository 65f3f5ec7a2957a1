/-
KademliaAuction.Recovery — a crash between the two files of a node.

`close_expired_auctions` saves its blocks before it writes the store, so a
crash in between leaves the auctions open in the file, and the next closing
pass finds them again. `store_auction` writes the store first: a crash
before the ledger is saved leaves an auction whose win nobody takes up, for
a closing pass looks at open auctions only. `LosesWin` is that crash, and
`crash_keeps_wins_iff` says that no other one loses a win.

A crash is a call whose next write is not begun, followed by a restart: both
methods return at the first write that fails, so the files are those that
the writes before the crash made.
-/
import KademliaAuction.Durability

namespace KademliaAuction

open Blockchain Routing Storage Lib

/-! ## Files and memory -/

/-- A proof-of-work node that has just started on an empty data directory. -/
def FreshPow (host : Host) : Prop :=
  ∃ id ip port config, ConsensusMode.fromConfig config = .ProofOfWork ∧
    host = Host.fresh id ip port config

/-- Both files hold what the node has in memory. -/
structure Host.Synced (host : Host) : Prop where
  ledger : host.LedgerSaved
  auctions : loadAuctions host.node.config.dataDir host.disk = .ok host.node.auctions.elems

section Synced

variable {crates : Crates} {effects : Effects} {host : Host}

/-- A restart has the store that the file holds. -/
theorem Host.restart_auctions {config : Config} (hdir : config.dataDir = host.node.config.dataDir)
    {auctions : AuctionSet}
    (h : loadAuctions host.node.config.dataDir host.disk = .ok auctions.elems) :
    (host.restart config).node.auctions.elems = auctions.elems := by
  simp only [Host.restart, Node.new, hdir, h, Except.toOption, Option.getD_some]
  exact KeyedSet.elems_collect auctions.nodupKeys

/-- Writes that leave the old file or succeed never leave rubbish. -/
theorem recordDeclaredWins_ne_garbled (crates : Crates) {effects : Effects}
    (hintact : effects.Intact) : ∀ (wins : List Auction) (host : Host),
    host.disk.ledger ≠ .garbled →
      (Host.recordDeclaredWins crates effects wins host).2.disk.ledger ≠ .garbled := by
  intro wins host h
  induction wins generalizing host with
  | nil => exact h
  | cons auction wins ih =>
    rw [Host.recordDeclaredWins]
    rcases host.recordDeclaredWin_cases crates effects auction with
      ⟨_, hrun⟩ | ⟨_, _, hrun⟩ | ⟨_, _, e, hrun⟩
    · rw [hrun]
      exact ih host h
    · rw [hrun]
      exact ih _ (by simp [Host.withLedger])
    · rw [hrun]
      simpa [Host.withLedger, hintact.2] using h

theorem Host.LedgerSaved.ne_garbled (h : host.LedgerSaved) : host.disk.ledger ≠ .garbled := by
  intro hgarbled
  unfold Host.LedgerSaved loadLedger at h
  rw [hgarbled] at h
  cases h

/-- The ledger file after wins have been taken up holds one of the ledgers on
the way. -/
theorem exists_loadLedger_wins (crates : Crates) (hsaved : host.LedgerSaved)
    (hintact : effects.Intact) (wins : List Auction) (dataDir : String) :
    ∃ pre, loadLedger dataDir (Host.recordDeclaredWins crates effects wins host).2.disk =
      .ok (settleAll crates effects host.node host.node.ledger pre) := by
  obtain ⟨_, _, hcommits, _⟩ := Host.recordDeclaredWins_commits crates effects wins host
  have hreadable := recordDeclaredWins_ne_garbled crates hintact wins host hsaved.ne_garbled
  rcases hcommits.file with hold | hgarbled | ⟨pre, _, hnew⟩
  · exact ⟨[], loadLedger_congr hold hsaved⟩
  · exact absurd hgarbled hreadable
  · exact ⟨pre, by rw [loadLedger, hnew]; rfl⟩

theorem recordDeclaredWins_ledgerSaved (hsaved : host.LedgerSaved) {wins : List Auction}
    (hok : (Host.recordDeclaredWins crates effects wins host).1 = .ok ()) :
    (Host.recordDeclaredWins crates effects wins host).2.LedgerSaved :=
  (recordDeclaredWins_okMeansSaved crates effects host wins).mpr (Or.inl hsaved) hok

/-! ## What a crash in a call leaves -/

/-- In `store_auction`: the old files; or all that the call writes; or the
store without the block. -/
theorem storeAuction_disk (hsync : host.Synced) (hintact : effects.Intact) (auction : Auction) :
    (effects.auctionsWrite ≠ .written ∧
      (host.storeAuction crates effects auction).2.disk = host.disk) ∨
    (effects.auctionsWrite = .written ∧
      (Unsettled host.node host.node.ledger auction →
        effects.ledgerWrite host.node.ledger.length = .written) ∧
      (host.storeAuction crates effects auction).2.Synced) ∨
    (effects.auctionsWrite = .written ∧ Unsettled host.node host.node.ledger auction ∧
      effects.ledgerWrite host.node.ledger.length ≠ .written ∧
      (host.storeAuction crates effects auction).2.disk =
        { auctions := .json (host.node.auctions.replace auction).elems,
          ledger := host.disk.ledger }) := by
  rcases host.storeAuction_cases crates effects auction with ⟨hnot, e, h⟩ | ⟨hok, h⟩
  · rw [h]
    exact Or.inl ⟨hnot, by simp [Host.withAuctions, hintact.1]⟩
  · rw [h]
    rcases (host.afterReplace auction).recordDeclaredWin_cases crates effects auction with
      ⟨hskip, hrun⟩ | ⟨_, hwrite, hrun⟩ | ⟨hdue, hnot, e, hrun⟩
    · rw [hrun]
      exact Or.inr (Or.inl ⟨hok, fun hdue => absurd hdue hskip, hsync.ledger, rfl⟩)
    · rw [hrun]
      exact Or.inr (Or.inl ⟨hok, fun _ => hwrite, rfl, rfl⟩)
    · rw [hrun]
      refine Or.inr (Or.inr ⟨hok, hdue, hnot, ?_⟩)
      simp [Host.withLedger, Host.afterReplace, Host.withAuctions, hintact.2]

/-- In `close_expired_auctions`: all that the call writes; or the old store
and one of the ledgers on the way. -/
theorem closeExpiredAuctions_disk (hsync : host.Synced) (hintact : effects.Intact) (now : Int)
    (order : List Auction) :
    (host.closeExpiredAuctions crates effects now order).2.Synced ∨
    ((host.closeExpiredAuctions crates effects now order).2.disk.auctions = host.disk.auctions ∧
      ¬ effects.AllWritten ∧
      ∃ pre, loadLedger host.node.config.dataDir
        (host.closeExpiredAuctions crates effects now order).2.disk =
          .ok (settleAll crates effects host.node host.node.ledger pre)) := by
  obtain ⟨_, _, _, _, hstore, hresult⟩ :=
    Host.recordDeclaredWins_commits crates effects (justClosed now order) host
  have hload := exists_loadLedger_wins crates hsync.ledger hintact (justClosed now order)
    host.node.config.dataDir
  rcases host.closeExpiredAuctions_cases crates effects now order with
    ⟨e, herror, h⟩ | ⟨hdone, ⟨_, h⟩ | ⟨hnot, e, h⟩⟩
  · rw [h]
    refine Or.inr ⟨hstore, ?_, hload⟩
    rcases hresult with ⟨_, _, hfailed⟩ | ⟨_, hdone⟩
    · exact hfailed
    · rw [herror] at hdone
      cases hdone
  · rw [h]
    exact Or.inl ⟨recordDeclaredWins_ledgerSaved hsync.ledger hdone, rfl⟩
  · rw [h]
    exact Or.inr ⟨by simp [Host.withAuctions, hintact.1], fun hall => hnot hall.1, hload⟩

/-- A call whose writes succeed keeps files and memory together. -/
theorem Host.Synced.call {host' : Host} (hsync : host.Synced) {action : NodeAction}
    (hwritten : action.AllWritten) (happly : action.apply crates host = some host') :
    host'.Synced := by
  cases action with
  | restart config => exact hwritten.elim
  | store auction effects =>
    obtain rfl := NodeAction.apply_store.mp happly
    have hall : effects.AllWritten := hwritten
    rcases storeAuction_disk hsync hall.intact auction with
      ⟨hnot, _⟩ | ⟨_, _, hsynced⟩ | ⟨_, _, hnot, _⟩
    · exact absurd hall.1 hnot
    · exact hsynced
    · exact absurd (hall.2 _) hnot
  | close now order effects =>
    obtain ⟨_, rfl⟩ := NodeAction.apply_close.mp happly
    have hall : effects.AllWritten := hwritten
    rcases closeExpiredAuctions_disk hsync hall.intact now order with hsynced | ⟨_, hnot, _⟩
    · exact hsynced
    · exact absurd hall hnot

end Synced

/-! ## The closing pass after the restart -/

/-- Every auction of the store with a winner and a winning bid has a
block. -/
def Host.WinsRecorded (host : Host) : Prop :=
  ∀ auction ∈ host.node.auctions, auction.winner ≠ none → auction.winningBid ≠ none →
    auction.key ∈ wonKeys host.node.ledger

theorem Auction.declaredWin_eq_some {auction : Auction} {win : Address × Nat}
    (h : auction.declaredWin = some win) : auction.winner ≠ none ∧ auction.winningBid ≠ none := by
  unfold declaredWin at h
  constructor
  · intro hnone
    rw [hnone] at h
    cases h
  · intro hnone
    rw [hnone] at h
    cases hw : auction.winner <;> rw [hw] at h <;> cases h

theorem mem_wonKeys_settleAll_or {crates : Crates} {effects : Effects} {node : Node}
    {ledger : List Block} {wins : List Auction} {key : Address}
    (h : key ∈ wonKeys (settleAll crates effects node ledger wins)) :
    key ∈ wonKeys ledger ∨ ∃ auction ∈ wins, auction.key = key := by
  revert h
  refine settleAll_induction (P := fun l => key ∈ wonKeys l →
    key ∈ wonKeys ledger ∨ ∃ auction ∈ wins, auction.key = key) Or.inl ?_
  intro l auction hmem ih h
  rcases wonKeys_settle crates effects node l auction with hsame | ⟨_, hmore⟩
  · rw [hsame] at h
    exact ih h
  · rw [hmore] at h
    rcases List.mem_append.mp h with hold | hnew
    · exact ih hold
    · exact Or.inr ⟨auction, hmem, (List.mem_singleton.mp hnew).symm⟩

/-- After a closing pass whose writes succeed every win is recorded exactly
when before it each one was, or was about to be declared anew. -/
theorem closing_winsRecorded_iff {crates : Crates} {effects : Effects} {host : Host}
    (hpow : ConsensusMode.fromConfig host.node.config = .ProofOfWork) (hwritten : effects.AllWritten)
    {now : Int} {order : List Auction} (horder : order.Perm host.node.auctions.elems) :
    (host.closeExpiredAuctions crates effects now order).2.WinsRecorded ↔
      ∀ auction ∈ host.node.auctions, auction.winner ≠ none → auction.winningBid ≠ none →
        auction.key ∈ wonKeys host.node.ledger ∨ (auction.status = .Open ∧ auction.endsAt ≤ now) := by
  obtain ⟨settled, _, hcommits, _, hall⟩ :=
    host.closeExpiredAuctions_commits crates effects now order
  obtain ⟨hsettled, _, hauctions⟩ := hall hwritten
  have hledger := hcommits.ledger
  rw [hsettled] at hledger
  unfold Host.WinsRecorded
  constructor
  · intro hrecorded auction hmem hwinner hbid
    rcases auction.closeIfExpired_cases now with ⟨hkept, _⟩ | ⟨_, hopen, hdue⟩
    · have hafter := hrecorded auction
        (by rw [hauctions, Host.mem_collect_closeIfExpired horder]
            exact ⟨auction, hmem, by rw [hkept]⟩) hwinner hbid
      rw [hledger] at hafter
      rcases mem_wonKeys_settleAll_or hafter with hold | ⟨closed, hclosed, hkey⟩
      · exact Or.inl hold
      · obtain ⟨before, hbefore, hopen, hdue, rfl⟩ := mem_justClosed.mp hclosed
        rw [Auction.close_key] at hkey
        obtain rfl := KeyedSet.eq_of_key_eq (horder.mem_iff.mp hbefore) hmem hkey
        exact Or.inr ⟨hopen, hdue⟩
    · exact Or.inr ⟨hopen, hdue⟩
  · intro hbefore auction hmem hwinner hbid
    rw [hauctions, Host.mem_collect_closeIfExpired horder] at hmem
    obtain ⟨before, hmem, rfl⟩ := hmem
    rw [hledger]
    rcases before.closeIfExpired_cases now with ⟨hkept, hwhy⟩ | ⟨hclosed, hopen, hdue⟩
    · rw [hkept] at hwinner hbid ⊢
      rcases hbefore before hmem hwinner hbid with hold | ⟨hopen, hdue⟩
      · exact wonKeys_mono (prefix_settleAll ..) hold
      · rcases hwhy with hclosed | hearly
        · rw [hopen] at hclosed
          cases hclosed
        · omega
    · rw [hclosed] at hwinner hbid ⊢
      obtain ⟨win, hwin⟩ := Auction.declaredWin_isSome hwinner hbid
      exact mem_wonKeys_settleAll hpow
        (mem_justClosed.mpr ⟨before, horder.mem_iff.mpr hmem, hopen, hdue, rfl⟩) hwin

/-! ## Crash and recovery -/

theorem Unsettled.not_mem_wonKeys {node : Node} {ledger : List Block} {auction : Auction}
    (h : Unsettled node ledger auction) : auction.key ∉ wonKeys ledger := by
  intro hmem
  have hnew := h.2.1
  rw [recordsWin_eq_true.mpr hmem] at hnew
  cases hnew

/-- The call crashes between the two files: `store_auction` has written the
store, with an auction whose win the node would commit, but not the
ledger. -/
def CrashesBetween (host : Host) (auction : Auction) (effects : Effects) : Prop :=
  effects.auctionsWrite = .written ∧ Unsettled host.node host.node.ledger auction ∧
    effects.ledgerWrite host.node.ledger.length ≠ .written

/-- It does so with an auction that a closing pass at `now` will not close
again. -/
def LosesWin (host : Host) (call : NodeAction) (now : Int) : Prop :=
  ∃ auction effects, call = .store auction effects ∧ CrashesBetween host auction effects ∧
    ¬ (auction.status = .Open ∧ auction.endsAt ≤ now)

theorem freshPow_invariant {crates : Crates} {host : Host}
    (h : (nodeSystem crates FreshPow).ReachableUnder (fun _ action => action.AllWritten) host) :
    host.Synced ∧ AllSettled host := by
  refine h.invariant (I := fun s => s.Synced ∧ AllSettled s) ?_ ?_
  · rintro s ⟨id, ip, port, config, hpow, rfl⟩
    exact ⟨⟨rfl, rfl⟩, hpow, List.nodup_nil, fun auction hmem => absurd hmem List.not_mem_nil⟩
  · rintro s action s' ⟨hsync, hsettled⟩ hwritten hnext
    exact ⟨hsync.call hwritten hnext, hsettled.step hwritten hnext⟩

theorem AllSettled.winsRecorded {host : Host} (h : AllSettled host) : host.WinsRecorded := by
  intro auction hmem hwinner hbid
  obtain ⟨win, hwin⟩ := Auction.declaredWin_isSome hwinner hbid
  exact h.settled auction hmem win hwin

/-- Wins stay recorded in a restart with the same store and no fewer
blocks. -/
theorem Host.WinsRecorded.restart {host crashed : Host} {config : Config}
    (h : host.WinsRecorded)
    (hdir : config.dataDir = crashed.node.config.dataDir)
    (hstore : loadAuctions crashed.node.config.dataDir crashed.disk = .ok host.node.auctions.elems)
    {ledger : List Block}
    (hledger : loadLedger crashed.node.config.dataDir crashed.disk = .ok ledger)
    (hgrown : host.node.ledger <+: ledger) : (crashed.restart config).WinsRecorded := by
  intro auction hmem hwinner hbid
  rw [KeyedSet.mem_def, Host.restart_auctions hdir hstore] at hmem
  rw [Host.restart_ledger hdir hledger]
  exact wonKeys_mono hgrown (h auction hmem hwinner hbid)

/-- A crash that is not between the two files. -/
theorem restart_winsRecorded {crates : Crates} {host crashed : Host} (hsync : host.Synced)
    (hsettled : AllSettled host) {call : NodeAction} (hintact : call.IntactCall)
    (hcall : call.apply crates host = some crashed) {config : Config}
    (hdir : config.dataDir = crashed.node.config.dataDir)
    (hnot : ∀ auction effects, call = .store auction effects → ¬ CrashesBetween host auction effects) :
    (crashed.restart config).WinsRecorded := by
  have hcalled : call.IsCall := by
    cases call with
    | restart config => exact hintact.elim
    | _ => trivial
  obtain ⟨_, _, hcommits⟩ := NodeAction.apply_commits hcalled hcall
  have hdata : crashed.node.config.dataDir = host.node.config.dataDir := by rw [hcommits.config]
  cases call with
  | restart config => exact hintact.elim
  | store auction effects =>
    obtain rfl := NodeAction.apply_store.mp hcall
    rcases storeAuction_disk hsync hintact auction with
      ⟨_, hdisk⟩ | ⟨hok, _, hsynced⟩ | ⟨hok, hdue, hledger, _⟩
    · refine hsettled.winsRecorded.restart hdir ?_ ?_ (List.prefix_refl _)
      · rw [hdisk, hdata]
        exact hsync.auctions
      · rw [hdisk, hdata]
        exact hsync.ledger
    · exact (hsettled.store hok auction).winsRecorded.restart hdir hsynced.auctions
        hsynced.ledger (List.prefix_refl _)
    · exact absurd ⟨hok, hdue, hledger⟩ (hnot auction effects rfl)
  | close now order effects =>
    obtain ⟨horder, rfl⟩ := NodeAction.apply_close.mp hcall
    rcases closeExpiredAuctions_disk hsync hintact now order with
      hsynced | ⟨hstore, _, pre, hledger⟩
    · exact (hsettled.close horder).winsRecorded.restart hdir hsynced.auctions hsynced.ledger
        (List.prefix_refl _)
    · rw [← hdata] at hledger
      refine hsettled.winsRecorded.restart hdir ?_ hledger (prefix_settleAll ..)
      have hloaded := hsync.auctions
      unfold loadAuctions at hloaded ⊢
      rw [hstore, hdata]
      exact hloaded

/-- A crash between the two files: the restart has the new store and the old
ledger. -/
theorem CrashesBetween.restart {crates : Crates} {host : Host} {auction : Auction}
    {effects : Effects} (h : CrashesBetween host auction effects) (hsync : host.Synced)
    (hintact : effects.Intact) {config : Config}
    (hdir : config.dataDir = (host.storeAuction crates effects auction).2.node.config.dataDir) :
    ((host.storeAuction crates effects auction).2.restart config).node.auctions.elems =
        (host.node.auctions.replace auction).elems ∧
      ((host.storeAuction crates effects auction).2.restart config).node.ledger =
        host.node.ledger := by
  obtain ⟨hok, hdue, hnot⟩ := h
  rcases storeAuction_disk hsync hintact auction with
    ⟨hfailed, _⟩ | ⟨_, hwrites, _⟩ | ⟨_, _, _, hdisk⟩
  · exact absurd hok hfailed
  · exact absurd (hwrites hdue) hnot
  · refine ⟨Host.restart_auctions hdir ?_, Host.restart_ledger hdir ?_⟩
    · rw [hdisk]
      rfl
    · exact loadLedger_congr (by rw [hdisk]) hsync.ledger

/-- **Crash recovery**: let a proof-of-work node run from an empty data
directory, crash in a call between any two writes, start again and run one
closing pass. Then every auction of its store with a winner and a winning bid
has a block exactly when the crash was not between the two files of a
`store_auction` that declares a new win. -/
theorem crash_keeps_wins_iff (crates : Crates) {host after : Host} {call : NodeAction}
    {config : Config} {now : Int} {order : List Auction} {effects : Effects}
    (hreach : (nodeSystem crates FreshPow).ReachableUnder (fun _ action => action.AllWritten) host)
    (hintact : call.IntactCall) (hpow : ConsensusMode.fromConfig config = .ProofOfWork)
    (hwritten : effects.AllWritten)
    (hrun : (nodeSystem crates FreshPow).run host
      [call, .restart config, .close now order effects] = some after) :
    after.WinsRecorded ↔ ¬ LosesWin host call now := by
  obtain ⟨hsync, hsettled⟩ := freshPow_invariant hreach
  simp only [System.run, nodeSystem, Option.bind_eq_some_iff, Option.some.injEq, exists_eq_right]
    at hrun
  obtain ⟨crashed, hcall, restarted, hrestart, hclose⟩ := hrun
  obtain ⟨hdir, rfl⟩ := NodeAction.apply_restart.mp hrestart
  obtain ⟨horder, rfl⟩ := NodeAction.apply_close.mp hclose
  rw [closing_winsRecorded_iff hpow hwritten horder]
  by_cases hbetween : ∃ auction effects, call = .store auction effects ∧
      CrashesBetween host auction effects
  · obtain ⟨auction, failing, rfl, hcrash⟩ := hbetween
    obtain rfl := NodeAction.apply_store.mp hcall
    obtain ⟨hstore, hledger⟩ := hcrash.restart hsync hintact hdir
    obtain ⟨win, hwin⟩ := hcrash.2.1.1
    obtain ⟨hwinner, hbid⟩ := Auction.declaredWin_eq_some hwin
    simp only [KeyedSet.mem_def, hstore, hledger]
    constructor
    · rintro hall ⟨_, _, heq, _, hnever⟩
      obtain ⟨rfl, rfl⟩ := NodeAction.store.inj heq
      rcases hall auction (KeyedSet.mem_replace_self _ _) hwinner hbid with hold | hagain
      · exact hcrash.2.1.not_mem_wonKeys hold
      · exact hnever hagain
    · intro hkeeps a ha hw hb
      rcases KeyedSet.mem_replace.mp ha with rfl | ⟨hold, _⟩
      · by_cases hagain : a.status = .Open ∧ a.endsAt ≤ now
        · exact Or.inr hagain
        · exact absurd ⟨a, failing, rfl, hcrash, hagain⟩ hkeeps
      · exact Or.inl (hsettled.winsRecorded a hold hw hb)
  · have hrecorded := restart_winsRecorded hsync hsettled hintact hcall hdir
      fun auction effects heq hcrash => hbetween ⟨auction, effects, heq, hcrash⟩
    refine ⟨fun _ => ?_, fun _ a ha hw hb => Or.inl (hrecorded a ha hw hb)⟩
    rintro ⟨auction, effects, heq, hcrash, _⟩
    exact hbetween ⟨auction, effects, heq, hcrash⟩

/-- A sold watch is stored with these effects; the process starts again, and
runs a closing pass at time 9. -/
def storeAndRecover (effects : Effects) : List NodeAction :=
  [.store soldWatch effects, .restart Config.testConfig, .close 9 [soldWatch] (Effects.calm 9)]

theorem freshPow_sampleHost : FreshPow sampleHost := ⟨_, _, _, _, rfl, rfl⟩

/-- The watch before it is sold; its time is over. -/
def unsoldWatch : Auction := { soldWatch with status := .Open, winner := none, winningBid := none }

def unsoldStored : Host := (sampleHost.storeAuction sampleCrates (Effects.calm 0) unsoldWatch).2

/-- A closing pass cannot write the ledger; the process starts again, and runs
another. -/
def closeAndRecover : List NodeAction :=
  [.close 5 [unsoldWatch] (Effects.ledgerFails 5), .restart Config.testConfig,
    .close 9 [unsoldWatch] (Effects.calm 9)]

theorem crash_keeps_wins_iff_crashed :
    (∃ after, (nodeSystem sampleCrates FreshPow).run unsoldStored closeAndRecover = some after ∧
      unsoldWatch.close ∈ after.node.auctions ∧ after.WinsRecorded) ∧
    ∃ after, (nodeSystem sampleCrates FreshPow).run sampleHost
        (storeAndRecover (Effects.ledgerFails 5)) = some after ∧ ¬ after.WinsRecorded := by
  have hinit : (nodeSystem sampleCrates FreshPow).ReachableUnder
      (fun _ action => action.AllWritten) sampleHost := .init freshPow_sampleHost
  constructor
  · have hintact : (NodeAction.close 5 [unsoldWatch] (Effects.ledgerFails 5)).IntactCall :=
      Effects.intact_ledgerFails 5
    have hstored : (nodeSystem sampleCrates FreshPow).ReachableUnder
        (fun _ action => action.AllWritten) unsoldStored :=
      hinit.step (a := .store unsoldWatch (Effects.calm 0)) (Effects.allWritten_calm 0) rfl
    have hview : ((nodeSystem sampleCrates FreshPow).run unsoldStored closeAndRecover).map
        (fun h => h.node.auctions.elems) = some [unsoldWatch.close] := by
      decide +kernel
    obtain ⟨after, hrun, hafter⟩ := Option.map_eq_some_iff.mp hview
    refine ⟨after, hrun, ?_, (crash_keeps_wins_iff sampleCrates hstored hintact rfl
      (Effects.allWritten_calm 9) hrun).mpr ?_⟩
    · rw [KeyedSet.mem_def, hafter]
      exact List.mem_singleton_self _
    · rintro ⟨_, _, hstore, _⟩
      cases hstore
  · have hintact : (NodeAction.store soldWatch (Effects.ledgerFails 5)).IntactCall :=
      Effects.intact_ledgerFails 5
    have hruns : ((nodeSystem sampleCrates FreshPow).run sampleHost
        (storeAndRecover (Effects.ledgerFails 5))).isSome = true := by
      decide +kernel
    obtain ⟨after, hrun⟩ := Option.isSome_iff_exists.mp hruns
    have hloses : LosesWin sampleHost (.store soldWatch (Effects.ledgerFails 5)) 9 :=
      ⟨soldWatch, Effects.ledgerFails 5, rfl,
        ⟨rfl, ⟨⟨_, rfl⟩, by decide +kernel, by decide +kernel⟩, by decide⟩, by decide⟩
    exact ⟨after, hrun, fun hrecorded => (crash_keeps_wins_iff sampleCrates hinit hintact rfl
      (Effects.allWritten_calm 9) hrun).mp hrecorded hloses⟩

/-- **A crash between the two files loses a win**: the store has the watch
with its winner, the ledger has no block, and the closing pass adds none. -/
theorem crash_between_files_loses_win :
    ¬ ∀ (crates : Crates) (host after : Host) (call : NodeAction) (config : Config) (now : Int)
        (order : List Auction) (effects : Effects),
      (nodeSystem crates FreshPow).ReachableUnder (fun _ action => action.AllWritten) host →
      call.IntactCall → ConsensusMode.fromConfig config = .ProofOfWork → effects.AllWritten →
      (nodeSystem crates FreshPow).run host [call, .restart config, .close now order effects] =
        some after → after.WinsRecorded := by
  intro hclaim
  have hview : ((nodeSystem sampleCrates FreshPow).run sampleHost
      (storeAndRecover (Effects.ledgerFails 5))).map
        (fun h => (h.node.auctions.elems, wonKeys h.node.ledger)) = some ([soldWatch], []) := by
    decide +kernel
  obtain ⟨after, hrun, hafter⟩ := Option.map_eq_some_iff.mp hview
  obtain ⟨hstore, hledger⟩ := Prod.mk.inj hafter
  have hrecorded := hclaim sampleCrates sampleHost after (.store soldWatch (Effects.ledgerFails 5))
    Config.testConfig 9 [soldWatch] (Effects.calm 9) (.init freshPow_sampleHost)
    (Effects.intact_ledgerFails 5) rfl (Effects.allWritten_calm 9) hrun
  have hmem : soldWatch ∈ after.node.auctions := by
    rw [KeyedSet.mem_def, hstore]
    exact List.mem_singleton_self _
  have hkey := hrecorded soldWatch hmem (by decide) (by decide)
  rw [hledger] at hkey
  cases hkey

end KademliaAuction
