/-
KademliaAuction.LedgerHistory — the ledgers that a node has saved, over all
its crashes and restarts.

A crash is a write that ends badly, followed by a restart: a torn write
leaves a file that does not parse, since a JSON array cut short has no
closing bracket, and one that was not begun leaves the old file. `saves`
lists the ledgers that a call saves with success, and `historySystem` runs
calls and restarts with the list of all of them.

`Node::new` starts on an empty ledger when the file does not parse, and the
next commit overwrites the file. `saved_ledgers_extend`: where no restart
reads such a file once a ledger has been saved, each saved ledger extends
all earlier ones. `torn_history_overwritten` is a run with one torn write.
-/
import KademliaAuction.Durability

namespace KademliaAuction

open Blockchain Routing Storage Lib

/-! ## What a call saves -/

/-- The ledgers that taking up several wins saves, in order: the longer one
after each win that pushes its block and does not fail. -/
def Host.savedLedgers (crates : Crates) (effects : Effects) :
    List Auction → Host → List (List Block)
  | [], _ => []
  | auction :: wins, host =>
      match host.recordDeclaredWin crates effects auction with
      | (.error _, _) => []
      | (.ok (), after) =>
          if after.node.ledger = host.node.ledger then savedLedgers crates effects wins after
          else after.node.ledger :: savedLedgers crates effects wins after

/-- The ledgers that an action saves. -/
def NodeAction.saves (crates : Crates) (host : Host) : NodeAction → List (List Block)
  | .store auction effects =>
      if effects.auctionsWrite = .written then
        Host.savedLedgers crates effects [auction] (host.afterReplace auction)
      else []
  | .close now order effects => Host.savedLedgers crates effects (justClosed now order) host
  | .restart _ => []

/-- A host and the ledgers it has saved, oldest first. -/
structure LedgerHistory where
  host : Host
  saved : List (List Block)

/-- Calls with any writes failing or torn, and restarts. -/
def historySystem (crates : Crates) (start : Host) : System LedgerHistory NodeAction where
  Init := fun h => h = { host := start, saved := [] }
  next := fun h action => (action.apply crates h.host).map fun host =>
    { host, saved := h.saved ++ action.saves crates h.host }

/-- A restart finds a ledger file that parses, or no ledger has been saved
yet. -/
def ReadsBack (h : LedgerHistory) (action : NodeAction) : Prop :=
  ∀ config, action = .restart config → h.host.disk.ledger ≠ .garbled ∨ h.saved = []

/-- The saved ledgers extend each other, and the ledger in memory and the one
in the file extend them all. -/
structure LedgerHistory.InOrder (h : LedgerHistory) : Prop where
  saved : h.saved.Pairwise (· <+: ·)
  memory : ∀ ledger ∈ h.saved, ledger <+: h.host.node.ledger
  file : ∀ ledger, loadLedger h.host.node.config.dataDir h.host.disk = .ok ledger →
    ∀ earlier ∈ h.saved, earlier <+: ledger

/-! ## One call -/

section Wins

variable {crates : Crates} {effects : Effects}

/-- What taking up several wins saves: ledgers between the one before and the
one after, each extending the earlier ones; and what the file holds then, if
it parses, extends them all, or it is as it was and nothing was saved. -/
structure SavesInOrder (dataDir : String) (before after : Host) (saved : List (List Block)) :
    Prop where
  between : ∀ ledger ∈ saved, before.node.ledger <+: ledger ∧ ledger <+: after.node.ledger
  pairwise : saved.Pairwise (· <+: ·)
  file : ∀ ledger, loadLedger dataDir after.disk = .ok ledger →
    (saved = [] ∧ loadLedger dataDir before.disk = .ok ledger) ∨
      (before.node.ledger <+: ledger ∧ ∀ earlier ∈ saved, earlier <+: ledger)

theorem SavesInOrder.refl (dataDir : String) (host : Host) : SavesInOrder dataDir host host [] where
  between := by simp
  pairwise := List.Pairwise.nil
  file := fun _ h => Or.inl ⟨rfl, h⟩

/-- The store and its file play no part. -/
theorem SavesInOrder.withAuctions {dataDir : String} {before after : Host}
    {saved : List (List Block)} (h : SavesInOrder dataDir before after saved)
    (auctions : AuctionSet) (file : File Auction) :
    SavesInOrder dataDir before (after.withAuctions auctions file) saved :=
  ⟨h.between, h.pairwise, h.file⟩

/-- A failed save of a longer ledger. -/
theorem SavesInOrder.failed (dataDir : String) (host : Host) (ledger : List Block)
    (outcome : WriteOutcome) :
    SavesInOrder dataDir host (host.withLedger ledger (outcome.leaves host.disk.ledger)) [] where
  between := by simp
  pairwise := List.Pairwise.nil
  file := by
    intro loaded hload
    refine Or.inl ⟨rfl, ?_⟩
    rcases WriteOutcome.leaves_cases host.disk.ledger outcome with hold | hgarbled
    · rw [hold] at hload
      exact hload
    · rw [hgarbled] at hload
      cases hload

/-- A save that succeeds, and then more of them. -/
theorem SavesInOrder.cons {dataDir : String} {host after : Host} {ledger : List Block}
    {saved : List (List Block)} (hgrown : host.node.ledger <+: ledger)
    (hlater : ledger <+: after.node.ledger)
    (h : SavesInOrder dataDir (host.withLedger ledger (.json ledger)) after saved) :
    SavesInOrder dataDir host after (ledger :: saved) where
  between := by
    intro l hl
    rcases List.mem_cons.mp hl with rfl | hl
    · exact ⟨hgrown, hlater⟩
    · exact ⟨hgrown.trans (h.between l hl).1, (h.between l hl).2⟩
  pairwise := List.pairwise_cons.mpr ⟨fun l hl => (h.between l hl).1, h.pairwise⟩
  file := by
    intro loaded hload
    refine Or.inr ?_
    rcases h.file loaded hload with ⟨hnone, hsame⟩ | ⟨hpre, hall⟩
    · obtain rfl : ledger = loaded := Except.ok.inj hsame
      refine ⟨hgrown, fun earlier he => ?_⟩
      rw [hnone, List.mem_singleton] at he
      rw [he]
    · refine ⟨hgrown.trans hpre, fun earlier he => ?_⟩
      rcases List.mem_cons.mp he with rfl | he
      · exact hpre
      · exact hall earlier he

/-- The induction along the wins. -/
theorem savedLedgers_inOrder (crates : Crates) (effects : Effects) (dataDir : String) :
    ∀ (wins : List Auction) (host : Host),
      SavesInOrder dataDir host (Host.recordDeclaredWins crates effects wins host).2
        (Host.savedLedgers crates effects wins host) := by
  intro wins host
  induction wins generalizing host with
  | nil => exact SavesInOrder.refl dataDir host
  | cons auction wins ih =>
    rw [Host.savedLedgers, Host.recordDeclaredWins]
    rcases host.recordDeclaredWin_cases crates effects auction with
      ⟨_, h⟩ | ⟨hdue, _, h⟩ | ⟨_, _, e, h⟩
    · rw [h]
      simp only [if_true]
      exact ih host
    · have hpre : host.node.ledger <+: settle crates effects host.node host.node.ledger auction :=
        prefix_settle ..
      have hnew : settle crates effects host.node host.node.ledger auction ≠ host.node.ledger :=
        settle_ne_of_unsettled hdue
      rw [h]
      simp only [Host.withLedger, hnew, if_false]
      obtain ⟨settled, _, hcommits, _⟩ := Host.recordDeclaredWins_commits crates effects wins
        (host.withLedger (settle crates effects host.node host.node.ledger auction)
          (.json (settle crates effects host.node host.node.ledger auction)))
      exact SavesInOrder.cons hpre hcommits.prefix_ledger (ih _)
    · rw [h]
      exact SavesInOrder.failed dataDir host _ _

end Wins

/-- A call saves what taking up its wins saves. -/
theorem NodeAction.saves_inOrder {crates : Crates} {host host' : Host} {action : NodeAction}
    (hcall : action.IsCall) (h : action.apply crates host = some host') (dataDir : String) :
    SavesInOrder dataDir host host' (action.saves crates host) := by
  cases action with
  | restart config => exact hcall.elim
  | store auction effects =>
    obtain rfl := NodeAction.apply_store.mp h
    simp only [NodeAction.saves]
    rcases host.storeAuction_cases crates effects auction with ⟨hnot, e, hstore⟩ | ⟨hok, hstore⟩
    · rw [hstore, if_neg hnot]
      exact (SavesInOrder.refl dataDir host).withAuctions _ _
    · have hwins : SavesInOrder dataDir (host.afterReplace auction) _ _ :=
        savedLedgers_inOrder crates effects dataDir [auction] (host.afterReplace auction)
      rw [recordDeclaredWins_singleton] at hwins
      rw [hstore, if_pos hok]
      exact ⟨hwins.between, hwins.pairwise, hwins.file⟩
  | close now order effects =>
    obtain ⟨_, rfl⟩ := NodeAction.apply_close.mp h
    have hwins : SavesInOrder dataDir host
        (Host.recordDeclaredWins crates effects (justClosed now order) host).2
        (Host.savedLedgers crates effects (justClosed now order) host) :=
      savedLedgers_inOrder crates effects dataDir (justClosed now order) host
    rcases host.closeExpiredAuctions_cases crates effects now order with
      ⟨e, _, hclose⟩ | ⟨_, ⟨_, hclose⟩ | ⟨_, e, hclose⟩⟩
    · rw [hclose]
      exact hwins
    · rw [hclose]
      exact hwins.withAuctions _ _
    · rw [hclose]
      exact hwins.withAuctions _ _

/-! ## Runs -/

/-- One step keeps the history in order. -/
theorem LedgerHistory.InOrder.step {crates : Crates} {start : Host} {h h' : LedgerHistory}
    {action : NodeAction} (hinv : h.InOrder) (hreads : ReadsBack h action)
    (hnext : (historySystem crates start).next h action = some h') : h'.InOrder := by
  obtain ⟨host, happly, rfl⟩ := Option.map_eq_some_iff.mp hnext
  by_cases hcall : action.IsCall
  · have hsaves := NodeAction.saves_inOrder hcall happly host.node.config.dataDir
    obtain ⟨_, _, hcommits⟩ := NodeAction.apply_commits hcall happly
    have hconfig : host.node.config = h.host.node.config := hcommits.config
    refine ⟨?_, ?_, ?_⟩
    · refine List.pairwise_append.mpr ⟨hinv.saved, hsaves.pairwise, fun earlier he later hl => ?_⟩
      exact (hinv.memory earlier he).trans (hsaves.between later hl).1
    · intro ledger hl
      rcases List.mem_append.mp hl with hold | hnew
      · exact (hinv.memory ledger hold).trans hcommits.prefix_ledger
      · exact (hsaves.between ledger hnew).2
    · intro loaded hload earlier he
      rcases hsaves.file loaded hload with ⟨hnone, hsame⟩ | ⟨hpre, hall⟩
      · rw [hnone, List.append_nil] at he
        rw [hconfig] at hsame
        exact hinv.file loaded hsame earlier he
      · rcases List.mem_append.mp he with hold | hnew
        · exact (hinv.memory earlier hold).trans hpre
        · exact hall earlier hnew
  · cases action with
    | store auction effects => exact absurd trivial hcall
    | close now order effects => exact absurd trivial hcall
    | restart config =>
      obtain ⟨hdir, rfl⟩ := NodeAction.apply_restart.mp happly
      have hload : ∀ earlier ∈ h.saved, earlier <+: (h.host.restart config).node.ledger := by
        intro earlier he
        rcases hreads config rfl with hparses | hnone
        · obtain ⟨ledger, hledger⟩ := exists_loadLedger hparses h.host.node.config.dataDir
          rw [Host.restart_ledger hdir hledger]
          exact hinv.file ledger hledger earlier he
        · rw [hnone] at he
          cases he
      simp only [NodeAction.saves, List.append_nil]
      refine ⟨hinv.saved, hload, fun loaded hloaded => hinv.file loaded ?_⟩
      rw [← hdir]
      exact hloaded

/-- **Saved history survives restarts** where it can be read back: in a run of
calls, crashes and restarts in which no restart finds, after a save, a ledger
file that does not parse, every saved ledger has all earlier ones as
prefixes. -/
theorem saved_ledgers_extend (crates : Crates) (start : Host) {h : LedgerHistory}
    (hreach : (historySystem crates start).ReachableUnder ReadsBack h) :
    h.saved.Pairwise (· <+: ·) := by
  have hinv : h.InOrder := by
    refine hreach.invariant ?_ fun _ _ _ hinv hreads hnext => hinv.step hreads hnext
    rintro h rfl
    exact ⟨List.Pairwise.nil, fun _ hmem => absurd hmem List.not_mem_nil,
      fun _ _ _ hmem => absurd hmem List.not_mem_nil⟩
  exact hinv.saved

/-! Two watches are sold; the write of the second block is torn. -/

/-- Another sold watch. -/
def otherSoldWatch : Auction := { soldWatch with key := Address.ofU256 8 }

/-- A call at time `now` during whose write of the ledger the process
ends. -/
def Effects.ledgerTorn (now : Int) : Effects :=
  { Effects.calm now with ledgerWrite := fun _ => .torn }

/-- Both blocks are written; in between the process starts again. -/
def sellingTwice : List NodeAction :=
  [.store soldWatch (Effects.calm 5), .restart Config.testConfig,
    .store otherSoldWatch (Effects.calm 7)]

/-- The file that the restart finds parses. -/
theorem readsBack_sellingTwice : (historySystem sampleCrates sampleHost).StepsMeet ReadsBack
    { host := sampleHost, saved := [] } sellingTwice := by
  refine ⟨(fun config h => by cases h), fun stored hstored =>
    ⟨fun config _ => Or.inl ?_, fun _ _ => ⟨(fun config h => by cases h), fun _ _ => trivial⟩⟩⟩
  obtain rfl := Option.some.inj hstored
  decide +kernel

theorem saved_ledgers_extend_soldTwice : ∃ h,
    (historySystem sampleCrates sampleHost).run { host := sampleHost, saved := [] } sellingTwice =
        some h ∧ h.saved.length = 2 ∧ h.saved.Pairwise (· <+: ·) := by
  have hrun : ((historySystem sampleCrates sampleHost).run
      { host := sampleHost, saved := [] } sellingTwice).map (fun h => h.saved.length) = some 2 := by
    decide +kernel
  obtain ⟨h, hh, hlength⟩ := Option.map_eq_some_iff.mp hrun
  exact ⟨h, hh, hlength, saved_ledgers_extend sampleCrates sampleHost
    (System.reachableUnder_of_run (.init rfl) readsBack_sellingTwice hh)⟩

/-- The second block is torn, the process starts again, and the second watch
is stored once more. -/
def overwriting : List NodeAction :=
  [.store soldWatch (Effects.calm 5), .store otherSoldWatch (Effects.ledgerTorn 6),
    .restart Config.testConfig, .store otherSoldWatch (Effects.calm 7)]

/-- **A torn write loses the history**: the ledger saved in the end does not
extend the one saved at first. -/
theorem torn_history_overwritten :
    ¬ ∀ (crates : Crates) (start : Host) (h : LedgerHistory),
      (historySystem crates start).Reachable h → h.saved.Pairwise (· <+: ·) := by
  intro hclaim
  have hrun : ((historySystem sampleCrates sampleHost).run
      { host := sampleHost, saved := [] } overwriting).map
        (fun h => decide (h.saved.Pairwise (· <+: ·))) = some false := by
    decide +kernel
  obtain ⟨h, hh, hnot⟩ := Option.map_eq_some_iff.mp hrun
  have hreach : (historySystem sampleCrates sampleHost).Reachable h :=
    System.reachableUnder_of_run (.init rfl) (System.stepsMeet_of_forall _ _ fun _ _ _ => trivial) hh
  exact absurd (hclaim sampleCrates sampleHost h hreach) (of_decide_eq_false hnot)

end KademliaAuction
