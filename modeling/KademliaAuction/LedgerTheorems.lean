/-
KademliaAuction.LedgerTheorems — the ledger of one node, over all its runs.

A run is a sequence of `store_auction` and `close_expired_auctions` calls
with any values, clock readings, iteration orders and write failures, and of
restarts that read the saved files again (`nodeSystem`).

`ledger_chain` is the chain invariant: whatever the run, the ledger in memory
is a well-linked chain of one-transaction blocks with no auction settled
twice, and a call only appends to it. The ledger file takes part in the
induction: it never holds anything but such a chain, since each save writes a
ledger the node had (`Commits.file`).

`wins_settled_once` is the other direction, for proof-of-work nodes whose
writes succeed: every auction in the store with a winner has its block.
-/
import KademliaAuction.Lib.HashChain
import KademliaAuction.Lib.Transition
import KademliaAuction.NodeTheorems

namespace KademliaAuction

open Blockchain Routing Storage Lib

/-! ## Runs of a node -/

/-- A call of one of the two methods that write, or a restart. -/
inductive NodeAction where
  | store (auction : Auction) (effects : Effects)
  | close (now : Int) (order : List Auction) (effects : Effects)
  | restart (config : Config)

/-- The host after an action. A closing pass runs through the store in some
order, and a restart finds the same data directory. -/
def NodeAction.apply (crates : Crates) (host : Host) : NodeAction → Option Host
  | .store auction effects => some (host.storeAuction crates effects auction).2
  | .close now order effects =>
      if order.Perm host.node.auctions.elems then
        some (host.closeExpiredAuctions crates effects now order).2
      else none
  | .restart config =>
      if config.dataDir = host.node.config.dataDir then some (host.restart config) else none

section Apply

variable {crates : Crates} {host host' : Host}

@[simp] theorem NodeAction.apply_store {auction : Auction} {effects : Effects} :
    (NodeAction.store auction effects).apply crates host = some host' ↔
      (host.storeAuction crates effects auction).2 = host' := by
  simp [NodeAction.apply]

@[simp] theorem NodeAction.apply_close {now : Int} {order : List Auction} {effects : Effects} :
    (NodeAction.close now order effects).apply crates host = some host' ↔
      order.Perm host.node.auctions.elems ∧
        (host.closeExpiredAuctions crates effects now order).2 = host' := by
  simp [NodeAction.apply]

@[simp] theorem NodeAction.apply_restart {config : Config} :
    (NodeAction.restart config).apply crates host = some host' ↔
      config.dataDir = host.node.config.dataDir ∧ host.restart config = host' := by
  simp [NodeAction.apply]

end Apply

/-- The action is a call, not a restart. -/
def NodeAction.IsCall : NodeAction → Prop
  | .store .. => True
  | .close .. => True
  | .restart _ => False

/-- The action is a call whose writes all succeed. -/
def NodeAction.AllWritten : NodeAction → Prop
  | .store _ effects => effects.AllWritten
  | .close _ _ effects => effects.AllWritten
  | .restart _ => False

/-- One node and its data directory, from the given hosts on. -/
def nodeSystem (crates : Crates) (Init : Host → Prop) : System Host NodeAction where
  Init := Init
  next := fun host action => action.apply crates host

/-! ## The chain invariant -/

/-- The auction keys of the `AuctionWon` transactions of a ledger. -/
def wonKeys (ledger : List Block) : List Address :=
  ledger.flatMap fun block => block.transactions.filterMap Transaction.wonKey?

/-- What the ledger of a node always is. -/
structure ChainInvariant (crates : Crates) (ledger : List Block) : Prop where
  index : ∀ (i : Nat) (hi : i < ledger.length), ledger[i].index = i
  firstHash : ∀ h : 0 < ledger.length, ledger[0].previousHash = 0
  previousHash : ∀ (i : Nat) (hi : i + 1 < ledger.length), ledger[i + 1].previousHash = ledger[i].hash
  hash : ∀ block ∈ ledger, block.hash = block.calculateHash crates
  single : ∀ block ∈ ledger, ∃ tx key, block.transactions = [tx] ∧ tx.kind = .auctionWon key
  once : (wonKeys ledger).Nodup

/-- All transactions of a ledger. -/
def transactions (ledger : List Block) : List Transaction := ledger.flatMap Block.transactions

theorem recordsWin_eq_true {ledger : List Block} {key : Address} :
    recordsWin ledger key = true ↔ key ∈ wonKeys ledger := by
  simp [recordsWin, wonKeys]

@[simp] theorem wonKey?_auctionWon (auction seller winner : Address) (winningBid : Nat) :
    (Transaction.auctionWon auction seller winner winningBid).wonKey? = some auction := rfl

theorem wonKeys_concat_winBlock (crates : Crates) (effects : Effects) (ledger before : List Block)
    (auction seller winner : Address) (winningBid : Nat) :
    wonKeys (ledger ++ [winBlock crates effects before auction seller winner winningBid]) =
      wonKeys ledger ++ [auction] := by
  simp [wonKeys, winBlock]

/-- The keys of the wins after one settlement. -/
theorem wonKeys_settle (crates : Crates) (effects : Effects) (node : Node) (ledger : List Block)
    (auction : Auction) :
    wonKeys (settle crates effects node ledger auction) = wonKeys ledger ∨
      (auction.key ∉ wonKeys ledger ∧
        wonKeys (settle crates effects node ledger auction) = wonKeys ledger ++ [auction.key]) := by
  rcases settle_cases crates effects node ledger auction with ⟨h, _⟩ | ⟨_, _, _, hnew, _, h⟩
  · rw [h]
    exact Or.inl rfl
  · rw [h, wonKeys_concat_winBlock]
    refine Or.inr ⟨fun hmem => ?_, rfl⟩
    rw [recordsWin_eq_true.mpr hmem] at hnew
    cases hnew

section Settle

variable {crates : Crates} {effects : Effects}

/-- What settling adds to a ledger: declared wins of auctions that had no
block. -/
theorem exists_appended (crates : Crates) (effects : Effects) (node : Node) (ledger : List Block)
    (wins : List Auction) :
    ∃ appended, settleAll crates effects node ledger wins = ledger ++ appended ∧
      ∀ tx ∈ transactions appended, ∃ auction ∈ wins, ∃ winner winningBid,
        auction.declaredWin = some (winner, winningBid) ∧ recordsWin ledger auction.key = false ∧
          tx = Transaction.auctionWon auction.key auction.seller winner winningBid := by
  induction wins generalizing ledger with
  | nil => exact ⟨[], (List.append_nil ledger).symm, fun tx htx => nomatch htx⟩
  | cons auction wins ih =>
    obtain ⟨later, hlater, hall⟩ := ih (settle crates effects node ledger auction)
    have hgrown : ∀ key, recordsWin (settle crates effects node ledger auction) key = false →
        recordsWin ledger key = false := by
      intro key hkey
      rw [Bool.eq_false_iff] at hkey ⊢
      intro hrec
      obtain ⟨block, hblock, hany⟩ := List.any_eq_true.mp hrec
      exact hkey (List.any_eq_true.mpr ⟨block, (prefix_settle node ledger auction).subset hblock, hany⟩)
    have hrest : ∀ tx ∈ transactions later, ∃ a ∈ auction :: wins, ∃ winner winningBid,
        a.declaredWin = some (winner, winningBid) ∧ recordsWin ledger a.key = false ∧
          tx = Transaction.auctionWon a.key a.seller winner winningBid := by
      intro tx htx
      obtain ⟨a, ha, winner, winningBid, hwin, hnew, heq⟩ := hall tx htx
      exact ⟨a, List.mem_cons_of_mem _ ha, winner, winningBid, hwin, hgrown _ hnew, heq⟩
    rw [settleAll_cons]
    rcases settle_cases crates effects node ledger auction with
      ⟨heq, _⟩ | ⟨winner, winningBid, hwin, hnew, _, heq⟩
    · rw [heq] at hlater ⊢
      exact ⟨later, hlater, hrest⟩
    · rw [heq] at hlater ⊢
      rw [List.append_assoc] at hlater
      refine ⟨_, hlater, fun tx htx => ?_⟩
      rw [transactions, List.flatMap_append, List.mem_append] at htx
      rcases htx with hfirst | hlaterTx
      · exact ⟨auction, List.mem_cons_self, winner, winningBid, hwin, hnew,
          by simpa [winBlock] using hfirst⟩
      · exact hrest tx hlaterTx

/-- Where a transaction of the ledger comes from: it was there before, or it
is the declared win of an auction that had no block yet. -/
theorem mem_transactions_settleAll {node : Node} {ledger : List Block} {wins : List Auction}
    {tx : Transaction} (h : tx ∈ transactions (settleAll crates effects node ledger wins)) :
    tx ∈ transactions ledger ∨
      ∃ auction ∈ wins, ∃ winner winningBid, auction.declaredWin = some (winner, winningBid) ∧
        recordsWin ledger auction.key = false ∧
        tx = Transaction.auctionWon auction.key auction.seller winner winningBid := by
  obtain ⟨appended, happended, hall⟩ := exists_appended crates effects node ledger wins
  rw [happended, transactions, List.flatMap_append, List.mem_append] at h
  rcases h with hold | hnew
  · exact Or.inl hold
  · exact Or.inr (hall tx hnew)

theorem nodup_wonKeys_settle {node : Node} {ledger : List Block} {auction : Auction}
    (h : (wonKeys ledger).Nodup) : (wonKeys (settle crates effects node ledger auction)).Nodup := by
  rcases wonKeys_settle crates effects node ledger auction with
    hsame | ⟨hnew, hadd⟩
  · rw [hsame]
    exact h
  · rw [hadd, List.nodup_append]
    refine ⟨h, List.nodup_singleton _, fun a ha b hb hab => ?_⟩
    rw [List.mem_singleton] at hb
    exact hnew (hb ▸ hab ▸ ha)

theorem chainInvariant_nil (crates : Crates) : ChainInvariant crates [] where
  index := fun i hi => nomatch hi
  firstHash := fun h => nomatch h
  previousHash := fun i hi => nomatch hi
  hash := by simp
  single := by simp
  once := List.nodup_nil

theorem ChainInvariant.linked {ledger : List Block} (h : ChainInvariant crates ledger) :
    HashChain.Linked Block.previousHash Block.hash 0 ledger :=
  HashChain.linked_iff_getElem.mpr ⟨h.firstHash, h.previousHash⟩

/-- Settling keeps the chain: a new block has the next index and names the
last hash. -/
theorem ChainInvariant.settle {node : Node} {ledger : List Block}
    (h : ChainInvariant crates ledger) (auction : Auction) :
    ChainInvariant crates (settle crates effects node ledger auction) := by
  have honce : (wonKeys (KademliaAuction.settle crates effects node ledger auction)).Nodup :=
    nodup_wonKeys_settle h.once
  rcases settle_cases crates effects node ledger auction with
    ⟨heq, _⟩ | ⟨winner, winningBid, _, _, _, heq⟩
  · rw [heq]
    exact h
  · rw [heq] at honce ⊢
    generalize hblock : winBlock crates effects ledger auction.key auction.seller winner winningBid =
      block at honce ⊢
    have hlinked : HashChain.Linked Block.previousHash Block.hash 0 (ledger ++ [block]) := by
      rw [HashChain.linked_concat]
      refine ⟨h.linked, ?_⟩
      rw [← hblock]
      rfl
    obtain ⟨hfirst, hnext⟩ := HashChain.linked_iff_getElem.mp hlinked
    refine ⟨?_, hfirst, hnext, ?_, ?_, honce⟩
    · intro i hi
      rw [List.getElem_append]
      split
      · exact h.index i _
      · simp only [List.length_append, List.length_singleton] at hi
        simp only [List.getElem_singleton, ← hblock, winBlock, Block.new_index]
        omega
    · intro b hb
      rcases List.mem_append.mp hb with hb | hb
      · exact h.hash b hb
      · rw [List.mem_singleton.mp hb, ← hblock]
        exact Block.new_hash ..
    · intro b hb
      rcases List.mem_append.mp hb with hb | hb
      · exact h.single b hb
      · rw [List.mem_singleton.mp hb, ← hblock]
        exact ⟨_, _, rfl, rfl⟩

theorem ChainInvariant.settleAll {node : Node} {ledger : List Block}
    (h : ChainInvariant crates ledger) (wins : List Auction) :
    ChainInvariant crates (settleAll crates effects node ledger wins) :=
  settleAll_induction h fun _ auction _ hledger => hledger.settle auction

end Settle

/-! ## Every reachable ledger -/

/-- The settlements of a call that is not a restart. -/
theorem NodeAction.apply_commits {crates : Crates} {host host' : Host} {action : NodeAction}
    (hcall : action.IsCall) (h : action.apply crates host = some host') :
    ∃ effects settled, Commits crates effects host host' settled := by
  cases action with
  | store auction effects =>
    obtain ⟨_, ⟨settled, _, hcommits, _⟩, _⟩ :=
      host.storeAuction_commits crates effects auction
    exact ⟨effects, settled, NodeAction.apply_store.mp h ▸ hcommits⟩
  | close now order effects =>
    obtain ⟨settled, _, hcommits, _⟩ :=
      host.closeExpiredAuctions_commits crates effects now order
    exact ⟨effects, settled, (NodeAction.apply_close.mp h).2 ▸ hcommits⟩
  | restart config => exact hcall.elim

/-- The ledger in memory and the one a restart would find are chains. -/
structure LedgersChained (crates : Crates) (host : Host) : Prop where
  memory : ChainInvariant crates host.node.ledger
  file : ∀ ledger, host.disk.ledger = .json ledger → ChainInvariant crates ledger

/-- What a restart loads from a file. -/
theorem restart_ledger_cases (host : Host) (config : Config) :
    (host.restart config).node.ledger = [] ∨
      host.disk.ledger = .json (host.restart config).node.ledger := by
  simp only [Host.restart, Node.new, loadLedger]
  cases host.disk.ledger with
  | absent => exact Or.inl rfl
  | json ledger => exact Or.inr rfl
  | garbled => exact Or.inl rfl

theorem LedgersChained.commits {crates : Crates} {effects : Effects} {host host' : Host}
    {wins : List Auction} (hinv : LedgersChained crates host)
    (h : Commits crates effects host host' wins) : LedgersChained crates host' where
  memory := by
    rw [h.ledger]
    exact hinv.memory.settleAll wins
  file := by
    intro ledger hledger
    rcases h.file with hold | hgarbled | ⟨pre, _, hnew⟩
    · exact hinv.file ledger (hold.symm.trans hledger)
    · rw [hgarbled] at hledger
      cases hledger
    · rw [hnew] at hledger
      obtain rfl : settleAll crates effects host.node host.node.ledger pre = ledger :=
        File.json.inj hledger
      exact hinv.memory.settleAll pre

theorem LedgersChained.step {crates : Crates} {host host' : Host} {action : NodeAction}
    (hinv : LedgersChained crates host) (h : action.apply crates host = some host') :
    LedgersChained crates host' := by
  by_cases hcall : action.IsCall
  · obtain ⟨effects, settled, hcommits⟩ := NodeAction.apply_commits hcall h
    exact hinv.commits hcommits
  · cases action with
    | store auction effects => exact absurd trivial hcall
    | close now order effects => exact absurd trivial hcall
    | restart config =>
      obtain ⟨_, rfl⟩ := NodeAction.apply_restart.mp h
      refine ⟨?_, hinv.file⟩
      rcases restart_ledger_cases host config with hempty | hloaded
      · rw [hempty]
        exact chainInvariant_nil crates
      · exact hinv.file _ hloaded

/-- A node that starts with an empty ledger, in memory and on disk. -/
def EmptyLedger (host : Host) : Prop :=
  host.node.ledger = [] ∧ ∀ ledger, host.disk.ledger = .json ledger → ledger = []

/-- **The ledger is an append-only hash chain**: in every run from an empty
ledger, with restarts and failing writes, the ledger in memory is a chain of
one-win blocks that settles no auction twice, and no call changes what it
already holds. -/
theorem ledger_chain (crates : Crates) {host : Host}
    (h : (nodeSystem crates EmptyLedger).Reachable host) :
    ChainInvariant crates host.node.ledger ∧
      ∀ (action : NodeAction) (host' : Host), action.IsCall →
        (nodeSystem crates EmptyLedger).next host action = some host' →
        host.node.ledger <+: host'.node.ledger := by
  have hinv : LedgersChained crates host := by
    refine h.invariant ?_ fun _ _ _ hinv _ hnext => hinv.step hnext
    intro host ⟨hmemory, hfile⟩
    refine ⟨by rw [hmemory]; exact chainInvariant_nil crates, fun ledger hledger => ?_⟩
    rw [hfile ledger hledger]
    exact chainInvariant_nil crates
  refine ⟨hinv.memory, fun action host' hcall hnext => ?_⟩
  obtain ⟨_, _, hcommits⟩ := NodeAction.apply_commits hcall hnext
  exact hcommits.prefix_ledger

/-! A node that has stored one sold watch, and one that stores two and
restarts in between. -/

/-- A digest and a text that do not look at their input. -/
def sampleCrates : Crates where
  sha256 := fun _ => 0
  blockToString := fun _ => ""

/-- A call whose writes succeed, at time `now`. -/
def Effects.calm (now : Int) : Effects where
  auctionsWrite := .written
  ledgerWrite := fun _ => .written
  clock := fun _ => now

theorem Effects.allWritten_calm (now : Int) : (Effects.calm now).AllWritten :=
  ⟨rfl, fun _ => rfl⟩

def sampleHost : Host := Host.fresh (Address.ofU256 1) "127.0.0.1" 8000 Config.testConfig

/-- An auction that arrives closed, with its winner. -/
def soldWatch : Auction where
  key := Address.ofU256 7
  object := "mechanical watch"
  initialValue := 100
  seller := Address.ofU256 1
  bids := [{ buyer := Address.ofU256 2, auction := Address.ofU256 7, amount := 125 }]
  status := .Closed
  createdAt := 0
  endsAt := 1
  winner := some (Address.ofU256 2)
  winningBid := some 125

def watchStored : Host := (sampleHost.storeAuction sampleCrates (Effects.calm 5) soldWatch).2

/-- A text that shows the numbers of a block and the amounts of its
transactions, and a short digest that weighs every byte. -/
def readingCrates : Crates where
  sha256 := fun bytes => BitVec.ofNat 256 (bytes.foldl (fun n b => (31 * n + b.toNat) % 65521) 1)
  blockToString := fun block =>
    block.transactions.foldl (fun text tx => text ++ "," ++ toString tx.amount)
      (toString block.index ++ "," ++ toString block.timestamp ++ "," ++ toString block.nonce ++ "," ++
        toString block.previousHash.toNat)

/-- Two wins on a node that restarts between them. -/
def sold2Restarted : Host :=
  ((((Host.fresh (Address.ofU256 3) "127.0.0.1" 8003 Config.testConfig).storeAuction readingCrates
    (Effects.calm 5) soldWatch).2.restart Config.testConfig).storeAuction readingCrates
      (Effects.calm 6) { soldWatch with key := Address.ofU256 8 }).2

theorem reachable_store {crates : Crates} {Init : Host → Prop} {host : Host} {auction : Auction}
    {effects : Effects} (h : (nodeSystem crates Init).Reachable host) :
    (nodeSystem crates Init).Reachable (host.storeAuction crates effects auction).2 :=
  .step (a := .store auction effects) h trivial rfl

theorem reachable_restart {crates : Crates} {Init : Host → Prop} {host : Host} {config : Config}
    (h : (nodeSystem crates Init).Reachable host)
    (hdir : config.dataDir = host.node.config.dataDir) :
    (nodeSystem crates Init).Reachable (host.restart config) := by
  have hnext : (NodeAction.restart config).apply crates host = some (host.restart config) :=
    NodeAction.apply_restart.mpr ⟨hdir, rfl⟩
  exact .step (a := .restart config) h trivial hnext

theorem reachable_sold2Restarted :
    (nodeSystem readingCrates EmptyLedger).Reachable sold2Restarted := by
  have hinit : (nodeSystem readingCrates EmptyLedger).Init
      (Host.fresh (Address.ofU256 3) "127.0.0.1" 8003 Config.testConfig) :=
    ⟨rfl, fun _ hledger => nomatch hledger⟩
  exact reachable_store (reachable_restart (reachable_store (.init hinit)) rfl)

theorem ledger_chain_sold2Restarted :
    sold2Restarted.node.ledger.length = 2 ∧
      ChainInvariant readingCrates sold2Restarted.node.ledger ∧
      ∀ (action : NodeAction) (host' : Host), action.IsCall →
        (nodeSystem readingCrates EmptyLedger).next sold2Restarted action = some host' →
        sold2Restarted.node.ledger <+: host'.node.ledger :=
  ⟨by decide +kernel, ledger_chain readingCrates reachable_sold2Restarted⟩

/-! ## Two ledgers -/

/-- What is hashed of a block. -/
def Blockchain.Block.hashable (block : Block) : Block := { block with hash := 0 }

/-- The last block knows the length. -/
theorem ChainInvariant.index_getLast {crates : Crates} {ledger : List Block}
    (h : ChainInvariant crates ledger) {b : Block} (hb : ledger.getLast? = some b) :
    b.index + 1 = ledger.length := by
  obtain ⟨before, rfl⟩ := List.getLast?_eq_some_iff.mp hb
  have hindex := h.index before.length (by simp)
  rw [List.getElem_concat_length rfl] at hindex
  simp [hindex]

/-- **Ledgers are tamper-evident**: two ledgers of any runs of two nodes that
end with the same hash are equal, if neither the texts of their blocks nor the
digests of these texts collide. -/
theorem ledger_eq_of_last_hash (crates : Crates) {host host' : Host}
    (h : (nodeSystem crates EmptyLedger).Reachable host)
    (h' : (nodeSystem crates EmptyLedger).Reachable host')
    (htext : ∀ b ∈ host.node.ledger, ∀ c ∈ host'.node.ledger,
      crates.blockToString b.hashable = crates.blockToString c.hashable → b.hashable = c.hashable)
    (hdigest : ∀ b ∈ host.node.ledger, ∀ c ∈ host'.node.ledger,
      hashStr crates (crates.blockToString b.hashable) =
        hashStr crates (crates.blockToString c.hashable) →
          crates.blockToString b.hashable = crates.blockToString c.hashable)
    {b c : Block} (hb : host.node.ledger.getLast? = some b) (hc : host'.node.ledger.getLast? = some c)
    (hlast : b.hash = c.hash) : host.node.ledger = host'.node.ledger := by
  obtain ⟨hchain, _⟩ := ledger_chain crates h
  obtain ⟨hchain', _⟩ := ledger_chain crates h'
  -- The digest covers every field but the hash itself.
  have htell : ∀ b ∈ host.node.ledger, ∀ c ∈ host'.node.ledger, b.hash = c.hash → b = c := by
    intro b hb c hc hhash
    have hcalculated : b.calculateHash crates = c.calculateHash crates := by
      rw [← hchain.hash b hb, ← hchain'.hash c hc, hhash]
    have hfields := htext b hb c hc (hdigest b hb c hc hcalculated)
    calc b = { b.hashable with hash := b.hash } := rfl
      _ = { c.hashable with hash := c.hash } := by rw [hfields, hhash]
      _ = c := rfl
  have hsame : b = c := htell b (List.mem_of_getLast? hb) c (List.mem_of_getLast? hc) hlast
  have hlength : host.node.ledger.length = host'.node.ledger.length := by
    rw [← hchain.index_getLast hb, ← hchain'.index_getLast hc, hsame]
  refine hchain.linked.eq_of_tip_eq hchain'.linked hlength htell ?_
  rw [HashChain.tip, HashChain.tip, hb, hc, hsame]

/-- The same on another node, in one process. -/
def sold2 : Host :=
  ((sampleHost.storeAuction readingCrates (Effects.calm 5) soldWatch).2.storeAuction readingCrates
    (Effects.calm 6) { soldWatch with key := Address.ofU256 8 }).2

theorem reachable_sold2 : (nodeSystem readingCrates EmptyLedger).Reachable sold2 := by
  have hinit : (nodeSystem readingCrates EmptyLedger).Init sampleHost :=
    ⟨rfl, fun _ hledger => nomatch hledger⟩
  exact reachable_store (reachable_store (.init hinit))

theorem ledger_eq_sold2 : sold2.node.ledger = sold2Restarted.node.ledger :=
  ledger_eq_of_last_hash readingCrates reachable_sold2 reachable_sold2Restarted
    (by decide +kernel) (by decide +kernel)
    (b := sold2.node.ledger.getLast (by decide +kernel))
    (c := sold2Restarted.node.ledger.getLast (by decide +kernel))
    (List.getLast?_eq_some_getLast _) (List.getLast?_eq_some_getLast _) (by decide +kernel)

/-! ## Every win is settled -/

section Pow

variable {crates : Crates} {effects : Effects} {node : Node}

theorem wonKeys_mono {ledger ledger' : List Block} (h : ledger <+: ledger') :
    wonKeys ledger ⊆ wonKeys ledger' := by
  obtain ⟨rest, rfl⟩ := h
  intro key hkey
  rw [wonKeys, List.flatMap_append]
  exact List.mem_append_left _ hkey

/-- In proof-of-work mode a declared win is in the ledger once it has been
taken up. -/
theorem mem_wonKeys_settle (hpow : ConsensusMode.fromConfig node.config = .ProofOfWork)
    {ledger : List Block} {auction : Auction} {win : Address × Nat}
    (hwin : auction.declaredWin = some win) :
    auction.key ∈ wonKeys (settle crates effects node ledger auction) := by
  rcases settle_cases crates effects node ledger auction with ⟨h, hwhy⟩ | ⟨_, _, _, _, _, h⟩
  · rw [h]
    rcases hwhy win hwin with hrec | hrep
    · exact recordsWin_eq_true.mp hrec
    · rw [hasReputationToCommit_of_pow hpow] at hrep
      cases hrep
  · rw [h, wonKeys_concat_winBlock]
    exact List.mem_append_right _ (List.mem_singleton_self _)

theorem mem_wonKeys_settleAll (hpow : ConsensusMode.fromConfig node.config = .ProofOfWork)
    {ledger : List Block} {wins : List Auction} {auction : Auction} (hmem : auction ∈ wins)
    {win : Address × Nat} (hwin : auction.declaredWin = some win) :
    auction.key ∈ wonKeys (settleAll crates effects node ledger wins) := by
  obtain ⟨before, after, rfl⟩ := List.append_of_mem hmem
  have hsplit : settleAll crates effects node ledger (before ++ auction :: after) =
      settleAll crates effects node (settle crates effects node
        (settleAll crates effects node ledger before) auction) after := by
    simp [settleAll]
  rw [hsplit]
  exact wonKeys_mono (prefix_settleAll node _ after) (mem_wonKeys_settle hpow hwin)

end Pow

theorem nodup_wonKeys_settleAll {crates : Crates} {effects : Effects} {node : Node}
    {ledger : List Block} (h : (wonKeys ledger).Nodup) (wins : List Auction) :
    (wonKeys (settleAll crates effects node ledger wins)).Nodup :=
  settleAll_induction (P := fun ledger => (wonKeys ledger).Nodup) h fun _ _ _ hledger =>
    nodup_wonKeys_settle hledger

theorem Auction.declaredWin_isSome {auction : Auction} (hwinner : auction.winner ≠ none)
    (hbid : auction.winningBid ≠ none) : ∃ win, auction.declaredWin = some win := by
  obtain ⟨winner, hwinner⟩ := Option.ne_none_iff_exists'.mp hwinner
  obtain ⟨winningBid, hbid⟩ := Option.ne_none_iff_exists'.mp hbid
  exact ⟨(winner, winningBid), by simp [declaredWin, hwinner, hbid]⟩

/-- A proof-of-work node whose store has no unsettled win. -/
structure AllSettled (host : Host) : Prop where
  pow : ConsensusMode.fromConfig host.node.config = .ProofOfWork
  once : (wonKeys host.node.ledger).Nodup
  settled : ∀ auction ∈ host.node.auctions, ∀ win, auction.declaredWin = some win →
    auction.key ∈ wonKeys host.node.ledger

/-- A call that settles `wins` keeps the invariant when every auction of the
new store is an old one or one of `wins`. -/
theorem AllSettled.commits {crates : Crates} {effects : Effects} {host host' : Host}
    {wins : List Auction} (hinv : AllSettled host) (h : Commits crates effects host host' wins)
    (hstore : ∀ auction ∈ host'.node.auctions, auction ∈ host.node.auctions ∨ auction ∈ wins) :
    AllSettled host' where
  pow := by
    rw [h.config]
    exact hinv.pow
  once := by
    rw [h.ledger]
    exact nodup_wonKeys_settleAll hinv.once wins
  settled := by
    intro auction hmem win hwin
    rcases hstore auction hmem with hold | hnew
    · exact wonKeys_mono h.prefix_ledger (hinv.settled auction hold win hwin)
    · rw [h.ledger]
      exact mem_wonKeys_settleAll hinv.pow hnew hwin

/-- `store_auction` takes up the win of the auction once it has written the
store. -/
theorem AllSettled.store {crates : Crates} {effects : Effects} {host : Host} (hinv : AllSettled host)
    (hwritten : effects.auctionsWrite = .written) (auction : Auction) :
    AllSettled (host.storeAuction crates effects auction).2 := by
  obtain ⟨_, ⟨settled, _, hcommits, hall⟩, _⟩ :=
    host.storeAuction_commits crates effects auction
  refine hinv.commits hcommits fun a ha => ?_
  rw [hall hwritten, List.mem_singleton]
  rcases Host.mem_storeAuction.mp ha with hnew | ⟨hold, _⟩
  · exact Or.inr hnew
  · exact Or.inl hold

/-- A closing pass replaces the store only when it has taken up all its
wins. -/
theorem AllSettled.close {crates : Crates} {effects : Effects} {host : Host} (hinv : AllSettled host)
    {now : Int} {order : List Auction} (horder : order.Perm host.node.auctions.elems) :
    AllSettled (host.closeExpiredAuctions crates effects now order).2 := by
  obtain ⟨settled, _, hcommits, hstore, _⟩ :=
    host.closeExpiredAuctions_commits crates effects now order
  refine hinv.commits hcommits fun a ha => ?_
  rcases hstore with hsame | ⟨hsettled, hauctions⟩
  · rw [hsame] at ha
    exact Or.inl ha
  · rw [hauctions, Host.mem_collect_closeIfExpired horder] at ha
    obtain ⟨before, hbefore, rfl⟩ := ha
    rcases before.closeIfExpired_cases now with ⟨hkept, _⟩ | ⟨hclosed, hopen, hdue⟩
    · rw [hkept]
      exact Or.inl hbefore
    · rw [hclosed, hsettled, mem_justClosed]
      exact Or.inr ⟨before, horder.mem_iff.mpr hbefore, hopen, hdue, rfl⟩

theorem AllSettled.step {crates : Crates} {host host' : Host} {action : NodeAction}
    (hinv : AllSettled host) (hwritten : action.AllWritten)
    (h : action.apply crates host = some host') : AllSettled host' := by
  cases action with
  | restart config => exact hwritten.elim
  | store auction effects =>
    obtain rfl := NodeAction.apply_store.mp h
    exact hinv.store hwritten.1 auction
  | close now order effects =>
    obtain ⟨horder, rfl⟩ := NodeAction.apply_close.mp h
    exact hinv.close horder

/-- A proof-of-work node with nothing in its store and its ledger. -/
def EmptyPow (host : Host) : Prop :=
  ConsensusMode.fromConfig host.node.config = .ProofOfWork ∧ host.node.auctions.elems = [] ∧
    host.node.ledger = []

/-- **Every win is settled exactly once**: in every run of a proof-of-work
node whose writes succeed, an auction of the store with a winner and a
winning bid has one `AuctionWon` transaction in the ledger. -/
theorem wins_settled_once (crates : Crates) {host : Host}
    (h : (nodeSystem crates EmptyPow).ReachableUnder (fun _ action => action.AllWritten) host) :
    ∀ auction ∈ host.node.auctions, auction.winner ≠ none → auction.winningBid ≠ none →
      (wonKeys host.node.ledger).count auction.key = 1 := by
  have hinv : AllSettled host := by
    refine h.invariant ?_ fun _ _ _ hinv hwritten hnext => hinv.step hwritten hnext
    intro host ⟨hpow, hstore, hledger⟩
    refine ⟨hpow, by rw [hledger]; exact List.nodup_nil, fun auction hmem => ?_⟩
    rw [KeyedSet.mem_def, hstore] at hmem
    cases hmem
  intro auction hmem hwinner hbid
  obtain ⟨win, hwin⟩ := Auction.declaredWin_isSome hwinner hbid
  exact List.count_eq_one_of_mem hinv.once (hinv.settled auction hmem win hwin)

theorem wins_settled_once_watchStored :
    soldWatch ∈ watchStored.node.auctions ∧
      (wonKeys watchStored.node.ledger).count soldWatch.key = 1 := by
  have hinit : (nodeSystem sampleCrates EmptyPow).Init sampleHost := ⟨rfl, rfl, rfl⟩
  have hmem : soldWatch ∈ watchStored.node.auctions := by
    unfold watchStored
    exact Host.mem_storeAuction_self
  refine ⟨hmem, wins_settled_once sampleCrates (.step (a := .store soldWatch (Effects.calm 5))
    (.init hinit) (Effects.allWritten_calm 5) rfl) soldWatch hmem ?_ ?_⟩
  · decide
  · decide

end KademliaAuction
