/-
KademliaAuction.Storage — the two JSON files of a node (`src/storage.rs`).

A file is modelled by what reading it gives: nothing there, a list of
values, or a text that does not parse. `serde_json` is taken to read back
what it wrote. How a write ends is decided outside the program: a
`WriteOutcome` says at which step of `write_json` it failed, if at all, and
what that leaves in the file.
-/
import KademliaAuction.Auction

namespace KademliaAuction.Storage

open Blockchain

/-- What a file of values holds. -/
inductive File (α : Type) where
  | absent
  | json (values : List α)
  | garbled
  deriving DecidableEq

/-- The data directory of a node. -/
structure DataDir where
  auctions : File Auction
  ledger : File Block

/-- How a call of `write_json` ends: well, with the directory not created,
with the file not opened, or with the write broken off. -/
inductive WriteOutcome where
  | written
  | dirFailed
  | openFailed
  | torn
  deriving DecidableEq, Repr

def auctionsFile : String := "auctions.json"

def ledgerFile : String := "ledger.json"

/-- `Path::new(dir).join(file)`, displayed. -/
def joinPath (dir file : String) : String :=
  if dir = "" ∨ dir.endsWith "/" then dir ++ file else dir ++ "/" ++ file

/-- `read_json`: a missing file is an empty list. -/
def readJson {α : Type} (path : String) : File α → Except String (List α)
  | .absent => .ok []
  | .json values => .ok values
  | .garbled => .error s!"Failed to parse {path}"

/-- `write_json` of `values` to the file `old`. -/
def writeJson {α : Type} (dir path : String) (old : File α) (values : List α) :
    WriteOutcome → Except String Unit × File α
  | .written => (.ok (), .json values)
  | .dirFailed => (.error s!"Failed to create {dir}", old)
  | .openFailed => (.error s!"Failed to write {path}", old)
  | .torn => (.error s!"Failed to write {path}", .garbled)

/-- `load_auctions`. -/
def loadAuctions (dataDir : String) (disk : DataDir) : Except String (List Auction) :=
  readJson (joinPath dataDir auctionsFile) disk.auctions

/-- `save_auctions`. -/
def saveAuctions (dataDir : String) (disk : DataDir) (auctions : List Auction)
    (outcome : WriteOutcome) : Except String Unit × DataDir :=
  let (saved, file) :=
    writeJson dataDir (joinPath dataDir auctionsFile) disk.auctions auctions outcome
  (saved, { disk with auctions := file })

/-- `load_ledger`. -/
def loadLedger (dataDir : String) (disk : DataDir) : Except String (List Block) :=
  readJson (joinPath dataDir ledgerFile) disk.ledger

/-- `save_ledger`. -/
def saveLedger (dataDir : String) (disk : DataDir) (ledger : List Block) (outcome : WriteOutcome) :
    Except String Unit × DataDir :=
  let (saved, file) := writeJson dataDir (joinPath dataDir ledgerFile) disk.ledger ledger outcome
  (saved, { disk with ledger := file })

/-! ## What a save does -/

/-- What a write that did not succeed leaves of the old file: all of it, or
rubbish. -/
def WriteOutcome.leaves {α : Type} (old : File α) : WriteOutcome → File α
  | .torn => .garbled
  | _ => old

@[simp] theorem WriteOutcome.leaves_of_ne_torn {α : Type} {old : File α} {outcome : WriteOutcome}
    (h : outcome ≠ .torn) : outcome.leaves old = old := by
  cases outcome with
  | torn => exact absurd rfl h
  | _ => rfl

theorem WriteOutcome.leaves_cases {α : Type} (old : File α) (outcome : WriteOutcome) :
    outcome.leaves old = old ∨ outcome.leaves old = .garbled := by
  cases outcome with
  | torn => exact Or.inr rfl
  | _ => exact Or.inl rfl

/-- The file after a write: the new values, or what the failure leaves. -/
theorem writeJson_cases {α : Type} (dir path : String) (old : File α) (values : List α)
    (outcome : WriteOutcome) :
    (writeJson dir path old values outcome = (.ok (), .json values) ∧ outcome = .written) ∨
      (outcome ≠ .written ∧
        ∃ e, writeJson dir path old values outcome = (.error e, outcome.leaves old)) := by
  cases outcome with
  | written => exact Or.inl ⟨rfl, rfl⟩
  | dirFailed => exact Or.inr ⟨by decide, _, rfl⟩
  | openFailed => exact Or.inr ⟨by decide, _, rfl⟩
  | torn => exact Or.inr ⟨by decide, _, rfl⟩

end KademliaAuction.Storage
