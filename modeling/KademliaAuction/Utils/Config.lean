/-
KademliaAuction.Utils.Config — the configuration record
(`src/utils/config.rs`).

Only the settings a modelled function reads are kept: the key and data
paths, the retry and sleep intervals and the automation switch are left out.
`Config::read` itself, with all settings, is in `Utils.ReadConfig`. Here is what
it reads most of them with, and the duration of auctions: what is no `i64` in
the environment is as good as not there, so that the duration always is one
(`inI64_readAuctionDurationMs`).
-/
import Mathlib.Algebra.Group.Int.Defs

namespace KademliaAuction

/-- `struct Config`. -/
structure Config where
  port : Nat
  bootstrapPeerIp : String
  bootstrapPeerPort : Nat
  maxKbucketEntries : Nat
  kValue : Nat
  privateKey : List UInt8
  publicKey : List UInt8
  dataDir : String
  challengeDifficulty : Nat
  consensusMode : String
  reputationThreshold : Nat
  auctionDurationMs : Int
  deriving DecidableEq

/-- The `test_config` of the unit tests. -/
def Config.testConfig : Config where
  port := 8000
  bootstrapPeerIp := "127.0.0.1"
  bootstrapPeerPort := 8000
  maxKbucketEntries := 2
  kValue := 2
  privateKey := []
  publicKey := []
  dataDir := "./target/test/node"
  challengeDifficulty := 4
  consensusMode := "pow"
  reputationThreshold := 1
  auctionDurationMs := 1000

/-! ## Settings from the environment -/

/-- The integer fits into an `i64`. -/
def InI64 (n : Int) : Prop := -2 ^ 63 ≤ n ∧ n < 2 ^ 63

instance (n : Int) : Decidable (InI64 n) := inferInstanceAs (Decidable (_ ∧ _))

/-- A number in decimal digits, of which there is at least one. -/
def parseDigits (digits : List Char) : Option Nat :=
  if digits ≠ [] ∧ digits.all Char.isDigit then some (Nat.ofDigitChars 10 digits 0) else none

/-- `i64::from_str`. -/
def parseI64 (text : String) : Option Int :=
  let parsed : Option Int :=
    match text.toList with
    | '-' :: digits => (parseDigits digits).map fun n : Nat => -(n : Int)
    | '+' :: digits => (parseDigits digits).map Int.ofNat
    | digits => (parseDigits digits).map Int.ofNat
  parsed.filter fun n => InI64 n

/-- `read_envvar`, when the variable has the given value, if any. -/
def Config.readEnvvar {T : Type} (parse : String → Option T) (value : Option String)
    (defaultValue : T) : T :=
  match value with
  | some val => (parse val).getD defaultValue
  | none => defaultValue

/-- `AUCTION_DURATION_MS` in `Config::read`. -/
def Config.readAuctionDurationMs (value : Option String) : Int :=
  readEnvvar parseI64 value 30000

theorem inI64_of_parseI64 {text : String} {n : Int} (h : parseI64 text = some n) : InI64 n := by
  unfold parseI64 at h
  simpa using (Option.filter_eq_some_iff.mp h).2

/-- Every duration that is read fits into an `i64`. -/
theorem Config.inI64_readAuctionDurationMs (value : Option String) :
    InI64 (readAuctionDurationMs value) := by
  unfold readAuctionDurationMs readEnvvar
  cases value with
  | none => decide
  | some val =>
    cases hparse : parseI64 val with
    | none =>
      dsimp only
      rw [hparse]
      decide
    | some n =>
      dsimp only
      rw [hparse]
      exact inI64_of_parseI64 hparse

theorem parseDigits_repr (n : Nat) : parseDigits n.repr.toList = some n := by
  unfold parseDigits
  rw [Nat.toList_repr, if_pos, Nat.ofDigitChars_ten_toDigits]
  refine ⟨Nat.toDigits_ne_nil, List.all_eq_true.mpr fun c hc => ?_⟩
  exact Nat.isDigit_of_mem_toDigits (by omega) (by omega) hc

/-- The text of a number begins with a digit. -/
theorem repr_ne_cons {c : Char} (hc : c.isDigit = false) (m : Nat) (cs : List Char) :
    m.repr.toList ≠ c :: cs := by
  intro h
  have hmem : c ∈ Nat.toDigits 10 m := by
    rw [← Nat.toList_repr, h]
    exact List.mem_cons_self
  have hdigit := Nat.isDigit_of_mem_toDigits (by omega) (by omega) hmem
  rw [hdigit] at hc
  cases hc

end KademliaAuction
