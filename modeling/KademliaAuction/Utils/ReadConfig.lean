/-
KademliaAuction.Utils.ReadConfig — `Config::read`, from the arguments, the
environment and the key files (`src/utils/config.rs`).

`Settings` is the record with all of its fields; a node keeps the `Config` of
it. The port comes from the arguments and has no default: without it the
process exits. All other settings come from variables, and one that is missing
or does not parse counts as its default. A key file that cannot be read, or
is not base64 between its dashed lines, counts as empty.

The base64 decoder is a crate's. `readKey_armors` is what a PEM file is read
as when the decoder is the one of `Lib.Pem`.
-/
import KademliaAuction.Lib.FlagArgs
import KademliaAuction.Lib.Pem
import KademliaAuction.Proto
import KademliaAuction.Utils.Config

namespace KademliaAuction

open Lib Proto

/-- `struct Config`, with the fields that a node does not keep. -/
structure Settings extends Config where
  privateKeyPath : String
  publicKeyPath : String
  peerSyncMs : Nat
  nMaxRetries : Nat
  automationEnabled : Bool
  automationIntervalMs : Nat

/-- `std::process::exit`, and what has been written to stderr. -/
structure Exit where
  code : Nat
  stderr : List String
  deriving DecidableEq

/-- The text of the file at a path, where there is one and it can be read. -/
abbrev Files := String → Option String

/-! ## Parsing -/

/-- `from_str` of the unsigned type with so many bits. -/
def parseUnsigned (bits : Nat) (text : String) : Option Nat :=
  let parsed : Option Nat :=
    match text.toList with
    | '+' :: digits => parseDigits digits
    | digits => parseDigits digits
  parsed.filter fun n => n < 2 ^ bits

/-- `bool::from_str`. -/
def parseBool (text : String) : Option Bool :=
  if text = "true" then some true else if text = "false" then some false else none

theorem parseUnsigned_toString {bits n : Nat} (h : n < 2 ^ bits) :
    parseUnsigned bits (toString n) = some n := by
  have htext : (toString n).toList = n.repr.toList := rfl
  unfold parseUnsigned
  rw [htext]
  split
  · rename_i hlist
    exact absurd hlist (repr_ne_cons (by decide) _ _)
  · rw [parseDigits_repr]
    simpa [Option.filter] using h

theorem lt_of_parseUnsigned {bits n : Nat} {text : String}
    (h : parseUnsigned bits text = some n) : n < 2 ^ bits := by
  unfold parseUnsigned at h
  simpa using (Option.filter_eq_some_iff.mp h).2

/-! ## Key files -/

namespace Config

/-- The path of a file in the `key_dir` of a port. -/
def keyPath (port : Nat) (file : String) : String := "./keys/" ++ toString port ++ "/" ++ file

def publicKeyPathOf (port : Nat) : String := keyPath port "public_key.pem"

def privateKeyPathOf (port : Nat) : String := keyPath port "private_key.pem"

/-- `read_key`, with `BASE64_STANDARD.decode`. -/
def readKey (base64Decode : String → Option Bytes) (files : Files) (filePath : String) : Bytes :=
  let pemContent := (files filePath).getD ""
  let base64Data := String.ofList (Pem.body pemContent.toList)
  (base64Decode base64Data).getD []

/-! ## The settings -/

/-- `port_from_args`. -/
def portFromArgs (args : List String) : Option Nat :=
  (FlagArgs.firstValue? "--port" args).bind (parseUnsigned 32)

/-- `Config::read`, in an environment to which `.env` has been added. -/
def read (base64Decode : String → Option Bytes) (env : String → Option String)
    (args : List String) (files : Files) : Except Exit Settings :=
  match portFromArgs args with
  | none =>
      .error
        { code := 1
          stderr :=
            ["Error: Missing required argument '--port <number>'",
              "Usage: cargo run -- --port <PORT_NUMBER>"] }
  | some port =>
      let publicKeyPath := publicKeyPathOf port
      let privateKeyPath := privateKeyPathOf port
      .ok
        { port
          bootstrapPeerIp := readEnvvar some (env "BOOTSTRAP_PEER_IP") "127.0.0.1"
          bootstrapPeerPort := readEnvvar (parseUnsigned 32) (env "BOOTSTRAP_PEER_PORT") 8000
          maxKbucketEntries := readEnvvar (parseUnsigned 64) (env "MAX_N_KBUCKET_ENTRIES") 2
          kValue := readEnvvar (parseUnsigned 64) (env "K_VALUE") 2
          privateKey := readKey base64Decode files privateKeyPath
          publicKey := readKey base64Decode files publicKeyPath
          privateKeyPath
          publicKeyPath
          dataDir := "./data/" ++ toString port
          peerSyncMs := readEnvvar (parseUnsigned 64) (env "PEER_SYNC_MS") 10000
          challengeDifficulty := readEnvvar (parseUnsigned 32) (env "CHALLENGE_DIFFICULTY") 5
          nMaxRetries := readEnvvar (parseUnsigned 8) (env "N_MAX_RETRIES") 3
          consensusMode := readEnvvar some (env "CONSENSUS_MODE") "pow"
          reputationThreshold := readEnvvar (parseUnsigned 64) (env "REPUTATION_THRESHOLD") 1
          automationEnabled := readEnvvar parseBool (env "AUTOMATION_ENABLED") false
          automationIntervalMs :=
            readEnvvar (parseUnsigned 64) (env "AUTOMATION_INTERVAL_MS") 5000
          auctionDurationMs := readAuctionDurationMs (env "AUCTION_DURATION_MS") }

/-- The port is the value of the first flag behind the program's name. -/
theorem portFromArgs_render {program : String} (hprogram : program ≠ "--port")
    {pieces : List (FlagArgs.Piece String)} (h : "--port" ∉ FlagArgs.tokens pieces) :
    portFromArgs (program :: FlagArgs.render "--port" pieces) =
      (pieces.findSome? FlagArgs.Piece.value?).bind (parseUnsigned 32) := by
  unfold portFromArgs
  rw [FlagArgs.firstValue?_token hprogram, FlagArgs.firstValue?_render h]

/-- What is read from the variables fits into its type. -/
theorem readEnvvar_unsigned_lt {bits defaultValue : Nat} (h : defaultValue < 2 ^ bits)
    (value : Option String) :
    readEnvvar (parseUnsigned bits) value defaultValue < 2 ^ bits := by
  unfold readEnvvar
  cases value with
  | none => exact h
  | some val =>
    dsimp only
    cases hparse : parseUnsigned bits val with
    | none => exact h
    | some n => exact lt_of_parseUnsigned hparse

/-! ## Paths -/

theorem separator_notMem_toString (port : Nat) : '/' ∉ (toString port).toList := by
  intro hmem
  have hdigits : (toString port).toList = Nat.toDigits 10 port := Nat.toList_repr
  rw [hdigits] at hmem
  have hdigit := Nat.isDigit_of_mem_toDigits (by omega) (by omega) hmem
  revert hdigit
  decide

/-- A path tells the port and the file. -/
theorem keyPath_inj {port port' : Nat} {file file' : String} (hfile : '/' ∉ file.toList)
    (h : keyPath port file = keyPath port' file') : port = port' ∧ file = file' := by
  have hlists := congrArg String.toList h
  unfold keyPath at hlists
  simp only [String.toList_append, List.append_assoc, List.append_cancel_left_eq] at hlists
  have hparts := (List.append_cons_inj_of_notMem (separator_notMem_toString port) hfile).mp
    (hlists : _ ++ '/' :: _ = _ ++ '/' :: _)
  refine ⟨?_, String.toList_injective hparts.2.2⟩
  have hparsed := congrArg parseDigits hparts.1
  exact Option.some.inj ((parseDigits_repr port).symm.trans
    (hparsed.trans (parseDigits_repr port')))

theorem publicKeyPathOf_injective : Function.Injective publicKeyPathOf :=
  fun _ _ h => (keyPath_inj (by decide) h).1

theorem privateKeyPathOf_injective : Function.Injective privateKeyPathOf :=
  fun _ _ h => (keyPath_inj (by decide) h).1

theorem privateKeyPathOf_ne (port port' : Nat) : privateKeyPathOf port ≠ publicKeyPathOf port' :=
  fun h => absurd (keyPath_inj (by decide) h).2 (by decide)

/-! ## Reading a PEM file -/

/-- The decoder is that of the standard alphabet. -/
def IsBase64 (base64Decode : String → Option Bytes) : Prop :=
  ∀ text, base64Decode text = Pem.decode text.toList

section ReadKey

variable {base64Decode : String → Option Bytes} (hbase64 : IsBase64 base64Decode)
  {files : Files} {path : String}

include hbase64

/-- The key of a PEM file is the bytes in it. -/
theorem readKey_armors {text : String} {bytes : Bytes} (htext : files path = some text)
    (harmors : Pem.Armors text.toList bytes) : readKey base64Decode files path = bytes := by
  unfold readKey
  dsimp only
  rw [htext, Option.getD_some, harmors.body_eq, hbase64, String.toList_ofList,
    Pem.decode_encode, Option.getD_some]

/-- A file that is missing or empty is an empty key. -/
theorem readKey_blank (htext : (files path).getD "" = "") :
    readKey base64Decode files path = [] := by
  unfold readKey
  dsimp only
  rw [htext, hbase64, String.toList_ofList]
  rfl

end ReadKey

/-- Only the file at the path matters. -/
theorem readKey_congr {base64Decode : String → Option Bytes} {files files' : Files}
    {path : String} (h : files' path = files path) :
    readKey base64Decode files' path = readKey base64Decode files path := by
  unfold readKey
  rw [h]

end Config

end KademliaAuction
