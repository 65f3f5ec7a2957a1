/-
KademliaAuction.Command — the command line (`src/command.rs`).

`--port` and its value are read by `Config::read` and may stand anywhere, so
`Command::parse` strips them before it looks at what is left. The loop over
the arguments is `Lib.FlagArgs.strip` with an accumulator and an error text
(`stripFrom_eq`); `parse_eq_ok_iff` puts its contract together with the
shapes of the commands (`Denotes`), and `parse_iff_grammar` adds that the
text of a command is parsed as that command, with the flag put anywhere in
between.
-/
import KademliaAuction.Blockchain.Address
import KademliaAuction.Lib.FlagArgs
import KademliaAuction.Utils.Config

namespace KademliaAuction

open Blockchain Lib

/-- `u64::from_str`. -/
def parseU64 (text : String) : Option UInt64 :=
  let parsed : Option Nat :=
    match text.toList with
    | '+' :: digits => parseDigits digits
    | digits => parseDigits digits
  (parsed.filter fun n => n < 2 ^ 64).map UInt64.ofNat

/-- `enum Command`. -/
inductive Command where
  | Serve
  | CreateAuction (object : String) (initialValue : UInt64)
  | FindAuction (key : Address)
  | Bid (key : Address) (amount : UInt64)
  deriving DecidableEq

/-- The loop of `strip_global_flags`, over the arguments from `index` on. -/
def stripFrom : List String → List String → Except String (List String)
  | [], result => .ok result
  | [arg], result =>
      if arg = "--port" then .error "Missing value for --port" else .ok (result ++ [arg])
  | arg :: next :: rest, result =>
      if arg = "--port" then stripFrom rest result
      else stripFrom (next :: rest) (result ++ [arg])

/-- `strip_global_flags`: from the argument after the program name on. -/
def stripGlobalFlags (args : List String) : Except String (List String) :=
  stripFrom (args.drop 1) []

namespace Command

/-- The `match` of `Command::parse`. -/
def parsePositional : List String → Except String Command
  | [] => .ok .Serve
  | ["create-auction", object, initialValue] =>
      match parseU64 initialValue with
      | none => .error "create-auction requires an integer initial value"
      | some initialValue => .ok (.CreateAuction object initialValue)
  | ["find-auction", key] =>
      match Address.fromStr key with
      | .error _ => .error "Invalid auction key"
      | .ok key => .ok (.FindAuction key)
  | ["bid", key, amount] =>
      match Address.fromStr key with
      | .error _ => .error "Invalid auction key"
      | .ok key =>
          match parseU64 amount with
          | none => .error "bid requires an integer amount"
          | some amount => .ok (.Bid key amount)
  | _ => .error ("Usage: --port <PORT> [create-auction <OBJECT> <INITIAL_VALUE> | " ++
      "find-auction <KEY> | bid <KEY> <AMOUNT>]")

/-- `Command::parse`. -/
def parse (args : List String) : Except String Command :=
  match stripGlobalFlags args with
  | .error e => .error e
  | .ok positional => parsePositional positional

/-! ## The grammar -/

/-- The text is sixty-four hex digits, and prints, in lower case, as the
key does. -/
structure IsKey (text : String) (key : Address) : Prop where
  length : text.toList.length = 64
  digits : ∀ c ∈ text.toList, Hex.IsDigit c
  value : key.toStr = text.toLower

/-- The command that a sequence of tokens denotes, if any. -/
inductive Denotes : List String → Command → Prop
  | serve : Denotes [] .Serve
  | createAuction {object number : String} {initialValue : UInt64}
      (hnumber : parseU64 number = some initialValue) :
      Denotes ["create-auction", object, number] (.CreateAuction object initialValue)
  | findAuction {text : String} {key : Address} (hkey : IsKey text key) :
      Denotes ["find-auction", text] (.FindAuction key)
  | bid {text number : String} {key : Address} {amount : UInt64} (hkey : IsKey text key)
      (hnumber : parseU64 number = some amount) :
      Denotes ["bid", text, number] (.Bid key amount)

/-- The tokens of a command. -/
def tokens : Command → List String
  | .Serve => []
  | .CreateAuction object initialValue => ["create-auction", object, toString initialValue]
  | .FindAuction key => ["find-auction", key.toStr]
  | .Bid key amount => ["bid", key.toStr, toString amount]

/-- The object of a command that has one. -/
def object? : Command → Option String
  | .CreateAuction object _ => some object
  | _ => none

end Command

/-! ## What the parts accept -/

/-- Every `u64` is read from its own text. -/
theorem parseU64_toString (n : UInt64) : parseU64 (toString n) = some n := by
  have htext : (toString n).toList = n.toNat.repr.toList := rfl
  unfold parseU64
  rw [htext]
  split
  · rename_i hlist
    exact absurd hlist (repr_ne_cons (by decide) _ _)
  · rw [parseDigits_repr]
    simpa [Option.filter] using n.toNat_lt

theorem Command.isKey_iff {text : String} {key : Address} :
    IsKey text key ↔ Address.fromStr text = .ok key := by
  constructor
  · intro h
    obtain ⟨parsed, hparsed⟩ := (Address.fromStr_eq_ok_iff text).mpr ⟨h.length, h.digits⟩
    have hsame : parsed.toStr = key.toStr := (Address.toStr_of_fromStr hparsed).trans h.value.symm
    rw [hparsed, Address.toStr_injective hsame]
  · intro h
    obtain ⟨hlength, hdigits⟩ := (Address.fromStr_eq_ok_iff text).mp ⟨key, h⟩
    exact ⟨hlength, hdigits, Address.toStr_of_fromStr h⟩

/-- The loop strips the flag, behind what it has collected. -/
theorem stripFrom_eq (args result : List String) :
    stripFrom args result =
      match FlagArgs.strip "--port" args with
      | none => .error "Missing value for --port"
      | some left => .ok (result ++ left) := by
  induction args, result using stripFrom.induct with
  | case1 result => simp [stripFrom, FlagArgs.strip]
  | case2 result => simp [stripFrom, FlagArgs.strip]
  | case3 arg result hne => simp [stripFrom, FlagArgs.strip, hne]
  | case4 next rest result ih => rw [stripFrom, if_pos rfl, ih, FlagArgs.strip_flag]
  | case5 arg next rest result hne ih =>
    rw [stripFrom, if_neg hne, ih, FlagArgs.strip_token hne]
    cases FlagArgs.strip "--port" (next :: rest) with
    | none => rfl
    | some left => simp

theorem stripGlobalFlags_eq_ok_iff {args left : List String} :
    stripGlobalFlags args = .ok left ↔
      ∃ pieces, args.tail = FlagArgs.render "--port" pieces ∧
        "--port" ∉ FlagArgs.tokens pieces ∧ FlagArgs.tokens pieces = left := by
  rw [← FlagArgs.strip_eq_some_iff, stripGlobalFlags, stripFrom_eq, List.drop_one]
  cases FlagArgs.strip "--port" args.tail with
  | none => simp
  | some tokens => simp

namespace Command

/-- What is left of the line is read as the command that it denotes. -/
theorem parsePositional_eq_ok_iff {positional : List String} {c : Command} :
    parsePositional positional = .ok c ↔ Denotes positional c := by
  constructor
  · intro h
    unfold parsePositional at h
    split at h
    · obtain rfl := Except.ok.inj h
      exact .serve
    · split at h
      · cases h
      · rename_i hnumber
        obtain rfl := Except.ok.inj h
        exact .createAuction hnumber
    · split at h
      · cases h
      · rename_i hkey
        obtain rfl := Except.ok.inj h
        exact .findAuction (isKey_iff.mpr hkey)
    · split at h
      · cases h
      · rename_i hkey
        split at h
        · cases h
        · rename_i hnumber
          obtain rfl := Except.ok.inj h
          exact .bid (isKey_iff.mpr hkey) hnumber
    · cases h
  · intro h
    cases h with
    | serve => rfl
    | createAuction hnumber => simp [parsePositional, hnumber]
    | findAuction hkey => simp [parsePositional, isKey_iff.mp hkey]
    | bid hkey hnumber => simp [parsePositional, isKey_iff.mp hkey, hnumber]

/-- A line is accepted as what its tokens denote. -/
theorem parse_eq_ok_iff {args : List String} {c : Command} :
    parse args = .ok c ↔
      ∃ pieces, args.tail = FlagArgs.render "--port" pieces ∧
        "--port" ∉ FlagArgs.tokens pieces ∧ Denotes (FlagArgs.tokens pieces) c := by
  have hparse : parse args = .ok c ↔
      ∃ left, stripGlobalFlags args = .ok left ∧ parsePositional left = .ok c := by
    unfold parse
    cases stripGlobalFlags args <;> simp
  rw [hparse]
  simp only [stripGlobalFlags_eq_ok_iff, parsePositional_eq_ok_iff]
  constructor
  · intro h
    obtain ⟨_, ⟨pieces, hline, hflag, rfl⟩, hdenotes⟩ := h
    exact ⟨pieces, hline, hflag, hdenotes⟩
  · intro h
    obtain ⟨pieces, hline, hflag, hdenotes⟩ := h
    exact ⟨_, ⟨pieces, hline, hflag, rfl⟩, hdenotes⟩

theorem isKey_toStr (key : Address) : IsKey key.toStr key :=
  isKey_iff.mpr (Address.fromStr_toStr key)

/-- The tokens of a command denote it. -/
theorem denotes_tokens (c : Command) : Denotes c.tokens c := by
  cases c with
  | Serve => exact .serve
  | CreateAuction object initialValue => exact .createAuction (parseU64_toString initialValue)
  | FindAuction key => exact .findAuction (isKey_toStr key)
  | Bid key amount => exact .bid (isKey_toStr key) (parseU64_toString amount)

/-- None of them is the flag, unless the object is: it is neither a number
nor a key. -/
theorem flag_not_mem_tokens {c : Command} (h : c.object? ≠ some "--port") :
    "--port" ∉ c.tokens := by
  have hnumber : ∀ n : UInt64, "--port" ≠ toString n := by
    intro n heq
    have hparse := parseU64_toString n
    have hnone : parseU64 "--port" = none := by decide
    rw [← heq, hnone] at hparse
    cases hparse
  have hkey : ∀ key : Address, "--port" ≠ key.toStr := by
    intro key heq
    have hlength := (isKey_toStr key).length
    rw [← heq] at hlength
    exact absurd hlength (by decide)
  cases c with
  | Serve => exact List.not_mem_nil
  | CreateAuction object initialValue =>
    have hobject : "--port" ≠ object := fun heq => h (congrArg some heq.symm)
    simp [tokens, hobject, hnumber]
  | FindAuction key => simp [tokens, hkey]
  | Bid key amount => simp [tokens, hkey, hnumber]

/-- **The command line**: the arguments after the program name are accepted as
a command exactly when they are made of flags with their values and of tokens
that denote it, none of which is the flag; and the tokens of a command whose
object is not the flag are parsed as the command, whatever flags are put
between them. -/
theorem parse_iff_grammar :
    (∀ (args : List String) (c : Command), parse args = .ok c ↔
      ∃ pieces, args.tail = FlagArgs.render "--port" pieces ∧
        "--port" ∉ FlagArgs.tokens pieces ∧ Denotes (FlagArgs.tokens pieces) c) ∧
    ∀ c : Command, c.object? ≠ some "--port" → ∀ (program : String)
      (pieces : List (FlagArgs.Piece String)), FlagArgs.tokens pieces = c.tokens →
        parse (program :: FlagArgs.render "--port" pieces) = .ok c := by
  refine ⟨fun args c => parse_eq_ok_iff, fun c hobject program pieces htokens => ?_⟩
  refine parse_eq_ok_iff.mpr ⟨pieces, rfl, ?_, ?_⟩
  · rw [htokens]
    exact flag_not_mem_tokens hobject
  · rw [htokens]
    exact denotes_tokens c

/-- The command of the tests, with a second flag that has the flag as its
value. -/
theorem parse_iff_grammar_poster :
    parse ["app", "--port", "8001", "create-auction", "--port", "--port", "Poster", "25"] =
      .ok (.CreateAuction "Poster" 25) :=
  parse_iff_grammar.2 (.CreateAuction "Poster" 25) (by decide) "app"
    [.flagged "8001", .token "create-auction", .flagged "--port", .token "Poster", .token "25"]
    (by decide)

/-- Where the object would stand, the flag takes the price with it. -/
example : (parse ["app", "create-auction", "--port", "25"]).isOk = false := by decide

end Command

end KademliaAuction
