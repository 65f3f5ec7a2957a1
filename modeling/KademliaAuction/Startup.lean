/-
KademliaAuction.Startup — from the command line to a node (`src/main.rs`), and
the machine on which processes are started.

`start` is `main` up to the point where the process does its work: it exits
without a port or on a line that is no command, panics when the keys cannot be
set up, or has a node whose id is the hash of its public key.

On a machine, processes are started with any lines, and the key files of a
port may be lost, or a private key may be imported. Each port has a `KeyRing`,
which `KeyRing.next` takes from event to event: `run_holds` is that the files
follow the rings of all ports through every run, and `started_inv` what a node
that is started then has.
-/
import KademliaAuction.Command
import KademliaAuction.GRpc.Calls
import KademliaAuction.Lib.Transition
import KademliaAuction.Utils.SetupKeys

namespace KademliaAuction

open Blockchain Proto Lib

variable {Rsa : Type}

/-- How `main` comes to its work, or does not. -/
inductive StartEnd where
  | exited (exit : Exit)
  | panicked (message : String)
  | started (config : Settings) (node : Node) (command : Command)

/-- What a start takes from outside. -/
structure StartInputs (Rsa : Type) where
  env : String → Option String
  args : List String
  effects : KeyEffects Rsa
  dataDirs : String → Storage.DataDir

/-- `main`, before the server and the client run: how it comes to it, and the
files after it. -/
def start (libs : Libraries) (crates : KeyCrates Rsa) (inputs : StartInputs Rsa) (files : Files) :
    StartEnd × Files :=
  match Config.read crates.base64Decode inputs.env inputs.args files with
  | .error exit => (.exited exit, files)
  | .ok config =>
      match Command.parse inputs.args with
      | .error error => (.exited { code := 2, stderr := [error] }, files)
      | .ok command =>
          match setupKeys crates inputs.effects files config with
          | (.error e, files) => (.panicked e, files)
          | (.ok config, files) =>
              let nodeId := hashData libs.toCrates config.publicKey
              match Address.fromStr (formatAsHexString nodeId) with
              | .error _ => (.panicked "called Result::unwrap() on an Err value", files)
              | .ok address =>
                  let node := Node.new address "127.0.0.1" config.port config.toConfig
                    (inputs.dataDirs config.dataDir)
                  (.started config node command, files)

/-! ## A machine -/

/-- What happens to the key files of a machine. -/
inductive MachineEvent (Rsa : Type) where
  | start (inputs : StartInputs Rsa)
  | losePrivateKey (port : Nat)
  | losePublicKey (port : Nat)
  | importPrivateKey (port : Nat) (form : PrivateForm) (rsa : Rsa)

/-- The files of a machine, on which there are no keys at first. -/
def machine (libs : Libraries) (crates : KeyCrates Rsa) (formats : KeyFormats Rsa) :
    System Files (MachineEvent Rsa) where
  Init files := ∀ port, files (Config.privateKeyPathOf port) = none ∧
    files (Config.publicKeyPathOf port) = none
  next files
    | .start inputs => some (start libs crates inputs files).2
    | .losePrivateKey port => some (Function.update files (Config.privateKeyPathOf port) none)
    | .losePublicKey port => some (Function.update files (Config.publicKeyPathOf port) none)
    | .importPrivateKey port form rsa =>
        some (Function.update files (Config.privateKeyPathOf port)
          (some (formats.importedPem form rsa)))

/-- The port for which a line sets up keys. -/
def StartInputs.port? (inputs : StartInputs Rsa) : Option Nat :=
  match Command.parse inputs.args with
  | .error _ => none
  | .ok _ => Config.portFromArgs inputs.args

/-- What an event does to the ring of a port. -/
def KeyRing.next (port : Nat) (ring : KeyRing Rsa) : MachineEvent Rsa → KeyRing Rsa
  | .start inputs =>
      if inputs.port? = some port then (ring.setup inputs.effects port).2 else ring
  | .losePrivateKey lost => if lost = port then { ring with privateKey := none } else ring
  | .losePublicKey lost => if lost = port then { ring with publicKey := none } else ring
  | .importPrivateKey importing form rsa =>
      if importing = port then { ring with privateKey := some (form, rsa) } else ring

/-- What a node that is started has of its settings. -/
structure StartedAs (libs : Libraries) (formats : KeyFormats Rsa) (inputs : StartInputs Rsa)
    (port : Nat) (ring : KeyRing Rsa) (config : Settings) (node : Node) : Prop where
  atPort : config.port = port
  inU32 : port < 2 ^ 32 ∧ config.challengeDifficulty < 2 ^ 32
  privateKey : config.privateKey = ring.privateBytes formats
  publicKey : config.publicKey = ring.publicBytes formats
  node : node = Node.new (ownId libs.toCrates config.publicKey) "127.0.0.1" port config.toConfig
    (inputs.dataDirs config.dataDir)

/-! ## One start -/

section Start

variable {crates : KeyCrates Rsa} {formats : KeyFormats Rsa}
  {inputs : StartInputs Rsa} {files : Files} {port : Nat}

theorem Config.read_of_port (crates : KeyCrates Rsa) (files : Files)
    (hport : Config.portFromArgs inputs.args = some port) :
    ∃ config, Config.read crates.base64Decode inputs.env inputs.args files = .ok config ∧
      config.port = port ∧ config.challengeDifficulty < 2 ^ 32 ∧ config.ReadFrom crates files := by
  unfold Config.read
  rw [hport]
  exact ⟨_, rfl, rfl, Config.readEnvvar_unsigned_lt (by norm_num) _, rfl, rfl, rfl, rfl⟩

theorem Config.lt_of_portFromArgs {args : List String}
    (hport : Config.portFromArgs args = some port) : port < 2 ^ 32 := by
  obtain ⟨text, _, hparsed⟩ := Option.bind_eq_some_iff.mp hport
  exact lt_of_parseUnsigned hparsed

/-- A line without a port, or one that is no command, leaves the files. -/
theorem start_of_port?_none (libs : Libraries) (crates : KeyCrates Rsa) (files : Files)
    (hport : inputs.port? = none) :
    ∃ exit, start libs crates inputs files = (.exited exit, files) := by
  unfold start
  unfold StartInputs.port? at hport
  cases hparse : Command.parse inputs.args with
  | error e =>
    cases hread : Config.read crates.base64Decode inputs.env inputs.args files with
    | error exit => exact ⟨exit, rfl⟩
    | ok config => exact ⟨{ code := 2, stderr := [e] }, rfl⟩
  | ok command =>
    rw [hparse] at hport
    dsimp only at hport
    unfold Config.read
    rw [hport]
    exact ⟨_, rfl⟩

/-- **A start at a port** goes as the set-up of its ring does. -/
theorem start_of_port? (libs : Libraries) (hcrates : crates.AsDocumented formats)
    (hport : inputs.port? = some port) {ring : KeyRing Rsa}
    (hhold : files.Hold crates formats port ring) :
    (start libs crates inputs files).2.Hold crates formats port
        (ring.setup inputs.effects port).2 ∧
      files.SameBeside (start libs crates inputs files).2 port ∧
      (∀ e, (ring.setup inputs.effects port).1 = .error e →
        (start libs crates inputs files).1 = .panicked e) ∧
      ((ring.setup inputs.effects port).1 = .ok () → ∃ config node command,
        Command.parse inputs.args = .ok command ∧
        (start libs crates inputs files).1 = .started config node command ∧
        StartedAs libs formats inputs port (ring.setup inputs.effects port).2 config node) := by
  unfold StartInputs.port? at hport
  cases hparse : Command.parse inputs.args with
  | error e =>
    rw [hparse] at hport
    cases hport
  | ok command =>
    rw [hparse] at hport
    dsimp only at hport
    obtain ⟨config, hconfig, hconfigPort, hdifficulty, hreadFrom⟩ :=
      Config.read_of_port crates files hport
    obtain ⟨hrefines, hkeys⟩ :=
      setupKeys_refines inputs.effects hcrates hhold hconfigPort hreadFrom
    unfold start
    rw [hconfig, hparse]
    dsimp only
    cases hsetup : setupKeys crates inputs.effects files config with
    | mk result files' =>
      rw [hsetup] at hrefines hkeys
      cases result with
      | error e =>
        refine ⟨hrefines.hold, hrefines.beside, fun e' he => ?_, fun hok => ?_⟩
        · have hsame : Except.error e = Except.error e' := hrefines.result.trans he
          rw [Except.error.inj hsame]
        · cases hrefines.result.trans hok
      | ok config' =>
        obtain rfl := hkeys config' rfl
        dsimp only
        rw [fromStr_ownId]
        refine ⟨hrefines.hold, hrefines.beside, fun e he => ?_, fun _ => ?_⟩
        · cases hrefines.result.trans he
        · refine ⟨_, _, command, rfl, rfl, hconfigPort,
            ⟨Config.lt_of_portFromArgs hport, hdifficulty⟩, rfl, rfl, ?_⟩
          rw [← hconfigPort]
          rfl

end Start

/-! ## Runs -/

section Runs

variable {libs : Libraries} {crates : KeyCrates Rsa} {formats : KeyFormats Rsa}

/-- The files of every port are about its ring. -/
def Files.HoldAll (files : Files) (crates : KeyCrates Rsa) (formats : KeyFormats Rsa)
    (rings : Nat → KeyRing Rsa) : Prop :=
  ∀ port, files.Hold crates formats port (rings port)

/-- The other ports' files are not touched. -/
theorem Files.Hold.of_beside {files files' : Files} {port touched : Nat} {ring : KeyRing Rsa}
    (h : files.Hold crates formats port ring) (hbeside : files.SameBeside files' touched)
    (hne : port ≠ touched) : files'.Hold crates formats port ring where
  privateKey := by
    rw [Config.readKey_congr (hbeside _ (fun heq => hne (Config.privateKeyPathOf_injective heq))
      (Config.privateKeyPathOf_ne port touched))]
    exact h.privateKey
  publicKey := by
    rw [Config.readKey_congr (hbeside _ (Ne.symm (Config.privateKeyPathOf_ne touched port))
      (fun heq => hne (Config.publicKeyPathOf_injective heq)))]
    exact h.publicKey

/-- Another private file, or none. -/
theorem Files.Hold.update_private {files : Files} {port : Nat} {ring : KeyRing Rsa}
    (h : files.Hold crates formats port ring) {text : Option String}
    {key : Option (PrivateForm × Rsa)}
    (hread : ∀ files' : Files, files' (Config.privateKeyPathOf port) = text →
      Config.readKey crates.base64Decode files' (Config.privateKeyPathOf port) =
        ({ ring with privateKey := key } : KeyRing Rsa).privateBytes formats) :
    Files.Hold (Function.update files (Config.privateKeyPathOf port) text) crates formats port
      { ring with privateKey := key } where
  privateKey := hread _ (Function.update_self _ _ _)
  publicKey := by
    rw [Config.readKey_congr
      (Function.update_of_ne (Ne.symm (Config.privateKeyPathOf_ne port port)) _ _)]
    exact h.publicKey

/-- No public file. -/
theorem Files.Hold.lose_public {files : Files} {port : Nat} {ring : KeyRing Rsa}
    (hcrates : crates.AsDocumented formats) (h : files.Hold crates formats port ring) :
    Files.Hold (Function.update files (Config.publicKeyPathOf port) none) crates formats port
      { ring with publicKey := none } where
  privateKey := by
    rw [Config.readKey_congr (Function.update_of_ne (Config.privateKeyPathOf_ne port port) _ _)]
    exact h.privateKey
  publicKey := by
    rw [Config.readKey_blank hcrates.base64 (by rw [Function.update_self]; rfl)]
    rfl

/-- One path that is changed is beside all ports but one. -/
theorem Files.sameBeside_update (files : Files) {path : String} {port : Nat}
    (h : path = Config.privateKeyPathOf port ∨ path = Config.publicKeyPathOf port)
    (text : Option String) : files.SameBeside (Function.update files path text) port := by
  intro other hprivate hpublic
  refine Function.update_of_ne ?_ _ _
  rintro rfl
  obtain h | h := h
  · exact hprivate h
  · exact hpublic h

/-- **One event**, for the rings of all ports. -/
theorem next_holds (hcrates : crates.AsDocumented formats) {files files' : Files}
    {rings : Nat → KeyRing Rsa} (hhold : files.HoldAll crates formats rings)
    {event : MachineEvent Rsa} (hnext : (machine libs crates formats).next files event = some files') :
    files'.HoldAll crates formats fun port => (rings port).next port event := by
  intro port
  cases event with
  | start inputs =>
    obtain rfl := Option.some.inj hnext
    unfold KeyRing.next
    dsimp only
    cases hstarted : inputs.port? with
    | none =>
      obtain ⟨exit, hexit⟩ := start_of_port?_none libs crates files hstarted
      rw [hexit, if_neg (by simp)]
      exact hhold port
    | some started =>
      obtain ⟨hheld, hbeside, _, _⟩ := start_of_port? libs hcrates hstarted (hhold started)
      by_cases hport : started = port
      · subst hport
        rw [if_pos rfl]
        exact hheld
      · rw [if_neg (fun heq => hport (Option.some.inj heq))]
        exact (hhold port).of_beside hbeside (Ne.symm hport)
  | losePrivateKey lost =>
    obtain rfl := Option.some.inj hnext
    unfold KeyRing.next
    dsimp only
    by_cases hport : lost = port
    · subst hport
      rw [if_pos rfl]
      refine (hhold lost).update_private fun files' hfile => ?_
      rw [Config.readKey_blank hcrates.base64 (by rw [hfile]; rfl)]
      rfl
    · rw [if_neg hport]
      exact (hhold port).of_beside (files.sameBeside_update (Or.inl rfl) none) (Ne.symm hport)
  | losePublicKey lost =>
    obtain rfl := Option.some.inj hnext
    unfold KeyRing.next
    dsimp only
    by_cases hport : lost = port
    · subst hport
      rw [if_pos rfl]
      exact (hhold lost).lose_public hcrates
    · rw [if_neg hport]
      exact (hhold port).of_beside (files.sameBeside_update (Or.inr rfl) none) (Ne.symm hport)
  | importPrivateKey importing form rsa =>
    obtain rfl := Option.some.inj hnext
    unfold KeyRing.next
    dsimp only
    by_cases hport : importing = port
    · subst hport
      rw [if_pos rfl]
      refine (hhold importing).update_private fun files' hfile => ?_
      rw [Config.readKey_armors hcrates.base64 hfile (hcrates.importedPem form rsa)]
      rfl
    · rw [if_neg hport]
      exact (hhold port).of_beside (files.sameBeside_update (Or.inl rfl) _) (Ne.symm hport)

/-- A run, from event to event. -/
theorem run_holds (hcrates : crates.AsDocumented formats) {events : List (MachineEvent Rsa)} :
    ∀ {files files' : Files} {rings : Nat → KeyRing Rsa}, files.HoldAll crates formats rings →
      (machine libs crates formats).run files events = some files' →
      files'.HoldAll crates formats fun port => events.foldl (KeyRing.next port) (rings port) := by
  induction events with
  | nil =>
    intro files files' rings hhold hrun
    obtain rfl := Option.some.inj hrun
    exact hhold
  | cons event events ih =>
    intro files files' rings hhold hrun
    obtain ⟨between, hnext, hrest⟩ := Option.bind_eq_some_iff.mp hrun
    exact ih (next_holds hcrates hhold hnext) hrest

theorem init_holds (hcrates : crates.AsDocumented formats) {files : Files}
    (hinit : (machine libs crates formats).Init files) :
    files.HoldAll crates formats fun _ => .empty := by
  intro port
  obtain ⟨hprivate, hpublic⟩ := hinit port
  constructor
  · rw [Config.readKey_blank hcrates.base64 (by rw [hprivate]; rfl)]
    rfl
  · rw [Config.readKey_blank hcrates.base64 (by rw [hpublic]; rfl)]
    rfl

/-- A line is good for a command at a port. -/
theorem StartInputs.port?_iff {inputs : StartInputs Rsa} {program : String} {line : List String}
    (hargs : inputs.args = program :: line) (hprogram : program ≠ "--port") {port : Nat}
    {command : Command} :
    (Command.parse inputs.args = .ok command ∧ inputs.port? = some port) ↔
      ∃ pieces, line = FlagArgs.render "--port" pieces ∧ "--port" ∉ FlagArgs.tokens pieces ∧
        Command.Denotes (FlagArgs.tokens pieces) command ∧
        (pieces.findSome? FlagArgs.Piece.value?).bind (parseUnsigned 32) = some port := by
  constructor
  · rintro ⟨hparse, hport⟩
    unfold StartInputs.port? at hport
    rw [hparse] at hport
    dsimp only at hport
    obtain ⟨pieces, hline, hflag, hdenotes⟩ := Command.parse_eq_ok_iff.mp hparse
    rw [hargs] at hline hport
    obtain rfl : line = FlagArgs.render "--port" pieces := hline
    rw [Config.portFromArgs_render hprogram hflag] at hport
    exact ⟨pieces, rfl, hflag, hdenotes, hport⟩
  · rintro ⟨pieces, rfl, hflag, hdenotes, hport⟩
    have hparse : Command.parse inputs.args = .ok command := by
      rw [hargs]
      exact Command.parse_eq_ok_iff.mpr ⟨pieces, rfl, hflag, hdenotes⟩
    refine ⟨hparse, ?_⟩
    unfold StartInputs.port?
    rw [hparse]
    dsimp only
    rw [hargs, Config.portFromArgs_render hprogram hflag, hport]

/-- What is behind a node that has been started. -/
theorem started_inv (hcrates : crates.AsDocumented formats) {files files' : Files}
    {rings : Nat → KeyRing Rsa} (hhold : files.HoldAll crates formats rings)
    {inputs : StartInputs Rsa} {config : Settings} {node : Node} {command : Command}
    (hstart : start libs crates inputs files = (.started config node command, files')) :
    Command.parse inputs.args = .ok command ∧ inputs.port? = some config.port ∧
      ((rings config.port).setup inputs.effects config.port).1 = .ok () ∧
      StartedAs libs formats inputs config.port
        ((rings config.port).setup inputs.effects config.port).2 config node := by
  cases hport : inputs.port? with
  | none =>
    obtain ⟨exit, hexit⟩ := start_of_port?_none libs crates files hport
    cases hexit.symm.trans hstart
  | some port =>
    obtain ⟨_, _, hpanics, hruns⟩ := start_of_port? libs hcrates hport (hhold port)
    rw [hstart] at hpanics hruns
    cases hsetup : ((rings port).setup inputs.effects port).1 with
    | error e => cases hpanics e hsetup
    | ok u =>
      obtain ⟨config', node', command', hparse, heq, hstarted⟩ := hruns hsetup
      cases heq
      obtain rfl := hstarted.atPort
      exact ⟨hparse, rfl, hsetup, hstarted⟩

end Runs

end KademliaAuction
