/-
KademliaAuction.StartupTheorems — the identities of a machine's ports.

Two files make up an identity, and a start repairs neither of them, unless the
private key has been imported in PKCS#1. What one event can do to a ring
(`Matched.next`, `KeepsPrivate.next`, `KeepsPublic.next`) is carried through
runs:

* `identity_kept`: a port's nodes are the same node from start to start, as
  long as not both files have been lost;
* `starts_iff`: the lines that start a node, and at which ports;
* `half_lost`: where one file is left, nothing but another file helps;
* `started_serves`: nodes that have been started can talk to each other.
-/
import KademliaAuction.Startup

namespace KademliaAuction

open Blockchain Proto Lib

variable {Rsa : Type}

/-! ## What a ring keeps -/

namespace KeyRing

/-- Both keys, where there are both, are of one pair. -/
def Matched (ring : KeyRing Rsa) : Prop :=
  ∀ form own pub, ring.privateKey = some (form, own) → ring.publicKey = some pub → pub = own

theorem Matched.setup {ring : KeyRing Rsa} (h : ring.Matched) (effects : KeyEffects Rsa)
    (port : Nat) : (ring.setup effects port).2.Matched := by
  obtain hsame | ⟨_, rsa, hprivate, hpublic⟩ | ⟨rsa, _, hsame⟩ := setup_cases effects port ring
  · rw [hsame]
    exact h
  · intro form own pub hown hpub
    rw [hown] at hprivate
    rw [hpub] at hpublic
    simp only [Option.some.injEq, Prod.mk.injEq, reduceCtorEq, or_false] at hprivate hpublic
    rw [hpublic, hprivate.2]
  · rw [hsame]
    intro form own pub hown hpub
    obtain ⟨_, rfl⟩ := Prod.mk.inj (Option.some.inj hown)
    exact (Option.some.inj hpub).symm

theorem Matched.of_public_none {ring : KeyRing Rsa} (h : ring.publicKey = none) : ring.Matched := by
  intro form own pub _ hpub
  rw [h] at hpub
  cases hpub

/-- Of the pair of a key, the private one is there, in this form. -/
structure KeepsPrivate (form : PrivateForm) (rsa : Rsa) (ring : KeyRing Rsa) : Prop where
  privateKey : ring.privateKey = some (form, rsa)
  publicKey : ∀ pub, ring.publicKey = some pub → pub = rsa

/-- Of the pair of a key, the public one is there. -/
structure KeepsPublic (form : PrivateForm) (rsa : Rsa) (ring : KeyRing Rsa) : Prop where
  privateKey : ∀ own, ring.privateKey = some own → own = (form, rsa)
  publicKey : ring.publicKey = some rsa

/-- The event imports a private key at the port. -/
def Imports (port : Nat) : MachineEvent Rsa → Prop
  | .importPrivateKey importing _ _ => importing = port
  | _ => False

variable {form : PrivateForm} {rsa : Rsa} {ring : KeyRing Rsa} {port : Nat}
  {event : MachineEvent Rsa}

theorem KeepsPrivate.setup (h : ring.KeepsPrivate form rsa) (effects : KeyEffects Rsa)
    (port : Nat) : (ring.setup effects port).2.KeepsPrivate form rsa := by
  obtain hsame | ⟨rfl, _⟩ | ⟨own, rfl, hsame⟩ := setup_cases effects port ring
  · rw [hsame]
    exact h
  · cases h.privateKey
  · rw [hsame]
    exact ⟨h.privateKey, fun pub hpub => by cases h.privateKey; cases hpub; rfl⟩

theorem KeepsPublic.setup (h : ring.KeepsPublic form rsa) (effects : KeyEffects Rsa)
    (port : Nat) : (ring.setup effects port).2.KeepsPublic form rsa := by
  obtain hsame | ⟨rfl, _⟩ | ⟨own, rfl, _⟩ := setup_cases effects port ring
  · rw [hsame]
    exact h
  · cases h.publicKey
  · cases h.publicKey

/-- Only its loss, or an import, takes a private key away. -/
theorem KeepsPrivate.next (h : ring.KeepsPrivate form rsa) (himport : ¬ Imports port event)
    (hlost : event ≠ .losePrivateKey port) : (ring.next port event).KeepsPrivate form rsa := by
  unfold KeyRing.next
  cases event with
  | start inputs =>
    dsimp only
    split
    · exact h.setup inputs.effects port
    · exact h
  | losePrivateKey lost =>
    dsimp only
    rw [if_neg (fun heq => hlost (by rw [heq]))]
    exact h
  | losePublicKey lost =>
    dsimp only
    split
    · exact ⟨h.privateKey, fun _ hpub => nomatch hpub⟩
    · exact h
  | importPrivateKey importing form' rsa' =>
    dsimp only
    rw [if_neg (show ¬importing = port from himport)]
    exact h

theorem KeepsPublic.next (h : ring.KeepsPublic form rsa) (himport : ¬ Imports port event)
    (hlost : event ≠ .losePublicKey port) : (ring.next port event).KeepsPublic form rsa := by
  unfold KeyRing.next
  cases event with
  | start inputs =>
    dsimp only
    split
    · exact h.setup inputs.effects port
    · exact h
  | losePrivateKey lost =>
    dsimp only
    split
    · exact ⟨fun _ hown => (nomatch hown), h.publicKey⟩
    · exact h
  | losePublicKey lost =>
    dsimp only
    rw [if_neg (fun heq => hlost (by rw [heq]))]
    exact h
  | importPrivateKey importing form' rsa' =>
    dsimp only
    rw [if_neg (show ¬importing = port from himport)]
    exact h

theorem Matched.next (h : ring.Matched)
    (himport : Imports port event → ring.publicKey = none) : (ring.next port event).Matched := by
  unfold KeyRing.next
  cases event with
  | start inputs =>
    dsimp only
    split
    · exact h.setup inputs.effects port
    · exact h
  | losePrivateKey lost =>
    dsimp only
    split
    · exact fun _ _ _ hown => nomatch hown
    · exact h
  | losePublicKey lost =>
    dsimp only
    split
    · exact of_public_none rfl
    · exact h
  | importPrivateKey importing form' rsa' =>
    dsimp only
    split
    · rename_i heq
      exact of_public_none (himport heq)
    · exact h

/-- The private key, if there is one, is in the form that the program
writes. -/
def InPkcs8 (ring : KeyRing Rsa) : Prop :=
  ∀ form own, ring.privateKey = some (form, own) → form = .pkcs8

theorem InPkcs8.setup (h : ring.InPkcs8) (effects : KeyEffects Rsa) (port : Nat) :
    (ring.setup effects port).2.InPkcs8 := by
  obtain hsame | ⟨_, rsa, hprivate, _⟩ | ⟨rsa, rfl, _⟩ := setup_cases effects port ring
  · rw [hsame]
    exact h
  · intro form own hown
    rw [hown] at hprivate
    simp only [Option.some.injEq, Prod.mk.injEq, reduceCtorEq, or_false] at hprivate
    exact hprivate.1
  · cases h .pkcs1 rsa rfl

theorem InPkcs8.next (h : ring.InPkcs8)
    (himport : ∀ importing form own, event = .importPrivateKey importing form own →
      form = .pkcs8) : (ring.next port event).InPkcs8 := by
  unfold KeyRing.next
  cases event with
  | start inputs =>
    dsimp only
    split
    · exact h.setup inputs.effects port
    · exact h
  | losePrivateKey lost =>
    dsimp only
    split
    · exact fun _ _ hown => nomatch hown
    · exact h
  | losePublicKey lost =>
    dsimp only
    split <;> exact h
  | importPrivateKey importing form' rsa' =>
    dsimp only
    split
    · intro form own hown
      obtain ⟨rfl, rfl⟩ := Prod.mk.inj (Option.some.inj hown)
      exact himport importing form' rsa' rfl
    · exact h

/-- The panic of a start that finds one file. -/
def halfText (ring : KeyRing Rsa) : String :=
  if ring.privateKey = none then
    "Public key is provided but private key is missing! Aborting."
  else "Failed to parse private key"

/-- One file alone is no use. -/
theorem setup_half (effects : KeyEffects Rsa) (port : Nat) (hform : ring.InPkcs8)
    (hhalf : ¬ (ring.privateKey = none ↔ ring.publicKey = none)) :
    ring.setup effects port = (.error ring.halfText, ring) := by
  obtain ⟨privateKey, publicKey⟩ := ring
  cases privateKey with
  | none =>
    cases publicKey with
    | none => exact absurd ⟨fun _ => rfl, fun _ => rfl⟩ hhalf
    | some pub => rfl
  | some key =>
    obtain ⟨form, own⟩ := key
    obtain rfl : form = .pkcs8 := hform form own rfl
    cases publicKey with
    | none => rfl
    | some pub => exact absurd ⟨fun h => (nomatch h), fun h => (nomatch h)⟩ hhalf

theorem empty_whole :
    (empty : KeyRing Rsa).privateKey = none ↔ (empty : KeyRing Rsa).publicKey = none :=
  ⟨fun _ => rfl, fun _ => rfl⟩

/-- Two files stay, and none become two. -/
theorem setup_whole (rsa : Rsa) (port : Nat)
    (hwhole : ring.privateKey = none ↔ ring.publicKey = none) :
    ∃ key pub, ring.setup (.succeeding rsa) port =
      (.ok (), { privateKey := some key, publicKey := some pub }) := by
  obtain ⟨privateKey, publicKey⟩ := ring
  cases privateKey with
  | none =>
    obtain rfl : publicKey = none := hwhole.mp rfl
    exact ⟨(.pkcs8, rsa), rsa, rfl⟩
  | some key =>
    cases publicKey with
    | none => cases hwhole.mpr rfl
    | some pub => exact ⟨key, pub, setup_both ..⟩

/-- What each event of a run keeps, the run keeps. -/
theorem foldl_next {P : KeyRing Rsa → Prop} {events : List (MachineEvent Rsa)}
    (hstep : ∀ ring, P ring → ∀ event ∈ events, P (ring.next port event)) (h : P ring) :
    P (events.foldl (KeyRing.next port) ring) := by
  induction events generalizing ring with
  | nil => exact h
  | cons event events ih =>
    refine ih (fun ring hring other hmem => hstep ring hring other (List.mem_cons_of_mem _ hmem)) ?_
    exact hstep ring h event List.mem_cons_self

end KeyRing

/-! ## One identity -/

section Machine

variable {libs : Libraries} {crates : KeyCrates Rsa} {formats : KeyFormats Rsa}

/-- Private keys are imported where there is no public key. -/
def ImportsApart (crates : KeyCrates Rsa) (files : Files) : MachineEvent Rsa → Prop
  | .importPrivateKey port _ _ =>
      Config.readKey crates.base64Decode files (Config.publicKeyPathOf port) = []
  | _ => True

/-- Both keys have been read. -/
def Settings.HasKeys (config : Settings) : Prop := config.privateKey ≠ [] ∧ config.publicKey ≠ []

/-- The files of each port are about keys that match. -/
def PairedFiles (crates : KeyCrates Rsa) (formats : KeyFormats Rsa) (files : Files) : Prop :=
  ∃ rings, files.HoldAll crates formats rings ∧ ∀ port, (rings port).Matched

theorem pairedFiles_of_reachable (hcrates : crates.AsDocumented formats) {files : Files}
    (h : (machine libs crates formats).ReachableUnder (ImportsApart crates) files) :
    PairedFiles crates formats files := by
  refine h.invariant (fun files hinit => ?_) fun files event files' hfiles hok hnext => ?_
  · exact ⟨_, init_holds hcrates hinit, fun _ => KeyRing.Matched.of_public_none rfl⟩
  · obtain ⟨rings, hhold, hmatched⟩ := hfiles
    refine ⟨_, next_holds hcrates hhold hnext, fun port => (hmatched port).next fun himport => ?_⟩
    cases event with
    | importPrivateKey importing form rsa =>
      obtain rfl : importing = port := himport
      have hblank : (rings importing).publicBytes formats = [] :=
        (hhold importing).publicKey.symm.trans hok
      exact (KeyRing.publicBytes_eq_nil hcrates).mp hblank
    | start inputs => cases himport
    | losePrivateKey lost => cases himport
    | losePublicKey lost => cases himport

/-- A node with keys has been started from a pair. -/
theorem StartedAs.exists_pair (hcrates : crates.AsDocumented formats) {inputs : StartInputs Rsa}
    {port : Nat} {ring : KeyRing Rsa} {config : Settings} {node : Node}
    (h : StartedAs libs formats inputs port ring config node) (hkeys : config.HasKeys)
    (hmatched : ring.Matched) :
    ∃ form rsa, ring.privateKey = some (form, rsa) ∧ ring.publicKey = some rsa := by
  obtain ⟨hprivate, hpublic⟩ := hkeys
  rw [h.privateKey, Ne, KeyRing.privateBytes_eq_nil hcrates] at hprivate
  rw [h.publicKey, Ne, KeyRing.publicBytes_eq_nil hcrates] at hpublic
  obtain ⟨⟨form, rsa⟩, hown⟩ := Option.ne_none_iff_exists'.mp hprivate
  obtain ⟨pub, hpub⟩ := Option.ne_none_iff_exists'.mp hpublic
  obtain rfl := hmatched form rsa pub hown hpub
  exact ⟨form, pub, hown, hpub⟩

theorem StartedAs.of_pair {inputs : StartInputs Rsa} {port : Nat} {ring : KeyRing Rsa}
    {config : Settings} {node : Node} (h : StartedAs libs formats inputs port ring config node)
    {form : PrivateForm} {rsa : Rsa} (hprivate : ring.privateKey = some (form, rsa))
    (hpublic : ring.publicKey = some rsa) :
    config.privateKey = formats.privateDer form rsa ∧ config.publicKey = formats.publicDer rsa ∧
      node.nodeInfo.id = ownId libs.toCrates (formats.publicDer rsa) := by
  have hprivateKey : config.privateKey = formats.privateDer form rsa := by
    rw [h.privateKey, KeyRing.privateBytes, hprivate]
    rfl
  have hpublicKey : config.publicKey = formats.publicDer rsa := by
    rw [h.publicKey, KeyRing.publicBytes, hpublic]
    rfl
  refine ⟨hprivateKey, hpublicKey, ?_⟩
  rw [h.node, ← hpublicKey]
  rfl

/-- Where everything succeeds, a start that finds both files or neither has a
node with keys. -/
theorem exists_started (libs : Libraries) (hcrates : crates.AsDocumented formats) {files : Files}
    {rings : Nat → KeyRing Rsa} (hhold : files.HoldAll crates formats rings)
    {inputs : StartInputs Rsa} {port : Nat} (hport : inputs.port? = some port) {rsa : Rsa}
    (heffects : inputs.effects = .succeeding rsa)
    (hwhole : (rings port).privateKey = none ↔ (rings port).publicKey = none) :
    ∃ config node command, Command.parse inputs.args = .ok command ∧
      start libs crates inputs files =
        (.started config node command, (start libs crates inputs files).2) ∧
      config.port = port ∧ config.HasKeys := by
  obtain ⟨_, _, _, hruns⟩ := start_of_port? libs hcrates hport (hhold port)
  obtain ⟨key, pub, hsetup⟩ := KeyRing.setup_whole rsa port hwhole
  rw [heffects, hsetup] at hruns
  obtain ⟨config, node, command, hparse, hstart, hstarted⟩ := hruns rfl
  refine ⟨config, node, command, hparse, by rw [← hstart], hstarted.atPort, ?_, ?_⟩
  · rw [hstarted.privateKey, Ne, KeyRing.privateBytes_eq_nil hcrates]
    exact Option.some_ne_none key
  · rw [hstarted.publicKey, Ne, KeyRing.publicBytes_eq_nil hcrates]
    exact Option.some_ne_none pub

/-- Where one of the two has been kept, a start that has both keys has that
pair. -/
theorem KeyRing.pair_of_kept {form : PrivateForm} {rsa : Rsa} {ring : KeyRing Rsa}
    (hkept : ring.KeepsPrivate form rsa ∨ ring.KeepsPublic form rsa)
    (hprivate : ring.privateKey ≠ none) (hpublic : ring.publicKey ≠ none) :
    ring.privateKey = some (form, rsa) ∧ ring.publicKey = some rsa := by
  obtain hkept | hkept := hkept
  · obtain ⟨pub, hpub⟩ := Option.ne_none_iff_exists'.mp hpublic
    rw [hpub, hkept.publicKey pub hpub]
    exact ⟨hkept.privateKey, rfl⟩
  · obtain ⟨own, hown⟩ := Option.ne_none_iff_exists'.mp hprivate
    rw [hown, hkept.privateKey own hown]
    exact ⟨rfl, hkept.publicKey⟩

/-! ### Keys of one byte -/

def pemFile (bytes : Bytes) : String := String.ofList (Pem.armor ['K', 'E', 'Y'] [Pem.encode bytes])

theorem armors_pemFile (bytes : Bytes) : Pem.Armors (pemFile bytes).toList bytes := by
  refine ⟨['K', 'E', 'Y'], [Pem.encode bytes], ?_, List.append_nil _, String.toList_ofList⟩
  simp [Pem.IsLine]

def byteFormats : KeyFormats UInt8 where
  privateDer
    | .pkcs1, rsa => [1, rsa]
    | .pkcs8, rsa => [8, rsa]
  publicDer := fun rsa => [0, rsa]
  importedPem
    | .pkcs1, rsa => pemFile [1, rsa]
    | .pkcs8, rsa => pemFile [8, rsa]

def byteCrates : KeyCrates UInt8 where
  base64Decode := fun text => Pem.decode text.toList
  privateKeyToPemPkcs8 := fun rsa => pemFile [8, rsa]
  publicKeyToPem := fun rsa => pemFile [0, rsa]
  privateKeyFromDer
    | [1, rsa] => some rsa
    | _ => none

theorem byteCrates_asDocumented : byteCrates.AsDocumented byteFormats where
  base64 := fun _ => rfl
  privatePem := fun rsa => armors_pemFile [8, rsa]
  publicPem := fun rsa => armors_pemFile [0, rsa]
  importedPem := fun form rsa => by cases form <;> exact armors_pemFile _
  fromPkcs1 := fun _ => rfl
  fromPkcs8 := fun _ => rfl
  privateDer_ne := fun form _ => by cases form <;> exact List.cons_ne_nil _ _
  publicDer_ne := fun _ => List.cons_ne_nil _ _

/-- The signature of a payload is the key's byte and the payload. -/
def byteLibraries : Libraries :=
  { peerLibraries with
    openSsl :=
      { sign := fun der payload => .ok (der.drop 1 ++ payload)
        verify := fun der payload signature => .ok (signature = der.drop 1 ++ payload) } }

/-- A server at a port, with a key for it if it needs one. -/
def serveInputs (port : Nat) (rsa : UInt8) : StartInputs UInt8 where
  env := fun _ => none
  args := ["auction", "--port", toString port]
  effects := .succeeding rsa
  dataDirs := fun _ => { auctions := .absent, ledger := .absent }

theorem port?_serveInputs {port : Nat} (hport : port < 2 ^ 32) (rsa : UInt8) :
    (serveInputs port rsa).port? = some port := by
  have hline : (serveInputs port rsa).args = "auction" :: ["--port", toString port] := rfl
  have hgood : Command.parse (serveInputs port rsa).args = .ok .Serve ∧
      (serveInputs port rsa).port? = some port :=
    (StartInputs.port?_iff hline (by decide)).mpr
      ⟨[.flagged (toString port)], rfl, List.not_mem_nil, .serve, parseUnsigned_toString hport⟩
  exact hgood.2

/-- No files. -/
def noFiles : Files := fun _ => none

theorem init_noFiles : (machine byteLibraries byteCrates byteFormats).Init noFiles :=
  fun _ => ⟨rfl, rfl⟩

/-- **One identity**: a node and a later one at the same port have the same
keys and the same id, where no key has been imported at the port in between
and one of the two files has never been lost. -/
theorem identity_kept (hcrates : crates.AsDocumented formats) {files files' later last : Files}
    (hreach : (machine libs crates formats).ReachableUnder (ImportsApart crates) files)
    {inputs inputs' : StartInputs Rsa} {config config' : Settings} {node node' : Node}
    {command command' : Command} {events : List (MachineEvent Rsa)}
    (hstart : start libs crates inputs files = (.started config node command, files'))
    (hkeys : config.HasKeys) (hrun : (machine libs crates formats).run files' events = some later)
    (himports : ∀ event ∈ events, ¬ KeyRing.Imports config.port event)
    (hlost : .losePrivateKey config.port ∉ events ∨ .losePublicKey config.port ∉ events)
    (hlater : start libs crates inputs' later = (.started config' node' command', last))
    (hkeys' : config'.HasKeys) (hport : config'.port = config.port) :
    config'.privateKey = config.privateKey ∧ config'.publicKey = config.publicKey ∧
      node'.nodeInfo.id = node.nodeInfo.id := by
  obtain ⟨rings, hhold, hmatched⟩ := pairedFiles_of_reachable hcrates hreach
  obtain ⟨_, hstarts, _, hstarted⟩ := started_inv hcrates hhold hstart
  obtain ⟨form, rsa, hprivate, hpublic⟩ :=
    hstarted.exists_pair hcrates hkeys ((hmatched config.port).setup inputs.effects config.port)
  have hnext : (machine libs crates formats).next files (.start inputs) = some files' := by
    show some (start libs crates inputs files).2 = some files'
    rw [hstart]
  have hring : (rings config.port).next config.port (.start inputs) =
      ((rings config.port).setup inputs.effects config.port).2 := if_pos hstarts
  have hlaterHold := run_holds hcrates (next_holds hcrates hhold hnext) hrun
  obtain ⟨_, _, _, hstarted'⟩ := started_inv hcrates hlaterHold hlater
  rw [hport] at hstarted'
  -- What has not been lost is there when the second start begins, and after it.
  have hkept : (events.foldl (KeyRing.next config.port)
        ((rings config.port).next config.port (.start inputs))).KeepsPrivate form rsa ∨
      (events.foldl (KeyRing.next config.port)
        ((rings config.port).next config.port (.start inputs))).KeepsPublic form rsa := by
    rw [hring]
    obtain hlost | hlost := hlost
    · refine Or.inl (KeyRing.foldl_next (fun ring hkept event hmem => ?_) ⟨hprivate, ?_⟩)
      · exact hkept.next (himports event hmem) fun heq => hlost (heq ▸ hmem)
      · intro pub hpub
        exact Option.some.inj (hpub.symm.trans hpublic)
    · refine Or.inr (KeyRing.foldl_next (fun ring hkept event hmem => ?_) ⟨?_, hpublic⟩)
      · exact hkept.next (himports event hmem) fun heq => hlost (heq ▸ hmem)
      · intro own hown
        exact Option.some.inj (hown.symm.trans hprivate)
  have hkept' := hkept.imp (fun h => h.setup inputs'.effects config.port)
    fun h => h.setup inputs'.effects config.port
  obtain ⟨hprivateKeys, hpublicKeys⟩ := hkeys'
  rw [hstarted'.privateKey, Ne, KeyRing.privateBytes_eq_nil hcrates] at hprivateKeys
  rw [hstarted'.publicKey, Ne, KeyRing.publicBytes_eq_nil hcrates] at hpublicKeys
  obtain ⟨hprivate', hpublic'⟩ := KeyRing.pair_of_kept hkept' hprivateKeys hpublicKeys
  obtain ⟨hown, hpub, hid⟩ := hstarted.of_pair hprivate hpublic
  obtain ⟨hown', hpub', hid'⟩ := hstarted'.of_pair hprivate' hpublic'
  exact ⟨hown'.trans hown.symm, hpub'.trans hpub.symm, hid'.trans hid.symm⟩

/-- The private key at another port is lost, and the next start is offered
another key. -/
theorem identity_kept_serve : ∃ config node command files' config' node' command' last,
    start byteLibraries byteCrates (serveInputs 8000 7) noFiles =
        (.started config node command, files') ∧
      start byteLibraries byteCrates (serveInputs 8000 9)
          (Function.update files' (Config.privateKeyPathOf 9000) none) =
        (.started config' node' command', last) ∧
      config'.privateKey = config.privateKey ∧ config'.publicKey = config.publicKey ∧
      node'.nodeInfo.id = node.nodeInfo.id := by
  have hcrates := byteCrates_asDocumented
  have hport := fun rsa => port?_serveInputs (show 8000 < 2 ^ 32 by decide) rsa
  have hempty := init_holds hcrates init_noFiles
  obtain ⟨config, node, command, _, hstart, hatPort, hkeys⟩ :=
    exists_started byteLibraries hcrates hempty (hport 7) rfl KeyRing.empty_whole
  have hfirst := next_holds hcrates hempty
    (show (machine byteLibraries byteCrates byteFormats).next noFiles
      (.start (serveInputs 8000 7)) = some _ from rfl)
  have hlater := next_holds hcrates hfirst
    (show (machine byteLibraries byteCrates byteFormats).next _ (.losePrivateKey 9000) =
      some _ from rfl)
  obtain ⟨config', node', command', _, hstart', hatPort', hkeys'⟩ :=
    exists_started byteLibraries hcrates hlater (hport 9) rfl (by
      unfold KeyRing.next
      dsimp only
      rw [if_neg (by decide), if_pos (hport 7)]
      decide)
  refine ⟨config, node, command, _, config', node', command', _, hstart, hstart', ?_⟩
  refine identity_kept hcrates (.init init_noFiles) hstart hkeys
    (show (machine byteLibraries byteCrates byteFormats).run _ [.losePrivateKey 9000] =
      some _ from rfl) ?_ ?_ hstart' hkeys' (hatPort'.trans hatPort.symm)
  · intro event hmem
    obtain rfl := List.mem_singleton.mp hmem
    exact id
  · exact Or.inr (by simp)

/-! ## Which lines start a node -/

/-- Private keys are imported in PKCS#8. -/
def Pkcs8Imports (_ : Files) : MachineEvent Rsa → Prop
  | .importPrivateKey _ form _ => form = .pkcs8
  | _ => True

/-- The files of each port are about keys in PKCS#8. -/
def Pkcs8Files (crates : KeyCrates Rsa) (formats : KeyFormats Rsa) (files : Files) : Prop :=
  ∃ rings, files.HoldAll crates formats rings ∧ ∀ port, (rings port).InPkcs8

theorem pkcs8Files_of_reachable (hcrates : crates.AsDocumented formats) {files : Files}
    (h : (machine libs crates formats).ReachableUnder Pkcs8Imports files) :
    Pkcs8Files crates formats files := by
  refine h.invariant (fun files hinit => ?_) fun files event files' hfiles hok hnext => ?_
  · exact ⟨_, init_holds hcrates hinit, fun _ _ _ hown => nomatch hown⟩
  · obtain ⟨rings, hhold, hform⟩ := hfiles
    refine ⟨_, next_holds hcrates hhold hnext, fun port => (hform port).next ?_⟩
    rintro importing form own rfl
    exact hok

/-- Exactly one of a port's files can be read, or not exactly one. -/
theorem Files.Hold.half_iff (hcrates : crates.AsDocumented formats) {files : Files} {port : Nat}
    {ring : KeyRing Rsa} (h : files.Hold crates formats port ring) :
    (Config.readKey crates.base64Decode files (Config.privateKeyPathOf port) = [] ↔
        Config.readKey crates.base64Decode files (Config.publicKeyPathOf port) = []) ↔
      (ring.privateKey = none ↔ ring.publicKey = none) := by
  rw [h.privateKey, h.publicKey, KeyRing.privateBytes_eq_nil hcrates,
    KeyRing.publicBytes_eq_nil hcrates]

/-- **The lines that start a node**: those that are made of a command's tokens
and of flags with values, of which the first is a port, where both or neither
of the port's key files can be read. -/
theorem starts_iff (hcrates : crates.AsDocumented formats) {files : Files}
    (hreach : (machine libs crates formats).ReachableUnder Pkcs8Imports files)
    {inputs : StartInputs Rsa} {rsa : Rsa} (heffects : inputs.effects = .succeeding rsa)
    {program : String} {line : List String} (hargs : inputs.args = program :: line)
    (hprogram : program ≠ "--port") (port : Nat) (command : Command) :
    (∃ config node, (start libs crates inputs files).1 = .started config node command ∧
        config.port = port) ↔
      (∃ pieces, line = FlagArgs.render "--port" pieces ∧ "--port" ∉ FlagArgs.tokens pieces ∧
        Command.Denotes (FlagArgs.tokens pieces) command ∧
        (pieces.findSome? FlagArgs.Piece.value?).bind (parseUnsigned 32) = some port) ∧
      (Config.readKey crates.base64Decode files (Config.privateKeyPathOf port) = [] ↔
        Config.readKey crates.base64Decode files (Config.publicKeyPathOf port) = []) := by
  obtain ⟨rings, hhold, hform⟩ := pkcs8Files_of_reachable hcrates hreach
  rw [← StartInputs.port?_iff hargs hprogram, (hhold port).half_iff hcrates]
  constructor
  · rintro ⟨config, node, hstart, rfl⟩
    have hpair : start libs crates inputs files =
        (.started config node command, (start libs crates inputs files).2) := by rw [← hstart]
    obtain ⟨hparse, hport, hok, _⟩ := started_inv hcrates hhold hpair
    refine ⟨⟨hparse, hport⟩, ?_⟩
    by_contra hhalf
    rw [KeyRing.setup_half inputs.effects config.port (hform config.port) hhalf] at hok
    cases hok
  · rintro ⟨⟨hparse, hport⟩, hwhole⟩
    obtain ⟨config, node, command', hparse', hstart, hatPort, _⟩ :=
      exists_started libs hcrates hhold hport heffects hwhole
    obtain rfl : command' = command := Except.ok.inj (hparse'.symm.trans hparse)
    exact ⟨config, node, by rw [hstart], hatPort⟩

theorem starts_iff_serve : ∃ config node,
    (start byteLibraries byteCrates (serveInputs 8000 7) noFiles).1 =
        .started config node .Serve ∧ config.port = 8000 := by
  refine (starts_iff byteCrates_asDocumented (.init init_noFiles) rfl rfl (by decide) 8000
    .Serve).mpr ⟨⟨[.flagged "8000"], rfl, List.not_mem_nil, .serve, by decide +kernel⟩, ?_⟩
  have hhold := init_holds byteCrates_asDocumented init_noFiles 8000
  rw [hhold.half_iff byteCrates_asDocumented]
  exact KeyRing.empty_whole

/-! ## Half an identity -/

/-- The event makes or removes a key file of the port, other than by a
start. -/
def Touches (port : Nat) : MachineEvent Rsa → Prop
  | .start _ => False
  | .losePrivateKey lost => lost = port
  | .losePublicKey lost => lost = port
  | .importPrivateKey importing _ _ => importing = port

theorem KeyRing.next_half {port : Nat} {ring : KeyRing Rsa} {event : MachineEvent Rsa}
    (hform : ring.InPkcs8) (hhalf : ¬ (ring.privateKey = none ↔ ring.publicKey = none))
    (htouches : ¬ Touches port event) : ring.next port event = ring := by
  unfold KeyRing.next
  cases event with
  | start inputs =>
    dsimp only
    rw [setup_half inputs.effects port hform hhalf, ite_self]
  | losePrivateKey lost => exact if_neg htouches
  | losePublicKey lost => exact if_neg htouches
  | importPrivateKey importing form own => exact if_neg htouches

/-- **Half an identity**: where one of a port's files cannot be read, every
start at the port panics until somebody puts a file there or takes the other
away, and so the public key of a private one is never made. -/
theorem half_lost (hcrates : crates.AsDocumented formats) {files later : Files}
    (hreach : (machine libs crates formats).ReachableUnder Pkcs8Imports files) {port : Nat}
    (hhalf : ¬ (Config.readKey crates.base64Decode files (Config.privateKeyPathOf port) = [] ↔
      Config.readKey crates.base64Decode files (Config.publicKeyPathOf port) = []))
    {events : List (MachineEvent Rsa)} (htouches : ∀ event ∈ events, ¬ Touches port event)
    (hrun : (machine libs crates formats).run files events = some later)
    {inputs : StartInputs Rsa} (hport : inputs.port? = some port) :
    (start libs crates inputs later).1 = .panicked
      (if Config.readKey crates.base64Decode files (Config.privateKeyPathOf port) = [] then
        "Public key is provided but private key is missing! Aborting."
      else "Failed to parse private key") := by
  obtain ⟨rings, hhold, hform⟩ := pkcs8Files_of_reachable hcrates hreach
  rw [(hhold port).half_iff hcrates] at hhalf
  have hsame : events.foldl (KeyRing.next port) (rings port) = rings port := by
    refine KeyRing.foldl_next (P := fun ring => ring = rings port)
      (fun ring hring event hmem => ?_) rfl
    subst hring
    exact KeyRing.next_half (hform port) hhalf (htouches event hmem)
  have hlater := run_holds hcrates hhold hrun port
  dsimp only at hlater
  rw [hsame] at hlater
  obtain ⟨_, _, hpanics, _⟩ := start_of_port? libs hcrates hport hlater
  rw [hpanics _ (by rw [KeyRing.setup_half inputs.effects port (hform port) hhalf])]
  unfold KeyRing.halfText
  rw [(hhold port).privateKey]
  simp only [KeyRing.privateBytes_eq_nil hcrates]

/-- A port's public key is lost, and the port is tried twice. -/
theorem half_lost_serve :
    let lost := Function.update (start byteLibraries byteCrates (serveInputs 8000 7) noFiles).2
      (Config.publicKeyPathOf 8000) none
    (start byteLibraries byteCrates (serveInputs 8000 9)
      (start byteLibraries byteCrates (serveInputs 8000 8) lost).2).1 =
      .panicked "Failed to parse private key" := by
  intro lost
  have hcrates := byteCrates_asDocumented
  have hport := fun rsa => port?_serveInputs (show 8000 < 2 ^ 32 by decide) rsa
  have hfirst := next_holds hcrates (init_holds hcrates init_noFiles)
    (show (machine byteLibraries byteCrates byteFormats).next noFiles
      (.start (serveInputs 8000 7)) = some _ from rfl)
  have hlost := next_holds hcrates hfirst
    (show (machine byteLibraries byteCrates byteFormats).next _ (.losePublicKey 8000) =
      some lost from rfl) 8000
  have hring : ((KeyRing.empty : KeyRing UInt8).next 8000 (.start (serveInputs 8000 7))).next 8000
      (.losePublicKey 8000) = { privateKey := some (.pkcs8, 7), publicKey := none } := by
    unfold KeyRing.next
    dsimp only
    rw [if_pos rfl, if_pos (hport 7)]
    rfl
  dsimp only at hlost
  rw [hring] at hlost
  have hreach : (machine byteLibraries byteCrates byteFormats).ReachableUnder Pkcs8Imports lost :=
    .step (.step (.init init_noFiles)
      (show Pkcs8Imports noFiles (.start (serveInputs 8000 7)) from trivial) rfl)
      (show Pkcs8Imports _ (.losePublicKey 8000 : MachineEvent UInt8) from trivial) rfl
  have hhalf : ¬ (Config.readKey byteCrates.base64Decode lost (Config.privateKeyPathOf 8000) = [] ↔
      Config.readKey byteCrates.base64Decode lost (Config.publicKeyPathOf 8000) = []) := by
    rw [hlost.half_iff hcrates]
    decide
  have huntouched : ∀ event ∈ [MachineEvent.start (serveInputs 8000 8)], ¬ Touches 8000 event := by
    intro event hmem
    obtain rfl := List.mem_singleton.mp hmem
    exact id
  have hpanic := half_lost hcrates hreach hhalf huntouched rfl (hport 9)
  rw [hlost.privateKey] at hpanic
  exact hpanic

/-! ## Nodes of machines -/

/-- OpenSSL signs with either form of a private key, and what it signs verifies
with the public key. -/
def KeysFit (libs : Libraries) (formats : KeyFormats Rsa) : Prop :=
  ∀ form rsa payload, ∃ signature,
    libs.openSsl.sign (formats.privateDer form rsa) payload = .ok signature ∧
      libs.openSsl.verify (formats.publicDer rsa) payload signature = .ok true

theorem byteLibraries_fit : KeysFit byteLibraries byteFormats := by
  intro form rsa payload
  refine ⟨[rsa] ++ payload, by cases form <;> rfl, ?_⟩
  show Except.ok (decide ([rsa] ++ payload = [rsa] ++ payload)) = .ok true
  rw [decide_eq_true rfl]

/-- A node with keys is who it says it is. -/
theorem started_genuine (hcrates : crates.AsDocumented formats) (hfit : KeysFit libs formats)
    {files : Files} (hreach : (machine libs crates formats).ReachableUnder (ImportsApart crates) files)
    {inputs : StartInputs Rsa} {config : Settings} {node : Node} {command : Command}
    (hstart : (start libs crates inputs files).1 = .started config node command)
    (hkeys : config.HasKeys) :
    node.Genuine libs ∧ node.config.challengeDifficulty < 2 ^ 32 := by
  obtain ⟨rings, hhold, hmatched⟩ := pairedFiles_of_reachable hcrates hreach
  have hpair : start libs crates inputs files =
      (.started config node command, (start libs crates inputs files).2) := by rw [← hstart]
  obtain ⟨_, _, _, hstarted⟩ := started_inv hcrates hhold hpair
  obtain ⟨form, rsa, hprivate, hpublic⟩ :=
    hstarted.exists_pair hcrates hkeys ((hmatched config.port).setup inputs.effects config.port)
  obtain ⟨hown, hpub, hid⟩ := hstarted.of_pair hprivate hpublic
  have hconfig : node.config = config.toConfig := by
    rw [hstarted.node]
    rfl
  refine ⟨⟨?_, fun payload => ?_⟩, ?_⟩
  · rw [hid, hconfig, hpub]
  · rw [hconfig, hown, hpub]
    exact hfit form rsa payload
  · rw [hconfig]
    exact hstarted.inU32.2

/-- **Any two nodes**, started on machines, at any time later: the one opens
what the other sends, so that it gives out its challenge and answers with
whether the nonce solves it. -/
theorem started_serves (hcrates : crates.AsDocumented formats) (hfit : KeysFit libs formats)
    (hproto3 : libs.prost.IsProto3) {files files' : Files}
    (hreach : (machine libs crates formats).ReachableUnder (ImportsApart crates) files)
    (hreach' : (machine libs crates formats).ReachableUnder (ImportsApart crates) files')
    {inputs inputs' : StartInputs Rsa} {config config' : Settings} {node node' : Node}
    {command command' : Command}
    (hstart : (start libs crates inputs files).1 = .started config node command)
    (hkeys : config.HasKeys)
    (hstart' : (start libs crates inputs' files').1 = .started config' node' command')
    (hkeys' : config'.HasKeys) {server : Server}
    (hserver : server.host.node.nodeInfo = node.nodeInfo ∧ server.host.node.config = node.config)
    {client : Node} (hclient : client.nodeInfo = node'.nodeInfo ∧ client.config = node'.config)
    (rpcInputs : Inputs) (nodeIp : String) (nodePort : Nat) :
    server.Serves libs client ∧
      Client.bootstrap libs client nodeIp nodePort (server.link libs .bootstrap rpcInputs) =
        .ok (toString rpcInputs.challenge.toNat, node.config.challengeDifficulty) ∧
      ∀ nonce < 2 ^ 64,
        Client.challengeResolution libs client nodeIp nodePort
            (server.link libs .challengeResolution rpcInputs) nonce =
          .ok (server.wouldAccept libs.toCrates node'.nodeInfo.id nonce rpcInputs.now,
            node.nodeInfo) := by
  obtain ⟨hgenuine, hdifficulty⟩ := started_genuine hcrates hfit hreach hstart hkeys
  obtain ⟨hgenuine', _⟩ := started_genuine hcrates hfit hreach' hstart' hkeys'
  have hserves : server.Serves libs client :=
    { proto3 := hproto3
      client := hgenuine'.congr hclient.1 hclient.2
      server := hgenuine.congr hserver.1 hserver.2 }
  refine ⟨hserves, ?_, fun nonce hnonce => ?_⟩
  · rw [Client.bootstrap_link hserves rpcInputs nodeIp nodePort (by rw [hserver.2]; exact hdifficulty),
      hserver.2]
  · rw [Client.challengeResolution_link hserves rpcInputs nodeIp nodePort hnonce, hclient.1,
      hserver.1]

theorem started_serves_machine : ∃ config node command config' node' command',
    (start byteLibraries byteCrates (serveInputs 8000 7) noFiles).1 =
        .started config node command ∧
      (start byteLibraries byteCrates (serveInputs 8001 9)
          (start byteLibraries byteCrates (serveInputs 8000 7) noFiles).2).1 =
        .started config' node' command' ∧
      Client.bootstrap byteLibraries node' "127.0.0.1" 8000
          ((Server.new { node, disk := { auctions := .absent, ledger := .absent } }).link
            byteLibraries .bootstrap sampleInputs) =
        .ok ("0", node.config.challengeDifficulty) := by
  have hcrates := byteCrates_asDocumented
  have hempty := init_holds hcrates init_noFiles
  have hport := port?_serveInputs (show 8000 < 2 ^ 32 by decide) 7
  have hport' := port?_serveInputs (show 8001 < 2 ^ 32 by decide) 9
  have hnext : (machine byteLibraries byteCrates byteFormats).next noFiles
      (.start (serveInputs 8000 7)) = some _ := rfl
  have hfirst := next_holds hcrates hempty hnext
  obtain ⟨config, node, command, _, hstart, _, hkeys⟩ :=
    exists_started byteLibraries hcrates hempty hport rfl KeyRing.empty_whole
  obtain ⟨config', node', command', _, hstart', _, hkeys'⟩ :=
    exists_started byteLibraries hcrates hfirst hport' rfl (by
      unfold KeyRing.next
      dsimp only
      rw [hport]
      decide)
  have hreach : (machine byteLibraries byteCrates byteFormats).ReachableUnder
      (ImportsApart byteCrates) noFiles := .init init_noFiles
  refine ⟨config, node, command, config', node', command', by rw [hstart], by rw [hstart'], ?_⟩
  have hserver : (Server.new { node, disk := { auctions := .absent, ledger := .absent } }).host.node =
      node := rfl
  have hserves := started_serves hcrates byteLibraries_fit Prost.isProto3_proto3 hreach
    (.step hreach (show ImportsApart byteCrates noFiles (.start (serveInputs 8000 7)) from trivial)
      hnext) (by rw [hstart]) hkeys (by rw [hstart']) hkeys'
    ⟨congrArg Node.nodeInfo hserver, congrArg Node.config hserver⟩
    (show node'.nodeInfo = _ ∧ _ from ⟨rfl, rfl⟩) sampleInputs "127.0.0.1" 8000
  exact hserves.2.1

end Machine

end KademliaAuction
