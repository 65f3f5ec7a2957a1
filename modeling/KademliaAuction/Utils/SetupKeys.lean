/-
KademliaAuction.Utils.SetupKeys — making and completing the key pair of a node
(`setup_keys` and what it calls of `src/utils/crypto_own.rs`).

The keys of a port are two PEM files. A start makes both when neither can be
read, makes the public one from a private one, and panics when only the public
one is there. A file is emptied when it is created and filled when its
`BufWriter` is dropped, so a write that fails leaves it empty, and nobody is
told.

`KeyRing` says what the files of a port are about: which key each one has, and
the private one in which form. `setupKeys_refines`: a start does to the files
what `KeyRing.setup` does to the ring, and goes on with the keys that the ring
has then. There `Rsa::private_key_from_der` matters: it reads PKCS#1, and the
files that the program writes itself are PKCS#8.
-/
import KademliaAuction.Utils.ReadConfig

namespace KademliaAuction

open Lib Proto

variable {Rsa : Type}

/-- What the key files need of other crates. -/
structure KeyCrates (Rsa : Type) where
  base64Decode : String → Option Bytes
  privateKeyToPemPkcs8 : Rsa → String
  publicKeyToPem : Rsa → String
  privateKeyFromDer : Bytes → Option Rsa

/-- How generating a key and the file operations of one start end: whether the
directory of a file can be made, whether the file can be created, and whether
its writer can write when it is dropped. -/
structure KeyEffects (Rsa : Type) where
  generated : Option Rsa
  createDir : String → Bool
  create : String → Bool
  flush : String → Bool

/-- Everything succeeds, and this is the new key. -/
def KeyEffects.succeeding (rsa : Rsa) : KeyEffects Rsa where
  generated := some rsa
  createDir := fun _ => true
  create := fun _ => true
  flush := fun _ => true

/-- `File::create`, where it succeeds. -/
def Files.created (files : Files) (path : String) : Files := Function.update files path (some "")

/-- The `BufWriter` of a created file is dropped. -/
def Files.dropped (files : Files) (effects : KeyEffects Rsa) (path text : String) : Files :=
  if effects.flush path then Function.update files path (some text) else files

variable (crates : KeyCrates Rsa) (effects : KeyEffects Rsa)

/-- `create_rsa_key_pair`. -/
def createRsaKeyPair (files : Files) (privateKeyPath publicKeyPath : String) :
    Except String Unit × Files :=
  match effects.generated with
  | none => (.error "Failed to generate RSA key", files)
  | some rsa =>
      if effects.createDir privateKeyPath = false ∨ effects.createDir publicKeyPath = false then
        (.error "Failed to create key directory", files)
      else if effects.create privateKeyPath = false then
        (.error "Failed to create private key file", files)
      else
        let files := files.created privateKeyPath
        if effects.create publicKeyPath = false then
          -- The panic drops the writer of the private key.
          (.error "Failed to create public key file",
            files.dropped effects privateKeyPath (crates.privateKeyToPemPkcs8 rsa))
        else
          let files := files.created publicKeyPath
          let files := files.dropped effects publicKeyPath (crates.publicKeyToPem rsa)
          (.ok (), files.dropped effects privateKeyPath (crates.privateKeyToPemPkcs8 rsa))

/-- `generate_public_key_from_private`. -/
def generatePublicKeyFromPrivate (files : Files) (privateKeyDer : Bytes) (publicKeyPath : String) :
    Except String Unit × Files :=
  match crates.privateKeyFromDer privateKeyDer with
  | none => (.error "Failed to parse private key", files)
  | some rsa =>
      if effects.createDir publicKeyPath = false then
        (.error "Failed to create key directory", files)
      else if effects.create publicKeyPath = false then
        (.error "Failed to create public key file", files)
      else
        let files := files.created publicKeyPath
        (.ok (), files.dropped effects publicKeyPath (crates.publicKeyToPem rsa))

/-- `setup_keys`: the configuration and the files after it, or the text of the
panic. -/
def setupKeys (files : Files) (config : Settings) : Except String Settings × Files :=
  let readKey := Config.readKey crates.base64Decode
  if config.privateKey.isEmpty && config.publicKey.isEmpty then
    match createRsaKeyPair crates effects files config.privateKeyPath config.publicKeyPath with
    | (.error e, files) => (.error e, files)
    | (.ok (), files) =>
        (.ok { config with
          privateKey := readKey files config.privateKeyPath
          publicKey := readKey files config.publicKeyPath }, files)
  else if config.privateKey.isEmpty then
    (.error "Public key is provided but private key is missing! Aborting.", files)
  else if config.publicKey.isEmpty then
    match generatePublicKeyFromPrivate crates effects files config.privateKey
      config.publicKeyPath with
    | (.error e, files) => (.error e, files)
    | (.ok (), files) =>
        (.ok { config with publicKey := readKey files config.publicKeyPath }, files)
  else (.ok config, files)

/-! ## Key rings -/

/-- The two encodings of a private key. -/
inductive PrivateForm where
  | pkcs1
  | pkcs8
  deriving DecidableEq

/-- The keys that the files of a port are about. -/
@[ext] structure KeyRing (Rsa : Type) where
  privateKey : Option (PrivateForm × Rsa)
  publicKey : Option Rsa

/-- The encodings, and the files that other tools write of a private key. -/
structure KeyFormats (Rsa : Type) where
  privateDer : PrivateForm → Rsa → Bytes
  publicDer : Rsa → Bytes
  importedPem : PrivateForm → Rsa → String

/-- OpenSSL as documented: PKCS#8 files are written, and PKCS#1 is read. -/
structure KeyCrates.AsDocumented (crates : KeyCrates Rsa) (formats : KeyFormats Rsa) : Prop where
  base64 : Config.IsBase64 crates.base64Decode
  privatePem : ∀ rsa, Pem.Armors (crates.privateKeyToPemPkcs8 rsa).toList
    (formats.privateDer .pkcs8 rsa)
  publicPem : ∀ rsa, Pem.Armors (crates.publicKeyToPem rsa).toList (formats.publicDer rsa)
  importedPem : ∀ form rsa, Pem.Armors (formats.importedPem form rsa).toList
    (formats.privateDer form rsa)
  fromPkcs1 : ∀ rsa, crates.privateKeyFromDer (formats.privateDer .pkcs1 rsa) = some rsa
  fromPkcs8 : ∀ rsa, crates.privateKeyFromDer (formats.privateDer .pkcs8 rsa) = none
  privateDer_ne : ∀ form rsa, formats.privateDer form rsa ≠ []
  publicDer_ne : ∀ rsa, formats.publicDer rsa ≠ []

namespace KeyRing

/-- No key at all. -/
def empty : KeyRing Rsa where
  privateKey := none
  publicKey := none

/-- What is read from the private file. -/
def privateBytes (formats : KeyFormats Rsa) (ring : KeyRing Rsa) : Bytes :=
  (ring.privateKey.map fun (form, rsa) => formats.privateDer form rsa).getD []

/-- What is read from the public file. -/
def publicBytes (formats : KeyFormats Rsa) (ring : KeyRing Rsa) : Bytes :=
  (ring.publicKey.map formats.publicDer).getD []

/-- A new pair. -/
def create (effects : KeyEffects Rsa) (port : Nat) : Except String Unit × KeyRing Rsa :=
  let privatePath := Config.privateKeyPathOf port
  let publicPath := Config.publicKeyPathOf port
  match effects.generated with
  | none => (.error "Failed to generate RSA key", empty)
  | some rsa =>
      let written : Option (PrivateForm × Rsa) :=
        if effects.flush privatePath then some (.pkcs8, rsa) else none
      if effects.createDir privatePath = false ∨ effects.createDir publicPath = false then
        (.error "Failed to create key directory", empty)
      else if effects.create privatePath = false then
        (.error "Failed to create private key file", empty)
      else if effects.create publicPath = false then
        (.error "Failed to create public key file", { privateKey := written, publicKey := none })
      else
        (.ok (),
          { privateKey := written
            publicKey := if effects.flush publicPath then some rsa else none })

/-- The public key of a PKCS#1 key. -/
def derive (effects : KeyEffects Rsa) (port : Nat) (rsa : Rsa) :
    Except String Unit × KeyRing Rsa :=
  let publicPath := Config.publicKeyPathOf port
  let ring : KeyRing Rsa := { privateKey := some (.pkcs1, rsa), publicKey := none }
  if effects.createDir publicPath = false then (.error "Failed to create key directory", ring)
  else if effects.create publicPath = false then
    (.error "Failed to create public key file", ring)
  else
    (.ok (), { ring with publicKey := if effects.flush publicPath then some rsa else none })

/-- A start at a port. -/
def setup (effects : KeyEffects Rsa) (port : Nat) (ring : KeyRing Rsa) :
    Except String Unit × KeyRing Rsa :=
  match ring.privateKey, ring.publicKey with
  | none, none => create effects port
  | none, some _ =>
      (.error "Public key is provided but private key is missing! Aborting.", ring)
  | some (.pkcs1, rsa), none => derive effects port rsa
  | some (.pkcs8, _), none => (.error "Failed to parse private key", ring)
  | some _, some _ => (.ok (), ring)

/-- The private file stays as it is. -/
theorem derive_privateKey (effects : KeyEffects Rsa) (port : Nat) (rsa : Rsa) :
    (derive effects port rsa).2.privateKey = some (.pkcs1, rsa) := by
  unfold derive
  dsimp only
  split
  · rfl
  split <;> rfl

/-- Nothing is done where both files are there. -/
theorem setup_both (effects : KeyEffects Rsa) (port : Nat) (key : PrivateForm × Rsa) (rsa : Rsa) :
    setup effects port { privateKey := some key, publicKey := some rsa } =
      (.ok (), { privateKey := some key, publicKey := some rsa }) := by
  obtain ⟨form, own⟩ := key
  cases form <;> rfl

/-- **All that a start can do to a ring**: nothing, a new pair, of which each
part is written or lost, or the public key of a PKCS#1 key. -/
theorem setup_cases (effects : KeyEffects Rsa) (port : Nat) (ring : KeyRing Rsa) :
    (ring.setup effects port).2 = ring ∨
      (ring = empty ∧ ∃ rsa,
        ((ring.setup effects port).2.privateKey = some (.pkcs8, rsa) ∨
          (ring.setup effects port).2.privateKey = none) ∧
        ((ring.setup effects port).2.publicKey = some rsa ∨
          (ring.setup effects port).2.publicKey = none)) ∨
      ∃ rsa, ring = { privateKey := some (.pkcs1, rsa), publicKey := none } ∧
        (ring.setup effects port).2 =
          { privateKey := some (.pkcs1, rsa), publicKey := some rsa } := by
  obtain ⟨privateKey, publicKey⟩ := ring
  cases privateKey with
  | none =>
    cases publicKey with
    | some rsa => exact Or.inl rfl
    | none =>
      unfold setup create
      dsimp only
      cases effects.generated with
      | none => exact Or.inl rfl
      | some rsa =>
        refine Or.inr (Or.inl ⟨rfl, rsa, ?_⟩)
        cases effects.flush (Config.privateKeyPathOf port) <;>
          cases effects.flush (Config.publicKeyPathOf port) <;>
          dsimp only <;> split_ifs <;> simp [empty]
  | some key =>
    obtain ⟨form, rsa⟩ := key
    cases publicKey with
    | some own => exact Or.inl (by rw [setup_both])
    | none =>
      cases form with
      | pkcs8 => exact Or.inl rfl
      | pkcs1 =>
        unfold setup derive
        dsimp only
        cases effects.flush (Config.publicKeyPathOf port) <;> split_ifs <;> simp

end KeyRing

/-! ## The files of a port -/

/-- The files of a port are about this ring. -/
structure Files.Hold (files : Files) (crates : KeyCrates Rsa) (formats : KeyFormats Rsa)
    (port : Nat) (ring : KeyRing Rsa) : Prop where
  privateKey : Config.readKey crates.base64Decode files (Config.privateKeyPathOf port) =
    ring.privateBytes formats
  publicKey : Config.readKey crates.base64Decode files (Config.publicKeyPathOf port) =
    ring.publicBytes formats

/-- The settings have the port's paths and what has been read from them. -/
structure Settings.ReadFrom (config : Settings) (crates : KeyCrates Rsa) (files : Files) : Prop where
  privateKeyPath : config.privateKeyPath = Config.privateKeyPathOf config.port
  publicKeyPath : config.publicKeyPath = Config.publicKeyPathOf config.port
  privateKey : config.privateKey =
    Config.readKey crates.base64Decode files config.privateKeyPath
  publicKey : config.publicKey = Config.readKey crates.base64Decode files config.publicKeyPath

/-- The settings with the keys of a ring. -/
def Settings.withKeys (config : Settings) (formats : KeyFormats Rsa) (ring : KeyRing Rsa) :
    Settings :=
  { config with
    privateKey := ring.privateBytes formats
    publicKey := ring.publicBytes formats }

/-- The files are the same but for the key files of a port. -/
def Files.SameBeside (files files' : Files) (port : Nat) : Prop :=
  ∀ path, path ≠ Config.privateKeyPathOf port → path ≠ Config.publicKeyPathOf port →
    files' path = files path

theorem Files.created_self (files : Files) (path : String) : (files.created path) path = some "" :=
  Function.update_self _ _ _

/-- The file of a writer, which is empty until then. -/
theorem Files.dropped_self {files : Files} {path : String} (h : files path = some "")
    (text : String) :
    (files.dropped effects path text) path =
      some (if effects.flush path then text else "") := by
  unfold Files.dropped
  split
  · exact Function.update_self _ _ _
  · exact h

theorem Files.dropped_ne (files : Files) {path path' : String} (h : path' ≠ path)
    (text : String) : (files.dropped effects path text) path' = files path' := by
  unfold Files.dropped
  split
  · exact Function.update_of_ne h _ _
  · rfl

theorem Files.created_ne (files : Files) {path path' : String} (h : path' ≠ path) :
    (files.created path) path' = files path' :=
  Function.update_of_ne h _ _

/-- What has been done to the files of a port is what has been done to a
ring. -/
structure RefinesRing (crates : KeyCrates Rsa) (formats : KeyFormats Rsa) (files : Files)
    (port : Nat) (made : Except String Unit × Files) (ringMade : Except String Unit × KeyRing Rsa) :
    Prop where
  result : made.1 = ringMade.1
  hold : made.2.Hold crates formats port ringMade.2
  beside : files.SameBeside made.2 port

section Refinement

variable {crates} {formats : KeyFormats Rsa} (hcrates : crates.AsDocumented formats)
  {files : Files} {port : Nat}

include hcrates

/-- A file that has been written with a PEM text, or has been left empty. -/
theorem readKey_written {path : String} {flushed : Bool} {text : String} {bytes : Bytes}
    (harmors : Pem.Armors text.toList bytes)
    (htext : files path = some (if flushed then text else "")) :
    Config.readKey crates.base64Decode files path = if flushed then bytes else [] := by
  cases flushed with
  | true => exact Config.readKey_armors hcrates.base64 htext harmors
  | false =>
    refine Config.readKey_blank hcrates.base64 ?_
    rw [htext]
    rfl

theorem createRsaKeyPair_refines (hhold : files.Hold crates formats port .empty) :
    RefinesRing crates formats files port
      (createRsaKeyPair crates effects files (Config.privateKeyPathOf port)
        (Config.publicKeyPathOf port))
      (KeyRing.create effects port) := by
  have hne := Config.privateKeyPathOf_ne port port
  unfold createRsaKeyPair KeyRing.create
  dsimp only
  cases effects.generated with
  | none => exact ⟨rfl, hhold, fun _ _ _ => rfl⟩
  | some rsa =>
    dsimp only
    split
    · exact ⟨rfl, hhold, fun _ _ _ => rfl⟩
    split
    · exact ⟨rfl, hhold, fun _ _ _ => rfl⟩
    split
    · -- Only the private file has been created.
      refine ⟨rfl, ⟨?_, ?_⟩, fun path hprivate _ => ?_⟩
      · rw [readKey_written hcrates (hcrates.privatePem rsa)
          (Files.dropped_self effects (Files.created_self files _) _)]
        cases effects.flush (Config.privateKeyPathOf port) <;> rfl
      · rw [Config.readKey_congr ((Files.dropped_ne effects _ (Ne.symm hne) _).trans
          (Files.created_ne files (Ne.symm hne)))]
        exact hhold.publicKey
      · exact (Files.dropped_ne effects _ hprivate _).trans (Files.created_ne files hprivate)
    · refine ⟨rfl, ⟨?_, ?_⟩, fun path hprivate hpublic => ?_⟩
      · have hblank := ((Files.dropped_ne effects _ hne (crates.publicKeyToPem rsa)).trans
          (Files.created_ne _ hne)).trans (Files.created_self files _)
        rw [readKey_written hcrates (hcrates.privatePem rsa)
          (Files.dropped_self effects hblank _)]
        cases effects.flush (Config.privateKeyPathOf port) <;> rfl
      · have hwritten := (Files.dropped_ne effects _ (Ne.symm hne)
          (crates.privateKeyToPemPkcs8 rsa)).trans
          (Files.dropped_self effects (Files.created_self
            (files.created (Config.privateKeyPathOf port)) (Config.publicKeyPathOf port))
            (crates.publicKeyToPem rsa))
        rw [readKey_written hcrates (hcrates.publicPem rsa) hwritten]
        cases effects.flush (Config.publicKeyPathOf port) <;> rfl
      · exact (Files.dropped_ne effects _ hprivate _).trans
          ((Files.dropped_ne effects _ hpublic _).trans
            ((Files.created_ne _ hpublic).trans (Files.created_ne files hprivate)))

/-- The public file is written, and the private one stays. -/
theorem generatePublicKeyFromPrivate_refines {rsa : Rsa}
    (hhold : files.Hold crates formats port
      { privateKey := some (.pkcs1, rsa), publicKey := none }) :
    RefinesRing crates formats files port
      (generatePublicKeyFromPrivate crates effects files (formats.privateDer .pkcs1 rsa)
        (Config.publicKeyPathOf port))
      (KeyRing.derive effects port rsa) := by
  have hne := Config.privateKeyPathOf_ne port port
  unfold generatePublicKeyFromPrivate KeyRing.derive
  rw [hcrates.fromPkcs1]
  dsimp only
  split
  · exact ⟨rfl, hhold, fun _ _ _ => rfl⟩
  split
  · exact ⟨rfl, hhold, fun _ _ _ => rfl⟩
  refine ⟨rfl, ⟨?_, ?_⟩, fun path _ hpublic => ?_⟩
  · rw [Config.readKey_congr ((Files.dropped_ne effects _ hne _).trans
      (Files.created_ne files hne))]
    exact hhold.privateKey
  · rw [readKey_written hcrates (hcrates.publicPem rsa)
      (Files.dropped_self effects (Files.created_self files _) _)]
    cases effects.flush (Config.publicKeyPathOf port) <;> rfl
  · exact (Files.dropped_ne effects _ hpublic _).trans (Files.created_ne files hpublic)

theorem KeyRing.privateBytes_eq_nil {ring : KeyRing Rsa} :
    ring.privateBytes formats = [] ↔ ring.privateKey = none := by
  unfold privateBytes
  cases ring.privateKey with
  | none => simp
  | some key => simpa using hcrates.privateDer_ne key.1 key.2

theorem KeyRing.publicBytes_eq_nil {ring : KeyRing Rsa} :
    ring.publicBytes formats = [] ↔ ring.publicKey = none := by
  unfold publicBytes
  cases ring.publicKey with
  | none => simp
  | some rsa => simpa using hcrates.publicDer_ne rsa

/-- **A start**: the files are treated as the ring is, and a start that goes on
has the keys that the ring then has. -/
theorem setupKeys_refines {ring : KeyRing Rsa} (hhold : files.Hold crates formats port ring)
    {config : Settings} (hport : config.port = port) (hread : config.ReadFrom crates files) :
    RefinesRing crates formats files port
        ((setupKeys crates effects files config).1.map fun _ => (),
          (setupKeys crates effects files config).2)
        (ring.setup effects port) ∧
      ∀ config', (setupKeys crates effects files config).1 = .ok config' →
        config' = config.withKeys formats (ring.setup effects port).2 := by
  subst hport
  have hprivate : config.privateKey = ring.privateBytes formats := by
    rw [hread.privateKey, hread.privateKeyPath, hhold.privateKey]
  have hpublic : config.publicKey = ring.publicBytes formats := by
    rw [hread.publicKey, hread.publicKeyPath, hhold.publicKey]
  have hprivateEmpty : config.privateKey.isEmpty = ring.privateKey.isNone := by
    rw [Bool.eq_iff_iff, List.isEmpty_iff, Option.isNone_iff_eq_none, hprivate,
      KeyRing.privateBytes_eq_nil hcrates]
  have hpublicEmpty : config.publicKey.isEmpty = ring.publicKey.isNone := by
    rw [Bool.eq_iff_iff, List.isEmpty_iff, Option.isNone_iff_eq_none, hpublic,
      KeyRing.publicBytes_eq_nil hcrates]
  obtain ⟨privateKey, publicKey⟩ := ring
  unfold setupKeys
  cases privateKey with
  | none =>
    cases publicKey with
    | none =>
      have hmade := createRsaKeyPair_refines effects hcrates hhold
      rw [← hread.privateKeyPath, ← hread.publicKeyPath] at hmade
      simp only [hprivateEmpty, hpublicEmpty, Option.isNone_none, Bool.and_self, if_true]
      cases hcreated : createRsaKeyPair crates effects files config.privateKeyPath
        config.publicKeyPath with
      | mk result files' =>
        rw [hcreated] at hmade
        cases result with
        | error e => exact ⟨⟨hmade.result, hmade.hold, hmade.beside⟩, fun _ h => by cases h⟩
        | ok u =>
          refine ⟨⟨hmade.result, hmade.hold, hmade.beside⟩, fun config' h => ?_⟩
          obtain rfl := Except.ok.inj h
          unfold Settings.withKeys
          rw [hread.privateKeyPath, hread.publicKeyPath, hmade.hold.privateKey,
            hmade.hold.publicKey]
          rfl
    | some rsa =>
      simp only [hprivateEmpty, hpublicEmpty, Option.isNone_none, Option.isNone_some,
        Bool.and_false, Bool.false_eq_true, if_true, if_false]
      exact ⟨⟨rfl, hhold, fun _ _ _ => rfl⟩, fun _ h => by cases h⟩
  | some key =>
    obtain ⟨form, rsa⟩ := key
    cases publicKey with
    | none =>
      simp only [hprivateEmpty, hpublicEmpty, Option.isNone_none, Option.isNone_some,
        Bool.and_true, Bool.false_eq_true, if_true, if_false]
      cases form with
      | pkcs8 =>
        have hpanic : crates.privateKeyFromDer config.privateKey = none := by
          rw [hprivate]
          exact hcrates.fromPkcs8 rsa
        unfold generatePublicKeyFromPrivate
        rw [hpanic]
        exact ⟨⟨rfl, hhold, fun _ _ _ => rfl⟩, fun _ h => by cases h⟩
      | pkcs1 =>
        have hmade := generatePublicKeyFromPrivate_refines effects hcrates hhold
        have hder : config.privateKey = formats.privateDer .pkcs1 rsa := hprivate
        rw [← hread.publicKeyPath, ← hder] at hmade
        cases hgenerated : generatePublicKeyFromPrivate crates effects files config.privateKey
          config.publicKeyPath with
        | mk result files' =>
          rw [hgenerated] at hmade
          cases result with
          | error e => exact ⟨⟨hmade.result, hmade.hold, hmade.beside⟩, fun _ h => by cases h⟩
          | ok u =>
            refine ⟨⟨hmade.result, hmade.hold, hmade.beside⟩, fun config' h => ?_⟩
            obtain rfl := Except.ok.inj h
            have hkept : config.privateKey =
                (KeyRing.derive effects config.port rsa).2.privateBytes formats := by
              unfold KeyRing.privateBytes
              rw [KeyRing.derive_privateKey]
              exact hder
            have hwritten : Config.readKey crates.base64Decode files' config.publicKeyPath =
                (KeyRing.derive effects config.port rsa).2.publicBytes formats := by
              rw [hread.publicKeyPath]
              exact hmade.hold.publicKey
            rw [hwritten]
            show _ = config.withKeys formats (KeyRing.derive effects config.port rsa).2
            unfold Settings.withKeys
            rw [← hkept]
    | some publicRsa =>
      simp only [hprivateEmpty, hpublicEmpty, Option.isNone_some, Bool.and_self,
        Bool.false_eq_true, if_false, KeyRing.setup_both]
      refine ⟨⟨rfl, hhold, fun _ _ _ => rfl⟩, fun config' h => ?_⟩
      obtain rfl := Except.ok.inj h
      unfold Settings.withKeys
      rw [← hprivate, ← hpublic]

end Refinement

end KademliaAuction
