/-
KademliaAuction.Lib.Protobuf — the proto3 wire format, and messages read from
it field by field.

On the wire a message is a list of fields, each a key (field number and wire
type) and a value. `readFields` takes bytes apart into fields without knowing
the message, as a decoder does where it skips what it does not know: groups
too, up to a depth. A `Slot` is what a message does with the fields of one
number; it carries the type that says which values it reads
(`FieldType.reads`), so what a message reads can be told from its slots alone
(`MessageType.decode_isSome`). What is encoded is read back as the fields it
was made of (`readFields_encodeFields`), by the message's own type or by any
other.
-/
import Mathlib.Algebra.Ring.Int.Defs
import Mathlib.Algebra.Ring.Nat
import Mathlib.Data.List.Basic

namespace KademliaAuction.Lib.Protobuf

/-! ## Varints -/

/-- Seven bits a byte, lowest first, in at most `count` bytes. -/
def encodeVarintUpTo : Nat → Nat → List UInt8
  | 0, _ => []
  | count + 1, value =>
      if value < 128 then [UInt8.ofNat value]
      else UInt8.ofNat (value % 128 + 128) :: encodeVarintUpTo count (value / 128)

def encodeVarint (value : Nat) : List UInt8 := encodeVarintUpTo 10 value

/-- A varint of at most `count` bytes, and what comes after it. The last of
`count` bytes holds one bit: with ten of them, sixty-four in all. -/
def decodeVarintUpTo : Nat → List UInt8 → Option (Nat × List UInt8)
  | 0, _ => none
  | _ + 1, [] => none
  | count + 1, byte :: rest =>
      if byte.toNat < 128 then
        if count = 0 ∧ 2 ≤ byte.toNat then none else some (byte.toNat, rest)
      else
        (decodeVarintUpTo count rest).map fun (high, rest) =>
          (byte.toNat - 128 + 128 * high, rest)

def decodeVarint (bytes : List UInt8) : Option (Nat × List UInt8) := decodeVarintUpTo 10 bytes

theorem decodeVarintUpTo_encodeVarintUpTo (count : Nat) {value : Nat} (h : value < 2 * 128 ^ count)
    (rest : List UInt8) :
    decodeVarintUpTo (count + 1) (encodeVarintUpTo (count + 1) value ++ rest) =
      some (value, rest) := by
  induction count generalizing value with
  | zero =>
    have hsmall : value < 128 := by omega
    have hbyte : (UInt8.ofNat value).toNat = value :=
      UInt8.toNat_ofNat_of_lt' (show value < 256 by omega)
    have hbit : ¬ 2 ≤ value := by omega
    simp [encodeVarintUpTo, decodeVarintUpTo, hsmall, hbyte, hbit]
  | succ count ih =>
    rw [encodeVarintUpTo]
    split
    · rename_i hsmall
      have hbyte : (UInt8.ofNat value).toNat = value :=
        UInt8.toNat_ofNat_of_lt' (show value < 256 by omega)
      simp [decodeVarintUpTo, hsmall, hbyte]
    · rename_i hlarge
      have hbyte : (UInt8.ofNat (value % 128 + 128)).toNat = value % 128 + 128 :=
        UInt8.toNat_ofNat_of_lt' (show value % 128 + 128 < 256 by omega)
      have hhigh : value / 128 < 2 * 128 ^ count := by
        rw [Nat.div_lt_iff_lt_mul (by decide)]
        calc value < 2 * 128 ^ (count + 1) := h
          _ = 2 * 128 ^ count * 128 := by rw [Nat.pow_succ, Nat.mul_assoc]
      have hcontinues : ¬ value % 128 + 128 < 128 := by omega
      rw [List.cons_append, decodeVarintUpTo, hbyte, if_neg hcontinues, ih hhigh]
      simp only [Option.map_some, Option.some.injEq, Prod.mk.injEq, and_true]
      omega

theorem decodeVarint_encodeVarint {value : Nat} (h : value < 2 ^ 64) (rest : List UInt8) :
    decodeVarint (encodeVarint value ++ rest) = some (value, rest) :=
  decodeVarintUpTo_encodeVarintUpTo 9 (by omega) rest

/-- What is made of a value read leaves the bytes after it alone. -/
theorem read_of_map {α β : Type} {read : Option (α × List UInt8)}
    {f : α × List UInt8 → β × List UInt8} {value : β} {rest : List UInt8}
    (h : read.map f = some (value, rest)) (hf : ∀ p, (f p).2 = p.2) :
    ∃ v, read = some (v, rest) := by
  obtain ⟨⟨v, rest'⟩, hread, heq⟩ := Option.map_eq_some_iff.mp h
  obtain rfl : rest' = rest := (hf _).symm.trans (congrArg Prod.snd heq)
  exact ⟨v, hread⟩

/-- A varint takes at least one byte. -/
theorem length_lt_of_decodeVarintUpTo {count : Nat} {bytes rest : List UInt8} {value : Nat}
    (h : decodeVarintUpTo count bytes = some (value, rest)) : rest.length < bytes.length := by
  induction count generalizing bytes value with
  | zero => cases h
  | succ count ih =>
    cases bytes with
    | nil => cases h
    | cons byte tail =>
      rw [decodeVarintUpTo] at h
      split at h
      · split at h
        · cases h
        · obtain ⟨_, rfl⟩ := Prod.mk.inj (Option.some.inj h)
          exact Nat.lt_succ_self _
      · obtain ⟨_, hhigh⟩ := read_of_map h fun _ => rfl
        exact Nat.lt_succ_of_lt (ih hhigh)

theorem length_lt_of_decodeVarint {bytes rest : List UInt8} {value : Nat}
    (h : decodeVarint bytes = some (value, rest)) : rest.length < bytes.length :=
  length_lt_of_decodeVarintUpTo h

/-! ## Keys -/

inductive WireType where
  | varint
  | fixed64
  | lengthDelimited
  | startGroup
  | endGroup
  | fixed32
  deriving DecidableEq, Repr

def WireType.number : WireType → Nat
  | .varint => 0
  | .fixed64 => 1
  | .lengthDelimited => 2
  | .startGroup => 3
  | .endGroup => 4
  | .fixed32 => 5

def WireType.ofNumber : Nat → Option WireType
  | 0 => some .varint
  | 1 => some .fixed64
  | 2 => some .lengthDelimited
  | 3 => some .startGroup
  | 4 => some .endGroup
  | 5 => some .fixed32
  | _ => none

@[simp] theorem WireType.ofNumber_number (wireType : WireType) :
    ofNumber wireType.number = some wireType := by
  cases wireType <;> rfl

theorem WireType.number_lt (wireType : WireType) : wireType.number < 8 := by
  cases wireType <;> decide

def encodeKey (number : Nat) (wireType : WireType) : List UInt8 :=
  encodeVarint (8 * number + wireType.number)

/-- Field number and wire type. A key is at most 32 bits, and there is no
field 0. -/
def decodeKey (bytes : List UInt8) : Option ((Nat × WireType) × List UInt8) :=
  match decodeVarint bytes with
  | none => none
  | some (key, rest) =>
      if 2 ^ 32 ≤ key ∨ key / 8 = 0 then none
      else (WireType.ofNumber (key % 8)).map fun wireType => ((key / 8, wireType), rest)

theorem decodeKey_encodeKey {number : Nat} (hpos : 0 < number) (hlt : number < 2 ^ 29)
    (wireType : WireType) (rest : List UInt8) :
    decodeKey (encodeKey number wireType ++ rest) = some ((number, wireType), rest) := by
  have htype := wireType.number_lt
  have hdiv : (8 * number + wireType.number) / 8 = number := by omega
  have hmod : (8 * number + wireType.number) % 8 = wireType.number := by omega
  have hkey : ¬ (2 ^ 32 ≤ 8 * number + wireType.number ∨ number = 0) := by omega
  unfold decodeKey encodeKey
  rw [decodeVarint_encodeVarint (by omega)]
  simp only [hdiv, hmod, if_neg hkey, WireType.ofNumber_number, Option.map_some]

theorem length_lt_of_decodeKey {bytes rest : List UInt8} {key : Nat × WireType}
    (h : decodeKey bytes = some (key, rest)) : rest.length < bytes.length := by
  unfold decodeKey at h
  split at h
  · cases h
  · rename_i hvarint
    split at h
    · cases h
    · obtain ⟨_, _, heq⟩ := Option.map_eq_some_iff.mp h
      obtain ⟨_, rfl⟩ := Prod.mk.inj heq
      exact length_lt_of_decodeVarint hvarint

/-! ## Fields -/

/-- A value on the wire. What is in a group is not kept. -/
inductive WireValue where
  | varint (value : Nat)
  | fixed64 (bytes : List UInt8)
  | lengthDelimited (contents : List UInt8)
  | group
  | fixed32 (bytes : List UInt8)
  deriving DecidableEq, Repr

structure Field where
  number : Nat
  value : WireValue
  deriving DecidableEq, Repr

/-- The next `count` bytes. -/
def takeBytes (count : Nat) (bytes : List UInt8) : Option (List UInt8 × List UInt8) :=
  if count ≤ bytes.length then some (bytes.take count, bytes.drop count) else none

/-- A value that is not a group. -/
def readScalar (wireType : WireType) (bytes : List UInt8) : Option (WireValue × List UInt8) :=
  match wireType with
  | .varint => (decodeVarint bytes).map fun (value, rest) => (.varint value, rest)
  | .fixed64 => (takeBytes 8 bytes).map fun (taken, rest) => (.fixed64 taken, rest)
  | .lengthDelimited =>
      match decodeVarint bytes with
      | none => none
      | some (length, rest) =>
          (takeBytes length rest).map fun (taken, rest) => (.lengthDelimited taken, rest)
  | .fixed32 => (takeBytes 4 bytes).map fun (taken, rest) => (.fixed32 taken, rest)
  | .startGroup => none
  | .endGroup => none

theorem length_le_of_takeBytes {count : Nat} {bytes taken rest : List UInt8}
    (h : takeBytes count bytes = some (taken, rest)) : rest.length ≤ bytes.length := by
  unfold takeBytes at h
  split at h
  · obtain ⟨_, rfl⟩ := Prod.mk.inj (Option.some.inj h)
    rw [List.length_drop]
    omega
  · cases h

theorem length_le_of_readScalar {wireType : WireType} {bytes rest : List UInt8} {value : WireValue}
    (h : readScalar wireType bytes = some (value, rest)) : rest.length ≤ bytes.length := by
  unfold readScalar at h
  split at h
  · obtain ⟨_, hread⟩ := read_of_map h fun _ => rfl
    exact Nat.le_of_lt (length_lt_of_decodeVarint hread)
  · obtain ⟨_, hread⟩ := read_of_map h fun _ => rfl
    exact length_le_of_takeBytes hread
  · split at h
    · cases h
    · rename_i hlength
      obtain ⟨_, hread⟩ := read_of_map h fun _ => rfl
      exact Nat.le_trans (length_le_of_takeBytes hread)
        (Nat.le_of_lt (length_lt_of_decodeVarint hlength))
  · obtain ⟨_, hread⟩ := read_of_map h fun _ => rfl
    exact length_le_of_takeBytes hread
  · cases h
  · cases h

/-- Skip to the end of the groups that are open, innermost first. No more than
`limit` of them may be, the field being skipped counted as one. -/
def skipGroups (limit : Nat) : List Nat → List UInt8 → Option (List UInt8)
  | [], bytes => some bytes
  | number :: outer, bytes =>
      match hkey : decodeKey bytes with
      | none => none
      | some ((inner, .endGroup), rest) =>
          have := length_lt_of_decodeKey hkey
          if inner = number then skipGroups limit outer rest else none
      | some ((inner, .startGroup), rest) =>
          have := length_lt_of_decodeKey hkey
          if outer.length + 1 < limit then skipGroups limit (inner :: number :: outer) rest else none
      | some ((_, wireType), rest) =>
          if outer.length + 1 < limit then
            match hvalue : readScalar wireType rest with
            | none => none
            | some (_, rest') =>
                have := length_lt_of_decodeKey hkey
                have := length_le_of_readScalar hvalue
                skipGroups limit (number :: outer) rest'
          else none
termination_by _ bytes => bytes.length

theorem length_le_of_skipGroups {limit : Nat} {opened : List Nat} {bytes rest : List UInt8}
    (h : skipGroups limit opened bytes = some rest) : rest.length ≤ bytes.length := by
  fun_induction skipGroups limit opened bytes <;> grind

/-- The value after a key. -/
def readValue (limit number : Nat) (wireType : WireType) (bytes : List UInt8) :
    Option (WireValue × List UInt8) :=
  match wireType with
  | .startGroup =>
      if 0 < limit then (skipGroups limit [number] bytes).map fun rest => (.group, rest) else none
  | wireType => readScalar wireType bytes

theorem length_le_of_readValue {limit number : Nat} {wireType : WireType} {bytes rest : List UInt8}
    {value : WireValue} (h : readValue limit number wireType bytes = some (value, rest)) :
    rest.length ≤ bytes.length := by
  unfold readValue at h
  split at h
  · split at h
    · obtain ⟨_, hskip, heq⟩ := Option.map_eq_some_iff.mp h
      obtain ⟨_, rfl⟩ := Prod.mk.inj heq
      exact length_le_of_skipGroups hskip
    · cases h
  · exact length_le_of_readScalar h

/-- The fields of a message, in the order of the bytes. -/
def readFields (limit : Nat) (bytes : List UInt8) : Option (List Field) :=
  if bytes = [] then some []
  else
    match hkey : decodeKey bytes with
    | none => none
    | some ((number, wireType), rest) =>
        match hvalue : readValue limit number wireType rest with
        | none => none
        | some (value, rest') =>
            have := length_lt_of_decodeKey hkey
            have := length_le_of_readValue hvalue
            (readFields limit rest').map ({ number, value } :: ·)
termination_by bytes.length

@[simp] theorem readFields_nil (limit : Nat) : readFields limit [] = some [] := by
  rw [readFields, if_pos rfl]

theorem readFields_of_read {limit number : Nat} {wireType : WireType} {value : WireValue}
    {bytes rest rest' : List UInt8} (hkey : decodeKey bytes = some ((number, wireType), rest))
    (hvalue : readValue limit number wireType rest = some (value, rest')) :
    readFields limit bytes = (readFields limit rest').map ({ number, value } :: ·) := by
  have hne : bytes ≠ [] := fun hnil => by
    rw [hnil] at hkey
    cases hkey
  rw [readFields, if_neg hne]
  split
  · rename_i hnone
    rw [hkey] at hnone
    cases hnone
  · rename_i hsome
    obtain ⟨⟨rfl, rfl⟩, rfl⟩ : (_ = _ ∧ _ = _) ∧ _ = _ := by
      simpa using hkey.symm.trans hsome
    split
    · rename_i hnone
      rw [hvalue] at hnone
      cases hnone
    · rename_i hsome'
      obtain ⟨rfl, rfl⟩ : _ = _ ∧ _ = _ := by simpa using hvalue.symm.trans hsome'
      rfl

/-! ## Encoding -/

def WireValue.wireType : WireValue → WireType
  | .varint _ => .varint
  | .fixed64 _ => .fixed64
  | .lengthDelimited _ => .lengthDelimited
  | .group => .startGroup
  | .fixed32 _ => .fixed32

/-- The bytes after the key. Groups are not written in proto3. -/
def WireValue.encode : WireValue → List UInt8
  | .varint value => encodeVarint value
  | .fixed64 bytes => bytes
  | .lengthDelimited contents => encodeVarint contents.length ++ contents
  | .group => []
  | .fixed32 bytes => bytes

def Field.encode (field : Field) : List UInt8 :=
  encodeKey field.number field.value.wireType ++ field.value.encode

def encodeFields (fields : List Field) : List UInt8 := fields.flatMap Field.encode

/-- The value can stand on the wire: numbers and lengths are of 64 bits. -/
def WireValue.WellFormed : WireValue → Prop
  | .varint value => value < 2 ^ 64
  | .fixed64 bytes => bytes.length = 8
  | .lengthDelimited contents => contents.length < 2 ^ 64
  | .group => False
  | .fixed32 bytes => bytes.length = 4

structure Field.WellFormed (field : Field) : Prop where
  pos : 0 < field.number
  lt : field.number < 2 ^ 29
  value : field.value.WellFormed

theorem takeBytes_append (taken rest : List UInt8) :
    takeBytes taken.length (taken ++ rest) = some (taken, rest) := by
  simp [takeBytes]

theorem readValue_encode {value : WireValue} (h : value.WellFormed) (limit number : Nat)
    (rest : List UInt8) :
    readValue limit number value.wireType (value.encode ++ rest) = some (value, rest) := by
  cases value with
  | varint value =>
    show (decodeVarint (encodeVarint value ++ rest)).map _ = _
    rw [decodeVarint_encodeVarint h]
    rfl
  | fixed64 bytes =>
    have hlength : bytes.length = 8 := h
    show (takeBytes 8 (bytes ++ rest)).map _ = _
    rw [← hlength, takeBytes_append]
    rfl
  | lengthDelimited contents =>
    simp only [readValue, WireValue.wireType, WireValue.encode, readScalar, List.append_assoc]
    rw [decodeVarint_encodeVarint h]
    simp only [takeBytes_append, Option.map_some]
  | group => exact h.elim
  | fixed32 bytes =>
    have hlength : bytes.length = 4 := h
    show (takeBytes 4 (bytes ++ rest)).map _ = _
    rw [← hlength, takeBytes_append]
    rfl

/-- **Wire round trip**: what is encoded is read back field by field. -/
theorem readFields_encodeFields (limit : Nat) {fields : List Field}
    (h : ∀ field ∈ fields, field.WellFormed) :
    readFields limit (encodeFields fields) = some fields := by
  induction fields with
  | nil => exact readFields_nil limit
  | cons field fields ih =>
    obtain ⟨hfield, hfields⟩ := List.forall_mem_cons.mp h
    have hbytes : encodeFields (field :: fields) =
        encodeKey field.number field.value.wireType ++
          (field.value.encode ++ encodeFields fields) := by
      simp [encodeFields, Field.encode]
    rw [hbytes, readFields_of_read (decodeKey_encodeKey hfield.pos hfield.lt _ _)
      (readValue_encode hfield.value limit field.number _), ih hfields]
    rfl

/-! ## What a type of field reads -/

/-- The text of some bytes, if they are UTF-8. -/
def decodeUtf8 (bytes : List UInt8) : Option String := String.fromUTF8? ⟨bytes.toArray⟩

def encodeUtf8 (text : String) : List UInt8 := text.toUTF8.data.toList

theorem decodeUtf8_encodeUtf8 (text : String) : decodeUtf8 (encodeUtf8 text) = some text := by
  have hbytes : (⟨(encodeUtf8 text).toArray⟩ : ByteArray) = text.toByteArray := by
    simp [encodeUtf8]
  unfold decodeUtf8 String.fromUTF8?
  rw [hbytes, dif_pos text.isValidUTF8]
  rfl

/-- The type of a field, a message type by the types of its numbers; a number
that a message does not have is of type `unknown`. -/
inductive FieldType where
  | unknown
  | varint
  | string
  | bytes
  | message (fieldType : Nat → FieldType)

/-- A field of this type reads the value: what is unknown is skipped, a string
is UTF-8, and a message can be taken apart into fields that its types read.
Messages and groups may be nested `limit` deep. -/
def FieldType.reads : FieldType → (limit : Nat) → WireValue → Bool
  | .unknown, limit, _ => decide (0 < limit)
  | .varint, _, .varint _ => true
  | .string, _, .lengthDelimited contents => (decodeUtf8 contents).isSome
  | .bytes, _, .lengthDelimited _ => true
  | .message fieldType, limit + 1, .lengthDelimited contents =>
      match readFields limit contents with
      | none => false
      | some fields => fields.all fun field => (fieldType field.number).reads limit field.value
  | _, _, _ => false

/-! ## Messages -/

/-- What a message does with a field of one number: the new message, if the
value is one that the type reads. -/
structure Slot (M : Type) where
  type : FieldType
  merge : (limit : Nat) → M → WireValue → Option M
  merge_isSome : ∀ limit message value, (merge limit message value).isSome = type.reads limit value

/-- A message type: the message without any field, the fields that are written
for a message, and the slot of each number. -/
structure MessageType (M : Type) where
  default : M
  fields : M → List Field
  slot : Nat → Slot M

namespace MessageType

variable {M : Type} (T : MessageType M)

/-- The type of a field that holds such a message. -/
def type : FieldType := .message fun number => (T.slot number).type

def encode (message : M) : List UInt8 := encodeFields (T.fields message)

def mergeField (limit : Nat) (message : M) (field : Field) : Option M :=
  (T.slot field.number).merge limit message field.value

/-- Merge the fields of some bytes into a message, the first one first. -/
def mergeBytes (limit : Nat) (message : M) (bytes : List UInt8) : Option M :=
  match readFields limit bytes with
  | none => none
  | some fields => fields.foldlM (T.mergeField limit) message

/-- How deep messages and groups may be nested. -/
def recursionLimit : Nat := 100

def decode (bytes : List UInt8) : Option M := T.mergeBytes recursionLimit T.default bytes

theorem mergeField_isSome (limit : Nat) (message : M) (field : Field) :
    (T.mergeField limit message field).isSome =
      (T.slot field.number).type.reads limit field.value :=
  (T.slot field.number).merge_isSome limit message field.value

/-- Fields are merged exactly when each of them is read, whatever they are
merged into. -/
theorem foldlM_mergeField_isSome (limit : Nat) (fields : List Field) (message : M) :
    (fields.foldlM (T.mergeField limit) message).isSome =
      fields.all fun field => (T.slot field.number).type.reads limit field.value := by
  induction fields generalizing message with
  | nil => rfl
  | cons field fields ih =>
    have hfirst := T.mergeField_isSome limit message field
    rw [List.foldlM_cons, List.all_cons, ← hfirst]
    cases T.mergeField limit message field with
    | none => rfl
    | some merged => exact ih merged

theorem mergeBytes_isSome (limit : Nat) (message : M) (bytes : List UInt8) :
    (T.mergeBytes limit message bytes).isSome =
      T.type.reads (limit + 1) (.lengthDelimited bytes) := by
  simp only [mergeBytes, type, FieldType.reads]
  cases readFields limit bytes with
  | none => rfl
  | some fields => exact T.foldlM_mergeField_isSome limit fields message

/-- **Trial decoding**: bytes that some fields were written as are a message of
this type exactly when it reads each of them. -/
theorem decode_isSome {fields : List Field} (h : ∀ field ∈ fields, field.WellFormed) :
    (T.decode (encodeFields fields)).isSome =
      fields.all fun field => (T.slot field.number).type.reads recursionLimit field.value := by
  unfold decode mergeBytes
  rw [readFields_encodeFields recursionLimit h]
  exact T.foldlM_mergeField_isSome recursionLimit fields T.default

end MessageType

/-! ## The slots -/

namespace Slot

variable {M : Type}

def unknown : Slot M where
  type := .unknown
  merge := fun limit message _ => if 0 < limit then some message else none
  merge_isSome := by
    intro limit message value
    by_cases h : 0 < limit <;> simp [FieldType.reads, h]

def varint (set : Nat → M → M) : Slot M where
  type := .varint
  merge := fun _ message value =>
    match value with
    | .varint value => some (set value message)
    | _ => none
  merge_isSome := by
    intro limit message value
    cases value <;> rfl

def string (set : String → M → M) : Slot M where
  type := .string
  merge := fun _ message value =>
    match value with
    | .lengthDelimited contents => (decodeUtf8 contents).map fun text => set text message
    | _ => none
  merge_isSome := by
    intro limit message value
    cases value <;> simp [FieldType.reads]

def bytes (set : List UInt8 → M → M) : Slot M where
  type := .bytes
  merge := fun _ message value =>
    match value with
    | .lengthDelimited contents => some (set contents message)
    | _ => none
  merge_isSome := by
    intro limit message value
    cases value <;> rfl

/-- A message in a message. What is read goes into `current`, the part that is
there already or an empty one. -/
def message {N : Type} (T : MessageType N) (current : M → N) (set : N → M → M) : Slot M where
  type := T.type
  merge := fun limit message value =>
    match limit, value with
    | limit + 1, .lengthDelimited contents =>
        (T.mergeBytes limit (current message) contents).map fun part => set part message
    | _, _ => none
  merge_isSome := by
    intro limit message value
    cases limit with
    | zero => cases value <;> rfl
    | succ limit =>
      cases value with
      | lengthDelimited contents =>
        rw [Option.isSome_map]
        exact T.mergeBytes_isSome limit (current message) contents
      | _ => rfl

end Slot

/-! ## Writing fields -/

/-- A number, left out when it is zero. -/
def varintField (number value : Nat) : List Field :=
  if value = 0 then [] else [{ number, value := .varint value }]

/-- A string, left out when it is empty. -/
def stringField (number : Nat) (text : String) : List Field :=
  if text = "" then [] else [{ number, value := .lengthDelimited (encodeUtf8 text) }]

/-- Some bytes, left out when there are none. -/
def bytesField (number : Nat) (bytes : List UInt8) : List Field :=
  if bytes = [] then [] else [{ number, value := .lengthDelimited bytes }]

/-- A message, written even when it is empty. -/
def messageField {N : Type} (number : Nat) (T : MessageType N) (part : N) : List Field :=
  [{ number, value := .lengthDelimited (T.encode part) }]

/-- The field is one that a message writes, with a number of 64 bits. -/
structure Field.Fits (field : Field) : Prop where
  pos : 0 < field.number
  lt : field.number < 2 ^ 29
  value : match field.value with
    | .varint value => value < 2 ^ 64
    | .lengthDelimited _ => True
    | _ => False

/-- What a field holds is no longer than all fields together. -/
theorem length_le_encodeFields {fields : List Field} {field : Field} {contents : List UInt8}
    (hmem : field ∈ fields) (h : field.value = .lengthDelimited contents) :
    contents.length ≤ (encodeFields fields).length := by
  have hfield : contents.length ≤ field.encode.length := by
    simp only [Field.encode, h, WireValue.encode, List.length_append]
    omega
  exact Nat.le_trans hfield (List.sublist_flatten_of_mem (List.mem_map_of_mem hmem)).length_le

theorem length_encode_lt {N : Type} {T : MessageType N} {number : Nat} {fields : List Field}
    {parts : List N} (hparts : parts.flatMap (messageField number T) ⊆ fields)
    (hsize : (encodeFields fields).length < 2 ^ 64) :
    ∀ part ∈ parts, (T.encode part).length < 2 ^ 64 := by
  intro part hpart
  have hmem := hparts (List.mem_flatMap.mpr ⟨part, hpart, List.mem_singleton_self _⟩)
  exact Nat.lt_of_le_of_lt (length_le_encodeFields hmem rfl) hsize

/-- Where all bytes are fewer than 2^64, so are those of every field. -/
theorem wellFormed_of_fits {fields : List Field} (h : ∀ field ∈ fields, field.Fits)
    (hsize : (encodeFields fields).length < 2 ^ 64) : ∀ field ∈ fields, field.WellFormed := by
  intro field hmem
  have hfits := h field hmem
  refine ⟨hfits.pos, hfits.lt, ?_⟩
  have hvalue := hfits.value
  cases hkind : field.value with
  | varint value =>
    rw [hkind] at hvalue
    exact hvalue
  | lengthDelimited contents => exact Nat.lt_of_le_of_lt (length_le_encodeFields hmem hkind) hsize
  | fixed64 bytes => simp [hkind] at hvalue
  | group => simp [hkind] at hvalue
  | fixed32 bytes => simp [hkind] at hvalue

theorem fits_ite {c : Prop} [Decidable c] {field : Field} (h : field.Fits) :
    ∀ f ∈ if c then [] else [field], f.Fits := by
  intro f hmem
  split at hmem
  · cases hmem
  · obtain rfl := List.mem_singleton.mp hmem
    exact h

section Fits

variable {number : Nat} (hpos : 0 < number) (hlt : number < 2 ^ 29)

include hpos hlt

theorem fits_varintField {value : Nat} (h : value < 2 ^ 64) :
    ∀ field ∈ varintField number value, field.Fits := fits_ite ⟨hpos, hlt, h⟩

theorem fits_stringField (text : String) : ∀ field ∈ stringField number text, field.Fits :=
  fits_ite ⟨hpos, hlt, trivial⟩

theorem fits_bytesField (bytes : List UInt8) : ∀ field ∈ bytesField number bytes, field.Fits :=
  fits_ite ⟨hpos, hlt, trivial⟩

theorem fits_messageField {N : Type} (T : MessageType N) (part : N) :
    ∀ field ∈ messageField number T part, field.Fits := by
  intro field hmem
  obtain rfl := List.mem_singleton.mp hmem
  exact ⟨hpos, hlt, trivial⟩

theorem fits_flatMap_messageField {N : Type} (T : MessageType N) (parts : List N) :
    ∀ field ∈ parts.flatMap (messageField number T), field.Fits := by
  intro field hmem
  obtain ⟨part, _, hpart⟩ := List.mem_flatMap.mp hmem
  exact fits_messageField hpos hlt T part field hpart

end Fits

/-! ## Reading back what was written -/

section ReadBack

variable {M N : Type} {T : MessageType M} {P : MessageType N} {limit number : Nat} {message : M}

theorem MessageType.mergeBytes_encode (start : M)
    (h : ∀ field ∈ T.fields message, field.WellFormed) :
    T.mergeBytes limit start (T.encode message) =
      (T.fields message).foldlM (T.mergeField limit) start := by
  unfold mergeBytes encode
  rw [readFields_encodeFields limit h]

theorem foldlM_append_some {f : M → Field → Option M} {first second : List Field}
    {start middle last : M} (hfirst : first.foldlM f start = some middle)
    (hsecond : second.foldlM f middle = some last) :
    (first ++ second).foldlM f start = some last := by
  rw [List.foldlM_append, hfirst]
  exact hsecond

/-- A field that is left out where merging it would change nothing. -/
theorem foldlM_ite {f : M → Field → Option M} {c : Prop} [Decidable c] {field : Field} {merged : M}
    (hdefault : c → merged = message) (hmerge : f message field = some merged) :
    (if c then [] else [field]).foldlM f message = some merged := by
  split
  · rename_i h
    rw [hdefault h]
    rfl
  · rw [List.foldlM_cons, hmerge]
    rfl

theorem foldlM_varintField {set : Nat → M → M} (hslot : T.slot number = .varint set)
    (hdefault : set 0 message = message) (value : Nat) :
    (varintField number value).foldlM (T.mergeField limit) message = some (set value message) :=
  foldlM_ite (fun hzero => by rw [hzero, hdefault])
    (by simp only [MessageType.mergeField, hslot, Slot.varint])

theorem foldlM_stringField {set : String → M → M} (hslot : T.slot number = .string set)
    (hdefault : set "" message = message) (text : String) :
    (stringField number text).foldlM (T.mergeField limit) message = some (set text message) :=
  foldlM_ite (fun hempty => by rw [hempty, hdefault])
    (by simp only [MessageType.mergeField, hslot, Slot.string, decodeUtf8_encodeUtf8,
      Option.map_some])

theorem foldlM_bytesField {set : List UInt8 → M → M} (hslot : T.slot number = .bytes set)
    (hdefault : set [] message = message) (bytes : List UInt8) :
    (bytesField number bytes).foldlM (T.mergeField limit) message = some (set bytes message) :=
  foldlM_ite (fun hempty => by rw [hempty, hdefault])
    (by simp only [MessageType.mergeField, hslot, Slot.bytes])

theorem foldlM_messageField {current : M → N} {set : N → M → M}
    (hslot : T.slot number = .message P current set) {start part : N}
    (hstart : current message = start)
    (hpart : P.mergeBytes limit start (P.encode part) = some part) :
    (messageField number P part).foldlM (T.mergeField (limit + 1)) message =
      some (set part message) := by
  simp [messageField, MessageType.mergeField, hslot, Slot.message, hstart, hpart]

/-- A repeated field: its parts are added one after the other. -/
theorem foldlM_flatMap_messageField {set : N → M → M}
    (hslot : T.slot number = .message P (fun _ => P.default) set) {parts : List N}
    (hparts : ∀ part ∈ parts, P.mergeBytes limit P.default (P.encode part) = some part)
    (message : M) :
    (parts.flatMap (messageField number P)).foldlM (T.mergeField (limit + 1)) message =
      some (parts.foldl (fun message part => set part message) message) := by
  induction parts generalizing message with
  | nil => rfl
  | cons part parts ih =>
    obtain ⟨hpart, hrest⟩ := List.forall_mem_cons.mp hparts
    rw [List.flatMap_cons, List.foldlM_append, foldlM_messageField hslot rfl hpart]
    exact ih hrest (set part message)

end ReadBack

/-! ## How long an encoding is -/

theorem length_encodeVarintUpTo_le (count value : Nat) :
    (encodeVarintUpTo count value).length ≤ count := by
  induction count generalizing value with
  | zero => exact Nat.le_refl 0
  | succ count ih =>
    rw [encodeVarintUpTo]
    split
    · simp
    · rw [List.length_cons]
      exact Nat.succ_le_succ (ih _)

theorem length_encodeVarint_le (value : Nat) : (encodeVarint value).length ≤ 10 :=
  length_encodeVarintUpTo_le 10 value

/-- A character is at most four bytes. -/
theorem length_encodeUtf8_le (text : String) : (encodeUtf8 text).length ≤ 4 * text.length := by
  have hsize : ∀ chars : List Char, chars.utf8Encode.size ≤ 4 * chars.length := by
    intro chars
    induction chars with
    | nil => simp
    | cons c chars ih =>
      have hc : (String.utf8EncodeChar c).length ≤ 4 := by
        rw [String.length_utf8EncodeChar]
        exact Char.utf8Size_le_four c
      rw [List.utf8Encode_cons, List.utf8Encode_singleton, ByteArray.size_append, List.length_cons]
      simp only [List.size_toByteArray]
      omega
  have htext : (encodeUtf8 text).length = text.toList.utf8Encode.size := by
    rw [String.utf8Encode_toList]
    rfl
  rw [htext, ← String.length_toList]
  exact hsize _

theorem length_encode_varintField_le (number value : Nat) :
    (encodeFields (varintField number value)).length ≤ 20 := by
  unfold varintField
  split
  · exact Nat.zero_le 20
  · have hkey := length_encodeVarint_le (8 * number + WireType.varint.number)
    have hvalue := length_encodeVarint_le value
    simp only [encodeFields, List.flatMap_cons, List.flatMap_nil, List.append_nil, Field.encode,
      encodeKey, WireValue.wireType, WireValue.encode, List.length_append]
    omega

/-- The key and the length take twenty bytes at most. -/
theorem length_encode_delimited_le (number : Nat) (contents : List UInt8) :
    (encodeFields [{ number, value := .lengthDelimited contents }]).length ≤
      20 + contents.length := by
  have hkey := length_encodeVarint_le (8 * number + WireType.lengthDelimited.number)
  have hlength := length_encodeVarint_le contents.length
  simp only [encodeFields, List.flatMap_cons, List.flatMap_nil, List.append_nil, Field.encode,
    encodeKey, WireValue.wireType, WireValue.encode, List.length_append]
  omega

theorem length_encode_stringField_le (number : Nat) (text : String) :
    (encodeFields (stringField number text)).length ≤ 20 + 4 * text.length := by
  unfold stringField
  split
  · exact Nat.zero_le _
  · have hcontents := length_encode_delimited_le number (encodeUtf8 text)
    have htext := length_encodeUtf8_le text
    omega

theorem length_encodeFields_append (fields fields' : List Field) :
    (encodeFields (fields ++ fields')).length =
      (encodeFields fields).length + (encodeFields fields').length := by
  simp [encodeFields]

/-- A repeated field. -/
theorem length_encode_messageFields_le {N : Type} {T : MessageType N} {size : Nat} {parts : List N}
    (number : Nat) (h : ∀ part ∈ parts, (T.encode part).length ≤ size) :
    (encodeFields (parts.flatMap (messageField number T))).length ≤
      (20 + size) * parts.length := by
  induction parts with
  | nil => exact Nat.zero_le _
  | cons part parts ih =>
    have hpart := h part List.mem_cons_self
    have hfield := length_encode_delimited_le number (T.encode part)
    have hrest := ih fun part hmem => h part (List.mem_cons_of_mem _ hmem)
    rw [List.flatMap_cons, length_encodeFields_append, List.length_cons, messageField, Nat.mul_succ]
    omega

end KademliaAuction.Lib.Protobuf
