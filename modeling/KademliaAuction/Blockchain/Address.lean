/-
KademliaAuction.Blockchain.Address — 256-bit addresses
(`src/blockchain/address.rs`) and their hex text.

An `Address` is 32 bytes; the length is a field, so no other value can be
built. Node ids, auction keys, sellers and buyers are all addresses.
`U256` of the `ethereum_types` crate is `BitVec 256`, and the `hex` crate is
`Lib.Hex`.

The source renders a 256-bit number as text in two ways: `Display` prints
the bytes with `hex::encode`, and `format_as_hex_string` prints the number
with `{:064x}`. `fromStr_formatAsHexString` says that they agree: parsing
the second rendering succeeds with the address of that number, which prints
as the same text.
-/
import KademliaAuction.Lib.Hex
import Mathlib.Data.BitVec

namespace KademliaAuction

open Lib

/-- `ethereum_types::U256`. -/
abbrev U256 := BitVec 256

namespace Blockchain

/-- `AddressError`. -/
inductive AddressError where
  | invalidFormat
  | invalidLength
  deriving DecidableEq, Repr

/-- The message of the `thiserror` derive. -/
def AddressError.message : AddressError → String
  | .invalidFormat => "Invalid format"
  | .invalidLength => "Invalid length"

/-- `struct Address([u8; 32])`. -/
structure Address where
  bytes : List UInt8
  length_eq : bytes.length = 32
  deriving DecidableEq

namespace Address

@[ext] theorem ext {a b : Address} (h : a.bytes = b.bytes) : a = b := by
  cases a; cases b; simp_all

/-- `Address::default()`: all bytes zero. -/
instance : Inhabited Address := ⟨⟨List.replicate 32 0, by simp⟩⟩

/-- `as_u256`: the big-endian value of the bytes. -/
def asU256 (a : Address) : U256 := BitVec.ofNat 256 (Hex.bytesVal a.bytes)

/-- `distance`: bitwise exclusive or. -/
def distance (a b : Address) : U256 := a.asU256 ^^^ b.asU256

/-- `TryFrom<Vec<u8>>`. -/
def tryFromBytes (bytes : List UInt8) : Except AddressError Address :=
  if h : bytes.length = 32 then .ok ⟨bytes, h⟩ else .error .invalidLength

/-- `TryFrom<String>` and `FromStr`. -/
def fromStr (s : String) : Except AddressError Address :=
  match Hex.decodeChars s.toList with
  | some bytes => tryFromBytes bytes
  | none => .error .invalidFormat

/-- `Display`: the lower-case hex of the bytes. -/
def toStr (a : Address) : String := String.ofList (Hex.encodeChars a.bytes)

/-- The address whose value is a given number. -/
def ofU256 (n : U256) : Address := ⟨Hex.toBytes 32 n.toNat, by simp⟩

/-! ## The value of an address -/

theorem toNat_asU256 (a : Address) : a.asU256.toNat = Hex.bytesVal a.bytes := by
  have hlt := Hex.bytesVal_lt a.bytes
  rw [a.length_eq] at hlt
  rw [asU256, BitVec.toNat_ofNat]
  exact Nat.mod_eq_of_lt (by simpa using hlt)

theorem asU256_injective : Function.Injective asU256 := by
  intro a b h
  have hval : Hex.bytesVal a.bytes = Hex.bytesVal b.bytes := by
    rw [← toNat_asU256, ← toNat_asU256, h]
  exact ext (Hex.bytesVal_injective (by rw [a.length_eq, b.length_eq]) hval)

@[simp] theorem asU256_ofU256 (n : U256) : (ofU256 n).asU256 = n := by
  apply BitVec.eq_of_toNat_eq
  rw [toNat_asU256, ofU256, Hex.bytesVal_toBytes]
  exact Nat.mod_eq_of_lt (by simpa using n.isLt)

@[simp] theorem ofU256_asU256 (a : Address) : ofU256 a.asU256 = a :=
  asU256_injective (asU256_ofU256 _)

theorem distance_eq_zero {a b : Address} : a.distance b = 0 ↔ a = b := by
  have hxor : a.distance b = 0 ↔ a.asU256 = b.asU256 := BitVec.xor_eq_zero_iff
  exact hxor.trans asU256_injective.eq_iff

/-- Two addresses at the same distance from a third are equal. -/
theorem distance_left_injective (t : Address) : Function.Injective fun a : Address => a.distance t := by
  intro a b h
  apply asU256_injective
  have h' : a.asU256 ^^^ t.asU256 = b.asU256 ^^^ t.asU256 := h
  simpa [BitVec.xor_assoc] using congrArg (· ^^^ t.asU256) h'

/-! ## Text -/

@[simp] theorem fromStr_toStr (a : Address) : fromStr a.toStr = .ok a := by
  simp [fromStr, toStr, Hex.decodeChars_encodeChars, tryFromBytes, a.length_eq]

/-- **What parses**: sixty-four hex digits, of either case. -/
theorem fromStr_eq_ok_iff (s : String) :
    (∃ a, fromStr s = .ok a) ↔ s.toList.length = 64 ∧ ∀ c ∈ s.toList, Hex.IsDigit c := by
  have hdecode := Hex.decodeChars_eq_some_iff s.toList
  unfold fromStr tryFromBytes
  cases hbytes : Hex.decodeChars s.toList with
  | none =>
    rw [hbytes] at hdecode
    simp only [reduceCtorEq, exists_false, false_iff] at hdecode ⊢
    exact fun ⟨hlen, hdigits⟩ => hdecode ⟨by omega, hdigits⟩
  | some bytes =>
    obtain ⟨_, hdigits⟩ := hdecode.mp ⟨bytes, hbytes⟩
    have hlen := Hex.length_of_decodeChars hbytes
    simp only
    split
    · rename_i h32
      exact ⟨fun _ => ⟨by omega, hdigits⟩, fun _ => ⟨_, rfl⟩⟩
    · rename_i h32
      simp only [reduceCtorEq, exists_false, false_iff]
      exact fun ⟨h64, _⟩ => h32 (by omega)

/-- What parses prints in lower case. -/
theorem toStr_of_fromStr {s : String} {a : Address} (h : fromStr s = .ok a) :
    a.toStr = s.toLower := by
  unfold fromStr tryFromBytes at h
  split at h
  · rename_i bytes hbytes
    split at h
    · obtain rfl := Except.ok.inj h
      have hlower := Hex.encodeChars_of_decodeChars_eq hbytes
      rw [toStr, hlower, ← String.toList_map, String.ofList_toList]
      rfl
    · cases h
  · cases h

theorem toStr_injective : Function.Injective toStr := by
  intro a b h
  have hb : fromStr a.toStr = .ok b := by rw [h, fromStr_toStr]
  rw [fromStr_toStr] at hb
  exact Except.ok.inj hb

theorem toStr_inj {a b : Address} : a.toStr = b.toStr ↔ a = b := toStr_injective.eq_iff

/-- An address prints as sixty-four digits, never as the empty string. -/
theorem toStr_ne_empty (a : Address) : a.toStr ≠ "" := by
  intro h
  have hlen := congrArg (fun s : String => s.toList.length) h
  simp [toStr, a.length_eq] at hlen

end Address

end Blockchain

/-! ## `format_as_hex_string` -/

open Blockchain

/-- `format!("{:064x}", number)`: lower-case hex, zero-padded on the left to
sixty-four digits. -/
def formatAsHexString (number : U256) : String :=
  String.ofList (List.leftpad 64 '0' ((Nat.digits 16 number.toNat).map Nat.digitChar).reverse)

theorem length_digits_le (n : U256) : (Nat.digits 16 n.toNat).length ≤ 64 := by
  rw [Nat.digits_length_le_iff (by decide)]
  exact lt_of_lt_of_eq n.isLt (by norm_num)

theorem lowerHex_formatAsHexString (n : U256) : Hex.LowerHex (formatAsHexString n).toList := by
  intro c hc
  simp only [formatAsHexString, String.toList_ofList, List.leftpad, List.mem_append,
    List.mem_replicate, List.mem_reverse, List.mem_map] at hc
  rcases hc with ⟨_, rfl⟩ | ⟨d, hd, rfl⟩
  · exact ⟨0, by decide, rfl⟩
  · exact ⟨d, Nat.digits_lt_base (by decide) hd, rfl⟩

theorem length_formatAsHexString (n : U256) : (formatAsHexString n).toList.length = 64 := by
  have := length_digits_le n
  simp [formatAsHexString]
  omega

theorem charsVal_formatAsHexString (n : U256) :
    Hex.charsVal (formatAsHexString n).toList = n.toNat := by
  have hval : (Nat.digits 16 n.toNat).map ((fun c => (Hex.charVal c).getD 0) ∘ Nat.digitChar)
      = Nat.digits 16 n.toNat := by
    refine (List.map_congr_left fun d hd => ?_).trans (List.map_id _)
    simp [Hex.charVal_digitChar (Nat.digits_lt_base (by decide) hd)]
  have hzero : (Hex.charVal '0').getD 0 = 0 := by decide
  simp only [Hex.charsVal, formatAsHexString, String.toList_ofList, List.leftpad, List.map_append,
    List.map_replicate, List.map_reverse, List.map_map, List.reverse_append, List.reverse_reverse,
    List.reverse_replicate, hval, hzero, Nat.ofDigits_append_replicate_zero, Nat.ofDigits_digits]

/-- **The two renderings agree**: the zero-padded hex of a number parses, to
the address with that value. -/
theorem fromStr_formatAsHexString (n : U256) :
    Address.fromStr (formatAsHexString n) = .ok (Address.ofU256 n) := by
  obtain ⟨bytes, hdec⟩ := Hex.decodeChars_of_lowerHex (n := 32) (lowerHex_formatAsHexString n)
    (length_formatAsHexString n)
  have hlen : bytes.length = 32 := by
    have := Hex.length_of_decodeChars hdec
    rw [length_formatAsHexString] at this
    omega
  have hval : (⟨bytes, hlen⟩ : Address) = Address.ofU256 n := by
    apply Address.asU256_injective
    apply BitVec.eq_of_toNat_eq
    rw [Address.toNat_asU256, Hex.bytesVal_of_decodeChars hdec, charsVal_formatAsHexString,
      Address.asU256_ofU256]
  simp [Address.fromStr, hdec, Address.tryFromBytes, hlen, hval]

/-- An address prints as the zero-padded hex of its value. -/
theorem toStr_ofU256 (n : U256) : (Address.ofU256 n).toStr = formatAsHexString n := by
  obtain ⟨bytes, hdec⟩ := Hex.decodeChars_of_lowerHex (n := 32) (lowerHex_formatAsHexString n)
    (length_formatAsHexString n)
  have hparse := fromStr_formatAsHexString n
  simp only [Address.fromStr, hdec, Address.tryFromBytes] at hparse
  split at hparse
  · have hbytes : bytes = (Address.ofU256 n).bytes := congrArg Address.bytes (Except.ok.inj hparse)
    rw [Address.toStr, ← hbytes, Hex.encodeChars_of_decodeChars (lowerHex_formatAsHexString n) hdec,
      String.ofList_toList]
  · cases hparse

end KademliaAuction
