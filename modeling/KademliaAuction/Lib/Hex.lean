/-
KademliaAuction.Lib.Hex — hexadecimal text of byte strings, and the value
of fixed-width digit strings.

`encodeChars` / `decodeChars` are the two halves of the usual hex codec:
two lower-case digits a byte on the way out, digits of either case on the
way in, an odd number of characters or any other character rejected
(`decodeChars_eq_some_iff`). Nothing here mentions addresses.
`decodeChars_encodeChars` is the round trip, `encodeChars_of_decodeChars_eq`
says that the bytes of a text print as that text in lower case, and
`bytesVal_of_decodeChars` that decoding keeps the number a digit string
denotes.
-/
import Mathlib.Data.Nat.Digits.Lemmas
import Mathlib.Data.Nat.Digits.Defs
import Mathlib.Tactic.IntervalCases

namespace KademliaAuction.Lib.Hex

/-! ## One digit -/

/-- The value of a hex digit, of either case. -/
def charVal (c : Char) : Option Nat :=
  if '0' ≤ c ∧ c ≤ '9' then some (c.toNat - 48)
  else if 'a' ≤ c ∧ c ≤ 'f' then some (c.toNat - 87)
  else if 'A' ≤ c ∧ c ≤ 'F' then some (c.toNat - 55)
  else none

theorem charVal_digitChar {d : Nat} (h : d < 16) :
    charVal (Nat.digitChar d) = some d := by
  interval_cases d <;> decide

theorem toNat_le_of_le {c e : Char} (h : c ≤ e) : c.toNat ≤ e.toNat := h

theorem charVal_lt {c : Char} {d : Nat} (h : charVal c = some d) : d < 16 := by
  unfold charVal at h
  split at h
  · rename_i hc
    have h9 : c.toNat ≤ 57 := toNat_le_of_le hc.2
    cases h; omega
  · split at h
    · rename_i hc
      have hf : c.toNat ≤ 102 := toNat_le_of_le hc.2
      cases h; omega
    · split at h
      · rename_i hc
        have hF : c.toNat ≤ 70 := toNat_le_of_le hc.2
        cases h; omega
      · cases h

/-! ## Byte strings -/

/-- `hex::encode`: two lower-case digits for each byte. -/
def encodeChars : List UInt8 → List Char
  | [] => []
  | b :: bs =>
      Nat.digitChar (b.toNat / 16) :: Nat.digitChar (b.toNat % 16) :: encodeChars bs

/-- `hex::decode`: an odd length or a character that is no hex digit is an
error. -/
def decodeChars : List Char → Option (List UInt8)
  | [] => some []
  | [_] => none
  | hi :: lo :: rest =>
      match charVal hi, charVal lo, decodeChars rest with
      | some x, some y, some bs => some (UInt8.ofNat (16 * x + y) :: bs)
      | _, _, _ => none

@[simp] theorem length_encodeChars (bs : List UInt8) :
    (encodeChars bs).length = 2 * bs.length := by
  induction bs with
  | nil => rfl
  | cons b bs ih => simp [encodeChars, ih]; omega

/-- Two digits fit into a byte. -/
theorem toNat_ofNat_pair {x y : Nat} (hx : x < 16) (hy : y < 16) :
    (UInt8.ofNat (16 * x + y)).toNat = 16 * x + y := by
  rw [UInt8.toNat_ofNat']
  omega

/-- What a successful decode of two more digits is made of. -/
theorem decodeChars_cons_cons {hi lo : Char} {rest : List Char} {bs : List UInt8}
    (h : decodeChars (hi :: lo :: rest) = some bs) :
    ∃ x y tl, charVal hi = some x ∧ charVal lo = some y ∧
      decodeChars rest = some tl ∧ bs = UInt8.ofNat (16 * x + y) :: tl := by
  simp only [decodeChars] at h
  split at h
  · rename_i x y tl hx hy htl
    exact ⟨x, y, tl, hx, hy, htl, by simpa using h.symm⟩
  · cases h

theorem decodeChars_encodeChars (bs : List UInt8) :
    decodeChars (encodeChars bs) = some bs := by
  induction bs with
  | nil => rfl
  | cons b bs ih =>
    have hb : b.toNat < 256 := b.toNat_lt
    have hhi := charVal_digitChar (show b.toNat / 16 < 16 by omega)
    have hlo := charVal_digitChar (show b.toNat % 16 < 16 by omega)
    have hval : 16 * (b.toNat / 16) + b.toNat % 16 = b.toNat := by omega
    simp only [encodeChars, decodeChars, hhi, hlo, ih, hval, UInt8.ofNat_toNat]

theorem length_of_decodeChars : ∀ {cs : List Char} {bs : List UInt8},
    decodeChars cs = some bs → cs.length = 2 * bs.length
  | [], bs, h => by simp only [decodeChars, Option.some.injEq] at h; simp [← h]
  | [_], _, h => by simp [decodeChars] at h
  | _ :: _ :: rest, bs, h => by
    obtain ⟨x, y, tl, _, _, htl, rfl⟩ := decodeChars_cons_cons h
    have := length_of_decodeChars htl
    simp only [List.length_cons]
    omega

/-! ## Text of either case -/

/-- A hex digit, of either case. -/
def IsDigit (c : Char) : Prop :=
  ('0' ≤ c ∧ c ≤ '9') ∨ ('a' ≤ c ∧ c ≤ 'f') ∨ ('A' ≤ c ∧ c ≤ 'F')

instance (c : Char) : Decidable (IsDigit c) := inferInstanceAs (Decidable (_ ∨ _ ∨ _))

theorem charVal_eq_some_iff {c : Char} : (∃ d, charVal c = some d) ↔ IsDigit c := by
  unfold charVal IsDigit
  split
  · simp [*]
  · split
    · simp [*]
    · split <;> simp [*]

/-- The digit that a character stands for is printed in lower case. -/
theorem digitChar_charVal {c : Char} {d : Nat} (h : charVal c = some d) :
    Nat.digitChar d = c.toLower := by
  have hofNat : Char.ofNat c.toNat = c := Char.ofNat_toNat c
  unfold charVal at h
  generalize hn : c.toNat = n at h hofNat
  subst hofNat
  split at h
  · rename_i hc
    have hlow : 48 ≤ n := hn ▸ toNat_le_of_le hc.1
    have hhigh : n ≤ 57 := hn ▸ toNat_le_of_le hc.2
    cases h
    interval_cases n <;> rfl
  · split at h
    · rename_i hc
      have hlow : 97 ≤ n := hn ▸ toNat_le_of_le hc.1
      have hhigh : n ≤ 102 := hn ▸ toNat_le_of_le hc.2
      cases h
      interval_cases n <;> rfl
    · split at h
      · rename_i hc
        have hlow : 65 ≤ n := hn ▸ toNat_le_of_le hc.1
        have hhigh : n ≤ 70 := hn ▸ toNat_le_of_le hc.2
        cases h
        interval_cases n <;> rfl
      · cases h

/-- **What decodes**: text of hex digits, an even number of them. -/
theorem decodeChars_eq_some_iff : ∀ (cs : List Char),
    (∃ bs, decodeChars cs = some bs) ↔ cs.length % 2 = 0 ∧ ∀ c ∈ cs, IsDigit c
  | [] => by simp [decodeChars]
  | [_] => by simp [decodeChars]
  | hi :: lo :: rest => by
    have ih := decodeChars_eq_some_iff rest
    have hlength : (hi :: lo :: rest).length % 2 = rest.length % 2 := by
      simp only [List.length_cons]
      omega
    rw [hlength]
    simp only [List.forall_mem_cons, ← charVal_eq_some_iff]
    constructor
    · intro ⟨bs, h⟩
      obtain ⟨x, y, tl, hx, hy, htl, rfl⟩ := decodeChars_cons_cons h
      obtain ⟨heven, hdigits⟩ := ih.mp ⟨tl, htl⟩
      exact ⟨heven, ⟨x, hx⟩, ⟨y, hy⟩, fun c hc => charVal_eq_some_iff.mpr (hdigits c hc)⟩
    · intro ⟨heven, ⟨x, hx⟩, ⟨y, hy⟩, hdigits⟩
      obtain ⟨tl, htl⟩ := ih.mpr ⟨heven, fun c hc => charVal_eq_some_iff.mp (hdigits c hc)⟩
      exact ⟨UInt8.ofNat (16 * x + y) :: tl, by simp only [decodeChars, hx, hy, htl]⟩

/-- **Decoding forgets the case only**: what decodes prints as the same text
in lower case. -/
theorem encodeChars_of_decodeChars_eq : ∀ {cs : List Char} {bs : List UInt8},
    decodeChars cs = some bs → encodeChars bs = cs.map Char.toLower
  | [], bs, h => by simp only [decodeChars, Option.some.injEq] at h; simp [← h, encodeChars]
  | [_], _, h => by simp [decodeChars] at h
  | hi :: lo :: rest, bs, h => by
    obtain ⟨x, y, tl, hx, hy, htl, rfl⟩ := decodeChars_cons_cons h
    have hx16 := charVal_lt hx
    have hy16 := charVal_lt hy
    have hb := toNat_ofNat_pair hx16 hy16
    simp only [encodeChars, hb, encodeChars_of_decodeChars_eq htl, List.map_cons]
    rw [show (16 * x + y) / 16 = x by omega, show (16 * x + y) % 16 = y by omega,
      digitChar_charVal hx, digitChar_charVal hy]

/-! ## Lower-case text -/

/-- Every character is a lower-case hex digit. -/
def LowerHex (cs : List Char) : Prop := ∀ c ∈ cs, ∃ d < 16, c = Nat.digitChar d

theorem decodeChars_of_lowerHex {n : Nat} {cs : List Char} (hlow : LowerHex cs)
    (hlen : cs.length = 2 * n) : ∃ bs, decodeChars cs = some bs := by
  refine (decodeChars_eq_some_iff cs).mpr ⟨by omega, fun c hc => ?_⟩
  obtain ⟨d, hd, rfl⟩ := hlow c hc
  exact charVal_eq_some_iff.mp ⟨d, charVal_digitChar hd⟩

theorem map_toLower_of_lowerHex {cs : List Char} (hlow : LowerHex cs) :
    cs.map Char.toLower = cs := by
  refine (List.map_congr_left fun c hc => ?_).trans (List.map_id cs)
  obtain ⟨d, hd, rfl⟩ := hlow c hc
  exact (digitChar_charVal (charVal_digitChar hd)).symm

/-- Lower-case text is the rendering of the bytes it decodes to. -/
theorem encodeChars_of_decodeChars {cs : List Char} {bs : List UInt8} (hlow : LowerHex cs)
    (h : decodeChars cs = some bs) : encodeChars bs = cs := by
  rw [encodeChars_of_decodeChars_eq h, map_toLower_of_lowerHex hlow]

/-! ## The number a string denotes -/

/-- The number a big-endian byte string denotes. -/
def bytesVal (bs : List UInt8) : Nat := Nat.ofDigits 256 (bs.map UInt8.toNat).reverse

/-- The number a big-endian string of hex digits denotes. -/
def charsVal (cs : List Char) : Nat :=
  Nat.ofDigits 16 (cs.map fun c => (charVal c).getD 0).reverse

theorem bytesVal_cons (b : UInt8) (bs : List UInt8) :
    bytesVal (b :: bs) = bytesVal bs + 256 ^ bs.length * b.toNat := by
  simp [bytesVal, Nat.ofDigits_append]

theorem charsVal_cons (c : Char) (cs : List Char) :
    charsVal (c :: cs) = charsVal cs + 16 ^ cs.length * (charVal c).getD 0 := by
  simp [charsVal, Nat.ofDigits_append]

theorem bytesVal_lt (bs : List UInt8) : bytesVal bs < 256 ^ bs.length := by
  induction bs with
  | nil => simp [bytesVal]
  | cons b bs ih =>
    have hb : b.toNat < 256 := b.toNat_lt
    have hmul : 256 ^ bs.length * b.toNat ≤ 256 ^ bs.length * 255 :=
      Nat.mul_le_mul_left _ (by omega)
    rw [bytesVal_cons, List.length_cons, pow_succ]
    omega

/-- Byte strings of one length denote different numbers. -/
theorem bytesVal_injective {as bs : List UInt8} (hlen : as.length = bs.length)
    (h : bytesVal as = bytesVal bs) : as = bs := by
  have hdigits : (as.map UInt8.toNat).reverse = (bs.map UInt8.toNat).reverse :=
    Nat.ofDigits_inj_of_len_eq (by decide) (by simpa using hlen)
      (by simpa using fun b _ => b.toNat_lt) (by simpa using fun b _ => b.toNat_lt) h
  have hinj : Function.Injective UInt8.toNat := fun _ _ hab => UInt8.toNat_inj.mp hab
  exact hinj.list_map (List.reverse_injective hdigits)

/-- Decoding keeps the number. -/
theorem bytesVal_of_decodeChars : ∀ {cs : List Char} {bs : List UInt8},
    decodeChars cs = some bs → bytesVal bs = charsVal cs
  | [], bs, h => by
    simp only [decodeChars, Option.some.injEq] at h; simp [← h, bytesVal, charsVal]
  | [_], _, h => by simp [decodeChars] at h
  | hi :: lo :: rest, bs, h => by
    obtain ⟨x, y, tl, hx, hy, htl, rfl⟩ := decodeChars_cons_cons h
    have hb := toNat_ofNat_pair (charVal_lt hx) (charVal_lt hy)
    have hpow : (256 : Nat) ^ tl.length = 16 ^ rest.length := by
      rw [length_of_decodeChars htl, pow_mul]
      norm_num
    rw [bytesVal_cons, charsVal_cons, charsVal_cons, bytesVal_of_decodeChars htl, hb, hpow, hx, hy]
    simp only [Option.getD_some, List.length_cons, pow_succ]
    ring

/-! ## Fixed-width digits -/

/-- The `w` lowest digits of `n` in base `b`, least significant first. -/
def fixedDigits (b : Nat) : Nat → Nat → List Nat
  | 0, _ => []
  | w + 1, n => n % b :: fixedDigits b w (n / b)

@[simp] theorem length_fixedDigits (b w n : Nat) : (fixedDigits b w n).length = w := by
  induction w generalizing n with
  | zero => rfl
  | succ w ih => simp [fixedDigits, ih]

theorem fixedDigits_lt {b w n d : Nat} (hb : 0 < b) (h : d ∈ fixedDigits b w n) : d < b := by
  induction w generalizing n with
  | zero => simp [fixedDigits] at h
  | succ w ih =>
    rcases List.mem_cons.mp h with rfl | h
    · exact Nat.mod_lt _ hb
    · exact ih h

theorem ofDigits_fixedDigits (b w n : Nat) : Nat.ofDigits b (fixedDigits b w n) = n % b ^ w := by
  induction w generalizing n with
  | zero => simp [fixedDigits, Nat.mod_one]
  | succ w ih =>
    rw [fixedDigits, Nat.ofDigits_cons, ih, pow_succ', Nat.mod_mul]

/-- The `w` big-endian bytes of a number. -/
def toBytes (w n : Nat) : List UInt8 := ((fixedDigits 256 w n).map UInt8.ofNat).reverse

@[simp] theorem length_toBytes (w n : Nat) : (toBytes w n).length = w := by simp [toBytes]

theorem bytesVal_toBytes (w n : Nat) : bytesVal (toBytes w n) = n % 256 ^ w := by
  have hdigits : (fixedDigits 256 w n).map (UInt8.toNat ∘ UInt8.ofNat) = fixedDigits 256 w n := by
    refine List.map_congr_left (fun d hd => ?_) |>.trans (List.map_id _)
    simpa [UInt8.toNat_ofNat'] using Nat.mod_eq_of_lt (fixedDigits_lt (by decide) hd)
  rw [bytesVal, toBytes, List.map_reverse, List.reverse_reverse, List.map_map, hdigits,
    ofDigits_fixedDigits]

end KademliaAuction.Lib.Hex
