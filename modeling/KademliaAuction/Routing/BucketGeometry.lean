/-
KademliaAuction.Routing.BucketGeometry — where `get_bucket_index` puts an
id, and how the buckets lie around a lookup target.

An id at XOR distance `d` from the own id goes to bucket `log2 d - 1`: the
two lowest distance classes share bucket 0 and every bucket `i ≥ 1` holds
the distances with leading bit `i + 1` (`bucketIndex_eq`).

Seen from a target, two different buckets never interleave. Which of them is
nearer is read off the bits of own XOR target: of two buckets the higher one
is nearer exactly when its bit is set there (`nearerBucket`,
`offset_lt_iff_nearerBucket`). For a target in bucket `t` the bits above
`t + 1` are clear and, from bucket 1 on, bit `t + 1` is set; so its own bucket
comes first, and all that is below a bucket above it comes before that
(`distance_lt_of_same`, `distance_lt_of_lt`).
-/
import KademliaAuction.Lib.XorMetric
import KademliaAuction.Routing.RoutingTable

namespace KademliaAuction.Routing

open Blockchain Lib

/-- `get_bucket_index` as a function of the own id. -/
def bucketIndex (own nodeId : Address) : Option Nat :=
  let lz := leadingZeros (own.distance nodeId)
  if lz = 256 then none else if lz = 255 then some 0 else some (254 - lz)

theorem RoutingTable.getBucketIndex_eq (rt : RoutingTable) (nodeId : Address) :
    rt.getBucketIndex nodeId = bucketIndex rt.id nodeId := rfl

/-- The XOR of two addresses as a number. -/
def offset (a b : Address) : Nat := (a.distance b).toNat

theorem offset_eq_zero {a b : Address} : offset a b = 0 ↔ a = b := by
  unfold offset
  rw [← Address.distance_eq_zero, ← BitVec.toNat_inj]
  rfl

theorem offset_lt (a b : Address) : offset a b < 2 ^ 256 := (a.distance b).isLt

/-! ## The index of an id -/

theorem bucketIndex_eq (own nodeId : Address) :
    bucketIndex own nodeId =
      if nodeId = own then none else some ((offset own nodeId).log2 - 1) := by
  unfold bucketIndex leadingZeros
  by_cases heq : nodeId = own
  · subst heq
    simp [Address.distance_eq_zero.mpr rfl]
  · have hne : own.distance nodeId ≠ 0 := fun h => heq (Address.distance_eq_zero.mp h).symm
    have hpos : offset own nodeId ≠ 0 := fun h => heq (offset_eq_zero.mp h).symm
    have hlog : (offset own nodeId).log2 < 256 := (Nat.log2_lt hpos).mpr (offset_lt own nodeId)
    simp only [hne, if_false, heq]
    rw [show (own.distance nodeId).toNat = offset own nodeId from rfl]
    rw [if_neg (by omega)]
    split
    · rw [show (offset own nodeId).log2 - 1 = 0 by omega]
    · rw [show 254 - (255 - (offset own nodeId).log2) = (offset own nodeId).log2 - 1 by omega]

theorem bucketIndex_eq_none {own nodeId : Address} : bucketIndex own nodeId = none ↔ nodeId = own := by
  rw [bucketIndex_eq]
  split <;> simp_all

/-- What an index says about the distance. -/
theorem log2_of_bucketIndex {own nodeId : Address} {i : Nat} (h : bucketIndex own nodeId = some i) :
    offset own nodeId ≠ 0 ∧ (offset own nodeId).log2 - 1 = i := by
  rw [bucketIndex_eq] at h
  split at h
  · cases h
  · rename_i heq
    exact ⟨fun hzero => heq (offset_eq_zero.mp hzero).symm, Option.some.inj h⟩

theorem bucketIndex_lt {own nodeId : Address} {i : Nat} (h : bucketIndex own nodeId = some i) :
    i < 255 := by
  obtain ⟨hpos, hidx⟩ := log2_of_bucketIndex h
  have hlog := (Nat.log2_lt hpos).mpr (offset_lt own nodeId)
  omega

/-- Every other id has a bucket. -/
theorem exists_bucketIndex {own nodeId : Address} (h : nodeId ≠ own) :
    ∃ i < 255, bucketIndex own nodeId = some i := by
  cases hidx : bucketIndex own nodeId with
  | none => exact absurd (bucketIndex_eq_none.mp hidx) h
  | some i => exact ⟨i, bucketIndex_lt hidx, rfl⟩

/-- Distances in bucket `i` stay below `2 ^ (i + 2)`. -/
theorem offset_lt_of_bucketIndex {own nodeId : Address} {i : Nat}
    (h : bucketIndex own nodeId = some i) : offset own nodeId < 2 ^ (i + 2) := by
  obtain ⟨hpos, hidx⟩ := log2_of_bucketIndex h
  exact (Nat.log2_lt hpos).mp (by omega)

/-- From bucket 1 on, the leading bit is exactly `i + 1`. -/
theorem le_offset_of_bucketIndex {own nodeId : Address} {i : Nat} (hi : 0 < i)
    (h : bucketIndex own nodeId = some i) : 2 ^ (i + 1) ≤ offset own nodeId := by
  obtain ⟨hpos, hidx⟩ := log2_of_bucketIndex h
  exact (Nat.le_log2 hpos).mp (by omega)

/-! ## Buckets around a target -/

/-- Bucket `b` lies nearer to the target than bucket `u`: the higher of the
two is the nearer one exactly when its bit of own XOR target is set. -/
def nearerBucket (own target : Address) (b u : Nat) : Bool :=
  if b < u then !(offset own target).testBit (u + 1)
  else decide (u < b) && (offset own target).testBit (b + 1)

theorem offset_target (own target nodeId : Address) :
    offset nodeId target = offset own nodeId ^^^ offset own target := by
  unfold offset Address.distance
  rw [← BitVec.toNat_xor]
  congr 1
  rw [BitVec.xor_comm own.asU256 nodeId.asU256, BitVec.xor_assoc,
    ← BitVec.xor_assoc own.asU256 own.asU256, BitVec.xor_self, BitVec.zero_xor]

/-- The case of a lower and a higher bucket. -/
theorem offset_lt_offset_iff {own target a z : Address} {b u : Nat} (hbu : b < u)
    (ha : bucketIndex own a = some b) (hz : bucketIndex own z = some u) :
    offset a target < offset z target ↔ (offset own target).testBit (u + 1) = false := by
  have hay : offset own a < 2 ^ (u + 1) :=
    (offset_lt_of_bucketIndex ha).trans_le (Nat.pow_le_pow_right (by decide) (by omega))
  rw [offset_target own target a, offset_target own target z]
  exact XorMetric.xor_lt_xor_iff hay (le_offset_of_bucketIndex (by omega) hz)
    (offset_lt_of_bucketIndex hz)

theorem offset_ne_of_bucketIndex {own target a z : Address} {b u : Nat} (hbu : b ≠ u)
    (ha : bucketIndex own a = some b) (hz : bucketIndex own z = some u) :
    offset a target ≠ offset z target := by
  intro h
  have haz : a = z := Address.distance_left_injective target (BitVec.toNat_inj.mp h)
  rw [haz, hz, Option.some.injEq] at ha
  exact hbu ha.symm

/-- **Buckets do not interleave**: whichever ids two different buckets hold,
those of the nearer bucket are closer to the target. -/
theorem offset_lt_iff_nearerBucket {own target a z : Address} {b u : Nat} (hbu : b ≠ u)
    (ha : bucketIndex own a = some b) (hz : bucketIndex own z = some u) :
    offset a target < offset z target ↔ nearerBucket own target b u = true := by
  unfold nearerBucket
  rcases Nat.lt_or_gt_of_ne hbu with hlt | hgt
  · rw [if_pos hlt, offset_lt_offset_iff hlt ha hz, Bool.not_eq_true']
  · have hne : offset a target ≠ offset z target := offset_ne_of_bucketIndex hbu ha hz
    have hflip : offset z target < offset a target ↔ (offset own target).testBit (b + 1) = false :=
      offset_lt_offset_iff hgt hz ha
    rw [if_neg (by omega)]
    simp only [hgt, decide_true, Bool.true_and]
    cases hbit : (offset own target).testBit (b + 1) with
    | false =>
      have := hflip.mpr hbit
      simp only [Bool.false_eq_true, iff_false]
      omega
    | true =>
      have : ¬ offset z target < offset a target := fun h => by simp [hflip.mp h] at hbit
      simp only [iff_true]
      omega

/-! ## Targets in a bucket -/

/-- A target from bucket `t` has no bit above `t + 1`. -/
theorem testBit_offset_eq_false {own target : Address} {t i : Nat}
    (ht : bucketIndex own target = some t) (hi : t < i) :
    (offset own target).testBit (i + 1) = false :=
  XorMetric.testBit_of_lt (offset_lt_of_bucketIndex ht) (by omega)

/-- From bucket 1 on, it has that bit. -/
theorem testBit_offset_eq_true {own target : Address} {t : Nat} (hpos : 0 < t)
    (ht : bucketIndex own target = some t) : (offset own target).testBit (t + 1) = true :=
  XorMetric.testBit_of_range (le_offset_of_bucketIndex hpos ht) (offset_lt_of_bucketIndex ht)

section Target

variable {own target a b : Address} {i j t : Nat}

/-- Below a bucket that is above the target's, everything is nearer to the
target than what that bucket holds. -/
theorem distance_lt_of_lt (ha : bucketIndex own a = some i) (hb : bucketIndex own b = some j)
    (ht : bucketIndex own target = some t) (hij : i < j) (htj : t < j) :
    a.distance target < b.distance target :=
  (offset_lt_offset_iff hij ha hb).mpr (testBit_offset_eq_false ht htj)

/-- The target's own bucket is nearer to it than any other. -/
theorem distance_lt_of_same (ha : bucketIndex own a = some t) (hb : bucketIndex own b = some j)
    (ht : bucketIndex own target = some t) (hne : j ≠ t) :
    a.distance target < b.distance target := by
  rcases Nat.lt_or_gt_of_ne hne with hlt | hgt
  · -- Bucket 0 has nothing below it, so its special case does not arise.
    refine (offset_lt_iff_nearerBucket hne.symm ha hb).mpr ?_
    unfold nearerBucket
    rw [if_neg (by omega), testBit_offset_eq_true (by omega) ht]
    simp [hlt]
  · exact distance_lt_of_lt ha hb ht hgt hgt

/-- Seen from the own id, lower buckets are nearer. -/
theorem distance_own_lt (ha : bucketIndex own a = some i) (hb : bucketIndex own b = some j)
    (hij : i < j) : a.distance own < b.distance own := by
  refine (offset_lt_offset_iff hij ha hb).mpr ?_
  rw [offset_eq_zero.mpr rfl, Nat.zero_testBit]

end Target

end KademliaAuction.Routing
