/-
KademliaAuction.Utils — the proof of work (`src/utils.rs`).

`proof_of_work` tries one nonce after the other and has no bound, so the
model has fuel. The nonce is a `u64` and wraps, which only means that the
search starts over: `proofOfWork_eq_some_iff` says that what it finds, with
any fuel, is the least nonce that solves.

The difficulty is a `u32` that no one checks, and the function has no result
for a challenge without a solution. `proofOfWork_outcome` says when it
returns, and when its nonce overflows (`WorkOverflows`).
-/
import KademliaAuction.Blockchain.Block
import KademliaAuction.Lib.Loop
import KademliaAuction.Routing.RoutingTable
import Mathlib.Order.Bounds.Defs

namespace KademliaAuction

open Blockchain Lib Routing

/-- `generate_url`. -/
def generateUrl (nodeIp : String) (nodePort : Nat) : String := s!"http://{nodeIp}:{nodePort}"

/-- `solved_hash.leading_zeros() >= difficulty` for the text and the nonce
after it. -/
def SolvesWork (crates : Crates) (input : String) (difficulty nonce : Nat) : Prop :=
  difficulty ≤ leadingZeros (hashStr crates (input ++ toString nonce))

instance (crates : Crates) (input : String) (difficulty nonce : Nat) :
    Decidable (SolvesWork crates input difficulty nonce) :=
  inferInstanceAs (Decidable (_ ≤ _))

/-- The loop of `proof_of_work`, at most `fuel` times round. -/
def workFrom (crates : Crates) (input : String) (difficulty : Nat) : Nat → Nat → Option Nat
  | 0, _ => none
  | fuel + 1, nonce =>
      if SolvesWork crates input difficulty nonce then some nonce
      else workFrom crates input difficulty fuel ((nonce + 1) % 2 ^ 64)

/-- `proof_of_work`. -/
def proofOfWork (crates : Crates) (input : String) (difficulty fuel : Nat) : Option Nat :=
  workFrom crates input difficulty fuel 0

/-- One round of the loop: the nonce is the result, or is counted up. -/
def workRound (crates : Crates) (input : String) (difficulty nonce : Nat) : Nat ⊕ Nat :=
  if SolvesWork crates input difficulty nonce then .inr nonce else .inl ((nonce + 1) % 2 ^ 64)

/-- The largest nonce is tried in vain, so that `nonce += 1` overflows. -/
def WorkOverflows (crates : Crates) (input : String) (difficulty : Nat) : Prop :=
  Loop.Reaches (workRound crates input difficulty) 0 (2 ^ 64 - 1) ∧
    ¬ SolvesWork crates input difficulty (2 ^ 64 - 1)

section Work

variable {crates : Crates} {input : String} {difficulty : Nat}

/-- The rounds are those of `workRound`. -/
theorem workFrom_eq_loop (fuel nonce : Nat) :
    workFrom crates input difficulty fuel nonce =
      Loop.loop (workRound crates input difficulty) fuel nonce := by
  induction fuel generalizing nonce with
  | zero => rfl
  | succ fuel ih =>
    rw [workFrom, Loop.loop, workRound]
    split
    · rfl
    · exact ih _

theorem workRound_eq_inl {nonce next : Nat} :
    workRound crates input difficulty nonce = .inl next ↔
      ¬ SolvesWork crates input difficulty nonce ∧ (nonce + 1) % 2 ^ 64 = next := by
  unfold workRound
  split <;> simp [*]

theorem workRound_eq_inr {nonce found : Nat} :
    workRound crates input difficulty nonce = .inr found ↔
      SolvesWork crates input difficulty nonce ∧ nonce = found := by
  unfold workRound
  split <;> simp [*]

/-- The nonce is a `u64`, and no smaller one solves. -/
def NoneBelow (crates : Crates) (input : String) (difficulty nonce : Nat) : Prop :=
  nonce < 2 ^ 64 ∧ ∀ m < nonce, ¬ SolvesWork crates input difficulty m

theorem noneBelow_zero : NoneBelow crates input difficulty 0 :=
  ⟨by decide, fun m hm => absurd hm (Nat.not_lt_zero m)⟩

/-- Every round keeps it, also where the nonce wraps. -/
theorem NoneBelow.round {nonce next : Nat} (h : NoneBelow crates input difficulty nonce)
    (hround : workRound crates input difficulty nonce = .inl next) :
    NoneBelow crates input difficulty next := by
  obtain ⟨hnot, rfl⟩ := workRound_eq_inl.mp hround
  refine ⟨Nat.mod_lt _ (by decide), fun m hm => ?_⟩
  have hle : m ≤ nonce := Nat.lt_succ_iff.mp (hm.trans_le (Nat.mod_le _ _))
  rcases Nat.lt_or_eq_of_le hle with hlt | rfl
  · exact h.2 m hlt
  · exact hnot

/-- The loop comes to the first solution from its nonce on. -/
theorem workFrom_of_first {found : Nat} (hfound : found < 2 ^ 64)
    (hsolves : SolvesWork crates input difficulty found) : ∀ (steps nonce : Nat),
      nonce + steps = found →
      (∀ m, nonce ≤ m → m < found → ¬ SolvesWork crates input difficulty m) →
        workFrom crates input difficulty (steps + 1) nonce = some found := by
  intro steps nonce hsum hfirst
  induction steps generalizing nonce with
  | zero =>
    obtain rfl : nonce = found := hsum
    simp [workFrom, hsolves]
  | succ steps ih =>
    have hnext : (nonce + 1) % 2 ^ 64 = nonce + 1 := Nat.mod_eq_of_lt (by omega)
    rw [workFrom, if_neg (hfirst nonce le_rfl (by omega)), hnext]
    exact ih (nonce + 1) (by omega) fun m hm hlt => hfirst m (by omega) hlt

/-- **`proof_of_work`** returns the least nonce that solves, and returns where
there is one. -/
theorem proofOfWork_eq_some_iff {found : Nat} :
    (∃ fuel, proofOfWork crates input difficulty fuel = some found) ↔
      found < 2 ^ 64 ∧ SolvesWork crates input difficulty found ∧
        ∀ m < found, ¬ SolvesWork crates input difficulty m := by
  constructor
  · rintro ⟨fuel, h⟩
    rw [proofOfWork, workFrom_eq_loop] at h
    obtain ⟨last, hlast, hround⟩ :=
      Loop.Ends.invariant (fun _ _ => NoneBelow.round) noneBelow_zero ⟨fuel, h⟩
    obtain ⟨hsolves, rfl⟩ := workRound_eq_inr.mp hround
    exact ⟨hlast.1, hsolves, hlast.2⟩
  · rintro ⟨hlt, hsolves, hfirst⟩
    exact ⟨found + 1, workFrom_of_first hlt hsolves found 0 (by omega) fun m _ hm => hfirst m hm⟩

/-! ### Challenges without a solution -/

/-- A nonce is tried when all smaller ones have been tried in vain. -/
theorem reaches_workRound_iff {nonce : Nat} :
    Loop.Reaches (workRound crates input difficulty) 0 nonce ↔
      NoneBelow crates input difficulty nonce := by
  constructor
  · intro h
    induction h with
    | refl => exact noneBelow_zero
    | step _ hround ih => exact ih.round hround
  · intro ⟨hbound, hvain⟩
    induction nonce with
    | zero => exact .refl
    | succ nonce ih =>
      have hreached := ih (by omega) fun m hm => hvain m (by omega)
      exact hreached.step (workRound_eq_inl.mpr ⟨hvain nonce (by omega), Nat.mod_eq_of_lt hbound⟩)

/-- What is returned, as the least of a set. -/
theorem proofOfWork_isLeast_iff {found : Nat} :
    (∃ fuel, proofOfWork crates input difficulty fuel = some found) ↔
      IsLeast {nonce | nonce < 2 ^ 64 ∧ SolvesWork crates input difficulty nonce} found := by
  rw [proofOfWork_eq_some_iff]
  constructor
  · intro ⟨hlt, hsolves, hleast⟩
    refine ⟨⟨hlt, hsolves⟩, fun m hm => ?_⟩
    by_contra hbelow
    exact hleast m (Nat.lt_of_not_le hbelow) hm.2
  · intro ⟨⟨hlt, hsolves⟩, hleast⟩
    refine ⟨hlt, hsolves, fun m hm hm' => ?_⟩
    exact absurd (hleast ⟨hm.trans hlt, hm'⟩) (Nat.not_le_of_lt hm)

/-- A search returns when there is something to find. -/
theorem exists_proofOfWork_iff :
    (∃ fuel found, proofOfWork crates input difficulty fuel = some found) ↔
      ∃ nonce < 2 ^ 64, SolvesWork crates input difficulty nonce := by
  constructor
  · intro ⟨fuel, found, h⟩
    obtain ⟨hlt, hsolves, _⟩ := proofOfWork_eq_some_iff.mp ⟨fuel, h⟩
    exact ⟨found, hlt, hsolves⟩
  · intro ⟨nonce, hlt, hsolves⟩
    have hex : ∃ n, SolvesWork crates input difficulty n := ⟨nonce, hsolves⟩
    have hle : Nat.find hex ≤ nonce := Nat.find_min' hex hsolves
    obtain ⟨fuel, h⟩ := proofOfWork_eq_some_iff.mpr
      ⟨hle.trans_lt hlt, Nat.find_spec hex, fun m hm => Nat.find_min hex hm⟩
    exact ⟨fuel, _, h⟩

/-- A search overflows when there is nothing to find. -/
theorem workOverflows_iff :
    WorkOverflows crates input difficulty ↔
      ∀ nonce < 2 ^ 64, ¬ SolvesWork crates input difficulty nonce := by
  unfold WorkOverflows
  rw [reaches_workRound_iff]
  constructor
  · intro ⟨⟨_, hvain⟩, hlast⟩ nonce hlt
    rcases Nat.lt_or_eq_of_le (Nat.le_sub_one_of_lt hlt) with hless | rfl
    · exact hvain nonce hless
    · exact hlast
  · intro hnone
    exact ⟨⟨by decide, fun m hm => hnone m (by omega)⟩, hnone _ (by decide)⟩

/-- No digest has more than 256 leading zeros. -/
theorem not_solvesWork (hdifficulty : 256 < difficulty) (nonce : Nat) :
    ¬ SolvesWork crates input difficulty nonce := by
  unfold SolvesWork leadingZeros
  split <;> omega

/-- **When `proof_of_work` returns**: its results are the least solutions
among the nonces; it returns exactly when there is a solution, and its nonce
overflows exactly when there is none. -/
theorem proofOfWork_outcome (crates : Crates) (input : String) (difficulty : Nat) :
    (∀ found, (∃ fuel, proofOfWork crates input difficulty fuel = some found) ↔
      IsLeast {nonce | nonce < 2 ^ 64 ∧ SolvesWork crates input difficulty nonce} found) ∧
    ((∃ fuel found, proofOfWork crates input difficulty fuel = some found) ↔
      ∃ nonce < 2 ^ 64, SolvesWork crates input difficulty nonce) ∧
    (WorkOverflows crates input difficulty ↔
      ∀ nonce < 2 ^ 64, ¬ SolvesWork crates input difficulty nonce) :=
  ⟨fun _ => proofOfWork_isLeast_iff, exists_proofOfWork_iff, workOverflows_iff⟩

/-- A digest of which every bit is a leading zero. -/
def zeroDigest : Crates where
  sha256 := fun _ => 0
  blockToString := fun _ => ""

/-- **A challenge without a solution**: a difficulty of 257 is a `u32`, even
the best digest does not meet it, and the search neither returns nor stops
before its nonce overflows. -/
theorem proofOfWork_spins :
    257 < 2 ^ 32 ∧ (∀ nonce < 2 ^ 64, ¬ SolvesWork zeroDigest "7" 257 nonce) ∧
      (∀ fuel, proofOfWork zeroDigest "7" 257 fuel = none) ∧ WorkOverflows zeroDigest "7" 257 := by
  have hnone : ∀ nonce < 2 ^ 64, ¬ SolvesWork zeroDigest "7" 257 nonce :=
    fun nonce _ => not_solvesWork (by decide) nonce
  refine ⟨by decide, hnone, fun fuel => ?_, workOverflows_iff.mpr hnone⟩
  refine Option.eq_none_iff_forall_ne_some.mpr fun found h => ?_
  obtain ⟨nonce, hlt, hsolves⟩ := exists_proofOfWork_iff.mp ⟨fuel, found, h⟩
  exact hnone nonce hlt hsolves

end Work

end KademliaAuction
