/-
KademliaAuction.Lib.Loop — `while` loops whose end is not known beforehand.

`loop body fuel s` runs a body that either goes on with another state or
leaves with a result, for at most `fuel` rounds; `Ends body s b` is that some
number of rounds is enough. The result does not depend on the fuel
(`Ends.unique`), a loop ends if its rounds descend along a well-founded
relation (`exists_ends_of_acc`), `Ends.invariant` is the invariant rule, and
loops that go round for round leave together (`ends_iff_of_simulation`).

A program with loops in it takes the fuel of all of them. `Settles` is that its
result is the same from some fuel on.
-/
import Mathlib.Order.Basic

namespace KademliaAuction.Lib.Loop

variable {σ β : Type*}

/-- At most `fuel` rounds from `s`; `none` when they are not enough. -/
def loop (body : σ → σ ⊕ β) : Nat → σ → Option β
  | 0, _ => none
  | fuel + 1, s =>
      match body s with
      | .inl s' => loop body fuel s'
      | .inr b => some b

/-- The loop from `s` leaves with `b`. -/
def Ends (body : σ → σ ⊕ β) (s : σ) (b : β) : Prop := ∃ fuel, loop body fuel s = some b

variable {body : σ → σ ⊕ β}

/-- More rounds do not change the result. -/
theorem loop_mono {fuel fuel' : Nat} {s : σ} {b : β} (hle : fuel ≤ fuel')
    (h : loop body fuel s = some b) : loop body fuel' s = some b := by
  induction fuel generalizing s fuel' with
  | zero => cases h
  | succ fuel ih =>
    obtain ⟨rounds, rfl⟩ : ∃ rounds, fuel' = rounds + 1 := ⟨fuel' - 1, by omega⟩
    rw [loop] at h ⊢
    cases hbody : body s with
    | inl s' =>
      rw [hbody] at h
      exact ih (by omega) h
    | inr c =>
      rw [hbody] at h
      exact h

theorem Ends.unique {s : σ} {b c : β} (h : Ends body s b) (h' : Ends body s c) : b = c := by
  obtain ⟨fuel, hb⟩ := h
  obtain ⟨fuel', hc⟩ := h'
  have hb' := loop_mono (Nat.le_max_left fuel fuel') hb
  have hc' := loop_mono (Nat.le_max_right fuel fuel') hc
  exact Option.some.inj (hb'.symm.trans hc')

theorem ends_of_inr {s : σ} {b : β} (h : body s = .inr b) : Ends body s b :=
  ⟨1, by rw [loop, h]⟩

theorem ends_inl {s s' : σ} {b : β} (h : body s = .inl s') : Ends body s b ↔ Ends body s' b := by
  constructor
  · rintro ⟨fuel, hrun⟩
    cases fuel with
    | zero => cases hrun
    | succ fuel =>
      rw [loop, h] at hrun
      exact ⟨fuel, hrun⟩
  · rintro ⟨fuel, hrun⟩
    exact ⟨fuel + 1, by rw [loop, h]; exact hrun⟩

/-- Rounds of the loop lead from `s` to this state. -/
inductive Reaches (body : σ → σ ⊕ β) (s : σ) : σ → Prop
  | refl : Reaches body s s
  | step {t u : σ} (h : Reaches body s t) (hround : body t = .inl u) : Reaches body s u

/-- A loop whose rounds keep an invariant and descend ends. -/
theorem exists_ends_of_acc {I : σ → Prop} {r : σ → σ → Prop}
    (hround : ∀ s s', I s → body s = .inl s' → I s' ∧ r s' s) {s : σ} (hs : I s) (h : Acc r s) :
    ∃ b, Ends body s b := by
  induction h with
  | intro s _ ih =>
    cases hbody : body s with
    | inl s' =>
      obtain ⟨hs', hdesc⟩ := hround s s' hs hbody
      obtain ⟨b, hends⟩ := ih s' hdesc hs'
      exact ⟨b, (ends_inl hbody).mpr hends⟩
    | inr b => exact ⟨b, ends_of_inr hbody⟩

/-- **Invariant rule**: what every round keeps holds where the loop leaves. -/
theorem Ends.invariant {I : σ → Prop} (hkeep : ∀ s s', I s → body s = .inl s' → I s') {s : σ} {b : β}
    (hs : I s) (h : Ends body s b) : ∃ last, I last ∧ body last = .inr b := by
  obtain ⟨fuel, hrun⟩ := h
  induction fuel generalizing s with
  | zero => cases hrun
  | succ fuel ih =>
    rw [loop] at hrun
    cases hbody : body s with
    | inl s' =>
      rw [hbody] at hrun
      exact ih (hkeep s s' hs hbody) hrun
    | inr c =>
      rw [hbody] at hrun
      obtain rfl : c = b := Option.some.inj hrun
      exact ⟨s, hs, hbody⟩

/-- Loops whose rounds match leave with matching results. -/
theorem ends_iff_of_simulation {τ γ : Type*} {body' : τ → τ ⊕ γ} {R : σ → τ → Prop} {g : γ → β}
    (hround : ∀ s t, R s t →
      (∃ s' t', body s = .inl s' ∧ body' t = .inl t' ∧ R s' t') ∨
        ∃ c, body s = .inr (g c) ∧ body' t = .inr c)
    {s : σ} {t : τ} (h : R s t) {b : β} : Ends body s b ↔ ∃ c, Ends body' t c ∧ b = g c := by
  constructor
  · intro ⟨fuel, hrun⟩
    induction fuel generalizing s t with
    | zero => cases hrun
    | succ fuel ih =>
      rw [loop] at hrun
      rcases hround s t h with ⟨s', t', hs, ht, h'⟩ | ⟨c, hs, ht⟩
      · rw [hs] at hrun
        obtain ⟨c, hends, rfl⟩ := ih h' hrun
        exact ⟨c, (ends_inl ht).mpr hends, rfl⟩
      · rw [hs] at hrun
        exact ⟨c, ends_of_inr ht, (Option.some.inj hrun).symm⟩
  · intro ⟨c, ⟨fuel, hrun⟩, hb⟩
    subst hb
    induction fuel generalizing s t with
    | zero => cases hrun
    | succ fuel ih =>
      rw [loop] at hrun
      rcases hround s t h with ⟨s', t', hs, ht, h'⟩ | ⟨d, hs, ht⟩
      · rw [ht] at hrun
        exact (ends_inl hs).mpr (ih h' hrun)
      · rw [ht] at hrun
        obtain rfl := Option.some.inj hrun
        exact ends_of_inr hs

/-! ## Programs with loops -/

/-- With fuel enough, the program has this result. -/
def Settles (program : Nat → Option β) (b : β) : Prop :=
  ∃ enough, ∀ fuel, enough ≤ fuel → program fuel = some b

theorem Settles.unique {program : Nat → Option β} {b c : β} (h : Settles program b)
    (h' : Settles program c) : b = c := by
  obtain ⟨enough, hb⟩ := h
  obtain ⟨enough', hc⟩ := h'
  have hb' := hb _ (Nat.le_max_left enough enough')
  have hc' := hc _ (Nat.le_max_right enough enough')
  exact Option.some.inj (hb'.symm.trans hc')

theorem settles_const {program : Nat → Option β} {b : β} (h : ∀ fuel, program fuel = some b) :
    Settles program b :=
  ⟨0, fun fuel _ => h fuel⟩

/-- One program after another. -/
theorem Settles.bind {γ : Type*} {program : Nat → Option β} {b : β} {next : Nat → β → Option γ}
    {c : γ} (h : Settles program b) (hnext : Settles (fun fuel => next fuel b) c) :
    Settles (fun fuel => (program fuel).bind (next fuel)) c := by
  obtain ⟨enough, hb⟩ := h
  obtain ⟨enough', hc⟩ := hnext
  refine ⟨max enough enough', fun fuel hfuel => ?_⟩
  show (program fuel).bind (next fuel) = some c
  rw [hb fuel (Nat.le_trans (Nat.le_max_left _ _) hfuel), Option.bind_some]
  exact hc fuel (Nat.le_trans (Nat.le_max_right _ _) hfuel)

theorem Settles.map {γ : Type*} {program : Nat → Option β} {b : β} (h : Settles program b)
    (f : β → γ) : Settles (fun fuel => (program fuel).map f) (f b) := by
  obtain ⟨enough, hb⟩ := h
  refine ⟨enough, fun fuel hfuel => ?_⟩
  show (program fuel).map f = some (f b)
  rw [hb fuel hfuel, Option.map_some]

/-- What a program does first has settled when all of it has, if more fuel does
not change it. -/
theorem Settles.of_bind {γ : Type*} {program : Nat → Option β} {next : Nat → β → Option γ} {c : γ}
    (hmono : ∀ fuel fuel' b, fuel ≤ fuel' → program fuel = some b → program fuel' = some b)
    (h : Settles (fun fuel => (program fuel).bind (next fuel)) c) :
    ∃ b, Settles program b ∧ Settles (fun fuel => next fuel b) c := by
  obtain ⟨enough, hc⟩ := h
  obtain ⟨b, hb, _⟩ := Option.bind_eq_some_iff.mp (hc enough (Nat.le_refl _))
  have hsettled : ∀ fuel, enough ≤ fuel → program fuel = some b :=
    fun fuel hfuel => hmono enough fuel b hfuel hb
  refine ⟨b, ⟨enough, hsettled⟩, enough, fun fuel hfuel => ?_⟩
  have hfuel' : (program fuel).bind (next fuel) = some c := hc fuel hfuel
  rwa [hsettled fuel hfuel, Option.bind_some] at hfuel'

end KademliaAuction.Lib.Loop
