/-
KademliaAuction.Lib.Transition — labelled transition systems and the rules
for invariants of their runs.

A `System` has a predicate on initial states and a partial step function:
a label carries every choice the environment makes (who moves, what the
clock says, which write fails), and `next s a = none` means that `a` is not
enabled in `s`. `ReachableUnder ok` are the states reachable by steps that
all satisfy a condition `ok`, so one induction rule
(`ReachableUnder.invariant`) serves the unconditional statements
(`Reachable`) and those that hold only of well-behaved runs. `run` replays a
list of labels, and `throughout_iff_stepsMeet` compares a property of every
state of a run with a condition on every step of it. `LeadsTo` is about what
comes later in a run: every step of one kind is one of another kind, or is
followed by one.

A rank that steps of one kind lower, and no step raises, bounds how many of
these a run has (`length_filter_add_rank_le`); where such a step is possible
until the work is done, some run does it (`exists_run_done`).
-/
import Mathlib.Order.Basic

namespace KademliaAuction.Lib

/-- A labelled transition system with states `σ` and labels `α`. -/
structure System (σ α : Type*) where
  Init : σ → Prop
  next : σ → α → Option σ

namespace System

variable {σ α : Type*} (S : System σ α)

/-- The states a run reaches when each of its steps meets `ok`. -/
inductive ReachableUnder (ok : σ → α → Prop) : σ → Prop
  | init {s : σ} (h : S.Init s) : ReachableUnder ok s
  | step {s s' : σ} {a : α} (h : ReachableUnder ok s) (hok : ok s a)
      (hnext : S.next s a = some s') : ReachableUnder ok s'

/-- The states any run reaches. -/
abbrev Reachable : σ → Prop := S.ReachableUnder fun _ _ => True

variable {S} {ok : σ → α → Prop}

/-- **Invariant rule**: what holds initially and is preserved by every step
that meets `ok` holds in every state reached by such steps. -/
theorem ReachableUnder.invariant {I : σ → Prop} (hinit : ∀ s, S.Init s → I s)
    (hstep : ∀ s a s', I s → ok s a → S.next s a = some s' → I s') {s : σ}
    (h : S.ReachableUnder ok s) : I s := by
  induction h with
  | init h => exact hinit _ h
  | step _ hok hnext ih => exact hstep _ _ _ ih hok hnext

theorem ReachableUnder.mono {ok' : σ → α → Prop} (himp : ∀ s a, ok s a → ok' s a) {s : σ}
    (h : S.ReachableUnder ok s) : S.ReachableUnder ok' s := by
  induction h with
  | init h => exact .init h
  | step _ hok hnext ih => exact .step ih (himp _ _ hok) hnext

/-! ## Runs given by their labels -/

variable (S)

/-- The state after a list of labels, `none` where one is not enabled. -/
def run : σ → List α → Option σ
  | s, [] => some s
  | s, a :: as => (S.next s a).bind fun s' => run s' as

/-- Every step of the run from `s` along the labels meets `ok`. -/
def StepsMeet (ok : σ → α → Prop) : σ → List α → Prop
  | _, [] => True
  | s, a :: as => ok s a ∧ ∀ s', S.next s a = some s' → StepsMeet ok s' as

variable {S}

theorem run_append : ∀ (as bs : List α) (s : σ),
    S.run s (as ++ bs) = (S.run s as).bind fun s' => S.run s' bs := by
  intro as bs s
  induction as generalizing s with
  | nil => rfl
  | cons a as ih =>
    simp only [List.cons_append, run]
    cases S.next s a with
    | none => rfl
    | some s' => exact ih s'

theorem stepsMeet_congr {ok ok' : σ → α → Prop} (h : ∀ s a, ok s a ↔ ok' s a) :
    ∀ (as : List α) (s : σ), S.StepsMeet ok s as ↔ S.StepsMeet ok' s as := by
  intro as
  induction as with
  | nil => exact fun _ => Iff.rfl
  | cons a as ih =>
    intro s
    simp only [StepsMeet, h s a, ih]

theorem stepsMeet_of_forall {ok : σ → α → Prop} :
    ∀ (as : List α) (s : σ), (∀ a ∈ as, ∀ s, ok s a) → S.StepsMeet ok s as := by
  intro as s h
  induction as generalizing s with
  | nil => exact trivial
  | cons a as ih =>
    have hrest : ∀ b ∈ as, ∀ s, ok s b := fun b hb => h b (List.mem_cons_of_mem _ hb)
    exact ⟨h a List.mem_cons_self s, fun s' _ => ih s' hrest⟩

/-- A run whose steps meet `ok` reaches its last state. -/
theorem reachableUnder_of_run : ∀ {as : List α} {s s' : σ},
    S.ReachableUnder ok s → S.StepsMeet ok s as → S.run s as = some s' →
      S.ReachableUnder ok s' := by
  intro as s s' hs hmeet h
  induction as generalizing s with
  | nil =>
    simp only [run, Option.some.injEq] at h
    exact h ▸ hs
  | cons a as ih =>
    simp only [run, Option.bind_eq_some_iff] at h
    obtain ⟨t, ht, hrun⟩ := h
    exact ih (.step hs hmeet.1 ht) (hmeet.2 t ht) hrun

variable (S)

/-- Every state of the run from `s` along the labels has `P`. -/
def Throughout (P : σ → Prop) : σ → List α → Prop
  | s, [] => P s
  | s, a :: as => P s ∧ ∀ s', S.next s a = some s' → Throughout P s' as

variable {S}

/-- Where the steps that meet `ok` keep an invariant which implies `P`, a run
of such steps has `P` throughout. -/
theorem throughout_of_stepsMeet {I P : σ → Prop} (hI : ∀ s, I s → P s)
    (hstep : ∀ s a s', I s → ok s a → S.next s a = some s' → I s') :
    ∀ (as : List α) (s : σ), I s → S.StepsMeet ok s as → S.Throughout P s as := by
  intro as s hs hmeet
  induction as generalizing s with
  | nil => exact hI s hs
  | cons a as ih =>
    refine ⟨hI s hs, fun s' hnext => ?_⟩
    have hs' : I s' := hstep s a s' hs hmeet.1 hnext
    exact ih s' hs' (hmeet.2 s' hnext)

theorem Throughout.last {P : σ → Prop} : ∀ {as : List α} {s s' : σ},
    S.Throughout P s as → S.run s as = some s' → P s' := by
  intro as s s' h hrun
  induction as generalizing s with
  | nil =>
    obtain rfl := Option.some.inj hrun
    exact h
  | cons a as ih =>
    obtain ⟨t, hnext, hrest⟩ := Option.bind_eq_some_iff.mp hrun
    exact ih (h.2 t hnext) hrest

theorem Throughout.head {P : σ → Prop} {s : σ} : ∀ {as : List α}, S.Throughout P s as → P s
  | [], h => h
  | _ :: _, h => h.1

/-- Where, from a state with the invariant and `P`, a step keeps `P` exactly
when it meets `ok`, a run keeps `P` throughout exactly when all its steps
meet `ok`. A label that is not enabled ends the run, and counts as meeting
`ok`. -/
theorem throughout_iff_stepsMeet {I P : σ → Prop}
    (hI : ∀ s a s', I s → S.next s a = some s' → I s')
    (hnone : ∀ s a, S.next s a = none → ok s a)
    (hP : ∀ s a s', I s → P s → S.next s a = some s' → (P s' ↔ ok s a)) :
    ∀ (as : List α) (s : σ), I s → P s → (S.Throughout P s as ↔ S.StepsMeet ok s as) := by
  intro as s hi hs
  induction as generalizing s with
  | nil => simp [Throughout, StepsMeet, hs]
  | cons a as ih =>
    simp only [Throughout, StepsMeet]
    cases hnext : S.next s a with
    | none => simp [hs, hnone s a hnext]
    | some s' =>
      simp only [Option.some.injEq, forall_eq']
      have hi' : I s' := hI s a s' hi hnext
      have hiff := hP s a s' hi hs hnext
      constructor
      · intro ⟨_, hrest⟩
        have hp : P s' := hrest.head
        exact ⟨hiff.mp hp, (ih s' hi' hp).mp hrest⟩
      · intro ⟨hok, hrest⟩
        have hp : P s' := hiff.mpr hok
        exact ⟨hs, (ih s' hi' hp).mpr hrest⟩

/-! ## What a run leads to -/

variable (S)

/-- Some step that the run from `s` along the labels takes meets `Q`. -/
def SomeStepMeets (Q : σ → α → Prop) : σ → List α → Prop
  | _, [] => False
  | s, a :: as => ∃ s', S.next s a = some s' ∧ (Q s a ∨ SomeStepMeets Q s' as)

/-- Every step of the run that meets `P` meets `Q`, or some later step
does. -/
def LeadsTo (P Q : σ → α → Prop) : σ → List α → Prop
  | _, [] => True
  | s, a :: as => ∀ s', S.next s a = some s' →
      (P s a → Q s a ∨ S.SomeStepMeets Q s' as) ∧ LeadsTo P Q s' as

variable {S}

/-- Where, in the states of an invariant, each step that meets `ok` and `P`
meets `Q` as well, a run of steps that meet `ok` leads from `P` to `Q`. -/
theorem leadsTo_of_stepsMeet {I : σ → Prop} {P Q : σ → α → Prop}
    (hI : ∀ s a s', I s → S.next s a = some s' → I s')
    (hstep : ∀ s a s', I s → S.next s a = some s' → ok s a → P s a → Q s a) :
    ∀ (as : List α) (s : σ), I s → S.StepsMeet ok s as → S.LeadsTo P Q s as := by
  intro as s hs hmeet
  induction as generalizing s with
  | nil => exact trivial
  | cons a as ih =>
    intro s' hnext
    have hrest : S.LeadsTo P Q s' as := ih s' (hI s a s' hs hnext) (hmeet.2 s' hnext)
    exact ⟨fun hP => Or.inl (hstep s a s' hs hnext hmeet.1 hP), hrest⟩

/-- Where the labels of one kind keep an invariant and their steps do not meet
`Q`, a run along such labels never meets it. -/
theorem not_someStepMeets {I : σ → Prop} {L : α → Prop} {Q : σ → α → Prop}
    (hstep : ∀ s a s', I s → L a → S.next s a = some s' → I s' ∧ ¬ Q s a) :
    ∀ (as : List α) (s : σ), I s → (∀ a ∈ as, L a) → ¬ S.SomeStepMeets Q s as := by
  intro as s hs hL
  induction as generalizing s with
  | nil => exact id
  | cons a as ih =>
    rintro ⟨s', hnext, hnow | hlater⟩
    · exact (hstep s a s' hs (hL a List.mem_cons_self) hnext).2 hnow
    · have hs' : I s' := (hstep s a s' hs (hL a List.mem_cons_self) hnext).1
      exact ih s' hs' (fun b hb => hL b (List.mem_cons_of_mem _ hb)) hlater

/-! ## Ranks -/

section Rank

variable {I : σ → Prop} (work : α → Prop) (rank : σ → Nat)

/-- A step keeps the invariant, does not raise the rank, and lowers it if it
is work. -/
def Descends (S : System σ α) (I : σ → Prop) (ok : σ → α → Prop) (work : α → Prop)
    (rank : σ → Nat) : Prop :=
  ∀ s a s', I s → ok s a → S.next s a = some s' →
    I s' ∧ rank s' ≤ rank s ∧ (work a → rank s' < rank s)

variable {work rank}

theorem length_filter_add_rank_le [DecidablePred work] (h : S.Descends I ok work rank) :
    ∀ {as : List α} {s s' : σ}, I s → S.StepsMeet ok s as → S.run s as = some s' →
      (as.filter work).length + rank s' ≤ rank s := by
  intro as s s' hs hmeet hrun
  induction as generalizing s with
  | nil =>
    obtain rfl := Option.some.inj hrun
    simp
  | cons a as ih =>
    obtain ⟨t, hnext, hrest⟩ := Option.bind_eq_some_iff.mp hrun
    obtain ⟨ht, hle, hlt⟩ := h s a t hs hmeet.1 hnext
    have hafter := ih ht (hmeet.2 t hnext) hrest
    by_cases hwork : work a
    · have hdone := hlt hwork
      rw [List.filter_cons_of_pos (by simpa using hwork), List.length_cons]
      omega
    · rw [List.filter_cons_of_neg (by simpa using hwork)]
      omega

/-- Where work is possible until it is done, a run of nothing else does it. -/
theorem exists_run_done {Done : σ → Prop} (h : S.Descends I ok work rank)
    (hgo : ∀ s, I s → ¬ Done s → ∃ a s', work a ∧ ok s a ∧ S.next s a = some s') {s : σ}
    (hs : I s) :
    ∃ as s', (∀ a ∈ as, work a) ∧ S.StepsMeet ok s as ∧ S.run s as = some s' ∧ Done s' := by
  induction hrank : rank s using Nat.strongRecOn generalizing s with
  | ind n ih =>
    subst hrank
    by_cases hdone : Done s
    · exact ⟨[], s, fun a ha => absurd ha List.not_mem_nil, trivial, rfl, hdone⟩
    · obtain ⟨a, t, hwork, hok, hnext⟩ := hgo s hs hdone
      obtain ⟨ht, _, hlt⟩ := h s a t hs hok hnext
      obtain ⟨as, s', has, hmeet, hrun, hend⟩ := ih _ (hlt hwork) ht rfl
      refine ⟨a :: as, s', fun b hb => ?_, ⟨hok, fun t' hnext' => ?_⟩, ?_, hend⟩
      · rcases List.mem_cons.mp hb with rfl | hb
        · exact hwork
        · exact has b hb
      · obtain rfl := Option.some.inj (hnext.symm.trans hnext')
        exact hmeet
      · rw [run, hnext]
        exact hrun

end Rank

end System

end KademliaAuction.Lib
