/-
KademliaAuction.Lib.Search — searching a graph with a worklist.

A search has the nodes it has visited, the latest first, and a list of
pending ones. A step takes the first pending node out and, unless it has been
visited, visits it and adds its successors to the pending ones; it may leave
out those that are visited already, and rearrange the list
(`Step`). So breadth-first and best-first search are both searches.

`Traversal` is what every search maintains: when nothing is pending, the
visited nodes are those that can be reached from the seeds
(`Traversal.mem_visited_iff`), each once. Where finitely many nodes can be
reached, a search ends (`acc_step`). `BestFirst` adds what holds when the
pending nodes are kept in order of a distance `d`: before a seed is visited
the search has visited exactly the nodes that are reached from the seeds
through nodes closer than it.
-/
import Mathlib.Data.Set.Card
import Mathlib.Order.RelClasses

namespace KademliaAuction.Lib.Search

variable {κ : Type*}

/-- Reached from the seeds, through nodes with `P` only. -/
inductive Within (next : κ → List κ) (seeds : List κ) (P : κ → Prop) : κ → Prop
  | seed {a : κ} (h : a ∈ seeds) (ha : P a) : Within next seeds P a
  | step {a b : κ} (h : Within next seeds P a) (hab : b ∈ next a) (hb : P b) :
      Within next seeds P b

/-- Reached from the seeds: the least set that has the seeds and, with a node,
its successors. -/
abbrev Reached (next : κ → List κ) (seeds : List κ) : κ → Prop := Within next seeds fun _ => True

/-- The visited nodes, the latest first, and the pending ones. -/
structure State (κ : Type*) where
  visited : List κ
  pending : List κ

variable (next : κ → List κ) (seeds : List κ)

/-- One step: skip a node that has been visited, or visit it and have at least
its unvisited successors pending. -/
inductive Step : State κ → State κ → Prop
  | skip {visited rest : List κ} {a : κ} (ha : a ∈ visited) :
      Step ⟨visited, a :: rest⟩ ⟨visited, rest⟩
  | visit {visited rest new pending : List κ} {a : κ} (ha : a ∉ visited) (hnew : new ⊆ next a)
      (hall : ∀ b ∈ next a, b ∈ a :: visited ∨ b ∈ new) (hpending : pending.Perm (rest ++ new)) :
      Step ⟨visited, a :: rest⟩ ⟨a :: visited, pending⟩

/-- The order in which nodes are visited, the latest first: none twice, and
each a seed or a successor of an earlier one. -/
inductive Trail : List κ → Prop
  | nil : Trail []
  | cons {a : κ} {before : List κ} (h : Trail before) (ha : a ∉ before)
      (hfrom : a ∈ seeds ∨ ∃ p ∈ before, a ∈ next p) : Trail (a :: before)

/-- What a search maintains. -/
structure Traversal (s : State κ) : Prop where
  trail : Trail next seeds s.visited
  source : ∀ a ∈ s.pending, a ∈ seeds ∨ ∃ p ∈ s.visited, a ∈ next p
  seeded : ∀ a ∈ seeds, a ∈ s.visited ∨ a ∈ s.pending
  closed : ∀ a ∈ s.visited, ∀ b ∈ next a, b ∈ s.visited ∨ b ∈ s.pending

variable {next seeds}

/-! ## Trails -/

theorem Trail.nodup {visited : List κ} (h : Trail next seeds visited) : visited.Nodup := by
  induction h with
  | nil => exact List.nodup_nil
  | cons _ ha _ ih => exact List.nodup_cons.mpr ⟨ha, ih⟩

theorem Trail.reached {visited : List κ} (h : Trail next seeds visited) :
    ∀ a ∈ visited, Reached next seeds a := by
  induction h with
  | nil => exact fun a ha => nomatch ha
  | cons _ _ hfrom ih =>
    intro b hb
    rcases List.mem_cons.mp hb with rfl | hb
    · rcases hfrom with hseed | ⟨p, hp, hsucc⟩
      · exact .seed hseed trivial
      · exact .step (ih p hp) hsucc trivial
    · exact ih b hb

/-- What was visited before a node is a trail that it extends. -/
theorem Trail.of_suffix {visited before : List κ} {a : κ} (h : Trail next seeds visited)
    (hsuffix : (a :: before) <:+ visited) : Trail next seeds (a :: before) := by
  induction h with
  | nil => simp at hsuffix
  | cons hbefore ha hfrom ih =>
    rcases List.suffix_cons_iff.mp hsuffix with heq | hsuffix
    · rw [heq]
      exact .cons hbefore ha hfrom
    · exact ih hsuffix

/-! ## Searches -/

/-- A search that has not begun. -/
theorem traversal_start : Traversal next seeds ⟨[], seeds⟩ where
  trail := .nil
  source := fun _ ha => Or.inl ha
  seeded := fun _ ha => Or.inr ha
  closed := fun _ ha => nomatch ha

theorem Traversal.step {s s' : State κ} (h : Traversal next seeds s) (hstep : Step next s s') :
    Traversal next seeds s' := by
  cases hstep with
  | skip ha =>
    refine ⟨h.trail, fun b hb => h.source b (List.mem_cons_of_mem _ hb), fun b hb => ?_,
      fun b hb c hc => ?_⟩
    · rcases h.seeded b hb with hold | hpending
      · exact Or.inl hold
      · rcases List.mem_cons.mp hpending with rfl | hrest
        · exact Or.inl ha
        · exact Or.inr hrest
    · rcases h.closed b hb c hc with hold | hpending
      · exact Or.inl hold
      · rcases List.mem_cons.mp hpending with rfl | hrest
        · exact Or.inl ha
        · exact Or.inr hrest
  | @visit visited rest new pending a ha hnew hall hpending =>
    -- What was pending is the visited node or still pending.
    have hkept : ∀ b, b ∈ visited ∨ b ∈ a :: rest → b ∈ a :: visited ∨ b ∈ pending := by
      rintro b (hold | hpend)
      · exact Or.inl (List.mem_cons_of_mem _ hold)
      · rcases List.mem_cons.mp hpend with rfl | hrest
        · exact Or.inl List.mem_cons_self
        · exact Or.inr (hpending.mem_iff.mpr (List.mem_append_left _ hrest))
    refine ⟨.cons h.trail ha (h.source a List.mem_cons_self), fun b hb => ?_,
      fun b hb => hkept b (h.seeded b hb), fun b hb c hc => ?_⟩
    · rcases List.mem_append.mp (hpending.mem_iff.mp hb) with hrest | hadded
      · rcases h.source b (List.mem_cons_of_mem _ hrest) with hseed | ⟨p, hp, hsucc⟩
        · exact Or.inl hseed
        · exact Or.inr ⟨p, List.mem_cons_of_mem _ hp, hsucc⟩
      · exact Or.inr ⟨a, List.mem_cons_self, hnew hadded⟩
    · rcases List.mem_cons.mp hb with rfl | hb
      · rcases hall c hc with hvisited | hadded
        · exact Or.inl hvisited
        · exact Or.inr (hpending.mem_iff.mpr (List.mem_append_right _ hadded))
      · exact hkept c (h.closed b hb c hc)

theorem Traversal.reached_pending {s : State κ} (h : Traversal next seeds s) :
    ∀ a ∈ s.pending, Reached next seeds a := by
  intro a ha
  rcases h.source a ha with hseed | ⟨p, hp, hsucc⟩
  · exact .seed hseed trivial
  · exact .step (h.trail.reached p hp) hsucc trivial

/-- **What a search has visited at its end**: all that can be reached. -/
theorem Traversal.mem_visited_iff {visited : List κ} (h : Traversal next seeds ⟨visited, []⟩) {a : κ} :
    a ∈ visited ↔ Reached next seeds a := by
  constructor
  · exact h.trail.reached a
  · intro hreached
    induction hreached with
    | seed hseed _ =>
      rcases h.seeded _ hseed with hvisited | hpending
      · exact hvisited
      · cases hpending
    | step _ hsucc _ ih =>
      rcases h.closed _ ih _ hsucc with hvisited | hpending
      · exact hvisited
      · cases hpending

/-! ## Searches end -/

/-- The nodes that can be reached and have not been visited. -/
def unvisited (next : κ → List κ) (seeds : List κ) (s : State κ) : Set κ :=
  {a | Reached next seeds a ∧ a ∉ s.visited}

/-- A search of finitely many nodes ends: each step visits a node, or leaves
fewer pending. -/
theorem acc_step (hfin : {a | Reached next seeds a}.Finite) (s : State κ) :
    Acc (fun s' s => Traversal next seeds s ∧ Step next s s') s := by
  have hwf : WellFounded (InvImage (Prod.Lex (· < ·) (· < ·)) fun s : State κ =>
      ((unvisited next seeds s).ncard, s.pending.length)) :=
    InvImage.wf _ (Nat.lt_wfRel.wf.prod_lex Nat.lt_wfRel.wf)
  refine Subrelation.accessible (fun {s' s} hstep => ?_) (hwf.apply s)
  obtain ⟨htraversal, hstep⟩ := hstep
  cases hstep with
  | skip ha => exact Prod.Lex.right _ (by simp)
  | @visit visited rest new pending a ha hnew hall hpending =>
    refine Prod.Lex.left _ _ (Set.ncard_lt_ncard ?_ (hfin.subset fun b hb => hb.1))
    have hreached := htraversal.reached_pending a List.mem_cons_self
    refine Set.ssubset_iff_of_subset (fun b hb => ?_) |>.mpr ⟨a, ⟨hreached, ha⟩, fun hb => ?_⟩
    · exact ⟨hb.1, fun hold => hb.2 (List.mem_cons_of_mem _ hold)⟩
    · exact hb.2 List.mem_cons_self

/-! ## Best-first search -/

section BestFirst

variable {δ : Type*} [LinearOrder δ] (d : κ → δ)

/-- Reached from the seeds through nodes closer than `a`. -/
def Closer (next : κ → List κ) (seeds : List κ) (a : κ) : κ → Prop :=
  Within next seeds fun b => d b < d a

/-- What a search maintains that keeps its pending nodes in order of `d`. -/
structure BestFirst (next : κ → List κ) (seeds : List κ) (s : State κ) : Prop
    extends Traversal next seeds s where
  sorted : s.pending.Pairwise fun a b => d a ≤ d b
  before : ∀ a ∈ seeds, ∀ before, (a :: before) <:+ s.visited →
    ∀ b, b ∈ before ↔ Closer d next seeds a b
  waiting : ∀ a ∈ seeds, a ∉ s.visited → ∀ b ∈ s.visited, Closer d next seeds a b

variable {d}

theorem bestFirst_start (hsorted : seeds.Pairwise fun a b => d a ≤ d b) :
    BestFirst d next seeds ⟨[], seeds⟩ where
  toTraversal := traversal_start
  sorted := hsorted
  before := fun _ _ before hsuffix => by simp at hsuffix
  waiting := fun _ _ _ _ hb => nomatch hb

/-- Before the closest pending node is visited, all that is reached through
closer nodes has been. -/
theorem BestFirst.mem_visited_of_closer {visited rest : List κ} {a : κ}
    (h : BestFirst d next seeds ⟨visited, a :: rest⟩) {b : κ} (hb : Closer d next seeds a b) :
    b ∈ visited := by
  have hfar : ∀ c, c ∈ visited ∨ c ∈ a :: rest → d c < d a → c ∈ visited := by
    rintro c (hold | hpending) hlt
    · exact hold
    · rcases List.mem_cons.mp hpending with rfl | hrest
      · exact absurd hlt (lt_irrefl _)
      · exact absurd hlt (not_lt.mpr ((List.pairwise_cons.mp h.sorted).1 c hrest))
  induction hb with
  | seed hseed hlt => exact hfar _ (h.seeded _ hseed) hlt
  | step _ hsucc hlt ih => exact hfar _ (h.closed _ ih _ hsucc) hlt

theorem BestFirst.step (hd : Function.Injective d) {s s' : State κ} (h : BestFirst d next seeds s)
    (hstep : Step next s s') (hsorted : s'.pending.Pairwise fun a b => d a ≤ d b) :
    BestFirst d next seeds s' := by
  refine ⟨h.toTraversal.step hstep, hsorted, ?_, ?_⟩
  · cases hstep with
    | skip ha => exact h.before
    | @visit visited rest new pending a ha hnew hall hpending =>
      intro c hc before hsuffix b
      rcases List.suffix_cons_iff.mp hsuffix with heq | hsuffix
      · obtain ⟨rfl, rfl⟩ := List.cons.inj heq
        exact ⟨fun hb => h.waiting c hc ha b hb, h.mem_visited_of_closer⟩
      · exact h.before c hc before hsuffix b
  · cases hstep with
    | skip ha => exact h.waiting
    | @visit visited rest new pending a ha hnew hall hpending =>
      intro c hc hcv b hb
      rw [List.mem_cons, not_or] at hcv
      rcases List.mem_cons.mp hb with rfl | hb
      · -- The seed that still waits is farther than the node visited now.
        have hlt : d b < d c := by
          rcases h.seeded c hc with hold | hpend
          · exact absurd hold hcv.2
          · rcases List.mem_cons.mp hpend with heq | hrest
            · exact absurd heq hcv.1
            · exact lt_of_le_of_ne ((List.pairwise_cons.mp h.sorted).1 c hrest)
                fun heq => hcv.1 (hd heq.symm)
        rcases h.source b List.mem_cons_self with hseed | ⟨p, hp, hsucc⟩
        · exact .seed hseed hlt
        · exact .step (h.waiting c hc hcv.2 p hp) hsucc hlt
      · exact h.waiting c hc hcv.2 b hb

end BestFirst

end KademliaAuction.Lib.Search
