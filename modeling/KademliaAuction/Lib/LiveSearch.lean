/-
KademliaAuction.Lib.LiveSearch — searching a graph that is not known.

As in `Lib.Search` a search visits pending nodes in turn, but what a node
leads to is learnt when it is visited, and another time it may be something
else. So a visited node is kept with the nodes it has named (`State`), and a
`Step` may have it name any.

The search itself decides only whom it visits: no node twice, and nobody who
is neither a seed nor named by an earlier node (`Trail`). It ends if all nodes
ever pending are from a finite set (`acc_step`), and at its end the visited
nodes are those that can be reached in the graph as it was seen
(`Traversal.mem_visited_iff`).
-/
import KademliaAuction.Lib.Search

namespace KademliaAuction.Lib.LiveSearch

variable {κ : Type*}

/-- The visited nodes with what they named, the latest first, and the pending
nodes. -/
structure State (κ : Type*) where
  visited : List (κ × List κ)
  pending : List κ

/-- The nodes that have been visited. -/
def State.nodes (s : State κ) : List κ := s.visited.map Prod.fst

/-- One step: skip a node that has been visited, or visit it and put what it
names at the end. -/
inductive Step : State κ → State κ → Prop
  | skip {visited : List (κ × List κ)} {rest : List κ} {a : κ} (ha : a ∈ visited.map Prod.fst) :
      Step ⟨visited, a :: rest⟩ ⟨visited, rest⟩
  | visit {visited : List (κ × List κ)} {rest : List κ} {a : κ} (ha : a ∉ visited.map Prod.fst)
      (named : List κ) :
      Step ⟨visited, a :: rest⟩ ⟨(a, named) :: visited, rest ++ named⟩

variable (seeds : List κ)

/-- A node is a seed, or one of these has named it. -/
def From (visited : List (κ × List κ)) (a : κ) : Prop :=
  a ∈ seeds ∨ ∃ p ∈ visited, a ∈ p.2

/-- The order of the visits: no node twice, and each a seed or named by an
earlier one. -/
inductive Trail : List (κ × List κ) → Prop
  | nil : Trail []
  | cons {a : κ} {named : List κ} {before : List (κ × List κ)} (h : Trail before)
      (ha : a ∉ before.map Prod.fst) (hfrom : From seeds before a) : Trail ((a, named) :: before)

/-- What a search maintains. -/
structure Traversal (s : State κ) : Prop where
  trail : Trail seeds s.visited
  source : ∀ a ∈ s.pending, From seeds s.visited a
  seeded : ∀ a ∈ seeds, a ∈ s.nodes ∨ a ∈ s.pending
  closed : ∀ p ∈ s.visited, ∀ b ∈ p.2, b ∈ s.nodes ∨ b ∈ s.pending

variable {seeds}

theorem From.cons {visited : List (κ × List κ)} {a : κ} (p : κ × List κ)
    (h : From seeds visited a) : From seeds (p :: visited) a := by
  rcases h with hseed | ⟨q, hq, hnamed⟩
  · exact Or.inl hseed
  · exact Or.inr ⟨q, List.mem_cons_of_mem _ hq, hnamed⟩

theorem Trail.nodup {visited : List (κ × List κ)} (h : Trail seeds visited) :
    (visited.map Prod.fst).Nodup := by
  induction h with
  | nil => exact List.nodup_nil
  | cons _ ha _ ih => exact List.nodup_cons.mpr ⟨ha, ih⟩

/-- What was visited before a node is where it comes from. -/
theorem Trail.from_of_suffix {visited before : List (κ × List κ)} {p : κ × List κ}
    (h : Trail seeds visited) (hsuffix : (p :: before) <:+ visited) :
    From seeds before p.1 := by
  induction h with
  | nil => simp at hsuffix
  | cons _ _ hfrom ih =>
    rcases List.suffix_cons_iff.mp hsuffix with heq | hsuffix
    · obtain ⟨rfl, rfl⟩ := List.cons.inj heq
      exact hfrom
    · exact ih hsuffix

/-- A search that has not begun. -/
theorem traversal_start : Traversal seeds ⟨[], seeds⟩ where
  trail := .nil
  source := fun _ ha => Or.inl ha
  seeded := fun _ ha => Or.inr ha
  closed := fun _ hp => nomatch hp

theorem Traversal.step {s s' : State κ} (h : Traversal seeds s) (hstep : Step s s') :
    Traversal seeds s' := by
  cases hstep with
  | @skip visited rest a ha =>
    -- The node that is dropped has been visited.
    have hkept : ∀ b, b ∈ visited.map Prod.fst ∨ b ∈ a :: rest →
        b ∈ visited.map Prod.fst ∨ b ∈ rest := by
      intro b hb
      rcases hb with hold | hpending
      · exact Or.inl hold
      · rcases List.mem_cons.mp hpending with rfl | hrest
        · exact Or.inl ha
        · exact Or.inr hrest
    exact ⟨h.trail, fun b hb => h.source b (List.mem_cons_of_mem _ hb),
      fun b hb => hkept b (h.seeded b hb), fun p hp b hb => hkept b (h.closed p hp b hb)⟩
  | @visit visited rest a ha named =>
    have hkept : ∀ b, b ∈ visited.map Prod.fst ∨ b ∈ a :: rest →
        b ∈ ((a, named) :: visited).map Prod.fst ∨ b ∈ rest ++ named := by
      intro b hb
      rcases hb with hold | hpending
      · exact Or.inl (List.mem_cons_of_mem _ hold)
      · rcases List.mem_cons.mp hpending with rfl | hrest
        · exact Or.inl List.mem_cons_self
        · exact Or.inr (List.mem_append_left _ hrest)
    refine ⟨.cons h.trail ha (h.source a List.mem_cons_self), fun b hb => ?_,
      fun b hb => hkept b (h.seeded b hb), fun p hp b hb => ?_⟩
    · rcases List.mem_append.mp hb with hrest | hnamed
      · exact (h.source b (List.mem_cons_of_mem _ hrest)).cons _
      · exact Or.inr ⟨_, List.mem_cons_self, hnamed⟩
    · rcases List.mem_cons.mp hp with rfl | hp
      · exact Or.inr (List.mem_append_right _ hb)
      · exact hkept b (h.closed p hp b hb)

/-- In a graph in which all answers are true, the search is one of
`Lib.Search`. -/
theorem Traversal.toSearch {s : State κ} {next : κ → List κ} (h : Traversal seeds s)
    (hnext : ∀ p ∈ s.visited, p.2 = next p.1) :
    Search.Traversal next seeds ⟨s.nodes, s.pending⟩ := by
  have hfrom : ∀ {visited : List (κ × List κ)} {a : κ}, (∀ p ∈ visited, p.2 = next p.1) →
      From seeds visited a → a ∈ seeds ∨ ∃ p ∈ visited.map Prod.fst, a ∈ next p := by
    intro visited a hagree ha
    rcases ha with hseed | ⟨p, hp, hnamed⟩
    · exact Or.inl hseed
    · exact Or.inr ⟨p.1, List.mem_map_of_mem hp, hagree p hp ▸ hnamed⟩
  have htrail : ∀ {visited : List (κ × List κ)}, Trail seeds visited →
      (∀ p ∈ visited, p.2 = next p.1) → Search.Trail next seeds (visited.map Prod.fst) := by
    intro visited htrail hagree
    induction htrail with
    | nil => exact .nil
    | cons _ ha hsource ih =>
      rw [List.forall_mem_cons] at hagree
      exact .cons (ih hagree.2) ha (hfrom hagree.2 hsource)
  refine ⟨htrail h.trail hnext, fun a ha => hfrom hnext (h.source a ha), h.seeded,
    fun a ha b hb => ?_⟩
  obtain ⟨p, hp, rfl⟩ := List.mem_map.mp ha
  exact h.closed p hp b (hnext p hp ▸ hb)

/-- **What a search has visited at its end**: all that can be reached in the
graph that the answers show. -/
theorem Traversal.mem_visited_iff {visited : List (κ × List κ)} {next : κ → List κ}
    (h : Traversal seeds ⟨visited, []⟩) (hnext : ∀ p ∈ visited, p.2 = next p.1) {a : κ} :
    a ∈ visited.map Prod.fst ↔ Search.Reached next seeds a :=
  (h.toSearch hnext).mem_visited_iff

/-- A search ends that never has a node pending from outside a finite set. -/
theorem acc_step {known : Set κ} (hfin : known.Finite) (s : State κ) :
    Acc (fun s' s => (∀ a ∈ s.pending, a ∈ known) ∧ Step s s') s := by
  have hwf : WellFounded (InvImage (Prod.Lex (· < ·) (· < ·)) fun s : State κ =>
      ({a | a ∈ known ∧ a ∉ s.nodes}.ncard, s.pending.length)) :=
    InvImage.wf _ (Nat.lt_wfRel.wf.prod_lex Nat.lt_wfRel.wf)
  refine Subrelation.accessible (fun {s' s} hstep => ?_) (hwf.apply s)
  obtain ⟨hknown, hstep⟩ := hstep
  cases hstep with
  | skip ha => exact Prod.Lex.right _ (by simp)
  | @visit visited rest a ha named =>
    refine Prod.Lex.left _ _ (Set.ncard_lt_ncard ?_ (hfin.subset fun b hb => hb.1))
    have hmem := hknown a List.mem_cons_self
    refine Set.ssubset_iff_of_subset (fun b hb => ?_) |>.mpr ⟨a, ⟨hmem, ha⟩, fun hb => ?_⟩
    · exact ⟨hb.1, fun hold => hb.2 (List.mem_cons_of_mem _ hold)⟩
    · exact hb.2 List.mem_cons_self

end KademliaAuction.Lib.LiveSearch
