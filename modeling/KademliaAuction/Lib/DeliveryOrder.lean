/-
KademliaAuction.Lib.DeliveryOrder — the order of deliveries.

`Handles out m ts m'` is a run of deliveries from `m` to `m'`, with the tokens
`ts` that it delivers. A token that is in flight can as well be delivered at
once (`handles_front`), so two runs that leave nothing in flight deliver the
same tokens, equally often, and any run is the beginning of such a one where
there is one (`handles_perm`, `exists_rest`).

`mem_iff_descendant` says which tokens these are, and `exists_complete_iff`
that nothing is left in flight by some run exactly when no descendant of the
first token is on a cycle.

Where tokens are calls, which wait for those that they make, a call returns
when these have returned (`Returns`). `returns_iff` is the same condition
again.
-/
import KademliaAuction.Lib.Delivery

namespace KademliaAuction.Lib.Delivery

open Relation

variable {α : Type*}

/-- A run of deliveries. -/
inductive Handles (out : α → List α) : Multiset α → List α → Multiset α → Prop
  | nil (m : Multiset α) : Handles out m [] m
  | cons {t : α} {rest : Multiset α} {ts : List α} {m' : Multiset α}
      (h : Handles out (rest + ↑(out t)) ts m') : Handles out (t ::ₘ rest) (t :: ts) m'

variable {out : α → List α}

theorem Handles.delivers_append {m m' m'' : Multiset α} {ts : List α} (h : Handles out m ts m')
    (hdelivers : Delivers out m' m'') : ∃ t, Handles out m (ts ++ [t]) m'' := by
  induction h with
  | nil m =>
    obtain ⟨rest, t, rfl, rfl⟩ := hdelivers
    exact ⟨t, .cons (.nil _)⟩
  | cons _ ih =>
    obtain ⟨t, ht⟩ := ih hdelivers
    exact ⟨t, .cons ht⟩

/-- Nothing is delivered where nothing is in flight. -/
theorem eq_nil_of_handles_zero {m m' : Multiset α} {ts : List α} (h : Handles out m ts m')
    (hm : m = 0) : ts = [] := by
  cases h with
  | nil => rfl
  | cons _ => exact absurd hm Multiset.cons_ne_zero

/-! ## Any order -/

/-- What is in flight can be delivered first. -/
theorem handles_front {ts : List α} : ∀ {t : α} {rest : Multiset α},
    Handles out (t ::ₘ rest) ts 0 →
      ∃ us, ts.Perm (t :: us) ∧ Handles out (rest + ↑(out t)) us 0 := by
  induction ts with
  | nil =>
    intro t rest h
    generalize hm : t ::ₘ rest = m at h
    cases h
    exact absurd hm Multiset.cons_ne_zero
  | cons u ts ih =>
    intro t rest h
    generalize hm : t ::ₘ rest = m at h
    cases h with
    | @cons _ rest' _ _ h =>
      obtain ⟨rfl, rfl⟩ | ⟨_, common, rfl, rfl⟩ := Multiset.cons_eq_cons.mp hm
      · exact ⟨ts, List.Perm.refl _, h⟩
      · rw [Multiset.cons_add] at h
        obtain ⟨us, hperm, hrest⟩ := ih h
        refine ⟨u :: us, (hperm.cons u).trans (List.Perm.swap t u us), ?_⟩
        rw [Multiset.cons_add]
        exact .cons (by rwa [add_right_comm])

/-- **Any run can be completed** where one is complete, with what is missing of
that one. -/
theorem exists_rest {us : List α} : ∀ {m m' : Multiset α} {ts : List α}, Handles out m ts 0 →
    Handles out m us m' → ∃ vs, Handles out m' vs 0 ∧ ts.Perm (us ++ vs) := by
  induction us with
  | nil =>
    intro m m' ts h h'
    cases h'
    exact ⟨ts, h, List.Perm.refl _⟩
  | cons u us ih =>
    intro m m' ts h h'
    cases h' with
    | cons h' =>
      obtain ⟨ts', hperm, hrest⟩ := handles_front h
      obtain ⟨vs, hvs, hperm'⟩ := ih hrest h'
      exact ⟨vs, hvs, hperm.trans (hperm'.cons u)⟩

/-- **The order does not matter**: complete runs deliver the same tokens. -/
theorem handles_perm {m : Multiset α} {ts us : List α} (h : Handles out m ts 0)
    (h' : Handles out m us 0) : ts.Perm us := by
  obtain ⟨vs, hvs, hperm⟩ := exists_rest h h'
  rwa [eq_nil_of_handles_zero hvs rfl, List.append_nil] at hperm

/-! ## Which tokens are delivered -/

theorem mem_of_inFlight {m : Multiset α} {ts : List α} (h : Handles out m ts 0) {a : α}
    (ha : a ∈ m) : a ∈ ts := by
  obtain ⟨rest, rfl⟩ := Multiset.exists_cons_of_mem ha
  obtain ⟨us, hperm, _⟩ := handles_front h
  exact hperm.mem_iff.mpr List.mem_cons_self

theorem mem_of_sends {m m' : Multiset α} {ts : List α} (h : Handles out m ts m') (hm' : m' = 0)
    {a b : α} (ha : a ∈ ts) (hsends : Sends out a b) : b ∈ ts := by
  induction h with
  | nil m => cases ha
  | cons h ih =>
    subst hm'
    obtain rfl | ha := List.mem_cons.mp ha
    · refine List.mem_cons_of_mem _ (mem_of_inFlight h ?_)
      exact Multiset.mem_add.mpr (Or.inr (Multiset.mem_coe.mpr hsends))
    · exact List.mem_cons_of_mem _ (ih rfl ha)

theorem exists_descendant {m m' : Multiset α} {ts : List α} (h : Handles out m ts m') {t : α}
    (ht : t ∈ ts) : ∃ a ∈ m, Descendant out a t := by
  induction h with
  | nil m => cases ht
  | @cons u rest ts m' _ ih =>
    obtain rfl | ht := List.mem_cons.mp ht
    · exact ⟨t, Multiset.mem_cons_self t rest, ReflTransGen.refl⟩
    · obtain ⟨a, ha, hdesc⟩ := ih ht
      obtain ha | ha := Multiset.mem_add.mp ha
      · exact ⟨a, Multiset.mem_cons_of_mem ha, hdesc⟩
      · exact ⟨u, Multiset.mem_cons_self u rest, hdesc.head (Multiset.mem_coe.mp ha)⟩

/-- **What a complete run delivers**: the descendants of what was in flight. -/
theorem mem_iff_descendant {m : Multiset α} {ts : List α} (h : Handles out m ts 0) {t : α} :
    t ∈ ts ↔ ∃ a ∈ m, Descendant out a t := by
  constructor
  · exact exists_descendant h
  · rintro ⟨a, ha, hdesc⟩
    induction hdesc with
    | refl => exact mem_of_inFlight h ha
    | tail _ hsends ih => exact mem_of_sends h rfl ih hsends

/-! ## When there is a complete run -/

theorem exists_complete_of_acc {r : Multiset α → Multiset α → Prop} {P : Multiset α → Prop}
    (hstep : ∀ m m', P m → Delivers out m m' → r m' m ∧ P m') {m : Multiset α} (h : Acc r m)
    (hm : P m) : ∃ ts, Handles out m ts 0 := by
  induction h with
  | intro m _ ih =>
    obtain rfl | ⟨t, hmem⟩ := Multiset.empty_or_exists_mem m
    · exact ⟨[], .nil 0⟩
    · obtain ⟨rest, rfl⟩ := Multiset.exists_cons_of_mem hmem
      obtain ⟨hless, hP⟩ := hstep _ _ hm ⟨rest, t, rfl, rfl⟩
      obtain ⟨ts, hts⟩ := ih _ hless hP
      exact ⟨t :: ts, .cons hts⟩

/-- **Some run is complete** exactly when no descendant is on a cycle: then
every run ends. -/
theorem exists_complete_iff {t₀ : α} (hfin : {a | Descendant out t₀ a}.Finite) :
    (∃ ts, Handles out {t₀} ts 0) ↔ ∀ t, Descendant out t₀ t → ¬ OnCycle out t := by
  constructor
  · intro ⟨ts, hts⟩ t hdesc hcycle
    obtain ⟨f, hstart, hdelivers⟩ := exists_infinite_of_cycle hdesc hcycle
    -- The deliveries of the endless sequence, one more than there can be.
    have hprefix : ∀ n, ∃ us, us.length = n ∧ Handles out {t₀} us (f n) := by
      intro n
      induction n with
      | zero => exact ⟨[], rfl, hstart ▸ .nil _⟩
      | succ n ih =>
        obtain ⟨us, hlength, hus⟩ := ih
        obtain ⟨t, ht⟩ := hus.delivers_append (hdelivers n)
        exact ⟨us ++ [t], by rw [List.length_append, hlength]; rfl, ht⟩
    obtain ⟨us, hlength, hus⟩ := hprefix (ts.length + 1)
    obtain ⟨vs, _, hperm⟩ := exists_rest hts hus
    have hlengths := hperm.length_eq
    rw [List.length_append, hlength] at hlengths
    omega
  · intro hacyclic
    have hirrefl : Std.Irrefl (SentBelow out t₀) :=
      ⟨fun a ha => hacyclic a ha.1 (TransGen.single ha.2)⟩
    refine exists_complete_of_acc (P := fun m => ∀ a ∈ m, Descendant out t₀ a)
      (fun m m' hm hdelivers => cutExpand_of_delivers hm hdelivers)
      (acc_sentBelow hfin hacyclic).cutExpand fun a ha => ?_
    rw [Multiset.mem_singleton.mp ha]
    exact ReflTransGen.refl

/-! ## Calls -/

/-- A call that waits for the calls it makes. -/
inductive Returns (out : α → List α) : α → Prop
  | intro {t : α} (h : ∀ b, Sends out t b → Returns out b) : Returns out t

theorem returns_step {t : α} : Returns out t ↔ ∀ b, Sends out t b → Returns out b :=
  ⟨fun ⟨h⟩ => h, .intro⟩

/-- **A call returns** exactly when no descendant is on a cycle. -/
theorem returns_iff {t₀ : α} (hfin : {a | Descendant out t₀ a}.Finite) :
    Returns out t₀ ↔ ∀ t, Descendant out t₀ t → ¬ OnCycle out t := by
  constructor
  · intro h
    clear hfin
    induction h with
    | intro _ ih =>
      intro t hdesc hcycle
      obtain ⟨b, hsends, hrest⟩ := exists_next_of_cycle hdesc hcycle
      exact ih b hsends t hrest hcycle
  · intro hacyclic
    have hall : ∀ a, Acc (SentBelow out t₀) a → Descendant out t₀ a → Returns out a := by
      intro a hacc
      induction hacc with
      | intro a _ ih =>
        exact fun hdesc => .intro fun b hsends => ih b ⟨hdesc, hsends⟩ (hdesc.tail hsends)
    exact hall t₀ (acc_sentBelow hfin hacyclic) ReflTransGen.refl

end KademliaAuction.Lib.Delivery
