/-
KademliaAuction.Lib.Meeting — members who get to know each other through a
hub.

A new member asks the hub, which names everybody it knows, and goes on to ask
those that it has been named. Whoever is asked knows the asker from then on.
A `Step` is a move of one member, so any number of members can be under way at
once, and what one is told may be old when it gets to it.

Of two members, one asks the hub first and is named to the other, which will
ask it: that is `Aware`, kept by every step (`Acquainted.step`). So when no
member has anyone left to ask, everybody knows everybody
(`Acquainted.knows_of_done`).
-/
import Mathlib.Logic.Function.Basic
import Mathlib.Tactic.ByContra

namespace KademliaAuction.Lib.Meeting

variable {ι : Type*}

/-- Whom each member knows, whom it has asked, whom it has come across (those
it has asked or is to ask), and whom the latest answer has named that it has
not looked at yet. -/
structure State (ι : Type*) where
  knows : ι → ι → Prop
  asked : ι → ι → Prop
  met : ι → ι → Prop
  heard : ι → ι → Prop

/-- The relation is as it was. -/
def Same (r r' : ι → ι → Prop) : Prop := ∀ k y, r' k y ↔ r k y

/-- The relation has one more pair. -/
def Adds (r r' : ι → ι → Prop) (i x : ι) : Prop := ∀ k y, r' k y ↔ r k y ∨ (k = i ∧ y = x)

/-- The relation may have one more pair. -/
def MayAdd (r r' : ι → ι → Prop) (i x : ι) : Prop :=
  ∀ k y, (r k y → r' k y) ∧ (r' k y → r k y ∨ (k = i ∧ y = x))

/-- The relation may have one pair less. -/
def MayDrop (r r' : ι → ι → Prop) (i x : ι) : Prop :=
  ∀ k y, (r' k y → r k y) ∧ (r k y → r' k y ∨ (k = i ∧ y = x))

theorem Same.refl (r : ι → ι → Prop) : Same r r := fun _ _ => Iff.rfl

theorem Same.eq {r r' : ι → ι → Prop} (h : Same r r') : r' = r :=
  funext₂ fun k y => propext (h k y)

section Update

variable {β : Type*} [DecidableEq ι] {f : ι → β} {r : β → ι → Prop} {i x : ι} {b : β}

/-! A relation that each member holds a part of, when the part of one member
changes. -/

theorem same_update (h : ∀ y, r b y ↔ r (f i) y) :
    Same (fun k => r (f k)) (fun k => r (Function.update f i b k)) := by
  intro k y
  dsimp only
  by_cases hk : k = i
  · subst hk
    rw [Function.update_self]
    exact h y
  · rw [Function.update_of_ne hk]

theorem adds_update (h : ∀ y, r b y ↔ r (f i) y ∨ y = x) :
    Adds (fun k => r (f k)) (fun k => r (Function.update f i b k)) i x := by
  intro k y
  dsimp only
  by_cases hk : k = i
  · subst hk
    rw [Function.update_self, h y]
    simp
  · rw [Function.update_of_ne hk]
    simp [hk]

theorem mayAdd_update (h : ∀ y, (r (f i) y → r b y) ∧ (r b y → r (f i) y ∨ y = x)) :
    MayAdd (fun k => r (f k)) (fun k => r (Function.update f i b k)) i x := by
  intro k y
  dsimp only
  by_cases hk : k = i
  · subst hk
    rw [Function.update_self]
    exact ⟨(h y).1, fun hy => ((h y).2 hy).imp_right fun heq => ⟨rfl, heq⟩⟩
  · rw [Function.update_of_ne hk]
    exact ⟨id, Or.inl⟩

theorem mayDrop_update (h : ∀ y, (r b y → r (f i) y) ∧ (r (f i) y → r b y ∨ y = x)) :
    MayDrop (fun k => r (f k)) (fun k => r (Function.update f i b k)) i x := by
  intro k y
  dsimp only
  by_cases hk : k = i
  · subst hk
    rw [Function.update_self]
    exact ⟨(h y).1, fun hy => ((h y).2 hy).imp_right fun heq => ⟨rfl, heq⟩⟩
  · rw [Function.update_of_ne hk]
    exact ⟨id, Or.inl⟩

end Update

/-- The moves. -/
inductive Step (hub : ι) (s s' : State ι) : Prop
  | stay (hknows : Same s.knows s'.knows) (hasked : Same s.asked s'.asked)
      (hmet : Same s.met s'.met) (hheard : Same s.heard s'.heard)
  /-- `i` turns to `x`, the hub or one that it has been named, and may meet it.
  If it does so without knowing it, it has asked others than the hub. It only
  forgets that it has been named one that it meets, has asked, or is. -/
  | turn (i x : ι) (hi : i ≠ hub) (hx : x = hub ∨ s.heard i x)
      (hknows : MayAdd s.knows s'.knows i x) (hasked : Same s.asked s'.asked)
      (hmet : MayAdd s.met s'.met i x) (hheard : MayDrop s.heard s'.heard i x)
      (hunknown : s'.met i x → s'.knows i x ∨ ∃ j, s.asked i j ∧ j ≠ hub)
      (hforgets : s.heard i x → s'.heard i x ∨ s'.met i x ∨ s.asked i x ∨ x = i)
  /-- `i` asks `j`, which names some of those it knows; the hub names all. -/
  | ask (i j : ι) (named : ι → Prop) (hi : i ≠ hub) (hdue : s.met i j)
      (hidle : ∀ x, ¬ s.heard i x) (hnamed : ∀ x, named x → x = j ∨ s.knows j x)
      (hall : j = hub → ∀ x, s.knows hub x → named x) (hknows : Adds s.knows s'.knows j i)
      (hasked : Adds s.asked s'.asked i j) (hmet : Same s.met s'.met)
      (hheard : ∀ k x, s'.heard k x ↔ s.heard k x ∨ (k = i ∧ named x))

/-- `i` knows `j` and has met it, or has it from the hub, the only one it has
asked so far. -/
def Aware (hub : ι) (s : State ι) (i j : ι) : Prop :=
  (s.knows i j ∧ s.met i j) ∨ (s.heard i j ∧ ∀ x, s.asked i x → x = hub)

/-- A member that has not asked the hub has not asked anyone, and nobody has
heard of it. Of two that have, one is aware of the other. -/
structure Acquainted (hub : ι) (s : State ι) : Prop where
  taken : ∀ i j, s.asked i j → s.knows j i
  due : ∀ i j, s.asked i j → s.met i j
  known : ∀ i x, s.knows i x ∨ s.met i x ∨ s.heard i x → x = hub ∨ s.asked x hub
  first : ∀ i, i ≠ hub → ¬ s.asked i hub →
    ∀ x, (s.knows i x ∨ s.met i x → x = hub) ∧ ¬ s.asked i x ∧ ¬ s.heard i x
  introduced : ∀ i, s.met i hub → s.knows i hub
  aware : ∀ i j, i ≠ j → i ≠ hub → j ≠ hub → s.asked i hub → s.asked j hub →
    Aware hub s i j ∨ Aware hub s j i

variable {hub : ι} {s s' : State ι}

/-- Nobody has met anyone yet. -/
theorem acquainted_of_empty
    (h : ∀ i x, ¬ s.knows i x ∧ ¬ s.asked i x ∧ ¬ s.met i x ∧ ¬ s.heard i x) :
    Acquainted hub s where
  taken i j hasked := absurd hasked (h i j).2.1
  due i j hasked := absurd hasked (h i j).2.1
  known i x hx := by
    obtain ⟨hknows, _, hmet, hheard⟩ := h i x
    rcases hx with hx | hx | hx
    · exact absurd hx hknows
    · exact absurd hx hmet
    · exact absurd hx hheard
  first i _ _ x := by
    obtain ⟨hknows, hasked, hmet, hheard⟩ := h i x
    exact ⟨fun hx => (hx.elim hknows hmet).elim, hasked, hheard⟩
  introduced i hmet := absurd hmet (h i hub).2.2.1
  aware i j _ _ _ hasked _ := absurd hasked (h i hub).2.1

/-- A member turns to another. -/
theorem Acquainted.turn (h : Acquainted hub s) {i x : ι} (hi : i ≠ hub)
    (hx : x = hub ∨ s.heard i x) (hknows : MayAdd s.knows s'.knows i x)
    (hasked : Same s.asked s'.asked) (hmet : MayAdd s.met s'.met i x)
    (hheard : MayDrop s.heard s'.heard i x)
    (hunknown : s'.met i x → s'.knows i x ∨ ∃ j, s.asked i j ∧ j ≠ hub)
    (hforgets : s.heard i x → s'.heard i x ∨ s'.met i x ∨ s.asked i x ∨ x = i) :
    Acquainted hub s' where
  taken k j hk := (hknows j k).1 (h.taken k j ((hasked k j).mp hk))
  due k j hk := (hmet k j).1 (h.due k j ((hasked k j).mp hk))
  known k y hy := by
    have hold : s.knows k y ∨ s.met k y ∨ s.heard k y ∨ (k = i ∧ y = x) := by
      rcases hy with hy | hy | hy
      · exact ((hknows k y).2 hy).imp_right fun heq => Or.inr (Or.inr heq)
      · exact Or.inr (((hmet k y).2 hy).imp_right Or.inr)
      · exact Or.inr (Or.inr (Or.inl ((hheard k y).1 hy)))
    have hknown : y = hub ∨ s.asked y hub := by
      rcases hold with hy | hy | hy | ⟨rfl, rfl⟩
      · exact h.known k y (Or.inl hy)
      · exact h.known k y (Or.inr (Or.inl hy))
      · exact h.known k y (Or.inr (Or.inr hy))
      · exact hx.elim Or.inl fun hname => h.known k y (Or.inr (Or.inr hname))
    exact hknown.imp_right (hasked y hub).mpr
  first k hk hnew y := by
    obtain ⟨hhub, hnone, hquiet⟩ := h.first k hk (fun hold => hnew ((hasked k hub).mpr hold)) y
    -- A member that has not asked the hub has been named nobody.
    have hnewly : k = i ∧ y = x → y = hub := by
      rintro ⟨rfl, rfl⟩
      exact hx.elim id fun hname => absurd hname hquiet
    refine ⟨fun hy => ?_, fun hy => hnone ((hasked k y).mp hy),
      fun hy => hquiet ((hheard k y).1 hy)⟩
    rcases hy with hy | hy
    · exact ((hknows k y).2 hy).elim (fun hold => hhub (Or.inl hold)) hnewly
    · exact ((hmet k y).2 hy).elim (fun hold => hhub (Or.inr hold)) hnewly
  introduced k hk := by
    rcases (hmet k hub).2 hk with hold | ⟨rfl, rfl⟩
    · exact (hknows k hub).1 (h.introduced k hold)
    · rcases hunknown hk with hknown | ⟨j, hasked_j, _⟩
      · exact hknown
      · -- It has asked somebody, so it has met the hub before.
        have hasked_hub : s.asked k hub := by
          by_contra hnew
          exact (h.first k hi hnew j).2.1 hasked_j
        exact (hknows k hub).1 (h.introduced k (h.due k hub hasked_hub))
  aware a b hab ha hb hasked_a hasked_b := by
    have hkeeps : ∀ a b, a ≠ b → b ≠ hub → Aware hub s a b → Aware hub s' a b := by
      rintro a b hab hb (⟨hk, hm⟩ | ⟨hname, honly⟩)
      · exact Or.inl ⟨(hknows a b).1 hk, (hmet a b).1 hm⟩
      · have honly' : ∀ y, s'.asked a y → y = hub := fun y hy => honly y ((hasked a y).mp hy)
        rcases (hheard a b).2 hname with hstill | ⟨rfl, rfl⟩
        · exact Or.inr ⟨hstill, honly'⟩
        · rcases hforgets hname with hstill | hmeets | hold | hself
          · exact Or.inr ⟨hstill, honly'⟩
          · rcases hunknown hmeets with hknown | ⟨j, hasked_j, hj⟩
            · exact Or.inl ⟨hknown, hmeets⟩
            · exact absurd (honly j hasked_j) hj
          · exact absurd (honly b hold) hb
          · exact absurd hself.symm hab
    have hold := h.aware a b hab ha hb ((hasked a hub).mp hasked_a) ((hasked b hub).mp hasked_b)
    exact hold.imp (hkeeps a b hab hb) (hkeeps b a hab.symm ha)

/-! ## Asking -/

section Ask

variable {i j : ι} {named : ι → Prop}

/-- Whoever asks has asked the hub by then: nobody else is met before. -/
theorem Acquainted.asked_hub (h : Acquainted hub s) (hi : i ≠ hub) (hdue : s.met i j)
    (hasked : Adds s.asked s'.asked i j) : s'.asked i hub := by
  by_cases hold : s.asked i hub
  · exact (hasked i hub).mpr (Or.inl hold)
  · obtain rfl := (h.first i hi hold j).1 (Or.inr hdue)
    exact (hasked i j).mpr (Or.inr ⟨rfl, rfl⟩)

/-- Who was aware of somebody, and has not asked since, still is. -/
theorem Aware.ask {a b : ι} (h : Aware hub s a b) (hidle : ∀ x, ¬ s.heard i x)
    (hknows : Adds s.knows s'.knows j i) (hasked : Adds s.asked s'.asked i j)
    (hmet : Same s.met s'.met) (hheard : ∀ k x, s'.heard k x ↔ s.heard k x ∨ (k = i ∧ named x)) :
    Aware hub s' a b := by
  rcases h with ⟨hk, hm⟩ | ⟨hname, honly⟩
  · exact Or.inl ⟨(hknows a b).mpr (Or.inl hk), (hmet a b).mpr hm⟩
  · have hai : a ≠ i := fun heq => hidle b (heq ▸ hname)
    refine Or.inr ⟨(hheard a b).mpr (Or.inl hname), fun x hx => ?_⟩
    rcases (hasked a x).mp hx with hx | ⟨heq, _⟩
    · exact honly x hx
    · exact absurd heq hai

/-- One that has just asked the hub has been named all that have asked it
before. -/
theorem Acquainted.aware_asker (h : Acquainted hub s) (hi : i ≠ hub) (hdue : s.met i j)
    (hall : j = hub → ∀ x, s.knows hub x → named x) (hasked : Adds s.asked s'.asked i j)
    (hheard : ∀ k x, s'.heard k x ↔ s.heard k x ∨ (k = i ∧ named x)) (hnew : ¬ s.asked i hub)
    {a : ι} (ha : a ≠ i) (hasked_a : s'.asked a hub) : Aware hub s' i a := by
  obtain rfl := (h.first i hi hnew j).1 (Or.inr hdue)
  have hbefore : s.asked a j := by
    rcases (hasked a j).mp hasked_a with hx | ⟨heq, _⟩
    · exact hx
    · exact absurd heq ha
  refine Or.inr ⟨(hheard i a).mpr (Or.inr ⟨rfl, hall rfl a (h.taken a j hbefore)⟩), fun x hx => ?_⟩
  rcases (hasked i x).mp hx with hx | ⟨_, rfl⟩
  · exact absurd hx (h.first i hi hnew x).2.1
  · rfl

/-- Somebody is asked. -/
theorem Acquainted.ask (h : Acquainted hub s) (hi : i ≠ hub)
    (hdue : s.met i j) (hidle : ∀ x, ¬ s.heard i x) (hnamed : ∀ x, named x → x = j ∨ s.knows j x)
    (hall : j = hub → ∀ x, s.knows hub x → named x) (hknows : Adds s.knows s'.knows j i)
    (hasked : Adds s.asked s'.asked i j) (hmet : Same s.met s'.met)
    (hheard : ∀ k x, s'.heard k x ↔ s.heard k x ∨ (k = i ∧ named x)) : Acquainted hub s' where
  taken k x hx := by
    rcases (hasked k x).mp hx with hold | ⟨rfl, rfl⟩
    · exact (hknows x k).mpr (Or.inl (h.taken k x hold))
    · exact (hknows x k).mpr (Or.inr ⟨rfl, rfl⟩)
  due k x hx := by
    rcases (hasked k x).mp hx with hold | ⟨rfl, rfl⟩
    · exact (hmet k x).mpr (h.due k x hold)
    · exact (hmet k x).mpr hdue
  known k x hx := by
    have hmono : s.asked x hub → s'.asked x hub := fun hold => (hasked x hub).mpr (Or.inl hold)
    rcases hx with hx | hx | hx
    · rcases (hknows k x).mp hx with hold | ⟨rfl, rfl⟩
      · exact (h.known k x (Or.inl hold)).imp_right hmono
      · exact Or.inr (h.asked_hub hi hdue hasked)
    · exact (h.known k x (Or.inr (Or.inl ((hmet k x).mp hx)))).imp_right hmono
    · rcases (hheard k x).mp hx with hold | ⟨rfl, hname⟩
      · exact (h.known k x (Or.inr (Or.inr hold))).imp_right hmono
      · rcases hnamed x hname with rfl | hold
        · exact (h.known k x (Or.inr (Or.inl hdue))).imp_right hmono
        · exact (h.known j x (Or.inl hold)).imp_right hmono
  first k hk hnew x := by
    have hki : k ≠ i := fun heq => hnew (heq ▸ h.asked_hub hi hdue hasked)
    have hbefore : ¬ s.asked k hub := fun hold => hnew ((hasked k hub).mpr (Or.inl hold))
    obtain ⟨honly, hnone, hquiet⟩ := h.first k hk hbefore x
    refine ⟨fun hx => ?_, fun hx => ?_, fun hx => ?_⟩
    · rcases hx with hx | hx
      · rcases (hknows k x).mp hx with hold | ⟨rfl, _⟩
        · exact honly (Or.inl hold)
        · -- It is asked, so it has asked the hub or is the hub.
          exact absurd ((h.known i k (Or.inr (Or.inl hdue))).resolve_left hk) hbefore
      · exact honly (Or.inr ((hmet k x).mp hx))
    · rcases (hasked k x).mp hx with hold | ⟨heq, _⟩
      · exact hnone hold
      · exact hki heq
    · rcases (hheard k x).mp hx with hold | ⟨heq, _⟩
      · exact hquiet hold
      · exact hki heq
  introduced k hk := (hknows k hub).mpr (Or.inl (h.introduced k ((hmet k hub).mp hk)))
  aware a b hab ha hb hasked_a hasked_b := by
    have hwho : ∀ a, s'.asked a hub → ¬ s.asked a hub → a = i := by
      intro a hx hold
      rcases (hasked a hub).mp hx with hx | ⟨heq, _⟩
      · exact absurd hx hold
      · exact heq
    by_cases hold_a : s.asked a hub
    · by_cases hold_b : s.asked b hub
      · exact (h.aware a b hab ha hb hold_a hold_b).imp
          (fun haware => haware.ask hidle hknows hasked hmet hheard)
          (fun haware => haware.ask hidle hknows hasked hmet hheard)
      · obtain rfl := hwho b hasked_b hold_b
        exact Or.inr (h.aware_asker hi hdue hall hasked hheard hold_b hab hasked_a)
    · obtain rfl := hwho a hasked_a hold_a
      exact Or.inl (h.aware_asker hi hdue hall hasked hheard hold_a hab.symm hasked_b)

end Ask

/-- **Every move keeps the members acquainted.** -/
theorem Acquainted.step (h : Acquainted hub s) (hstep : Step hub s s') : Acquainted hub s' := by
  cases hstep with
  | stay hknows hasked hmet hheard =>
    have hsame : s' = s := by
      cases s'
      rw [State.mk.injEq]
      exact ⟨hknows.eq, hasked.eq, hmet.eq, hheard.eq⟩
    rw [hsame]
    exact h
  | turn i x hi hx hknows hasked hmet hheard hunknown hforgets =>
    exact h.turn hi hx hknows hasked hmet hheard hunknown hforgets
  | ask i j named hi hdue hidle hnamed hall hknows hasked hmet hheard =>
    exact h.ask hi hdue hidle hnamed hall hknows hasked hmet hheard

/-- The member has met the hub, and has asked all it has met. -/
structure Done (hub : ι) (s : State ι) (i : ι) : Prop where
  hub : s.met i hub
  asked : ∀ x, s.met i x → s.asked i x
  idle : ∀ x, ¬ s.heard i x

/-- **Everybody knows everybody** when all but the hub are done. -/
theorem Acquainted.knows_of_done (h : Acquainted hub s) (hdone : ∀ i, i ≠ hub → Done hub s i)
    {i j : ι} (hij : i ≠ j) : s.knows i j := by
  have hasked : ∀ k, k ≠ hub → s.asked k hub := fun k hk =>
    (hdone k hk).asked hub (hdone k hk).hub
  by_cases hi : i = hub
  · subst hi
    exact h.taken j i (hasked j hij.symm)
  by_cases hj : j = hub
  · subst hj
    exact h.introduced i (hdone i hi).hub
  have hends : ∀ a b, a ≠ hub → Aware hub s a b → s.knows a b ∧ s.knows b a := by
    rintro a b ha (⟨hknows, hmet⟩ | ⟨hname, _⟩)
    · exact ⟨hknows, h.taken a b ((hdone a ha).asked b hmet)⟩
    · exact absurd hname ((hdone a ha).idle b)
  rcases h.aware i j hij hi hj (hasked i hi) (hasked j hj) with haware | haware
  · exact (hends i j hi haware).1
  · exact (hends j i hj haware).2

end KademliaAuction.Lib.Meeting
