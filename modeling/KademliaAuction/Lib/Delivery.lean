/-
KademliaAuction.Lib.Delivery — messages in flight that spawn messages.

A token `t` that is delivered is replaced by the tokens of `out t`. What is
in flight is a multiset, and a delivery takes any one token of it
(`Delivers`). Whether deliveries can go on for ever is a question about the
graph of `out` alone: `exists_infinite_iff_cycle` says that from one token
with finitely many descendants they can exactly when a descendant is its own
descendant.

A cycle gives an endless path of tokens, and following it an endless
sequence of deliveries. Without one the descendants are well founded, and so
are multisets of them under replacing one by smaller ones
(`Relation.CutExpand`).
-/
import Mathlib.Data.Fintype.Card
import Mathlib.Logic.Hydra

namespace KademliaAuction.Lib.Delivery

open Relation

variable {α : Type*} (out : α → List α)

/-- Delivering `a` sends `b`. -/
def Sends (a b : α) : Prop := b ∈ out a

/-- One delivery. -/
def Delivers (m m' : Multiset α) : Prop :=
  ∃ rest t, m = t ::ₘ rest ∧ m' = rest + ↑(out t)

/-- The tokens that `t` may lead to. -/
def Descendant (t a : α) : Prop := ReflTransGen (Sends out) t a

/-- A token on a cycle. -/
def OnCycle (t : α) : Prop := TransGen (Sends out) t t

variable {out}

/-- A relation that is accessible somewhere has no endless descent from
there. -/
theorem not_descent_of_acc {β : Type*} {r : β → β → Prop} {x : β} (h : Acc r x) :
    ∀ f : Nat → β, f 0 = x → ¬ ∀ n, r (f (n + 1)) (f n) := by
  induction h with
  | intro x _ ih =>
    intro f hstart hdescent
    have hfirst : r (f 1) x := hstart ▸ hdescent 0
    exact ih (f 1) hfirst (fun n => f (n + 1)) rfl fun n => hdescent (n + 1)

/-! ## A cycle keeps deliveries going -/

/-- A token from which a cycle can be reached sends such a token. -/
theorem exists_next_of_cycle {a t : α} (hat : Descendant out a t) (ht : OnCycle out t) :
    ∃ b, Sends out a b ∧ Descendant out b t := by
  rcases ReflTransGen.cases_head hat with rfl | ⟨b, hab, hbt⟩
  · obtain ⟨b, hab, hbt⟩ := TransGen.head'_iff.mp ht
    exact ⟨b, hab, hbt⟩
  · exact ⟨b, hab, hbt⟩

/-- An endless path of tokens is followed by an endless sequence of
deliveries. -/
theorem exists_infinite_of_path (path : Nat → α) (hpath : ∀ n, Sends out (path n) (path (n + 1))) :
    ∃ f : Nat → Multiset α, f 0 = {path 0} ∧ ∀ n, Delivers out (f n) (f (n + 1)) := by
  classical
  -- Deliver the token of the path, keep everything else.
  let f : Nat → Multiset α :=
    Nat.rec {path 0} fun n m => m.erase (path n) + ↑(out (path n))
  have hmem : ∀ n, path n ∈ f n := by
    intro n
    cases n with
    | zero => exact Multiset.mem_singleton_self _
    | succ n => exact Multiset.mem_add.mpr (Or.inr (Multiset.mem_coe.mpr (hpath n)))
  exact ⟨f, rfl, fun n => ⟨(f n).erase (path n), path n, (Multiset.cons_erase (hmem n)).symm, rfl⟩⟩

theorem exists_infinite_of_cycle {t₀ t : α} (hreach : Descendant out t₀ t) (ht : OnCycle out t) :
    ∃ f : Nat → Multiset α, f 0 = {t₀} ∧ ∀ n, Delivers out (f n) (f (n + 1)) := by
  choose next hsends hdesc using fun a : {a // Descendant out a t} => exists_next_of_cycle a.2 ht
  let path : Nat → {a // Descendant out a t} :=
    Nat.rec ⟨t₀, hreach⟩ fun _ a => ⟨next a, hdesc a⟩
  exact exists_infinite_of_path (fun n => (path n).1) fun n => hsends (path n)

/-! ## Without a cycle deliveries end -/

/-- `b` is sent by the descendant `a`. -/
def SentBelow (out : α → List α) (t₀ b a : α) : Prop := Descendant out t₀ a ∧ Sends out a b

theorem acc_sentBelow {t₀ : α} (hfin : {a | Descendant out t₀ a}.Finite)
    (hacyclic : ∀ t, Descendant out t₀ t → ¬ OnCycle out t) : Acc (SentBelow out t₀) t₀ := by
  let below : {a // Descendant out t₀ a} → {a // Descendant out t₀ a} → Prop :=
    fun b a => TransGen (Sends out) a.1 b.1
  have hfinite : Finite {a // Descendant out t₀ a} := hfin.to_subtype
  have htrans : IsTrans _ below := ⟨fun _ _ _ hab hbc => hbc.trans hab⟩
  have hirrefl : Std.Irrefl below := ⟨fun a => hacyclic a.1 a.2⟩
  have hwf : WellFounded below := Finite.wellFounded_of_trans_of_irrefl below
  have hall : ∀ a : {a // Descendant out t₀ a}, Acc (SentBelow out t₀) a.1 := by
    intro a
    induction a using hwf.induction with
    | _ a ih =>
      refine Acc.intro _ fun b hb => ?_
      exact ih ⟨b, hb.1.tail hb.2⟩ (TransGen.single hb.2)
  exact hall ⟨t₀, ReflTransGen.refl⟩

/-- A delivery from descendants to descendants is a cut of one of them. -/
theorem cutExpand_of_delivers {t₀ : α} {m m' : Multiset α} (hm : ∀ a ∈ m, Descendant out t₀ a)
    (h : Delivers out m m') :
    CutExpand (SentBelow out t₀) m' m ∧ ∀ a ∈ m', Descendant out t₀ a := by
  obtain ⟨rest, t, rfl, rfl⟩ := h
  have ht : Descendant out t₀ t := hm t (Multiset.mem_cons_self t rest)
  constructor
  · refine ⟨↑(out t), t, fun b hb => ⟨ht, Multiset.mem_coe.mp hb⟩, ?_⟩
    rw [← Multiset.singleton_add, add_comm {t} rest, add_right_comm]
  · intro a ha
    rcases Multiset.mem_add.mp ha with hrest | hnew
    · exact hm a (Multiset.mem_cons_of_mem hrest)
    · exact ht.tail (Multiset.mem_coe.mp hnew)

/-- **Deliveries can go on for ever exactly when there is a cycle** among the
descendants of the first token. -/
theorem exists_infinite_iff_cycle {t₀ : α} (hfin : {a | Descendant out t₀ a}.Finite) :
    (∃ f : Nat → Multiset α, f 0 = {t₀} ∧ ∀ n, Delivers out (f n) (f (n + 1))) ↔
      ∃ t, Descendant out t₀ t ∧ OnCycle out t := by
  constructor
  · intro ⟨f, hstart, hstep⟩
    by_contra hnone
    push Not at hnone
    have hacc : Acc (SentBelow out t₀) t₀ := acc_sentBelow hfin hnone
    have hirrefl : Std.Irrefl (SentBelow out t₀) :=
      ⟨fun a ha => hnone a ha.1 (TransGen.single ha.2)⟩
    have hdesc : ∀ n, ∀ a ∈ f n, Descendant out t₀ a := by
      intro n
      induction n with
      | zero =>
        intro a ha
        rw [hstart, Multiset.mem_singleton] at ha
        rw [ha]
        exact ReflTransGen.refl
      | succ n ih => exact (cutExpand_of_delivers ih (hstep n)).2
    exact not_descent_of_acc hacc.cutExpand f hstart
      fun n => (cutExpand_of_delivers (hdesc n) (hstep n)).1
  · intro ⟨t, hreach, ht⟩
    exact exists_infinite_of_cycle hreach ht

end KademliaAuction.Lib.Delivery
