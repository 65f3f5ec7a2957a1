/-
KademliaAuction.Lib.HashChain — lists of records each of which names the
digest of the one before it.

`Linked prev hash p l` says that the first record of `l` names `p` and every
later one the digest of its predecessor. Chains grow at the end:
`linked_concat` is the rule for one more record, `tip` the digest the next
record has to name, and `linked_iff_getElem` reads the links by position.
`Linked.eq_of_tip_eq` goes back from the end: where digests tell records
apart, chains of one length with one tip are equal.
-/
import Mathlib.Data.List.Basic
import Mathlib.Data.List.Induction

namespace KademliaAuction.Lib.HashChain

variable {B H : Type*} (prev hash : B → H)

/-- Every record names the digest of the one before it, the first one `p`. -/
def Linked : H → List B → Prop
  | _, [] => True
  | p, b :: bs => prev b = p ∧ Linked (hash b) bs

/-- The digest the next record has to name. -/
def tip (p : H) (l : List B) : H := (l.getLast?.map hash).getD p

variable {prev hash}

@[simp] theorem tip_nil (p : H) : tip hash p [] = p := rfl

@[simp] theorem tip_cons (p : H) (b : B) (l : List B) :
    tip hash p (b :: l) = tip hash (hash b) l := by
  cases l with
  | nil => rfl
  | cons c l => simp [tip, List.getLast?_cons]

theorem linked_concat {p : H} {l : List B} {b : B} :
    Linked prev hash p (l ++ [b]) ↔ Linked prev hash p l ∧ prev b = tip hash p l := by
  induction l generalizing p with
  | nil => simp [Linked]
  | cons c l ih => simp [Linked, ih, and_assoc]

@[simp] theorem tip_concat (p : H) (l : List B) (b : B) : tip hash p (l ++ [b]) = hash b := by
  simp [tip]

/-- Chains of one length with one tip are equal, if the digests tell their
records apart. -/
theorem Linked.eq_of_tip_eq {p q : H} {l l' : List B} (hl : Linked prev hash p l)
    (hl' : Linked prev hash q l') (hlength : l.length = l'.length)
    (hdigest : ∀ b ∈ l, ∀ c ∈ l', hash b = hash c → b = c)
    (htip : tip hash p l = tip hash q l') : l = l' := by
  induction l using List.reverseRecOn generalizing l' with
  | nil => exact (List.eq_nil_of_length_eq_zero hlength.symm).symm
  | append_singleton l b ih =>
    obtain rfl | ⟨l', c, rfl⟩ := l'.eq_nil_or_concat'
    · simp at hlength
    · obtain ⟨hbefore, hprev⟩ := linked_concat.mp hl
      obtain ⟨hbefore', hprev'⟩ := linked_concat.mp hl'
      rw [tip_concat, tip_concat] at htip
      obtain rfl := hdigest b (by simp) c (by simp) htip
      have hsame : l = l' := by
        refine ih hbefore hbefore' (by simpa using hlength) (fun b hb c hc => ?_)
          (hprev.symm.trans hprev')
        exact hdigest b (List.mem_append_left _ hb) c (List.mem_append_left _ hc)
      rw [hsame]

/-- The links, position by position. -/
theorem linked_iff_getElem : ∀ {l : List B} {p : H}, Linked prev hash p l ↔
    (∀ h : 0 < l.length, prev l[0] = p) ∧
      ∀ (i : Nat) (hi : i + 1 < l.length), prev l[i + 1] = hash l[i] := by
  intro l p
  induction l generalizing p with
  | nil => simp [Linked]
  | cons b l ih =>
    rw [Linked, ih]
    constructor
    · intro ⟨hfirst, hsecond, hrest⟩
      refine ⟨fun _ => hfirst, fun i hi => ?_⟩
      cases i with
      | zero => exact hsecond (by simpa using hi)
      | succ i => exact hrest i (by simpa using hi)
    · intro ⟨hfirst, hrest⟩
      exact ⟨hfirst (by simp), fun h => hrest 0 (by simpa using h),
        fun i hi => hrest (i + 1) (by simpa using hi)⟩

end KademliaAuction.Lib.HashChain
