/-
KademliaAuction.Lib.Recency — least-recently-used lists.

`keepLast key l` is a history in which only the last record of each key is
kept, in order; `lastN n` are the `n` most recent records of a list. A
bounded cache that moves a key to the back when it is touched and drops the
front record when it is full holds `lastN n (keepLast key l)` after the
history `l`: `lastN_keepLast_concat` is that induction step, and
`mem_lastN_keepLast` says which records such a cache still holds.
-/
import Mathlib.Data.List.Dedup

namespace KademliaAuction.Lib.Recency

variable {α κ : Type*} [DecidableEq κ] (key : α → κ)

/-- Keep the last record of each key. -/
def keepLast : List α → List α
  | [] => []
  | a :: l => if key a ∈ l.map key then keepLast l else a :: keepLast l

/-- The last `n` elements of a list. -/
def lastN (n : Nat) (l : List α) : List α := l.drop (l.length - n)

/-- The list without the records of a key. -/
def without (k : κ) (l : List α) : List α := l.filter fun a => key a ≠ k

variable {key}

/-! ## `keepLast` -/

theorem map_key_keepLast (l : List α) : (keepLast key l).map key = (l.map key).dedup := by
  induction l with
  | nil => rfl
  | cons a l ih =>
    unfold keepLast
    by_cases h : key a ∈ l.map key
    · rw [if_pos h, List.map_cons, List.dedup_cons_of_mem h, ih]
    · rw [if_neg h, List.map_cons, List.map_cons, List.dedup_cons_of_notMem h, ih]

theorem nodup_map_key_keepLast (l : List α) : ((keepLast key l).map key).Nodup := by
  rw [map_key_keepLast]
  exact List.nodup_dedup _

/-- One more record: the older one of its key goes. -/
theorem keepLast_concat (l : List α) (a : α) :
    keepLast key (l ++ [a]) = without key (key a) (keepLast key l) ++ [a] := by
  induction l with
  | nil => rfl
  | cons b l ih =>
    rw [List.cons_append, keepLast, keepLast, ih]
    by_cases hl : key b ∈ l.map key
    · rw [if_pos (by simp only [List.map_append, List.mem_append]; exact Or.inl hl), if_pos hl]
    · by_cases hba : key b = key a
      · rw [if_pos (by simp [hba]), if_neg hl]
        simp [without, hba]
      · have hnot : key b ∉ (l ++ [a]).map key := by
          simp only [List.map_append, List.mem_append, not_or]
          exact ⟨hl, by simpa using hba⟩
        rw [if_neg hnot, if_neg hl]
        simp [without, hba]

/-- Where the last record of a key stands. -/
theorem keepLast_append_cons (pre : List α) {post : List α} {a : α} (h : key a ∉ post.map key) :
    ∃ older, keepLast key (pre ++ a :: post) = older ++ a :: keepLast key post := by
  induction pre with
  | nil => exact ⟨[], by simp [keepLast, h]⟩
  | cons b pre ih =>
    obtain ⟨older, holder⟩ := ih
    rw [List.cons_append, keepLast]
    split
    · exact ⟨older, holder⟩
    · exact ⟨b :: older, by rw [holder]; rfl⟩

/-- A kept record is the last one of its key. -/
theorem split_of_mem_keepLast {l : List α} {a : α} (h : a ∈ keepLast key l) :
    ∃ pre post, l = pre ++ a :: post ∧ key a ∉ post.map key := by
  induction l with
  | nil => simp [keepLast] at h
  | cons b l ih =>
    unfold keepLast at h
    split at h
    · obtain ⟨pre, post, rfl, hpost⟩ := ih h
      exact ⟨b :: pre, post, rfl, hpost⟩
    · rename_i hb
      rcases List.mem_cons.mp h with rfl | h
      · exact ⟨[], l, rfl, hb⟩
      · obtain ⟨pre, post, rfl, hpost⟩ := ih h
        exact ⟨b :: pre, post, rfl, hpost⟩

/-! ## `lastN` -/

theorem lastN_of_length_le {n : Nat} {l : List α} (h : l.length ≤ n) : lastN n l = l := by
  simp [lastN, Nat.sub_eq_zero_of_le h]

theorem length_lastN (n : Nat) (l : List α) : (lastN n l).length = min n l.length := by
  simp only [lastN, List.length_drop]
  omega

/-- A long enough tail decides. -/
theorem lastN_append {n : Nat} {l₁ l₂ : List α} (h : n ≤ l₂.length) :
    lastN n (l₁ ++ l₂) = lastN n l₂ := by
  have hlen : (l₁ ++ l₂).length - n = l₁.length + (l₂.length - n) := by
    rw [List.length_append]; omega
  rw [lastN, hlen, List.drop_append]
  simp [lastN]

theorem exists_append_lastN (n : Nat) (l : List α) : ∃ front, l = front ++ lastN n l :=
  ⟨l.take (l.length - n), (List.take_append_drop ..).symm⟩

/-- An element is among the last `n` when fewer than `n` follow it. -/
theorem mem_lastN_append_cons {n : Nat} {pre post : List α} {a : α} (hpost : a ∉ post) :
    a ∈ lastN n (pre ++ a :: post) ↔ post.length < n := by
  by_cases h : post.length < n
  · simp only [h, iff_true]
    by_cases hall : (pre ++ a :: post).length ≤ n
    · rw [lastN_of_length_le hall]
      simp
    · rw [lastN, List.drop_append_of_le_length (by simp at hall ⊢; omega)]
      simp
  · simp only [h, iff_false]
    rw [List.append_cons, lastN_append (by omega)]
    exact fun hmem => hpost (List.mem_of_mem_drop hmem)

/-! ## The bounded list -/

theorem length_le_without_succ {l : List α} (hl : (l.map key).Nodup) (k : κ) :
    l.length ≤ (without key k l).length + 1 := by
  induction l with
  | nil => simp
  | cons b l ih =>
    rw [List.map_cons, List.nodup_cons] at hl
    by_cases hb : key b = k
    · have hrest : without key k l = l := by
        refine List.filter_eq_self.mpr fun c hc => ?_
        have : key c ≠ key b := fun hcb => hl.1 (hcb ▸ List.mem_map_of_mem hc)
        simpa [hb] using this
      have hsame : without key k (b :: l) = l := by
        rw [show without key k (b :: l) = without key k l by simp [without, hb], hrest]
      have hlength := congrArg List.length hsame
      simp only [List.length_cons]
      omega
    · have : without key k (b :: l) = b :: without key k l := by simp [without, hb]
      rw [this, List.length_cons, List.length_cons]
      have := ih hl.2
      omega

/-- Making room in a full list and appending is taking the last `n`. -/
theorem room_concat {n : Nat} {l : List α} (hn : 1 ≤ n) (hl : l.length ≤ n) (a : α) :
    (if l.length = n then l.tail else l) ++ [a] = lastN n (l ++ [a]) := by
  by_cases hfull : l.length = n
  · rw [if_pos hfull]
    cases l with
    | nil => simp at hfull; omega
    | cons b l =>
      have hdrop : (b :: l ++ [a]).length - n = 1 := by
        rw [List.length_append, hfull, List.length_singleton]; omega
      rw [lastN, hdrop]
      rfl
  · rw [if_neg hfull, lastN_of_length_le (by simp; omega)]

/-- **LRU step**: after one more record the `n` most recent ones are those of
the list that was kept so far. The record dropped from the front is never
needed again, because at most one older record goes. -/
theorem lastN_keepLast_concat {n : Nat} (l : List α) (a : α) :
    lastN n (keepLast key (l ++ [a])) =
      lastN n (without key (key a) (lastN n (keepLast key l)) ++ [a]) := by
  rw [keepLast_concat]
  by_cases hlen : (keepLast key l).length ≤ n
  · rw [lastN_of_length_le hlen]
  · obtain ⟨front, hfront⟩ := exists_append_lastN n (keepLast key l)
    have hkeep : (lastN n (keepLast key l)).length = n := by
      rw [length_lastN]; omega
    have hnodup : ((lastN n (keepLast key l)).map key).Nodup := by
      have h : ((keepLast key l).map key).Nodup := nodup_map_key_keepLast l
      rw [hfront, List.map_append] at h
      exact (List.nodup_append.mp h).2.1
    have hone := length_le_without_succ hnodup (key a)
    have hsplit : without key (key a) (keepLast key l) ++ [a] =
        without key (key a) front ++ (without key (key a) (lastN n (keepLast key l)) ++ [a]) := by
      rw [← List.append_assoc]
      refine congrArg (· ++ [a]) ?_
      conv_lhs => rw [hfront]
      simp [without]
    rw [hsplit, lastN_append (by simp; omega)]

/-- **What the bounded list still holds**: the last record of a key, as long
as fewer than `n` other keys followed it. -/
theorem mem_lastN_keepLast {n : Nat} {l : List α} {a : α} :
    a ∈ lastN n (keepLast key l) ↔
      ∃ pre post, l = pre ++ a :: post ∧ key a ∉ post.map key ∧ (post.map key).dedup.length < n := by
  have hcount : ∀ {pre post : List α}, key a ∉ post.map key →
      (a ∈ lastN n (keepLast key (pre ++ a :: post)) ↔ (post.map key).dedup.length < n) := by
    intro pre post hpost
    obtain ⟨older, holder⟩ := keepLast_append_cons pre hpost
    have hnodup : ((keepLast key (pre ++ a :: post)).map key).Nodup := nodup_map_key_keepLast _
    rw [holder, List.map_append, List.map_cons, List.nodup_append] at hnodup
    have hposta : a ∉ keepLast key post := fun hmem =>
      (List.nodup_cons.mp hnodup.2.1).1 (List.mem_map_of_mem hmem)
    rw [holder, mem_lastN_append_cons hposta, ← map_key_keepLast, List.length_map]
  constructor
  · intro h
    obtain ⟨pre, post, rfl, hpost⟩ := split_of_mem_keepLast (List.mem_of_mem_drop h)
    exact ⟨pre, post, rfl, hpost, (hcount hpost).mp h⟩
  · rintro ⟨pre, post, rfl, hpost, hlt⟩
    exact (hcount hpost).mpr hlt

end KademliaAuction.Lib.Recency
