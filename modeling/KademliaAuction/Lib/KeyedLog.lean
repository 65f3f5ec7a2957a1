/-
KademliaAuction.Lib.KeyedLog — a map that is kept by a log of writes.

`effect` says what an entry of the log does: it sets one key, clears one, or
neither. `replay` is the map after a log. A key of it depends on the entries
about that key only (`replay_filter`), and holds what the last of them set
(`replay_eq_some_iff`).
-/
import Mathlib.Data.List.Induction
import Mathlib.Logic.Function.Basic

namespace KademliaAuction.Lib.KeyedLog

variable {ε κ β : Type*} [DecidableEq κ]

/-- The map after one entry. -/
def write (effect : ε → Option (κ × Option β)) (m : κ → Option β) (e : ε) : κ → Option β :=
  match effect e with
  | none => m
  | some (k, v) => Function.update m k v

/-- The map after a log. -/
def replay (effect : ε → Option (κ × Option β)) (m : κ → Option β) (log : List ε) : κ → Option β :=
  log.foldl (write effect) m

/-- The key that an entry is about. -/
def about (effect : ε → Option (κ × Option β)) (e : ε) : Option κ := (effect e).map Prod.fst

variable {effect : ε → Option (κ × Option β)} {m : κ → Option β}

theorem replay_concat (log : List ε) (e : ε) :
    replay effect m (log ++ [e]) = write effect (replay effect m log) e := by
  simp [replay]

theorem write_of_not_about {e : ε} {k : κ} (h : about effect e ≠ some k) :
    write effect m e k = m k := by
  unfold write
  cases heffect : effect e with
  | none => rfl
  | some kv =>
    have hne : k ≠ kv.1 := by
      rintro rfl
      exact h (by simp [about, heffect])
    exact Function.update_of_ne hne _ _

theorem write_of_about {e : ε} {k : κ} {v : Option β} (h : effect e = some (k, v)) :
    write effect m e k = v := by
  simp [write, h]

/-- Entries about other keys play no part. -/
theorem replay_filter (k : κ) (log : List ε) :
    replay effect m (log.filter fun e => about effect e = some k) k = replay effect m log k := by
  induction log using List.reverseRecOn with
  | nil => rfl
  | append_singleton log e ih =>
    rw [List.filter_append, replay_concat]
    by_cases h : about effect e = some k
    · obtain ⟨⟨key, v⟩, heffect, rfl⟩ := Option.map_eq_some_iff.mp h
      simp only [h, decide_true, List.filter_cons_of_pos, List.filter_nil]
      rw [replay_concat, write_of_about heffect, write_of_about heffect]
    · simp only [h, decide_false, Bool.false_eq_true, not_false_eq_true, List.filter_cons_of_neg,
        List.filter_nil, List.append_nil]
      rw [ih, write_of_not_about h]

/-- What a key is mapped to in the end depends on what it is mapped to at
first only. -/
theorem replay_congr {m' : κ → Option β} {k : κ} (h : m k = m' k) (log : List ε) :
    replay effect m log k = replay effect m' log k := by
  induction log using List.reverseRecOn with
  | nil => exact h
  | append_singleton log e ih =>
    rw [replay_concat, replay_concat]
    by_cases habout : about effect e = some k
    · obtain ⟨⟨key, v⟩, heffect, rfl⟩ := Option.map_eq_some_iff.mp habout
      rw [write_of_about heffect, write_of_about heffect]
    · rw [write_of_not_about habout, write_of_not_about habout, ih]

/-- Where an entry of a longer log stands: at its end, or in what it was
before. -/
theorem concat_eq_append_cons {log before after : List ε} {e e' : ε}
    (h : log ++ [e] = before ++ e' :: after) :
    (after = [] ∧ e' = e) ∨ ∃ after', after = after' ++ [e] ∧ log = before ++ e' :: after' := by
  rcases List.eq_nil_or_concat after with rfl | ⟨after, last, rfl⟩
  · exact Or.inl ⟨rfl, (List.append_singleton_inj.mp h).2.symm⟩
  · rw [List.concat_eq_append, ← List.cons_append, ← List.append_assoc] at h
    obtain ⟨hlog, rfl⟩ := List.append_singleton_inj.mp h
    exact Or.inr ⟨after, List.concat_eq_append, hlog⟩

/-- A key holds what the last entry about it set. -/
theorem replay_eq_some_iff {k : κ} (hm : m k = none) {log : List ε} {v : β} :
    replay effect m log k = some v ↔
      ∃ before e after, log = before ++ e :: after ∧ effect e = some (k, some v) ∧
        ∀ e' ∈ after, about effect e' ≠ some k := by
  induction log using List.reverseRecOn with
  | nil => simp [replay, hm]
  | append_singleton log e ih =>
    rw [replay_concat]
    by_cases h : about effect e = some k
    · obtain ⟨⟨key, set⟩, heffect, rfl⟩ := Option.map_eq_some_iff.mp h
      rw [write_of_about heffect]
      constructor
      · rintro rfl
        exact ⟨log, e, [], rfl, heffect, fun e' he' => absurd he' List.not_mem_nil⟩
      · rintro ⟨before, e', after, hlog, heffect', hafter⟩
        rcases concat_eq_append_cons hlog with ⟨_, rfl⟩ | ⟨after', rfl, _⟩
        · exact (Prod.mk.inj (Option.some.inj (heffect.symm.trans heffect'))).2
        · exact absurd h (hafter e (by simp))
    · rw [write_of_not_about h, ih]
      constructor
      · rintro ⟨before, e', after, rfl, heffect, hafter⟩
        refine ⟨before, e', after ++ [e], by simp, heffect, fun a ha => ?_⟩
        rcases List.mem_append.mp ha with hold | hnew
        · exact hafter a hold
        · rw [List.mem_singleton.mp hnew]
          exact h
      · rintro ⟨before, e', after, hlog, heffect, hafter⟩
        rcases concat_eq_append_cons hlog with ⟨_, rfl⟩ | ⟨after', rfl, hold⟩
        · exact absurd (by simp [about, heffect]) h
        · exact ⟨before, e', after', hold, heffect, fun a ha => hafter a (by simp [ha])⟩

end KademliaAuction.Lib.KeyedLog
