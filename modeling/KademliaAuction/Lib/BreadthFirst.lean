/-
KademliaAuction.Lib.BreadthFirst — the first stop of a breadth-first search.

A search that leaves at the first node with a `verdict`, and otherwise puts
the successors of each node at the end of its queue (`bfsRound`). Nodes that
have been visited are passed over.

What such a search finds has to do with neither the queue nor the visited
nodes: the graph has levels, the seeds and what the nodes of a level name in
turn, and the search leaves at the first node with a verdict on the first
level that has one (`FirstStop`, `ends_bfsRound_iff`). The levels of a graph
with cycles do not end, so the search is compared with one that forgets what
it has visited (`Finds`), whose queue differs by nodes that come a second
time (`Thin`).
-/
import KademliaAuction.Lib.Loop
import KademliaAuction.Lib.Search

namespace KademliaAuction.Lib.Search

variable {κ β : Type*}

/-! ## Levels -/

/-- The nodes of a level in order, the seeds being level 0. -/
def level (next : κ → List κ) (seeds : List κ) : Nat → List κ
  | 0 => seeds
  | n + 1 => (level next seeds n).flatMap next

/-- The first node with a verdict, on the first level that has one. -/
def FirstStop (next : κ → List κ) (verdict : κ → Option β) (seeds : List κ) (a : κ) : Prop :=
  ∃ n, (∀ m < n, ∀ b ∈ level next seeds m, verdict b = none) ∧
    (level next seeds n).find? (fun b => (verdict b).isSome) = some a

variable {next : κ → List κ} {verdict : κ → Option β} {seeds : List κ}

theorem exists_level_of_reached {a : κ} (h : Reached next seeds a) :
    ∃ n, a ∈ level next seeds n := by
  induction h with
  | seed h _ => exact ⟨0, h⟩
  | step _ hab _ ih =>
    obtain ⟨n, hn⟩ := ih
    exact ⟨n + 1, List.mem_flatMap.mpr ⟨_, hn, hab⟩⟩

theorem FirstStop.isSome {a : κ} (h : FirstStop next verdict seeds a) : (verdict a).isSome := by
  obtain ⟨n, _, hfind⟩ := h
  exact List.find?_some (p := fun b => (verdict b).isSome) hfind

/-- Only the order of the successors matters, and which nodes have a verdict. -/
theorem firstStop_congr {γ : Type*} {verdict' : κ → Option γ}
    (h : ∀ a, (verdict a).isSome = (verdict' a).isSome) {a : κ} :
    FirstStop next verdict seeds a ↔ FirstStop next verdict' seeds a := by
  have hnone : ∀ b, verdict b = none ↔ verdict' b = none := fun b => by
    rw [← Option.not_isSome_iff_eq_none, ← Option.not_isSome_iff_eq_none, h b]
  simp only [FirstStop, h, hnone]

/-- If a node with a verdict can be reached, there is a first one. -/
theorem exists_firstStop {a : κ} (h : Reached next seeds a) (ha : (verdict a).isSome) :
    ∃ b, FirstStop next verdict seeds b := by
  classical
  have hlevel : ∃ n, ∃ b ∈ level next seeds n, (verdict b).isSome := by
    obtain ⟨n, hn⟩ := exists_level_of_reached h
    exact ⟨n, a, hn, ha⟩
  obtain ⟨b, hb, hverdict⟩ := Nat.find_spec hlevel
  have hfound : ((level next seeds (Nat.find hlevel)).find? fun c => (verdict c).isSome).isSome :=
    List.find?_isSome.mpr ⟨b, hb, hverdict⟩
  obtain ⟨c, hc⟩ := Option.isSome_iff_exists.mp hfound
  refine ⟨c, Nat.find hlevel, fun m hm d hd => ?_, hc⟩
  by_contra hsome
  exact Nat.find_min hlevel hm ⟨d, hd, Option.isSome_iff_ne_none.mpr hsome⟩

/-! ## A search that forgets -/

/-- A queue without memory leads to this node: the first one has a verdict, or
its successors are put at the end. -/
inductive Finds (next : κ → List κ) (verdict : κ → Option β) : List κ → κ → Prop
  | here {queue : List κ} {a : κ} (ha : (verdict a).isSome) : Finds next verdict (a :: queue) a
  | later {queue : List κ} {a b : κ} (ha : verdict a = none)
      (h : Finds next verdict (queue ++ next a) b) : Finds next verdict (a :: queue) b

/-- Nodes without a verdict at the front of the queue are replaced by their
successors at its end. -/
theorem Finds.of_rotate {front queue : List κ} {a : κ} (hfront : ∀ b ∈ front, verdict b = none)
    (h : Finds next verdict (queue ++ front.flatMap next) a) :
    Finds next verdict (front ++ queue) a := by
  induction front generalizing queue with
  | nil => simpa using h
  | cons b front ih =>
    rw [List.forall_mem_cons] at hfront
    have hrest : Finds next verdict (front ++ (queue ++ next b)) a := ih hfront.2 (by
      rwa [List.append_assoc, ← List.flatMap_cons])
    exact .later hfront.1 (by rwa [← List.append_assoc] at hrest)

/-- The first stop is found level by level. -/
theorem FirstStop.finds {a : κ} (h : FirstStop next verdict seeds a) :
    Finds next verdict seeds a := by
  obtain ⟨n, hbefore, hfind⟩ := h
  have hlast : Finds next verdict (level next seeds n) a := by
    obtain ⟨hverdict, front, rest, hlevel, hfront⟩ := List.find?_eq_some_iff_append.mp hfind
    rw [hlevel]
    refine .of_rotate (fun b hb => ?_) (.here hverdict)
    simpa using hfront b hb
  clear hfind
  induction n with
  | zero => exact hlast
  | succ n ih =>
    refine ih (fun m hm => hbefore m (by omega)) ?_
    rw [← List.append_nil (level next seeds n)]
    exact .of_rotate (hbefore n (by omega)) hlast

/-! ## The search with a memory -/

/-- `queue` is what is left of `long` when the nodes that are seen already,
there or earlier in the list, may be dropped. -/
inductive Thin : (seen : κ → Prop) → (queue long : List κ) → Prop
  | nil {seen : κ → Prop} : Thin seen [] []
  | keep {seen : κ → Prop} {queue long : List κ} {a : κ}
      (h : Thin (fun b => seen b ∨ b = a) queue long) : Thin seen (a :: queue) (a :: long)
  | drop {seen : κ → Prop} {queue long : List κ} {a : κ} (ha : seen a) (h : Thin seen queue long) :
      Thin seen queue (a :: long)

theorem Thin.refl (seen : κ → Prop) (queue : List κ) : Thin seen queue queue := by
  induction queue generalizing seen with
  | nil => exact .nil
  | cons a queue ih => exact .keep (ih _)

theorem Thin.mono {seen seen' : κ → Prop} {queue long : List κ} (hle : ∀ a, seen a → seen' a)
    (h : Thin seen queue long) : Thin seen' queue long := by
  induction h generalizing seen' with
  | nil => exact .nil
  | keep _ ih => exact .keep (ih fun b hb => hb.imp_left (hle b))
  | drop ha _ ih => exact .drop (hle _ ha) (ih hle)

theorem Thin.append {seen : κ → Prop} {queue long : List κ} (h : Thin seen queue long)
    (new : List κ) : Thin seen (queue ++ new) (long ++ new) := by
  induction h with
  | nil => exact .refl _ _
  | keep _ ih => exact .keep ih
  | drop ha _ ih => exact .drop ha ih

/-- At the end, nodes may be dropped that are seen or queued. -/
theorem Thin.append_seen {seen : κ → Prop} {queue long new : List κ} (h : Thin seen queue long)
    (hnew : ∀ a ∈ new, seen a ∨ a ∈ queue) : Thin seen queue (long ++ new) := by
  induction h with
  | @nil seen =>
    induction new with
    | nil => exact .nil
    | cons a new ih =>
      rw [List.forall_mem_cons] at hnew
      refine .drop (hnew.1.resolve_right List.not_mem_nil) (ih hnew.2)
  | @keep seen queue long a _ ih =>
    refine .keep (ih fun b hb => ?_)
    rcases hnew b hb with hseen | hqueue
    · exact Or.inl (Or.inl hseen)
    · rcases List.mem_cons.mp hqueue with rfl | hqueue
      · exact Or.inl (Or.inr rfl)
      · exact Or.inr hqueue
  | drop ha _ ih => exact .drop ha (ih hnew)

/-- Visited nodes have no verdict, and their successors are visited or
queued. -/
def Passed (next : κ → List κ) (verdict : κ → Option β) (s : State κ) : Prop :=
  ∀ a ∈ s.visited, verdict a = none ∧ ∀ b ∈ next a, b ∈ s.visited ∨ b ∈ s.pending

theorem Passed.tail {visited rest : List κ} {a : κ} (h : Passed next verdict ⟨visited, a :: rest⟩)
    (ha : a ∈ visited) : Passed next verdict ⟨visited, rest⟩ := by
  intro b hb
  refine ⟨(h b hb).1, fun c hc => ?_⟩
  rcases (h b hb).2 c hc with hvisited | hpending
  · exact Or.inl hvisited
  · rcases List.mem_cons.mp hpending with rfl | hrest
    · exact Or.inl ha
    · exact Or.inr hrest

theorem Passed.visit {visited rest : List κ} {a : κ} (h : Passed next verdict ⟨visited, a :: rest⟩)
    (ha : verdict a = none) : Passed next verdict ⟨a :: visited, rest ++ next a⟩ := by
  intro b hb
  rcases List.mem_cons.mp hb with rfl | hb
  · exact ⟨ha, fun c hc => Or.inr (List.mem_append_right _ hc)⟩
  · refine ⟨(h b hb).1, fun c hc => ?_⟩
    rcases (h b hb).2 c hc with hvisited | hpending
    · exact Or.inl (List.mem_cons_of_mem _ hvisited)
    · rcases List.mem_cons.mp hpending with rfl | hrest
      · exact Or.inl List.mem_cons_self
      · exact Or.inr (List.mem_append_left _ hrest)

variable [DecidableEq κ]

/-- One round of a breadth-first search. -/
def bfsRound (next : κ → List κ) (verdict : κ → Option β) : State κ → State κ ⊕ Option β
  | ⟨_, []⟩ => .inr none
  | ⟨visited, a :: rest⟩ =>
      if a ∈ visited then .inl ⟨visited, rest⟩
      else
        match verdict a with
        | some b => .inr (some b)
        | none => .inl ⟨a :: visited, rest ++ next a⟩

/-- A search with a memory leaves where the one without leaves. -/
theorem ends_of_finds {queue long visited : List κ} {a : κ} {b : β}
    (h : Finds next verdict long a) (ha : verdict a = some b)
    (hthin : Thin (· ∈ visited) queue long) (hpassed : Passed next verdict ⟨visited, queue⟩) :
    Loop.Ends (bfsRound next verdict) ⟨visited, queue⟩ (some b) := by
  induction h generalizing queue visited with
  | @here long a hverdict =>
    cases hthin with
    | @keep _ queue _ _ hthin =>
      have hnew : a ∉ visited := fun hold => by simp [(hpassed a hold).1] at ha
      exact Loop.ends_of_inr (by rw [bfsRound, if_neg hnew, ha])
    | drop hold _ => simp [(hpassed a hold).1] at ha
  | @later long c a hc _ ih =>
    cases hthin with
    | @keep _ queue _ _ hthin =>
      by_cases hold : c ∈ visited
      · -- The search skips `c`; the successors of `c` are repeated.
        have hsame : Thin (· ∈ visited) queue long :=
          hthin.mono fun b hb => hb.elim id fun heq => heq ▸ hold
        have htail := hpassed.tail hold
        refine (Loop.ends_inl (by rw [bfsRound, if_pos hold])).mpr (ih ha ?_ htail)
        exact hsame.append_seen (htail c hold).2
      · have hboth := (hthin.mono fun b hb => List.mem_cons.mpr hb.symm).append (next c)
        refine (Loop.ends_inl (by rw [bfsRound, if_neg hold, hc])).mpr (ih ha hboth ?_)
        exact hpassed.visit hc
    | drop hold hthin => exact ih ha (hthin.append_seen (hpassed c hold).2) hpassed

/-- A round that goes on is a step of a search. -/
theorem step_of_bfsRound {s s' : State κ} (h : bfsRound next verdict s = .inl s') :
    Step next s s' := by
  obtain ⟨visited, pending⟩ := s
  cases pending with
  | nil => cases h
  | cons a rest =>
    rw [bfsRound] at h
    split at h
    · rename_i hold
      obtain rfl := Sum.inl.inj h
      exact .skip hold
    · rename_i hnew
      split at h
      · cases h
      · obtain rfl := Sum.inl.inj h
        exact .visit hnew (List.Subset.refl _) (fun b hb => Or.inr hb) (.refl _)

/-- A search leaves at a node that can be reached. -/
theorem reached_of_ends {b : β} (h : Loop.Ends (bfsRound next verdict) ⟨[], seeds⟩ (some b)) :
    ∃ a, Reached next seeds a ∧ verdict a = some b := by
  obtain ⟨⟨visited, pending⟩, hlast, hround⟩ := h.invariant (I := Traversal next seeds)
    (fun s s' hs hstep => hs.step (step_of_bfsRound hstep)) traversal_start
  cases pending with
  | nil => cases hround
  | cons a rest =>
    rw [bfsRound] at hround
    split at hround
    · cases hround
    · split at hround
      · rename_i c hc
        obtain rfl := Option.some.inj (Sum.inr.inj hround)
        exact ⟨a, hlast.reached_pending a List.mem_cons_self, hc⟩
      · cases hround

/-- **What a breadth-first search finds.** -/
theorem ends_bfsRound_iff {b : β} :
    Loop.Ends (bfsRound next verdict) ⟨[], seeds⟩ (some b) ↔
      ∃ a, FirstStop next verdict seeds a ∧ verdict a = some b := by
  constructor
  · intro hends
    obtain ⟨c, hreached, hc⟩ : ∃ c, Reached next seeds c ∧ verdict c = some b :=
      reached_of_ends hends
    have hstop : (verdict c).isSome := by rw [hc, Option.isSome_some]
    obtain ⟨a, hfirst⟩ := exists_firstStop hreached hstop
    obtain ⟨b', hb'⟩ := Option.isSome_iff_exists.mp hfirst.isSome
    have hends' : Loop.Ends (bfsRound next verdict) ⟨[], seeds⟩ (some b') :=
      ends_of_finds hfirst.finds hb' (.refl _ _) fun _ h => nomatch h
    obtain rfl := Option.some.inj (hends.unique hends')
    exact ⟨a, hfirst, hb'⟩
  · rintro ⟨a, hfirst, ha⟩
    exact ends_of_finds hfirst.finds ha (.refl _ _) fun _ h => nomatch h

end KademliaAuction.Lib.Search
