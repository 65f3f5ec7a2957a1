/-
KademliaAuction.Lib.FlagArgs — a flag with a value that may stand anywhere in
a line of arguments.

A line is made of pieces, a token or the flag with its value (`render`). The
value may be anything, the flag too. `strip` reads a line from the left and
takes each flag with what follows it, so it fails on a flag at the end.

`strip_eq_some_iff` is its contract: what is left of a line are the tokens of
the pieces it is made of, where no token is the flag. `firstValue?` is what
stands behind the first flag of a line, the value of the first piece that has
one (`firstValue?_render`).
-/
import Mathlib.Data.List.Basic

namespace KademliaAuction.Lib.FlagArgs

variable {α : Type*}

/-! ## Pieces -/

inductive Piece (α : Type*) where
  | token (t : α)
  | flagged (value : α)

/-- The arguments of a piece. -/
def Piece.args (flag : α) : Piece α → List α
  | .token t => [t]
  | .flagged value => [flag, value]

def Piece.token? : Piece α → Option α
  | .token t => some t
  | .flagged _ => none

def Piece.value? : Piece α → Option α
  | .token _ => none
  | .flagged value => some value

/-- The line that the pieces make. -/
def render (flag : α) (pieces : List (Piece α)) : List α := pieces.flatMap (Piece.args flag)

def tokens (pieces : List (Piece α)) : List α := pieces.filterMap Piece.token?

section Pieces

variable {flag t value : α} {pieces : List (Piece α)}

@[simp] theorem render_nil : render flag [] = [] := rfl
@[simp] theorem render_token : render flag (.token t :: pieces) = t :: render flag pieces := rfl
@[simp] theorem render_flagged :
    render flag (.flagged value :: pieces) = flag :: value :: render flag pieces := rfl

@[simp] theorem tokens_nil : tokens ([] : List (Piece α)) = [] := rfl
@[simp] theorem tokens_token : tokens (.token t :: pieces) = t :: tokens pieces := rfl
@[simp] theorem tokens_flagged : tokens (.flagged value :: pieces) = tokens pieces := rfl

end Pieces

/-! ## Stripping -/

variable [DecidableEq α] {flag : α}

/-- The line without the flags and their values. -/
def strip (flag : α) : List α → Option (List α)
  | [] => some []
  | [arg] => if arg = flag then none else some [arg]
  | arg :: next :: rest =>
      if arg = flag then strip flag rest else (strip flag (next :: rest)).map (arg :: ·)

@[simp] theorem strip_flag (value : α) (rest : List α) :
    strip flag (flag :: value :: rest) = strip flag rest := by
  rw [strip, if_pos rfl]

theorem strip_token {arg : α} (h : arg ≠ flag) (rest : List α) :
    strip flag (arg :: rest) = (strip flag rest).map (arg :: ·) := by
  cases rest with
  | nil => simp [strip, h]
  | cons next rest => rw [strip, if_neg h]

/-- By induction on the pieces: their tokens are left. -/
theorem strip_render {pieces : List (Piece α)} (h : flag ∉ tokens pieces) :
    strip flag (render flag pieces) = some (tokens pieces) := by
  induction pieces with
  | nil => rfl
  | cons piece pieces ih =>
    cases piece with
    | token t =>
      rw [tokens_token, List.mem_cons, not_or] at h
      rw [render_token, strip_token (Ne.symm h.1), ih h.2]
      rfl
    | flagged value =>
      rw [render_flagged, strip_flag]
      exact ih h

/-- What can be stripped is made of pieces. -/
theorem exists_pieces {line left : List α} (h : strip flag line = some left) :
    ∃ pieces, line = render flag pieces ∧ flag ∉ tokens pieces ∧ tokens pieces = left := by
  induction line using strip.induct flag generalizing left with
  | case1 => exact ⟨[], rfl, List.not_mem_nil, Option.some.inj h⟩
  | case2 => simp [strip] at h
  | case3 arg hne =>
    rw [strip, if_neg hne] at h
    exact ⟨[.token arg], rfl, by simpa using Ne.symm hne, Option.some.inj h⟩
  | case4 value rest ih =>
    rw [strip_flag] at h
    obtain ⟨pieces, rfl, hflag, htokens⟩ := ih h
    exact ⟨.flagged value :: pieces, rfl, hflag, htokens⟩
  | case5 arg next rest hne ih =>
    rw [strip_token hne] at h
    obtain ⟨tail, htail, rfl⟩ := Option.map_eq_some_iff.mp h
    obtain ⟨pieces, hline, hflag, rfl⟩ := ih htail
    refine ⟨.token arg :: pieces, by rw [hline]; rfl, ?_, rfl⟩
    simpa using ⟨Ne.symm hne, hflag⟩

/-- **Stripping**: a line leaves these tokens exactly when it is made of pieces
with these tokens, none of them the flag. -/
theorem strip_eq_some_iff {line left : List α} :
    strip flag line = some left ↔
      ∃ pieces, line = render flag pieces ∧ flag ∉ tokens pieces ∧ tokens pieces = left := by
  constructor
  · exact exists_pieces
  · intro h
    obtain ⟨pieces, rfl, hflag, rfl⟩ := h
    exact strip_render hflag

/-! ## The value -/

/-- What follows the first flag. -/
def firstValue? (flag : α) (args : List α) : Option α :=
  (args.idxOf? flag).bind fun index => args[index + 1]?

theorem firstValue?_flag (rest : List α) : firstValue? flag (flag :: rest) = rest.head? := by
  unfold firstValue?
  rw [List.idxOf?_cons, beq_self_eq_true, if_pos rfl, List.head?_eq_getElem?]
  rfl

theorem firstValue?_token {arg : α} (h : arg ≠ flag) (rest : List α) :
    firstValue? flag (arg :: rest) = firstValue? flag rest := by
  unfold firstValue?
  rw [List.idxOf?_cons, beq_eq_false_iff_ne.mpr h, if_neg Bool.false_ne_true,
    Option.bind_map]
  rfl

/-- By induction on the pieces: the tokens are passed over. -/
theorem firstValue?_render {pieces : List (Piece α)} (h : flag ∉ tokens pieces) :
    firstValue? flag (render flag pieces) = pieces.findSome? Piece.value? := by
  induction pieces with
  | nil => rfl
  | cons piece pieces ih =>
    cases piece with
    | token t =>
      rw [tokens_token, List.mem_cons, not_or] at h
      rw [render_token, firstValue?_token (Ne.symm h.1), ih h.2]
      rfl
    | flagged value =>
      rw [render_flagged, firstValue?_flag]
      rfl

end KademliaAuction.Lib.FlagArgs
