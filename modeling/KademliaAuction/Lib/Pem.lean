/-
KademliaAuction.Lib.Pem — base64 and PEM texts.

`encode` and `decode` are base64 with the standard alphabet: three bytes are
four characters, and the last group is filled up with `=`. What `encode`
writes is read back (`decode_encode`), and is made of no characters but those
of the alphabet (`InAlphabet`).

A PEM text is a header, lines of base64 and a footer (`Armors`). `lines` takes
a text apart at its line ends, with or without a carriage return before them.
`Armors.body_eq`: without the lines that start with dashes, and with the
others joined, a PEM text is the base64 text.
-/
import Mathlib.Data.List.Basic
import Mathlib.Tactic.IntervalCases

namespace KademliaAuction.Lib.Pem

/-! ## One character -/

/-- The character of a value below 64. -/
def char (value : Nat) : Char :=
  if value < 26 then Char.ofNat (value + 65)
  else if value < 52 then Char.ofNat (value + 71)
  else if value < 62 then Char.ofNat (value - 4)
  else if value = 62 then '+'
  else '/'

/-- The value of a character of the alphabet. -/
def value? (c : Char) : Option Nat :=
  if 'A' ≤ c ∧ c ≤ 'Z' then some (c.toNat - 65)
  else if 'a' ≤ c ∧ c ≤ 'z' then some (c.toNat - 71)
  else if '0' ≤ c ∧ c ≤ '9' then some (c.toNat + 4)
  else if c = '+' then some 62
  else if c = '/' then some 63
  else none

/-- A character of base64 texts. -/
def InAlphabet (c : Char) : Prop := c = '=' ∨ ∃ value, value? c = some value

theorem value?_char {value : Nat} (h : value < 64) : value? (char value) = some value := by
  interval_cases value <;> decide

theorem char_ne_pad {value : Nat} (h : value < 64) : char value ≠ '=' := by
  intro heq
  have hvalue := value?_char h
  have hpad : value? '=' = none := by decide
  rw [heq, hpad] at hvalue
  cases hvalue

theorem inAlphabet_char {value : Nat} (h : value < 64) : InAlphabet (char value) :=
  Or.inr ⟨value, value?_char h⟩

/-! ## Base64 -/

/-- Three bytes are four characters. -/
def encode : List UInt8 → List Char
  | [] => []
  | [a] => [char (a.toNat / 4), char (a.toNat % 4 * 16), '=', '=']
  | [a, b] =>
      [char (a.toNat / 4), char (a.toNat % 4 * 16 + b.toNat / 16), char (b.toNat % 16 * 4), '=']
  | a :: b :: c :: rest =>
      char (a.toNat / 4) :: char (a.toNat % 4 * 16 + b.toNat / 16) ::
        char (b.toNat % 16 * 4 + c.toNat / 64) :: char (c.toNat % 64) :: encode rest

/-- The last group, of one byte: the bits that are left over are zero. -/
def decodeOne (w x : Char) : Option (List UInt8) :=
  match value? w, value? x with
  | some w, some x => if x % 16 = 0 then some [UInt8.ofNat (w * 4 + x / 16)] else none
  | _, _ => none

/-- The last group, of two bytes. -/
def decodeTwo (w x y : Char) : Option (List UInt8) :=
  match value? w, value? x, value? y with
  | some w, some x, some y =>
      if y % 4 = 0 then some [UInt8.ofNat (w * 4 + x / 16), UInt8.ofNat (x % 16 * 16 + y / 4)]
      else none
  | _, _, _ => none

/-- A full group. -/
def decodeThree (w x y z : Char) : Option (List UInt8) :=
  match value? w, value? x, value? y, value? z with
  | some w, some x, some y, some z =>
      some [UInt8.ofNat (w * 4 + x / 16), UInt8.ofNat (x % 16 * 16 + y / 4),
        UInt8.ofNat (y % 4 * 64 + z)]
  | _, _, _, _ => none

/-- Only the last group is filled up. -/
def decode : List Char → Option (List UInt8)
  | [] => some []
  | w :: x :: y :: z :: rest =>
      if z = '=' then
        if rest ≠ [] then none else if y = '=' then decodeOne w x else decodeTwo w x y
      else
        match decodeThree w x y z, decode rest with
        | some bytes, some more => some (bytes ++ more)
        | _, _ => none
  | _ => none

theorem ofNat_eq {n : Nat} {a : UInt8} (h : n = a.toNat) : UInt8.ofNat n = a := by
  rw [h, UInt8.ofNat_toNat]

theorem decodeOne_char (a : UInt8) :
    decodeOne (char (a.toNat / 4)) (char (a.toNat % 4 * 16)) = some [a] := by
  have ha := a.toNat_lt
  unfold decodeOne
  rw [value?_char (by omega), value?_char (by omega)]
  dsimp only
  rw [if_pos (by omega), @ofNat_eq _ a (by omega)]

theorem decodeTwo_char (a b : UInt8) :
    decodeTwo (char (a.toNat / 4)) (char (a.toNat % 4 * 16 + b.toNat / 16))
      (char (b.toNat % 16 * 4)) = some [a, b] := by
  have ha := a.toNat_lt
  have hb := b.toNat_lt
  unfold decodeTwo
  rw [value?_char (by omega), value?_char (by omega), value?_char (by omega)]
  dsimp only
  rw [if_pos (by omega), @ofNat_eq _ a (by omega), @ofNat_eq _ b (by omega)]

theorem decodeThree_char (a b c : UInt8) :
    decodeThree (char (a.toNat / 4)) (char (a.toNat % 4 * 16 + b.toNat / 16))
      (char (b.toNat % 16 * 4 + c.toNat / 64)) (char (c.toNat % 64)) = some [a, b, c] := by
  have ha := a.toNat_lt
  have hb := b.toNat_lt
  have hc := c.toNat_lt
  unfold decodeThree
  rw [value?_char (by omega), value?_char (by omega), value?_char (by omega),
    value?_char (by omega)]
  dsimp only
  rw [@ofNat_eq _ a (by omega), @ofNat_eq _ b (by omega), @ofNat_eq _ c (by omega)]

/-- **The round trip**, a group at a time. -/
theorem decode_encode (bytes : List UInt8) : decode (encode bytes) = some bytes := by
  induction bytes using encode.induct with
  | case1 => rfl
  | case2 a => exact decodeOne_char a
  | case3 a b =>
    have hpad := char_ne_pad (show b.toNat % 16 * 4 < 64 by omega)
    rw [encode, decode, if_pos rfl, if_neg (by simp), if_neg hpad]
    exact decodeTwo_char a b
  | case4 a b c rest ih =>
    have hpad := char_ne_pad (show c.toNat % 64 < 64 by omega)
    rw [encode, decode, if_neg hpad, decodeThree_char, ih]
    rfl

theorem inAlphabet_encode (bytes : List UInt8) : ∀ c ∈ encode bytes, InAlphabet c := by
  induction bytes using encode.induct with
  | case1 => exact fun c hc => absurd hc List.not_mem_nil
  | case2 a =>
    have ha := a.toNat_lt
    have hfirst := inAlphabet_char (show a.toNat / 4 < 64 by omega)
    have hsecond := inAlphabet_char (show a.toNat % 4 * 16 < 64 by omega)
    simpa [encode] using ⟨hfirst, hsecond, Or.inl rfl⟩
  | case3 a b =>
    have ha := a.toNat_lt
    have hb := b.toNat_lt
    have hfirst := inAlphabet_char (show a.toNat / 4 < 64 by omega)
    have hsecond := inAlphabet_char (show a.toNat % 4 * 16 + b.toNat / 16 < 64 by omega)
    have hthird := inAlphabet_char (show b.toNat % 16 * 4 < 64 by omega)
    simpa [encode] using ⟨hfirst, hsecond, hthird, Or.inl rfl⟩
  | case4 a b c rest ih =>
    have ha := a.toNat_lt
    have hb := b.toNat_lt
    have hc := c.toNat_lt
    have hfirst := inAlphabet_char (show a.toNat / 4 < 64 by omega)
    have hsecond := inAlphabet_char (show a.toNat % 4 * 16 + b.toNat / 16 < 64 by omega)
    have hthird := inAlphabet_char (show b.toNat % 16 * 4 + c.toNat / 64 < 64 by omega)
    have hfourth := inAlphabet_char (show c.toNat % 64 < 64 by omega)
    simpa [encode] using ⟨hfirst, hsecond, hthird, hfourth, ih⟩

/-! ## Lines -/

/-- A line without the carriage return before its end. -/
def stripReturn (line : List Char) : List Char :=
  if line.getLast? = some '\r' then line.dropLast else line

/-- The lines of a text, of which the first has begun. -/
def linesFrom : List Char → List Char → List (List Char)
  | current, [] => if current = [] then [] else [current]
  | current, c :: rest =>
      if c = '\n' then stripReturn current :: linesFrom [] rest
      else linesFrom (current ++ [c]) rest

/-- The lines of a text, without their ends. -/
def lines (text : List Char) : List (List Char) := linesFrom [] text

/-- A line that is read back as it is written. -/
def IsLine (line : List Char) : Prop := ∀ c ∈ line, c ≠ '\n' ∧ c ≠ '\r'

theorem stripReturn_eq {line : List Char} (h : IsLine line) : stripReturn line = line := by
  unfold stripReturn
  rw [if_neg]
  intro hlast
  exact (h '\r' (List.mem_of_getLast? hlast)).2 rfl

theorem linesFrom_line {line : List Char} (h : IsLine line) (current rest : List Char) :
    linesFrom current (line ++ '\n' :: rest) = stripReturn (current ++ line) :: linesFrom [] rest := by
  induction line generalizing current with
  | nil =>
    rw [List.nil_append, linesFrom, if_pos rfl, List.append_nil]
  | cons c line ih =>
    rw [List.cons_append, linesFrom, if_neg (h c List.mem_cons_self).1,
      ih fun d hd => h d (List.mem_cons_of_mem c hd)]
    rw [List.append_assoc, List.singleton_append]

/-- Lines with their ends are read back. -/
theorem lines_flatMap {all : List (List Char)} (h : ∀ line ∈ all, IsLine line) :
    lines (all.flatMap fun line => line ++ ['\n']) = all := by
  induction all with
  | nil => rfl
  | cons line all ih =>
    have hline := h line List.mem_cons_self
    have hrest := ih fun other hmem => h other (List.mem_cons_of_mem line hmem)
    unfold lines at hrest ⊢
    rw [List.flatMap_cons, List.append_assoc, List.singleton_append, linesFrom_line hline,
      List.nil_append, stripReturn_eq hline, hrest]

/-! ## PEM -/

/-- Header and footer lines start so. -/
def dashes : List Char := ['-', '-', '-', '-', '-']

def header (label : List Char) : List Char := dashes ++ ['B', 'E', 'G', 'I', 'N', ' '] ++ label ++ dashes

def footer (label : List Char) : List Char := dashes ++ ['E', 'N', 'D', ' '] ++ label ++ dashes

/-- A text with these lines between header and footer. -/
def armor (label : List Char) (chunks : List (List Char)) : List Char :=
  (header label :: chunks ++ [footer label]).flatMap fun line => line ++ ['\n']

/-- The text has the bytes in base64, on lines of any length and under some
label. -/
def Armors (text : List Char) (bytes : List UInt8) : Prop :=
  ∃ label chunks, IsLine label ∧ chunks.flatten = encode bytes ∧ text = armor label chunks

/-- The lines that do not start with dashes, one after the other. -/
def body (text : List Char) : List Char :=
  ((lines text).filter fun line => !dashes.isPrefixOf line).flatten

theorem InAlphabet.ne {c d : Char} (h : InAlphabet c) (hd : d ≠ '=') (hvalue : value? d = none) :
    c ≠ d := by
  rintro rfl
  obtain hpad | ⟨value, hsome⟩ := h
  · exact hd hpad
  · rw [hvalue] at hsome
    cases hsome

theorem isLine_of_alphabet {line : List Char} (h : ∀ c ∈ line, InAlphabet c) : IsLine line :=
  fun c hc => ⟨(h c hc).ne (by decide) (by decide), (h c hc).ne (by decide) (by decide)⟩

theorem isLine_append {xs ys : List Char} (hxs : IsLine xs) (hys : IsLine ys) :
    IsLine (xs ++ ys) := by
  intro c hc
  obtain hc | hc := List.mem_append.mp hc
  · exact hxs c hc
  · exact hys c hc

theorem isLine_dashes : IsLine dashes := by simp [IsLine, dashes]

theorem isLine_header {label : List Char} (h : IsLine label) : IsLine (header label) := by
  have hbegin : IsLine ['B', 'E', 'G', 'I', 'N', ' '] := by simp [IsLine]
  exact isLine_append (isLine_append (isLine_append isLine_dashes hbegin) h) isLine_dashes

theorem isLine_footer {label : List Char} (h : IsLine label) : IsLine (footer label) := by
  have hend : IsLine ['E', 'N', 'D', ' '] := by simp [IsLine]
  exact isLine_append (isLine_append (isLine_append isLine_dashes hend) h) isLine_dashes

/-- Base64 has no dashes. -/
theorem not_dashes_of_alphabet {line : List Char} (h : ∀ c ∈ line, InAlphabet c) :
    dashes.isPrefixOf line = false := by
  cases line with
  | nil => rfl
  | cons c line =>
    have hne : c ≠ '-' := (h c List.mem_cons_self).ne (by decide) (by decide)
    simp [dashes, List.isPrefixOf, Ne.symm hne]

/-- **Reading a PEM text**: without the lines that start with dashes it is the
base64 text. -/
theorem Armors.body_eq {text : List Char} {bytes : List UInt8} (h : Armors text bytes) :
    body text = encode bytes := by
  obtain ⟨label, chunks, hlabel, hchunks, rfl⟩ := h
  have halphabet : ∀ chunk ∈ chunks, ∀ c ∈ chunk, InAlphabet c := by
    intro chunk hmem c hc
    refine inAlphabet_encode bytes c ?_
    rw [← hchunks]
    exact List.mem_flatten_of_mem hmem hc
  have hlines : ∀ line ∈ header label :: chunks ++ [footer label], IsLine line := by
    intro line hmem
    simp only [List.cons_append, List.mem_cons, List.mem_append, List.not_mem_nil, or_false]
      at hmem
    obtain rfl | hmem | rfl := hmem
    · exact isLine_header hlabel
    · exact isLine_of_alphabet (halphabet line hmem)
    · exact isLine_footer hlabel
  have hkept : chunks.filter (fun line => !dashes.isPrefixOf line) = chunks := by
    refine List.filter_eq_self.mpr fun chunk hmem => ?_
    rw [not_dashes_of_alphabet (halphabet chunk hmem)]
    rfl
  have hheader : dashes.isPrefixOf (header label) = true := by
    simp [header, dashes, List.isPrefixOf]
  have hfooter : dashes.isPrefixOf (footer label) = true := by
    simp [footer, dashes, List.isPrefixOf]
  unfold body armor
  rw [lines_flatMap hlines, List.cons_append, List.filter_cons, hheader, List.filter_append,
    hkept, List.filter_cons, hfooter]
  simpa using hchunks

end KademliaAuction.Lib.Pem
