import StackCode.Proofs.Text.Digits

/-!
# UTF-16

A sequence of 16-bit code units as text. A high surrogate in front of a low one is a pair and stands
for one character; every other unit stands alone. A surrogate that stands alone is no character, and
the replacement character takes its place.

Text that is encoded comes back as it was: no surrogate of an encoded text stands alone.

This is the second side for statements about escapes: what a sequence of code units means,
independently of how it was written. Only one direction of the round trip holds. A sequence with a
lone surrogate is not recovered from its text, since every lone surrogate becomes the same
character.
-/

set_option autoImplicit false

namespace StackCode.Text.Utf16

/-! ## Decoding and encoding

Decoding looks at one unit or at two. It never fails, and it gives a character for each unit that it
does not take as half of a pair. -/

/-- What a unit without a partner stands for. -/
def single (unit : UInt16) : Char :=
  if IsHighSurrogate unit.toNat ∨ IsLowSurrogate unit.toNat then '\uFFFD' else Char.ofNat unit.toNat

/-- The text of code units. Units that are no text are replaced one by one. -/
def decodeLossy : List UInt16 → List Char
  | [] => []
  | [unit] => [single unit]
  | first :: second :: units =>
    if IsHighSurrogate first.toNat ∧ IsLowSurrogate second.toNat then
      Char.ofNat (combineSurrogates first.toNat second.toNat) :: decodeLossy units
    else single first :: decodeLossy (second :: units)

/-- The code units of a character: its code point, or two surrogates with ten bits each of what is
beyond 16 bits. -/
def ofChar (c : Char) : List UInt16 :=
  if c.toNat < 0x10000 then [UInt16.ofNat c.toNat]
  else
    [UInt16.ofNat (0xD800 + (c.toNat - 0x10000) / 0x400),
      UInt16.ofNat (0xDC00 + (c.toNat - 0x10000) % 0x400)]

/-- The code units of a text. -/
def encode (cs : List Char) : List UInt16 :=
  cs.flatMap ofChar

/-! ## Decoding what was encoded -/

/-- A unit that is no high surrogate stands alone. -/
theorem decodeLossy_cons_of_not_high {unit : UInt16} (h : ¬ IsHighSurrogate unit.toNat)
    (units : List UInt16) :
    decodeLossy (unit :: units) = single unit :: decodeLossy units := by
  cases units with
  | nil => rfl
  | cons second units => rw [decodeLossy, if_neg fun hpair => h hpair.1]

/-- A code point is not in the range of the surrogates. -/
theorem codePoint_range (c : Char) : c.toNat < 0xD800 ∨ 0xDFFF < c.toNat ∧ c.toNat < 0x110000 :=
  c.valid

/-- One character, in front of any other units. -/
theorem decodeLossy_ofChar_append (c : Char) (units : List UInt16) :
    decodeLossy (ofChar c ++ units) = c :: decodeLossy units := by
  have hrange := codePoint_range c
  unfold ofChar
  by_cases hc : c.toNat < 0x10000
  · have hunit : (UInt16.ofNat c.toNat).toNat = c.toNat := UInt16.toNat_ofNat_of_lt' hc
    have hhigh : ¬ IsHighSurrogate (UInt16.ofNat c.toNat).toNat := by
      unfold IsHighSurrogate
      omega
    have hlow : ¬ IsLowSurrogate (UInt16.ofNat c.toNat).toNat := by
      unfold IsLowSurrogate
      omega
    rw [if_pos hc, List.singleton_append, decodeLossy_cons_of_not_high hhigh, single,
      if_neg (not_or.mpr ⟨hhigh, hlow⟩), hunit, Char.ofNat_toNat]
  · -- The twenty bits beyond the first plane, in two halves.
    have hfirst : (c.toNat - 0x10000) / 0x400 < 0x400 := Nat.div_lt_of_lt_mul (by omega)
    have hsecond : (c.toNat - 0x10000) % 0x400 < 0x400 := Nat.mod_lt _ (by decide)
    have hhighUnit : (UInt16.ofNat (0xD800 + (c.toNat - 0x10000) / 0x400)).toNat =
        0xD800 + (c.toNat - 0x10000) / 0x400 :=
      UInt16.toNat_ofNat_of_lt' (Nat.lt_of_lt_of_le (Nat.add_lt_add_left hfirst _) (by decide))
    have hlowUnit : (UInt16.ofNat (0xDC00 + (c.toNat - 0x10000) % 0x400)).toNat =
        0xDC00 + (c.toNat - 0x10000) % 0x400 :=
      UInt16.toNat_ofNat_of_lt' (Nat.lt_of_lt_of_le (Nat.add_lt_add_left hsecond _) (by decide))
    have hcombined : combineSurrogates (0xD800 + (c.toNat - 0x10000) / 0x400)
        (0xDC00 + (c.toNat - 0x10000) % 0x400) = c.toNat := by
      unfold combineSurrogates
      omega
    rw [if_neg hc, List.cons_append, List.singleton_append, decodeLossy, hhighUnit, hlowUnit,
      if_pos, hcombined, Char.ofNat_toNat]
    unfold IsHighSurrogate IsLowSurrogate
    omega

/-- **Text comes back from its code units.** -/
theorem decodeLossy_encode (cs : List Char) : decodeLossy (encode cs) = cs := by
  induction cs with
  | nil => rfl
  | cons c cs ih =>
    show decodeLossy (ofChar c ++ encode cs) = c :: cs
    rw [decodeLossy_ofChar_append, ih]

/-- A high surrogate without a partner, a pair, and a low surrogate without a partner. -/
example : decodeLossy [0xD83D, 0xD83D, 0xDE00, 0xDE00] = ['\uFFFD', '😀', '\uFFFD'] := by
  decide

end StackCode.Text.Utf16
