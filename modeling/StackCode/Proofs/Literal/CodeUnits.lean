import StackCode.Proofs.Literal
import StackCode.Proofs.Text.Utf16

/-!
# Literals written in code units

Any sequence of code units can be written as a literal, one escape `\uHHHH` after another. The
scanner reads one or two escapes at a time and never takes back what it has read, yet what it makes
of them is the lossy decoding of the whole sequence: behind a high surrogate it looks ahead for
exactly the escape that would make a pair.

What lossy decoding means is defined elsewhere and on sequences of units alone, where no escape and
no scanner occurs: pairs of surrogates are characters, and whatever else is a surrogate is replaced.
The statement compares the two for every sequence, so it covers surrogates in the wrong order, two
high ones in a row and a high one at the end.

The case of the digits is arbitrary and may change from digit to digit. Other escapes, and
characters that stand for themselves, are the matter of the grammar of literals.
-/

set_option autoImplicit false

namespace StackCode.Literal

open Text (Digits Utf16Unit hexDigit? hex? hex?_four_iff IsHighSurrogate IsLowSurrogate Utf16.single
  Utf16.decodeLossy Utf16.encode Utf16.decodeLossy_encode)

/-! ## Writing

Which digits are capitals is a function of their position, so that the statement is about all ways
of writing them. -/

/-- The digit of a value below sixteen, as a capital letter or a small one. -/
def hexDigitChar (capital : Bool) (d : Nat) : Char :=
  if capital then (Nat.digitChar d).toUpper else Nat.digitChar d

/-- The four digits of a code unit, the most significant one first. -/
def unitDigits (capital : Fin 4 → Bool) (unit : UInt16) : List Char :=
  [hexDigitChar (capital 0) (unit.toNat / 0x1000),
    hexDigitChar (capital 1) (unit.toNat / 0x100 % 0x10),
      hexDigitChar (capital 2) (unit.toNat / 0x10 % 0x10),
        hexDigitChar (capital 3) (unit.toNat % 0x10)]

/-- The escapes of code units in order. Digit `j` of unit `i` is a capital if `capital i j` is
set. -/
def unitEscapes (capital : Nat → Fin 4 → Bool) : List UInt16 → List Char
  | [] => []
  | unit :: units =>
    '\\' :: 'u' :: unitDigits (capital 0) unit ++ unitEscapes (fun i => capital (i + 1)) units

/-- The literal that holds the escapes of code units and nothing else. -/
def ofUnits (quote : Char) (capital : Nat → Fin 4 → Bool) (units : List UInt16) : String :=
  String.ofList (quote :: (unitEscapes capital units ++ [quote]))

/-! ## Digits of a unit -/

theorem hexDigit?_hexDigitChar :
    ∀ d < 16, ∀ capital, hexDigit? (hexDigitChar capital d) = some d := by
  decide

/-- The digits of a unit are a numeral for it, in whatever case. -/
theorem utf16Unit_unitDigits (capital : Fin 4 → Bool) (unit : UInt16) :
    Utf16Unit (unitDigits capital unit) unit.toNat := by
  have hlt : unit.toNat < 0x10000 := unit.toNat_lt
  have hdigit (capital : Bool) {d : Nat} (hd : d < 16) := hexDigit?_hexDigitChar d hd capital
  have hvalue :
      (((0 * 16 + unit.toNat / 0x1000) * 16 + unit.toNat / 0x100 % 0x10) * 16 + unit.toNat / 0x10
        % 0x10) * 16 +
      unit.toNat % 0x10 = unit.toNat := by
    omega
  refine ⟨rfl,
    .cons (hdigit _ ?_) (.cons (hdigit _ ?_) (.cons (hdigit _ ?_) (.cons (hdigit _ ?_) ?_)))⟩
  · omega
  · exact Nat.mod_lt _ (by decide)
  · exact Nat.mod_lt _ (by decide)
  · exact Nat.mod_lt _ (by decide)
  · rw [hvalue]
    exact .nil _

/-- Four digits in front of a text are a numeral for one unit only. -/
theorem unit_eq_of_append_eq {text text' rest rest' : List Char} {unit unit' : Nat}
    (h : Utf16Unit text unit) (h' : Utf16Unit text' unit') (heq : text ++ rest = text' ++ rest') :
    unit = unit' := by
  have hread : hex? 0 4 (text ++ rest) = some (unit, rest) := hex?_four_iff.mpr ⟨text, rfl, h⟩
  have hread' : hex? 0 4 (text' ++ rest') = some (unit', rest') :=
    hex?_four_iff.mpr ⟨text', rfl, h'⟩
  rw [heq, hread'] at hread
  exact (Prod.mk.inj (Option.some.inj hread)).1.symm

/-- The scanner finds the partner that it looks for only if the next unit is a low surrogate. -/
theorem startsLow_escape_iff {digits rest : List Char} {unit : Nat} (h : Utf16Unit digits unit) :
    StartsLow ('\\' :: 'u' :: digits ++ rest) ↔ IsLowSurrogate unit := by
  constructor
  · rintro ⟨text, rest', low, heq, htext, hlow⟩
    obtain ⟨-, heq⟩ := List.cons.inj heq
    obtain ⟨-, heq⟩ := List.cons.inj heq
    rwa [unit_eq_of_append_eq h htext heq]
  · intro hlow
    exact ⟨digits, rest, unit, rfl, h, hlow⟩

/-! ## Reading

By induction on the units, two at a time where they make a pair. -/

/-- A unit that stands alone denotes what its lossy decoding is. -/
theorem unicode_single {digits rest : List Char} {unit : UInt16} (h : Utf16Unit digits unit.toNat)
    (hrest : IsHighSurrogate unit.toNat → ¬ StartsLow rest) :
    Unicode digits (Utf16.single unit) rest := by
  unfold Utf16.single
  by_cases hhigh : IsHighSurrogate unit.toNat
  · rw [if_pos (.inl hhigh)]
    exact .loneHigh h hhigh (hrest hhigh)
  · by_cases hlow : IsLowSurrogate unit.toNat
    · rw [if_pos (.inr hlow)]
      exact .loneLow h hlow
    · rw [if_neg (not_or.mpr ⟨hhigh, hlow⟩)]
      exact .unit h hhigh hlow

theorem not_startsLow_quote {quote : Char} (hquote : quote ≠ '\\') : ¬ StartsLow [quote] := by
  rintro ⟨text, rest, low, heq, -⟩
  exact hquote (List.cons.inj heq).1

/-- The items of the literal are those of the lossy decoding: one for each pair, and one for each
unit that has no partner. -/
theorem items_unitEscapes {quote : Char} (hquote : quote ≠ '\\') (capital : Nat → Fin 4 → Bool)
    (units : List UInt16) :
    Items quote (unitEscapes capital units ++ [quote]) (Utf16.decodeLossy units) := by
  fun_induction Utf16.decodeLossy units generalizing capital with
  | case1 => exact .close
  | case2 unit =>
    have hdigits := utf16Unit_unitDigits (capital 0) unit
    have hunicode := unicode_single hdigits fun _ => not_startsLow_quote hquote
    exact .escape (.unicode hunicode) .close
  | case3 first second units hpair ih =>
    have hfirst := utf16Unit_unitDigits (capital 0) first
    have hsecond := utf16Unit_unitDigits (capital 1) second
    have hrest := ih fun i => capital (i + 2)
    have hitems := Items.escape (.unicode (.pair hfirst hpair.1 hsecond hpair.2)) hrest
    simpa [unitEscapes] using hitems
  | case4 first second units hpair ih =>
    have hfirst := utf16Unit_unitDigits (capital 0) first
    have hsecond := utf16Unit_unitDigits (capital 1) second
    have hrest := ih fun i => capital (i + 1)
    -- The partner that the scanner looks for would have to be the next unit.
    have halone : IsHighSurrogate first.toNat →
        ¬ StartsLow (unitEscapes (fun i => capital (i + 1)) (second :: units) ++ [quote]) := by
      intro hhigh hlow
      rw [unitEscapes, List.append_assoc, startsLow_escape_iff hsecond] at hlow
      exact hpair ⟨hhigh, hlow⟩
    have hitems := Items.escape (.unicode (unicode_single hfirst halone)) hrest
    rw [unitEscapes, List.append_assoc]
    exact hitems

/-- The literal is decoded, whatever the units are. -/
theorem decode_ofUnits {quote : Char} (hquote : quote = '\'' ∨ quote = '"')
    (capital : Nat → Fin 4 → Bool) (units : List UInt16) :
    decode (ofUnits quote capital units) = .ok (String.ofList (Utf16.decodeLossy units)) := by
  have hslash : quote ≠ '\\' := by
    rcases hquote with rfl | rfl <;> decide
  have hitems := items_unitEscapes hslash capital units
  have hdenotes : Denotes (ofUnits quote capital units) (String.ofList (Utf16.decodeLossy units)) :=
    ⟨quote, _, _, hquote, String.toList_ofList, hitems, rfl⟩
  unfold decode
  rw [value?_eq_some_iff.mpr hdenotes]

/-- **Escapes of code units are decoded as lossy UTF-16.** Whatever the units and the case of their
digits, the literal is well formed and denotes the lossy decoding of the units. So every text is
denoted by the escapes of its encoding. -/
theorem decode_unicode_escapes {quote : Char} (hquote : quote = '\'' ∨ quote = '"')
    (capital : Nat → Fin 4 → Bool) :
    (∀ units, decode (ofUnits quote capital units) =
      .ok (String.ofList (Utf16.decodeLossy units))) ∧
      ∀ text : String, decode (ofUnits quote capital (Utf16.encode text.toList)) = .ok text := by
  refine ⟨decode_ofUnits hquote capital, fun text => ?_⟩
  rw [decode_ofUnits hquote, Utf16.decodeLossy_encode, String.ofList_toList]

/-- Two high surrogates, of which the second has a partner, and a low one that has none. The digits
of every other unit are capitals. -/
theorem decode_unicode_escapes_highHighLowLow :
    decode "'\\uD83D\\ud83d\\uDE00\\ude00'" = .ok "\uFFFD😀\uFFFD" ∧
      decode "'\\uD83D\\ude00'" = .ok "😀" := by
  have h := decode_unicode_escapes (.inl rfl) fun i _ => i % 2 = 0
  have hunits : ofUnits '\'' (fun i _ => i % 2 = 0) [0xD83D, 0xD83D, 0xDE00, 0xDE00] =
      "'\\uD83D\\ud83d\\uDE00\\ude00'" := by decide +kernel
  have htext :
      ofUnits '\'' (fun i _ => i % 2 = 0) (Utf16.encode "😀".toList) = "'\\uD83D\\ude00'" := by
    decide +kernel
  exact ⟨hunits ▸ h.1 _, htext ▸ h.2 "😀"⟩

end StackCode.Literal
