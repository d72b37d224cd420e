import StackCode.Json.Skip
import StackCode.Proofs.Json.Spelling

/-!
# Scanners read what is written

Each scanner, at the front of a text that writes what it scans for, reads all of it and leaves the
rest. A number ends where the rest does not go on with it, so the rest must be `Delimited`: it is
empty, or what comes first ends a value.

The statements are of one form, with the text in front of an arbitrary rest. So they can be used one
after the other on the parts of a text, and what is behind never has to be known.

There is one statement in the other direction. Strings are the one place where the grammar of JSON
allows what the reader refuses, so it is said exactly which strings are read (`string_isOk_iff`).
For numbers it is not: which numerals are in range is decided by the conversion to a double, and a
spelling of a number is by definition one that is.

A scanner that skips is not the scanner that reads with the result thrown away. It checks less:
escapes are not paired, and numbers are not converted.
-/

set_option autoImplicit false

namespace StackCode.Json

open Text (hex? hex?_four_iff Utf16Unit IsHighSurrogate IsLowSurrogate combineSurrogates)

/-- What comes first, if anything, ends a value. -/
def Delimited (rest : List Char) : Prop :=
  ∀ c ∈ rest.head?, c ∈ [' ', '\t', '\n', '\r', ',', ']', '\x7d']

theorem Delimited.cons {c : Char} {rest : List Char}
    (hc : c ∈ [' ', '\t', '\n', '\r', ',', ']', '\x7d']) :
    Delimited (c :: rest) := by
  intro c' hc'
  obtain rfl := Option.some.inj hc'
  exact hc

theorem Blanks.delimited {ws rest : List Char} (h : Blanks ws) (hrest : Delimited rest) :
    Delimited (ws ++ rest) := by
  cases ws with
  | nil => exact hrest
  | cons c ws =>
    refine Delimited.cons ?_
    have hc := h c List.mem_cons_self
    simp only [List.mem_cons, List.not_mem_nil, or_false] at hc ⊢
    rcases hc with hc | hc | hc | hc <;> simp [hc]

namespace Scan

/-! ## Blanks and words

Blanks are the four characters that JSON allows between its parts. -/

theorem skipBlanks_append {ws : List Char} (h : Blanks ws) (cs : List Char) :
    skipBlanks (ws ++ cs) = skipBlanks cs := by
  refine List.dropWhile_append_of_pos fun c hc => ?_
  have := h c hc
  simp only [List.mem_cons, List.not_mem_nil, or_false] at this
  rcases this with rfl | rfl | rfl | rfl <;> rfl

theorem skipBlanks_cons {c : Char} (h : isBlank c = false) (cs : List Char) :
    skipBlanks (c :: cs) = c :: cs := by
  simp [skipBlanks, h]

theorem skipBlanks_eq_nil {ws : List Char} (h : Blanks ws) : skipBlanks ws = [] := by
  have := skipBlanks_append h []
  rwa [List.append_nil] at this

/-- Blanks are skipped up to the first character that is none. -/
theorem skipBlanks_append_cons {ws : List Char} (h : Blanks ws) {c : Char}
    (hc : isBlank c = false) (cs : List Char) :
    skipBlanks (ws ++ c :: cs) = c :: cs := by
  rw [skipBlanks_append h, skipBlanks_cons hc]

theorem word_append (w rest : List Char) : word w (w ++ rest) = .ok rest := by
  induction w with
  | nil => rfl
  | cons c w ih => simp [word, ih]

/-! ## Digits -/

/-- No digit, point or power of ten comes first. -/
theorem delimited_head {rest : List Char} (h : Delimited rest) {c : Char} {cs : List Char}
    (heq : rest = c :: cs) :
    c.isDigit = false ∧ c ≠ '.' ∧ c ≠ 'e' ∧ c ≠ 'E' := by
  have hc := h c (by rw [heq]; rfl)
  simp only [List.mem_cons, List.not_mem_nil, or_false] at hc
  rcases hc with rfl | rfl | rfl | rfl | rfl | rfl | rfl <;> decide

/-- All digits are read, up to the first character that is none. -/
theorem digits_append {text rest : List Char} {ds : List Nat} (h : Decimals text ds)
    (hrest : ∀ c ∈ rest.head?, c.isDigit = false) : digits (text ++ rest) = (ds, rest) := by
  obtain ⟨-, hdigit, rfl⟩ := h
  have hnone : rest.takeWhile Char.isDigit = [] ∧ rest.dropWhile Char.isDigit = rest := by
    cases rest with
    | nil => exact ⟨rfl, rfl⟩
    | cons c rest => simp [hrest c rfl]
  unfold digits
  rw [List.takeWhile_append_of_pos hdigit, List.dropWhile_append_of_pos hdigit, hnone.1, hnone.2,
    List.append_nil]

theorem decimals_ne_nil {text : List Char} {ds : List Nat} (h : Decimals text ds) : ds ≠ [] := by
  obtain ⟨hsome, -, rfl⟩ := h
  simpa using hsome

/-- Digits in front of the point are all of the digits there are, and there is no zero too many. -/
theorem digits_of_whole {text rest : List Char} {ds : List Nat} (h : Whole text ds)
    (hrest : ∀ c ∈ rest.head?, c.isDigit = false) :
    Scan.digits (text ++ rest) = (ds, rest) ∧ ds ≠ [] ∧ ∀ d ds', ds ≠ 0 :: d :: ds' := by
  refine ⟨digits_append h.1 hrest, decimals_ne_nil h.1, ?_⟩
  intro d ds' heq
  obtain ⟨⟨-, hdigit, rfl⟩, hzero⟩ := h
  cases text with
  | nil => cases heq
  | cons c text =>
    obtain ⟨hc, htext⟩ := List.cons.inj heq
    have hle : 48 ≤ c.toNat := by
      have := hdigit c List.mem_cons_self
      simp only [Char.isDigit, Bool.and_eq_true, decide_eq_true_eq] at this
      exact this.1
    obtain rfl : c = '0' := Char.toNat_inj.mp (Nat.le_antisymm (Nat.sub_eq_zero_iff_le.mp hc) hle)
    rw [hzero text rfl] at htext
    cases htext

/-! ## Numbers

A numeral has up to three parts. Each is read as far as its digits go, and what follows it begins
with no digit: that is known of a fraction and of a power from how they begin, and of the rest from
its being delimited. -/

theorem notDigit_of_delimited {rest : List Char} (h : Delimited rest) :
    ∀ c ∈ rest.head?, c.isDigit = false := by
  intro c hc
  obtain ⟨cs, rfl⟩ := List.head?_eq_some_iff.mp hc
  exact (delimited_head h rfl).1

theorem notDigit_of_power {text rest : List Char} {p : Int} (h : Power text p)
    (hrest : Delimited rest) :
    ∀ c ∈ (text ++ rest).head?, c.isDigit = false := by
  cases h with
  | none => exact notDigit_of_delimited hrest
  | positive he _ _ =>
    intro c hc
    obtain rfl := Option.some.inj hc
    rcases he with rfl | rfl <;> rfl
  | negative he _ =>
    intro c hc
    obtain rfl := Option.some.inj hc
    rcases he with rfl | rfl <;> rfl

theorem notDigit_of_fraction {text text' rest : List Char} {ds : List Nat} {p : Int}
    (h : Fraction text ds) (hpower : Power text' p) (hrest : Delimited rest) :
    ∀ c ∈ (text ++ (text' ++ rest)).head?, c.isDigit = false := by
  cases h with
  | none =>
    rw [List.nil_append]
    exact notDigit_of_power hpower hrest
  | some _ =>
    intro c hc
    obtain rfl := Option.some.inj hc
    rfl

/-- A sign is taken off, and a digit is none. -/
theorem sign_of_decimals {text rest : List Char} {ds : List Nat} (h : Decimals text ds) :
    sign (text ++ rest) = (false, text ++ rest) := by
  obtain ⟨hsome, hdigit, -⟩ := h
  cases text with
  | nil => exact absurd rfl hsome
  | cons c text =>
    have hc := hdigit c List.mem_cons_self
    unfold sign
    split
    · rename_i heq
      obtain rfl := (List.cons.inj heq).1
      cases hc
    · rename_i heq
      obtain rfl := (List.cons.inj heq).1
      cases hc
    · rfl

/-- The digits of a power of ten, with the sign in front taken into account. -/
theorem power_of_decimals {cs text rest : List Char} {negative : Bool} {ds : List Nat}
    (h : Decimals text ds) (hsign : sign cs = (negative, text ++ rest)) (hrest : Delimited rest) :
    power cs = .ok (if negative then -(ofDigits ds : Int) else ofDigits ds, rest) := by
  have hdigits := digits_append h (notDigit_of_delimited hrest)
  have hsome := decimals_ne_nil h
  unfold power
  rw [hsign]
  dsimp only
  rw [hdigits]
  cases ds with
  | nil => exact absurd rfl hsome
  | cons d ds => rfl

theorem skipDigits_of_decimals {text rest : List Char} {ds : List Nat} (h : Decimals text ds)
    (hrest : ∀ c ∈ rest.head?, c.isDigit = false) : skipDigits (text ++ rest) = .ok rest := by
  have hsome := decimals_ne_nil h
  unfold skipDigits
  rw [digits_append h hrest]
  cases ds with
  | nil => exact absurd rfl hsome
  | cons d ds => rfl

/-- The power of ten is read, or there is none. -/
theorem scaled_of_power {negative : Bool} {whole fraction : List Nat} {text rest : List Char}
    {p : Int} {x : Number} (h : Power text p) (hrest : Delimited rest)
    (hx : realNumber negative whole fraction p = .ok x) :
    scaled negative whole fraction (text ++ rest) = .ok (x, rest) := by
  cases h with
  | none =>
    -- No power: what follows is delimited, so it does not begin with the letter of one.
    rw [List.nil_append]
    unfold scaled
    split
    · rename_i heq
      exact absurd rfl (delimited_head hrest rfl).2.2.1
    · rename_i heq
      exact absurd rfl (delimited_head hrest rfl).2.2.2
    · rw [hx]
      rfl
  | @positive e sign text digits he hsign h =>
    have hread : Scan.sign (sign ++ (text ++ rest)) = (false, text ++ rest) := by
      rcases hsign with rfl | rfl
      · rw [List.nil_append]
        exact sign_of_decimals h
      · rfl
    have hpower := power_of_decimals h hread hrest
    -- Both letters are treated alike, by two cases of the scanner.
    rcases he with rfl | rfl
    · simp only [List.cons_append, List.append_assoc, scaled, hpower]
      simp [bind, Except.bind, hx]
    · simp only [List.cons_append, List.append_assoc, scaled, hpower]
      simp [bind, Except.bind, hx]
  | @negative e text digits he h =>
    have hread : Scan.sign ('-' :: (text ++ rest)) = (true, text ++ rest) := rfl
    have hpower := power_of_decimals h hread hrest
    rcases he with rfl | rfl
    · simp only [List.cons_append, scaled, hpower]
      simp [bind, Except.bind, hx]
    · simp only [List.cons_append, scaled, hpower]
      simp [bind, Except.bind, hx]

theorem skipPower_of_power {text rest : List Char} {p : Int} (h : Power text p)
    (hrest : Delimited rest) :
    skipPower (text ++ rest) = .ok rest := by
  cases h with
  | none =>
    rw [List.nil_append]
    unfold skipPower
    split
    · exact absurd rfl (delimited_head hrest rfl).2.2.1
    · exact absurd rfl (delimited_head hrest rfl).2.2.2
    · rfl
  | @positive e sign text digits he hsign h =>
    have hread : Scan.sign (sign ++ (text ++ rest)) = (false, text ++ rest) := by
      rcases hsign with rfl | rfl
      · rw [List.nil_append]
        exact sign_of_decimals h
      · rfl
    have hskip := skipDigits_of_decimals h (notDigit_of_delimited hrest)
    rcases he with rfl | rfl <;> simp only [List.cons_append, List.append_assoc,
      skipPower, hread, hskip]
  | @negative e text digits he h =>
    have hread : Scan.sign ('-' :: (text ++ rest)) = (true, text ++ rest) := rfl
    have hskip := skipDigits_of_decimals h (notDigit_of_delimited hrest)
    rcases he with rfl | rfl <;> simp only [List.cons_append, skipPower, hread, hskip]

theorem number_of_whole {negative : Bool} {text rest : List Char} {ds : List Nat}
    (h : Whole text ds) (hrest : ∀ c ∈ rest.head?, c.isDigit = false) :
    number negative (text ++ rest) = behindWhole negative ds rest := by
  obtain ⟨hdigits, hsome, hzero⟩ := digits_of_whole h hrest
  unfold number
  rw [hdigits]
  split
  · rename_i heq
    exact absurd (Prod.mk.inj heq).1 hsome
  · rename_i heq
    exact absurd (Prod.mk.inj heq).1 hsome
  · rename_i heq
    exact absurd (Prod.mk.inj heq).1 (hzero _ _)
  · rename_i heq
    cases heq
    rfl

theorem behindWhole_of_delimited {negative : Bool} {ds : List Nat} {rest : List Char} {x : Number}
    (hrest : Delimited rest) (hx : wholeNumber negative ds = .ok x) :
    behindWhole negative ds rest = .ok (x, rest) := by
  unfold behindWhole
  split
  · exact absurd rfl (delimited_head hrest rfl).2.1
  · exact absurd rfl (delimited_head hrest rfl).2.2.1
  · exact absurd rfl (delimited_head hrest rfl).2.2.2
  · rw [hx]
    rfl

/-- **A numeral is read as its number.** -/
theorem number_of_numeral {negative : Bool} {x : Number} {text rest : List Char}
    (h : Numeral negative x text) (hrest : Delimited rest) :
    number negative (text ++ rest) = .ok (x, rest) := by
  cases h with
  | whole h hx =>
    rw [number_of_whole h (notDigit_of_delimited hrest)]
    exact behindWhole_of_delimited hrest hx
  | @real text fraction power digits digits' p _ h hfraction hpower hsome hx =>
    have hscaled := scaled_of_power hpower hrest hx
    rw [List.append_assoc, List.append_assoc,
      number_of_whole h (notDigit_of_fraction hfraction hpower hrest)]
    cases hfraction with
    | none =>
      cases hpower with
      | none => simp at hsome
      | positive he _ _ => rcases he with rfl | rfl <;> exact hscaled
      | negative he _ => rcases he with rfl | rfl <;> exact hscaled
    | some hfraction =>
      have hne := decimals_ne_nil hfraction
      simp only [List.cons_append, behindWhole]
      rw [digits_append hfraction (notDigit_of_power hpower hrest)]
      cases digits' with
      | nil => exact absurd rfl hne
      | cons d ds => exact hscaled

/-- A number that is skipped need not be in range. -/
theorem skipNumber_of_parts {text fraction power rest : List Char} {ds ds' : List Nat} {p : Int}
    (h : Whole text ds) (hfraction : Fraction fraction ds') (hpower : Power power p)
    (hrest : Delimited rest) :
    skipNumber (text ++ (fraction ++ (power ++ rest))) = .ok rest := by
  obtain ⟨hdigits, hsome, hzero⟩ := digits_of_whole h (notDigit_of_fraction hfraction hpower hrest)
  have hskip := skipPower_of_power hpower hrest
  unfold skipNumber
  rw [hdigits]
  split
  · rename_i heq
    exact absurd (Prod.mk.inj heq).1 hsome
  · rename_i heq
    exact absurd (Prod.mk.inj heq).1 (hzero _ _)
  · rename_i heq
    cases hfraction with
    | none =>
      -- A power of ten and what ends a value do not start with a point.
      have hpoint : power ++ rest = '.' :: _ := (Prod.mk.inj heq).2
      cases hpower with
      | none => exact absurd rfl (delimited_head hrest hpoint).2.1
      | positive he _ _ => rcases he with rfl | rfl <;> cases hpoint
      | negative he _ => rcases he with rfl | rfl <;> cases hpoint
    | @some text _ hfraction =>
      obtain rfl : text ++ (power ++ rest) = _ := (List.cons.inj (Prod.mk.inj heq).2).2
      rw [skipDigits_of_decimals hfraction (notDigit_of_power hpower hrest)]
      exact hskip
  · rename_i hpoint heq
    cases hfraction with
    | none =>
      cases heq
      exact hskip
    | some hfraction =>
      cases heq
      exact absurd rfl (hpoint _)

theorem skipNumber_of_numeral {negative : Bool} {x : Number} {text rest : List Char}
    (h : Numeral negative x text) (hrest : Delimited rest) :
    skipNumber (text ++ rest) = .ok rest := by
  cases h with
  | whole h hx => exact skipNumber_of_parts h .none .none hrest
  | real h hfraction hpower hsome hx =>
    rw [List.append_assoc, List.append_assoc]
    exact skipNumber_of_parts h hfraction hpower hrest

/-! ### Integers

Integers are read digit by digit as long as they fit 64 bits, and as doubles from there on. Numbers
of a tree are written as integers, and those that have a slot or a line fit easily. -/

/-- As long as the value fits 64 bits, all digits are taken. -/
theorem absorb_of_lt {ds : List Nat} {significand taken : Nat}
    (h : ds.foldl (fun n d => n * 10 + d) significand < 0x10000000000000000) :
    absorb significand taken ds = (ds.foldl (fun n d => n * 10 + d) significand,
      taken + ds.length, 0) := by
  induction ds generalizing significand taken with
  | nil => rfl
  | cons d ds ih =>
    have hle : ∀ (ds : List Nat) (n : Nat), n ≤ ds.foldl (fun n d => n * 10 + d) n := by
      intro ds
      induction ds with
      | nil => exact Nat.le_refl
      | cons d ds ih =>
        intro n
        exact Nat.le_trans (by omega) (ih (n * 10 + d))
    rw [List.foldl_cons] at h
    rw [absorb, if_pos (Nat.lt_of_le_of_lt (hle ds _) h), ih h]
    rw [List.foldl_cons, List.length_cons, Nat.add_assoc, Nat.add_comm 1]

/-- Only zero is written with a zero in front. -/
theorem eq_zero_of_toDigits {n : Nat} {rest : List Char} (h : Nat.toDigits 10 n = '0' :: rest) :
    n = 0 := by
  induction n using Nat.strongRecOn generalizing rest with
  | ind n ih =>
    by_cases hlt : n < 10
    · rw [Nat.toDigits_of_lt_base hlt] at h
      exact Nat.digitChar_eq_zero.mp (List.cons.inj h).1
    · rw [Nat.toDigits_of_base_le (by decide) (Nat.not_lt.mp hlt)] at h
      cases hdigits : Nat.toDigits 10 (n / 10) with
      | nil => exact absurd hdigits Nat.toDigits_ne_nil
      | cons c cs =>
        rw [hdigits] at h
        obtain rfl := (List.cons.inj h).1
        have := ih (n / 10) (by omega) hdigits
        omega

/-- The decimal digits of a number are as the grammar wants them: no zero is in front of others. -/
theorem whole_toDigits (n : Nat) :
    Whole (Nat.toDigits 10 n) ((Nat.toDigits 10 n).map fun c => c.toNat - 48) := by
  refine ⟨⟨Nat.toDigits_ne_nil,
    fun c hc => Nat.isDigit_of_mem_toDigits (by decide) (by decide) hc, rfl⟩, ?_⟩
  intro rest h
  obtain rfl := eq_zero_of_toDigits h
  exact (List.cons.inj h).2.symm

theorem foldl_toDigits (n : Nat) :
    ((Nat.toDigits 10 n).map fun c => c.toNat - 48).foldl (fun n d => n * 10 + d) 0 = n := by
  have h : Nat.ofDigitChars 10 (Nat.toDigits 10 n) 0 = n :=
    Nat.ofDigitChars_toDigits (by decide) (by decide)
  rw [Nat.ofDigitChars_eq_foldl] at h
  rw [List.foldl_map]
  simp only [Nat.mul_comm 10] at h
  exact h

/-- An integer is a numeral behind its sign. -/
theorem numeral_toDigits {n : Int} (hlow : -0x8000000000000000 ≤ n)
    (hhigh : n < 0x10000000000000000) :
    Numeral (decide (n < 0)) (.integer n) (Nat.toDigits 10 n.natAbs) := by
  refine .whole (whole_toDigits n.natAbs) ?_
  have hfold := foldl_toDigits n.natAbs
  have hlt : n.natAbs < 0x10000000000000000 := by omega
  unfold wholeNumber
  rw [absorb_of_lt (hfold.symm ▸ hlt), hfold]
  by_cases hneg : n < 0
  · have hsmall : ¬ (n.natAbs = 0 ∨ 0x8000000000000000 < n.natAbs) := by omega
    have hvalue : -(n.natAbs : Int) = n := by omega
    simp only [decide_eq_true hneg, Bool.not_true, Bool.false_eq_true, if_false,
      if_neg hsmall, hvalue]
  · have hvalue : (n.natAbs : Int) = n := by omega
    simp [hneg, hvalue]

/-- A number is a numeral, with a minus in front or without. -/
theorem numeral_of_spelling {x : Number} {text : List Char} (h : NumberSpelling x text) :
    Numeral false x text ∨ ∃ numeral, text = '-' :: numeral ∧ Numeral true x numeral := by
  cases h with
  | @integer n hlow hhigh =>
    have hnumeral := numeral_toDigits hlow hhigh
    unfold decimal
    by_cases hneg : n < 0
    · rw [if_pos hneg]
      rw [decide_eq_true hneg] at hnumeral
      exact .inr ⟨_, rfl, hnumeral⟩
    · rw [if_neg hneg]
      rw [decide_eq_false hneg] at hnumeral
      exact .inl hnumeral
  | positive h => exact .inl h
  | negative h => exact .inr ⟨_, rfl, h⟩

/-! ## Strings

Behind the opening quote, character by character. An escape of a high surrogate has to be followed
by one of a low surrogate, and the two together are one character. -/

theorem hasBytes_of_le {n : Nat} {cs : List Char} (h : n ≤ cs.length) : hasBytes n cs = true := by
  induction cs generalizing n with
  | nil =>
    obtain rfl := Nat.le_zero.mp h
    rfl
  | cons c cs ih =>
    cases n with
    | zero => rfl
    | succ n =>
      have hc := c.utf8Size_pos
      rw [List.length_cons] at h
      exact ih (by omega)

theorem hexEscape_append {digits rest : List Char} {unit : Nat} (h : Utf16Unit digits unit) :
    hexEscape (digits ++ rest) = .ok (unit, rest) := by
  have hbytes : hasBytes 4 (digits ++ rest) = true := by
    apply hasBytes_of_le
    rw [List.length_append, h.1]
    exact Nat.le_add_right _ _
  have hread : hex? 0 4 (digits ++ rest) = some (unit, rest) := hex?_four_iff.mpr ⟨digits, rfl, h⟩
  unfold hexEscape
  rw [if_pos hbytes, hread]

theorem shortEscape?_of_mem {letter c : Char} (h : (letter, c) ∈ shortEscapes) :
    shortEscape? letter = some c := by
  simp only [shortEscapes, List.mem_cons, Prod.mk.injEq, List.not_mem_nil, or_false] at h
  rcases h with ⟨rfl, rfl⟩ | ⟨rfl, rfl⟩ | ⟨rfl, rfl⟩ | ⟨rfl, rfl⟩ | ⟨rfl, rfl⟩ |
    ⟨rfl, rfl⟩ | ⟨rfl, rfl⟩ | ⟨rfl, rfl⟩ <;>
    rfl

theorem escape_short {letter c : Char} (h : (letter, c) ∈ shortEscapes) (rest : List Char) :
    escape (letter :: rest) = .ok (c, rest) := by
  simp only [escape, shortEscape?_of_mem h]

/-- A code unit that is no surrogate is a character. -/
theorem escape_unit {digits rest : List Char} {unit : Nat} (h : Utf16Unit digits unit)
    (hhigh : ¬ IsHighSurrogate unit) (hlow : ¬ IsLowSurrogate unit) :
    escape ('u' :: (digits ++ rest)) = .ok (Char.ofNat unit, rest) := by
  have hshort : shortEscape? 'u' = none := by decide
  simp only [escape, hshort, if_pos, hexEscape_append h, bind, Except.bind,
    if_neg hhigh, if_neg hlow]

/-- Two surrogates are one character. -/
theorem escape_pair {digits digits' rest : List Char} {high low : Nat} (h : Utf16Unit digits high)
    (hhigh : IsHighSurrogate high) (h' : Utf16Unit digits' low) (hlow : IsLowSurrogate low) :
    escape ('u' :: (digits ++ '\\' :: 'u' :: (digits' ++ rest))) =
      .ok (Char.ofNat (combineSurrogates high low), rest) := by
  have hshort : shortEscape? 'u' = none := by decide
  have hnot : ¬ IsLowSurrogate high := fun hlow => Nat.not_lt.mpr hlow.1 hhigh.2
  have hpartner : lowEscape ('\\' :: 'u' :: (digits' ++ rest)) = .ok (low, rest) := by
    simp only [lowEscape, hexEscape_append h', bind, Except.bind, if_pos hlow]
  simp only [escape, hshort, if_pos, hexEscape_append h, bind, Except.bind, if_neg hnot,
    if_pos hhigh, hpartner]

theorem string_backslash {acc cs rest : List Char} {c : Char} (h : escape cs = .ok (c, rest)) :
    string acc ('\\' :: cs) = string (c :: acc) rest := by
  rw [string, if_neg (by decide), if_pos rfl]
  split
  · rename_i heq
    rw [h] at heq
    cases heq
    rfl
  · rename_i heq
    rw [h] at heq
    cases heq

theorem string_plain {acc cs : List Char} {c : Char} (h : c ≠ '"' ∧ c ≠ '\\' ∧ 32 ≤ c.toNat) :
    string acc (c :: cs) = string (c :: acc) cs := by
  rw [string, if_neg h.1, if_neg h.2.1, if_neg (Nat.not_lt.mpr h.2.2)]

/-- What writes characters is read as these characters, whatever follows. -/
theorem string_append_of_chars {chars text : List Char} (h : CharsSpelling chars text)
    (acc cs : List Char) : string acc (text ++ cs) = string (chars.reverse ++ acc) cs := by
  induction h generalizing acc with
  | nil => rfl
  | plain hc _ ih =>
    rw [List.cons_append, string_plain hc, ih, List.reverse_cons, List.append_assoc]
    rfl
  | short hc _ ih =>
    rw [List.cons_append, List.cons_append, string_backslash (escape_short hc _), ih,
      List.reverse_cons, List.append_assoc]
    rfl
  | unit hunit hhigh hlow _ ih =>
    simp only [List.cons_append, List.append_assoc]
    rw [string_backslash (escape_unit hunit hhigh hlow), ih, List.reverse_cons, List.append_assoc]
    rfl
  | pair hunit hhigh hunit' hlow _ ih =>
    simp only [List.cons_append, List.append_assoc]
    rw [string_backslash (escape_pair hunit hhigh hunit' hlow), ih, List.reverse_cons,
      List.append_assoc]
    rfl

/-- **What writes characters is read as these characters**, up to the closing quote. -/
theorem string_of_chars {chars text : List Char} (h : CharsSpelling chars text)
    (acc rest : List Char) :
    string acc (text ++ '"' :: rest) = .ok (String.ofList (acc.reverse ++ chars), rest) := by
  rw [string_append_of_chars h, string, if_pos rfl, List.reverse_append, List.reverse_reverse]

theorem string_backslash_error {acc cs : List Char} {fault : Fault} (h : escape cs = .error fault) :
    string acc ('\\' :: cs) = .error fault := by
  rw [string, if_neg (by decide), if_pos rfl]
  split
  · rename_i heq
    rw [h] at heq
    cases heq
  · rename_i heq
    rw [h] at heq
    cases heq
    rfl

/-- The faults of a surrogate without its partner: what follows is another escape, or no escape. -/
def IsSurrogateFault (fault : Fault) : Prop :=
  fault = .malformed .loneSurrogate ∨ fault = .malformed .hexEscapeCutOff

/-- No partner is found in a text of the grammar that does not begin with one. -/
theorem lowEscape_of_stringText {text : List Char} (h : StringText text)
    (hpartner : ∀ digits low rest, text = '\\' :: 'u' :: digits ++ rest → Utf16Unit digits low →
      ¬ IsLowSurrogate low) (rest : List Char) :
    ∃ fault, lowEscape (text ++ '"' :: rest) = .error fault ∧ IsSurrogateFault fault := by
  cases h with
  | nil => exact ⟨_, by simp [lowEscape, malformed], .inr rfl⟩
  | plain hc _ =>
    refine ⟨.malformed .hexEscapeCutOff, ?_, .inr rfl⟩
    simp [lowEscape, hc.2.1, malformed]
  | @short letter c text hc h =>
    have hletter : letter ≠ 'u' := by
      rintro rfl
      simp [shortEscapes] at hc
    refine ⟨.malformed .hexEscapeCutOff, ?_, .inr rfl⟩
    simp [lowEscape, hletter, malformed]
  | @unit digits text unit hunit h =>
    have hlow := hpartner digits unit text rfl hunit
    refine ⟨.malformed .loneSurrogate, ?_, .inl rfl⟩
    rw [List.append_assoc]
    simp only [List.cons_append, lowEscape, hexEscape_append hunit, bind, Except.bind,
      if_neg hlow, malformed]

/-- A surrogate without its partner is refused. -/
theorem string_of_unpaired {text : List Char} (h : Unpaired text) (htext : StringText text)
    (acc rest : List Char) :
    ∃ fault, string acc (text ++ '"' :: rest) = .error fault ∧ IsSurrogateFault fault := by
  obtain ⟨digits, unit, more, rfl, hunit, hkind⟩ := h
  have hshort : shortEscape? 'u' = none := by decide
  rw [List.append_assoc, List.cons_append, List.cons_append]
  rcases hkind with hlow | ⟨hhigh, hpartner⟩
  · refine ⟨.malformed .loneSurrogate, string_backslash_error ?_, .inl rfl⟩
    simp only [escape, hshort, if_pos, hexEscape_append hunit, bind, Except.bind,
      if_pos hlow, malformed]
  · have hnot : ¬ IsLowSurrogate unit := fun hlow => Nat.not_lt.mpr hlow.1 hhigh.2
    obtain ⟨fault, hfault, hkind⟩ := lowEscape_of_stringText (htext.of_unit hunit) hpartner rest
    refine ⟨fault, string_backslash_error ?_, hkind⟩
    simp only [escape, hshort, if_pos, hexEscape_append hunit, bind, Except.bind, if_neg hnot,
      if_pos hhigh, hfault]

/-- **The reader reads a string of the grammar exactly if it writes characters.** -/
theorem string_isOk_iff {text : List Char} (h : StringText text) (rest : List Char) :
    (∃ s, string [] (text ++ '"' :: rest) = .ok (s, rest)) ↔ ∃ chars, CharsSpelling chars text := by
  constructor
  · rintro ⟨s, hs⟩
    rcases stringText_iff.mp h with hspelled | ⟨chars, before, more, hbefore, rfl,
      hunpaired, hmore⟩
    · exact hspelled
    · rw [List.append_assoc, string_append_of_chars hbefore] at hs
      obtain ⟨fault, hfault, -⟩ := string_of_unpaired hunpaired hmore (chars.reverse ++ []) rest
      rw [hs] at hfault
      cases hfault
  · rintro ⟨chars, hchars⟩
    exact ⟨_, string_of_chars hchars [] rest⟩

/-- A string behind its opening quote. -/
theorem string_of_quoted {s : String} {text : List Char} (h : Quoted s text) :
    ∃ body, text = '"' :: body ∧ ∀ rest, string [] (body ++ rest) = .ok (s, rest) := by
  obtain ⟨body, rfl, hbody⟩ := h
  refine ⟨body ++ ['"'], rfl, fun rest => ?_⟩
  rw [List.append_assoc, List.singleton_append, string_of_chars hbody, List.reverse_nil,
    List.nil_append, String.ofList_toList]

theorem skipString_backslash {cs rest : List Char} (h : skipEscape cs = .ok rest) :
    skipString ('\\' :: cs) = skipString rest := by
  rw [skipString, if_neg (by decide), if_pos rfl]
  split
  · rename_i heq
    rw [h] at heq
    cases heq
    rfl
  · rename_i heq
    rw [h] at heq
    cases heq

theorem skipEscape_unit {digits rest : List Char} {unit : Nat} (h : Utf16Unit digits unit) :
    skipEscape ('u' :: (digits ++ rest)) = .ok rest := by
  have hshort : (shortEscape? 'u').isSome = false := by decide
  simp only [skipEscape, hshort, Bool.false_eq_true, if_false, if_pos, hexEscape_append h,
    bind, Except.bind]

theorem skipString_of_chars {chars text : List Char} (h : CharsSpelling chars text)
    (rest : List Char) :
    skipString (text ++ '"' :: rest) = .ok rest := by
  induction h with
  | nil => simp [skipString]
  | plain hc _ ih =>
    rw [List.cons_append, skipString, if_neg hc.1, if_neg hc.2.1,
      if_neg (Nat.not_lt.mpr hc.2.2), ih]
  | @short letter c chars text hc _ ih =>
    have hskip : skipEscape (letter :: (text ++ '"' :: rest)) = .ok (text ++ '"' :: rest) := by
      simp only [skipEscape, shortEscape?_of_mem hc, Option.isSome_some, if_pos]
    rw [List.cons_append, List.cons_append, skipString_backslash hskip, ih]
  | unit hunit _ _ _ ih =>
    simp only [List.cons_append, List.append_assoc]
    rw [skipString_backslash (skipEscape_unit hunit), ih]
  | pair hunit _ hunit' _ _ ih =>
    simp only [List.cons_append, List.append_assoc]
    rw [skipString_backslash (skipEscape_unit hunit),
      skipString_backslash (skipEscape_unit hunit'), ih]

theorem skipString_of_quoted {s : String} {text : List Char} (h : Quoted s text) :
    ∃ body, text = '"' :: body ∧ ∀ rest, skipString (body ++ rest) = .ok rest := by
  obtain ⟨body, rfl, hbody⟩ := h
  refine ⟨body ++ ['"'], rfl, fun rest => ?_⟩
  rw [List.append_assoc, List.singleton_append, skipString_of_chars hbody]

/-! ## Scalars

Which kind of scalar it is can be told from its first character. -/

/-- A numeral starts with a digit. -/
theorem numeral_head {negative : Bool} {x : Number} {text : List Char}
    (h : Numeral negative x text) :
    ∃ c cs, text = c :: cs ∧ c.isDigit = true := by
  have hwhole : ∀ {text : List Char} {ds : List Nat}, Whole text ds → ∃ c cs, text = c :: cs ∧
      c.isDigit = true := by
    rintro text ds ⟨⟨hsome, hdigit, -⟩, -⟩
    cases text with
    | nil => exact absurd rfl hsome
    | cons c cs => exact ⟨c, cs, rfl, hdigit c List.mem_cons_self⟩
  cases h with
  | whole h _ => exact hwhole h
  | real h _ _ _ _ =>
    obtain ⟨c, cs, rfl, hc⟩ := hwhole h
    exact ⟨c, _, rfl, hc⟩

theorem scalar_of_digit {c : Char} {cs : List Char} (h : c.isDigit = true) :
    scalar (c :: cs) = (do
      let (x, cs) ← number false (c :: cs)
      .ok (.number x, cs)) := by
  unfold scalar
  split
  case h_7 heq =>
    cases heq
    rw [if_pos h]
  all_goals
    rename_i heq
    cases heq <;> cases h

theorem skipScalar_of_digit {c : Char} {cs : List Char} (h : c.isDigit = true) :
    skipScalar (c :: cs) = skipNumber (c :: cs) := by
  unfold skipScalar
  split
  case h_7 heq =>
    cases heq
    rw [if_pos h]
  all_goals
    rename_i heq
    cases heq <;> cases h

/-- **A scalar is read as it is written.** -/
theorem scalar_of_spelling {j : Json} {text rest : List Char} (h : Spelling j text)
    (hj : j.depth = 0) (hrest : Delimited rest) : scalar (text ++ rest) = .ok (j, rest) := by
  cases h with
  | null => simp [scalar, word, bind, Except.bind]
  | true => simp [scalar, word, bind, Except.bind]
  | false => simp [scalar, word, bind, Except.bind]
  | number h =>
    rcases numeral_of_spelling h with hnumeral | ⟨text, rfl, hnumeral⟩
    · have hread := number_of_numeral hnumeral hrest
      obtain ⟨c, cs, rfl, hc⟩ := numeral_head hnumeral
      rw [List.cons_append] at hread ⊢
      rw [scalar_of_digit hc, hread]
      rfl
    · simp only [List.cons_append, scalar, number_of_numeral hnumeral hrest, bind, Except.bind]
  | string h =>
    obtain ⟨body, rfl, hread⟩ := string_of_quoted h
    simp only [List.cons_append, scalar, hread, bind, Except.bind]
  | array h => simp [depth] at hj
  | object h => simp [depth] at hj

theorem skipScalar_of_spelling {j : Json} {text rest : List Char} (h : Spelling j text)
    (hj : j.depth = 0) (hrest : Delimited rest) : skipScalar (text ++ rest) = .ok rest := by
  cases h with
  | null => exact word_append ['u', 'l', 'l'] rest
  | true => exact word_append ['r', 'u', 'e'] rest
  | false => exact word_append ['a', 'l', 's', 'e'] rest
  | number h =>
    rcases numeral_of_spelling h with hnumeral | ⟨text, rfl, hnumeral⟩
    · have hskip := skipNumber_of_numeral hnumeral hrest
      obtain ⟨c, cs, rfl, hc⟩ := numeral_head hnumeral
      rw [List.cons_append] at hskip ⊢
      rw [skipScalar_of_digit hc, hskip]
    · simp only [List.cons_append, skipScalar, skipNumber_of_numeral hnumeral hrest]
  | string h =>
    obtain ⟨body, rfl, hskip⟩ := skipString_of_quoted h
    simp only [List.cons_append, skipScalar, hskip]
  | array h => simp [depth] at hj
  | object h => simp [depth] at hj

/-- How the text of a value starts. -/
theorem spelling_head {j : Json} {text : List Char} (h : Spelling j text) :
    ∃ c cs, text = c :: cs ∧ isBlank c = false ∧ c ≠ ']' ∧
      (j.depth = 0 → c ≠ '[' ∧ c ≠ '\x7b') := by
  have hdigit : ∀ {c : Char}, c.isDigit = true → isBlank c = false ∧ c ≠ ']' ∧
      (j.depth = 0 → c ≠ '[' ∧ c ≠ '\x7b') := by
    intro c hc
    refine ⟨?_, ?_, fun _ => ⟨?_, ?_⟩⟩
    · unfold isBlank
      simp only [Bool.or_eq_false_iff, decide_eq_false_iff_not]
      refine ⟨⟨⟨?_, ?_⟩, ?_⟩, ?_⟩ <;> rintro rfl <;> cases hc
    all_goals
      rintro rfl
      cases hc
  cases h with
  | null => exact ⟨_, _, rfl, by decide⟩
  | true => exact ⟨_, _, rfl, by decide⟩
  | false => exact ⟨_, _, rfl, by decide⟩
  | number h =>
    rcases numeral_of_spelling h with hnumeral | ⟨text, rfl, -⟩
    · obtain ⟨c, cs, rfl, hc⟩ := numeral_head hnumeral
      exact ⟨c, cs, rfl, hdigit hc⟩
    · exact ⟨'-', text, rfl, by decide, by decide, fun _ => by decide⟩
  | string h =>
    obtain ⟨body, rfl, -⟩ := h
    exact ⟨'"', _, rfl, by decide, by decide, fun _ => by decide⟩
  | array h => exact ⟨'[', _, rfl, by decide, by decide, fun hj => by simp [depth] at hj⟩
  | object h => exact ⟨'\x7b', _, rfl, by decide, by decide, fun hj => by simp [depth] at hj⟩

/-! ## Between items and entries

In front of the first item there is no comma, and in front of every other one there is. -/

theorem nextItem_close (first : Bool) {ws : List Char} (h : Blanks ws) (rest : List Char) :
    nextItem first (ws ++ ']' :: rest) = .ok none := by
  simp only [nextItem, skipBlanks_append_cons h (show isBlank ']' = false from rfl), if_pos]

theorem endArray_close {ws : List Char} (h : Blanks ws) (rest : List Char) :
    endArray (ws ++ ']' :: rest) = .ok rest := by
  simp only [endArray, skipBlanks_append_cons h (show isBlank ']' = false from rfl), if_pos]

theorem nextItem_item {first : Bool} {separator text : List Char} {j : Json}
    (hseparator : Separator first separator) (h : Spelling j text) (rest : List Char) :
    nextItem first (separator ++ (text ++ rest)) = .ok (some (text ++ rest)) := by
  obtain ⟨c, cs, rfl, hblank, hclose, -⟩ := spelling_head h
  cases hseparator with
  | blanks hws =>
    rw [List.cons_append, nextItem, skipBlanks_append_cons hws hblank]
    simp [hclose]
  | comma hws hws' =>
    rw [List.append_assoc, List.cons_append, List.cons_append, nextItem,
      skipBlanks_append_cons hws (show isBlank ',' = false from rfl)]
    dsimp only
    rw [skipBlanks_append_cons hws' hblank]
    simp [hclose]

theorem nextKey_close (first : Bool) {ws : List Char} (h : Blanks ws) (rest : List Char) :
    nextKey first (ws ++ '\x7d' :: rest) = .ok (none, rest) := by
  simp only [nextKey, skipBlanks_append_cons h (show isBlank '\x7d' = false from rfl), if_pos]

theorem nextKey_entry {first : Bool} {separator name : List Char} {key : String}
    (hseparator : Separator first separator) (h : Quoted key name) (rest : List Char) :
    nextKey first (separator ++ (name ++ rest)) = .ok (some key, rest) := by
  obtain ⟨body, rfl, hread⟩ := string_of_quoted h
  have hkey : nextKey.key ('"' :: (body ++ rest)) = .ok (some key, rest) := by
    simp only [nextKey.key, hread, bind, Except.bind]
  cases hseparator with
  | blanks hws =>
    rw [List.cons_append, nextKey, skipBlanks_append_cons hws (show isBlank '"' = false from rfl)]
    simp [hkey]
  | comma hws hws' =>
    rw [List.append_assoc, List.cons_append, List.cons_append, nextKey,
      skipBlanks_append_cons hws (show isBlank ',' = false from rfl)]
    dsimp only
    rw [skipBlanks_append_cons hws' (show isBlank '"' = false from rfl)]
    simp [hkey]

theorem colon_append {ws : List Char} (h : Blanks ws) (rest : List Char) :
    colon (ws ++ ':' :: rest) = .ok rest := by
  simp only [colon, skipBlanks_append_cons h (show isBlank ':' = false from rfl)]

end Scan

/-- What follows an item ends it. -/
theorem ItemsSpelling.delimited {items : List Json} {text : List Char}
    (h : ItemsSpelling false items text) (rest : List Char) : Delimited (text ++ rest) := by
  cases h with
  | close hws =>
    rw [List.append_assoc]
    exact hws.delimited (.cons (by decide))
  | item hseparator _ _ =>
    cases hseparator with
    | comma hws hws' =>
      rw [List.append_assoc, List.append_assoc]
      exact hws.delimited (.cons (by decide))

/-- What follows an entry ends it. -/
theorem EntriesSpelling.delimited {entries : List (String × Json)} {text : List Char}
    (h : EntriesSpelling false entries text) (rest : List Char) : Delimited (text ++ rest) := by
  cases h with
  | close hws =>
    rw [List.append_assoc]
    exact hws.delimited (.cons (by decide))
  | entry hseparator _ _ _ _ _ =>
    cases hseparator with
    | comma hws hws' =>
      rw [List.append_assoc, List.append_assoc]
      exact hws.delimited (.cons (by decide))

end StackCode.Json
