import StackCode.Literal
import StackCode.Proofs.Text.Digits

/-!
# The grammar of string literals

`Denotes raw text` says that `raw` is a string literal and `text` what it stands for. It is put
together from the items of the literal: characters that stand for themselves, and escapes. Which
characters belong to an escape may depend on those behind it: a longest run of octal digits, a line
break of two characters, a pair of surrogates. So `Escape` is about the text of an escape, what it
denotes, and all that follows.

The scanner accepts exactly this grammar.

## Reading the grammar

The grammar is stated without the scanner and in terms of texts: what is between the quotes, and
what it denotes. Where the scanner has to choose, a side condition says what it chooses. An octal
escape takes as many digits as it can, so what follows a short one must not begin with another
digit; the escape of a high surrogate pairs with that of a low one if it can, so a single one must
not be followed by such an escape. A grammar without the conditions would be ambiguous, and a text
would denote several things.

A surrogate without a partner denotes the replacement character. A backslash with a line break
behind it denotes nothing, and with a character that begins no escape it denotes that character.

Not in the grammar is which literals the language itself allows. In some of its modes octal escapes
are forbidden, and the decoder does not know about modes.
-/

set_option autoImplicit false

namespace StackCode.Literal

open Text (Digits HexDigits Utf16Unit hexDigit? hex? hex?_eq_some_iff hex?_four_iff IsHighSurrogate
  IsLowSurrogate combineSurrogates)

/-! ## The grammar

`text` is the text of an item, and `rest` is everything behind it up to the end of the literal. -/

/-- The letters that stand for a control character. -/
def controls : List (Char × Char) :=
  [('n', '\n'), ('r', '\r'), ('t', '\t'), ('b', '\x08'), ('f', '\x0c'), ('v', '\x0b')]

/-- An octal digit comes first. -/
def StartsOctal (cs : List Char) : Prop :=
  ∃ c ∈ cs.head?, (octalDigit? c).isSome

/-- The digits of an octal escape in front of `rest`: three at most if the first one is at most `3`,
otherwise two at most, and as many as there are. -/
def LongestOctal (text rest : List Char) : Prop :=
  ∃ first others, text = first :: others ∧ others.length ≤ (if first ≤ '3' then 2 else 1) ∧
    (others.length = (if first ≤ '3' then 2 else 1) ∨ ¬ StartsOctal rest)

/-- An escape of a low surrogate comes first. -/
def StartsLow (cs : List Char) : Prop :=
  ∃ text rest low, cs = '\\' :: 'u' :: text ++ rest ∧ Utf16Unit text low ∧ IsLowSurrogate low

/-- Behind `\u`, `text` in front of `rest` denotes a character. -/
inductive Unicode : (text : List Char) → (denoted : Char) → (rest : List Char) → Prop
  | codePoint {text rest : List Char} {code : Nat} (hsome : text ≠ []) (h : HexDigits text code)
      (hscalar : code.isValidChar) : Unicode ('\x7b' :: text ++ ['\x7d']) (Char.ofNat code) rest
  | unit {text rest : List Char} {unit : Nat} (h : Utf16Unit text unit)
      (hhigh : ¬ IsHighSurrogate unit) (hlow : ¬ IsLowSurrogate unit) :
      Unicode text (Char.ofNat unit) rest
  | pair {text text' rest : List Char} {high low : Nat} (h : Utf16Unit text high)
      (hhigh : IsHighSurrogate high) (h' : Utf16Unit text' low) (hlow : IsLowSurrogate low) :
      Unicode (text ++ '\\' :: 'u' :: text') (Char.ofNat (combineSurrogates high low)) rest
  | loneHigh {text rest : List Char} {unit : Nat} (h : Utf16Unit text unit)
      (hhigh : IsHighSurrogate unit) (hrest : ¬ StartsLow rest) : Unicode text replacement rest
  | loneLow {text rest : List Char} {unit : Nat} (h : Utf16Unit text unit)
      (hlow : IsLowSurrogate unit) : Unicode text replacement rest

/-- Behind a backslash, `text` in front of `rest` denotes the given characters. -/
inductive Escape : (text denoted rest : List Char) → Prop
  | control {c denoted : Char} {rest : List Char} (h : (c, denoted) ∈ controls) :
      Escape [c] [denoted] rest
  | null {rest : List Char} (h : ¬ StartsOctal rest) : Escape ['0'] ['\x00'] rest
  | octal {text rest : List Char} {code : Nat} (hlongest : LongestOctal text rest)
      (h : Digits octalDigit? 8 0 text code) : Escape text [Char.ofNat code] rest
  | hex {text rest : List Char} {code : Nat} (hlength : text.length = 2) (h : HexDigits text code) :
      Escape ('x' :: text) [Char.ofNat code] rest
  | unicode {text rest : List Char} {denoted : Char} (h : Unicode text denoted rest) :
      Escape ('u' :: text) [denoted] rest
  | lineBreak {c : Char} {rest : List Char} (h : c = '\n' ∨ c = '\u2028' ∨ c = '\u2029') :
      Escape [c] [] rest
  | carriageReturn {rest : List Char} (h : rest.head? ≠ some '\n') : Escape ['\r'] [] rest
  | carriageReturnLineFeed {rest : List Char} : Escape ['\r', '\n'] [] rest
  | other {c : Char} {rest : List Char} (hcontrol : ∀ denoted, (c, denoted) ∉ controls)
      (hoctal : octalDigit? c = none)
      (h : c ∉ ['x', 'u', '\r', '\n', '\u2028', '\u2029']) : Escape [c] [c] rest

/-- The items of a literal and its closing quote, and what the items denote one after the other. -/
inductive Items (quote : Char) : (text denoted : List Char) → Prop
  | close : Items quote [quote] []
  | plain {c : Char} {text denoted : List Char} (hc : c ∉ [quote, '\\', '\n', '\r'])
      (h : Items quote text denoted) : Items quote (c :: text) (c :: denoted)
  | escape {escaped denoted text denoted' : List Char} (hescape : Escape escaped denoted text)
      (h : Items quote text denoted') : Items quote ('\\' :: escaped ++ text) (denoted ++ denoted')

/-- The text is a string literal and stands for `value`. -/
def Denotes (raw value : String) : Prop :=
  ∃ quote text denoted,
    (quote = '\'' ∨ quote = '"') ∧ raw.toList = quote :: text ∧ Items quote text denoted ∧
    value = String.ofList denoted

/-! ## Digits

Runs of octal digits end by their number or by their value, and those in braces by the brace. -/

theorem octalDigit?_eq_some {c : Char} {d : Nat} (h : octalDigit? c = some d) :
    '0' ≤ c ∧ c ≤ '7' ∧ d = c.toNat - 48 := by
  unfold octalDigit? at h
  split at h
  · rename_i hc
    cases h
    exact ⟨hc.1, hc.2, rfl⟩
  · cases h

theorem octalDigit?_le_three_iff {c : Char} {d : Nat} (h : octalDigit? c = some d) :
    d ≤ 3 ↔ c ≤ '3' := by
  obtain ⟨hle, -, rfl⟩ := octalDigit?_eq_some h
  have hle' : 48 ≤ c.toNat := hle
  have hthree : c ≤ '3' ↔ c.toNat ≤ 51 := Iff.rfl
  rw [hthree]
  omega

/-- Whether an octal digit comes first can be decided from the first character. -/
theorem startsOctal_cons {c : Char} {cs : List Char} :
    StartsOctal (c :: cs) ↔ (octalDigit? c).isSome := by
  simp [StartsOctal]

theorem not_startsOctal_nil : ¬ StartsOctal [] := by
  simp [StartsOctal]

/-- As many octal digits are read as there are, up to `count`. -/
theorem octal_eq_iff {acc count n : Nat} {cs rest : List Char} :
    octal acc count cs = (n, rest) ↔
      ∃ text, cs = text ++ rest ∧ text.length ≤ count ∧ (text.length = count ∨ ¬ StartsOctal rest) ∧
        Digits octalDigit? 8 acc text n := by
  induction count generalizing acc cs with
  | zero =>
    constructor
    · intro h
      cases h
      exact ⟨[], rfl, Nat.le_refl _, .inl rfl, .nil _⟩
    · rintro ⟨text, rfl, hlength, -, h⟩
      obtain rfl := List.eq_nil_of_length_eq_zero (Nat.le_zero.mp hlength)
      cases h
      rfl
  | succ count ih =>
    cases cs with
    | nil =>
      constructor
      · intro h
        cases h
        exact ⟨[], rfl, Nat.zero_le _, .inr not_startsOctal_nil, .nil _⟩
      · rintro ⟨text, hnil, -, -, h⟩
        obtain ⟨rfl, rfl⟩ := List.append_eq_nil_iff.mp hnil.symm
        cases h
        rfl
    | cons c cs =>
      cases hc : octalDigit? c with
      | none =>
        simp only [octal, hc]
        constructor
        · intro h
          cases h
          refine ⟨[], rfl, Nat.zero_le _, .inr ?_, .nil _⟩
          simp [startsOctal_cons, hc]
        · rintro ⟨text, heq, -, -, h⟩
          cases h with
          | nil _ => rw [heq, List.nil_append]
          | cons hc' _ =>
            cases heq
            rw [hc] at hc'
            cases hc'
      | some d =>
        simp only [octal, hc]
        constructor
        · intro h
          obtain ⟨text, rfl, hlength, hlongest, htext⟩ := ih.mp h
          refine ⟨c :: text, rfl, Nat.succ_le_succ hlength, ?_, .cons hc htext⟩
          exact hlongest.imp_left (congrArg Nat.succ)
        · rintro ⟨text, heq, hlength, hlongest, h⟩
          cases h with
          | nil _ =>
            -- No digit was taken, though there is one.
            rw [List.nil_append] at heq
            subst heq
            rcases hlongest with hzero | hnot
            · cases hzero
            · exact absurd (by simp [startsOctal_cons, hc]) hnot
          | cons hc' h =>
            cases heq
            rw [hc] at hc'
            cases hc'
            exact ih.mpr ⟨_, rfl, Nat.le_of_succ_le_succ hlength, hlongest.imp_left Nat.succ.inj, h⟩

/-- Hexadecimal digits are read up to the closing brace. -/
theorem hexToBrace?_eq_some_iff {acc n : Nat} {cs rest : List Char} :
    hexToBrace? acc cs = some (n, rest) ↔ ∃ text, cs = text ++ '\x7d' :: rest ∧
    Digits hexDigit? 16 acc text n := by
  -- The brace is no digit, so it cannot belong to the numeral.
  have hbrace : hexDigit? '\x7d' = none := by decide
  induction cs generalizing acc with
  | nil =>
    constructor
    · intro h
      cases h
    · rintro ⟨text, heq, -⟩
      simp at heq
  | cons c cs ih =>
    by_cases hc : c = '\x7d'
    · subst hc
      simp only [hexToBrace?, if_pos]
      constructor
      · intro h
        cases h
        exact ⟨[], rfl, .nil _⟩
      · rintro ⟨text, heq, h⟩
        cases h with
        | nil _ =>
          cases heq
          rfl
        | cons hc _ =>
          cases heq
          rw [hbrace] at hc
          cases hc
    · simp only [hexToBrace?, if_neg hc]
      cases hd : hexDigit? c with
      | none =>
        constructor
        · intro h
          cases h
        · rintro ⟨text, heq, h⟩
          cases h with
          | nil _ => exact absurd (List.cons.inj heq).1 hc
          | cons hc' _ =>
            cases heq
            rw [hd] at hc'
            cases hc'
      | some d =>
        -- A digit in front: both sides go on with the value that it makes.
        refine Iff.trans ih ?_
        constructor
        · rintro ⟨text, rfl, h⟩
          exact ⟨c :: text, rfl, .cons hd h⟩
        · rintro ⟨text, heq, h⟩
          cases h with
          | nil _ => exact absurd (List.cons.inj heq).1 hc
          | cons hc' h =>
            cases heq
            rw [hd] at hc'
            cases hc'
            exact ⟨_, rfl, h⟩

/-! ## Code units

A code unit is four digits. Whether it is a character, half of one or none is a matter of its range
and of what follows. -/

/-- The look-ahead finds the escape of a low surrogate and nothing else. -/
theorem lowSurrogate?_eq_some_iff {low : Nat} {cs rest : List Char} :
    lowSurrogate? cs = some (low, rest) ↔
      ∃ text, cs = '\\' :: 'u' :: text ++ rest ∧ Utf16Unit text low ∧ IsLowSurrogate low := by
  constructor
  · intro h
    unfold lowSurrogate? at h
    split at h
    · split at h
      · rename_i hhex
        split at h
        · rename_i hlow
          cases h
          obtain ⟨text, rfl, htext⟩ := hex?_four_iff.mp hhex
          exact ⟨text, rfl, htext, hlow⟩
        · cases h
      · cases h
    · cases h
  · rintro ⟨text, rfl, htext, hlow⟩
    have hhex : hex? 0 4 (text ++ rest) = some (low, rest) := hex?_four_iff.mpr ⟨text, rfl, htext⟩
    simp only [List.cons_append, lowSurrogate?]
    rw [hhex]
    exact if_pos hlow

theorem lowSurrogate?_eq_none_iff {cs : List Char} : lowSurrogate? cs = none ↔ ¬ StartsLow cs := by
  constructor
  · rintro h ⟨text, rest, low, hcs⟩
    rw [lowSurrogate?_eq_some_iff.mpr ⟨text, hcs⟩] at h
    cases h
  · intro h
    cases hlow : lowSurrogate? cs with
    | none => rfl
    | some p =>
      obtain ⟨low, rest⟩ := p
      obtain ⟨text, hcs⟩ := lowSurrogate?_eq_some_iff.mp hlow
      exact absurd ⟨text, rest, low, hcs⟩ h

theorem isValidChar_of_unit {text : List Char} {unit : Nat} (h : Utf16Unit text unit)
    (hhigh : ¬ IsHighSurrogate unit) (hlow : ¬ IsLowSurrogate unit) : unit.isValidChar := by
  have hlt := h.lt
  unfold Nat.isValidChar
  unfold IsHighSurrogate at hhigh
  unfold IsLowSurrogate at hlow
  omega

theorem scalar?_eq_some_iff {code : Nat} {c : Char} :
    scalar? code = some c ↔ code.isValidChar ∧ c = Char.ofNat code := by
  unfold scalar?
  by_cases h : code.isValidChar
  · simp [h, eq_comm]
  · simp [h]

theorem scalar?_of_low {unit : Nat} (h : IsLowSurrogate unit) : scalar? unit = none := by
  refine if_neg fun hvalid => ?_
  unfold Nat.isValidChar at hvalid
  unfold IsLowSurrogate at h
  omega

/-- A code point in braces. -/
theorem unicode?_brace {text rest : List Char} {code : Nat} (hsome : text ≠ [])
    (h : HexDigits text code) :
    unicode? ('\x7b' :: text ++ '\x7d' :: rest) = (scalar? code).map fun c => (c, rest) := by
  have hread : hexToBrace? 0 (text ++ '\x7d' :: rest) = some (code, rest) :=
    hexToBrace?_eq_some_iff.mpr ⟨text, rfl, h⟩
  cases h with
  | nil _ => exact absurd rfl hsome
  | @cons _ d _ c text hc h =>
    have hbrace : c ≠ '\x7d' := by
      rintro rfl
      cases hc
    unfold unicode?
    split
    · rename_i heq
      exact absurd (List.cons.inj (List.cons.inj heq).2).1 hbrace
    · rename_i cs _ heq
      obtain rfl : c :: text ++ '\x7d' :: rest = cs := (List.cons.inj heq).2
      rw [hread]
      show (scalar? code).bind (fun c => some (c, rest)) = _
      exact (Option.map_eq_bind ..).symm
    · rename_i hne
      exact absurd rfl (hne _)

/-- A code unit, with the partner that it may have. -/
theorem unicode?_unit {text rest : List Char} {unit : Nat} (h : Utf16Unit text unit) :
    unicode? (text ++ rest) =
      if IsHighSurrogate unit then
        match lowSurrogate? rest with
        | some (low, rest) => some (Char.ofNat (combineSurrogates unit low), rest)
        | none => some (replacement, rest)
      else some ((scalar? unit).getD replacement, rest) := by
  have hread : hex? 0 4 (text ++ rest) = some (unit, rest) := hex?_four_iff.mpr ⟨text, rfl, h⟩
  obtain ⟨hlength, hdigits⟩ := h
  cases hdigits with
  | nil _ => cases hlength
  | @cons _ d _ c text hc h =>
    have hbrace : c ≠ '\x7b' := by
      rintro rfl
      cases hc
    unfold unicode?
    split
    · rename_i heq
      exact absurd (List.cons.inj heq).1 hbrace
    · rename_i heq
      exact absurd (List.cons.inj heq).1 hbrace
    · rw [hread]
      rfl

/-- **What is read behind the letter of a Unicode escape**, and how far. -/
theorem unicode?_eq_some_iff {c : Char} {cs rest : List Char} :
    unicode? cs = some (c, rest) ↔ ∃ text, cs = text ++ rest ∧ Unicode text c rest := by
  constructor
  · intro h
    have h₀ := h
    unfold unicode? at h
    split at h
    · cases h
    · -- A code point in braces.
      rename_i cs hsome
      obtain ⟨⟨code, left⟩, hread, h⟩ := Option.bind_eq_some_iff.mp h
      obtain ⟨c', hc', h⟩ := Option.bind_eq_some_iff.mp h
      cases h
      obtain ⟨text, rfl, htext⟩ := hexToBrace?_eq_some_iff.mp hread
      obtain ⟨hvalid, rfl⟩ := scalar?_eq_some_iff.mp hc'
      refine ⟨'\x7b' :: text ++ ['\x7d'], by simp, .codePoint ?_ htext hvalid⟩
      rintro rfl
      exact hsome _ rfl
    · -- Four digits. What they denote is decided by the range of the unit, and for a high surrogate
      -- by what follows.
      obtain ⟨⟨unit, left⟩, hread, -⟩ := Option.bind_eq_some_iff.mp h
      obtain ⟨text, rfl, htext⟩ := hex?_four_iff.mp hread
      rw [unicode?_unit htext] at h₀
      split at h₀
      · rename_i hhigh
        split at h₀
        · rename_i low left' hlow
          obtain ⟨rfl, rfl⟩ := Prod.mk.inj (Option.some.inj h₀)
          obtain ⟨text', rfl, htext', hlow⟩ := lowSurrogate?_eq_some_iff.mp hlow
          exact ⟨text ++ '\\' :: 'u' :: text', by simp, .pair htext hhigh htext' hlow⟩
        · rename_i hlow
          cases h₀
          exact ⟨text, rfl, .loneHigh htext hhigh (lowSurrogate?_eq_none_iff.mp hlow)⟩
      · rename_i hhigh
        by_cases hlow : IsLowSurrogate unit
        · rw [scalar?_of_low hlow] at h₀
          cases h₀
          exact ⟨text, rfl, .loneLow htext hlow⟩
        · rw [scalar?_eq_some_iff.mpr ⟨isValidChar_of_unit htext hhigh hlow, rfl⟩] at h₀
          obtain ⟨rfl, rfl⟩ := Prod.mk.inj (Option.some.inj h₀)
          exact ⟨text, rfl, .unit htext hhigh hlow⟩
  · -- Back again: each constructor tells which way the reader goes.
    rintro ⟨text, rfl, h⟩
    cases h with
    | @codePoint text _ code hsome h hscalar =>
      rw [List.append_assoc, List.singleton_append, unicode?_brace hsome h,
        scalar?_eq_some_iff.mpr ⟨hscalar, rfl⟩]
      rfl
    | unit h hhigh hlow =>
      rw [unicode?_unit h, if_neg hhigh,
        scalar?_eq_some_iff.mpr ⟨isValidChar_of_unit h hhigh hlow, rfl⟩]
      rfl
    | @pair text text' _ high low h hhigh h' hlow =>
      have hread : lowSurrogate? ('\\' :: 'u' :: text' ++ rest) = some (low, rest) :=
        lowSurrogate?_eq_some_iff.mpr ⟨text', rfl, h', hlow⟩
      rw [List.append_assoc, unicode?_unit h, if_pos hhigh, hread]
    | loneHigh h hhigh hrest =>
      rw [unicode?_unit h, if_pos hhigh, lowSurrogate?_eq_none_iff.mpr hrest]
    | loneLow h hlow =>
      have hhigh : ¬ IsHighSurrogate _ := fun hhigh => Nat.not_lt.mpr hlow.1 hhigh.2
      rw [unicode?_unit h, if_neg hhigh, scalar?_of_low hlow]
      rfl

/-! ## Escapes

The kinds of escape are told apart by the first character behind the backslash, and the order in
which the scanner tries them does not matter because no character begins two. -/

/-- The letters for control characters are those in the list. -/
theorem control?_eq_some_iff {c denoted : Char} :
    control? c = some denoted ↔ (c, denoted) ∈ controls := by
  unfold control? controls
  constructor
  · intro h
    repeat' split at h
    all_goals cases h <;> simp_all
  · intro h
    simp only [List.mem_cons, Prod.mk.injEq, List.not_mem_nil, or_false] at h
    rcases h with ⟨rfl, rfl⟩ | ⟨rfl, rfl⟩ | ⟨rfl, rfl⟩ | ⟨rfl, rfl⟩ | ⟨rfl,
      rfl⟩ | ⟨rfl, rfl⟩ <;> rfl

theorem control?_eq_none_iff {c : Char} :
    control? c = none ↔ ∀ denoted, (c, denoted) ∉ controls := by
  simp only [← control?_eq_some_iff, Option.eq_none_iff_forall_ne_some, ne_eq]

theorem control?_of_octalDigit? {c : Char} {d : Nat} (h : octalDigit? c = some d) :
    control? c = none := by
  obtain ⟨-, hle, -⟩ := octalDigit?_eq_some h
  refine control?_eq_none_iff.mpr fun denoted hmem => ?_
  simp only [controls, List.mem_cons, Prod.mk.injEq, List.not_mem_nil, or_false] at hmem
  rcases hmem with ⟨rfl, -⟩ | ⟨rfl, -⟩ | ⟨rfl, -⟩ | ⟨rfl, -⟩ | ⟨rfl, -⟩ | ⟨rfl,
    -⟩ <;> exact absurd hle (by decide)

/-- The digits of an octal escape are read to the end of the longest run. -/
theorem octal_of_longest {text rest : List Char} {code : Nat} (hlongest : LongestOctal text rest)
    (h : Digits octalDigit? 8 0 text code) :
    ∃ first others d, text = first :: others ∧ octalDigit? first = some d ∧
      octal d (if d ≤ 3 then 2 else 1) (others ++ rest) = (code, rest) := by
  obtain ⟨first, others, rfl, hle, hmax⟩ := hlongest
  cases h with
  | @cons _ d _ _ _ hd h =>
    rw [Nat.zero_mul, Nat.zero_add] at h
    simp only [← octalDigit?_le_three_iff hd] at hle hmax
    exact ⟨first, others, d, rfl, hd, octal_eq_iff.mpr ⟨others, rfl, hle, hmax, h⟩⟩

/-- What is read is a longest run. -/
theorem longest_of_octal {first : Char} {d code : Nat} {cs rest : List Char}
    (hd : octalDigit? first = some d) (h : octal d (if d ≤ 3 then 2 else 1) cs = (code, rest)) :
    ∃ others, cs = others ++ rest ∧ LongestOctal (first :: others) rest ∧
      Digits octalDigit? 8 0 (first :: others) code := by
  obtain ⟨others, rfl, hle, hmax, h⟩ := octal_eq_iff.mp h
  simp only [octalDigit?_le_three_iff hd] at hle hmax
  refine ⟨others, rfl, ⟨first, others, rfl, hle, hmax⟩, .cons hd ?_⟩
  rwa [Nat.zero_mul, Nat.zero_add]

theorem escape?_of_control {c denoted : Char} (h : control? c = some denoted) (cs : List Char) :
    escape? (c :: cs) = some ([denoted], cs) := by
  simp only [escape?, h]

theorem escape?_of_octal {c : Char} {d : Nat} (h : octalDigit? c = some d) (cs : List Char) :
    escape? (c :: cs) =
      some ([Char.ofNat (octal d (if d ≤ 3 then 2 else 1) cs).1],
        (octal d (if d ≤ 3 then 2 else 1) cs).2) := by
  simp only [escape?, control?_of_octalDigit? h, h]

/-- What the scanner reads behind a backslash is an escape. -/
theorem exists_escape {denoted rest cs : List Char} (h : escape? cs = some (denoted, rest)) :
    ∃ text, cs = text ++ rest ∧ Escape text denoted rest := by
  cases cs with
  | nil => cases h
  | cons c cs =>
    -- In the order in which the kinds of escape are tried.
    cases hcontrol : control? c with
    | some letter =>
      rw [escape?_of_control hcontrol] at h
      cases h
      exact ⟨[c], rfl, .control (control?_eq_some_iff.mp hcontrol)⟩
    | none =>
      cases hoctal : octalDigit? c with
      | some d =>
        rw [escape?_of_octal hoctal] at h
        rcases hread : octal d (if d ≤ 3 then 2 else 1) cs with ⟨code, left⟩
        rw [hread] at h
        obtain ⟨rfl, rfl⟩ := Prod.mk.inj (Option.some.inj h)
        obtain ⟨others, rfl, hlongest, hdigits⟩ := longest_of_octal hoctal hread
        exact ⟨c :: others, rfl, .octal hlongest hdigits⟩
      | none =>
        simp only [escape?, hcontrol, hoctal] at h
        split at h
        · rename_i hx
          subst hx
          obtain ⟨⟨code, left⟩, hread, h⟩ := Option.map_eq_some_iff.mp h
          cases h
          obtain ⟨text, rfl, hlength, htext⟩ := hex?_eq_some_iff.mp hread
          exact ⟨'x' :: text, rfl, .hex hlength htext⟩
        · rename_i hx
          split at h
          · rename_i hu
            subst hu
            obtain ⟨⟨c', left⟩, hread, h⟩ := Option.map_eq_some_iff.mp h
            cases h
            obtain ⟨text, rfl, htext⟩ := unicode?_eq_some_iff.mp hread
            exact ⟨'u' :: text, rfl, .unicode htext⟩
          · rename_i hu
            split at h
            · rename_i hr
              subst hr
              split at h
              · cases h
                exact ⟨['\r', '\n'], rfl, .carriageReturnLineFeed⟩
              · rename_i hne
                cases h
                -- A line feed behind the carriage return would have been taken with it.
                refine ⟨['\r'], rfl, .carriageReturn fun hhead => ?_⟩
                obtain ⟨rest', rfl⟩ := List.head?_eq_some_iff.mp hhead
                exact hne _ rfl
            · rename_i hr
              split at h
              · rename_i hbreak
                cases h
                exact ⟨[c], rfl, .lineBreak hbreak⟩
              · rename_i hbreak
                cases h
                refine ⟨[c], rfl, .other (control?_eq_none_iff.mp hcontrol) hoctal ?_⟩
                simp only [not_or] at hbreak
                simp [hx, hu, hr, hbreak]

/-- Every escape is read, up to its end. -/
theorem escape?_of_escape {text denoted rest : List Char} (h : Escape text denoted rest) :
    escape? (text ++ rest) = some (denoted, rest) := by
  cases h with
  | control h => exact escape?_of_control (control?_eq_some_iff.mpr h) rest
  | null h =>
    -- A zero without further octal digits is an octal escape of one digit.
    have hread : octal 0 2 rest = (0, rest) :=
      octal_eq_iff.mpr ⟨[], rfl, Nat.zero_le _, .inr h, .nil 0⟩
    have hzero : octalDigit? '0' = some 0 := by decide
    rw [List.singleton_append, escape?_of_octal hzero, if_pos (Nat.zero_le 3), hread]
  | octal hlongest h =>
    obtain ⟨first, others, d, rfl, hd, hread⟩ := octal_of_longest hlongest h
    rw [List.cons_append, escape?_of_octal hd, hread]
  | @hex text _ code hlength h =>
    have hread : hex? 0 2 (text ++ rest) = some (code, rest) :=
      hex?_eq_some_iff.mpr ⟨text, rfl, hlength, h⟩
    have hcontrol : control? 'x' = none := by decide
    have hoctal : octalDigit? 'x' = none := by decide
    simp only [List.cons_append, escape?, hcontrol, hoctal, if_pos, hread, Option.map_some]
  | @unicode text _ c h =>
    have hread : unicode? (text ++ rest) = some (c, rest) := unicode?_eq_some_iff.mpr ⟨text, rfl, h⟩
    have hcontrol : control? 'u' = none := by decide
    have hoctal : octalDigit? 'u' = none := by decide
    have hx : ('u' = 'x') = False := by decide
    simp only [List.cons_append, escape?, hcontrol, hoctal, hx, if_false, if_pos, hread,
      Option.map_some]
  | lineBreak h =>
    rcases h with rfl | rfl | rfl <;> rfl
  | carriageReturn h =>
    cases rest with
    | nil => rfl
    | cons c rest =>
      have hc : c ≠ '\n' := fun hc => h (by rw [hc, List.head?_cons])
      simp [escape?, control?, octalDigit?, hc]
  | carriageReturnLineFeed => rfl
  | @other c _ hcontrol hoctal h =>
    have hcontrol := control?_eq_none_iff.mpr hcontrol
    simp only [List.mem_cons, List.not_mem_nil, or_false, not_or] at h
    simp [escape?, hcontrol, hoctal, h]

/-! ## Literals

Both directions by induction along the items. From the scanner to the grammar the induction is on
the recursion of the scanner, and back it is on the derivation. -/

theorem items_of_items? {quote : Char} {cs denoted : List Char}
    (h : items? quote cs = some denoted) :
    Items quote cs denoted := by
  fun_induction items? quote cs generalizing denoted with
  | case1 => cases h
  | case2 cs hempty =>
    cases h
    obtain rfl := List.isEmpty_iff.mp hempty
    exact .close
  | case3 => cases h
  | case4 => cases h
  | case5 cs escaped rest hread _ _ ih =>
    obtain ⟨denoted', hrest, rfl⟩ := Option.map_eq_some_iff.mp h
    obtain ⟨text, rfl, hescape⟩ := exists_escape hread
    exact .escape hescape (ih hrest)
  | case6 => cases h
  | case7 c cs hquote hbreak hslash ih =>
    obtain ⟨denoted', hrest, rfl⟩ := Option.map_eq_some_iff.mp h
    refine .plain ?_ (ih hrest)
    simp only [not_or] at hbreak
    simp [hquote, hslash, hbreak]

theorem items?_backslash {quote : Char} {cs denoted rest : List Char} (hquote : quote ≠ '\\')
    (h : escape? cs = some (denoted, rest)) :
    items? quote ('\\' :: cs) = (items? quote rest).map (denoted ++ ·) := by
  rw [items?, if_neg hquote.symm, if_neg (by decide), if_pos rfl]
  split
  · rename_i heq
    rw [h] at heq
    cases heq
    rfl
  · rename_i heq
    rw [h] at heq
    cases heq

theorem items?_of_items {quote : Char} {cs denoted : List Char} (hquote : quote ≠ '\\')
    (h : Items quote cs denoted) : items? quote cs = some denoted := by
  induction h with
  | close => simp [items?]
  | plain hc _ ih =>
    simp only [List.mem_cons, List.not_mem_nil, or_false, not_or] at hc
    simp [items?, hc, ih]
  | escape hescape _ ih =>
    rw [List.cons_append, items?_backslash hquote (escape?_of_escape hescape), ih]
    rfl

theorem items?_eq_some_iff {quote : Char} {cs denoted : List Char} (hquote : quote ≠ '\\') :
    items? quote cs = some denoted ↔ Items quote cs denoted :=
  ⟨items_of_items?, items?_of_items hquote⟩

/-- **The scanner and the grammar agree**, quotes included. -/
theorem value?_eq_some_iff {raw value : String} : value? raw = some value ↔ Denotes raw value := by
  unfold value? Denotes
  cases raw.toList with
  | nil => simp
  | cons c cs =>
    by_cases hc : c = '\'' ∨ c = '"'
    · have hslash : c ≠ '\\' := by
        rcases hc with rfl | rfl <;> decide
      simp only [if_pos hc, Option.map_eq_some_iff, items?_eq_some_iff hslash]
      constructor
      · rintro ⟨denoted, hitems, rfl⟩
        exact ⟨c, cs, denoted, hc, rfl, hitems, rfl⟩
      · rintro ⟨quote, text, denoted, -, heq, hitems, rfl⟩
        cases heq
        exact ⟨denoted, hitems, rfl⟩
    · simp only [if_neg hc]
      constructor
      · intro h
        cases h
      · rintro ⟨quote, text, denoted, hquote, heq, -⟩
        cases heq
        exact absurd hquote hc

/-- **The decoder accepts exactly the grammar of literals.** A text is decoded if and only if it is
a literal, to what the literal denotes, and any other text is refused as it stands. -/
theorem decode_eq_ok_iff_denotes (raw : String) :
    (∀ value, decode raw = .ok value ↔ Denotes raw value) ∧
      ∀ e, decode raw = .error e ↔ e = .invalidLiteral raw ∧ ¬ ∃ value, Denotes raw value := by
  unfold decode
  simp only [← value?_eq_some_iff]
  cases value? raw with
  | none => simp [eq_comm]
  | some text => simp

end StackCode.Literal
