import StackCode.Error
import StackCode.Text.Hex

/-!
# String literals

A string literal reaches the compiler as it was written, with its quotes and escapes. `decode` gives
the text it denotes. Text is a sequence of Unicode scalar values, so a surrogate escape that has no
partner denotes the replacement character.

The scanner works on the characters after the opening quote. An escape is read by `escape?`, which
returns the characters denoted and the text that is left; it always consumes something, and so the
scanner ends.

The closing quote is the one that the literal began with. A line feed or a carriage return in front
of it makes the literal malformed; the two Unicode separators of lines and paragraphs do not.

There is one error for all malformed literals. The scanner could say more, but nobody asks.
-/

set_option autoImplicit false

namespace StackCode.Literal

open Text (hexDigit? hex? hex?_length IsHighSurrogate IsLowSurrogate combineSurrogates)

/-! ## Digits

Octal digits are counted, hexadecimal ones are either counted or end at a brace. -/

/-- The value of an octal digit. -/
def octalDigit? (c : Char) : Option Nat :=
  if '0' ≤ c ∧ c ≤ '7' then some (c.toNat - 48) else none

/-- Reads hexadecimal digits up to a closing brace behind the value `acc`. The digits are not
counted, only whether there are any, so there is no bound on how many zeros may lead; a reader that
counts them in 32 bits gives up at `2 ^ 31` digits, and what it does with such an escape is not
covered here. -/
def hexToBrace? (acc : Nat) : List Char → Option (Nat × List Char)
  | [] => none
  | c :: cs =>
    if c = '\x7d' then some (acc, cs)
    else
      match hexDigit? c with
      | some d => hexToBrace? (acc * 16 + d) cs
      | none => none

/-- Reads at most `count` octal digits behind the value `acc`. -/
def octal (acc : Nat) : Nat → List Char → Nat × List Char
  | 0, cs => (acc, cs)
  | _ + 1, [] => (acc, [])
  | count + 1, c :: cs =>
    match octalDigit? c with
    | some d => octal (acc * 8 + d) count cs
    | none => (acc, c :: cs)

/-! ## Code points

A code unit may be half of a character. The other half is looked for where it must stand, and taken
only if it is there. -/

/-- The character with a code point, if that is a Unicode scalar value. -/
def scalar? (code : Nat) : Option Char :=
  if code.isValidChar then some (Char.ofNat code) else none

/-- What stands for a surrogate without a partner. -/
def replacement : Char := '\uFFFD'

/-- Reads an escape of a low surrogate, backslash included. -/
def lowSurrogate? : List Char → Option (Nat × List Char)
  | '\\' :: 'u' :: cs =>
    match hex? 0 4 cs with
    | some (unit, rest) => if IsLowSurrogate unit then some (unit, rest) else none
    | none => none
  | _ => none

/-- Reads what follows `\u`: a code point in braces, or one or two UTF-16 code units. -/
def unicode? (cs : List Char) : Option (Char × List Char) :=
  match cs with
  | '\x7b' :: '\x7d' :: _ => none
  | '\x7b' :: cs => do
    let (code, rest) ← hexToBrace? 0 cs
    let c ← scalar? code
    some (c, rest)
  | cs => do
    let (unit, rest) ← hex? 0 4 cs
    if IsHighSurrogate unit then
      match lowSurrogate? rest with
      | some (low, rest) => some (Char.ofNat (combineSurrogates unit low), rest)
      | none => some (replacement, rest)
    else some ((scalar? unit).getD replacement, rest)

/-! ## Escapes -/

/-- The control character that a single letter stands for. -/
def control? (c : Char) : Option Char :=
  if c = 'n' then some '\n'
  else if c = 'r' then some '\r'
  else if c = 't' then some '\t'
  else if c = 'b' then some '\x08'
  else if c = 'f' then some '\x0c'
  else if c = 'v' then some '\x0b'
  else none

/-- Reads what follows a backslash: the characters it denotes, none for a line continuation, and the
text that is left. `\0` is an octal escape of one digit like any other. -/
def escape? : List Char → Option (List Char × List Char)
  | [] => none
  | c :: cs =>
    match control? c, octalDigit? c with
    | some denoted, _ => some ([denoted], cs)
    | none, some d =>
      let (code, rest) := octal d (if d ≤ 3 then 2 else 1) cs
      some ([Char.ofNat code], rest)
    | none, none =>
      if c = 'x' then (hex? 0 2 cs).map fun (code, rest) => ([Char.ofNat code], rest)
      else if c = 'u' then (unicode? cs).map fun (denoted, rest) => ([denoted], rest)
      else if c = '\r' then
        match cs with
        | '\n' :: rest => some ([], rest)
        | rest => some ([], rest)
      else if c = '\n' ∨ c = '\u2028' ∨ c = '\u2029' then some ([], cs)
      else some ([c], cs)

/-! ### An escape consumes text -/

theorem hexToBrace?_length {acc : Nat} {cs : List Char} {n : Nat} {rest : List Char}
    (h : hexToBrace? acc cs = some (n, rest)) : rest.length < cs.length := by
  induction cs generalizing acc with
  | nil => simp [hexToBrace?] at h
  | cons c cs ih =>
    simp only [hexToBrace?] at h
    simp only [List.length_cons]
    split at h
    · simp_all
    · split at h
      · have := ih h
        omega
      · simp at h

theorem octal_length (acc count : Nat) (cs : List Char) :
    (octal acc count cs).2.length ≤ cs.length := by
  induction count generalizing acc cs with
  | zero => simp [octal]
  | succ count ih =>
    cases cs with
    | nil => simp [octal]
    | cons c cs =>
      simp only [octal]
      split
      · have := ih (acc * 8 + ‹Nat›) cs
        simp only [List.length_cons]
        omega
      · simp

theorem lowSurrogate?_length {cs : List Char} {n : Nat} {rest : List Char}
    (h : lowSurrogate? cs = some (n, rest)) : rest.length < cs.length := by
  unfold lowSurrogate? at h
  split at h
  · split at h
    · rename_i hx
      have := hex?_length hx
      split at h
      · simp_all
        omega
      · simp at h
    · simp at h
  · simp at h

theorem unicode?_length {cs : List Char} {c : Char} {rest : List Char}
    (h : unicode? cs = some (c, rest)) : rest.length < cs.length := by
  unfold unicode? at h
  split at h
  · simp at h
  · -- Digits up to a closing brace.
    rename_i ds _
    cases hb : hexToBrace? 0 ds with
    | none => simp [hb] at h
    | some p =>
      obtain ⟨code, left⟩ := p
      have := hexToBrace?_length hb
      cases hs : scalar? code with
      | none => simp [hb, hs] at h
      | some d =>
        simp only [hb, hs, Option.bind_eq_bind, Option.bind_some, Option.some.injEq,
          Prod.mk.injEq] at h
        simp only [List.length_cons, ← h.2]
        omega
  · -- Four digits, and perhaps a partner behind them.
    cases hx : hex? 0 4 cs with
    | none => simp [hx] at h
    | some p =>
      obtain ⟨unit, left⟩ := p
      have := hex?_length hx
      simp only [hx, Option.bind_eq_bind, Option.bind_some] at h
      split at h
      · split at h
        · rename_i hl
          have := lowSurrogate?_length hl
          simp only [Option.some.injEq, Prod.mk.injEq] at h
          rw [← h.2]
          omega
        · simp only [Option.some.injEq, Prod.mk.injEq] at h
          rw [← h.2]
          omega
      · simp only [Option.some.injEq, Prod.mk.injEq] at h
        rw [← h.2]
        omega

theorem escape?_length {cs denoted rest : List Char} (h : escape? cs = some (denoted, rest)) :
    rest.length < cs.length := by
  cases cs with
  | nil => simp [escape?] at h
  | cons c cs =>
    simp only [escape?] at h
    simp only [List.length_cons]
    split at h
    · simp_all
    · rename_i d _ _
      have := octal_length d (if d ≤ 3 then 2 else 1) cs
      simp only [Option.some.injEq, Prod.mk.injEq] at h
      rw [← h.2]
      omega
    · split at h
      · cases hx : hex? 0 2 cs with
        | none => simp [hx] at h
        | some p =>
          obtain ⟨code, left⟩ := p
          have := hex?_length hx
          simp only [hx, Option.map_some, Option.some.injEq, Prod.mk.injEq] at h
          rw [← h.2]
          omega
      · split at h
        · cases hu : unicode? cs with
          | none => simp [hu] at h
          | some p =>
            obtain ⟨d, left⟩ := p
            have := unicode?_length hu
            simp only [hu, Option.map_some, Option.some.injEq, Prod.mk.injEq] at h
            rw [← h.2]
            omega
        · split at h
          · split at h
            · simp only [Option.some.injEq, Prod.mk.injEq] at h
              simp only [List.length_cons, ← h.2]
              omega
            · simp_all
          · split at h
            · simp_all
            · simp_all

/-! ## Literals -/

/-- Reads the characters of a literal up to its closing quote, which must end the text. A line break
may stand in a literal only behind a backslash. -/
def items? (quote : Char) (cs : List Char) : Option (List Char) :=
  match cs with
  | [] => none
  | c :: cs =>
    if c = quote then (if cs.isEmpty then some [] else none)
    else if c = '\n' ∨ c = '\r' then none
    else if c = '\\' then
      match _read : escape? cs with
      | some (denoted, rest) => (items? quote rest).map (denoted ++ ·)
      | none => none
    else (items? quote cs).map (c :: ·)
termination_by cs.length
decreasing_by
  · have := escape?_length _read
    simp only [List.length_cons]
    omega
  · simp

/-- The text that a literal denotes, or nothing if it is not well formed. -/
def value? (raw : String) : Option String :=
  match raw.toList with
  | [] => none
  | c :: cs => if c = '\'' ∨ c = '"' then (items? c cs).map String.ofList else none

/-- The text that a literal denotes. -/
def decode (raw : String) : Except Error String :=
  match value? raw with
  | some text => .ok text
  | none => .error (.invalidLiteral raw)

end StackCode.Literal
