import StackCode.Json.Basic
import StackCode.Text.Hex

/-!
# Scanning JSON text

The leaves of the grammar, on lists of characters: blanks, words, numbers, strings, and what stands
between the items of an array or the entries of an object. A scanner returns what it read and the
text that is left.

Texts are lists of characters rather than positions in a string. A proof about a scanner is then a
proof about lists, and a scanner can be run on the front of a text that is written as two parts.

The scanners report the first fault. Where the grammar leaves several ways to call something wrong,
they follow the order in which the characters are looked at.
-/

set_option autoImplicit false

namespace StackCode.Json.Scan

open Text (hex? hex?_length IsHighSurrogate IsLowSurrogate combineSurrogates)

/-- Reports a malformed text. -/
def malformed {α : Type} (what : Malformed) : Except Fault α :=
  .error (.malformed what)

/-- Reports a text that ends too early. -/
def cutOff {α : Type} (inside : Unfinished) : Except Fault α :=
  .error (.cutOff inside)

/-! ## Blanks and words -/

def isBlank (c : Char) : Bool :=
  c = ' ' || c = '\n' || c = '\t' || c = '\r'

/-- The text behind leading blanks. -/
def skipBlanks (cs : List Char) : List Char :=
  cs.dropWhile isBlank

/-- Reads the rest of a word of which the first letter decided. -/
def word : List Char → List Char → Except Fault (List Char)
  | [], cs => .ok cs
  | _ :: _, [] => cutOff .value
  | w :: ws, c :: cs => if c = w then word ws cs else malformed .expectedIdent

/-! ## Numbers -/

/-- Takes leading decimal digits. -/
def digits (cs : List Char) : List Nat × List Char :=
  ((cs.takeWhile Char.isDigit).map fun c => c.toNat - 48, cs.dropWhile Char.isDigit)

/-- Appends digits to a significand as long as it fits 64 bits. Returns it with the number of digits
appended and the number of digits left over. -/
def absorb (significand : Nat) (taken : Nat) : List Nat → Nat × Nat × Nat
  | [] => (significand, taken, 0)
  | d :: ds =>
    if significand * 10 + d < 0x10000000000000000 then absorb (significand * 10 + d) (taken + 1) ds
    else (significand, taken, ds.length + 1)

/-- The value of a list of decimal digits. -/
def ofDigits (ds : List Nat) : Nat :=
  ds.foldl (fun n d => n * 10 + d) 0

/-- A number with a fraction or an exponent, from its digits before and behind the point and its
power of ten. Digits beyond 64 bits of significand count for their place only. -/
def realNumber (negative : Bool) (whole fraction : List Nat) (power : Int) : Except Fault Number :=
  let (significand, _, dropped) := absorb 0 0 whole
  let (significand, places, _) := absorb significand 0 fraction
  match Double.ofDecimal? significand (power + dropped - places) with
  | some x => .ok (.real (if negative then x.neg else x))
  | none => malformed .numberOutOfRange

/-- A number without fraction and exponent. It is an integer if it fits 64 bits, with a sign if
negative; the zero behind a minus has no integer form. -/
def wholeNumber (negative : Bool) (whole : List Nat) : Except Fault Number :=
  match absorb 0 0 whole with
  | (n, _, 0) =>
    if !negative then .ok (.integer n)
    else if n = 0 ∨ 0x8000000000000000 < n then .ok (.real (Double.ofNat n).neg)
    else .ok (.integer (-n))
  | _ => realNumber negative whole [] 0

/-- Takes a leading sign: whether it is a minus, and the text behind it. -/
def sign : List Char → Bool × List Char
  | '+' :: cs => (false, cs)
  | '-' :: cs => (true, cs)
  | cs => (false, cs)

/-- Reads the power of ten behind an `e`. -/
def power (cs : List Char) : Except Fault (Int × List Char) :=
  match digits (sign cs).2 with
  | ([], []) => cutOff .value
  | ([], _ :: _) => malformed .invalidNumber
  | (ds, rest) => .ok (if (sign cs).1 then -(ofDigits ds : Int) else ofDigits ds, rest)

/-- Reads the power of ten of a number, if there is one, and puts the number together. -/
def scaled (negative : Bool) (whole fraction : List Nat) (cs : List Char) :
    Except Fault (Number × List Char) :=
  match cs with
  | 'e' :: cs | 'E' :: cs => do
    let (p, rest) ← power cs
    let x ← realNumber negative whole fraction p
    .ok (x, rest)
  | cs => do
    let x ← realNumber negative whole fraction 0
    .ok (x, cs)

/-- Reads what follows the digits before the point. -/
def behindWhole (negative : Bool) (whole : List Nat) (cs : List Char) :
    Except Fault (Number × List Char) :=
  match cs with
  | '.' :: cs =>
    match digits cs with
    | ([], []) => cutOff .value
    | ([], _ :: _) => malformed .invalidNumber
    | (fraction, rest) => scaled negative whole fraction rest
  | 'e' :: _ | 'E' :: _ => scaled negative whole [] cs
  | cs => do
    let x ← wholeNumber negative whole
    .ok (x, cs)

/-- Reads a number behind its sign. -/
def number (negative : Bool) (cs : List Char) : Except Fault (Number × List Char) :=
  match digits cs with
  | ([], []) => cutOff .value
  | ([], _ :: _) => malformed .invalidNumber
  | (0 :: _ :: _, _) => malformed .invalidNumber
  | (whole, rest) => behindWhole negative whole rest

/-! ## Strings -/

/-- Whether at least `n` bytes of text are left. -/
def hasBytes : Nat → List Char → Bool
  | 0, _ => true
  | _ + 1, [] => false
  | n + 1, c :: cs => hasBytes (n + 1 - c.utf8Size) cs

/-- Reads the four digits of a hexadecimal escape. A text with fewer than four bytes left is cut
off, whatever those bytes are. -/
def hexEscape (cs : List Char) : Except Fault (Nat × List Char) :=
  if hasBytes 4 cs then
    match hex? 0 4 cs with
    | some result => .ok result
    | none => malformed .invalidEscape
  else cutOff .string

/-- The character behind a backslash that stands for itself or a control character. -/
def shortEscape? (c : Char) : Option Char :=
  if c = '"' ∨ c = '\\' ∨ c = '/' then some c
  else if c = 'b' then some '\x08'
  else if c = 'f' then some '\x0c'
  else if c = 'n' then some '\n'
  else if c = 'r' then some '\r'
  else if c = 't' then some '\t'
  else none

/-- Reads the second half of a surrogate pair. -/
def lowEscape (cs : List Char) : Except Fault (Nat × List Char) :=
  match cs with
  | [] | ['\\'] => cutOff .string
  | '\\' :: 'u' :: cs => do
    let (unit, cs) ← hexEscape cs
    if IsLowSurrogate unit then .ok (unit, cs) else malformed .loneSurrogate
  | _ => malformed .hexEscapeCutOff

/-- Reads what follows a backslash. Surrogates must come in pairs. -/
def escape (cs : List Char) : Except Fault (Char × List Char) :=
  match cs with
  | [] => cutOff .string
  | c :: cs =>
    match shortEscape? c with
    | some denoted => .ok (denoted, cs)
    | none =>
      if c = 'u' then do
        let (unit, cs) ← hexEscape cs
        if IsLowSurrogate unit then malformed .loneSurrogate
        else if IsHighSurrogate unit then do
          let (low, cs) ← lowEscape cs
          .ok (Char.ofNat (combineSurrogates unit low), cs)
        else .ok (Char.ofNat unit, cs)
      else malformed .invalidEscape

/-- Reads what follows a backslash in a string that is only skipped. Surrogates need no partner. -/
def skipEscape (cs : List Char) : Except Fault (List Char) :=
  match cs with
  | [] => cutOff .string
  | c :: cs =>
    if (shortEscape? c).isSome then .ok cs
    else if c = 'u' then do
      let (_, cs) ← hexEscape cs
      .ok cs
    else malformed .invalidEscape

/-! ### An escape consumes text -/

theorem hexEscape_length {cs rest : List Char} {n : Nat} (h : hexEscape cs = .ok (n, rest)) :
    rest.length + 4 = cs.length := by
  unfold hexEscape at h
  split at h
  · split at h
    · rename_i hx
      cases h
      exact hex?_length hx
    · simp [malformed] at h
  · simp [cutOff] at h

theorem lowEscape_length {cs rest : List Char} {n : Nat} (h : lowEscape cs = .ok (n, rest)) :
    rest.length < cs.length := by
  unfold lowEscape at h
  split at h
  · simp [cutOff] at h
  · simp [cutOff] at h
  · rename_i ds
    cases hx : hexEscape ds with
    | error e => simp [hx, bind, Except.bind] at h
    | ok p =>
      obtain ⟨unit, left⟩ := p
      have := hexEscape_length hx
      simp only [hx, bind, Except.bind] at h
      split at h
      · cases h
        simp only [List.length_cons]
        omega
      · simp [malformed] at h
  · simp [malformed] at h

theorem escape_length {cs rest : List Char} {c : Char} (h : escape cs = .ok (c, rest)) :
    rest.length < cs.length := by
  unfold escape at h
  split at h
  · simp [cutOff] at h
  · rename_i d ds
    simp only [List.length_cons]
    split at h
    · cases h
      omega
    · split at h
      · cases hx : hexEscape ds with
        | error e => simp [hx, bind, Except.bind] at h
        | ok p =>
          obtain ⟨unit, left⟩ := p
          have := hexEscape_length hx
          simp only [hx, bind, Except.bind] at h
          split at h
          · simp [malformed] at h
          · split at h
            · cases hl : lowEscape left with
              | error e => simp [hl] at h
              | ok q =>
                obtain ⟨low, left'⟩ := q
                have := lowEscape_length hl
                simp only [hl, Except.ok.injEq, Prod.mk.injEq] at h
                obtain ⟨-, rfl⟩ := h
                omega
            · simp only [Except.ok.injEq, Prod.mk.injEq] at h
              obtain ⟨-, rfl⟩ := h
              omega
      · simp [malformed] at h

theorem skipEscape_length {cs rest : List Char} (h : skipEscape cs = .ok rest) :
    rest.length < cs.length := by
  unfold skipEscape at h
  split at h
  · simp [cutOff] at h
  · rename_i d ds
    simp only [List.length_cons]
    split at h
    · cases h
      omega
    · split at h
      · cases hx : hexEscape ds with
        | error e => simp [hx, bind, Except.bind] at h
        | ok p =>
          obtain ⟨unit, left⟩ := p
          have := hexEscape_length hx
          simp only [hx, bind, Except.bind] at h
          cases h
          omega
      · simp [malformed] at h

/-- Reads a string behind its opening quote. `acc` holds the characters read so far, the last one
first. -/
def string (acc : List Char) (cs : List Char) : Except Fault (String × List Char) :=
  match cs with
  | [] => cutOff .string
  | c :: cs =>
    if c = '"' then .ok (String.ofList acc.reverse, cs)
    else if c = '\\' then
      match _read : escape cs with
      | .ok (denoted, rest) => string (denoted :: acc) rest
      | .error fault => .error fault
    else if c.toNat < 32 then malformed .controlCharacter
    else string (c :: acc) cs
termination_by cs.length
decreasing_by
  · have := escape_length _read
    simp only [List.length_cons]
    omega
  · simp

/-- Skips a string behind its opening quote. -/
def skipString (cs : List Char) : Except Fault (List Char) :=
  match cs with
  | [] => cutOff .string
  | c :: cs =>
    if c = '"' then .ok cs
    else if c = '\\' then
      match _read : skipEscape cs with
      | .ok rest => skipString rest
      | .error fault => .error fault
    else if c.toNat < 32 then malformed .controlCharacter
    else skipString cs
termination_by cs.length
decreasing_by
  · have := skipEscape_length _read
    simp only [List.length_cons]
    omega
  · simp

/-! ## Scalars -/

/-- Reads a value that is neither array nor object, without blanks in front. -/
def scalar (cs : List Char) : Except Fault (Json × List Char) :=
  match cs with
  | 'n' :: cs => do
    let cs ← word ['u', 'l', 'l'] cs
    .ok (.null, cs)
  | 't' :: cs => do
    let cs ← word ['r', 'u', 'e'] cs
    .ok (.bool true, cs)
  | 'f' :: cs => do
    let cs ← word ['a', 'l', 's', 'e'] cs
    .ok (.bool false, cs)
  | '-' :: cs => do
    let (x, cs) ← number true cs
    .ok (.number x, cs)
  | '"' :: cs => do
    let (s, cs) ← string [] cs
    .ok (.string s, cs)
  | [] => cutOff .value
  | c :: _ =>
    if c.isDigit then do
      let (x, cs) ← number false cs
      .ok (.number x, cs)
    else malformed .expectedValue

/-! ## Between items and entries -/

/-- Goes on to the next item of an array: the text from there, or nothing at the closing bracket. -/
def nextItem (first : Bool) (cs : List Char) : Except Fault (Option (List Char)) :=
  match skipBlanks cs with
  | [] => cutOff .list
  | c :: rest =>
    if c = ']' then .ok none
    else if first then .ok (some (c :: rest))
    else if c = ',' then
      match skipBlanks rest with
      | [] => cutOff .value
      | d :: rest => if d = ']' then malformed .trailingComma else .ok (some (d :: rest))
    else malformed .expectedListEnd

/-- Reads the closing bracket of an array that should have no further item. -/
def endArray (cs : List Char) : Except Fault (List Char) :=
  match skipBlanks cs with
  | [] => cutOff .list
  | c :: rest =>
    if c = ']' then .ok rest
    else if c = ',' ∧ (skipBlanks rest).head? = some ']' then malformed .trailingComma
    else malformed .trailingCharacters

/-- Goes on to the next entry of an object and reads its key. Without one the object is closed. -/
def nextKey (first : Bool) (cs : List Char) : Except Fault (Option String × List Char) :=
  match skipBlanks cs with
  | [] => cutOff .object
  | c :: rest =>
    if c = '\x7d' then .ok (none, rest)
    else if first then key (c :: rest)
    else if c = ',' then
      match skipBlanks rest with
      | [] => cutOff .value
      | d :: rest => if d = '\x7d' then malformed .trailingComma else key (d :: rest)
    else malformed .expectedObjectEnd
where
  /-- Reads a key. -/
  key (cs : List Char) : Except Fault (Option String × List Char) :=
    match cs with
    | '"' :: cs => do
      let (name, cs) ← string [] cs
      .ok (some name, cs)
    | _ => malformed .keyNotString

/-- Reads the colon behind a key. -/
def colon (cs : List Char) : Except Fault (List Char) :=
  match skipBlanks cs with
  | [] => cutOff .object
  | ':' :: cs => .ok cs
  | _ => malformed .expectedColon

end StackCode.Json.Scan
