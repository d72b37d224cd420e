/-!
# Hexadecimal digits and surrogates

What escapes are made of: runs of hexadecimal digits, and the two halves in which UTF-16 writes a
code point beyond 16 bits.

Letters of both cases are digits. How many digits there must be is up to the escape, so `hex?` is
told their number and takes no fewer and no more.
-/

set_option autoImplicit false

namespace StackCode.Text

/-- The value of a hexadecimal digit of either case. -/
def hexDigit? (c : Char) : Option Nat :=
  if '0' ≤ c ∧ c ≤ '9' then some (c.toNat - 48)
  else if 'a' ≤ c ∧ c ≤ 'f' then some (c.toNat - 87)
  else if 'A' ≤ c ∧ c ≤ 'F' then some (c.toNat - 55)
  else none

/-- Reads exactly `count` hexadecimal digits behind the value `acc`. -/
def hex? (acc : Nat) : Nat → List Char → Option (Nat × List Char)
  | 0, cs => some (acc, cs)
  | _ + 1, [] => none
  | count + 1, c :: cs =>
    match hexDigit? c with
    | some d => hex? (acc * 16 + d) count cs
    | none => none

theorem hex?_length {count acc : Nat} {cs : List Char} {n : Nat} {rest : List Char}
    (h : hex? acc count cs = some (n, rest)) : rest.length + count = cs.length := by
  induction count generalizing acc cs with
  | zero => simp_all [hex?]
  | succ count ih =>
    cases cs with
    | nil => simp [hex?] at h
    | cons c cs =>
      simp only [hex?] at h
      split at h
      · have := ih h
        simp only [List.length_cons]
        omega
      · simp at h

/-- Whether a code unit is the first half of a pair. -/
abbrev IsHighSurrogate (unit : Nat) : Prop := 0xD800 ≤ unit ∧ unit < 0xDC00

/-- Whether a code unit is the second half of a pair. -/
abbrev IsLowSurrogate (unit : Nat) : Prop := 0xDC00 ≤ unit ∧ unit < 0xE000

/-- The code point of a surrogate pair. -/
def combineSurrogates (high low : Nat) : Nat :=
  0x10000 + (high - 0xD800) * 0x400 + (low - 0xDC00)

end StackCode.Text
