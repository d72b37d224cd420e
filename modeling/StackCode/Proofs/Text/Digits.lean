import StackCode.Text.Hex

/-!
# Numerals

What a run of digits stands for, and that `hex?` reads it: exactly as many digits as were asked for,
and all of them. A run stands for one number only, and `Nat.toDigits` writes one for every number.

The relation is stated with an accumulator, like the function that reads, and for any base and any
notion of digit. What a text of digits stands for is then the case of an accumulator of zero.
-/

set_option autoImplicit false

namespace StackCode.Text

/-- Behind the value `acc`, the digits of a text make up a value in base `base`. -/
inductive Digits (digit? : Char → Option Nat) (base : Nat) : Nat → List Char → Nat → Prop
  | nil (acc : Nat) : Digits digit? base acc [] acc
  | cons {acc d n : Nat} {c : Char} {text : List Char} (hc : digit? c = some d)
      (h : Digits digit? base (acc * base + d) text n) : Digits digit? base acc (c :: text) n

/-- The text is a hexadecimal numeral. -/
abbrev HexDigits (text : List Char) (n : Nat) : Prop :=
  Digits hexDigit? 16 0 text n

theorem hexDigit?_lt {c : Char} {d : Nat} (h : hexDigit? c = some d) : d < 16 := by
  have hle : ∀ {a b : Char}, a ≤ b → a.toNat ≤ b.toNat := fun h => h
  unfold hexDigit? at h
  split at h
  · rename_i hc
    have := hle hc.2
    cases h
    simp at this
    omega
  · split at h
    · rename_i hc
      have := hle hc.2
      cases h
      simp at this
      omega
    · split at h
      · rename_i hc
        have := hle hc.2
        cases h
        simp at this
        omega
      · cases h

/-- A hexadecimal digit adds four bits. -/
theorem Digits.lt_of_hex {acc n : Nat} {text : List Char} (h : Digits hexDigit? 16 acc text n) :
    n < (acc + 1) <<< (4 * text.length) := by
  induction h with
  | nil acc => exact Nat.lt_succ_self acc
  | @cons acc d n c text hc _ ih =>
    have hd := hexDigit?_lt hc
    have hbits : (acc + 1) * 16 = (acc + 1) <<< 4 := Nat.shiftLeft_eq (acc + 1) 4 ▸ rfl
    calc n < (acc * 16 + d + 1) <<< (4 * text.length) := ih
      _ ≤ ((acc + 1) * 16) <<< (4 * text.length) := by
        rw [Nat.shiftLeft_eq, Nat.shiftLeft_eq]
        exact Nat.mul_le_mul_right _ (by omega)
      _ = (acc + 1) <<< (4 * (text.length + 1)) := by
        rw [hbits, ← Nat.shiftLeft_add, Nat.mul_add_one, Nat.add_comm 4]

/-- **Exactly so many digits are read.** -/
theorem hex?_eq_some_iff {acc count n : Nat} {cs rest : List Char} :
    hex? acc count cs = some (n, rest) ↔
      ∃ text, cs = text ++ rest ∧ text.length = count ∧ Digits hexDigit? 16 acc text n := by
  induction count generalizing acc cs with
  | zero =>
    constructor
    · intro h
      cases h
      exact ⟨[], rfl, rfl, .nil _⟩
    · rintro ⟨text, rfl, hlength, h⟩
      obtain rfl := List.eq_nil_of_length_eq_zero hlength
      cases h
      rfl
  | succ count ih =>
    constructor
    · intro h
      cases cs with
      | nil => cases h
      | cons c cs =>
        cases hc : hexDigit? c with
        | none =>
          simp only [hex?, hc] at h
          cases h
        | some d =>
          simp only [hex?, hc] at h
          obtain ⟨text, rfl, hlength, htext⟩ := ih.mp h
          exact ⟨c :: text, rfl, congrArg Nat.succ hlength, .cons hc htext⟩
    · rintro ⟨text, rfl, hlength, h⟩
      cases h with
      | nil _ => cases hlength
      | cons hc h =>
        simp only [List.cons_append, hex?, hc]
        exact ih.mpr ⟨_, rfl, Nat.succ.inj hlength, h⟩

/-! ## Writing a number -/

theorem Digits.unique {digit? : Char → Option Nat} {base acc n n' : Nat} {text : List Char}
    (h : Digits digit? base acc text n) (h' : Digits digit? base acc text n') : n = n' := by
  induction h with
  | nil acc =>
    cases h'
    rfl
  | cons hc _ ih =>
    cases h' with
    | cons hc' h' =>
      obtain rfl := Option.some.inj (hc.symm.trans hc')
      exact ih h'

theorem Digits.digit_of_mem {digit? : Char → Option Nat} {base acc n : Nat} {text : List Char}
    (h : Digits digit? base acc text n) {c : Char} (hmem : c ∈ text) : ∃ d, digit? c = some d := by
  induction h with
  | nil acc => cases hmem
  | cons hc _ ih =>
    rcases List.mem_cons.mp hmem with rfl | hmem
    · exact ⟨_, hc⟩
    · exact ih hmem

/-- One more digit behind the others. -/
theorem Digits.snoc {digit? : Char → Option Nat} {base acc n d : Nat} {text : List Char} {c : Char}
    (h : Digits digit? base acc text n) (hc : digit? c = some d) :
    Digits digit? base acc (text ++ [c]) (n * base + d) := by
  induction h with
  | nil acc => exact .cons hc (.nil _)
  | cons hfirst _ ih => exact .cons hfirst ih

theorem hexDigit?_digitChar : ∀ d < 16, hexDigit? (Nat.digitChar d) = some d := by
  decide

/-- The digits of a number are a numeral for it. -/
theorem hexDigits_toDigits (n : Nat) : HexDigits (Nat.toDigits 16 n) n := by
  induction n using Nat.strongRecOn with
  | ind n ih =>
    rw [Nat.toDigits_eq_if (by decide)]
    split
    · rename_i hlt
      have hdigit : HexDigits [n.digitChar] (0 * 16 + n) :=
        .cons (hexDigit?_digitChar n hlt) (.nil _)
      rwa [Nat.zero_mul, Nat.zero_add] at hdigit
    · rename_i hle
      have hmore := ih (n / 16) (by omega)
      have hlast := hexDigit?_digitChar (n % 16) (Nat.mod_lt n (by decide))
      have hdigits := hmore.snoc hlast
      rwa [Nat.div_add_mod'] at hdigits

theorem toString_injective {n n' : Nat} (h : toString n = toString n') : n = n' := by
  have hvalue : ∀ n : Nat, Nat.ofDigitChars 10 (toString n).toList 0 = n := by
    intro n
    rw [Nat.toString_eq_repr, Nat.repr_eq_ofList_toDigits, String.toList_ofList,
      Nat.ofDigitChars_toDigits (by decide) (by decide)]
  rw [← hvalue n, h, hvalue n']

/-! ## Code units -/

/-- Four hexadecimal digits, which give a UTF-16 code unit. -/
def Utf16Unit (text : List Char) (unit : Nat) : Prop :=
  text.length = 4 ∧ HexDigits text unit

theorem hex?_four_iff {unit : Nat} {cs rest : List Char} :
    hex? 0 4 cs = some (unit, rest) ↔ ∃ text, cs = text ++ rest ∧ Utf16Unit text unit :=
  hex?_eq_some_iff

theorem Utf16Unit.lt {text : List Char} {unit : Nat} (h : Utf16Unit text unit) :
    unit < 0x10000 := by
  have hlt := h.2.lt_of_hex
  rw [h.1] at hlt
  exact hlt

end StackCode.Text
