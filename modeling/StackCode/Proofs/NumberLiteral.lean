import Mathlib.Algebra.Field.Rat
import Mathlib.Tactic.NormNum
import StackCode.Proofs.Acceptance
import StackCode.Proofs.Double.Nearest

/-!
# The width of a number literal

A number literal is compiled to one instruction, which holds the number in full, or to none. This
file says which: the forms of literals are listed with the integers that their operands can hold
(`LiteralForm.all`), and the compiler takes the first one whose range has the number. What a number
is compared by is its value as a rational number (`Double.value?`), in which the two zeros are the
same; no rounding and no cast comes into it.

The table of forms has the ranges in it and the compiler has not: it tries one conversion after the
other. That the first form whose range has the number is the first conversion that succeeds is the
content of the theorem, and the table can be checked against the widths of the operands by looking
at it.

Literals are never negative in a script, since a sign is an operator. The ranges go below zero all
the same: a tree need not come from a script.
-/

set_option autoImplicit false

namespace StackCode

/-! ## Values

A double is a mantissa times a power of two, and its value is that product. Infinities and `nan`
have none. -/

namespace Double

/-- The rational number that a finite number stands for. -/
def value? : Double → Option ℚ
  | .finite s m e _ => some (signed s m * 2 ^ e)
  | _ => none

/-- The mantissa with its sign, scaled up by one power of two and down by another, is an integer. -/
theorem signed_mul_eq_iff {s : Bool} {m c d : Nat} {n : Int} (hd : 0 < d) :
    signed s (m * c) = n * d ↔ ∃ k : Nat, n = signed s k ∧ k * d = m * c := by
  have hd' : (d : Int) ≠ 0 := Int.natCast_ne_zero.mpr (Nat.ne_of_gt hd)
  constructor
  · intro h
    have habs : n.natAbs * d = m * c := by
      have := congrArg Int.natAbs h
      rw [natAbs_signed, Int.natAbs_mul, Int.natAbs_natCast] at this
      exact this.symm
    refine ⟨n.natAbs, ?_, habs⟩
    rw [← habs, signed_mul] at h
    exact (Int.eq_of_mul_eq_mul_right hd' h).symm
  · rintro ⟨k, rfl, hk⟩
    rw [← hk, signed_mul]

/-- A number stands for an integer if that is its value. -/
theorem toInt?_eq_some_iff {x : Double} {n : Int} :
    x.toInt? = some n ↔ x.value? = some (n : ℚ) := by
  cases x with
  | nan => exact ⟨nofun, nofun⟩
  | infinity s => exact ⟨nofun, nofun⟩
  | finite s m e hnormal =>
    -- A power of two with a sign in its exponent is a quotient of two without, one of which is 1.
    have hexp : e = (e.toNat : Int) - ((-e).toNat : Int) := by omega
    have hpow : (2 : ℚ) ^ e = 2 ^ e.toNat / 2 ^ (-e).toNat := by
      conv_lhs => rw [hexp]
      rw [zpow_sub₀ two_ne_zero, zpow_natCast, zpow_natCast]
    have hscaled :
        (signed s m : ℚ) * 2 ^ e = n ↔ signed s (m * 2 ^ e.toNat) = n * (2 ^ (-e).toNat : Nat) := by
      rw [hpow, ← mul_div_assoc, div_eq_iff (by positivity), signed_mul]
      norm_cast
    rw [toInt?_finite_eq_some_iff, value?, Option.some_inj, hscaled,
      signed_mul_eq_iff (Nat.two_pow_pos _)]
    simp only [Nat.shiftLeft_eq]

end Double

/-! ## Forms

In the order in which they are tried. The ranges overlap, and the first one counts. -/

/-- A form of number literals: an operation, and the integers from `low` up to `high`, itself not
among them, that it can push. -/
structure LiteralForm where
  opcode : OpCode
  low : Int
  high : Int

namespace LiteralForm

def contains (form : LiteralForm) (n : Int) : Bool :=
  form.low ≤ n ∧ n < form.high

/-- The forms of number literals, the narrowest first. -/
def all : List LiteralForm :=
  [⟨.one, 1, 2⟩, ⟨.int8, Int8.minValue.toInt, Int8.maxValue.toInt + 1⟩, ⟨.uint16, 0, UInt16.size⟩,
    ⟨.uint24, 0, 2 ^ 24⟩, ⟨.int32, Int32.minValue.toInt, Int32.maxValue.toInt + 1⟩]

/-- The first form that has the integer in its range. -/
def of? (n : Int) : Option LiteralForm :=
  all.find? fun form => form.contains n

end LiteralForm

namespace Op

theorem eq_of_ofInstruction_eq_bare {i : Instruction} {opcode : OpCode}
    (h : ofInstruction i = bare opcode) :
    i = ⟨opcode, none⟩ := by
  obtain ⟨opcode', operand⟩ := i
  cases operand with
  | none =>
    cases h
    rfl
  | some o => cases h

theorem eq_of_ofInstruction_eq_operand {i : Instruction} {opcode : OpCode} {o : Operand}
    (h : ofInstruction i = operand opcode o) : i = ⟨opcode, some o⟩ := by
  obtain ⟨opcode', operand'⟩ := i
  cases operand' with
  | none => cases h
  | some o' =>
    cases h
    rfl

end Op

namespace Instruction

/-- The integer that the instruction pushes: 1 for `one`, that of its operand for any other. -/
def integer? (i : Instruction) : Option Int :=
  if i.opcode = .one then some 1 else i.operand.bind Operand.toInt?

variable {n : Int} {i : Instruction}

/-- Nothing is lost when an integer is written into an operand. -/
theorem integer?_of_pushInt? (h : pushInt? n = some i) : i.integer? = some n := by
  rcases Op.integer?_eq_some (Op.integer?_pushInt? h) with ⟨hi, rfl⟩ | ⟨v, hi, rfl⟩ |
    ⟨v, hi, rfl⟩ | ⟨v, hi, rfl⟩ | ⟨v, hi, rfl⟩
  · rw [Op.eq_of_ofInstruction_eq_bare hi]
    rfl
  all_goals
    rw [Op.eq_of_ofInstruction_eq_operand hi]
    rfl

/-- The instruction has the first form that holds the integer, and there is none if no form does. -/
theorem opcode_pushInt? (n : Int) :
    (pushInt? n).map opcode = (LiteralForm.of? n).map LiteralForm.opcode := by
  have hone : LiteralForm.contains ⟨.one, 1, 2⟩ n = decide (n = 1) := by
    simp only [LiteralForm.contains, decide_eq_decide]
    omega
  have hint8 : LiteralForm.contains ⟨.int8, Int8.minValue.toInt, Int8.maxValue.toInt + 1⟩ n =
      decide (-128 ≤ n ∧ n < 128) := rfl
  have huint16 : LiteralForm.contains ⟨.uint16, 0, UInt16.size⟩ n = decide (0 ≤ n ∧ n < 65536) :=
    rfl
  have huint24 : LiteralForm.contains ⟨.uint24, 0, 2 ^ 24⟩ n = decide (0 ≤ n ∧ n < 16777216) := rfl
  have hint32 : LiteralForm.contains ⟨.int32, Int32.minValue.toInt, Int32.maxValue.toInt + 1⟩ n =
      decide (-2147483648 ≤ n ∧ n < 2147483648) := rfl
  unfold pushInt? LiteralForm.of? LiteralForm.all
  simp only [List.find?_cons, hone, hint8, huint16, huint24, hint32, List.find?_nil]
  grind

/-- An immediate of 24 bits has no more. -/
theorem lt_of_pushInt?_uint24 (h : pushInt? n = some i) {v : UInt32}
    (hv : i.operand = some (.uint24 v)) :
    v.toNat < 2 ^ 24 := by
  unfold pushInt? at h
  split at h
  · cases h
    cases hv
  · split at h
    · cases h
      cases hv
    · split at h
      · cases h
        cases hv
      · split at h
        · rename_i hrange
          cases h
          cases hv
          have hle : (UInt32.ofNat n.toNat).toNat ≤ n.toNat := Nat.mod_le _ _
          omega
        · split at h
          · cases h
            cases hv
          · cases h

/-- The instruction is the literal of an integer: it pushes that integer, it has the first form in
whose range the integer is, and an immediate of 24 bits has no more. -/
structure IsLiteral (n : Int) (i : Instruction) : Prop where
  integer : i.integer? = some n
  form : ∃ form, LiteralForm.of? n = some form ∧ i.opcode = form.opcode
  fits : ∀ v, i.operand = some (.uint24 v) → v.toNat < 2 ^ 24

/-- The instruction for an integer is its literal in the narrowest form. -/
theorem isLiteral_of_pushInt? (h : pushInt? n = some i) : i.IsLiteral n where
  integer := integer?_of_pushInt? h
  form := by
    have hopcode := opcode_pushInt? n
    rw [h, Option.map_some, eq_comm, Option.map_eq_some_iff] at hopcode
    obtain ⟨form, hform, hsame⟩ := hopcode
    exact ⟨form, hform, hsame.symm⟩
  fits := fun _ hv => lt_of_pushInt?_uint24 h hv

/-! ## Literals -/

variable {value : Double}

/-- A number that is an integer gets the instruction of the integer, or is too large. -/
theorem ofNumber_of_value? (h : value.value? = some (n : ℚ)) :
    ofNumber value = (pushInt? n).elim (.error (.numberTooLarge value)) .ok := by
  unfold ofNumber
  rw [Double.toInt?_eq_some_iff.mpr h]
  cases hi : pushInt? n <;> simp [hi]

theorem ofNumber_of_forall_ne (h : ∀ n : ℤ, value.value? ≠ some (n : ℚ)) :
    ofNumber value = .error (.unsupported .nonIntegerNumber) := by
  unfold ofNumber
  cases hint : value.toInt? with
  | none => rfl
  | some n => exact absurd (Double.toInt?_eq_some_iff.mp hint) (h n)

end Instruction

namespace Gen

section

variable (fold : Bool) (unit : OpenUnit) {value : Double} {n : ℤ}

/-- A literal that is refused leaves no trace, and one that is not is one instruction. -/
theorem exec_number (value : Double) :
    (expression fold (.number value)).exec unit =
      match Instruction.ofNumber value with
      | .ok i => (.ok (), { unit with asm := { unit.asm with code := unit.asm.code.push i } })
      | .error e => (.error e, unit) := by
  rw [expression]
  unfold number
  cases Instruction.ofNumber value with
  | ok i => rfl
  | error e => rfl

/-- An integer of 32 bits is one instruction more. -/
theorem exec_number_of_range (hn : value.value? = some (n : ℚ))
    (hrange : -2 ^ 31 ≤ n ∧ n < 2 ^ 31) :
    ∃ i : Instruction, i.IsLiteral n ∧
      (expression fold (.number value)).exec unit =
        (.ok (), { unit with asm := { unit.asm with code := unit.asm.code.push i } }) := by
  have hsome : (Instruction.pushInt? n).isSome = true :=
    (Instruction.isSome_pushInt? n).trans (decide_eq_true hrange)
  obtain ⟨i, hi⟩ := Option.isSome_iff_exists.mp hsome
  refine ⟨i, Instruction.isLiteral_of_pushInt? hi, ?_⟩
  rw [exec_number, Instruction.ofNumber_of_value? hn, hi]
  rfl

theorem exec_number_of_not_range (hn : value.value? = some (n : ℚ))
    (hrange : ¬ (-2 ^ 31 ≤ n ∧ n < 2 ^ 31)) :
    (expression fold (.number value)).exec unit = (.error (.numberTooLarge value), unit) := by
  have hnone : Instruction.pushInt? n = none := by
    rw [← Option.isNone_iff_eq_none, ← Option.isSome_eq_false_iff, Instruction.isSome_pushInt?]
    exact decide_eq_false hrange
  rw [exec_number, Instruction.ofNumber_of_value? hn, hnone]
  rfl

theorem exec_number_of_forall_ne (h : ∀ n : ℤ, value.value? ≠ some (n : ℚ)) :
    (expression fold (.number value)).exec unit =
      (.error (.unsupported .nonIntegerNumber), unit) := by
  rw [exec_number, Instruction.ofNumber_of_forall_ne h]

end

end Gen

/-- **The width of a number literal.** Compiling a literal succeeds if and only if its value is an
integer of 32 bits with a sign. Then it emits one instruction, the literal of that integer, and does
nothing else. A literal without a value, or whose value is no integer, is not supported, and any
other is too large; neither emits anything. -/
theorem number_literal_width (fold : Bool) (value : Double) (unit : OpenUnit) :
    let outcome := (Gen.expression fold (.number value)).exec unit
    (outcome.1 = .ok () ↔ ∃ n : ℤ, value.value? = some (n : ℚ) ∧ -2 ^ 31 ≤ n ∧ n < 2 ^ 31) ∧
    (∀ n : ℤ, value.value? = some (n : ℚ) → -2 ^ 31 ≤ n ∧ n < 2 ^ 31 →
      ∃ i : Instruction, i.IsLiteral n ∧
        outcome = (.ok (), { unit with asm := { unit.asm with code := unit.asm.code.push i } })) ∧
    ((∀ n : ℤ, value.value? ≠ some (n : ℚ)) →
      outcome = (.error (.unsupported .nonIntegerNumber), unit)) ∧
    ∀ n : ℤ, value.value? = some (n : ℚ) → ¬ (-2 ^ 31 ≤ n ∧ n < 2 ^ 31) →
      outcome = (.error (.numberTooLarge value), unit) := by
  intro outcome
  refine ⟨⟨?_, ?_⟩, fun n => Gen.exec_number_of_range fold unit,
    Gen.exec_number_of_forall_ne fold unit, fun n => Gen.exec_number_of_not_range fold unit⟩
  · -- If it succeeds, neither of the two ways to fail is open.
    intro hok
    by_cases hvalue : ∃ n : ℤ, value.value? = some (n : ℚ)
    · obtain ⟨n, hn⟩ := hvalue
      by_cases hrange : -2 ^ 31 ≤ n ∧ n < 2 ^ 31
      · exact ⟨n, hn, hrange⟩
      · have herror : outcome = _ := Gen.exec_number_of_not_range fold unit hn hrange
        rw [herror] at hok
        cases hok
    · have herror : outcome = _ := Gen.exec_number_of_forall_ne fold unit (not_exists.mp hvalue)
      rw [herror] at hok
      cases hok
  · rintro ⟨n, hn, hrange⟩
    obtain ⟨i, -, hrun⟩ := Gen.exec_number_of_range fold unit hn hrange
    exact congrArg Prod.fst hrun

end StackCode
