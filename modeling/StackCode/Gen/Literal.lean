import StackCode.Gen.Basic

/-!
# Number literals

An integer literal becomes one instruction, the first of `one`, `int8`, `uint16`, `uint24` and
`int32` that can hold it. A literal with a fraction is not compiled, and neither is one beyond 32
bits.

The choice goes by the value and not by how the literal was written, so `255`, `0xff` and a folded
`250 + 5` are the same instruction. Negative integers are included although a literal cannot be
negative: the sign of a number in a tree is whatever the tree says.
-/

set_option autoImplicit false

namespace StackCode

/-- The narrowest instruction that pushes an integer, if it fits 32 bits with a sign. -/
def Instruction.pushInt? (n : Int) : Option Instruction :=
  if n = 1 then some ⟨.one, none⟩
  else if -128 ≤ n ∧ n < 128 then some ⟨.int8, some (.int8 (Int8.ofInt n))⟩
  else if 0 ≤ n ∧ n < 65536 then some ⟨.uint16, some (.uint16 (UInt16.ofNat n.toNat))⟩
  else if 0 ≤ n ∧ n < 16777216 then some ⟨.uint24, some (.uint24 (UInt32.ofNat n.toNat))⟩
  else if -2147483648 ≤ n ∧ n < 2147483648 then some ⟨.int32, some (.int32 (Int32.ofInt n))⟩
  else none

/-- The instruction for a number literal. -/
def Instruction.ofNumber (value : Double) : Except Error Instruction :=
  match value.toInt? with
  | none => .error (.unsupported .nonIntegerNumber)
  | some n =>
    match pushInt? n with
    | some i => .ok i
    | none => .error (.numberTooLarge value)

/-- Pushes a number literal. -/
def Gen.number (value : Double) : Gen Unit := do
  let i ← ofExcept (Instruction.ofNumber value)
  emit i

end StackCode
