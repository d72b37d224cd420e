import StackCode.Assembler
import StackCode.LoopStack

/-!
# Code generation steps

A step extends the unit under construction and may fail. What was emitted before a failure stays:
the state of a failed step is the state at the point of failure, not the one before the step.

Steps are written in a monad with a state and errors, in this order, so that an error does not take
the state with it. The compiler itself throws the state of a failed unit away. A caller who holds a
unit open and compiles into it piece by piece sees it.

Loops are part of the state rather than an argument, since they are entered and left by steps of
their own.
-/

set_option autoImplicit false

namespace StackCode

/-- The unit under construction and the loops around the statement being compiled. -/
structure OpenUnit where
  asm : Assembler := {}
  loops : LoopStack := {}

namespace OpenUnit

/-- Ends the unit. Loops that are still open are reported before labels. -/
def finish (unit : OpenUnit) : Except Error CodeUnit :=
  if unit.loops.depth = 0 then unit.asm.close else .error (.loopsLeftOpen unit.loops.depth)

end OpenUnit

/-- A step of code generation. -/
abbrev Gen := ExceptT Error (StateM OpenUnit)

namespace Gen

/-- Applies an operation of the assembler. -/
def assemble (f : Assembler → Assembler) : Gen Unit :=
  modify fun unit => { unit with asm := f unit.asm }

/-- Emits an instruction. -/
def emit (i : Instruction) : Gen Unit :=
  assemble fun asm => asm.emit i

/-- Emits an instruction without operand. -/
def op (opcode : OpCode) : Gen Unit :=
  assemble fun asm => asm.op opcode

/-- Emits an instruction with an operand. -/
def opWith (opcode : OpCode) (operand : Operand) : Gen Unit :=
  assemble fun asm => asm.opWith opcode operand

/-- Emits an instruction that refers to an atom. -/
def opAtom (opcode : OpCode) (name : String) : Gen Unit :=
  assemble fun asm => asm.opAtom opcode name

/-- Emits a jump. -/
def jump (opcode : OpCode) (l : Label) : Gen Unit :=
  assemble fun asm => asm.jump opcode l

/-- Allocates a label whose position is not known yet. -/
def newLabel : Gen Label :=
  modifyGet fun unit => (unit.asm.newLabel.1, { unit with asm := unit.asm.newLabel.2 })

/-- Allocates a label at the current position. -/
def labelHere : Gen Label :=
  modifyGet fun unit => (unit.asm.labelHere.1, { unit with asm := unit.asm.labelHere.2 })

/-- Refuses to go on. -/
def refuse {α : Type} (feature : Feature) : Gen α :=
  throw (.unsupported feature)

/-- A result that does not depend on the unit. -/
def ofExcept {α : Type} (result : Except Error α) : Gen α :=
  match result with
  | .ok a => pure a
  | .error e => throw e

/-- Gives a label the current position. -/
def fix (l : Label) : Gen Unit := do
  let unit ← get
  match unit.asm.fixError? l with
  | some e => throw e
  | none => assemble fun asm => asm.settle l

/-- Enters a loop. -/
def enterLoop (loop : Loop) : Gen Unit :=
  modify fun unit => { unit with loops := unit.loops.push loop }

/-- Leaves the innermost loop. -/
def leaveLoop : Gen Unit :=
  modify fun unit => { unit with loops := unit.loops.pop.2 }

/-- The innermost loop, as the target of the jump named by `statement`. -/
def innermost (statement : String) : Gen Loop := do
  let unit ← get
  ofExcept (unit.loops.innermost statement)

end Gen

end StackCode
