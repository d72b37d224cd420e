import Std.Data.TreeMap
import StackCode.CodeUnit
import StackCode.Error

/-!
# The assembler

An assembler holds one unit under construction: the instructions emitted so far, the atoms they
refer to and the labels they jump to. A label may be used before its position is known. A jump to
such a label is emitted with the label as its operand and remembered with the label; once the label
is fixed, every jump that was remembered gets its position. `close` refuses a unit in which a label
has no position or an instruction still has a label for an operand.

Operations are functions from assembler to assembler, so that a failed one leaves nothing behind.

Nothing is checked on the way. An operand need not go with its operation, a jump may name a label
that does not exist, and `stop` may stand in the middle: the assembler writes down what it is told.
The checks at the end are about labels only, since a label is the one thing that the assembler
itself promises to deal with.

Atoms are kept in a table and in an index. The index is for finding a string without going through
the table, and says nothing that the table does not say.
-/

set_option autoImplicit false

namespace StackCode

/-- What is known of a label: the jumps that wait for it, the last one first, or its position. -/
inductive LabelState where
  | pending (sites : List Nat)
  | fixed (position : Nat)
deriving DecidableEq

/-- Whether a label has a position. -/
def LabelState.isFixed : LabelState → Bool
  | .pending _ => false
  | .fixed _ => true

/-- A unit under construction. -/
structure Assembler where
  scope : Scope := {}
  filename : String := ""
  line : UInt32 := 1
  code : Array Instruction := #[]
  atoms : Array String := #[]
  /-- Where each atom stands in `atoms`. -/
  index : Std.TreeMap String Nat := {}
  labels : Array LabelState := #[]

namespace Assembler

/-- The index of the next instruction. -/
def position (asm : Assembler) : Nat :=
  asm.code.size

/-! ## Instructions and atoms

These cannot fail, and they leave the labels alone. -/

/-- Appends an instruction. -/
def emit (asm : Assembler) (i : Instruction) : Assembler :=
  { asm with code := asm.code.push i }

/-- Appends an instruction without operand. -/
def op (asm : Assembler) (opcode : OpCode) : Assembler :=
  asm.emit ⟨opcode, none⟩

/-- Appends an instruction with an operand. -/
def opWith (asm : Assembler) (opcode : OpCode) (operand : Operand) : Assembler :=
  asm.emit ⟨opcode, some operand⟩

/-- The index of an atom, which is added at the end if it is new. -/
def intern (asm : Assembler) (name : String) : Nat × Assembler :=
  match asm.index[name]? with
  | some index => (index, asm)
  | none =>
    (asm.atoms.size,
      { asm with
        atoms := asm.atoms.push name
        index := asm.index.insertIfNew name asm.atoms.size })

/-- Appends an instruction that refers to an atom. -/
def opAtom (asm : Assembler) (opcode : OpCode) (name : String) : Assembler :=
  let (index, asm) := asm.intern name
  asm.opWith opcode (.atom index)

/-! ## Labels and jumps

A label is its number, so a label of another unit, or of an earlier state of this one, is taken for
the one that has its number here. -/

/-- Allocates a label whose position is not known yet. -/
def newLabel (asm : Assembler) : Label × Assembler :=
  (⟨asm.labels.size⟩, { asm with labels := asm.labels.push (.pending []) })

/-- Allocates a label at the current position. -/
def labelHere (asm : Assembler) : Label × Assembler :=
  (⟨asm.labels.size⟩, { asm with labels := asm.labels.push (.fixed asm.position) })

/-- Whether a label has a position. -/
def isFixed (asm : Assembler) (l : Label) : Bool :=
  asm.labels[l.index]?.any LabelState.isFixed

/-- Appends a jump. A label that was never allocated stays in the code, and no later label with its
number resolves it. -/
def jump (asm : Assembler) (opcode : OpCode) (l : Label) : Assembler :=
  match asm.labels[l.index]? with
  | some (.fixed position) => asm.opWith opcode (.jump position)
  | some (.pending sites) =>
    let labels := asm.labels.setIfInBounds l.index (.pending (asm.position :: sites))
    { asm with labels }.opWith opcode (.label l)
  | none => asm.opWith opcode (.label l)

/-- Gives the instruction at `site` a jump target for its operand. -/
def patch (target : Nat) (code : Array Instruction) (site : Nat) : Array Instruction :=
  code.modify site fun i => { i with operand := some (.jump target) }

/-- Why a label cannot be given the current position. -/
def fixError? (asm : Assembler) (l : Label) : Option Error :=
  match asm.labels[l.index]? with
  | none => some (.unknownLabel l)
  | some (.fixed position) => some (.labelFixedTwice l position asm.position)
  | some (.pending _) => none

/-- Gives a label that waits for one the current position, and the jumps that wait for the label
their target. -/
def settle (asm : Assembler) (l : Label) : Assembler :=
  match asm.labels[l.index]? with
  | some (.pending sites) =>
    { asm with
      labels := asm.labels.setIfInBounds l.index (.fixed asm.position)
      code := sites.foldl (patch asm.position) asm.code }
  | _ => asm

/-- Gives a label the current position. -/
def fix (asm : Assembler) (l : Label) : Except Error Assembler :=
  match asm.fixError? l with
  | some e => .error e
  | none => .ok (asm.settle l)

/-! ## Closing

The numbers of labels and of jumps that were left over are counted separately, for the message. One
can be zero without the other: a label may be left without a position though nothing jumps to it,
and a jump to a label that was never allocated is left although every label has a position. -/

/-- The number of labels without a position. -/
def unfixed (asm : Assembler) : Nat :=
  asm.labels.countP fun state => !state.isFixed

/-- The number of instructions that still have a label for an operand. -/
def unresolved (asm : Assembler) : Nat :=
  asm.code.countP Instruction.isUnresolved

/-- Ends the unit with `stop`. -/
def close (asm : Assembler) : Except Error CodeUnit :=
  let asm := asm.op .stop
  if asm.unfixed = 0 ∧ asm.unresolved = 0 then
    .ok ⟨asm.scope, asm.filename, asm.line, asm.code, asm.atoms⟩
  else .error (.labelsLeftOpen asm.unfixed asm.unresolved)

end Assembler

end StackCode
