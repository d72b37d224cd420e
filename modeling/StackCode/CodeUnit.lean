import StackCode.Instruction
import StackCode.Scope

/-!
# Finished units and object files

A unit is the code of one function body or of the top level of a script. An object file holds the
units of a script: its functions in the order of their declaration, then the top level.

A unit has no name. Which function it comes from can be told from its place in the file, and
messages that are given while it is compiled take the name from the tree.

Code refers to atoms by their index, and positions are indices of instructions. How a unit would be
laid out in bytes is left open; nothing that is printed depends on it.
-/

set_option autoImplicit false

namespace StackCode

/-- The finished code of a function body or of the top level. -/
@[ext]
structure CodeUnit where
  scope : Scope
  filename : String
  line : UInt32
  code : Array Instruction
  /-- The names and string constants that instructions refer to by index. -/
  atoms : Array String
deriving DecidableEq

/-- The operations of a unit in order. -/
def CodeUnit.opcodes (unit : CodeUnit) : List OpCode :=
  unit.code.toList.map Instruction.opcode

/-- The units of a script. -/
structure ObjectFile where
  units : Array CodeUnit := #[]
deriving DecidableEq

namespace ObjectFile

/-- Adds a unit at the end. -/
def push (file : ObjectFile) (unit : CodeUnit) : ObjectFile :=
  { file with units := file.units.push unit }

/-- The last unit. -/
def toplevel? (file : ObjectFile) : Option CodeUnit :=
  file.units.back?

/-- All units but the last. -/
def functions (file : ObjectFile) : Array CodeUnit :=
  file.units.pop

end ObjectFile

end StackCode
