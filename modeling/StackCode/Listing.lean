import StackCode.CodeUnit
import StackCode.Text.Ansi
import StackCode.Text.Quoted

/-!
# Listings

The printed form of units and object files: a header line for each unit, then one line for each
instruction with its index, its mnemonic and its operand. A coloured listing has the same text with
each part of a line in the style of its role.

The width of a column depends on the operation alone and not on the other lines, so that a line can
be written before the next one is known. Atoms are quoted; the name of the file in a header is not.
-/

set_option autoImplicit false

namespace StackCode

open Text (Style quote)

namespace Listing

/-- The parts of a listing that a coloured one tells apart. -/
inductive Role where
  | header | offset | mnemonic | atom | target | number
deriving DecidableEq

/-- The style of each part. -/
def Role.style : Role → Style
  | .header | .offset => .dim
  | .mnemonic => .green
  | .atom => .yellow
  | .target => .magenta
  | .number => .cyan

/-- The text of a part, in its style if `color` is set. -/
def Role.render (color : Bool) (role : Role) (text : String) : String :=
  if color then role.style.paint text else text

/-- The part of a listing that an operand is. -/
def Role.ofOperand : Operand → Role
  | .atom _ => .atom
  | .jump _ | .label _ => .target
  | _ => .number

/-- A number with leading zeros up to four digits. -/
def offset (n : Nat) : String :=
  let digits := Nat.toDigits 10 n
  String.ofList (List.replicate (4 - digits.length) '0' ++ digits)

/-- A mnemonic with blanks up to ten characters. -/
def column (name : String) : String :=
  name ++ String.ofList (List.replicate (10 - name.length) ' ')

end Listing

open Listing

namespace CodeUnit

/-- An operand as listings show it. An atom is shown by its text. -/
def operandText (unit : CodeUnit) : Operand → String
  | .slot n => toString n.toNat
  | .atom index =>
    match unit.atoms[index]? with
    | some text => quote text
    | none => s!"<atom {index}>"
  | .int8 value => toString value.toInt
  | .uint16 value => toString value.toNat
  | .uint24 value => toString value.toNat
  | .int32 value => toString value.toInt
  | .argCount n => toString n.toNat
  | .length n => toString n
  | .jump target => offset target
  | .label l => s!"L{l.index}"

/-- The first line of a unit: where it comes from and how many slots it has. -/
def header (unit : CodeUnit) : String :=
  s!"; {unit.filename}:{unit.line.toNat} nargs={unit.scope.parameters.size} nfixed={unit.scope.locals.size}"

/-- The line of the instruction with a given index. -/
def instructionLine (unit : CodeUnit) (color : Bool) (index : Nat) (i : Instruction) : String :=
  let position := Role.offset.render color (offset index)
  match i.operand with
  | some operand =>
    let name := Role.mnemonic.render color (column i.opcode.name)
    let text := (Role.ofOperand operand).render color (unit.operandText operand)
    s!"{position}  {name} {text}\n"
  | none => s!"{position}  {Role.mnemonic.render color i.opcode.name}\n"

/-- The listing of a unit. -/
def listing (unit : CodeUnit) (color : Bool) : String :=
  let lines := unit.code.toList.zipIdx.map fun (i, index) => unit.instructionLine color index i
  Role.header.render color unit.header ++ "\n" ++ String.join lines

end CodeUnit

/-- The listing of an object file: those of its units, with an empty line between two. -/
def ObjectFile.listing (file : ObjectFile) (color : Bool) : String :=
  "\n".intercalate (file.units.toList.map fun unit => unit.listing color)

end StackCode
