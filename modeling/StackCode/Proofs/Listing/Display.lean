import StackCode.Listing
import StackCode.Proofs.Text.Quoted

/-!
# Plain listings

The plain listing of an object file is what a printer gives that has never heard of colours: line
after line, with an empty line between two units. Apart from the name of the file in the headers,
which may be any text, the characters of a line are no control characters.

The printer of listings has its setting for colours threaded through every line. A reader of a plain
listing need not know of it, and neither need a proof about one: `display` has no such setting and
is equal to the listing without colours (`listing_false`).

The lemmas on characters are for taking a listing apart. A line ends at its line break only if there
is none inside of it.
-/

set_option autoImplicit false

namespace StackCode

open Text (Printable printable_of_isDigit printable_quote)

/-- Numbered lines, one after another. -/
theorem Listing.join_zipIdx (line : Nat → Instruction → String)
    (lines : Nat → List Instruction → String) (hnil : ∀ index, lines index [] = "")
    (hcons : ∀ index i code, lines index (i :: code) = line index i ++ lines (index + 1) code)
    (index : Nat) (code : List Instruction) :
    String.join ((code.zipIdx index).map fun (i, index) => line index i) = lines index code := by
  induction code generalizing index with
  | nil => rw [List.zipIdx_nil, List.map_nil, String.join_nil, hnil]
  | cons i code ih => rw [List.zipIdx_cons, List.map_cons, String.join_cons, ih, hcons]

/-! ## The plain printer

Line by line, in the order of the code. -/

namespace CodeUnit

/-- The line of an instruction: its index, its name, and its operand in a column of its own. -/
def displayLine (unit : CodeUnit) (index : Nat) (i : Instruction) : String :=
  match i.operand with
  | some operand =>
    Listing.offset index ++ "  " ++ Listing.column i.opcode.name ++ " " ++
      unit.operandText operand ++ "\n"
  | none => Listing.offset index ++ "  " ++ i.opcode.name ++ "\n"

/-- The lines of instructions that stand behind `index` others. -/
def displayFrom (unit : CodeUnit) (index : Nat) : List Instruction → String
  | [] => ""
  | i :: code => unit.displayLine index i ++ unit.displayFrom (index + 1) code

/-- The text of a unit. -/
def display (unit : CodeUnit) : String :=
  unit.header ++ "\n" ++ unit.displayFrom 0 unit.code.toList

theorem header_eq (unit : CodeUnit) :
    unit.header = "; " ++ unit.filename ++ ":" ++ toString unit.line.toNat ++ " nargs=" ++
      toString unit.scope.parameters.size ++ " nfixed=" ++ toString unit.scope.locals.size :=
  rfl

theorem instructionLine_false (unit : CodeUnit) (index : Nat) (i : Instruction) :
    unit.instructionLine false index i = unit.displayLine index i := by
  unfold instructionLine displayLine
  cases i.operand with
  | none => rfl
  | some operand => rfl

theorem listing_false (unit : CodeUnit) : unit.listing false = unit.display := by
  have hlines := Listing.join_zipIdx (unit.instructionLine false) unit.displayFrom (fun _ => rfl)
    (fun index i code => by rw [displayFrom, instructionLine_false]) 0 unit.code.toList
  unfold display
  rw [← hlines]
  rfl

end CodeUnit

namespace ObjectFile

/-- The text of an object file: that of its first unit, and for each other unit an empty line and
its text. -/
def display (file : ObjectFile) : String :=
  match file.units.toList with
  | [] => ""
  | unit :: units => unit.display ++ String.join (units.map fun unit => "\n" ++ unit.display)

/-- What stands between two texts, in front of each but the first. -/
theorem intercalate_cons (separator text : String) (texts : List String) :
    separator.intercalate (text :: texts) = text ++
      String.join (texts.map fun text => separator ++ text) := by
  induction texts generalizing text with
  | nil => simp
  | cons text' texts ih =>
    rw [String.intercalate_cons_cons, ih text', List.map_cons, String.join_cons,
      String.append_assoc, String.append_assoc]

theorem listing_false (file : ObjectFile) : file.listing false = file.display := by
  unfold listing display
  simp only [CodeUnit.listing_false]
  cases file.units.toList with
  | nil => rfl
  | cons unit units =>
    rw [List.map_cons, intercalate_cons, List.map_map]
    rfl

end ObjectFile

/-! ## The characters of a line

Digits, letters and blanks, and whatever a quoted string has in it. -/

namespace Listing

theorem isDigit_toString (n : Nat) : ∀ c ∈ (toString n).toList, c.isDigit := by
  intro c hc
  rw [Nat.toString_eq_repr, Nat.repr_eq_ofList_toDigits, String.toList_ofList] at hc
  exact Nat.isDigit_of_mem_toDigits (by decide) (by decide) hc

theorem isDigit_offset (n : Nat) : ∀ c ∈ (offset n).toList, c.isDigit := by
  intro c hc
  rw [offset, String.toList_ofList, List.mem_append] at hc
  rcases hc with hc | hc
  · rw [List.eq_of_mem_replicate hc]
    decide
  · exact Nat.isDigit_of_mem_toDigits (by decide) (by decide) hc

theorem printable_toString (n : Nat) : Printable (toString n).toList :=
  printable_of_isDigit (isDigit_toString n)

theorem printable_toString_int (z : Int) : Printable (toString z).toList := by
  rw [Int.toString_eq_repr, Int.repr_eq_if]
  split
  · exact printable_toString z.toNat
  · rw [String.toList_append]
    exact Printable.append (by decide) (printable_toString (-z).toNat)

theorem printable_offset (n : Nat) : Printable (offset n).toList :=
  printable_of_isDigit (isDigit_offset n)

theorem printable_column {name : String} (h : Printable name.toList) :
    Printable (column name).toList := by
  rw [column, String.toList_append, String.toList_ofList]
  refine h.append fun c hc => ?_
  rw [List.eq_of_mem_replicate hc]
  decide

end Listing

theorem OpCode.printable_name (opcode : OpCode) : Printable opcode.name.toList := by
  cases opcode <;> decide

/-- The text of an operand has no control character, whatever is in the atom table. -/
theorem CodeUnit.printable_operandText (unit : CodeUnit) (operand : Operand) :
    Printable (unit.operandText operand).toList := by
  cases operand with
  | slot n => exact Listing.printable_toString n.toNat
  | atom index =>
    have hopen : Printable "<atom ".toList := by decide
    have hclose : Printable ">".toList := by decide
    rw [operandText]
    cases unit.atoms[index]? with
    | some text => exact printable_quote text
    | none =>
      show Printable ("<atom " ++ toString index ++ ">").toList
      rw [String.toList_append, String.toList_append]
      exact (hopen.append (Listing.printable_toString index)).append hclose
  | int8 value => exact Listing.printable_toString_int value.toInt
  | uint16 value => exact Listing.printable_toString value.toNat
  | uint24 value => exact Listing.printable_toString value.toNat
  | int32 value => exact Listing.printable_toString_int value.toInt
  | argCount n => exact Listing.printable_toString n.toNat
  | length n => exact Listing.printable_toString n
  | jump target => exact Listing.printable_offset target
  | label l =>
    have hmark : Printable "L".toList := by decide
    show Printable ("L" ++ toString l.index).toList
    rw [String.toList_append]
    exact hmark.append (Listing.printable_toString l.index)

end StackCode
