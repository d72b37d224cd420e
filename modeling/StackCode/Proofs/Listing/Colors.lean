import StackCode.Proofs.Listing.Display
import StackCode.Proofs.Text.Ansi

/-!
# Coloured listings

A listing is a sequence of parts, each with its role or with none. The coloured listing and the
plain one have the same parts; they differ in how a part with a role is shown. So it is enough to
look at one part: it has no escape character of its own, and without its colour sequences it is what
the plain listing shows.

The name of a file is shown as it was given. If it has an escape character in it, what a terminal
makes of the listing cannot be known, so such names are excepted; strings of the code are quoted,
and their escape characters are not shown as they are.

That the coloured listing has colours at all is part of the statement, as a count of its sequences.
Without it, a listing that ignores the setting would satisfy everything else.
-/

set_option autoImplicit false

namespace StackCode

open Text (stripColors stripColors_nil stripColors_append stripColors_paint)

/-! ## Parts -/

namespace Listing

/-- A piece of a listing. One without a role is never painted. -/
structure Part where
  role : Option Role
  text : String

namespace Part

def render (color : Bool) (part : Part) : String :=
  match part.role with
  | some role => role.render color part.text
  | none => part.text

/-- The part has nothing in it that a terminal would take for the start of a control sequence. -/
def Clean (part : Part) : Prop :=
  '\x1b' ∉ part.text.toList

/-- A painted part is the part again without its sequences. -/
theorem stripColors_render {part : Part} (h : part.Clean) (rest : List Char) :
    stripColors ((part.render true).toList ++ rest) = (part.render false).toList ++
      stripColors rest := by
  obtain ⟨role, text⟩ := part
  cases role with
  | some role => exact stripColors_paint role.style h rest
  | none => exact stripColors_append h rest

theorem count_render {part : Part} (h : part.Clean) :
    (part.render true).toList.count '\x1b' = if part.role.isSome then 2 else 0 := by
  obtain ⟨role, text⟩ := part
  cases role with
  | some role => exact role.style.count_escape_paint h
  | none => exact List.count_eq_zero_of_not_mem h

end Part

/-- The text of parts in order. -/
def render (color : Bool) (parts : List Part) : String :=
  String.join (parts.map (Part.render color))

@[simp]
theorem render_nil (color : Bool) : render color [] = "" := rfl

@[simp]
theorem render_cons (color : Bool) (part : Part) (parts : List Part) :
    render color (part :: parts) = part.render color ++ render color parts := by
  rw [render, List.map_cons, String.join_cons, render]

theorem render_append (color : Bool) (parts parts' : List Part) :
    render color (parts ++ parts') = render color parts ++ render color parts' := by
  rw [render, List.map_append, String.join_append, render, render]

/-- **Without its colour sequences, a coloured text is the plain one.** -/
theorem stripColors_render {parts : List Part} (h : ∀ part ∈ parts, part.Clean) :
    stripColors (render true parts).toList = (render false parts).toList := by
  induction parts with
  | nil => exact stripColors_nil
  | cons part parts ih =>
    obtain ⟨hpart, hparts⟩ := List.forall_mem_cons.mp h
    rw [render_cons, render_cons, String.toList_append, String.toList_append,
      Part.stripColors_render hpart, ih hparts]

/-- Every part with a role is painted, and no other. -/
theorem count_render {parts : List Part} (h : ∀ part ∈ parts, part.Clean) :
    (render true parts).toList.count '\x1b' = 2 * parts.countP fun part => part.role.isSome := by
  induction parts with
  | nil => rfl
  | cons part parts ih =>
    obtain ⟨hpart, hparts⟩ := List.forall_mem_cons.mp h
    rw [render_cons, String.toList_append, List.count_append, Part.count_render hpart, ih hparts,
      List.countP_cons]
    split
    · omega
    · omega

end Listing

open Listing

/-! ## The parts of a unit

The listing of a unit is defined as a text. Here it is given in parts, once, and both listings are
shown to be these parts. -/

namespace CodeUnit

/-- The line of an instruction in parts. -/
def lineParts (unit : CodeUnit) (index : Nat) (i : Instruction) : List Part :=
  match i.operand with
  | some operand =>
    [⟨some .offset, offset index⟩, ⟨none, "  "⟩, ⟨some .mnemonic, column i.opcode.name⟩,
      ⟨none, " "⟩, ⟨some (.ofOperand operand), unit.operandText operand⟩, ⟨none, "\n"⟩]
  | none =>
    [⟨some .offset, offset index⟩, ⟨none, "  "⟩, ⟨some .mnemonic, i.opcode.name⟩, ⟨none, "\n"⟩]

/-- The lines of instructions that stand behind `index` others, in parts. -/
def partsFrom (unit : CodeUnit) (index : Nat) : List Instruction → List Part
  | [] => []
  | i :: code => unit.lineParts index i ++ unit.partsFrom (index + 1) code

def parts (unit : CodeUnit) : List Part :=
  ⟨some .header, unit.header⟩ :: ⟨none, "\n"⟩ :: unit.partsFrom 0 unit.code.toList

theorem instructionLine_eq_render (unit : CodeUnit) (color : Bool) (index : Nat) (i : Instruction) :
    unit.instructionLine color index i = render color (unit.lineParts index i) := by
  unfold instructionLine lineParts
  cases i.operand with
  | some operand =>
    simp only [render_cons, render_nil, Part.render, String.append_empty, ← String.append_assoc]
    rfl
  | none =>
    simp only [render_cons, render_nil, Part.render, String.append_empty, ← String.append_assoc]
    rfl

theorem listing_eq_render (unit : CodeUnit) (color : Bool) :
    unit.listing color = render color unit.parts := by
  have hlines :=
    join_zipIdx (unit.instructionLine color)
      (fun index code => render color (unit.partsFrom index code))
    (fun _ => rfl)
    (fun index i code => by rw [partsFrom, render_append, instructionLine_eq_render]) 0
      unit.code.toList
  rw [parts, render_cons, render_cons, ← hlines, ← String.append_assoc]
  rfl

/-- Nothing in a line is an escape character: names of operations and numbers have none, and strings
are quoted. -/
theorem clean_lineParts (unit : CodeUnit) (index : Nat) (i : Instruction) :
    ∀ part ∈ unit.lineParts index i, part.Clean := by
  have hescape : '\x1b'.toNat < 0x20 := by decide
  have hname := i.opcode.printable_name
  unfold lineParts
  cases i.operand with
  | some operand =>
    have hoperand := (unit.printable_operandText operand).notMem hescape
    have hcolumn := (printable_column hname).notMem hescape
    have hoffset := (printable_offset index).notMem hescape
    simp [Part.Clean, hoperand, hcolumn, hoffset]
  | none =>
    have hoffset := (printable_offset index).notMem hescape
    simp [Part.Clean, hname.notMem hescape, hoffset]

theorem clean_partsFrom (unit : CodeUnit) (index : Nat) (code : List Instruction) :
    ∀ part ∈ unit.partsFrom index code, part.Clean := by
  induction code generalizing index with
  | nil => exact fun _ hpart => absurd hpart List.not_mem_nil
  | cons i code ih =>
    intro part hpart
    rcases List.mem_append.mp hpart with hpart | hpart
    · exact unit.clean_lineParts index i part hpart
    · exact ih (index + 1) part hpart

/-- The name of the file is the only text of a unit that is shown as it is. -/
theorem clean_parts {unit : CodeUnit} (h : '\x1b' ∉ unit.filename.toList) :
    ∀ part ∈ unit.parts, part.Clean := by
  have hescape : '\x1b'.toNat < 0x20 := by decide
  have hnumber : ∀ n : Nat, '\x1b' ∉ (toString n).toList :=
    fun n => (printable_toString n).notMem hescape
  have hheader : '\x1b' ∉ unit.header.toList := by
    rw [header_eq]
    simp only [String.toList_append, List.mem_append, not_or, hnumber, h,
      not_false_eq_true, and_true]
    decide
  intro part hpart
  rcases List.mem_cons.mp hpart with rfl | hpart
  · exact hheader
  rcases List.mem_cons.mp hpart with rfl | hpart
  · show '\x1b' ∉ "\n".toList
    decide
  · exact unit.clean_partsFrom 0 _ part hpart

/-- Each line has a painted offset and a painted name, and a painted operand if there is one. -/
theorem countP_partsFrom (unit : CodeUnit) (index : Nat) (code : List Instruction) :
    ((unit.partsFrom index code).countP fun part => part.role.isSome) =
      2 * code.length + code.countP fun i => i.operand.isSome := by
  induction code generalizing index with
  | nil => rfl
  | cons i code ih =>
    rw [partsFrom, List.countP_append, ih, List.countP_cons, List.length_cons]
    unfold lineParts
    cases i.operand with
    | some operand => simp; omega
    | none => simp; omega

/-- One style for the header, two for each instruction, and one more for each operand. -/
theorem countP_parts (unit : CodeUnit) :
    (unit.parts.countP fun part => part.role.isSome) =
      1 + 2 * unit.code.toList.length + unit.code.toList.countP fun i => i.operand.isSome := by
  rw [parts, List.countP_cons_of_pos rfl, List.countP_cons_of_neg (by simp), countP_partsFrom]
  omega

end CodeUnit

/-! ## The parts of an object file

An empty line in front of each unit but the first is no part of any unit and is not painted. -/

namespace ObjectFile

def parts (file : ObjectFile) : List Part :=
  match file.units.toList with
  | [] => []
  | unit :: units => unit.parts ++ units.flatMap fun unit => ⟨none, "\n"⟩ :: unit.parts

theorem listing_eq_render (file : ObjectFile) (color : Bool) :
    file.listing color = render color file.parts := by
  unfold listing parts
  cases file.units.toList with
  | nil => rfl
  | cons unit units =>
    rw [List.map_cons, intercalate_cons, List.map_map, render_append, unit.listing_eq_render]
    congr 1
    induction units with
    | nil => rfl
    | cons unit units ih =>
      rw [List.map_cons, String.join_cons, ih, List.flatMap_cons, render_append, render_cons]
      simp only [Function.comp_apply, unit.listing_eq_render]
      rfl

theorem clean_parts {file : ObjectFile} (h : ∀ unit ∈ file.units, '\x1b' ∉ unit.filename.toList) :
    ∀ part ∈ file.parts, part.Clean := by
  have hunits : ∀ unit ∈ file.units.toList, ∀ part ∈ unit.parts, part.Clean :=
    fun unit hunit => CodeUnit.clean_parts (h unit (Array.mem_toList_iff.mp hunit))
  unfold parts
  cases hlist : file.units.toList with
  | nil => exact fun _ hpart => absurd hpart List.not_mem_nil
  | cons unit units =>
    rw [hlist] at hunits
    intro part hpart
    rcases List.mem_append.mp hpart with hpart | hpart
    · exact hunits unit List.mem_cons_self part hpart
    · obtain ⟨unit', hunit', hpart⟩ := List.mem_flatMap.mp hpart
      rcases List.mem_cons.mp hpart with rfl | hpart
      · show '\x1b' ∉ "\n".toList
        decide
      · exact hunits unit' (List.mem_cons_of_mem _ hunit') part hpart

/-- The instructions of all units, in the order of the listing. -/
def instructions (file : ObjectFile) : List Instruction :=
  file.units.toList.flatMap fun unit => unit.code.toList

theorem countP_flatMap_parts (units : List CodeUnit) :
    ((units.flatMap fun unit => ⟨none, "\n"⟩ :: unit.parts).countP fun part => part.role.isSome) =
      units.length + 2 * (units.flatMap fun unit => unit.code.toList).length +
        (units.flatMap fun unit => unit.code.toList).countP fun i => i.operand.isSome := by
  induction units with
  | nil => rfl
  | cons unit units ih =>
    rw [List.flatMap_cons, List.countP_append, List.countP_cons_of_neg (by simp), unit.countP_parts,
      ih, List.flatMap_cons, List.length_append, List.countP_append, List.length_cons]
    omega

/-- One style for each header, two for each instruction, and one more for each operand. -/
theorem countP_parts (file : ObjectFile) :
    (file.parts.countP fun part => part.role.isSome) =
      file.units.size + 2 * file.instructions.length + file.instructions.countP fun i =>
        i.operand.isSome := by
  unfold parts instructions
  rw [← Array.length_toList]
  cases file.units.toList with
  | nil => rfl
  | cons unit units =>
    rw [List.countP_append, unit.countP_parts, countP_flatMap_parts, List.flatMap_cons,
      List.length_append, List.countP_append, List.length_cons]
    omega

end ObjectFile

/-- **Coloured and plain listings agree.** If no name of a file has an escape character, the
coloured listing without its colour sequences is the plain listing, and the plain listing is what
the plain printer gives. The coloured one is painted: it switches a style on and off again for each
header, index, name and operand. -/
theorem listing_without_colors {file : ObjectFile}
    (h : ∀ unit ∈ file.units, '\x1b' ∉ unit.filename.toList) :
    stripColors (file.listing true).toList = (file.listing false).toList ∧
    file.listing false = file.display ∧
      (file.listing true).toList.count '\x1b' =
        2 * (file.units.size + 2 * file.instructions.length +
          file.instructions.countP fun i => i.operand.isSome) := by
  have hclean := file.clean_parts h
  refine ⟨?_, file.listing_false, ?_⟩
  · rw [file.listing_eq_render, file.listing_eq_render]
    exact stripColors_render hclean
  · rw [file.listing_eq_render, count_render hclean, file.countP_parts]

/-- A function that is not finished, and a script with an atom that would turn the terminal red. -/
def ObjectFile.redAtom : ObjectFile where
  units :=
    #[⟨{ parameters := #["n"] }, "red [0m.js", 7,
        #[⟨.goto, some (.label ⟨3⟩)⟩, ⟨.callGlobal, some (.atom 5)⟩], #[]⟩,
      ⟨{}, "red [0m.js", 1,
        #[⟨.string, some (.atom 0)⟩, ⟨.popv, none⟩, ⟨.stop, none⟩], #["\x1b[31m\n"]⟩]

/-- The atom holds the sequence that would turn the terminal red, and is shown quoted. -/
theorem listing_without_colors_redAtom :
    (∀ unit ∈ ObjectFile.redAtom.units, '\x1b' ∉ unit.filename.toList) ∧
      String.ofList (stripColors (ObjectFile.redAtom.listing true).toList) =
        "; red [0m.js:7 nargs=1 nfixed=0\n0000  goto       L3\n0001  callgname  <atom 5>\n\n" ++
          "; red [0m.js:1 nargs=0 nfixed=0\n0000  string     \"\\u\x7b1b\x7d[31m\\n\"\n0001  popv\n0002  stop\n" ∧
      (ObjectFile.redAtom.listing true).toList.count '\x1b' = 30 := by
  have hnames : ∀ unit ∈ ObjectFile.redAtom.units, '\x1b' ∉ unit.filename.toList := by decide
  obtain ⟨hstrip, -, hcount⟩ := listing_without_colors hnames
  refine ⟨hnames, ?_, hcount⟩
  rw [hstrip, String.ofList_toList]
  decide +kernel

end StackCode
