import StackCode.Proofs.Atoms
import StackCode.Proofs.WellFormed.Units

/-!
# The atoms of a compiled unit

The compiler interns a string only to write it into an instruction. So the table of a unit that it
builds lists the strings of the code in the order of their first use (`UnitSource.atoms_of_build`),
and the code with its strings in place of operands says all there is to know of both: units whose
instructions have the same strings have the same table, and under one table code is the same exactly
if it resolves to the same.

The converse direction of resolving operands is possible because the table has no repetitions: an
index can be found again from its string (`Op.toInstruction`). This is what makes equal resolved
code equal code.

Not every sequence of operations has this property. A caller may intern a string and write no
instruction for it, and then the table has a string that the code does not use. That the compiler
never does so is read off the logs of its runs.
-/

set_option autoImplicit false

namespace StackCode

/-- The string of an instruction. -/
def Op.text? (o : Op) : Option String :=
  match o.argument with
  | some (.text s) => some s
  | _ => none

/-! ## Resolving operands -/

/-- The operand that an argument was before it was looked up. -/
def Argument.toOperand (atoms : Array String) : Argument → Operand
  | .text s => .atom ((atoms.idxOf? s).getD 0)
  | .operand o => o

/-- An operand can be read back from what it resolves to. -/
theorem Operand.toOperand_resolve {atoms : Array String} (h : atoms.toList.Nodup) (o : Operand) :
    (o.resolve atoms).toOperand atoms = o := by
  cases o with
  | atom index =>
    cases hget : atoms[index]? with
    | some s => simp [resolve, hget, Argument.toOperand, (idxOf?_eq_some_iff h).mpr hget]
    | none => simp [resolve, hget, Argument.toOperand]
  | _ => rfl

/-- The instruction that was resolved, under the table that it was resolved with. -/
def Op.toInstruction (atoms : Array String) (o : Op) : Instruction :=
  ⟨o.opcode, o.argument.map (Argument.toOperand atoms)⟩

theorem Instruction.toInstruction_resolve {atoms : Array String} (h : atoms.toList.Nodup)
    (i : Instruction) :
    (i.resolve atoms).toInstruction atoms = i := by
  obtain ⟨opcode, operand⟩ := i
  have hoperand : (Argument.toOperand atoms ∘ Operand.resolve atoms) = id :=
    funext (Operand.toOperand_resolve h)
  simp [resolve, Op.toInstruction, hoperand]

/-- Under a table without repetitions, resolving the operands of some code loses nothing. -/
theorem CodeUnit.code_eq_iff_ops_eq {unit unit' : CodeUnit} (hnodup : unit.atoms.toList.Nodup)
    (hatoms : unit.atoms = unit'.atoms) : unit.code = unit'.code ↔ unit.ops = unit'.ops := by
  have hback : Op.toInstruction unit.atoms ∘ Instruction.resolve unit.atoms = id :=
    funext (Instruction.toInstruction_resolve hnodup)
  have hcode (code : Array Instruction) :
      (code.toList.map (Instruction.resolve unit.atoms)).map (Op.toInstruction unit.atoms) =
        code.toList := by
    rw [List.map_map, hback, List.map_id]
  unfold ops
  rw [← hatoms]
  constructor
  · intro h
    rw [h]
  · intro h
    have hlist := congrArg (List.map (Op.toInstruction unit.atoms)) h
    rw [hcode, hcode] at hlist
    exact Array.toList_inj.mp hlist

/-! ## The strings of a draft -/

namespace Draft

/-- The string that a line refers to, under a table of atoms. -/
def Line.text? (atoms : Array String) : Line → Option String
  | .plain i => (i.resolve atoms).text?
  | _ => none

/-- The strings of the code can be read off its lines, whatever positions the labels have. -/
theorem Line.text?_instruction (atoms : Array String) (position? : Label → Option Nat)
    (line : Line) :
    ((line.instruction position?).resolve atoms).text? = line.text? atoms := by
  cases line with
  | plain i => rfl
  | stray opcode l => rfl
  | jump opcode l =>
    simp only [Line.instruction]
    cases position? l <;> rfl

variable {vs : Binding → Prop} {d : Draft} {atoms : Array String}

/-- An instruction that is complete as it is emitted has no string. -/
theorem Line.text?_of_proper {i : Instruction} (h : i.Proper vs) :
    Line.text? atoms (.plain i) = none := by
  obtain ⟨opcode, operand⟩ := i
  cases operand with
  | none => rfl
  | some operand =>
    cases operand with
    | atom index => exact absurd h.paired.symm h.complete.1
    | _ => rfl

/-- **One operation** writes a line with the string that it interns, or no line with a string. -/
theorem texts_step {o : Operation} (ho : o.Proper vs)
    (hatoms : (d.step o).atoms.toList <+: atoms.toList) :
    (d.step o).lines.filterMap (Line.text? atoms) =
      d.lines.filterMap (Line.text? atoms) ++ o.name?.toList := by
  have hwrite {i : Instruction} (hi : i.Proper vs) :
      (d.write i).lines.filterMap (Line.text? atoms) =
        d.lines.filterMap (Line.text? atoms) ++ [] := by
    simp [write, Line.text?_of_proper hi]
  cases o with
  | emit i => exact hwrite ho
  | op opcode => exact hwrite ho
  | opWith opcode operand => exact hwrite ho
  | intern name =>
    -- The compiler interns a string only for an instruction.
    cases ho
  | newLabel => exact (List.append_nil _).symm
  | labelHere => exact (List.append_nil _).symm
  | fix l =>
    show (d.fix l).lines.filterMap _ = _
    rw [fix_lines]
    exact (List.append_nil _).symm
  | jump opcode l =>
    have hnone :
        Line.text? atoms
          (if l.index < d.positions.length then .jump opcode l else .stray opcode l) = none := by
      split <;> rfl
    show (d.lines ++ [_]).filterMap _ = _
    simp [hnone, Operation.name?]
  | opAtom opcode name =>
    have hget : atoms[(d.intern name).1]? = some name :=
      getElem?_of_prefix hatoms (d.getElem?_intern name)
    have hline :
        Line.text? atoms (.plain ⟨opcode, some (.atom (d.intern name).1)⟩) = some name := by
      simp [Line.text?, Instruction.resolve, Operand.resolve, hget, Op.text?]
    show ((d.intern name).2.lines ++ [_]).filterMap _ = _
    rw [lines_intern, List.filterMap_append]
    simp [hline, Operation.name?]

/-- **Any sequence of operations.** -/
theorem texts_perform {os : List Operation} (hos : ∀ o ∈ os, o.Proper vs)
    (hatoms : (d.perform os).atoms.toList <+: atoms.toList) :
    (d.perform os).lines.filterMap (Line.text? atoms) =
      d.lines.filterMap (Line.text? atoms) ++ os.filterMap Operation.name? := by
  induction os generalizing d with
  | nil => exact (List.append_nil _).symm
  | cons o os ih =>
    obtain ⟨ho, hos⟩ := List.forall_mem_cons.mp hos
    have hrest := ih hos hatoms
    rw [texts_step ho (((d.step o).extends_perform os).atoms.trans hatoms)] at hrest
    show ((d.step o).perform os).lines.filterMap _ = _
    rw [hrest]
    cases hname : o.name? <;> simp [hname]

end Draft

/-! ## Units -/

namespace UnitSource

variable {source source' : UnitSource} {filename filename' : String} {fold fold' : Bool}
    {unit unit' : CodeUnit}

/-- **The table of a unit lists the strings of its code in the order of their first use.** -/
theorem atoms_of_build (hbuild : source.build filename fold = .ok unit) :
    unit.atoms.toList = (unit.ops.filterMap Op.text?).eraseDups := by
  obtain ⟨os, hos, hclose⟩ := exists_log (fun _ => True) (fun _ _ => trivial) hbuild
  obtain ⟨-, -, hunit⟩ := (Draft.close_eq_ok_iff _ unit).mp hclose
  let d := (source.draft filename).perform os
  have htable : d.atoms.toList = (os.filterMap Operation.name?).eraseDups :=
    ((Draft.interned_start source.scope filename source.line).perform os).table
  have htexts : d.lines.filterMap (Draft.Line.text? d.atoms) = os.filterMap Operation.name? :=
    Draft.texts_perform (d := source.draft filename) hos (List.prefix_refl _)
  have hops : unit.ops = d.lines.map (fun line => (line.instruction d.position?).resolve d.atoms) ++
      [⟨.stop, none⟩] := by
    rw [hunit]
    simp [CodeUnit.ops, Draft.toAssembler, d, Instruction.resolve, Function.comp_def]
  rw [hops, List.filterMap_append, List.filterMap_map]
  have hline : Op.text? ∘ (fun line => (line.instruction d.position?).resolve d.atoms) =
      Draft.Line.text? d.atoms :=
    funext (Draft.Line.text?_instruction d.atoms d.position?)
  have hstop : [Op.mk .stop none].filterMap Op.text? = [] := rfl
  rw [hline, htexts, hstop, List.append_nil, hunit]
  exact htable

theorem nodup_atoms_of_build (hbuild : source.build filename fold = .ok unit) :
    unit.atoms.toList.Nodup := by
  obtain ⟨os, -, hclose⟩ := exists_log (fun _ => True) (fun _ _ => trivial) hbuild
  obtain ⟨-, -, rfl⟩ := (Draft.close_eq_ok_iff _ unit).mp hclose
  exact ((Draft.interned_start source.scope filename source.line).perform os).nodup

/-- Units whose instructions have the same strings have the same table. -/
theorem atoms_eq_of_texts_eq (hbuild : source.build filename fold = .ok unit)
    (hbuild' : source'.build filename' fold' = .ok unit')
    (htexts : unit.ops.map Op.text? = unit'.ops.map Op.text?) : unit.atoms = unit'.atoms := by
  have hsame : unit.ops.filterMap Op.text? = unit'.ops.filterMap Op.text? := by
    simpa [List.filterMap_map] using congrArg (List.filterMap id) htexts
  exact Array.toList_inj.mp (by rw [atoms_of_build hbuild, hsame, atoms_of_build hbuild'])

end UnitSource

end StackCode
