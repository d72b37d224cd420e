import StackCode.Proofs.Draft

/-!
# One pass or two

The assembler writes a jump before the position of its label is known, and patches it when the label
is fixed. A two-pass assembler keeps a draft instead and reads the positions off a table at the end.
This file compares the two over every sequence of operations on a new unit, in any order, with
labels that were allocated, were not, or will be later, and with attempts to fix a label that fail.

The comparison is a simulation: `exec_step` says what one operation does to the unit of a draft, and
`perform_unit` follows for sequences. What closing a unit asks for is read off the draft
(`close_eq_ok_iff`).

An operation that gives a result, such as allocating a label, is performed here for its effect.
Which label it hands out is stated beside the sequence: the first one that was not handed out
before, so that a caller who uses the labels it was given never meets one of another.

The operations are those of an open unit, not only those that the compiler performs, and the labels
in them are arbitrary. A sequence may therefore jump to labels that do not exist, fix a label twice
or write `stop` in the middle; the statement says what comes of it. That the compiler does none of
this is another matter, and follows from what it does to trees.
-/

set_option autoImplicit false

namespace StackCode

/-- What can be done with an open unit. -/
inductive Operation where
  | emit (i : Instruction)
  | op (opcode : OpCode)
  | opWith (opcode : OpCode) (operand : Operand)
  | opAtom (opcode : OpCode) (name : String)
  | intern (name : String)
  | newLabel
  | labelHere
  | jump (opcode : OpCode) (l : Label)
  | fix (l : Label)

/-- The step of code generation that performs an operation. -/
def Operation.step : Operation → Gen Unit
  | .emit i => Gen.emit i
  | .op opcode => Gen.op opcode
  | .opWith opcode operand => Gen.opWith opcode operand
  | .opAtom opcode name => Gen.opAtom opcode name
  | .intern name => Gen.assemble fun asm => (asm.intern name).2
  | .newLabel => do
    let _ ← Gen.newLabel
  | .labelHere => do
    let _ ← Gen.labelHere
  | .jump opcode l => Gen.jump opcode l
  | .fix l => Gen.fix l

/-- Performs operations in order. One that fails does not end the sequence: the next one finds the
unit as the failed one left it. -/
def OpenUnit.perform (unit : OpenUnit) : List Operation → OpenUnit
  | [] => unit
  | o :: os => ((o.step.exec unit).2).perform os

namespace Draft

/-- The first pass over one operation. -/
def step (d : Draft) : Operation → Draft
  | .emit i => d.write i
  | .op opcode => d.write ⟨opcode, none⟩
  | .opWith opcode operand => d.write ⟨opcode, some operand⟩
  | .opAtom opcode name => d.writeAtom opcode name
  | .intern name => (d.intern name).2
  | .newLabel => d.newLabel
  | .labelHere => d.labelHere
  | .jump opcode l => d.jump opcode l
  | .fix l => d.fix l

/-- The first pass over operations in order. -/
def perform (d : Draft) (os : List Operation) : Draft :=
  os.foldl step d

/-- A label can be fixed exactly if it is allocated and has no position. -/
theorem fixError?_eq_none_iff {d : Draft} {l : Label} :
    d.fixError? l = none ↔ d.positions[l.index]? = some none := by
  unfold fixError?
  cases d.positions[l.index]? with
  | none => simp
  | some position => cases position <;> simp

theorem fix_eq_self {d : Draft} {l : Label} {e : Error} (h : d.fixError? l = some e) :
    d.fix l = d := by
  have hsome : ¬ d.positions[l.index]? = some none := fun hnone => by
    rw [fixError?_eq_none_iff.mpr hnone] at h
    cases h
  rw [fix, if_neg hsome]

/-- **One operation.** The unit of a draft becomes the unit of the draft after the operation. -/
theorem exec_step (d : Draft) (loops : LoopStack) (o : Operation) :
    (o.step.exec (d.unit loops)).2 = (d.step o).unit loops := by
  cases o with
  | emit i => exact congrArg Prod.snd (d.exec_emit loops i)
  | op opcode => exact congrArg Prod.snd (d.exec_op loops opcode)
  | opWith opcode operand => exact congrArg Prod.snd (d.exec_opWith loops opcode operand)
  | opAtom opcode name => exact congrArg Prod.snd (d.exec_opAtom loops opcode name)
  -- These three also give a result, which a sequence of operations drops.
  | intern name =>
    show OpenUnit.mk (d.toAssembler.intern name).2 loops = _
    rw [intern_toAssembler]
    rfl
  | newLabel =>
    show (Gen.exec (Gen.newLabel >>= fun _ => pure ()) (d.unit loops)).2 = _
    rw [Gen.exec_bind_ok _ (d.exec_newLabel loops)]
    rfl
  | labelHere =>
    show (Gen.exec (Gen.labelHere >>= fun _ => pure ()) (d.unit loops)).2 = _
    rw [Gen.exec_bind_ok _ (d.exec_labelHere loops)]
    rfl
  | jump opcode l => exact congrArg Prod.snd (d.exec_jump loops opcode l)
  | fix l =>
    show ((Gen.fix l).exec (d.unit loops)).2 = (d.fix l).unit loops
    rw [exec_fix]
    cases h : d.fixError? l with
    | none => rfl
    | some e => rw [fix_eq_self h]

/-- **Any sequence of operations.** -/
theorem perform_unit (d : Draft) (loops : LoopStack) (os : List Operation) :
    (d.unit loops).perform os = (d.perform os).unit loops := by
  induction os generalizing d with
  | nil => rfl
  | cons o os ih =>
    rw [OpenUnit.perform, exec_step, ih]
    rfl

/-- Whatever an operation is, it takes nothing back. -/
theorem extends_step (d : Draft) (o : Operation) : d.Extends (d.step o) := by
  cases o with
  | emit i => exact d.extends_write i
  | op opcode => exact d.extends_write _
  | opWith opcode operand => exact d.extends_write _
  | opAtom opcode name => exact d.extends_writeAtom opcode name
  | intern name => exact d.extends_intern name
  | newLabel => exact d.extends_newLabel
  | labelHere => exact d.extends_labelHere
  | jump opcode l => exact d.extends_jump opcode l
  | fix l => exact d.extends_fix l

theorem extends_perform (d : Draft) (os : List Operation) : d.Extends (d.perform os) := by
  induction os generalizing d with
  | nil => exact Extends.refl d
  | cons o os ih => exact (d.extends_step o).trans (ih (d.step o))

/-! ## Closing

Closing counts the labels without a position and the instructions with a label for their operand,
after `stop` has been added. Both counts are zero exactly if there are no such labels and no such
instructions, and `stop` adds to neither. -/

/-- The assembler counts no label without a position exactly if the table of the draft is
complete. -/
theorem unfixed_op_stop (d : Draft) :
    (d.toAssembler.op .stop).unfixed = 0 ↔
      ∀ l : Label, l.index < d.positions.length → ∃ p, d.position? l = some p := by
  unfold Assembler.unfixed
  rw [Array.countP_eq_zero]
  constructor
  · intro h l hl
    cases hp : d.positions[l.index] with
    | some p => exact ⟨p, by simp [position?, hl, hp]⟩
    | none =>
      -- A label without position is a pending entry, and those are counted.
      have hmem : labelState d.lines l.index none ∈ (d.toAssembler.op .stop).labels := by
        refine Array.mem_of_getElem? (i := l.index) ?_
        show d.toAssembler.labels[l.index]? = _
        rw [toAssembler_getElem?, List.getElem?_eq_getElem hl, hp]
        rfl
      exact absurd rfl (h _ hmem)
  · intro h state hstate
    obtain ⟨n, hn⟩ := Array.mem_iff_getElem?.mp hstate
    change d.toAssembler.labels[n]? = some state at hn
    rw [toAssembler_getElem?, Option.map_eq_some_iff] at hn
    obtain ⟨position, hget, rfl⟩ := hn
    obtain ⟨p, hp⟩ := h ⟨n⟩ (List.getElem?_eq_some_iff.mp hget).1
    rw [position?, hget] at hp
    cases hp
    simp [labelState, LabelState.isFixed]

theorem isUnresolved_iff {i : Instruction} :
    i.isUnresolved = true ↔ ∃ l, i.operand = some (.label l) := by
  unfold Instruction.isUnresolved
  cases h : i.operand with
  | none => simp
  | some operand => cases operand <;> simp [Operand.isLabel]

/-- It counts no instruction with a label exactly if there is none. The `stop` at the end has no
operand. -/
theorem unresolved_op_stop (asm : Assembler) :
    (asm.op .stop).unresolved = 0 ↔ ∀ i ∈ asm.code, ∀ l, i.operand ≠ some (.label l) := by
  unfold Assembler.unresolved
  rw [Array.countP_eq_zero]
  show (∀ i ∈ asm.code.push ⟨.stop, none⟩, _) ↔ _
  constructor
  · intro h i hi l hl
    exact h i (Array.mem_push_of_mem _ hi) (isUnresolved_iff.mpr ⟨l, hl⟩)
  · intro h i hi hun
    obtain ⟨l, hl⟩ := isUnresolved_iff.mp hun
    rcases Array.mem_push.mp hi with hi | rfl
    · exact h i hi l hl
    · cases hl

/-- Closing succeeds exactly when every label has a position and no instruction has a label. -/
theorem close_eq_ok_iff (d : Draft) (closed : CodeUnit) :
    d.toAssembler.close = .ok closed ↔
      (∀ l : Label, l.index < d.positions.length → ∃ p, d.position? l = some p) ∧
      (∀ i ∈ d.toAssembler.code, ∀ l, i.operand ≠ some (.label l)) ∧
      closed = ⟨d.scope, d.filename, d.line, d.toAssembler.code.push ⟨.stop, none⟩, d.atoms⟩ := by
  unfold Assembler.close
  rw [← unfixed_op_stop, ← unresolved_op_stop]
  dsimp only
  constructor
  · intro h
    split at h
    · rename_i hboth
      cases h
      exact ⟨hboth.1, hboth.2, rfl⟩
    · cases h
  · rintro ⟨hfixed, hresolved, rfl⟩
    rw [if_pos ⟨hfixed, hresolved⟩]
    rfl

/-- In a closed unit every jump has a target, and no target is behind the last instruction. -/
theorem jump_target_lt {d : Draft} {closed : CodeUnit} (h : d.toAssembler.close = .ok closed)
    {i : Nat} {opcode : OpCode} {l : Label}
    (hline : d.lines[i]? = some (.jump opcode l) ∨ d.lines[i]? = some (.stray opcode l)) :
    ∃ p, closed.code[i]? = some ⟨opcode, some (.jump p)⟩ ∧ p < closed.code.size := by
  obtain ⟨hfixed, hresolved, rfl⟩ := (close_eq_ok_iff d closed).mp h
  have hcode (line : Line) (hget : d.lines[i]? = some line) :
      d.toAssembler.code[i]? = some (line.instruction d.position?) := by
    simp [toAssembler, hget]
  rcases hline with hline | hline
  · -- A jump that names its label came after the label, so the label is one of those that have a
    -- position.
    obtain ⟨p, hp⟩ := hfixed l (d.allocated opcode l (List.mem_of_getElem? hline))
    have hi : i < d.toAssembler.code.size := by
      have := (List.getElem?_eq_some_iff.mp hline).1
      simpa [toAssembler] using this
    refine ⟨p, ?_, ?_⟩
    · show (d.toAssembler.code.push _)[i]? = _
      rw [Array.getElem?_push_lt hi, ← Array.getElem?_eq_getElem hi, hcode _ hline]
      simp [Line.instruction, hp]
    · have hmem : some p ∈ d.positions := by
        rw [position?, Option.join_eq_some_iff] at hp
        exact List.mem_of_getElem? hp
      have := d.bounded p hmem
      show p < (d.toAssembler.code.push _).size
      simp only [Array.size_push, toAssembler, List.size_toArray, List.length_map]
      omega
  · -- A stray jump keeps its label, and nothing with a label is closed.
    exact absurd rfl (hresolved _ (Array.mem_of_getElem? (hcode _ hline)) l)

end Draft

/-- **Backpatching agrees with two passes.** After any operations on a new unit:

- the code is that of the draft: a jump written against an allocated label shows the position of the
  label as soon as it has one and the label until then, and all other instructions stand as they
  were written;
- whatever is done next, the lines of the draft stay;
- a label that is allocated next, with a position or without, is the one whose number is the number
  of labels so far, so no label is handed out twice;
- fixing a label fails exactly if it is unknown or has a position, and then leaves the unit as it
  was;
- closing succeeds exactly if every label has a position and no instruction has a label for its
  operand, and then adds `stop` to the code and nothing else;
- in a closed unit the jumps, whatever their labels were, go to instructions of the unit. -/
theorem backpatching_eq_two_pass (scope : Scope) (filename : String) (line : UInt32)
    (os : List Operation) :
    let unit := OpenUnit.perform { asm := { scope, filename, line } } os
    let draft := (Draft.start scope filename line).perform os
    unit.asm.code.toList = draft.lines.map (Draft.Line.instruction draft.position?) ∧
    (∀ more, draft.lines <+: (draft.perform more).lines) ∧
    Gen.newLabel.exec unit = (.ok ⟨draft.positions.length⟩, unit.perform [.newLabel]) ∧
    Gen.labelHere.exec unit = (.ok ⟨draft.positions.length⟩, unit.perform [.labelHere]) ∧
    (∀ l, ((∃ e after, (Gen.fix l).exec unit = (.error e, after)) ↔
        draft.positions[l.index]? ≠ some none) ∧
      ∀ e after, (Gen.fix l).exec unit = (.error e, after) → after = unit) ∧
    (∀ closed, unit.asm.close = .ok closed ↔
      (∀ l : Label, l.index < draft.positions.length → ∃ p, draft.position? l = some p) ∧
      (∀ i ∈ unit.asm.code, ∀ l, i.operand ≠ some (.label l)) ∧
      closed = ⟨scope, filename, line, unit.asm.code.push ⟨.stop, none⟩, unit.asm.atoms⟩) ∧
    ∀ closed, unit.asm.close = .ok closed → ∀ (i : Nat) opcode l,
      draft.lines[i]? = some (.jump opcode l) ∨ draft.lines[i]? = some (.stray opcode l) →
        ∃ p, closed.code[i]? = some ⟨opcode, some (.jump p)⟩ ∧ p < closed.code.size := by
  intro unit draft
  -- From here on the unit is a draft, and every part is a statement about drafts.
  have hunit : unit = draft.unit {} := Draft.perform_unit (.start scope filename line) {} os
  have hasm : unit.asm = draft.toAssembler := congrArg OpenUnit.asm hunit
  have hext : Draft.Extends (.start scope filename line) draft := Draft.extends_perform _ os
  refine ⟨?_, fun more => (draft.extends_perform more).lines, ?_, ?_, fun l => ⟨?_, ?_⟩, ?_, ?_⟩
  · rw [hasm]
    rfl
  · rw [hunit, draft.perform_unit]
    exact draft.exec_newLabel {}
  · rw [hunit, draft.perform_unit]
    exact draft.exec_labelHere {}
  · rw [hunit, draft.exec_fix, ne_eq, ← Draft.fixError?_eq_none_iff]
    cases draft.fixError? l <;> simp
  · -- A refusal is decided before anything is changed.
    intro e after hfix
    rw [hunit, draft.exec_fix] at hfix
    cases hl : draft.fixError? l with
    | none =>
      rw [hl] at hfix
      cases hfix
    | some e' =>
      rw [hl] at hfix
      cases hfix
      exact hunit.symm
  · intro closed
    rw [hasm, draft.close_eq_ok_iff closed, hext.scope, hext.filename, hext.line]
    rfl
  · intro closed hclose i opcode l hline
    rw [hasm] at hclose
    exact Draft.jump_target_lt hclose hline

end StackCode
