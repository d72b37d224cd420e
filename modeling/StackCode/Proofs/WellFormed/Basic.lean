import StackCode.Proofs.Backpatching
import StackCode.Gen.Expression

/-!
# Well-formed units

What the machine relies on in a finished unit: each operation has the operand that it needs, jumps
stay inside of the unit, `stop` stands at the end and nowhere else, and instructions and atoms refer
to each other both ways.

All of it is an invariant of the draft of the unit (`Draft.Tidy`), kept by every operation that is
`Proper`: one that writes an instruction with the right kind of operand, and no atom that nothing
refers to. Which variables the instructions load and store is followed on the side, as a predicate
on bindings.

What well-formedness does not say is that the code does anything sensible. The stack may underflow,
a load may come before every store, and a loop may never end, in a unit whose instructions are all
in order. The heights of the stack are followed in a file of their own; the other two are no matter
of the compiler.

The invariant is about drafts because a draft has nothing to patch. In the assembler an instruction
may have a label for its operand, so its operand is of the wrong kind until the label is fixed, and
the invariant would have to except those that wait.
-/

set_option autoImplicit false

namespace StackCode

/-! ## Operands -/

/-- The kinds of operand. -/
inductive OperandKind where
  | slot | atom | int8 | uint16 | uint24 | int32 | argCount | length | jump | label
deriving DecidableEq

def Operand.kind : Operand → OperandKind
  | .slot _ => .slot
  | .atom _ => .atom
  | .int8 _ => .int8
  | .uint16 _ => .uint16
  | .uint24 _ => .uint24
  | .int32 _ => .int32
  | .argCount _ => .argCount
  | .length _ => .length
  | .jump _ => .jump
  | .label _ => .label

/-- The kind of operand that an operation needs. -/
def OpCode.operandKind : OpCode → Option OperandKind
  | .getArg | .setArg | .getLocal | .setLocal => some .slot
  | .string | .getGlobal | .bindGlobal | .setGlobal | .getProp | .setProp | .callGlobal
  | .callProp => some .atom
  | .int8 => some .int8
  | .uint16 => some .uint16
  | .uint24 => some .uint24
  | .int32 => some .int32
  | .call | .new => some .argCount
  | .newArray => some .length
  | .goto | .ifEq => some .jump
  | _ => none

/-- The slot that an instruction loads or stores, as the binding of a variable. -/
def Instruction.binding? (i : Instruction) : Option Binding :=
  match i.operand with
  | some (.slot n) =>
    match i.opcode with
    | .getArg | .setArg => some (.parameter n)
    | .getLocal | .setLocal => some (.localSlot n)
    | _ => none
  | _ => none

/-- Whether the scope has the slot of the binding. A global needs none. -/
def Binding.InScope (scope : Scope) : Binding → Prop
  | .parameter slot => slot.toNat < scope.parameters.size
  | .localSlot slot => slot.toNat < scope.locals.size
  | .global _ => True

instance (scope : Scope) (b : Binding) : Decidable (b.InScope scope) :=
  match b with
  | .parameter slot => inferInstanceAs (Decidable (slot.toNat < scope.parameters.size))
  | .localSlot slot => inferInstanceAs (Decidable (slot.toNat < scope.locals.size))
  | .global _ => inferInstanceAs (Decidable True)

/-! ## Units -/

/-- A unit that the machine can run. -/
structure CodeUnit.WellFormed (unit : CodeUnit) : Prop where
  /-- `stop` is the last instruction and no other. -/
  stop : ∃ code, unit.code.toList = code ++ [⟨.stop, none⟩] ∧ ∀ i ∈ code, i.opcode ≠ .stop
  /-- Every operation has an operand of the kind that it needs, or none if it needs none. -/
  operands : ∀ i ∈ unit.code, i.operand.map Operand.kind = i.opcode.operandKind
  resolved : ∀ i ∈ unit.code, ∀ l, i.operand ≠ some (.label l)
  jumps : ∀ i ∈ unit.code, ∀ target, i.operand = some (.jump target) → target < unit.code.size
  immediates : ∀ i ∈ unit.code, ∀ v, i.operand = some (.uint24 v) → v.toNat < 16777216
  /-- Every instruction that refers to an atom finds it. -/
  atoms : ∀ i ∈ unit.code, ∀ index, i.operand = some (.atom index) → index < unit.atoms.size
  nodup : unit.atoms.toList.Nodup
  /-- Every atom is there for an instruction. -/
  used : ∀ index < unit.atoms.size, ∃ i ∈ unit.code, i.operand = some (.atom index)

/-- Every slot that the code loads or stores is one of the unit's scope. -/
def CodeUnit.SlotsInScope (unit : CodeUnit) : Prop :=
  ∀ i ∈ unit.code, ∀ b, i.binding? = some b → b.InScope unit.scope

/-! ## Proper operations

An operation is proper or not on its own, without regard to the unit. What it would take a unit to
know, that labels have positions and that the last line is `stop`, is what closing checks and
adds. -/

section

variable (vs : Binding → Prop)

/-- An instruction that is complete as it is emitted: no jump, no reference to an atom, and not the
end of the unit. What it loads or stores is one of the bindings `vs`. -/
structure Instruction.Proper (i : Instruction) : Prop where
  paired : i.operand.map Operand.kind = i.opcode.operandKind
  complete : i.opcode.operandKind ≠ some .atom ∧ i.opcode.operandKind ≠ some .jump
  notStop : i.opcode ≠ .stop
  immediate : ∀ v, i.operand = some (.uint24 v) → v.toNat < 16777216
  bound : ∀ b, i.binding? = some b → vs b

/-- An operation that keeps a unit well formed. -/
def Operation.Proper : Operation → Prop
  | .emit i => i.Proper vs
  | .op opcode => Instruction.Proper vs ⟨opcode, none⟩
  | .opWith opcode operand => Instruction.Proper vs ⟨opcode, some operand⟩
  | .opAtom opcode _ => opcode.operandKind = some .atom
  | .intern _ => False
  | .newLabel | .labelHere | .fix _ => True
  | .jump opcode _ => opcode.operandKind = some .jump

/-- A line that is as it should be, in a draft with `atoms` atoms. -/
def Draft.Line.Tidy (atoms : Nat) : Draft.Line → Prop
  | .plain i =>
    i.Proper vs ∨ i.opcode.operandKind = some .atom ∧ ∃ index < atoms,
      i.operand = some (.atom index)
  | .jump opcode _ | .stray opcode _ => opcode.operandKind = some .jump

/-- A draft whose lines are as they should be, and whose atoms are those that its lines refer to. -/
structure Draft.Tidy (d : Draft) : Prop where
  lines : ∀ line ∈ d.lines, line.Tidy vs d.atoms.size
  nodup : d.atoms.toList.Nodup
  used : ∀ index < d.atoms.size, ∃ opcode, Draft.Line.plain ⟨opcode, some (.atom index)⟩ ∈ d.lines

end

namespace Instruction

variable {vs : Binding → Prop} {opcode : OpCode}

theorem Proper.bare (h : opcode.operandKind = none ∧ opcode ≠ .stop) :
    Proper vs ⟨opcode, none⟩ where
  paired := h.1.symm
  complete := by
    rw [h.1]
    exact ⟨nofun, nofun⟩
  notStop := h.2
  immediate _ hoperand := by cases hoperand
  bound _ hb := by cases hb

/-- An operation with an operand of its kind. -/
theorem Proper.of_operand {kind : OperandKind} {operand : Operand}
    (hkind : opcode.operandKind = some kind) (hoperand : operand.kind = kind)
    (hcomplete : kind ≠ .atom ∧ kind ≠ .jump)
    (himmediate : ∀ v, operand = .uint24 v → v.toNat < 16777216)
    (hbound : ∀ b, binding? ⟨opcode, some operand⟩ = some b → vs b) :
    Proper vs ⟨opcode, some operand⟩ where
  paired := by
    rw [hkind, ← hoperand]
    rfl
  complete := by
    rw [hkind]
    exact ⟨fun h => hcomplete.1 (Option.some.inj h), fun h => hcomplete.2 (Option.some.inj h)⟩
  notStop := by
    intro hstop
    change opcode = .stop at hstop
    subst hstop
    cases hkind
  immediate v hv := himmediate v (Option.some.inj hv)
  bound := hbound

/-- Whatever instruction is chosen for an integer. -/
theorem Proper.of_pushInt? {n : Int} {i : Instruction} (h : pushInt? n = some i) : i.Proper vs := by
  unfold pushInt? at h
  split at h
  · cases h
    exact .bare (by decide)
  · split at h
    · cases h
      exact .of_operand rfl rfl (by decide) nofun nofun
    · split at h
      · cases h
        exact .of_operand rfl rfl (by decide) nofun nofun
      · split at h
        · rename_i hrange
          cases h
          have hsmall : (UInt32.ofNat n.toNat).toNat < 16777216 :=
            Nat.lt_of_le_of_lt (Nat.mod_le _ _) ((Int.toNat_lt hrange.1).mpr hrange.2)
          refine .of_operand rfl rfl (by decide) ?_ nofun
          intro v hv
          cases hv
          exact hsmall
        · split at h
          · cases h
            exact .of_operand rfl rfl (by decide) nofun nofun
          · cases h

theorem Proper.of_ofNumber {value : Double} {i : Instruction} (h : ofNumber value = .ok i) :
    i.Proper vs := by
  unfold ofNumber at h
  split at h
  · cases h
  · split at h
    · rename_i i' hpush
      cases h
      exact Proper.of_pushInt? hpush
    · cases h

/-- An instruction on a slot loads or stores the binding of the slot. -/
theorem Proper.slot {slot : UInt16} {b : Binding} (hkind : opcode.operandKind = some .slot)
    (hbinding : binding? ⟨opcode, some (.slot slot)⟩ = some b) (h : vs b) :
    Proper vs ⟨opcode, some (.slot slot)⟩ := by
  refine .of_operand hkind rfl (by decide) nofun ?_
  intro b' hb'
  rw [hbinding] at hb'
  cases hb'
  exact h

/-- The number of arguments is an operand for the operations that take one. -/
theorem Proper.of_argCount {n : Nat} {count : Operand} (hkind : opcode.operandKind = some .argCount)
    (h : Operand.ofArgCount n = .ok count) : Proper vs ⟨opcode, some count⟩ := by
  unfold Operand.ofArgCount at h
  split at h
  · cases h
    exact .of_operand hkind rfl (by decide) nofun nofun
  · cases h

theorem Proper.of_binary {operator : BinaryOp} (h : operator.opcode = .ok opcode) :
    Proper vs ⟨opcode, none⟩ := by
  cases operator <;> cases h <;> exact .bare (by decide)

theorem Proper.of_unary {operator : UnaryOp} (h : operator.opcode = .ok opcode) :
    Proper vs ⟨opcode, none⟩ := by
  cases operator <;> cases h
  exact .bare (by decide)

end Instruction

/-! ## Every proper operation keeps a draft tidy -/

namespace Draft

variable {vs : Binding → Prop} {d : Draft}

/-- More atoms do no harm. -/
theorem Line.Tidy.mono {atoms atoms' : Nat} {line : Line} (h : line.Tidy vs atoms)
    (hle : atoms ≤ atoms') :
    line.Tidy vs atoms' := by
  cases line with
  | plain i =>
    rcases h with h | ⟨hkind, index, hindex, hoperand⟩
    · exact .inl h
    · exact .inr ⟨hkind, index, Nat.lt_of_lt_of_le hindex hle, hoperand⟩
  | jump opcode l => exact h
  | stray opcode l => exact h

theorem tidy_start (scope : Scope) (filename : String) (line : UInt32) :
    (start scope filename line).Tidy vs where
  lines _ hline := absurd hline List.not_mem_nil
  nodup := List.nodup_nil
  used index hindex := absurd hindex (Nat.not_lt_zero index)

/-- A line is added, and the atoms stay. -/
theorem Tidy.of_lines {d' : Draft} {line : Line} (h : d.Tidy vs)
    (hlines : d'.lines = d.lines ++ [line]) (hatoms : d'.atoms = d.atoms)
    (hline : line.Tidy vs d.atoms.size) : d'.Tidy vs where
  lines := by
    rw [hlines, hatoms]
    intro line' hline'
    rcases List.mem_append.mp hline' with hmem | hmem
    · exact h.lines line' hmem
    · rw [List.mem_singleton.mp hmem]
      exact hline
  nodup := by
    rw [hatoms]
    exact h.nodup
  used := by
    rw [hlines, hatoms]
    intro index hindex
    obtain ⟨opcode, hmem⟩ := h.used index hindex
    exact ⟨opcode, List.mem_append_left _ hmem⟩

/-- Neither lines nor atoms change. -/
theorem Tidy.of_eq {d' : Draft} (h : d.Tidy vs) (hlines : d'.lines = d.lines)
    (hatoms : d'.atoms = d.atoms) :
    d'.Tidy vs where
  lines := by
    rw [hlines, hatoms]
    exact h.lines
  nodup := by
    rw [hatoms]
    exact h.nodup
  used := by
    rw [hlines, hatoms]
    exact h.used

theorem Tidy.write {i : Instruction} (h : d.Tidy vs) (hi : i.Proper vs) : (d.write i).Tidy vs :=
  h.of_lines rfl rfl (.inl hi)

/-- A jump is tidy before its label has a position. -/
theorem Tidy.jump {opcode : OpCode} (h : d.Tidy vs) (l : Label)
    (hkind : opcode.operandKind = some .jump) :
    (d.jump opcode l).Tidy vs := by
  have hlines : (d.jump opcode l).lines =
      d.lines ++ [if l.index < d.positions.length then .jump opcode l else .stray opcode l] := rfl
  apply h.of_lines hlines rfl
  split
  · exact hkind
  · exact hkind

theorem Tidy.fix (h : d.Tidy vs) (l : Label) : (d.fix l).Tidy vs := by
  unfold Draft.fix
  split
  · exact h.of_eq rfl rfl
  · exact h

/-- A new atom is added together with the instruction that refers to it. -/
theorem Tidy.of_push {d' : Draft} {opcode : OpCode} {name : String} (h : d.Tidy vs)
    (hkind : opcode.operandKind = some .atom) (hnew : name ∉ d.atoms)
    (hlines : d'.lines = d.lines ++ [.plain ⟨opcode, some (.atom d.atoms.size)⟩])
    (hatoms : d'.atoms = d.atoms.push name) : d'.Tidy vs where
  lines := by
    rw [hlines, hatoms, Array.size_push]
    intro line hline
    rcases List.mem_append.mp hline with hmem | hmem
    · exact (h.lines line hmem).mono (Nat.le_succ _)
    · rw [List.mem_singleton.mp hmem]
      exact .inr ⟨hkind, d.atoms.size, Nat.lt_succ_self _, rfl⟩
  nodup := by
    rw [hatoms, Array.toList_push, List.nodup_append]
    refine ⟨h.nodup, List.nodup_cons.mpr ⟨List.not_mem_nil, List.nodup_nil⟩, ?_⟩
    intro atom hatom other hother heq
    rw [heq, List.mem_singleton.mp hother] at hatom
    exact hnew (Array.mem_toList_iff.mp hatom)
  used := by
    rw [hlines, hatoms, Array.size_push]
    intro index hindex
    rcases Nat.lt_succ_iff_lt_or_eq.mp hindex with hlt | heq
    · obtain ⟨opcode', hmem⟩ := h.used index hlt
      exact ⟨opcode', List.mem_append_left _ hmem⟩
    · rw [heq]
      exact ⟨opcode, List.mem_append_right _ List.mem_cons_self⟩

/-- An atom is only ever added for the sake of an instruction. -/
theorem Tidy.writeAtom {opcode : OpCode} (h : d.Tidy vs) (name : String)
    (hkind : opcode.operandKind = some .atom) : (d.writeAtom opcode name).Tidy vs := by
  unfold Draft.writeAtom intern
  cases hfound : d.atoms.idxOf? name with
  | some index =>
    have hlist : d.atoms.toList.idxOf? name = some index := by
      rw [← List.idxOf?_toArray]
      exact hfound
    obtain ⟨hindex, _⟩ := List.idxOf?_eq_some_iff.mp hlist
    exact h.of_lines rfl rfl (.inr ⟨hkind, index, hindex, rfl⟩)
  | none => exact h.of_push hkind (Array.idxOf?_eq_none_iff.mp hfound) rfl rfl

/-- **One operation.** -/
theorem Tidy.step {o : Operation} (h : d.Tidy vs) (ho : o.Proper vs) : (d.step o).Tidy vs := by
  cases o with
  | emit i => exact h.write ho
  | op opcode => exact h.write ho
  | opWith opcode operand => exact h.write ho
  | opAtom opcode name => exact h.writeAtom name ho
  | intern name => cases ho
  | newLabel => exact h.of_eq rfl rfl
  | labelHere => exact h.of_eq rfl rfl
  | jump opcode l => exact h.jump l ho
  | fix l => exact h.fix l

/-- **Any sequence of operations.** -/
theorem Tidy.perform {os : List Operation} (h : d.Tidy vs) (hos : ∀ o ∈ os, o.Proper vs) :
    (d.perform os).Tidy vs := by
  induction os generalizing d with
  | nil => exact h
  | cons o os ih =>
    exact ih (h.step (hos o List.mem_cons_self)) fun o' ho' => hos o' (List.mem_cons_of_mem o ho')

end Draft

/-! ## Closing a tidy draft

Closing succeeds only if every jump has its target. So in a closed unit there are no labels left,
and every line has become an instruction that was complete from the start, one with an atom of the
table, or a jump with a target. -/

theorem OpCode.operandKind_ne_label (opcode : OpCode) : opcode.operandKind ≠ some .label := by
  cases opcode <;> decide

/-- An instruction of a closed unit, in front of its `stop`, with `atoms` atoms and `size`
instructions before the `stop`. -/
inductive Instruction.Final (vs : Binding → Prop) (atoms size : Nat) : Instruction → Prop where
  | proper {i : Instruction} (h : i.Proper vs) : Final vs atoms size i
  | atom {opcode : OpCode} {index : Nat} (hkind : opcode.operandKind = some .atom)
      (h : index < atoms) : Final vs atoms size ⟨opcode, some (.atom index)⟩
  | jump {opcode : OpCode} {target : Nat} (hkind : opcode.operandKind = some .jump)
      (h : target ≤ size) : Final vs atoms size ⟨opcode, some (.jump target)⟩

namespace Instruction.Final

variable {vs : Binding → Prop} {atoms size : Nat} {i : Instruction}

/-- Each operation has the operand that it needs. -/
theorem paired (h : i.Final vs atoms size) : i.operand.map Operand.kind = i.opcode.operandKind := by
  cases h with
  | proper h => exact h.paired
  | atom hkind h => exact hkind.symm
  | jump hkind h => exact hkind.symm

/-- The operation decides the kind of its operand. -/
theorem operandKind_eq (h : i.Final vs atoms size) {operand : Operand}
    (hoperand : i.operand = some operand) :
    i.opcode.operandKind = some operand.kind := by
  rw [← h.paired, hoperand]
  rfl

theorem notStop (h : i.Final vs atoms size) : i.opcode ≠ .stop := by
  intro hstop
  cases h with
  | proper h => exact h.notStop hstop
  | atom hkind h =>
    subst hstop
    cases hkind
  | jump hkind h =>
    subst hstop
    cases hkind

theorem atom_lt (h : i.Final vs atoms size) {index : Nat}
    (hoperand : i.operand = some (.atom index)) :
    index < atoms := by
  have hkind := h.operandKind_eq hoperand
  cases h with
  | proper h => exact absurd hkind h.complete.1
  | atom _ hlt =>
    cases hoperand
    exact hlt
  | jump _ hle => cases hoperand

/-- A jump goes to an instruction or to the `stop` behind the last one. -/
theorem target_le (h : i.Final vs atoms size) {target : Nat}
    (hoperand : i.operand = some (.jump target)) :
    target ≤ size := by
  have hkind := h.operandKind_eq hoperand
  cases h with
  | proper h => exact absurd hkind h.complete.2
  | atom _ hlt => cases hoperand
  | jump _ hle =>
    cases hoperand
    exact hle

theorem immediate (h : i.Final vs atoms size) {v : UInt32}
    (hoperand : i.operand = some (.uint24 v)) :
    v.toNat < 16777216 := by
  cases h with
  | proper h => exact h.immediate v hoperand
  | atom _ hlt => cases hoperand
  | jump _ hle => cases hoperand

theorem bound (h : i.Final vs atoms size) {b : Binding} (hb : i.binding? = some b) : vs b := by
  cases h with
  | proper h => exact h.bound b hb
  | atom _ hlt => cases hb
  | jump _ hle => cases hb

end Instruction.Final

namespace Draft.Tidy

variable {vs : Binding → Prop} {d : Draft} {closed : CodeUnit}

theorem final (h : d.Tidy vs) (hclose : d.toAssembler.close = .ok closed) :
    ∀ i ∈ d.toAssembler.code, i.Final vs d.atoms.size d.lines.length := by
  obtain ⟨hfixed, hresolved, -⟩ := (d.close_eq_ok_iff closed).mp hclose
  intro i hi
  obtain ⟨line, hline, rfl⟩ := List.mem_map.mp (List.mem_toArray.mp hi)
  have htidy := h.lines line hline
  cases line with
  | plain i =>
    rcases htidy with hproper | ⟨hkind, index, hindex, hoperand⟩
    · exact .proper hproper
    · obtain ⟨opcode, operand⟩ := i
      cases hoperand
      exact .atom hkind hindex
  | jump opcode l =>
    -- The label has a position by now, and the position is not behind the last line.
    obtain ⟨p, hp⟩ := hfixed l (d.allocated opcode l hline)
    have hbound := d.bounded p (List.mem_of_getElem? (Option.join_eq_some_iff.mp hp))
    rw [Line.instruction, hp]
    exact .jump htidy hbound
  | stray opcode l => exact absurd rfl (hresolved _ hi l)

/-- The `stop` that closing adds has no operand, so what has one was there before. -/
theorem final_of_operand (h : d.Tidy vs) (hclose : d.toAssembler.close = .ok closed)
    {i : Instruction} (hi : i ∈ closed.code) {operand : Operand}
    (hoperand : i.operand = some operand) :
    i.Final vs d.atoms.size d.lines.length := by
  have hfinal := h.final hclose
  obtain ⟨-, -, rfl⟩ := (d.close_eq_ok_iff closed).mp hclose
  rcases Array.mem_push.mp hi with hi | rfl
  · exact hfinal i hi
  · cases hoperand

/-- **A tidy draft closes to a well-formed unit.** -/
theorem wellFormed (h : d.Tidy vs) (hclose : d.toAssembler.close = .ok closed) :
    closed.WellFormed := by
  have hfinal := h.final hclose
  have hsome : ∀ i ∈ closed.code, ∀ operand, i.operand = some operand →
      i.Final vs d.atoms.size d.lines.length :=
    fun _ hi _ hoperand => h.final_of_operand hclose hi hoperand
  -- The closed unit is the code of the draft with `stop` behind it, so each part is about the code
  -- and about `stop`.
  obtain ⟨-, -, rfl⟩ := (d.close_eq_ok_iff closed).mp hclose
  have hsize : d.toAssembler.code.size = d.lines.length := by simp [toAssembler]
  refine ⟨⟨d.toAssembler.code.toList, Array.toList_push, ?_⟩, ?_, ?_, ?_, ?_, ?_, h.nodup, ?_⟩
  · intro i hi
    exact (hfinal i (Array.mem_toList_iff.mp hi)).notStop
  · intro i hi
    rcases Array.mem_push.mp hi with hi | rfl
    · exact (hfinal i hi).paired
    · rfl
  · -- No operation needs a label, so no operand of a final instruction is one.
    intro i hi l hoperand
    exact i.opcode.operandKind_ne_label ((hsome i hi _ hoperand).operandKind_eq hoperand)
  · intro i hi target hoperand
    rw [Array.size_push, hsize]
    exact Nat.lt_succ_of_le ((hsome i hi _ hoperand).target_le hoperand)
  · intro i hi v hoperand
    exact (hsome i hi _ hoperand).immediate hoperand
  · intro i hi index hoperand
    exact (hsome i hi _ hoperand).atom_lt hoperand
  · intro index hindex
    obtain ⟨opcode, hmem⟩ := h.used index hindex
    have hcode : ⟨opcode, some (.atom index)⟩ ∈ d.toAssembler.code :=
      List.mem_toArray.mpr (List.mem_map.mpr ⟨_, hmem, rfl⟩)
    exact ⟨_, Array.mem_push_of_mem _ hcode, rfl⟩

/-- What a closed unit loads and stores is among the bindings that its operations were allowed. -/
theorem bound (h : d.Tidy vs) (hclose : d.toAssembler.close = .ok closed) {i : Instruction}
    (hi : i ∈ closed.code) {b : Binding} (hb : i.binding? = some b) : vs b := by
  cases hoperand : i.operand with
  | none =>
    rw [Instruction.binding?, hoperand] at hb
    cases hb
  | some operand => exact (h.final_of_operand hclose hi hoperand).bound hb

end Draft.Tidy

end StackCode
