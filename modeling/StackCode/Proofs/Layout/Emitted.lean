import StackCode.Proofs.Acceptance

/-!
# What a step emits

A step that compiles to a layout adds the code of the layout to the unit it is run on. If the layout
is accepted outside of loops too, the added code is complete at once: no jump in it waits for a
label of an enclosing loop, since its code is the same for all targets of such a loop.

This is the statement about a unit that is still open, as opposed to one that was closed. It is
needed where the code of a part is looked at, such as the initializer of a declaration or a
condition, without the rest of the unit that it ends up in.

The difficulty is with the lines of the part that jump. Their labels have positions at the end of
the step, but the draft that is left may still have labels of enclosing loops without one, so its
second pass is not complete. It is complete on the added lines.
-/

set_option autoImplicit false

namespace StackCode

/-- The operations that a unit has behind those of an earlier state of it. -/
def OpenUnit.emitted (before after : OpenUnit) : List Op :=
  (after.asm.code.toList.drop before.asm.position).map (Instruction.resolve after.asm.atoms)

namespace Gen

variable {m : Gen Unit} {plan : Layout}

/-- Code that is accepted outside of loops does not look at the targets of a loop. -/
theorem Compiles.code_eq_of_accepted (h : Compiles m plan) (haccepted : plan.refusal false = none)
    (d : Draft) (t t' : LoopTargets) :
    plan.code t d.lines.length = plan.code t' d.lines.length := by
  have hrun := h d {} (by intro loop hloop; cases hloop)
  change Yields m (d.unit {}) (plan.refusal false) {} (d.Places plan {}) at hrun
  rw [haccepted] at hrun
  obtain ⟨d', -, hplaces⟩ := hrun
  obtain ⟨new, -, -, hread⟩ := hplaces.adds.lines
  -- Where no loop is around, a reading takes the targets from outside, and no line is read with
  -- them.
  have houtside : Draft.Line.read (d'.reading t) = Draft.Line.read (d'.reading t') := by
    funext line
    cases line <;> rfl
  calc plan.code t d.lines.length = new.map (Draft.Line.read (d'.reading t)) :=
        (hread _ (d'.readBy_reading t)).symm
    _ = new.map (Draft.Line.read (d'.reading t')) := by rw [houtside]
    _ = plan.code t' d.lines.length := hread _ (d'.readBy_reading t')

/-- The labels of the lines that were added have their positions. -/
theorem Compiles.position_of_jump (h : Compiles m plan) (haccepted : plan.refusal false = none)
    {d d' : Draft}
    {loops : LoopStack} {new : List Draft.Line}
    (hread : ∀ r,
      d'.ReadBy r → new.map (Draft.Line.read r) = plan.code (loops.targets r) d.lines.length)
    {opcode : OpCode} {l : Label} (hline : .jump opcode l ∈ new) :
    ∃ p, d'.position? l = some p := by
  cases hposition : d'.position? l with
  | some p => exact ⟨p, rfl⟩
  | none =>
    -- Otherwise it could be read with two positions, and the code would not be the same.
    let reading (p : Nat) : Reading :=
      ⟨d'.atoms, fun l' => if l' = l then p else (d'.position? l').getD 0, ⟨0, 0⟩⟩
    have hreadBy (p : Nat) : d'.ReadBy (reading p) := by
      refine ⟨List.prefix_refl _, fun l' p' hp' => ?_⟩
      have hne : l' ≠ l := by
        rintro rfl
        rw [hposition] at hp'
        cases hp'
      simp [reading, hne, hp']
    have hsame : new.map (Draft.Line.read (reading 0)) = new.map (Draft.Line.read (reading 1)) := by
      rw [hread _ (hreadBy 0), hread _ (hreadBy 1)]
      exact h.code_eq_of_accepted haccepted d _ _
    have hjump := List.map_inj_left.mp hsame _ hline
    simp [Draft.Line.read, reading, Op.jump, Op.operand] at hjump

/-- A step that succeeds has placed its layout. -/
theorem Compiles.places_of_exec (h : Compiles m plan) {d : Draft} {loops : LoopStack}
    (hk : d.Knows loops) {after : OpenUnit} (hexec : m.exec (d.unit loops) = (.ok (), after)) :
    plan.refusal loops.inside = none ∧ ∃ d', after = d'.unit loops ∧ d.Places plan loops d' := by
  have hrun := h d loops hk
  cases hrefusal : plan.refusal loops.inside with
  | some e =>
    rw [hrefusal] at hrun
    have herror : (m.exec (d.unit loops)).1 = .error e := hrun
    rw [hexec] at herror
    cases herror
  | none =>
    rw [hrefusal] at hrun
    obtain ⟨d', hexec', hplaces⟩ := hrun
    exact ⟨rfl, d', (Prod.mk.inj (hexec.symm.trans hexec')).2, hplaces⟩

/-- **The emitted code is the code of the layout**, at the position where it was emitted and
whatever loop is around. -/
theorem Compiles.emitted_eq (h : Compiles m plan) (haccepted : plan.refusal false = none)
    {d : Draft} {loops : LoopStack} (hk : d.Knows loops) {after : OpenUnit}
    (hexec : m.exec (d.unit loops) = (.ok (), after)) (t : LoopTargets) :
    (d.unit loops).emitted after = plan.code t (d.unit loops).asm.position ∧
      after.asm.position = (d.unit loops).asm.position + plan.size := by
  obtain ⟨-, d', rfl, hplaces⟩ := h.places_of_exec hk hexec
  obtain ⟨new, hlines, hfinal, hread⟩ := hplaces.adds.lines
  have hposition : ∀ d : Draft, (d.unit loops).asm.position = d.lines.length := by
    intro d
    simp [Draft.unit, Draft.toAssembler, Assembler.position]
  -- The second pass of the draft and its reading agree on the new lines, where every label has a
  -- position.
  have hresolve : ∀ line ∈ new,
      (line.instruction d'.position?).resolve d'.atoms = line.read (d'.reading t) := by
    intro line hline
    cases line with
    | plain i => rfl
    | stray opcode l => cases hfinal _ hline
    | jump opcode l =>
      obtain ⟨p, hp⟩ := h.position_of_jump haccepted hread hline
      simp only [Draft.Line.instruction, Draft.Line.read, Draft.reading, hp]
      rfl
  have hemitted : (d.unit loops).emitted (d'.unit loops) =
      new.map fun line => (line.instruction d'.position?).resolve d'.atoms := by
    simp [OpenUnit.emitted, Draft.unit, Draft.toAssembler, Assembler.position, hlines,
      Function.comp_def]
  rw [hposition, hposition, hplaces.length_lines]
  refine ⟨?_, rfl⟩
  rw [hemitted, List.map_congr_left hresolve, hread _ (d'.readBy_reading t)]
  exact h.code_eq_of_accepted haccepted d _ _

end Gen

/-! ## Expressions -/

/-- The expression whose additions are those that the compiler is left with. -/
def Expr.folded (fold : Bool) (e : Expr) : Expr :=
  if fold then e.map .deepFold else e

/-- An expression compiles to the layout of what folding makes of it. -/
theorem Gen.compiles_folded (fold : Bool) (e : Expr) :
    Compiles (expression fold e) (e.folded fold).layout := by
  cases fold with
  | false => exact compiles_expression e
  | true =>
    rw [← expression_map Change.unseen_deepFold]
    exact compiles_expression (e.map .deepFold)

/-- An expression is accepted inside of a loop if and only if it is accepted elsewhere. -/
theorem Gen.refusal_of_exec {fold : Bool} {e : Expr} {d : Draft} {loops : LoopStack}
    (hk : d.Knows loops) {after : OpenUnit}
    (hexec : (expression fold e).exec (d.unit loops) = (.ok (), after)) :
    (e.folded fold).layout.refusal false = none := by
  obtain ⟨hrefusal, -⟩ := (compiles_folded fold e).places_of_exec hk hexec
  rw [Expr.refusal_eq_none_iff] at hrefusal ⊢
  exact hrefusal

end StackCode
