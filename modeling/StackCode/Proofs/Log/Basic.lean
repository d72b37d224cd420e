import StackCode.Proofs.Backpatching

/-!
# The log of a step

A step of code generation does nothing to the unit under construction but perform operations on it,
one after another. `Gen.Performs` says which: the log of a run, also of a run that fails. It has one
rule for each primitive step and two for steps in sequence, so a log leaves out no attempt to fix a
label, whether the attempt succeeds or not.

What a run comes to can then be read off its log. The unit at the end is the one that the logged
operations lead to (`Performs.after_eq`), no operation in the log fails unless the run ends in an
internal error (`Performs.permits`), and the labels that are given a position, in order, are the
`placements` of the log (`Draft.placed_perform`).

## Why a log and not the final unit

The unit at the end does not tell whether a label was fixed twice, if the second attempt was refused
and its error dropped, nor whether an atom was asked for a second time. Statements about what the
compiler tries, as opposed to what comes of it, need the attempts themselves. The log is a relation
and not a function on steps: a step is a function on units, and from a function one cannot read what
it is made of.

Two rules for sequences are needed, one for a first step that succeeds and one for a first step that
fails. In the second the log ends there, though the operations before the failure are in it.
-/

set_option autoImplicit false

namespace StackCode

namespace Gen

/-- The steps that other steps are made of, with the operations that they stand for. -/
inductive Primitive : {α : Type} → Gen α → List Operation → Prop where
  | pure {α : Type} (a : α) : Primitive (pure a) []
  | throw {α : Type} (e : Error) : Primitive (throw e : Gen α) []
  | emit (i : Instruction) : Primitive (emit i) [.emit i]
  | op (opcode : OpCode) : Primitive (op opcode) [.op opcode]
  | opWith (opcode : OpCode) (operand : Operand) :
      Primitive (opWith opcode operand) [.opWith opcode operand]
  | opAtom (opcode : OpCode) (name : String) : Primitive (opAtom opcode name) [.opAtom opcode name]
  | newLabel : Primitive newLabel [.newLabel]
  | labelHere : Primitive labelHere [.labelHere]
  | jump (opcode : OpCode) (l : Label) : Primitive (jump opcode l) [.jump opcode l]
  | fix (l : Label) : Primitive (fix l) [.fix l]
  | enterLoop (loop : Loop) : Primitive (enterLoop loop) []
  | leaveLoop : Primitive leaveLoop []
  | innermost (statement : String) : Primitive (innermost statement) []

/-- Run on `unit`, the step performs the operations in order and ends with a result and the unit
`after`. -/
inductive Performs : {α : Type} → Gen α → (unit : OpenUnit) → List Operation → Except Error α →
    (after : OpenUnit) → Prop where
  | primitive {α : Type} {m : Gen α} {os : List Operation} (h : Primitive m os) (unit : OpenUnit) :
      Performs m unit os (m.exec unit).1 (m.exec unit).2
  | bind {α β : Type} {m : Gen α} {f : α → Gen β} {unit between after : OpenUnit}
      {os os' : List Operation} {a : α} {result : Except Error β}
      (h : Performs m unit os (.ok a) between) (h' : Performs (f a) between os' result after) :
      Performs (m >>= f) unit (os ++ os') result after
  | fail {α β : Type} {m : Gen α} {f : α → Gen β} {unit after : OpenUnit} {os : List Operation}
      {e : Error} (h : Performs m unit os (.error e) after) :
      Performs (m >>= f) unit os (.error e) after

/-- The log is that of a run of the step. -/
theorem Performs.exec_eq {α : Type} {m : Gen α} {unit after : OpenUnit} {os : List Operation}
    {result : Except Error α} (h : Performs m unit os result after) :
    m.exec unit = (result, after) := by
  induction h with
  | primitive h unit => rfl
  | bind _ _ ih ih' => rw [exec_bind_ok _ ih, ih']
  | fail _ ih => rw [exec_bind, ih]

end Gen

/-! ## The unit at the end

An operation has been defined on open units and on drafts, with the same effect. So a log can be
replayed without labels being patched. -/

/-- Performing some operations and then others. -/
theorem Draft.perform_append (d : Draft) (os os' : List Operation) :
    d.perform (os ++ os') = (d.perform os).perform os' :=
  List.foldl_append

/-- One primitive step. It may change the loops, and no operation does. -/
theorem Gen.Primitive.after_eq {α : Type} {m : Gen α} {os : List Operation} (h : Primitive m os)
    (d : Draft) (loops : LoopStack) :
    ∃ loops', (m.exec (d.unit loops)).2 = (d.perform os).unit loops' := by
  cases h with
  | pure a => exact ⟨loops, rfl⟩
  | throw e => exact ⟨loops, rfl⟩
  | emit i => exact ⟨loops, d.exec_step loops (.emit i)⟩
  | op opcode => exact ⟨loops, d.exec_step loops (.op opcode)⟩
  | opWith opcode operand => exact ⟨loops, d.exec_step loops (.opWith opcode operand)⟩
  | opAtom opcode name => exact ⟨loops, d.exec_step loops (.opAtom opcode name)⟩
  | newLabel => exact ⟨loops, congrArg Prod.snd (d.exec_newLabel loops)⟩
  | labelHere => exact ⟨loops, congrArg Prod.snd (d.exec_labelHere loops)⟩
  | jump opcode l => exact ⟨loops, d.exec_step loops (.jump opcode l)⟩
  | fix l => exact ⟨loops, d.exec_step loops (.fix l)⟩
  | enterLoop loop => exact ⟨loops.push loop, rfl⟩
  | leaveLoop => exact ⟨loops.pop.2, rfl⟩
  | innermost statement =>
    refine ⟨loops, ?_⟩
    obtain ⟨frames⟩ := loops
    cases frames <;> rfl

/-- **A run leads where the operations in its log lead**, whether it succeeds or fails. -/
theorem Gen.Performs.after_eq {α : Type} {m : Gen α} {unit after : OpenUnit} {os : List Operation}
    {result : Except Error α} (h : Performs m unit os result after) {d : Draft} {loops : LoopStack}
    (hunit : unit = d.unit loops) : ∃ loops', after = (d.perform os).unit loops' := by
  induction h generalizing d loops with
  | primitive h unit =>
    subst hunit
    exact h.after_eq d loops
  | bind _ _ ih ih' =>
    obtain ⟨between, hbetween⟩ := ih hunit
    rw [d.perform_append]
    exact ih' hbetween
  | fail _ ih => exact ih hunit

/-! ## Operations that fail

`fix` is the only operation that can be refused. Its errors are internal ones, so where a run ends
in another error, or in none, every `fix` of its log went through. -/

/-- No operation fails, when they are performed one after another. -/
def OpenUnit.Permits (unit : OpenUnit) : List Operation → Prop
  | [] => True
  | o :: os => (o.step.exec unit).1 = .ok () ∧ (o.step.exec unit).2.Permits os

namespace Draft

/-- Only fixing a label can fail. -/
theorem exec_step_eq_ok_iff (d : Draft) (loops : LoopStack) (o : Operation) :
    (o.step.exec (d.unit loops)).1 = .ok () ↔ ∀ l, o = .fix l → d.fixError? l = none := by
  cases o with
  | fix l =>
    show ((Gen.fix l).exec (d.unit loops)).1 = _ ↔ _
    rw [exec_fix]
    cases h : d.fixError? l <;> simp [h]
  | _ => exact ⟨nofun, fun _ => rfl⟩

/-- The first operation does not fail, and the others do not fail behind it. -/
theorem permits_cons (d : Draft) (loops : LoopStack) (o : Operation) (os : List Operation) :
    (d.unit loops).Permits (o :: os) ↔
      (∀ l, o = .fix l → d.fixError? l = none) ∧ ((d.step o).unit loops).Permits os := by
  rw [OpenUnit.Permits, exec_step_eq_ok_iff, exec_step]

/-- Which loops are around does not matter to operations. -/
theorem permits_loops (d : Draft) (loops loops' : LoopStack) (os : List Operation) :
    (d.unit loops).Permits os ↔ (d.unit loops').Permits os := by
  induction os generalizing d with
  | nil => exact Iff.rfl
  | cons o os ih => rw [permits_cons, permits_cons, ih]

theorem permits_append (d : Draft) (loops : LoopStack) (os os' : List Operation) :
    (d.unit loops).Permits (os ++ os') ↔
      (d.unit loops).Permits os ∧ ((d.perform os).unit loops).Permits os' := by
  induction os generalizing d with
  | nil => exact (and_iff_right trivial).symm
  | cons o os ih =>
    rw [List.cons_append, permits_cons, permits_cons, ih, and_assoc]
    rfl

end Draft

/-- The primitive step that can fail at an operation is the one that fixes a label, and the error is
internal then. -/
theorem Gen.Primitive.permits {α : Type} {m : Gen α} {os : List Operation} (h : Primitive m os)
    (d : Draft) (loops : LoopStack)
    (hexternal : ∀ e, (m.exec (d.unit loops)).1 = .error e → e.kind ≠ .internal) :
    (d.unit loops).Permits os := by
  cases h with
  | fix l =>
    rw [d.permits_cons]
    refine ⟨?_, trivial⟩
    rintro l' heq
    cases heq
    cases herror : d.fixError? l with
    | none => rfl
    | some e =>
      have hexec := d.exec_fix loops l
      rw [herror] at hexec
      have hkind := hexternal e (congrArg Prod.fst hexec)
      -- Both reasons for which a label cannot be fixed are internal errors.
      unfold Draft.fixError? at herror
      split at herror <;> cases herror
      · exact absurd rfl hkind
      · exact absurd rfl hkind
  | pure a => trivial
  | throw e => trivial
  | enterLoop loop => trivial
  | leaveLoop => trivial
  | innermost statement => trivial
  | _ => exact ⟨rfl, trivial⟩

/-- **No operation fails in a run that does not end in an internal error.** -/
theorem Gen.Performs.permits {α : Type} {m : Gen α} {unit after : OpenUnit} {os : List Operation}
    {result : Except Error α} (h : Performs m unit os result after) {d : Draft} {loops : LoopStack}
    (hunit : unit = d.unit loops) (hexternal : ∀ e, result = .error e → e.kind ≠ .internal) :
    unit.Permits os := by
  induction h generalizing d loops with
  | primitive h unit =>
    subst hunit
    exact h.permits d loops hexternal
  | bind h _ ih ih' =>
    obtain ⟨between, hbetween⟩ := h.after_eq hunit
    have hfirst := ih hunit fun e he => by cases he
    have hsecond := ih' hbetween hexternal
    subst hunit
    rw [hbetween, Draft.permits_loops _ between loops] at hsecond
    exact (d.permits_append loops _ _).mpr ⟨hfirst, hsecond⟩
  | fail _ ih =>
    apply ih hunit
    intro e he
    cases he
    exact hexternal _ rfl

/-! ## Labels that are given a position

A label gets its position when it is fixed, or with its allocation. Both count, and the count is
over the whole log. -/

namespace Operation

/-- The labels that the operation gives a position, if `labels` labels are allocated before. -/
def places (labels : Nat) : Operation → List Label
  | .labelHere => [⟨labels⟩]
  | .fix l => [l]
  | _ => []

/-- The number of labels that the operation allocates. -/
def allocates : Operation → Nat
  | .newLabel | .labelHere => 1
  | _ => 0

/-- The labels that operations give a position, in order, if `labels` labels are allocated
before. -/
def placements (labels : Nat) : List Operation → List Label
  | [] => []
  | o :: os => o.places labels ++ placements (labels + o.allocates) os

end Operation

namespace Draft

/-- The number of positions that a label has. -/
def placed (d : Draft) (l : Label) : Nat :=
  (d.position? l).toList.length

theorem placed_congr {d d' : Draft} (h : d'.positions = d.positions) (l : Label) :
    d'.placed l = d.placed l := by
  unfold placed position?
  rw [h]

theorem intern_positions (d : Draft) (name : String) :
    (d.intern name).2.positions = d.positions := by
  unfold intern
  cases d.atoms.idxOf? name <;> rfl

/-- The table grows by the labels that are allocated. -/
theorem length_positions_step (d : Draft) (o : Operation) :
    (d.step o).positions.length = d.positions.length + o.allocates := by
  cases o with
  | opAtom opcode name => exact congrArg List.length (d.intern_positions name)
  | intern name => exact congrArg List.length (d.intern_positions name)
  | newLabel => exact List.length_append
  | labelHere => exact List.length_append
  | fix l =>
    show (d.fix l).positions.length = _
    unfold fix
    split
    · exact List.length_set
    · rfl
  | _ => rfl

/-- A label that is allocated has the position that it is allocated with. -/
theorem placed_allocate (d : Draft) (position : Option Nat) (h : ∀ p ∈ position, p ≤ d.lines.length)
    (l : Label) :
    (d.allocate position h).placed l =
      d.placed l + if l.index = d.positions.length then position.toList.length else 0 := by
  unfold placed position? allocate
  dsimp only
  rcases Nat.lt_trichotomy l.index d.positions.length with hlt | heq | hgt
  · have hne : l.index ≠ d.positions.length := Nat.ne_of_lt hlt
    rw [List.getElem?_append_left hlt, if_neg hne]
    rfl
  · rw [heq]
    simp
  · have hne : l.index ≠ d.positions.length := Nat.ne_of_gt hgt
    have hnone : (d.positions ++ [position])[l.index]? = none := by
      rw [List.getElem?_eq_none_iff, List.length_append]
      exact hgt
    simp [hnone, hne, Nat.le_of_lt hgt]

/-- **One operation that does not fail** adds a position to the labels that it places, and to no
other. -/
theorem placed_step (d : Draft) (o : Operation) (hfix : ∀ l, o = .fix l → d.fixError? l = none)
    (l : Label) :
    (d.step o).placed l = d.placed l + (o.places d.positions.length).count l := by
  cases o with
  | opAtom opcode name => exact placed_congr (d.intern_positions name) l
  | intern name => exact placed_congr (d.intern_positions name) l
  | newLabel =>
    show d.newLabel.placed l = _
    rw [newLabel, placed_allocate]
    simp [Operation.places]
  | labelHere =>
    show d.labelHere.placed l = _
    rw [labelHere, placed_allocate]
    obtain ⟨n⟩ := l
    by_cases hn : d.positions.length = n
    · simp [Operation.places, hn]
    · simp [Operation.places, hn, Ne.symm hn]
  | fix l' =>
    -- The label had no position, so it has one now, and no other label is touched.
    have hpending := fixError?_eq_none_iff.mp (hfix l' rfl)
    show ((d.fix l').position? l).toList.length = (d.position? l).toList.length + _
    rw [position?_fix hpending]
    by_cases hl : l = l'
    · subst hl
      simp [Operation.places, position?, hpending]
    · simp [Operation.places, hl, Ne.symm hl]
  | _ => rfl

/-- **A run** gives a label as many positions as there are placements of it. -/
theorem placed_perform (d : Draft) (loops : LoopStack) (os : List Operation)
    (hpermits : (d.unit loops).Permits os) (l : Label) :
    (d.perform os).placed l =
      d.placed l + (Operation.placements d.positions.length os).count l := by
  induction os generalizing d with
  | nil => rfl
  | cons o os ih =>
    rw [d.permits_cons] at hpermits
    have hrest := ih (d.step o) hpermits.2
    rw [length_positions_step, placed_step d o hpermits.1] at hrest
    rw [Operation.placements, List.count_append, ← Nat.add_assoc, ← hrest]
    rfl

end Draft

end StackCode
