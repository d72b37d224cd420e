import StackCode.Generator
import StackCode.Proofs.Backpatching
import StackCode.Proofs.Layout.Tree

/-!
# Compiled code is laid out code

A step of code generation *compiles to* a layout if it fails exactly when the layout is refused,
with the same error, and otherwise adds the code of the layout to whatever unit it is run on. The
unit is a draft, so the added lines name labels; what they say is asked of every `Reading`, a choice
of atoms and positions that agrees with the draft as it is at the end. That is where the positions
of forward jumps come from: at the end of a step all of the labels that it allocated have one.

`Compiles` is shown for the primitive steps, then for each shape of control flow from the steps that
it is made of, and then for expressions and statements by recursion on the tree.

## Why readings, and not drafts

The obvious statement, that a step adds the code of the layout to the unit, cannot be proved step by
step. In the middle of a branch there are lines whose labels have no position yet, and their
instructions are not those of the layout until the branch is over. So the code of a line is asked
for at a later time, under any reading that agrees with the draft as it will be then. A reading of a
longer draft is one of a shorter draft too (`Extends.readBy`), and that is all that has to be known
about the future.

Jumps out of a piece of code, those of `break` and `continue`, go to labels of a loop that is still
open. They are read with the targets that the reading has for the innermost loop, the same targets
that a layout is a function of.
-/

set_option autoImplicit false

namespace StackCode

/-! ## Reading a draft -/

/-- What the lines of a draft are read with: the atoms and the positions of a later draft, and the
loop targets where no loop is around. -/
structure Reading where
  atoms : Array String
  position : Label → Nat
  outside : LoopTargets

/-- The targets of the innermost loop. -/
def LoopStack.targets (loops : LoopStack) (r : Reading) : LoopTargets :=
  match loops.frames with
  | [] => r.outside
  | loop :: _ => ⟨r.position loop.entry, r.position loop.exit⟩

/-- Whether there is a loop around. -/
def LoopStack.inside (loops : LoopStack) : Bool :=
  !loops.frames.isEmpty

/-- Whether the operand is complete without the unit's atoms and labels. -/
def Operand.isPlain : Operand → Bool
  | .atom _ | .label _ => false
  | _ => true

namespace Draft

/-- The instruction of a line. -/
def Line.read (r : Reading) : Line → Op
  | .plain i => i.resolve r.atoms
  | .jump opcode l => .jump opcode (r.position l)
  | .stray opcode l => .operand opcode (.label l)

/-- Whether the line has a target, or gets one with its label. -/
def Line.isFinal : Line → Bool
  | .plain i => !i.isUnresolved
  | .jump _ _ => true
  | .stray _ _ => false

/-- The reading agrees with what is in the draft. -/
structure ReadBy (d : Draft) (r : Reading) : Prop where
  atoms : d.atoms.toList <+: r.atoms.toList
  positions : ∀ l p, d.position? l = some p → r.position l = p

/-- The reading of a draft as it is. -/
def reading (d : Draft) (outside : LoopTargets) : Reading :=
  ⟨d.atoms, fun l => (d.position? l).getD 0, outside⟩

theorem readBy_reading (d : Draft) (outside : LoopTargets) : d.ReadBy (d.reading outside) where
  atoms := List.prefix_refl _
  positions l p hp := by simp [reading, hp]

/-- A reading of the later draft is one of the earlier draft. -/
theorem Extends.readBy {d d' : Draft} {r : Reading} (h : d.Extends d') (hr : d'.ReadBy r) :
    d.ReadBy r where
  atoms := h.atoms.trans hr.atoms
  positions l p hp := hr.positions l p (h.positions l p hp)

/-- `d'` is `d` with lines added that read as `ops`. -/
structure Adds (d d' : Draft) (ops : Reading → List Op) : Prop where
  grows : d.Extends d'
  lines : ∃ new, d'.lines = d.lines ++ new ∧ (∀ line ∈ new, line.isFinal = true) ∧
    ∀ r, d'.ReadBy r → new.map (Line.read r) = ops r

section

variable {d d' d'' : Draft} {ops ops' : Reading → List Op}

/-- Nothing is added by an operation that writes no line. -/
theorem Adds.of_lines_eq (h : d.Extends d') (hlines : d'.lines = d.lines) :
    d.Adds d' fun _ => [] where
  grows := h
  lines := ⟨[], by simp [hlines], by simp, fun _ _ => rfl⟩

/-- What is added in two steps is what is added in the first and then in the second. -/
theorem Adds.trans (h : d.Adds d' ops) (h' : d'.Adds d'' ops') :
    d.Adds d'' fun r => ops r ++ ops' r where
  grows := h.grows.trans h'.grows
  lines := by
    obtain ⟨new, hnew, hfinal, hread⟩ := h.lines
    obtain ⟨new', hnew', hfinal', hread'⟩ := h'.lines
    refine ⟨new ++ new', ?_, ?_, ?_⟩
    · rw [hnew', hnew, List.append_assoc]
    · intro line hline
      rcases List.mem_append.mp hline with hline | hline
      · exact hfinal line hline
      · exact hfinal' line hline
    · intro r hr
      rw [List.map_append, hread r (h'.grows.readBy hr), hread' r hr]

/-- What is added may be restated with what is known of the readings of the later draft. -/
theorem Adds.congr (h : d.Adds d' ops) (heq : ∀ r, d'.ReadBy r → ops r = ops' r) :
    d.Adds d' ops' where
  grows := h.grows
  lines := by
    obtain ⟨new, hnew, hfinal, hread⟩ := h.lines
    exact ⟨new, hnew, hfinal, fun r hr => (hread r hr).trans (heq r hr)⟩

/-- How many lines were added can be seen from any reading. -/
theorem Adds.length_lines (h : d.Adds d' ops) {n : Nat} (hn : ∀ r, (ops r).length = n) :
    d'.lines.length = d.lines.length + n := by
  obtain ⟨new, hnew, _, hread⟩ := h.lines
  have hlen := congrArg List.length (hread _ (d'.readBy_reading ⟨0, 0⟩))
  rw [List.length_map, hn] at hlen
  rw [hnew, List.length_append, hlen]

end

/-! ## Primitive steps

Instructions, atoms and jumps are the steps that write a line. Of the three only a jump is not
complete at once. -/

section

variable (d : Draft)

/-- An instruction without atom and label reads the same under every table. -/
theorem resolve_of_isPlain {i : Instruction} (h : i.operand.all Operand.isPlain = true)
    (atoms : Array String) : i.resolve atoms = .ofInstruction i := by
  obtain ⟨opcode, operand⟩ := i
  cases operand with
  | none => rfl
  | some operand =>
    cases operand with
    | atom index => cases h
    | _ => rfl

theorem isUnresolved_of_isPlain {i : Instruction} (h : i.operand.all Operand.isPlain = true) :
    i.isUnresolved = false := by
  obtain ⟨opcode, operand⟩ := i
  cases operand with
  | none => rfl
  | some operand =>
    cases operand with
    | label l => cases h
    | _ => rfl

/-- A plain instruction reads as itself, now and later. -/
theorem adds_write {i : Instruction} (h : i.operand.all Operand.isPlain = true) :
    d.Adds (d.write i) fun _ => [.ofInstruction i] where
  grows := d.extends_write i
  lines := by
    refine ⟨[.plain i], rfl, ?_, ?_⟩
    · intro line hline
      obtain rfl := List.mem_singleton.mp hline
      simp [Line.isFinal, isUnresolved_of_isPlain h]
    · intro r _
      simp [Line.read, resolve_of_isPlain h]

/-- An atom is found under the index that was given for it. -/
theorem getElem?_intern (name : String) :
    (d.intern name).2.atoms[(d.intern name).1]? = some name := by
  unfold intern
  cases hidx : d.atoms.idxOf? name with
  | none => simp
  | some index =>
    have hlist : d.atoms.toList.idxOf? name = some index := by
      rw [← List.idxOf?_toArray]
      exact hidx
    obtain ⟨hlt, hget, _⟩ := List.idxOf?_eq_some_iff.mp hlist
    rw [← Array.getElem?_toList]
    exact List.getElem?_eq_some_iff.mpr ⟨hlt, hget⟩

/-- The index of an atom reads as the atom. Later atoms are added behind it and do not move it. -/
theorem adds_writeAtom (opcode : OpCode) (name : String) :
    d.Adds (d.writeAtom opcode name) fun _ => [.text opcode name] where
  grows := d.extends_writeAtom opcode name
  lines := by
    refine ⟨[.plain ⟨opcode, some (.atom (d.intern name).1)⟩], ?_, ?_, ?_⟩
    · show (d.intern name).2.lines ++ _ = _
      unfold intern
      cases d.atoms.idxOf? name <;> rfl
    · intro line hline
      obtain rfl := List.mem_singleton.mp hline
      rfl
    · intro r hr
      have hatoms : (d.intern name).2.atoms.toList <+: r.atoms.toList := hr.atoms
      have hget : r.atoms[(d.intern name).1]? = some name := by
        have hidx := d.getElem?_intern name
        rw [← Array.getElem?_toList] at hidx ⊢
        obtain ⟨hlt, hname⟩ := List.getElem?_eq_some_iff.mp hidx
        rw [List.prefix_iff_getElem?.mp hatoms _ hlt, hname]
      simp [Line.read, Instruction.resolve, Operand.resolve, hget, Op.text]

/-- A jump to a label that is allocated will have the position of the label for its target. -/
theorem adds_jump (opcode : OpCode) {l : Label} (h : l.index < d.positions.length) :
    d.Adds (d.jump opcode l) fun r => [.jump opcode (r.position l)] where
  grows := d.extends_jump opcode l
  lines := by
    refine ⟨[.jump opcode l], ?_, ?_, fun r _ => rfl⟩
    · show d.lines ++ [if _ then _ else _] = _
      rw [if_pos h]
    · intro line hline
      obtain rfl := List.mem_singleton.mp hline
      rfl

/-! Allocating and fixing labels writes no line. -/

@[simp] theorem newLabel_lines : d.newLabel.lines = d.lines :=
  rfl

@[simp] theorem labelHere_lines : d.labelHere.lines = d.lines :=
  rfl

@[simp] theorem fix_lines (l : Label) : (d.fix l).lines = d.lines := by
  unfold fix
  split <;> rfl

@[simp] theorem newLabel_positions : d.newLabel.positions = d.positions ++ [none] :=
  rfl

@[simp] theorem labelHere_positions :
    d.labelHere.positions = d.positions ++ [some d.lines.length] :=
  rfl

@[simp] theorem jump_positions (opcode : OpCode) (l : Label) :
    (d.jump opcode l).positions = d.positions :=
  rfl

@[simp] theorem length_jump_lines (opcode : OpCode) (l : Label) :
    (d.jump opcode l).lines.length = d.lines.length + 1 :=
  List.length_append

/-- A label that is allocated and has no position gets the number of lines for one. -/
theorem fix_positions {l : Label} (h : d.positions[l.index]? = some none) :
    (d.fix l).positions = d.positions.set l.index (some d.lines.length) := by
  unfold fix
  rw [if_pos h]

theorem exec_fix_pending {l : Label} (loops : LoopStack) (h : d.positions[l.index]? = some none) :
    (Gen.fix l).exec (d.unit loops) = (.ok (), (d.fix l).unit loops) := by
  rw [exec_fix, fixError?_eq_none_iff.mpr h]

end

section

variable {d d' : Draft} {ops : Reading → List Op}

/-- Operations that write no line leave what was added as it is. -/
theorem Adds.of_extends (h : d.Adds d' ops) {d'' : Draft} (hext : d'.Extends d'')
    (hlines : d''.lines = d'.lines) : d.Adds d'' ops := by
  have := h.trans (.of_lines_eq hext hlines)
  simpa using this

theorem Adds.newLabel (h : d.Adds d' ops) : d.Adds d'.newLabel ops :=
  h.of_extends d'.extends_newLabel rfl

theorem Adds.labelHere (h : d.Adds d' ops) : d.Adds d'.labelHere ops :=
  h.of_extends d'.extends_labelHere rfl

theorem Adds.fix (h : d.Adds d' ops) (l : Label) : d.Adds (d'.fix l) ops :=
  h.of_extends (d'.extends_fix l) (d'.fix_lines l)

/-- A jump behind what was added. Its target is asked of the reading. -/
theorem Adds.jump (h : d.Adds d' ops) (opcode : OpCode) {l : Label}
    (hl : l.index < d'.positions.length) :
    d.Adds (d'.jump opcode l) fun r => ops r ++ [.jump opcode (r.position l)] :=
  h.trans (d'.adds_jump opcode hl)

end

/-- The labels of the innermost loop are allocated. -/
def Knows (d : Draft) (loops : LoopStack) : Prop :=
  ∀ loop ∈ loops.frames.head?,
    loop.entry.index < d.positions.length ∧ loop.exit.index < d.positions.length

theorem Knows.mono {d d' : Draft} {loops : LoopStack} (h : d.Knows loops)
    (hlen : d.positions.length ≤ d'.positions.length) : d'.Knows loops := fun loop hloop =>
  ⟨Nat.lt_of_lt_of_le (h loop hloop).1 hlen, Nat.lt_of_lt_of_le (h loop hloop).2 hlen⟩

/-- `d'` is `d` with the code of `plan` behind it. Every label that was allocated on the way has a
position. -/
structure Places (d : Draft) (plan : Layout) (loops : LoopStack) (d' : Draft) : Prop where
  adds : d.Adds d' fun r => plan.code (loops.targets r) d.lines.length
  labels : ∃ fixed : List Nat, d'.positions = d.positions ++ fixed.map some

section

variable {d d' d'' : Draft} {plan plan' : Layout} {loops : LoopStack}

/-- The size of a layout is the number of its lines. -/
theorem Places.length_lines (h : d.Places plan loops d') :
    d'.lines.length = d.lines.length + plan.size :=
  h.adds.length_lines fun r => plan.length_code (loops.targets r) d.lines.length

theorem Places.knows (h : d.Places plan loops d') (hk : d.Knows loops) : d'.Knows loops :=
  hk.mono h.adds.grows.labels

/-- A line that is complete as it stands. -/
theorem Places.of_adds {ops : List Op} (h : d.Adds d' fun _ => ops)
    (hlabels : d'.positions = d.positions) : d.Places (.ofOps ops) loops d' where
  adds := h
  labels := ⟨[], by rw [hlabels, List.map_nil, List.append_nil]⟩

/-- One layout behind another. The second one is placed where the first one ends. -/
theorem Places.append (h : d.Places plan loops d') (h' : d'.Places plan' loops d'') :
    d.Places (plan ++ plan') loops d'' where
  adds := by
    refine (h.adds.trans h'.adds).congr fun r _ => ?_
    rw [h.length_lines]
    rfl
  labels := by
    obtain ⟨fixed, hfixed⟩ := h.labels
    obtain ⟨fixed', hfixed'⟩ := h'.labels
    exact ⟨fixed ++ fixed', by rw [hfixed', hfixed, List.map_append, List.append_assoc]⟩

end

end Draft

/-! ## Running steps one after another

A step is followed by others only if it succeeds. `Yields` keeps the two outcomes in one statement,
so that the refusal of a sequence comes out in the order of its parts without a case distinction in
each proof. -/

namespace Gen

/-- What running a step leads to: the error if there is one, and otherwise the unit of a draft that
is `good`. -/
def Yields (m : Gen Unit) (unit : OpenUnit) (error : Option Error) (loops : LoopStack)
    (good : Draft → Prop) : Prop :=
  match error with
  | some e => (m.exec unit).1 = .error e
  | none => ∃ d : Draft, m.exec unit = (.ok (), d.unit loops) ∧ good d

section

variable {m m' : Gen Unit} {unit : OpenUnit} {error error' : Option Error}
  {loops loops' : LoopStack} {good good' : Draft → Prop}

theorem Yields.of_exec {d : Draft} (h : m.exec unit = (.ok (), d.unit loops)) (hgood : good d) :
    Yields m unit none loops good :=
  ⟨d, h, hgood⟩

theorem Yields.mono (h : Yields m unit error loops good) (himp : ∀ d, good d → good' d) :
    Yields m unit error loops good' := by
  cases error with
  | some e => exact h
  | none =>
    obtain ⟨d, hd, hgood⟩ := h
    exact ⟨d, hd, himp d hgood⟩

/-- A first step that cannot fail. -/
theorem Yields.after {α : Type} {first : Gen α} {f : α → Gen Unit} {a : α} {unit' : OpenUnit}
    (h : first.exec unit = (.ok a, unit')) (h' : Yields (f a) unit' error loops good) :
    Yields (first >>= f) unit error loops good := by
  cases error with
  | some e =>
    show (exec (first >>= f) unit).1 = _
    rw [exec_bind_ok f h]
    exact h'
  | none =>
    obtain ⟨d, hd, hgood⟩ := h'
    refine ⟨d, ?_, hgood⟩
    rw [exec_bind_ok f h, hd]

/-- The first error counts. -/
theorem Yields.bind (h : Yields m unit error loops good)
    (h' : ∀ d, good d → Yields m' (d.unit loops) error' loops' good') :
    Yields (m >>= fun _ => m') unit (error.or error') loops' good' := by
  cases error with
  | some e =>
    show (exec (m >>= fun _ => m') unit).1 = .error e
    have he : (exec m unit).1 = .error e := h
    rw [exec_bind]
    cases hm : exec m unit with
    | mk result unit' =>
      rw [hm] at he
      cases he
      rfl
  | none =>
    obtain ⟨d, hd, hgood⟩ := h
    rw [Option.none_or]
    exact .after hd (h' d hgood)

/-- A last step that cannot fail. -/
theorem Yields.andThen (h : Yields m unit error loops good)
    (h' : ∀ d, good d → Yields m' (d.unit loops) none loops' good') :
    Yields (m >>= fun _ => m') unit error loops' good' := by
  have := h.bind h'
  rwa [Option.or_none] at this

end

/-- The step compiles to the layout, whatever it is run on. -/
def Compiles (m : Gen Unit) (plan : Layout) : Prop :=
  ∀ (d : Draft) (loops : LoopStack), d.Knows loops →
    Yields m (d.unit loops) (plan.refusal loops.inside) loops (d.Places plan loops)

/-! ## Straight-line code -/

theorem compiles_pure : Compiles (pure ()) .nothing := fun d _ _ =>
  .of_exec (exec_pure _ ()) (.of_adds (.of_lines_eq (.refl d) rfl) rfl)

theorem compiles_throw (e : Error) : Compiles (throw e) (.refused e) := fun _ _ _ =>
  rfl

theorem compiles_refuse (feature : Feature) : Compiles (refuse feature) (.unsupported feature) :=
  compiles_throw _

/-- A plain instruction is a layout of one operation. -/
theorem compiles_emit {i : Instruction} (h : i.operand.all Operand.isPlain = true) :
    Compiles (emit i) (.ofOps [.ofInstruction i]) := fun d loops _ =>
  .of_exec (d.exec_emit loops i) (.of_adds (d.adds_write h) rfl)

theorem compiles_op (opcode : OpCode) : Compiles (op opcode) (.ofOps [.bare opcode]) :=
  compiles_emit (i := ⟨opcode, none⟩) rfl

theorem compiles_opWith (opcode : OpCode) (operand : Operand) (h : operand.isPlain = true) :
    Compiles (opWith opcode operand) (.ofOps [.operand opcode operand]) :=
  compiles_emit (i := ⟨opcode, some operand⟩) h

/-- An instruction with an atom is one with the string of the atom. -/
theorem compiles_opAtom (opcode : OpCode) (name : String) :
    Compiles (opAtom opcode name) (.ofOps [.text opcode name]) := fun d loops _ => by
  refine .of_exec (d.exec_opAtom loops opcode name) (.of_adds (d.adds_writeAtom opcode name) ?_)
  show (d.intern name).2.positions = d.positions
  unfold Draft.intern
  cases d.atoms.idxOf? name <;> rfl

/-- Steps in sequence compile to layouts in sequence. -/
theorem Compiles.seq {m m' : Gen Unit} {p q : Layout} (h : Compiles m p) (h' : Compiles m' q) :
    Compiles (do m; m') (p ++ q) := fun d loops hk =>
  (h d loops hk).bind fun d₁ w₁ => (h' d₁ loops (w₁.knows hk)).mono fun _ w₂ => w₁.append w₂

/-- A step that begins with a result that may be an error. The layout begins with the same
result. -/
theorem Compiles.given {α : Type} {result : Except Error α} {f : α → Gen Unit} {plan : α → Layout}
    (h : ∀ a, result = .ok a → Compiles (f a) (plan a)) :
    Compiles (do let a ← ofExcept result; f a) (.given result plan) := by
  cases result with
  | ok a => exact h a rfl
  | error e => exact compiles_throw e

end Gen

end StackCode
