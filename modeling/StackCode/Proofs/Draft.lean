import StackCode.Gen.Basic

/-!
# Drafts

A draft is a unit under construction as a two-pass assembler would keep it: the lines written so
far, in which a jump still names its label, and a table with the position of each label that has
one. Lines are only ever added, and fixing a label is one entry of the table; no line is written
twice.

`Draft.toAssembler` is the second pass: it reads the table and shows every jump with its target, or
with its label if that has no position. The one-pass assembler patches jumps instead, through the
lists of sites that wait for each label. The statements of this file say that the two never differ:
every operation of the assembler on `d.toAssembler` gives `toAssembler` of the corresponding
operation on `d`.

The lists of sites are not part of a draft. They are computed from its lines (`Draft.sites`), in the
order in which the assembler collects them, so that there is nothing to keep in step: the invariant
that every site is a jump to its label, and every such jump a site, is an equation between two
functions of the draft and not a property to be carried along.

What a draft does carry are two facts about labels, as fields. A jump that names its label came
after the label, and no position lies behind the last line. The first is why a label that is
allocated later cannot capture an older jump: such a jump is a `stray` line and keeps its label for
good.

Nothing is said here about which operations are performed or in what order. That is left to the
files that follow, which look at any sequence of operations, or at the sequences that the compiler
performs.
-/

set_option autoImplicit false

namespace StackCode

/-- A line of a draft. -/
inductive Draft.Line where
  /-- An instruction that is final as it stands. -/
  | plain (i : Instruction)
  /-- A jump to a label that was allocated before the jump was written. -/
  | jump (opcode : OpCode) (l : Label)
  /-- A jump to a label that was not. It keeps the label for good, also if one of that number is
  allocated later. -/
  | stray (opcode : OpCode) (l : Label)
deriving DecidableEq

namespace Draft.Line

/-- Whether the line waits for the position of `l`. -/
def waitsFor (l : Label) : Line → Bool
  | .jump _ l' => l' = l
  | _ => false

/-- The instruction of a line, under a table of positions. -/
def instruction (position? : Label → Option Nat) : Line → Instruction
  | .plain i => i
  | .jump opcode l =>
    match position? l with
    | some p => ⟨opcode, some (.jump p)⟩
    | none => ⟨opcode, some (.label l)⟩
  | .stray opcode l => ⟨opcode, some (.label l)⟩

end Draft.Line

/-- The lines that wait for a label, the last one first. -/
def Draft.sites (lines : List Draft.Line) (l : Label) : List Nat :=
  ((lines.zipIdx.filter fun line => line.1.waitsFor l).map Prod.snd).reverse

/-- A unit in which jumps name their labels. -/
structure Draft where
  scope : Scope
  filename : String
  line : UInt32
  lines : List Draft.Line
  /-- The position of each allocated label, if it has one. -/
  positions : List (Option Nat)
  atoms : Array String
  /-- A jump that names its label came after the label. -/
  allocated : ∀ opcode l, Draft.Line.jump opcode l ∈ lines → l.index < positions.length
  /-- A label stands in front of a line, or behind the last one. -/
  bounded : ∀ p, some p ∈ positions → p ≤ lines.length

namespace Draft

/-- The draft of a unit in which nothing is written yet. -/
def start (scope : Scope) (filename : String) (line : UInt32) : Draft where
  scope := scope
  filename := filename
  line := line
  lines := []
  positions := []
  atoms := #[]
  allocated := nofun
  bounded := nofun

/-- The position of a label. -/
def position? (d : Draft) (l : Label) : Option Nat :=
  d.positions[l.index]?.join

/-- What the assembler knows of the label of number `n`, if `position` is what the table says of
it. -/
def labelState (lines : List Line) (n : Nat) (position : Option Nat) : LabelState :=
  match position with
  | some p => .fixed p
  | none => .pending (sites lines ⟨n⟩)

/-- Where each atom of a table stands first. -/
def index (atoms : Array String) : Std.TreeMap String Nat :=
  atoms.toList.zipIdx.foldl (fun index atom => index.insertIfNew atom.1 atom.2) {}

/-- The second pass. -/
def toAssembler (d : Draft) : Assembler where
  scope := d.scope
  filename := d.filename
  line := d.line
  code := (d.lines.map (Line.instruction d.position?)).toArray
  atoms := d.atoms
  index := index d.atoms
  labels := (d.positions.mapIdx (labelState d.lines)).toArray

/-! ## Operations

Each operation of the assembler has its counterpart on drafts. None of them can fail: fixing a label
that cannot be fixed leaves the draft as it was, and why it cannot is a function of its own. -/

/-- Writes a line that waits for no label. -/
def write (d : Draft) (i : Instruction) : Draft :=
  { d with
    lines := d.lines ++ [.plain i]
    allocated := by simpa using d.allocated
    bounded := fun p hp => by
      have := d.bounded p hp
      rw [List.length_append]
      exact Nat.le_add_right_of_le this }

/-- The index of an atom, which is added at the end if it is new. -/
def intern (d : Draft) (name : String) : Nat × Draft :=
  match d.atoms.idxOf? name with
  | some index => (index, d)
  | none => (d.atoms.size, { d with atoms := d.atoms.push name })

/-- Writes an instruction that refers to an atom. -/
def writeAtom (d : Draft) (opcode : OpCode) (name : String) : Draft :=
  (d.intern name).2.write ⟨opcode, some (.atom (d.intern name).1)⟩

/-- Allocates a label, with a position or without. -/
def allocate (d : Draft) (position : Option Nat) (h : ∀ p ∈ position, p ≤ d.lines.length) : Draft :=
  { d with
    positions := d.positions ++ [position]
    allocated := fun opcode l hl => by
      have := d.allocated opcode l hl
      rw [List.length_append]
      exact Nat.lt_add_right _ this
    bounded := fun p hp => by
      rcases List.mem_append.mp hp with hp | hp
      · exact d.bounded p hp
      · exact h p (List.mem_singleton.mp hp).symm }

/-- Allocates a label without a position. -/
def newLabel (d : Draft) : Draft :=
  d.allocate none (by simp)

/-- Allocates a label at the current position. -/
def labelHere (d : Draft) : Draft :=
  d.allocate (some d.lines.length) (by simp)

/-- Writes a jump. -/
def jump (d : Draft) (opcode : OpCode) (l : Label) : Draft :=
  { d with
    lines := d.lines ++ [if l.index < d.positions.length then .jump opcode l else .stray opcode l]
    allocated := fun opcode' l' hl => by
      rcases List.mem_append.mp hl with hl | hl
      · exact d.allocated opcode' l' hl
      · rw [List.mem_singleton] at hl
        split at hl
        · cases hl
          assumption
        · cases hl
    bounded := fun p hp => by
      have := d.bounded p hp
      rw [List.length_append]
      exact Nat.le_add_right_of_le this }

/-- Why a label cannot be given the current position. -/
def fixError? (d : Draft) (l : Label) : Option Error :=
  match d.positions[l.index]? with
  | none => some (.unknownLabel l)
  | some (some p) => some (.labelFixedTwice l p d.lines.length)
  | some none => none

/-- Gives a label the current position. A label that is unknown or has a position is left alone. -/
def fix (d : Draft) (l : Label) : Draft :=
  if d.positions[l.index]? = some none then
    { d with
      positions := d.positions.set l.index (some d.lines.length)
      allocated := by simpa using d.allocated
      bounded := fun p hp => by
        rcases List.mem_or_eq_of_mem_set hp with hp | hp
        · exact d.bounded p hp
        · cases hp
          exact Nat.le_refl _ }
  else d

/-! ## What stays

No operation takes anything back: lines and atoms are added at the end, and a label that has a
position keeps it. -/

/-- `d'` comes out of `d` by operations. -/
structure Extends (d d' : Draft) : Prop where
  scope : d'.scope = d.scope
  filename : d'.filename = d.filename
  line : d'.line = d.line
  lines : d.lines <+: d'.lines
  atoms : d.atoms.toList <+: d'.atoms.toList
  labels : d.positions.length ≤ d'.positions.length
  positions : ∀ l p, d.position? l = some p → d'.position? l = some p

theorem Extends.refl (d : Draft) : d.Extends d :=
  ⟨rfl, rfl, rfl, List.prefix_refl _, List.prefix_refl _, Nat.le_refl _, fun _ _ h => h⟩

theorem Extends.trans {d₁ d₂ d₃ : Draft} (h : d₁.Extends d₂) (h' : d₂.Extends d₃) :
    d₁.Extends d₃ where
  scope := h'.scope.trans h.scope
  filename := h'.filename.trans h.filename
  line := h'.line.trans h.line
  lines := h.lines.trans h'.lines
  atoms := h.atoms.trans h'.atoms
  labels := Nat.le_trans h.labels h'.labels
  positions l p hp := h'.positions l p (h.positions l p hp)

section

variable (d : Draft)

theorem extends_write (i : Instruction) : d.Extends (d.write i) :=
  { Extends.refl d with lines := List.prefix_append _ _ }

/-- An atom that is there already is found, and one that is not is added at the end. -/
theorem extends_intern (name : String) : d.Extends (d.intern name).2 := by
  unfold intern
  cases d.atoms.idxOf? name with
  | some index => exact Extends.refl d
  | none =>
    refine { Extends.refl d with atoms := ?_ }
    rw [Array.toList_push]
    exact List.prefix_append _ _

theorem extends_writeAtom (opcode : OpCode) (name : String) : d.Extends (d.writeAtom opcode name) :=
  (d.extends_intern name).trans (extends_write _ _)

/-- The labels so far are a prefix of the labels afterwards, so each keeps its number and its
position. -/
theorem extends_allocate (position : Option Nat) (h : ∀ p ∈ position, p ≤ d.lines.length) :
    d.Extends (d.allocate position h) := by
  refine { Extends.refl d with labels := ?_, positions := fun l p hp => ?_ }
  · simp [allocate]
  · have hget : d.positions[l.index]? = some (some p) := Option.join_eq_some_iff.mp hp
    have hl := (List.getElem?_eq_some_iff.mp hget).1
    rw [position?, allocate, List.getElem?_append_left hl]
    exact hp

theorem extends_newLabel : d.Extends d.newLabel :=
  d.extends_allocate _ _

theorem extends_labelHere : d.Extends d.labelHere :=
  d.extends_allocate _ _

theorem extends_jump (opcode : OpCode) (l : Label) : d.Extends (d.jump opcode l) :=
  { Extends.refl d with lines := List.prefix_append _ _ }

/-- Only an entry without position is filled in. A label that has one is not moved. -/
theorem extends_fix (l : Label) : d.Extends (d.fix l) := by
  unfold fix
  split
  · rename_i hnone
    refine { Extends.refl d with labels := ?_, positions := fun l' p hp => ?_ }
    · simp
    · have hget : d.positions[l'.index]? = some (some p) := Option.join_eq_some_iff.mp hp
      have hne : l.index ≠ l'.index := fun heq => by
        rw [heq, hget] at hnone
        cases hnone
      rw [position?, List.getElem?_set_ne hne]
      exact hp
  · exact Extends.refl d

end

/-! ## Sites

The assembler pushes the index of a jump to the front of the list for its label, so a list of sites
runs from the last jump to the first. -/

/-- A line that is added is a site in front of the others, if it waits for the label. -/
theorem sites_append (lines : List Line) (line : Line) (l : Label) :
    sites (lines ++ [line]) l =
      if line.waitsFor l then lines.length :: sites lines l else sites lines l := by
  unfold sites
  rw [List.zipIdx_append, List.filter_append, List.map_append, List.reverse_append]
  by_cases h : line.waitsFor l = true
  · simp [h]
  · simp [h]

/-- The sites of a label are the lines that jump to it. -/
theorem mem_sites {lines : List Line} {l : Label} {i : Nat} :
    i ∈ sites lines l ↔ ∃ opcode, lines[i]? = some (.jump opcode l) := by
  unfold sites
  rw [List.mem_reverse, List.mem_map]
  constructor
  · rintro ⟨⟨line, j⟩, hmem, rfl⟩
    obtain ⟨hget, hwaits⟩ := List.mem_filter.mp hmem
    rw [List.mk_mem_zipIdx_iff_getElem?] at hget
    cases line with
    | jump opcode l' =>
      obtain rfl : l' = l := by simpa [Line.waitsFor] using hwaits
      exact ⟨opcode, hget⟩
    | plain i => simp [Line.waitsFor] at hwaits
    | stray opcode l' => simp [Line.waitsFor] at hwaits
  · rintro ⟨opcode, hget⟩
    refine ⟨(.jump opcode l, i), List.mem_filter.mpr ⟨?_, ?_⟩, rfl⟩
    · exact List.mk_mem_zipIdx_iff_getElem?.mpr hget
    · simp [Line.waitsFor]

/-- No line waits for a label that is not allocated. -/
theorem sites_eq_nil (d : Draft) {l : Label} (h : d.positions.length ≤ l.index) :
    sites d.lines l = [] := by
  refine List.eq_nil_iff_forall_not_mem.mpr fun i hi => ?_
  obtain ⟨opcode, hget⟩ := mem_sites.mp hi
  have := d.allocated opcode l (List.mem_of_getElem? hget)
  omega

/-- A table with one more entry shows the lines of a draft as before, since none of them is a jump
to the new label. -/
theorem instruction_congr (d : Draft) {position? : Label → Option Nat}
    (h : ∀ l : Label, l.index < d.positions.length → position? l = d.position? l) :
    d.lines.map (Line.instruction position?) = d.lines.map (Line.instruction d.position?) := by
  refine List.map_congr_left fun line hline => ?_
  cases line with
  | plain i => rfl
  | stray opcode l => rfl
  | jump opcode l => simp only [Line.instruction, h l (d.allocated opcode l hline)]

/-! ## Every operation commutes with the second pass

One equation for each operation, of the form: the operation on the assembler of a draft is the
assembler of the operation on the draft. The equations are between whole states, so that they can be
rewritten with one after the other. -/

theorem toAssembler_position (d : Draft) : d.toAssembler.position = d.lines.length := by
  simp [Assembler.position, toAssembler]

theorem toAssembler_getElem? (d : Draft) (n : Nat) :
    d.toAssembler.labels[n]? = d.positions[n]?.map (labelState d.lines n) := by
  simp [toAssembler]

/-- A line that waits for no label changes nothing that is known of labels. -/
theorem labelState_append (lines : List Line) (line : Line) (h : ∀ l, line.waitsFor l = false) :
    labelState (lines ++ [line]) = labelState lines := by
  funext n position
  cases position with
  | some p => rfl
  | none => simp [labelState, sites_append, h]

/-- An instruction that is emitted is a plain line, whatever it is. -/
theorem emit_toAssembler (d : Draft) (i : Instruction) :
    d.toAssembler.emit i = (d.write i).toAssembler := by
  have hstate := labelState_append d.lines (.plain i) fun _ => rfl
  simp [Assembler.emit, toAssembler, write, hstate, Line.instruction, position?]

theorem index_push (atoms : Array String) (name : String) :
    index (atoms.push name) = (index atoms).insertIfNew name atoms.size := by
  simp [index, List.zipIdx_append]

/-- The index finds what a search of the table finds. -/
theorem getElem?_index (atoms : Array String) (name : String) :
    (index atoms)[name]? = atoms.idxOf? name := by
  -- Atoms are added at the end, so the induction is on the table from behind.
  suffices h : ∀ names : List String,
      (index names.reverse.toArray)[name]? = names.reverse.toArray.idxOf? name by
    simpa using h atoms.toList.reverse
  intro names
  induction names with
  | nil => simp [index]
  | cons last names ih =>
    rw [List.reverse_cons, ← List.push_toArray, index_push, Std.TreeMap.getElem?_insertIfNew,
      Scope.idxOf?_push, ← ih]
    by_cases heq : last = name
    · subst heq
      by_cases hm : last ∈ index names.reverse.toArray
      · simp [hm]
      · simp [hm]
    · simp [heq]

/-- The assembler finds an atom through its index and the draft by a search, with the same
answer. -/
theorem intern_toAssembler (d : Draft) (name : String) :
    d.toAssembler.intern name = ((d.intern name).1, (d.intern name).2.toAssembler) := by
  unfold Assembler.intern intern
  have hindex : d.toAssembler.index[name]? = d.atoms.idxOf? name := getElem?_index d.atoms name
  rw [hindex]
  cases d.atoms.idxOf? name with
  | some index => rfl
  | none =>
    have hpush := index_push d.atoms name
    simp only [toAssembler, hpush]
    rfl

theorem opAtom_toAssembler (d : Draft) (opcode : OpCode) (name : String) :
    d.toAssembler.opAtom opcode name = (d.writeAtom opcode name).toAssembler := by
  unfold Assembler.opAtom Assembler.opWith writeAtom
  rw [intern_toAssembler]
  exact emit_toAssembler _ _

/-- Allocating a label adds what is known of it at the end, and changes no line. -/
theorem allocate_toAssembler (d : Draft) (position : Option Nat)
    (h : ∀ p ∈ position, p ≤ d.lines.length) :
    (d.allocate position h).toAssembler =
      { d.toAssembler with
        labels := d.toAssembler.labels.push (labelState [] d.positions.length position) } := by
  have hcode : d.lines.map (Line.instruction (d.allocate position h).position?) =
      d.lines.map (Line.instruction d.position?) := by
    refine d.instruction_congr fun l hl => ?_
    simp [position?, allocate, List.getElem?_append_left hl]
  have hstate : labelState d.lines d.positions.length position =
      labelState [] d.positions.length position := by
    cases position with
    | some p => rfl
    | none =>
      have hnil := d.sites_eq_nil (l := ⟨d.positions.length⟩) (Nat.le_refl _)
      rw [labelState, hnil]
      rfl
  unfold toAssembler
  rw [show (d.allocate position h).lines = d.lines from rfl, hcode]
  simp [allocate, List.mapIdx_append, hstate]

/-- A new label has the next number and no position. -/
theorem newLabel_toAssembler (d : Draft) :
    d.toAssembler.newLabel = (⟨d.positions.length⟩, d.newLabel.toAssembler) := by
  unfold newLabel
  rw [allocate_toAssembler]
  simp [Assembler.newLabel, labelState, sites, toAssembler]

/-- A label that is allocated here has the next number and the number of lines for its position. -/
theorem labelHere_toAssembler (d : Draft) :
    d.toAssembler.labelHere = (⟨d.positions.length⟩, d.labelHere.toAssembler) := by
  unfold labelHere
  rw [allocate_toAssembler]
  simp [Assembler.labelHere, labelState, toAssembler, Assembler.position]

/-- A jump to a label that has a position changes nothing that is known of labels: only those
without one keep a list of sites. -/
theorem mapIdx_labelState_of_fixed {d : Draft} {l : Label} {p : Nat} (opcode : OpCode)
    (hp : d.positions[l.index]? = some (some p)) :
    d.positions.mapIdx (labelState (d.lines ++ [.jump opcode l])) =
      d.positions.mapIdx (labelState d.lines) := by
  refine List.mapIdx_eq_mapIdx_iff.mpr fun n hn => ?_
  cases hn' : d.positions[n] with
  | some q => rfl
  | none =>
    have hne : l ≠ ⟨n⟩ := fun h => by
      subst h
      rw [List.getElem?_eq_getElem hn, hn'] at hp
      cases hp
    simp [labelState, sites_append, Line.waitsFor, hne]

/-- A jump to a label that has no position is one more site that waits for it. -/
theorem mapIdx_labelState_of_pending {d : Draft} {l : Label} (opcode : OpCode)
    (hp : d.positions[l.index]? = some none) :
    d.positions.mapIdx (labelState (d.lines ++ [.jump opcode l])) =
      (d.positions.mapIdx (labelState d.lines)).set l.index
        (.pending (d.lines.length :: sites d.lines l)) := by
  obtain ⟨hl, hp'⟩ := List.getElem?_eq_some_iff.mp hp
  refine List.ext_getElem? fun n => ?_
  rw [List.getElem?_set, List.length_mapIdx, List.getElem?_mapIdx, List.getElem?_mapIdx]
  by_cases hn : l.index = n
  · subst hn
    simp [hl, hp', labelState, sites_append, Line.waitsFor]
  · have hne : l ≠ ⟨n⟩ := fun h => hn (by rw [h])
    rw [if_neg hn]
    congr 1
    funext position
    cases position with
    | some q => rfl
    | none => simp [labelState, sites_append, Line.waitsFor, hne]

/-- A jump is shown with its target, is one more site for its label, or keeps a label that does not
exist, as the table says. -/
theorem jump_toAssembler (d : Draft) (opcode : OpCode) (l : Label) :
    d.toAssembler.jump opcode l = (d.jump opcode l).toAssembler := by
  unfold Assembler.jump
  rw [toAssembler_getElem?]
  cases hget : d.positions[l.index]? with
  | none =>
    -- The label is not allocated: the line waits for nothing, and the table stays.
    have hl : ¬ l.index < d.positions.length :=
      Nat.not_lt.mpr (List.getElem?_eq_none_iff.mp hget)
    have hstate := labelState_append d.lines (.stray opcode l) fun _ => rfl
    simp [Assembler.opWith, Assembler.emit, toAssembler, jump, hl, hstate,
      Line.instruction, position?]
  | some position =>
    obtain ⟨hl, hget'⟩ := List.getElem?_eq_some_iff.mp hget
    cases position with
    | some p =>
      have hstate := mapIdx_labelState_of_fixed opcode hget
      simp [Assembler.opWith, Assembler.emit, labelState, toAssembler, jump, hl, hstate, position?,
        Line.instruction, hget']
    | none =>
      have hstate := mapIdx_labelState_of_pending opcode hget
      simp [Assembler.opWith, Assembler.emit, labelState, toAssembler, jump, hl, hstate, position?,
        Line.instruction, hget', Assembler.position]

/-! ## Fixing a label

The one operation that changes what was emitted before. The assembler goes through the sites of the
label and patches each of them; on the draft a single entry of the table is filled in, and the same
instructions come out since the sites are all the lines that the entry matters to. -/

/-- Patching changes the operands at the sites and nothing else. -/
theorem getElem?_foldl_patch (target : Nat) (sites : List Nat) (code : Array Instruction)
    (i : Nat) :
    (sites.foldl (Assembler.patch target) code)[i]? =
      if i ∈ sites then code[i]?.map fun x => { x with operand := some (.jump target) }
      else code[i]? := by
  induction sites generalizing code with
  | nil => simp
  | cons site sites ih =>
    rw [List.foldl_cons, ih]
    unfold Assembler.patch
    rw [Array.getElem?_modify]
    by_cases hs : site = i
    · subst hs
      by_cases hm : site ∈ sites
      · cases code[site]? <;> simp [hm]
      · simp [hm]
    · have hs' : ¬ i = site := fun h => hs h.symm
      simp [hs, hs']

/-- Fixing a label gives it the position behind the last line, and no other label a position. -/
theorem position?_fix {d : Draft} {l : Label} (h : d.positions[l.index]? = some none) (l' : Label) :
    (d.fix l).position? l' = if l' = l then some d.lines.length else d.position? l' := by
  have hl := (List.getElem?_eq_some_iff.mp h).1
  unfold fix position?
  rw [if_pos h]
  dsimp only
  rw [List.getElem?_set]
  by_cases hn : l' = l
  · subst hn
    simp [hl]
  · have hne : ¬ l.index = l'.index := fun heq => hn (by
      cases l
      cases l'
      simpa using heq.symm)
    simp [hn, hne]

/-- A line under the table in which `l` has been fixed: the lines that wait for `l` get the
position. -/
theorem instruction_fix {d : Draft} {l : Label} (h : d.positions[l.index]? = some none)
    (line : Line) :
    line.instruction (d.fix l).position? =
      if line.waitsFor l then
        { line.instruction d.position? with operand := some (.jump d.lines.length) }
      else line.instruction d.position? := by
  have hnone : d.position? l = none := by simp [position?, h]
  cases line with
  | plain i => simp [Line.instruction, Line.waitsFor]
  | stray opcode l' => simp [Line.instruction, Line.waitsFor]
  | jump opcode l' =>
    by_cases hl : l' = l
    · subst hl
      simp [Line.instruction, Line.waitsFor, position?_fix h, hnone]
    · simp [Line.instruction, Line.waitsFor, position?_fix h, hl]

theorem waitsFor_iff {line : Line} {l : Label} :
    line.waitsFor l = true ↔ ∃ opcode, line = .jump opcode l := by
  cases line <;> simp [Line.waitsFor]

/-- The patched code of a draft is its code under the new table. -/
theorem foldl_patch_sites {d : Draft} {l : Label} (h : d.positions[l.index]? = some none) :
    (sites d.lines l).foldl (Assembler.patch d.lines.length)
        (d.lines.map (Line.instruction d.position?)).toArray =
      (d.lines.map (Line.instruction (d.fix l).position?)).toArray := by
  refine Array.ext_getElem? fun i => ?_
  rw [getElem?_foldl_patch]
  simp only [List.getElem?_toArray, List.getElem?_map]
  cases hline : d.lines[i]? with
  | none => simp
  | some line =>
    have hmem : i ∈ sites d.lines l ↔ line.waitsFor l = true := by
      rw [mem_sites, hline, waitsFor_iff]
      simp
    simp only [Option.map_some, instruction_fix h]
    by_cases hw : line.waitsFor l = true
    · rw [if_pos (hmem.mpr hw), if_pos hw]
    · rw [if_neg fun hi => hw (hmem.mp hi), if_neg hw]

/-- The draft and the assembler refuse to fix the same labels, for the same reasons. -/
theorem fixError?_toAssembler (d : Draft) (l : Label) :
    d.toAssembler.fixError? l = d.fixError? l := by
  unfold Assembler.fixError? fixError?
  rw [toAssembler_getElem?, toAssembler_position]
  cases d.positions[l.index]? with
  | none => rfl
  | some position => cases position <;> rfl

/-- Patching the sites of a label is filling in its entry of the table. -/
theorem settle_toAssembler (d : Draft) (l : Label) :
    d.toAssembler.settle l = (d.fix l).toAssembler := by
  unfold Assembler.settle
  rw [toAssembler_getElem?]
  cases hget : d.positions[l.index]? with
  | none => simp [fix, hget]
  | some position =>
    cases position with
    | some p => simp [fix, hget, labelState]
    | none =>
      simp only [Option.map_some, labelState]
      rw [toAssembler_position]
      have hlines : (d.fix l).lines = d.lines := by simp [fix, hget]
      have hcode := foldl_patch_sites hget
      have hlabels : ((d.positions.mapIdx (labelState d.lines)).set l.index
          (.fixed d.lines.length)) = (d.fix l).positions.mapIdx (labelState d.lines) := by
        simp [fix, hget, List.mapIdx_set, labelState]
      unfold toAssembler
      rw [hlines]
      simp [hcode, hlabels, fix, hget]

theorem fix_toAssembler (d : Draft) (l : Label) :
    d.toAssembler.fix l =
      match d.fixError? l with
      | some e => .error e
      | none => .ok (d.fix l).toAssembler := by
  cases h : d.fixError? l with
  | some e => rw [Assembler.fix, fixError?_toAssembler, h]
  | none => rw [Assembler.fix, fixError?_toAssembler, h, settle_toAssembler]

end Draft

/-! ## Steps of code generation

The state of a step is a unit, and the units that matter are those of drafts. `Gen.exec` runs a
step; what each primitive step does to the unit of a draft is one equation. -/

namespace Gen

/-- Runs a step on a unit. -/
def exec {α : Type} (m : Gen α) (unit : OpenUnit) : Except Error α × OpenUnit :=
  m.run.run unit

section

variable {α β : Type} (unit : OpenUnit)

@[simp] theorem exec_pure (a : α) : exec (pure a) unit = (.ok a, unit) :=
  rfl

/-- A sequence of steps runs the second one only if the first one succeeds, on the unit that the
first one leaves. -/
theorem exec_bind (m : Gen α) (f : α → Gen β) :
    exec (m >>= f) unit =
      match exec m unit with
      | (.ok a, unit) => exec (f a) unit
      | (.error e, unit) => (.error e, unit) := by
  show (ExceptT.bind m f) unit = _
  unfold ExceptT.bind ExceptT.mk exec
  show (StateT.bind m.run (ExceptT.bindCont f)) unit = _
  unfold StateT.bind
  show ExceptT.bindCont f (m.run unit).1 (m.run unit).2 = match m.run unit with
      | (.ok a, unit) => exec (f a) unit
      | (.error e, unit) => (.error e, unit)
  cases m.run unit with
  | mk result unit => cases result <;> rfl

theorem exec_bind_ok {unit unit' : OpenUnit} {m : Gen α} {a : α} (f : α → Gen β)
    (h : exec m unit = (.ok a, unit')) : exec (m >>= f) unit = exec (f a) unit' := by
  rw [exec_bind, h]

/-- Fixing a label is fixing it in the assembler. The step asks whether it may before it takes the
unit apart, so that the code is patched in place. -/
theorem exec_fix (l : Label) :
    exec (fix l) unit =
      match unit.asm.fix l with
      | .ok asm => (.ok (), { unit with asm })
      | .error e => (.error e, unit) := by
  unfold fix Assembler.fix
  rw [exec_bind_ok _ (show exec get unit = (.ok unit, unit) from rfl)]
  cases unit.asm.fixError? l with
  | some e => rfl
  | none => rfl

end

end Gen

namespace Draft

/-- The open unit of a draft, inside of `loops`. -/
def unit (d : Draft) (loops : LoopStack) : OpenUnit :=
  ⟨d.toAssembler, loops⟩

section

variable (d : Draft) (loops : LoopStack)

theorem exec_emit (i : Instruction) :
    (Gen.emit i).exec (d.unit loops) = (.ok (), (d.write i).unit loops) := by
  rw [unit, unit, ← emit_toAssembler]
  rfl

theorem exec_op (opcode : OpCode) :
    (Gen.op opcode).exec (d.unit loops) = (.ok (), (d.write ⟨opcode, none⟩).unit loops) :=
  d.exec_emit loops ⟨opcode, none⟩

theorem exec_opWith (opcode : OpCode) (operand : Operand) :
    (Gen.opWith opcode operand).exec (d.unit loops) =
      (.ok (), (d.write ⟨opcode, some operand⟩).unit loops) :=
  d.exec_emit loops ⟨opcode, some operand⟩

theorem exec_opAtom (opcode : OpCode) (name : String) :
    (Gen.opAtom opcode name).exec (d.unit loops) =
      (.ok (), (d.writeAtom opcode name).unit loops) := by
  rw [unit, unit, ← opAtom_toAssembler]
  rfl

theorem exec_jump (opcode : OpCode) (l : Label) :
    (Gen.jump opcode l).exec (d.unit loops) = (.ok (), (d.jump opcode l).unit loops) := by
  rw [unit, unit, ← jump_toAssembler]
  rfl

/-- The label that is handed out is the one after all others. -/
theorem exec_newLabel :
    Gen.newLabel.exec (d.unit loops) = (.ok ⟨d.positions.length⟩, d.newLabel.unit loops) := by
  have h := d.newLabel_toAssembler
  show (Except.ok d.toAssembler.newLabel.1, OpenUnit.mk d.toAssembler.newLabel.2 loops) = _
  rw [h]
  rfl

theorem exec_labelHere :
    Gen.labelHere.exec (d.unit loops) = (.ok ⟨d.positions.length⟩, d.labelHere.unit loops) := by
  have h := d.labelHere_toAssembler
  show (Except.ok d.toAssembler.labelHere.1, OpenUnit.mk d.toAssembler.labelHere.2 loops) = _
  rw [h]
  rfl

/-- A label that can be fixed is fixed. Otherwise the unit stays as it was. -/
theorem exec_fix (l : Label) :
    (Gen.fix l).exec (d.unit loops) =
      match d.fixError? l with
      | some e => (.error e, d.unit loops)
      | none => (.ok (), (d.fix l).unit loops) := by
  rw [Gen.exec_fix, unit, fix_toAssembler]
  cases d.fixError? l with
  | some e => rfl
  | none => rfl

end

end Draft

end StackCode
