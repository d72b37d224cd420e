import StackCode.Proofs.Layout.Compiles

/-!
# The atom table

An assembler keeps its atoms twice: in a table, where an instruction finds the string of its
operand, and in an index, where interning finds the place of a string. This file follows both over
every sequence of operations on a new unit.

`Draft.Interned` is the invariant: the table holds the strings that were asked for, each once, in
the order in which they were first asked for. `Interned.step` is one operation and
`Interned.perform` a sequence. A table is only ever added to, so what an index stands for never
changes, and the operand of an instruction still resolves when the unit is closed.

The index is not followed separately. It is the search tree of the table (`Draft.index`), and that
interning keeps it so has been shown together with the other operations of the assembler. What
remains is about the table alone.

Strings are compared as they are, and nothing is said about how they were spelled in the source: two
literals that decode to the same string are the same string here.
-/

set_option autoImplicit false

namespace StackCode

/-- The string that an operation interns. -/
def Operation.name? : Operation → Option String
  | .opAtom _ name => some name
  | .intern name => some name
  | _ => none

/-- A string that is met again leaves the list of strings without repetitions as it was. -/
theorem eraseDups_append_singleton (names : List String) (name : String) :
    (names ++ [name]).eraseDups = if name ∈
      names then names.eraseDups else names.eraseDups ++ [name] := by
  rw [List.eraseDups_append]
  by_cases h : name ∈ names
  · simp [List.removeAll, h]
  · simp [List.removeAll, h, List.eraseDups_cons]

/-- In a table without repetitions, a search for a string finds the one place where it stands. -/
theorem idxOf?_eq_some_iff {atoms : Array String} (h : atoms.toList.Nodup) {name : String}
    {i : Nat} :
    atoms.idxOf? name = some i ↔ atoms[i]? = some name := by
  have hlist : atoms.idxOf? name = atoms.toList.idxOf? name := List.idxOf?_toArray name _
  rw [hlist, List.idxOf?_eq_some_iff, ← Array.getElem?_toList, List.getElem?_eq_some_iff]
  constructor
  · rintro ⟨hi, hname, -⟩
    exact ⟨hi, hname⟩
  · rintro ⟨hi, hname⟩
    refine ⟨hi, hname, ?_⟩
    intro j hj hsame
    have hget : atoms.toList[j]? = atoms.toList[i]? := by
      rw [List.getElem?_eq_getElem (Nat.lt_trans hj hi), List.getElem?_eq_getElem hi, hsame, hname]
    exact Nat.ne_of_lt hj ((List.getElem?_inj (Nat.lt_trans hj hi) h).mp hget)

/-- What stands at a place of a table stands there in a longer one. -/
theorem getElem?_of_prefix {atoms atoms' : Array String} (h : atoms.toList <+: atoms'.toList)
    {name : String} {i : Nat} (hget : atoms[i]? = some name) : atoms'[i]? = some name := by
  rw [← Array.getElem?_toList] at hget ⊢
  obtain ⟨hi, hname⟩ := List.getElem?_eq_some_iff.mp hget
  rw [List.prefix_iff_getElem?.mp h i hi, hname]

namespace Draft

/-! ## What an operation adds

An operation that interns a string adds it or finds it. All others leave the table alone, and so
does an operation that fails. -/

theorem lines_intern (d : Draft) (name : String) : (d.intern name).2.lines = d.lines := by
  unfold intern
  cases d.atoms.idxOf? name <;> rfl

theorem atoms_intern (d : Draft) (name : String) :
    (d.intern name).2.atoms.toList =
      if name ∈ d.atoms.toList then d.atoms.toList else d.atoms.toList ++ [name] := by
  unfold intern
  cases hfound : d.atoms.idxOf? name with
  | some index =>
    have hmem : name ∈ d.atoms := Decidable.not_not.mp fun hnot => by
      rw [Array.idxOf?_eq_none_iff.mpr hnot] at hfound
      cases hfound
    simp [hmem]
  | none =>
    have hnot : name ∉ d.atoms := Array.idxOf?_eq_none_iff.mp hfound
    simp [hnot]

/-- An operation changes the table only by the string that it interns. -/
theorem atoms_step (d : Draft) (o : Operation) :
    (d.step o).atoms.toList = o.name?.elim d.atoms.toList fun name =>
      (d.intern name).2.atoms.toList := by
  cases o with
  | fix l =>
    show (d.fix l).atoms.toList = _
    unfold fix
    split <;> rfl
  | _ => rfl

/-- The table holds the strings of `names`, each once, in the order in which they come first. -/
structure Interned (d : Draft) (names : List String) : Prop where
  table : d.atoms.toList = names.eraseDups
  nodup : d.atoms.toList.Nodup

theorem interned_start (scope : Scope) (filename : String) (line : UInt32) :
    (start scope filename line).Interned [] where
  table := rfl
  nodup := List.nodup_nil

section

variable {d : Draft} {names : List String}

/-- The table has the strings that were asked for and no others. -/
theorem Interned.mem_iff (h : d.Interned names) {name : String} :
    name ∈ d.atoms.toList ↔ name ∈ names := by
  rw [h.table, List.mem_eraseDups]

/-- **One operation.** -/
theorem Interned.step (h : d.Interned names) (o : Operation) :
    (d.step o).Interned (names ++ o.name?.toList) := by
  have hatoms := d.atoms_step o
  cases hname : o.name? with
  | none =>
    rw [hname] at hatoms
    refine ⟨?_, ?_⟩
    · simpa using hatoms.trans h.table
    · rw [hatoms]
      exact h.nodup
  | some name =>
    rw [hname, Option.elim_some, atoms_intern] at hatoms
    refine ⟨?_, ?_⟩
    · rw [hatoms, Option.toList_some, eraseDups_append_singleton, ← h.table]
      simp only [h.mem_iff]
    · rw [hatoms]
      split
      · exact h.nodup
      · rename_i hnew
        rw [List.nodup_append]
        refine ⟨h.nodup, by simp, ?_⟩
        rintro a ha b hb rfl
        obtain rfl := List.mem_singleton.mp hb
        exact hnew ha

/-- **Any sequence of operations.** -/
theorem Interned.perform (h : d.Interned names) (os : List Operation) :
    (d.perform os).Interned (names ++ os.filterMap Operation.name?) := by
  induction os generalizing d names with
  | nil =>
    rw [List.filterMap_nil, List.append_nil]
    exact h
  | cons o os ih =>
    have hrest : (d.perform (o :: os)).Interned _ := ih (h.step o)
    cases hname : o.name? with
    | none => simpa [hname] using hrest
    | some name => simpa [hname] using hrest

/-! ## What stays -/

/-- Tables are only added to, so an index stands for the same string ever after. -/
theorem Extends.getElem?_atoms {d' : Draft} (h : d.Extends d') {i : Nat} {name : String}
    (hget : d.atoms[i]? = some name) : d'.atoms[i]? = some name :=
  getElem?_of_prefix h.atoms hget

/-- A string that has an index is interned under that index, and nothing changes. -/
theorem Interned.intern_eq (h : d.Interned names) {i : Nat} {name : String}
    (hget : d.atoms[i]? = some name) :
    d.intern name = (i, d) := by
  unfold intern
  rw [(idxOf?_eq_some_iff h.nodup).mpr hget]

/-- After an operation that interns a string, the string stands where interning it would have put
it. -/
theorem getElem?_atoms_step (d : Draft) {o : Operation} {name : String} (h : o.name? = some name) :
    (d.step o).atoms[(d.intern name).1]? = some name := by
  have hatoms := d.atoms_step o
  rw [h, Option.elim_some] at hatoms
  rw [← Array.getElem?_toList, hatoms, Array.getElem?_toList]
  exact d.getElem?_intern name

end

/-! ## Operands -/

/-- An instruction that refers to an atom stands where it was written, with the index that it was
given, when the unit is closed. -/
theorem getElem?_close_writeAtom {d d' : Draft} {opcode : OpCode} {name : String}
    {closed : CodeUnit} (hext : (d.writeAtom opcode name).Extends d')
    (hclose : d'.toAssembler.close = .ok closed) :
    closed.code[d.lines.length]? = some ⟨opcode, some (.atom (d.intern name).1)⟩ ∧
      closed.atoms[(d.intern name).1]? = some name := by
  obtain ⟨-, -, rfl⟩ := (close_eq_ok_iff d' closed).mp hclose
  refine ⟨?_, ?_⟩
  · have hlines : (d.writeAtom opcode name).lines =
        d.lines ++ [.plain ⟨opcode, some (.atom (d.intern name).1)⟩] := by
      show (d.intern name).2.lines ++ _ = _
      rw [(d.lines_intern name)]
    have hline :
        d'.lines[d.lines.length]? = some (.plain ⟨opcode, some (.atom (d.intern name).1)⟩) := by
      have hlt : d.lines.length < (d.writeAtom opcode name).lines.length := by simp [hlines]
      rw [List.prefix_iff_getElem?.mp hext.lines _ hlt]
      simp [hlines]
    have hlt : d.lines.length < d'.toAssembler.code.size := by
      simpa [toAssembler] using (List.getElem?_eq_some_iff.mp hline).1
    show (d'.toAssembler.code.push _)[d.lines.length]? = _
    rw [Array.getElem?_push_lt hlt, ← Array.getElem?_eq_getElem hlt]
    simp [toAssembler, hline, Line.instruction]
  · exact hext.getElem?_atoms (d.getElem?_intern name)

end Draft

/-- **Interning.** After any operations on a new unit:

- the table holds the strings that the operations interned, each once, in the order of their first
  use;
- the index sends a string to a number exactly if the string stands at that place of the table;
- once an operation has interned a string, whatever is done next, interning it again gives the index
  that it had then, and changes nothing;
- an instruction that was written with a string has, in the unit as it is closed later, an operand
  at which the table holds that string. -/
theorem atoms_interned (scope : Scope) (filename : String) (line : UInt32) (os : List Operation) :
    let unit := OpenUnit.perform { asm := { scope, filename, line } } os
    (unit.asm.atoms.toList = (os.filterMap Operation.name?).eraseDups ∧
      unit.asm.atoms.toList.Nodup) ∧
    (∀ (name : String) (i : Nat), unit.asm.index[name]? = some i ↔ unit.asm.atoms[i]? = some name) ∧
    (∀ (o : Operation) (name : String) (more : List Operation), o.name? = some name →
      let later := unit.perform (o :: more)
      later.asm.intern name = ((unit.asm.intern name).1, later.asm)) ∧
    ∀ (opcode : OpCode) (name : String) (more : List Operation) (closed : CodeUnit),
      (unit.perform (.opAtom opcode name :: more)).asm.close = .ok closed →
        ∃ i, closed.code[unit.asm.position]? = some ⟨opcode, some (.atom i)⟩ ∧
        closed.atoms[i]? = some name := by
  intro unit
  let start := Draft.start scope filename line
  let draft := start.perform os
  have hunit : unit = draft.unit {} := start.perform_unit {} os
  -- The one invariant that all four parts rest on, at the draft that the operations lead to.
  have hinterned : draft.Interned (os.filterMap Operation.name?) :=
    (Draft.interned_start scope filename line).perform os
  rw [hunit]
  refine ⟨⟨hinterned.table, hinterned.nodup⟩, ?_, ?_, ?_⟩
  · -- The index is the search tree of the table, and a table without repetitions finds what is
    -- there.
    intro name i
    show (Draft.index draft.atoms)[name]? = some i ↔ _
    rw [Draft.getElem?_index]
    exact idxOf?_eq_some_iff hinterned.nodup
  · intro o name more hname later
    have hlater : later = (draft.perform (o :: more)).unit {} := draft.perform_unit {} (o :: more)
    -- The string stands where it was put, and later operations do not move it.
    have hget : (draft.perform (o :: more)).atoms[(draft.intern name).1]? = some name :=
      ((draft.step o).extends_perform more).getElem?_atoms (draft.getElem?_atoms_step hname)
    rw [hlater]
    show (draft.perform (o :: more)).toAssembler.intern name = _
    rw [Draft.intern_toAssembler, (hinterned.perform (o :: more)).intern_eq hget]
    show _ = ((draft.toAssembler.intern name).1, _)
    rw [Draft.intern_toAssembler]
    rfl
  · intro opcode name more closed hclose
    rw [draft.perform_unit {} (.opAtom opcode name :: more)] at hclose
    -- The line is still there at the end, with the operand that it was written with.
    have hext : (draft.writeAtom opcode name).Extends
        (draft.perform (.opAtom opcode name :: more)) :=
      Draft.extends_perform _ more
    show ∃ i, closed.code[draft.toAssembler.position]? = _ ∧ _
    rw [draft.toAssembler_position]
    exact ⟨_, Draft.getElem?_close_writeAtom hext hclose⟩

end StackCode
