import StackCode.Proofs.Layout.Units
import StackCode.Proofs.Listing.Display
import StackCode.Proofs.WellFormed.Units

/-!
# Listings are faithful

Two units with the same listing have the same code. A listing can be taken apart from its start:
each number in the header ends at the first character that is no digit, the name of an operation
ends at a blank or at the end of its line, and the text of an operand has no line break. What is
left is the operand, whose text does not say of which kind it is; but in a unit that the compiler
has built, the operation says so.

## What the listing cannot tell

The listing shows what the machine runs. Of parameters and locals it shows how many there are and
not their names, of the atoms only those that an instruction refers to, and of an operand not its
kind. So the statement is an equivalence between equal listings and equal code with the atoms read
in, and the equality of the two atom tables is no part of it.

The names of the files are assumed to be the same. The name stands at the beginning of the header
and may be any text, even one that looks like the rest of a header, so without the assumption two
headers could agree with different numbers in them.

Hypotheses of well-formedness are needed: in an arbitrary unit the operand of an instruction may be
of any kind, and the text `3` may be a slot, an integer or a number of arguments.
-/

set_option autoImplicit false

namespace StackCode

open Text (quote quote_injective append_cons_inj append_cons_inj_of_notMem toString_injective)

/-! ## Numbers and names

Each can be read back, and ends before the first character that it cannot contain. -/

namespace Listing

/-- A number that is not negative begins with a digit, every other one with the sign. -/
theorem toString_int_injective {z z' : Int} (h : toString z = toString z') : z = z' := by
  have hsign : ∀ n n' : Nat, toString n ≠ "-" ++ toString n' := by
    intro n n' heq
    have hmem : '-' ∈ (toString n).toList := by
      rw [heq, String.toList_append]
      exact List.mem_append_left _ (by decide)
    exact absurd (isDigit_toString n '-' hmem) (by decide)
  rw [Int.toString_eq_repr, Int.toString_eq_repr, Int.repr_eq_if, Int.repr_eq_if] at h
  split at h
  · split at h
    · have := toString_injective h
      omega
    · exact absurd h (hsign _ _)
  · split at h
    · exact absurd h.symm (hsign _ _)
    · have := toString_injective (String.append_right_inj _ |>.mp h)
      omega

/-- A number in front of a character that is no digit. -/
theorem toString_append_inj {n n' : Nat} {stop stop' : Char} {rest rest' : List Char}
    (hstop : ¬ stop.isDigit) (hstop' : ¬ stop'.isDigit)
    (heq : (toString n).toList ++ stop :: rest = (toString n').toList ++ stop' :: rest') :
    n = n' ∧ rest = rest' := by
  obtain ⟨hdigits, -, hrest⟩ :=
    append_cons_inj (isDigit_toString n) (isDigit_toString n') hstop hstop' heq
  exact ⟨toString_injective (String.toList_injective hdigits), hrest⟩

/-- Leading zeros do not change the number. -/
theorem offset_injective {n n' : Nat} (h : offset n = offset n') : n = n' := by
  have hvalue : ∀ n, Nat.ofDigitChars 10 (offset n).toList 0 = n := by
    intro n
    rw [offset, String.toList_ofList, Nat.ofDigitChars_append, Nat.ofDigitChars_replicate_zero,
      Nat.mul_zero, Nat.ofDigitChars_toDigits (by decide) (by decide)]
  rw [← hvalue n, h, hvalue n']

end Listing

namespace OpCode

theorem ofName?_name (opcode : OpCode) : ofName? opcode.name = some opcode := by
  cases opcode <;> decide

theorem name_injective {opcode opcode' : OpCode} (h : opcode.name = opcode'.name) :
    opcode = opcode' :=
  Option.some.inj (by rw [← ofName?_name opcode, h, ofName?_name opcode'])

theorem isAlphanum_name (opcode : OpCode) : ∀ c ∈ opcode.name.toList, c.isAlphanum := by
  have hall : opcode.name.toList.all Char.isAlphanum = true := by cases opcode <;> decide
  exact List.all_eq_true.mp hall

end OpCode

namespace CodeUnit

variable {unit unit' : CodeUnit}

/-! ## Headers -/

/-- A header shows the line and the two numbers of slots. -/
theorem header_append_inj (hname : unit.filename = unit'.filename) {rest rest' : List Char}
    (heq : unit.header.toList ++ '\n' :: rest = unit'.header.toList ++ '\n' :: rest') :
    unit.line = unit'.line ∧ unit.scope.parameters.size = unit'.scope.parameters.size ∧
      unit.scope.locals.size = unit'.scope.locals.size ∧ rest = rest' := by
  have hblank : ¬ ' '.isDigit := by decide
  simp only [header_eq, String.toList_append, List.append_assoc, hname] at heq
  have hnumbers := List.append_cancel_left (List.append_cancel_left (List.append_cancel_left heq))
  obtain ⟨hline, hnumbers⟩ := Listing.toString_append_inj hblank hblank hnumbers
  have hnumbers : "nargs=".toList ++ _ = "nargs=".toList ++ _ := hnumbers
  obtain ⟨hargs, hnumbers⟩ :=
    Listing.toString_append_inj hblank hblank (List.append_cancel_left hnumbers)
  have hnumbers : "nfixed=".toList ++ _ = "nfixed=".toList ++ _ := hnumbers
  obtain ⟨hlocals, hrest⟩ :=
    Listing.toString_append_inj (by decide) (by decide) (List.append_cancel_left hnumbers)
  exact ⟨UInt32.toNat_inj.mp hline, hargs, hlocals, hrest⟩

/-! ## Operands -/

/-- Operands of one kind are shown alike only if they are the same. -/
theorem operandText_eq_iff {operand operand' : Operand} (hkind : operand.kind = operand'.kind)
    (hfound : ∀ index, operand = .atom index → index < unit.atoms.size)
    (hfound' : ∀ index, operand' = .atom index → index < unit'.atoms.size) :
    unit.operandText operand = unit'.operandText operand' ↔
      operand.resolve unit.atoms = operand'.resolve unit'.atoms := by
  have hnat : ∀ {n n' : Nat}, toString n = toString n' ↔ n = n' :=
    ⟨toString_injective, congrArg toString⟩
  have hint : ∀ {z z' : Int}, toString z = toString z' ↔ z = z' :=
    ⟨Listing.toString_int_injective, congrArg toString⟩
  -- The kinds are the same, so there is one case for each. In all but the atom the operand is a
  -- number.
  cases operand with
  | slot n =>
    cases operand' with
    | slot n' =>
      simp only [operandText, Operand.resolve, hnat, UInt16.toNat_inj, Argument.operand.injEq,
        Operand.slot.injEq]
    | _ => cases hkind
  | atom index =>
    cases operand' with
    | atom index' =>
      have hindex := hfound index rfl
      have hindex' := hfound' index' rfl
      simp only [operandText, Operand.resolve, Array.getElem?_eq_getElem hindex,
        Array.getElem?_eq_getElem hindex', Argument.text.injEq]
      exact ⟨quote_injective, congrArg quote⟩
    | _ => cases hkind
  | int8 value =>
    cases operand' with
    | int8 value' =>
      simp only [operandText, Operand.resolve, hint, Int8.toInt_inj, Argument.operand.injEq,
        Operand.int8.injEq]
    | _ => cases hkind
  | uint16 value =>
    cases operand' with
    | uint16 value' =>
      simp only [operandText, Operand.resolve, hnat, UInt16.toNat_inj, Argument.operand.injEq,
        Operand.uint16.injEq]
    | _ => cases hkind
  | uint24 value =>
    cases operand' with
    | uint24 value' =>
      simp only [operandText, Operand.resolve, hnat, UInt32.toNat_inj, Argument.operand.injEq,
        Operand.uint24.injEq]
    | _ => cases hkind
  | int32 value =>
    cases operand' with
    | int32 value' =>
      simp only [operandText, Operand.resolve, hint, Int32.toInt_inj, Argument.operand.injEq,
        Operand.int32.injEq]
    | _ => cases hkind
  | argCount n =>
    cases operand' with
    | argCount n' =>
      simp only [operandText, Operand.resolve, hnat, UInt16.toNat_inj, Argument.operand.injEq,
        Operand.argCount.injEq]
    | _ => cases hkind
  | length n =>
    cases operand' with
    | length n' =>
      simp only [operandText, Operand.resolve, hnat, Argument.operand.injEq, Operand.length.injEq]
    | _ => cases hkind
  | jump target =>
    cases operand' with
    | jump target' =>
      simp only [operandText, Operand.resolve, Argument.operand.injEq, Operand.jump.injEq]
      exact ⟨Listing.offset_injective, congrArg Listing.offset⟩
    | _ => cases hkind
  | label l =>
    cases operand' with
    | label l' =>
      obtain ⟨index⟩ := l
      obtain ⟨index'⟩ := l'
      show "L" ++ toString index = "L" ++ toString index' ↔ _
      simp only [String.append_right_inj, hnat, Operand.resolve, Argument.operand.injEq,
        Operand.label.injEq, Label.mk.injEq]
    | _ => cases hkind

/-! ## Lines -/

theorem toList_displayLine_none {i : Instruction} (h : i.operand = none) (index : Nat)
    (rest : List Char) :
    (unit.displayLine index i).toList ++ rest =
      (Listing.offset index ++ "  ").toList ++ (i.opcode.name.toList ++ '\n' :: rest) := by
  simp [displayLine, h]

/-- The blanks that fill the column of the name stand behind the one that ends it. -/
theorem toList_displayLine_some {i : Instruction} {operand : Operand}
    (h : i.operand = some operand) (index : Nat) (rest : List Char) :
    (unit.displayLine index i).toList ++ rest =
      (Listing.offset index ++ "  ").toList ++ (i.opcode.name.toList ++
        ' ' :: (List.replicate (10 - i.opcode.name.length) ' ' ++
          ((unit.operandText operand).toList ++ '\n' :: rest))) := by
  have hblanks : ∀ (n : Nat) (text : List Char),
      List.replicate n ' ' ++ ' ' :: text = ' ' :: (List.replicate n ' ' ++ text) := by
    intro n text
    rw [← List.singleton_append, ← List.append_assoc, ← List.replicate_succ', List.replicate_succ,
      List.cons_append]
  simp [displayLine, h, Listing.column, hblanks]

/-- A line is not empty. -/
theorem displayFrom_cons_ne_empty (unit : CodeUnit) (index : Nat) (i : Instruction)
    (code : List Instruction) :
    unit.displayFrom index (i :: code) ≠ "" := by
  intro hempty
  have hlist := congrArg String.toList hempty
  rw [displayFrom, String.toList_append] at hlist
  cases hoperand : i.operand with
  | none =>
    rw [toList_displayLine_none hoperand] at hlist
    simp at hlist
  | some operand =>
    rw [toList_displayLine_some hoperand] at hlist
    simp at hlist

section Lines

variable (hunit : unit.WellFormed) (hunit' : unit'.WellFormed)
include hunit hunit'

/-- Behind the same operation stand operands of the same kind, so their texts tell them apart. -/
theorem operandText_eq_iff_of_mem {opcode : OpCode} {operand operand' : Operand}
    (hi : ⟨opcode, some operand⟩ ∈ unit.code) (hi' : ⟨opcode, some operand'⟩ ∈ unit'.code) :
    unit.operandText operand = unit'.operandText operand' ↔
      operand.resolve unit.atoms = operand'.resolve unit'.atoms := by
  have hkind : some operand.kind = opcode.operandKind := hunit.operands _ hi
  have hkind' : some operand'.kind = opcode.operandKind := hunit'.operands _ hi'
  apply operandText_eq_iff (Option.some.inj (hkind.trans hkind'.symm))
  · intro index heq
    exact hunit.atoms _ hi index (congrArg some heq)
  · intro index heq
    exact hunit'.atoms _ hi' index (congrArg some heq)

/-- **A line shows its instruction**, and the lines behind it do not change what it shows. -/
theorem displayLine_append_inj {i i' : Instruction} (hi : i ∈ unit.code)
    (hi' : i' ∈ unit'.code) {index : Nat}
    {rest rest' : List Char}
    (heq : (unit.displayLine index i).toList ++ rest =
      (unit'.displayLine index i').toList ++ rest') :
    i.resolve unit.atoms = i'.resolve unit'.atoms ∧ rest = rest' := by
  have hblank : ¬ ' '.isAlphanum := by decide
  have hbreak : ¬ '\n'.isAlphanum := by decide
  have hname := i.opcode.isAlphanum_name
  have hname' := i'.opcode.isAlphanum_name
  obtain ⟨opcode, operand⟩ := i
  obtain ⟨opcode', operand'⟩ := i'
  cases operand with
  | none =>
    rw [toList_displayLine_none rfl] at heq
    cases operand' with
    | none =>
      rw [toList_displayLine_none rfl] at heq
      obtain ⟨hnames, -, hrest⟩ :=
        append_cons_inj hname hname' hbreak hbreak (List.append_cancel_left heq)
      obtain rfl := OpCode.name_injective (String.toList_injective hnames)
      exact ⟨rfl, hrest⟩
    | some operand' =>
      -- Only one of the lines has an operand: one name ends at a line break and the other at a
      -- blank.
      rw [toList_displayLine_some rfl] at heq
      obtain ⟨-, hstop, -⟩ :=
        append_cons_inj hname hname' hbreak hblank (List.append_cancel_left heq)
      exact absurd hstop (by decide)
  | some operand =>
    rw [toList_displayLine_some rfl] at heq
    cases operand' with
    | none =>
      rw [toList_displayLine_none rfl] at heq
      obtain ⟨-, hstop, -⟩ :=
        append_cons_inj hname hname' hblank hbreak (List.append_cancel_left heq)
      exact absurd hstop (by decide)
    | some operand' =>
      rw [toList_displayLine_some rfl] at heq
      obtain ⟨hnames, -, htexts⟩ :=
        append_cons_inj hname hname' hblank hblank (List.append_cancel_left heq)
      obtain rfl := OpCode.name_injective (String.toList_injective hnames)
      -- The operation says of which kind the operand is, and its text ends at the line break.
      have hbreak :
          ∀ (unit : CodeUnit) (operand : Operand), '\n' ∉ (unit.operandText operand).toList :=
        fun unit operand => (unit.printable_operandText operand).notMem (by decide)
      obtain ⟨htext, hrest⟩ :=
        append_cons_inj_of_notMem (hbreak _ _) (hbreak _ _) (List.append_cancel_left htexts)
      have hargument :=
        (operandText_eq_iff_of_mem hunit hunit' hi hi').mp (String.toList_injective htext)
      exact ⟨congrArg (fun argument => Op.mk opcode (some argument)) hargument, hrest⟩

/-- Nothing else of an instruction is shown. -/
theorem displayLine_congr {i i' : Instruction} (hi : i ∈ unit.code) (hi' : i' ∈ unit'.code)
    (index : Nat) (heq : i.resolve unit.atoms = i'.resolve unit'.atoms) :
    unit.displayLine index i = unit'.displayLine index i' := by
  obtain ⟨opcode, operand⟩ := i
  obtain ⟨opcode', operand'⟩ := i'
  obtain ⟨rfl, harguments⟩ := Op.mk.inj heq
  cases operand with
  | none =>
    cases operand' with
    | none => rfl
    | some operand' => cases harguments
  | some operand =>
    cases operand' with
    | none => cases harguments
    | some operand' =>
      have htext := (operandText_eq_iff_of_mem hunit hunit' hi hi').mpr (Option.some.inj harguments)
      simp only [displayLine, htext]

/-- **The lines of a unit show its instructions**, one by one. -/
theorem displayFrom_eq_iff {code code' : List Instruction} (hcode : ∀ i ∈ code, i ∈ unit.code)
    (hcode' : ∀ i ∈ code', i ∈ unit'.code) (index : Nat) :
    unit.displayFrom index code = unit'.displayFrom index code' ↔
      code.map (Instruction.resolve unit.atoms) = code'.map (Instruction.resolve unit'.atoms) := by
  induction code generalizing code' index with
  | nil =>
    cases code' with
    | nil => exact ⟨fun _ => rfl, fun _ => rfl⟩
    | cons i' code' =>
      exact ⟨fun heq => absurd heq.symm (unit'.displayFrom_cons_ne_empty index i' code'),
        fun heq => nomatch heq⟩
  | cons i code ih =>
    cases code' with
    | nil =>
      exact ⟨fun heq => absurd heq (unit.displayFrom_cons_ne_empty index i code),
        fun heq => nomatch heq⟩
    | cons i' code' =>
      rw [List.forall_mem_cons] at hcode hcode'
      rw [displayFrom, displayFrom, List.map_cons, List.map_cons, List.cons.injEq]
      constructor
      · intro heq
        have hlist := congrArg String.toList heq
        rw [String.toList_append, String.toList_append] at hlist
        -- The first line is taken off both texts, and what is left are the other lines.
        obtain ⟨hline, hlines⟩ := displayLine_append_inj hunit hunit' hcode.1 hcode'.1 hlist
        exact ⟨hline, (ih hcode.2 hcode'.2 (index + 1)).mp (String.toList_injective hlines)⟩
      · rintro ⟨hline, hlines⟩
        rw [displayLine_congr hunit hunit' hcode.1 hcode'.1 index hline,
          (ih hcode.2 hcode'.2 (index + 1)).mpr hlines]

/-- **What a listing shows**: where the unit comes from, how many slots it has, and its
operations. -/
theorem listing_eq_iff (hname : unit.filename = unit'.filename) :
    unit.listing false = unit'.listing false ↔
      unit.line = unit'.line ∧ unit.scope.parameters.size = unit'.scope.parameters.size ∧
        unit.scope.locals.size = unit'.scope.locals.size ∧ unit.ops = unit'.ops := by
  have hlines :=
    displayFrom_eq_iff hunit hunit' (fun _ => Array.mem_toList_iff.mp)
      (fun _ => Array.mem_toList_iff.mp) 0
  rw [listing_false, listing_false, ops, ops, ← hlines]
  constructor
  · intro heq
    have hlist := congrArg String.toList heq
    simp only [display, String.toList_append, List.append_assoc] at hlist
    obtain ⟨hline, hargs, hlocals, hrest⟩ := header_append_inj hname hlist
    exact ⟨hline, hargs, hlocals, String.toList_injective hrest⟩
  · rintro ⟨hline, hargs, hlocals, hrest⟩
    rw [display, display, header_eq, header_eq, hname, hline, hargs, hlocals, hrest]

end Lines

theorem ops_eq_iff :
    unit.ops = unit'.ops ↔
      unit.code.size = unit'.code.size ∧
        ∀ j : Nat, unit.code[j]?.map (Instruction.resolve unit.atoms) =
          unit'.code[j]?.map (Instruction.resolve unit'.atoms) := by
  constructor
  · intro heq
    refine ⟨?_, fun j => ?_⟩
    · simpa [ops] using congrArg List.length heq
    · simpa [ops] using congrArg (fun ops => ops[j]?) heq
  · rintro ⟨-, hcode⟩
    apply List.ext_getElem?
    intro j
    simpa [ops] using hcode j

end CodeUnit

/-- **Listings are faithful.** Two units of compiled scripts with the same name of the file have the
same listing if and only if they stand on the same line, have as many parameters, locals and
instructions, and at every index the same operation with the same operand, where an atom is compared
by its text. -/
theorem listing_eq_iff_same_code {p p' : Program} {fold fold' : Bool} {file file' : ObjectFile}
    (hfile : p.compile fold = .ok file) (hfile' : p'.compile fold' = .ok file') {i i' : Nat}
    {unit unit' : CodeUnit}
    (hunit : file.units[i]? = some unit) (hunit' : file'.units[i']? = some unit')
    (hname : unit.filename = unit'.filename) :
    unit.listing false = unit'.listing false ↔
      unit.line = unit'.line ∧ unit.scope.parameters.size = unit'.scope.parameters.size ∧
        unit.scope.locals.size = unit'.scope.locals.size ∧ unit.code.size = unit'.code.size ∧
        ∀ j : Nat, unit.code[j]?.map (Instruction.resolve unit.atoms) =
          unit'.code[j]?.map (Instruction.resolve unit'.atoms) := by
  obtain ⟨source, -, hbuild⟩ := Program.source_of_unit hfile hunit
  obtain ⟨source', -, hbuild'⟩ := Program.source_of_unit hfile' hunit'
  rw [CodeUnit.listing_eq_iff (UnitSource.wellFormed_of_build hbuild)
    (UnitSource.wellFormed_of_build hbuild') hname, CodeUnit.ops_eq_iff]

/-- `function f(x) { return text; }`, with the parameter and the literal of the text as they are
given. -/
def Program.giving (parameter literal : String) : Program where
  filename := "give.js"
  body := [.function "f" 3 { parameters := #[parameter] } [.giveBack (some (.string literal))]]

/-- The unit of the function. -/
def CodeUnit.giving (parameter text : String) : CodeUnit where
  scope := { parameters := #[parameter] }
  filename := "give.js"
  line := 3
  code := #[⟨.string, some (.atom 0)⟩, ⟨.ret, none⟩, ⟨.stop, none⟩]
  atoms := #[text]

/-- The name of a parameter is not shown. A text with a line break and one with a backslash and a
letter are shown in different ways, even where the first has the look of another line. -/
theorem listing_eq_iff_same_code_giving :
    ∃ file file' file'',
      ((Program.giving "x" "'0\\n0002  stop'").compile false = .ok file ∧
        file.units[0]? = some (.giving "x" "0\n0002  stop")) ∧
      ((Program.giving "y" "'0\\n0002  stop'").compile false = .ok file' ∧
        file'.units[0]? = some (.giving "y" "0\n0002  stop")) ∧
      ((Program.giving "x" "'0\\\\n0002  stop'").compile false = .ok file'' ∧
        file''.units[0]? = some (.giving "x" "0\\n0002  stop")) ∧
      (CodeUnit.giving "x" "0\n0002  stop").listing false =
        (CodeUnit.giving "y" "0\n0002  stop").listing false ∧
      (CodeUnit.giving "x" "0\n0002  stop").listing false ≠
        (CodeUnit.giving "x" "0\\n0002  stop").listing false := by
  obtain ⟨file, hfile, hunit⟩ := @Program.exists_file (.giving "x" "'0\\n0002  stop'") false 0
    (.giving "x" "0\n0002  stop") (by decide +kernel)
  obtain ⟨file', hfile', hunit'⟩ := @Program.exists_file (.giving "y" "'0\\n0002  stop'") false 0
    (.giving "y" "0\n0002  stop") (by decide +kernel)
  obtain ⟨file'', hfile'', hunit''⟩ :=
    @Program.exists_file (.giving "x" "'0\\\\n0002  stop'") false 0
    (.giving "x" "0\\n0002  stop") (by decide +kernel)
  refine ⟨file, file', file'', ⟨hfile, hunit⟩, ⟨hfile', hunit'⟩, ⟨hfile'', hunit''⟩, ?_, ?_⟩
  · exact (listing_eq_iff_same_code hfile hfile' hunit hunit' rfl).mpr
      ⟨rfl, rfl, rfl, rfl, fun _ => rfl⟩
  · intro heq
    obtain ⟨-, -, -, -, hcode⟩ := (listing_eq_iff_same_code hfile hfile'' hunit hunit'' rfl).mp heq
    exact absurd (hcode 0) (by decide)

end StackCode
