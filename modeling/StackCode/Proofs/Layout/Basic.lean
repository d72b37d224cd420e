import StackCode.CodeUnit
import StackCode.Error
import StackCode.Gen.Literal

/-!
# Layouts

Where code goes can be said without labels: the size of a piece of code does not depend on where it
is placed, so every jump target is a sum of sizes. A `Layout` is a piece of code as a function of
its place. It is given the position of its first instruction and the targets of the enclosing loop,
and answers instructions whose jumps are absolute; that all of its answers have the same length is
part of the type. Layouts are put together by the combinators of this file, one for each shape of
control flow.

Instructions are compared as `Op`s, in which an atom is the string that it stands for.

A layout also says whether the code can be compiled at all, and with what error it is refused if
not. Whether `break` and `continue` are refused depends on whether a loop is around them, so the
refusal is a function of that. A sequence is refused for its first part before its second, as the
compiler gives up at the first error that it meets; this is why refusals and code are kept in one
type and not compared separately.

What a layout does not have are labels, sites and atoms. These belong to the assembler, and that the
assembler comes to the code of the layout is proved where layouts and steps of code generation are
compared.
-/

set_option autoImplicit false

namespace StackCode

/-! ## Instructions with their strings

The index of an atom depends on everything that was compiled before in the same unit, and so do two
units that hold the same code at different places. Reading an atom as its string removes that, and
loses nothing: an index is only there to be looked up. -/

/-- What an instruction carries once its atom is looked up. -/
inductive Argument where
  | text (s : String)
  | operand (o : Operand)
deriving DecidableEq

/-- An instruction that does not need the unit's atoms to be understood. -/
structure Op where
  opcode : OpCode
  argument : Option Argument := none
deriving DecidableEq

/-- Looks an atom up. One that is not there stays an index. -/
def Operand.resolve (atoms : Array String) : Operand → Argument
  | .atom index =>
    match atoms[index]? with
    | some s => .text s
    | none => .operand (.atom index)
  | o => .operand o

/-- The instruction with its atom looked up. -/
def Instruction.resolve (atoms : Array String) (i : Instruction) : Op :=
  ⟨i.opcode, i.operand.map (Operand.resolve atoms)⟩

/-- The code of a unit, with the atoms read as the strings they stand for. -/
def CodeUnit.ops (unit : CodeUnit) : List Op :=
  unit.code.toList.map (Instruction.resolve unit.atoms)

namespace Op

/-- An instruction without operand. -/
def bare (opcode : OpCode) : Op :=
  ⟨opcode, none⟩

/-- An instruction with a string. -/
def text (opcode : OpCode) (s : String) : Op :=
  ⟨opcode, some (.text s)⟩

/-- An instruction with an operand that is no atom. -/
def operand (opcode : OpCode) (o : Operand) : Op :=
  ⟨opcode, some (.operand o)⟩

/-- A jump to the instruction of index `target`. -/
def jump (opcode : OpCode) (target : Nat) : Op :=
  operand opcode (.jump target)

/-- An instruction that has no atom, as it is. -/
def ofInstruction (i : Instruction) : Op :=
  ⟨i.opcode, i.operand.map .operand⟩

/-- The integer that the instruction pushes. -/
def integer? (o : Op) : Option Int :=
  match o.opcode, o.argument with
  | .one, none => some 1
  | .int8, some (.operand (.int8 v)) => some v.toInt
  | .uint16, some (.operand (.uint16 v)) => some v.toNat
  | .uint24, some (.operand (.uint24 v)) => some v.toNat
  | .int32, some (.operand (.int32 v)) => some v.toInt
  | _, _ => none

/-- The instructions that push an integer. -/
theorem integer?_eq_some {o : Op} {n : Int} (h : o.integer? = some n) :
    (o = bare .one ∧ n = 1) ∨ (∃ v, o = operand .int8 (.int8 v) ∧ n = v.toInt) ∨
      (∃ v, o = operand .uint16 (.uint16 v) ∧ n = v.toNat) ∨
      (∃ v, o = operand .uint24 (.uint24 v) ∧ n = v.toNat) ∨
      ∃ v, o = operand .int32 (.int32 v) ∧ n = v.toInt := by
  obtain ⟨opcode, argument⟩ := o
  unfold integer? at h
  split at h
  · rename_i hopcode hargument
    cases hopcode
    cases hargument
    cases h
    exact .inl ⟨rfl, rfl⟩
  · rename_i v hopcode hargument
    cases hopcode
    cases hargument
    cases h
    exact .inr (.inl ⟨v, rfl, rfl⟩)
  · rename_i v hopcode hargument
    cases hopcode
    cases hargument
    cases h
    exact .inr (.inr (.inl ⟨v, rfl, rfl⟩))
  · rename_i v hopcode hargument
    cases hopcode
    cases hargument
    cases h
    exact .inr (.inr (.inr (.inl ⟨v, rfl, rfl⟩)))
  · rename_i v hopcode hargument
    cases hopcode
    cases hargument
    cases h
    exact .inr (.inr (.inr (.inr ⟨v, rfl, rfl⟩)))
  · cases h

/-- The immediate holds the integer in full. -/
theorem integer?_pushInt? {n : Int} {i : Instruction} (h : Instruction.pushInt? n = some i) :
    (ofInstruction i).integer? = some n := by
  -- Nothing is cut off: in each range the integer fits the operand that is chosen for it.
  unfold Instruction.pushInt? at h
  split at h
  · rename_i hone
    cases h
    rw [hone]
    rfl
  · split at h
    · rename_i hrange
      cases h
      exact congrArg some (Int8.toInt_ofInt_of_le (by omega) (by omega))
    · split at h
      · rename_i hrange
        cases h
        have hmod : n.toNat % 65536 = n.toNat := Nat.mod_eq_of_lt (by omega)
        have hnat : (UInt16.ofNat n.toNat).toNat = n.toNat := hmod
        show some (((UInt16.ofNat n.toNat).toNat : Nat) : Int) = some n
        rw [hnat, Int.toNat_of_nonneg hrange.1]
      · split at h
        · rename_i hrange
          cases h
          have hmod : n.toNat % 4294967296 = n.toNat := Nat.mod_eq_of_lt (by omega)
          have hnat : (UInt32.ofNat n.toNat).toNat = n.toNat := hmod
          show some (((UInt32.ofNat n.toNat).toNat : Nat) : Int) = some n
          rw [hnat, Int.toNat_of_nonneg hrange.1]
        · split at h
          · rename_i hrange
            cases h
            exact congrArg some (Int32.toInt_ofInt_of_le (by omega) (by omega))
          · cases h

/-- The instruction of a number literal pushes the number. -/
theorem integer?_ofNumber {value : Double} {i : Instruction}
    (h : Instruction.ofNumber value = .ok i) :
    ∃ n, value.toInt? = some n ∧ (ofInstruction i).integer? = some n := by
  unfold Instruction.ofNumber at h
  split at h
  · cases h
  · rename_i n hn
    split at h
    · rename_i i' hpush
      cases h
      exact ⟨n, hn, integer?_pushInt? hpush⟩
    · cases h

end Op

/-! ## Layouts -/

/-- The positions that `continue` and `break` go to. -/
structure LoopTargets where
  entry : Nat
  exit : Nat
deriving DecidableEq

/-- A piece of code before it is placed. -/
@[ext]
structure Layout where
  /-- Why there is no such code, if there is none. Whether a loop is around it decides on `break`
  and `continue`. -/
  refusal : (inLoop : Bool) → Option Error
  size : Nat
  /-- The code at a position, inside of a loop with the given targets. -/
  code : LoopTargets → Nat → List Op
  length_code : ∀ t a, (code t a).length = size

namespace Layout

attribute [simp] length_code

/-- Code without jumps. -/
def ofOps (ops : List Op) : Layout where
  refusal _ := none
  size := ops.length
  code _ _ := ops
  length_code _ _ := rfl

/-- No code at all. -/
def nothing : Layout :=
  ofOps []

/-- What cannot be compiled. -/
def refused (e : Error) : Layout where
  refusal _ := some e
  size := 0
  code _ _ := []
  length_code _ _ := rfl

/-- One piece of code behind another. -/
def append (first second : Layout) : Layout where
  refusal inLoop := (first.refusal inLoop).or (second.refusal inLoop)
  size := first.size + second.size
  code t a := first.code t a ++ second.code t (a + first.size)
  length_code t a := by simp

instance : Append Layout :=
  ⟨append⟩

/-- The jump of a `break`. -/
def breakLoop : Layout where
  refusal inLoop := if inLoop then none else some (.outsideLoop "break")
  size := 1
  code t _ := [.jump .goto t.exit]
  length_code _ _ := rfl

/-- The jump of a `continue`. -/
def continueLoop : Layout where
  refusal inLoop := if inLoop then none else some (.outsideLoop "continue")
  size := 1
  code t _ := [.jump .goto t.entry]
  length_code _ _ := rfl

/-- A two-way branch.

```text
a                        [test]
a + t                    ifeq ELSE
a + t + 1                [yes]
a + t + y + 1            goto MERGE
ELSE = a + t + y + 2     [no]
MERGE = a + t + y + n + 2
``` -/
def branch (test yes no : Layout) : Layout where
  refusal inLoop := (test.refusal inLoop).or ((yes.refusal inLoop).or (no.refusal inLoop))
  size := test.size + yes.size + no.size + 2
  code t a :=
    let otherwise := a + test.size + yes.size + 2
    let merge := a + test.size + yes.size + no.size + 2
    test.code t a ++ .jump .ifEq otherwise :: yes.code t (a + test.size + 1) ++
      .jump .goto merge :: no.code t otherwise
  length_code t a := by
    simp only [List.length_append, List.length_cons, length_code]
    omega

/-- The test of a loop, which leaves the loop when it fails. Without a test there is no code. -/
def guard : Option Layout → Layout
  | none => nothing
  | some test =>
    { refusal := test.refusal
      size := test.size + 1
      code := fun t a => test.code t a ++ [.jump .ifEq t.exit]
      length_code := fun t a => by simp }

/-- A loop that starts with its test.

```text
a                        [test]
a + t                    ifeq EXIT
a + t + 1                [body]
a + t + b + 1            goto a
EXIT = a + t + b + 2
``` -/
def whileLoop (test body : Layout) : Layout where
  refusal _ := (test.refusal true).or (body.refusal true)
  size := test.size + body.size + 2
  code _ a :=
    let inner : LoopTargets := ⟨a, a + test.size + body.size + 2⟩
    (guard (some test)).code inner a ++ body.code inner (a + test.size + 1) ++ [.jump .goto a]
  length_code t a := by
    simp only [List.length_append, List.length_singleton, length_code, guard]
    omega

/-- A loop whose update stands before the test.

```text
a                          [init]
a + i                      goto BODY
ENTRY = a + i + 1          [update]
BODY = a + i + u + 1       [guard]
BODY + g                   [body]
BODY + g + b               goto ENTRY
EXIT = BODY + g + b + 1
``` -/
def forLoop (init update : Layout) (test : Option Layout) (body : Layout) : Layout where
  refusal inLoop :=
    (init.refusal inLoop).or
      ((update.refusal inLoop).or (((guard test).refusal true).or (body.refusal true)))
  size := init.size + update.size + (guard test).size + body.size + 2
  code t a :=
    let entry := a + init.size + 1
    let start := entry + update.size
    let inner : LoopTargets := ⟨entry, start + (guard test).size + body.size + 1⟩
    init.code t a ++ .jump .goto start :: update.code t entry ++ (guard test).code inner start ++
      body.code inner (start + (guard test).size) ++ [.jump .goto entry]
  length_code t a := by
    simp only [List.length_append, List.length_cons, List.length_nil, length_code]
    omega

/-- A number literal. -/
def number (value : Double) : Layout :=
  match Instruction.ofNumber value with
  | .ok i => ofOps [.ofInstruction i]
  | .error e => refused e

/-! ## Small facts

How the three parts of a layout, its refusal, its size and its code, follow from those of the
layouts that it is put together from. They hold by definition and are there to be rewritten with, so
that no later proof unfolds a combinator of sequences. -/

section

variable (p q : Layout) (inLoop : Bool) (t : LoopTargets) (a : Nat)

@[simp] theorem ofOps_refusal (ops : List Op) : (ofOps ops).refusal inLoop = none :=
  rfl

@[simp] theorem ofOps_size (ops : List Op) : (ofOps ops).size = ops.length :=
  rfl

@[simp] theorem ofOps_code (ops : List Op) : (ofOps ops).code t a = ops :=
  rfl

@[simp] theorem nothing_refusal : nothing.refusal inLoop = none :=
  rfl

@[simp] theorem nothing_size : nothing.size = 0 :=
  rfl

@[simp] theorem nothing_code : nothing.code t a = [] :=
  rfl

@[simp] theorem refused_refusal (e : Error) : (refused e).refusal inLoop = some e :=
  rfl

@[simp] theorem append_refusal :
    (p ++ q).refusal inLoop = (p.refusal inLoop).or (q.refusal inLoop) :=
  rfl

@[simp] theorem append_size : (p ++ q).size = p.size + q.size :=
  rfl

@[simp] theorem append_code : (p ++ q).code t a = p.code t a ++ q.code t (a + p.size) :=
  rfl

end

section

variable {p q : Layout} {inLoop : Bool}

/-- A sequence that is not refused has no part that is. -/
theorem refusal_left (h : (p ++ q).refusal inLoop = none) : p.refusal inLoop = none :=
  (Option.or_eq_none_iff.mp h).1

theorem refusal_right (h : (p ++ q).refusal inLoop = none) : q.refusal inLoop = none :=
  (Option.or_eq_none_iff.mp h).2

end

/-! ## Sequences

Putting layouts behind one another is associative with `nothing` for its unit. The equation between
two layouts is one of functions: it holds at every place and inside of every loop. -/

theorem append_assoc (p q s : Layout) : p ++ q ++ s = p ++ (q ++ s) := by
  refine Layout.ext ?_ ?_ ?_
  · funext inLoop
    exact Option.or_assoc
  · exact Nat.add_assoc _ _ _
  · funext t a
    show (_ ++ _) ++ s.code t (a + (p.size + q.size)) = _ ++ (_ ++ s.code t (a + p.size + q.size))
    rw [List.append_assoc, Nat.add_assoc]

theorem ofOps_append (ops ops' : List Op) : ofOps ops ++ ofOps ops' = ofOps (ops ++ ops') := by
  refine Layout.ext rfl ?_ rfl
  exact List.length_append.symm

theorem nothing_append (p : Layout) : nothing ++ p = p := by
  refine Layout.ext ?_ ?_ rfl
  · funext inLoop
    exact Option.none_or
  · exact Nat.zero_add _

end Layout

end StackCode
