import StackCode.Proofs.Layout.Tree

/-!
# Shapes of the stack

What is on the stack in front of each instruction, as far as it can be known before the code is run:
a list of marks. Every instruction has a signature, the marks that it takes and the marks that it
leaves in their place. Code is sound under an assignment of shapes to positions if each instruction
finds what it takes, and what it leaves is the shape assigned to each position where control goes
next.

The assignment for a unit is put together from those of its pieces. A piece may jump out of itself,
to a position whose shape is fixed by the code around it; so a `Piece` is sound under every
assignment that has its own shapes and satisfies what is assumed of the positions outside. Putting
pieces together discharges assumptions: on the position between the two, and on the positions where
a piece is known to have an empty stack.

## Marks, and not heights

A height would be enough to rule out an underflow. The machine also has cells that are no values:
the target of a store to a global, an array under construction, a function with its receiver. An
instruction that takes one of these must not find another, so a cell is known by what it is for. The
mark of a target has the name of the global in it, since a store has to meet the target that was
bound for it.

The shapes are assigned to positions and do not depend on how control came there. This is what a
verifier of the machine could check in one pass, and it is stronger than saying that no run goes
wrong: all ways to a position agree on its shape.

No soundness with respect to runs is proved in this file. The machine has its own definition, and
that its instructions take and leave what their signatures say can be seen from both.
-/

set_option autoImplicit false

namespace StackCode

/-! ## Signatures

An instruction takes a part from the top of the stack and leaves another in its place. Where control
goes next is a separate function, so that a jump may have a signature like any other instruction. -/

/-- What is known of a cell of the stack. -/
inductive Mark where
  | value
  /-- The target of a store to the global of that name. -/
  | target (name : String)
  /-- An array whose elements are being set. -/
  | array
  /-- A function and its receiver. -/
  | callee
deriving DecidableEq

/-- The marks of a stack, the top first. -/
abbrev Shape := List Mark

/-- What an instruction does to the shape of the stack. -/
structure Signature where
  takes : List Mark
  leaves : List Mark
  /-- Whether nothing may be below of what is taken. -/
  alone : Bool := false
deriving DecidableEq

namespace Op

/-- The signature of an instruction. One whose operand does not go with its operation has none. -/
def signature? (o : Op) : Option Signature :=
  match o.opcode, o.argument with
  | .push, none | .pushNull, none | .pushTrue, none | .pushFalse, none | .pushThis,
    none | .one, none
  | .int8, some (.operand (.int8 _)) | .uint16, some (.operand (.uint16 _))
  | .uint24, some (.operand (.uint24 _)) | .int32, some (.operand (.int32 _))
  | .string, some (.text _) | .getGlobal, some (.text _)
  | .getArg, some (.operand (.slot _)) | .getLocal, some (.operand (.slot _)) =>
    some { takes := [], leaves := [.value] }
  | .pop, none => some { takes := [.value], leaves := [] }
  | .popv, none => some { takes := [.value], leaves := [], alone := true }
  | .dup, none => some { takes := [.value], leaves := [.value, .value] }
  | .add, none | .sub, none | .mul, none | .div, none | .mod, none
  | .eq, none | .ne, none | .strictEq, none | .strictNe, none
  | .lt, none | .le, none | .gt, none | .ge, none | .and, none | .or, none
  | .getElem, none | .incElem, none | .setProp, some (.text _) =>
    some { takes := [.value, .value], leaves := [.value] }
  | .not, none | .getProp, some (.text _)
  | .setArg, some (.operand (.slot _)) | .setLocal, some (.operand (.slot _)) =>
    some { takes := [.value], leaves := [.value] }
  | .bindGlobal, some (.text name) => some { takes := [], leaves := [.target name] }
  | .setGlobal, some (.text name) => some { takes := [.value, .target name], leaves := [.value] }
  | .setElem, none => some { takes := [.value, .value, .value], leaves := [.value] }
  | .callGlobal, some (.text _) => some { takes := [], leaves := [.callee] }
  | .callProp, some (.text _) => some { takes := [.value], leaves := [.callee] }
  | .callElem, none => some { takes := [.value, .value], leaves := [.callee] }
  | .call, some (.operand (.argCount n)) =>
    some { takes := .replicate n.toNat .value ++ [.callee], leaves := [.value] }
  | .new, some (.operand (.argCount n)) =>
    some { takes := .replicate n.toNat .value ++ [.value, .value], leaves := [.value] }
  | .newArray, some (.operand (.length _)) => some { takes := [], leaves := [.array] }
  | .initElem, none => some { takes := [.value, .value, .array], leaves := [.array] }
  | .endInit, none => some { takes := [.array], leaves := [.value] }
  | .goto, some (.operand (.jump _)) => some { takes := [], leaves := [] }
  | .ifEq, some (.operand (.jump _)) => some { takes := [.value], leaves := [] }
  | .ret, none => some { takes := [.value], leaves := [], alone := true }
  | .stop, none => some { takes := [], leaves := [], alone := true }
  | _, _ => none

/-- The position that the instruction jumps to. -/
def target? (o : Op) : Option Nat :=
  match o.argument with
  | some (.operand (.jump target)) => some target
  | _ => none

/-- Where control can go from the instruction at position `i`. -/
def successors (o : Op) (i : Nat) : List Nat :=
  match o.opcode with
  | .goto => o.target?.toList
  | .ifEq => (i + 1) :: o.target?.toList
  | .ret | .stop => []
  | _ => [i + 1]

/-- The instruction at position `i` finds what it takes, and leaves what is assigned to the
positions behind. -/
def Fits (S : Nat → Option Shape) (i : Nat) (o : Op) : Prop :=
  ∃ sig rest, o.signature? = some sig ∧ S i = some (sig.takes ++ rest) ∧
    (sig.alone = true → rest = []) ∧ ∀ j ∈ o.successors i, S j = some (sig.leaves ++ rest)

end Op

/-! ## Pieces of code

`outside` is what a piece assumes of the positions it does not own, and `empty` lists positions at
which it promises an empty stack. Both are needed for loops: a `break` in a body assumes that the
stack is empty at the exit, and the loop that owns the exit promises it. -/

/-- The shapes are assigned to the positions from `a` on. -/
def Assigns (S : Nat → Option Shape) (a : Nat) (shapes : List Shape) : Prop :=
  ∀ (k : Nat) (shape : Shape), shapes[k]? = some shape → S (a + k) = some shape

/-- Every instruction of the code at position `a` fits. -/
def Sound (S : Nat → Option Shape) (a : Nat) (code : List Op) : Prop :=
  ∀ (k : Nat) (o : Op), code[k]? = some o → o.Fits S (a + k)

/-- The code at position `a` turns the shape `before` into `after`, and has an empty stack at the
positions `empty`. `outside` is what the code assumes of positions that are not its own. -/
def Piece (outside : (Nat → Option Shape) → Prop) (a : Nat) (code : List Op) (before after : Shape)
    (empty : List Nat) : Prop :=
  ∃ shapes : List Shape, shapes.length = code.length ∧ (shapes ++ [after]).head? = some before ∧
    ∀ S, outside S → Assigns S a (shapes ++ [after]) → Sound S a code ∧ ∀ j ∈ empty, S j = some []

section

variable {S : Nat → Option Shape} {a : Nat}

/-- The shapes of two pieces stand behind one another. -/
theorem Assigns.append_iff {shapes shapes' : List Shape} :
    Assigns S a (shapes ++ shapes') ↔ Assigns S a shapes ∧
    Assigns S (a + shapes.length) shapes' := by
  constructor
  · intro h
    refine ⟨fun k shape hk => h k shape ?_, fun k shape hk => ?_⟩
    · rw [List.getElem?_append_left (List.getElem?_eq_some_iff.mp hk).1]
      exact hk
    · rw [Nat.add_assoc]
      refine h _ shape ?_
      rw [List.getElem?_append_right (Nat.le_add_right _ _), Nat.add_sub_cancel_left]
      exact hk
  · rintro ⟨h, h'⟩ k shape hk
    rcases Nat.lt_or_ge k shapes.length with hlt | hge
    · rw [List.getElem?_append_left hlt] at hk
      exact h k shape hk
    · rw [List.getElem?_append_right hge] at hk
      have := h' _ shape hk
      rwa [Nat.add_assoc, Nat.add_sub_cancel' hge] at this

theorem Assigns.head {shapes : List Shape} {shape : Shape} (h : Assigns S a shapes)
    (hhead : shapes.head? = some shape) : S a = some shape := by
  rw [List.head?_eq_getElem?] at hhead
  exact h 0 shape hhead

theorem Sound.append {code code' : List Op} (h : Sound S a code)
    (h' : Sound S (a + code.length) code') :
    Sound S a (code ++ code') := by
  intro k o hk
  rcases Nat.lt_or_ge k code.length with hlt | hge
  · rw [List.getElem?_append_left hlt] at hk
    exact h k o hk
  · rw [List.getElem?_append_right hge] at hk
    have := h' _ o hk
    rwa [Nat.add_assoc, Nat.add_sub_cancel' hge] at this

end

section

variable {outside outside' : (Nat → Option Shape) → Prop} {a b : Nat} {code code' : List Op}
  {before mid after : Shape} {empty empty' : List Nat}

theorem Piece.mono (h : Piece outside a code before after empty)
    (himp : ∀ S, outside' S → outside S) :
    Piece outside' a code before after empty := by
  obtain ⟨shapes, hlen, hhead, hS⟩ := h
  exact ⟨shapes, hlen, hhead, fun S hout => hS S (himp S hout)⟩

theorem Piece.nil (shape : Shape) : Piece outside a [] shape shape [] :=
  ⟨[], rfl, rfl, fun _ _ _ => ⟨fun _ _ hk => by simp at hk, fun _ hj => by simp at hj⟩⟩

theorem Piece.op {o : Op}
    (h : ∀ S, outside S → S a = some before → S (a + 1) = some after → o.Fits S a) :
    Piece outside a [o] before after [] := by
  refine ⟨[before], rfl, rfl, fun S hout hS => ⟨fun k o' hk => ?_, fun _ hj => by simp at hj⟩⟩
  obtain ⟨rfl, rfl⟩ : k = 0 ∧ o = o' := by
    cases k with
    | zero => exact ⟨rfl, by simpa using hk⟩
    | succ k => simp at hk
  exact h S hout (hS 0 before rfl) (hS 1 after rfl)

/-- Two pieces in sequence. Both know the shape between them, and the second knows where the first
has an empty stack. -/
theorem Piece.append (hb : b = a + code.length)
    (h : Piece (fun S => outside S ∧ S b = some mid) a code before mid empty)
    (h' : Piece (fun S => (outside S ∧ S b = some mid) ∧ ∀ j ∈ empty,
      S j = some []) b code' mid after empty') :
    Piece outside a (code ++ code') before after (empty ++ empty') := by
  subst hb
  obtain ⟨shapes, hlen, hhead, hS⟩ := h
  obtain ⟨shapes', hlen', hhead', hS'⟩ := h'
  refine ⟨shapes ++ shapes', by simp [hlen, hlen'], ?_, fun S hout hassigns => ?_⟩
  · -- An empty first piece leaves the start to the second one.
    cases shapes with
    | nil =>
      cases hhead
      exact hhead'
    | cons shape shapes => exact hhead
  · rw [List.append_assoc, Assigns.append_iff, hlen] at hassigns
    -- The shape between the two is that of the start of the second, which is what the first one
    -- needs to know.
    have hmid : S (a + code.length) = some mid := hassigns.2.head hhead'
    have hfirst : Assigns S a (shapes ++ [mid]) := by
      rw [Assigns.append_iff, hlen]
      refine ⟨hassigns.1, fun k shape hk => ?_⟩
      cases k with
      | zero =>
        cases hk
        exact hmid
      | succ k => cases hk
    obtain ⟨hsound, hempty⟩ := hS S ⟨hout, hmid⟩ hfirst
    obtain ⟨hsound', hempty'⟩ := hS' S ⟨⟨hout, hmid⟩, hempty⟩ hassigns.2
    refine ⟨hsound.append hsound', fun j hj => ?_⟩
    rcases List.mem_append.mp hj with hj | hj
    · exact hempty j hj
    · exact hempty' j hj

/-- A piece may jump to its own start and to its own end. -/
theorem Piece.loop (hb : b = a + code.length)
    (h : Piece (fun S => outside S ∧ S a = some before ∧
      S b = some after) a code before after empty) :
    Piece outside a code before after empty := by
  subst hb
  obtain ⟨shapes, hlen, hhead, hS⟩ := h
  refine ⟨shapes, hlen, hhead, fun S hout hassigns => ?_⟩
  have hend := (Assigns.append_iff.mp hassigns).2
  rw [hlen] at hend
  exact hS S ⟨hout, hassigns.head hhead, hend.head rfl⟩ hassigns

/-- The stack is empty in front of and behind of a piece that starts and ends so. -/
theorem Piece.ends (h : Piece outside a code [] [] empty) :
    Piece outside a code [] [] (a :: (a + code.length) :: empty) := by
  obtain ⟨shapes, hlen, hhead, hS⟩ := h
  refine ⟨shapes, hlen, hhead, fun S hout hassigns => ?_⟩
  obtain ⟨hsound, hempty⟩ := hS S hout hassigns
  have hend := (Assigns.append_iff.mp hassigns).2
  rw [hlen] at hend
  refine ⟨hsound, fun j hj => ?_⟩
  rcases List.mem_cons.mp hj with rfl | hj
  · exact hassigns.head hhead
  · rcases List.mem_cons.mp hj with rfl | hj
    · exact hend.head rfl
    · exact hempty j hj

end

end StackCode
