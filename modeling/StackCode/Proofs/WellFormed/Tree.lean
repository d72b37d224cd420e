import StackCode.Proofs.Log.Basic
import StackCode.Proofs.Steps

/-!
# What trees are compiled with

Every tree is compiled by proper operations, and by no others, whether its compilation succeeds or
fails in the middle. The variables that they load and store are variables of the tree.

`Gen.Does` is the judgment: a step has a log, and all that is in it satisfies a predicate. It holds
of each primitive step for the one operation that the step performs, and composes along sequences,
so it is a closed property of steps; that it holds of every tree is then not proved again. Since a
step has a log on every unit, also on one that no compilation leads to, nothing is assumed of the
unit that the tree is compiled into.

A log is kept for failing steps too. A unit whose compilation failed is thrown away by the compiler
itself, but not by a caller who goes on with it, and what was performed up to the failure was proper
as well.
-/

set_option autoImplicit false

namespace StackCode.Gen

/-! ## Steps that have a log

The log of a step may depend on the unit, on whether a loop is open for instance. `Does` only asks
for one on each unit. -/

/-- On every unit the step has a log, and the operations in it satisfy `P`. -/
def Does (P : Operation → Prop) {α : Type} (m : Gen α) : Prop :=
  ∀ unit, ∃ os result after, Performs m unit os result after ∧ ∀ o ∈ os, P o

section

variable {P : Operation → Prop} {α β : Type}

/-- A primitive step performs the same operations wherever it is run. -/
theorem Primitive.does {m : Gen α} {os : List Operation} (h : Primitive m os)
    (hos : ∀ o ∈ os, P o) :
    Does P m :=
  fun unit => ⟨os, _, _, .primitive h unit, hos⟩

/-- The log of a sequence is that of its first step, and that of the second behind it unless the
first fails. -/
theorem Does.bind {m : Gen α} {f : α → Gen β} (h : Does P m) (h' : ∀ a, Does P (f a)) :
    Does P (m >>= f) := by
  intro unit
  obtain ⟨os, result, between, hlog, hos⟩ := h unit
  cases result with
  | error e => exact ⟨os, _, _, hlog.fail, hos⟩
  | ok a =>
    obtain ⟨os', result, after, hlog', hos'⟩ := h' a between
    exact ⟨os ++ os', _, _, hlog.bind hlog', List.forall_mem_append.mpr ⟨hos, hos'⟩⟩

theorem Does.seq {m : Gen Unit} {m' : Gen β} (h : Does P m) (h' : Does P m') : Does P (do m; m') :=
  h.bind fun _ => h'

end

/-! ## Proper operations

Labels are allocated and fixed by operations that are proper whatever the label is. So the three
forms need nothing but their parts, and their proofs go line by line. -/

section

variable {vs : Binding → Prop}

theorem does_jump {opcode : OpCode} (h : opcode.operandKind = some .jump) (l : Label) :
    Does (Operation.Proper vs) (jump opcode l) :=
  (Primitive.jump opcode l).does (List.forall_mem_singleton.mpr h)

theorem does_newLabel : Does (Operation.Proper vs) newLabel :=
  Primitive.newLabel.does (List.forall_mem_singleton.mpr trivial)

theorem does_labelHere : Does (Operation.Proper vs) labelHere :=
  Primitive.labelHere.does (List.forall_mem_singleton.mpr trivial)

theorem does_fix (l : Label) : Does (Operation.Proper vs) (fix l) :=
  (Primitive.fix l).does (List.forall_mem_singleton.mpr trivial)

theorem does_enterLoop (loop : Loop) : Does (Operation.Proper vs) (enterLoop loop) :=
  (Primitive.enterLoop loop).does (List.forall_mem_nil _)

theorem does_leaveLoop : Does (Operation.Proper vs) leaveLoop :=
  Primitive.leaveLoop.does (List.forall_mem_nil _)

variable {test body : Gen Unit}

theorem does_branch {yes no : Gen Unit} (htest : Does (Operation.Proper vs) test)
    (hyes : Does (Operation.Proper vs) yes) (hno : Does (Operation.Proper vs) no) :
    Does (Operation.Proper vs) (branch test yes no) := by
  apply htest.seq
  apply does_newLabel.bind
  intro otherwise
  apply does_newLabel.bind
  intro merge
  exact (does_jump rfl otherwise).seq <| hyes.seq <| (does_jump rfl merge).seq <|
    (does_fix otherwise).seq <| hno.seq <| does_fix merge

theorem does_whileLoop (htest : Does (Operation.Proper vs) test)
    (hbody : Does (Operation.Proper vs) body) :
    Does (Operation.Proper vs) (whileLoop test body) := by
  apply does_newLabel.bind
  intro exit
  apply does_labelHere.bind
  intro entry
  exact (does_enterLoop _).seq <| htest.seq <| (does_jump rfl exit).seq <| hbody.seq <|
    (does_jump rfl entry).seq <| (does_fix exit).seq <| does_leaveLoop

/-- A loop with an update. The test is given the label of the exit and must be proper for any. -/
theorem does_forLoop {init update : Gen Unit} {guard : Label → Gen Unit}
    (hinit : Does (Operation.Proper vs) init) (hupdate : Does (Operation.Proper vs) update)
    (hguard : ∀ exit, Does (Operation.Proper vs) (guard exit))
    (hbody : Does (Operation.Proper vs) body) :
    Does (Operation.Proper vs) (forLoop init update guard body) := by
  apply hinit.seq
  apply does_newLabel.bind
  intro start
  apply (does_jump rfl start).seq
  apply does_labelHere.bind
  intro entry
  apply hupdate.seq
  apply does_newLabel.bind
  intro exit
  exact (does_enterLoop _).seq <| (does_fix start).seq <| (hguard exit).seq <| hbody.seq <|
    (does_jump rfl entry).seq <| (does_fix exit).seq <| does_leaveLoop

/-- **Trees are compiled by proper operations**, and they load and store the variables of the tree
only. -/
theorem closed_does : Closed vs (Does (Operation.Proper vs)) where
  pure a := (Primitive.pure a).does (List.forall_mem_nil _)
  throw e := (Primitive.throw e).does (List.forall_mem_nil _)
  bind := Does.bind
  emit h := (Primitive.emit _).does (List.forall_mem_singleton.mpr h)
  opAtom h name := (Primitive.opAtom _ name).does (List.forall_mem_singleton.mpr h)
  jump := does_jump
  innermost statement := (Primitive.innermost statement).does (List.forall_mem_nil _)
  branch := does_branch
  whileLoop := does_whileLoop
  forLoop := does_forLoop

end

end StackCode.Gen
