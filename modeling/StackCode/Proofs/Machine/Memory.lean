import StackCode.Proofs.Machine.Expression

/-!
# Memories

Primitives need not have anything to do with each other: a value that is stored may never be read
again. Here they work on a memory. Variables and properties are places; a place of the store holds a
value, and loading and storing are about one place only. Addition and subtraction are functions of
their operands, whatever functions they are.

Over a memory it can be said what an increment does: where the operand stands, what was there, and
what is there afterwards.

What is assumed is little. Two places may be the same place under different names, a store may have
places that no name leads to, and loading a place that the store does not have fails. Not assumed is
that subtraction undoes addition, nor that addition is that of numbers.

Only increments are treated, because they are the one construct whose code reads and writes a place
that it computes once. For assignments there is nothing to say that the meaning of trees does not
say already.
-/

set_option autoImplicit false

namespace StackCode

/-! ## Places -/

/-- Places that hold values. A store need not have every place. -/
structure Cells (V S Place : Type) where
  read : S → Place → Option V
  write : Place → V → S → S
  read_write : ∀ {s place v} (w : V), read s place = some v → read (write place w s) place = some w
  read_write_of_ne : ∀ (s : S) (w : V) {place other : Place}, other ≠ place →
    read (write place w s) other = read s other

namespace Cells

variable {V S E Place : Type} (cells : Cells V S Place)

/-- The effect gives what the place holds, and nothing else. -/
def Loads (m : Effect S E V) (place : Place) : Prop :=
  ∀ {s v}, cells.read s place = some v → m s = some (.ok v, s)

/-- The effect stores a value at the place, and does nothing else. -/
def Stores (m : V → Effect S E Unit) (place : Place) : Prop :=
  ∀ {s v} (w : V), cells.read s place = some v → m w s = some (.ok (), cells.write place w s)

end Cells

/-- A memory under the primitives of a machine. Different names may stand for one place: a property
and an element of an object may be the same. -/
structure Memory {V S E : Type} (P : Primitives V S E) (Place : Type) extends Cells V S Place where
  argument : UInt16 → Place
  localSlot : UInt16 → Place
  global : String → Place
  property : (obj : V) → String → Place
  element : (obj key : V) → Place
  add : V → V → V
  sub : V → V → V
  /-- The object that has the globals. -/
  globals : V
  add_eq : ∀ x y s, P.binary .add x y s = some (.ok (add x y), s)
  sub_eq : ∀ x y s, P.binary .subtract x y s = some (.ok (sub x y), s)
  getArg : ∀ slot, toCells.Loads (P.getArg slot) (argument slot)
  setArg : ∀ slot, toCells.Stores (P.setArg slot) (argument slot)
  getLocal : ∀ slot, toCells.Loads (P.getLocal slot) (localSlot slot)
  setLocal : ∀ slot, toCells.Stores (P.setLocal slot) (localSlot slot)
  getGlobal : ∀ name, toCells.Loads (P.getGlobal name) (global name)
  bindGlobal : ∀ name s, P.bindGlobal name s = some (.ok globals, s)
  setGlobal : ∀ name, toCells.Stores (P.setGlobal name globals) (global name)
  getProp : ∀ obj name, toCells.Loads (P.getProp obj name) (property obj name)
  setProp : ∀ obj name, toCells.Stores (P.setProp obj name) (property obj name)
  incElem : ∀ obj key {s v}, read s (element obj key) = some v →
    P.incElem obj key s = some (.ok v, write (element obj key) (add v (P.integer 1)) s)

namespace Memory

variable {V S E Place : Type} {P : Primitives V S E} (M : Memory P Place)

/-- The value plus one. -/
def successor (v : V) : V :=
  M.add v (P.integer 1)

/-- The value minus one. -/
def predecessor (v : V) : V :=
  M.sub v (P.integer 1)

/-- The place of a variable. -/
def binding : Binding → Place
  | .parameter slot => M.argument slot
  | .localSlot slot => M.localSlot slot
  | .global name => M.global name

end Memory

/-! ## Variables -/

namespace Variable

variable {V S E Place : Type} {P : Primitives V S E} (M : Memory P Place) (v : Variable)

theorem loads_read : M.Loads (v.read P) (M.binding v.binding) := by
  unfold read
  cases v.binding with
  | parameter slot => exact M.getArg slot
  | localSlot slot => exact M.getLocal slot
  | global name => exact M.getGlobal name

/-- A value that is computed without a trace is stored as if it had been there. -/
theorem assign_eq {value : Effect S E V} {s : S} {x w : V}
    (hx : M.read s (M.binding v.binding) = some x) (hvalue : value s = some (.ok w, s)) :
    v.assign P value s = some (.ok w, M.write (M.binding v.binding) w s) := by
  unfold assign
  revert hx
  cases v.binding with
  | parameter slot =>
    intro hx
    dsimp only
    rw [Effect.bind_of_ok hvalue, Effect.bind_of_ok (M.setArg slot w hx)]
    rfl
  | localSlot slot =>
    intro hx
    dsimp only
    rw [Effect.bind_of_ok hvalue, Effect.bind_of_ok (M.setLocal slot w hx)]
    rfl
  | global name =>
    intro hx
    dsimp only
    rw [Effect.bind_of_ok (M.bindGlobal name s), Effect.bind_of_ok hvalue,
      Effect.bind_of_ok (M.setGlobal name w hx)]
    rfl

/-- The variable is read twice, with the same result. -/
theorem postIncrement_eq {s : S} {x : V} (hx : M.read s (M.binding v.binding) = some x) :
    v.postIncrement P s = some (.ok x, M.write (M.binding v.binding) (M.successor x) s) := by
  have hread := v.loads_read M hx
  have hvalue :
      (v.read P >>= fun y => P.binary .add y (P.integer 1)) s = some (.ok (M.successor x), s) := by
    rw [Effect.bind_of_ok hread]
    exact M.add_eq x (P.integer 1) s
  unfold postIncrement
  rw [Effect.bind_of_ok hread, Effect.bind_of_ok (v.assign_eq M hx hvalue)]
  rfl

end Variable

/-! ## Operands

An operand of an increment is located once, with the effects of its object and its key. What is done
at the place has no other effect. -/

namespace Expr

variable {V S E Place : Type} {P : Primitives V S E} (M : Memory P Place)

/-- The place that an operand stands for. The object and the key of a property are evaluated for
it. -/
def locate : Expr → Effect S E Place
  | .identifier v => pure (M.binding v.binding)
  | .member obj property => do
    let o ← obj.eval P
    pure (M.property o property)
  | .index obj key => do
    let o ← obj.eval P
    let k ← key.eval P
    pure (M.element o k)
  | _ => .endless

/-- What is left of the old value. That of a property by name is not kept but computed back from the
new one. -/
def leftover : Expr → V → V
  | .member _ _, v => M.predecessor (M.successor v)
  | _, v => v

/-- **What an increment does**: it goes to the place of its operand, and adds one to what it finds
there. -/
theorem eval_increment {operand : Expr} {place : Place} {s s' : S} {v : V}
    (hplace : operand.locate M s = some (.ok place, s')) (hv : M.read s' place = some v) :
    (Expr.update .increment false operand).eval P s =
      some (.ok (operand.leftover M v), M.write place (M.successor v) s') := by
  cases operand with
  | identifier x =>
    cases hplace
    rw [eval]
    exact x.postIncrement_eq M hv
  | member obj property =>
    obtain ⟨o, s₁, hobj, hplace⟩ := Effect.exists_of_bind_ok hplace
    cases hplace
    rw [eval, Effect.bind_of_ok hobj, Effect.bind_of_ok (M.getProp o property hv),
      Effect.bind_of_ok (M.add_eq _ _ _), Effect.bind_of_ok (M.setProp o property _ hv)]
    exact M.sub_eq _ _ _
  | index obj key =>
    obtain ⟨o, s₁, hobj, hplace⟩ := Effect.exists_of_bind_ok hplace
    obtain ⟨k, s₂, hkey, hplace⟩ := Effect.exists_of_bind_ok hplace
    cases hplace
    rw [eval, Effect.bind_of_ok hobj, Effect.bind_of_ok hkey]
    exact M.incElem o k hv
  | _ => cases hplace

end Expr

end StackCode
