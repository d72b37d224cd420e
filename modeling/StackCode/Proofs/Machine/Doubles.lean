import StackCode.Double.Basic
import StackCode.Proofs.Machine.Memory

/-!
# A machine on doubles

Primitives whose numbers are doubles, over a store in which every place is independent of the
others. There is nothing to call and no array: such instructions fail.

This is one choice of primitives among all, small enough to evaluate with and rich enough to tell
adding one from incrementing. It is there for the inputs at which general statements are shown to
say something: a statement about all primitives is not empty, and what it says of doubles can be
computed.

Values are not converted: an operand of an arithmetic operator that is no number counts as `nan`,
and binary operators other than those of arithmetic fail.
-/

set_option autoImplicit false

namespace StackCode.Doubles

/-- The values. An object is known by its number. -/
inductive Value where
  | undefined | null
  | boolean (value : Bool)
  | number (x : Double)
  | string (s : String)
  | object (id : Nat)
deriving DecidableEq

/-- Where a value can be stored. The property of an object by name is the element whose key is the
name. -/
inductive Place where
  | argument (slot : UInt16)
  | localSlot (slot : UInt16)
  | global (name : String)
  | field (obj key : Value)
deriving DecidableEq

abbrev Store : Type := Place → Option Value

/-- The value as a number. -/
def Value.toNumber : Value → Double
  | .number x => x
  | _ => .nan

def Value.truthy : Value → Bool
  | .undefined | .null => false
  | .boolean value => value
  | .number x => !x.isZero && x != .nan
  | .string s => s ≠ ""
  | .object _ => true

/-- The operators on numbers. -/
def arithmetic? : BinaryOp → Option (Double → Double → Double)
  | .add => some .add
  | .subtract => some fun x y => x.add y.neg
  | .multiply => some .mul
  | .divide => some .div
  | _ => none

/-- Reading a place that the store does not have fails. -/
def load (place : Place) : Effect Store Unit Value :=
  fun s =>
    match s place with
    | some v => some (.ok v, s)
    | none => some (.error (), s)

def write (place : Place) (v : Value) (s : Store) : Store :=
  fun other => if other = place then some v else s other

def store (place : Place) (v : Value) : Effect Store Unit Unit :=
  fun s => some (.ok (), write place v s)

def binary (op : BinaryOp) (x y : Value) : Effect Store Unit Value :=
  match arithmetic? op with
  | some f => pure (.number (f x.toNumber y.toNumber))
  | none => throw ()

def primitives : Primitives Value Store Unit where
  undefined := .undefined
  null := .null
  boolean := .boolean
  integer n := .number (.ofInt n)
  string := .string
  truthy := Value.truthy
  this := pure .undefined
  binary := binary
  unary _ v := pure (.boolean !v.truthy)
  getArg slot := load (.argument slot)
  setArg slot := store (.argument slot)
  getLocal slot := load (.localSlot slot)
  setLocal slot := store (.localSlot slot)
  getGlobal name := load (.global name)
  bindGlobal _ := pure .undefined
  setGlobal name _ := store (.global name)
  getProp obj name := load (.field obj (.string name))
  setProp obj name := store (.field obj (.string name))
  getElem obj key := load (.field obj key)
  setElem obj key := store (.field obj key)
  incElem obj key := do
    let v ← load (.field obj key)
    store (.field obj key) (.number (v.toNumber.add (.ofInt 1)))
    pure v
  globalFunction _ := throw ()
  method _ _ := throw ()
  methodAt _ _ := throw ()
  call _ _ _ := throw ()
  construct _ _ _ := throw ()
  newArray _ := throw ()
  initElem _ _ _ := throw ()
  endInit _ := throw ()

/-! ## The memory

Loading and storing are about one place each, by definition of the store as a function of places. -/

def cells : Cells Value Store Place where
  read s place := s place
  write := write
  read_write _ _ := if_pos rfl
  read_write_of_ne _ _ _ _ hne := if_neg hne

/-- Loading gives what is there and fails if there is nothing. -/
theorem loads_load (place : Place) : cells.Loads (load place) place := by
  intro s v hv
  have hplace : s place = some v := hv
  simp only [load, hplace]

theorem stores_store (place : Place) : cells.Stores (store place) place :=
  fun _ _ => rfl

/-- The store is a memory for the primitives, with the rounded operations for addition and
subtraction. -/
def memory : Memory primitives Place where
  toCells := cells
  argument := .argument
  localSlot := .localSlot
  global := .global
  property obj name := .field obj (.string name)
  element := .field
  add x y := .number (x.toNumber.add y.toNumber)
  sub x y := .number (x.toNumber.add y.toNumber.neg)
  globals := .undefined
  add_eq _ _ _ := rfl
  sub_eq _ _ _ := rfl
  getArg slot := loads_load (.argument slot)
  setArg slot := stores_store (.argument slot)
  getLocal slot := loads_load (.localSlot slot)
  setLocal slot := stores_store (.localSlot slot)
  getGlobal name := loads_load (.global name)
  bindGlobal _ _ := rfl
  setGlobal name := stores_store (.global name)
  getProp obj name := loads_load (.field obj (.string name))
  setProp obj name := stores_store (.field obj (.string name))
  incElem obj key := by
    intro s v hv
    exact Effect.bind_of_ok (loads_load (.field obj key) hv)

end StackCode.Doubles
