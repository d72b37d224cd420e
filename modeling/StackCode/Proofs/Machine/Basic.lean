import StackCode.Proofs.Layout.Basic
import StackCode.Tree.Basic

/-!
# The machine

The machine that units are written for. It knows how control moves and how an instruction uses the
stack. What a value is, what the store holds and what an operation does with them it does not know:
that is a parameter, `Primitives`, so that what is shown of the machine holds for all of them.

## What is left open, and why

The compiler does not depend on what values are. If it was proved correct for one set of values,
nothing would be known about another; and a model of the values of the language would be as large as
everything else here and could not be checked against anything. So the primitives are quantified
over. A primitive may read and change the store in any way, may fail and may not come to an end.

What the machine does decide is what the compiler relies on: the order in which operands are taken
from the stack, which value a test leaves and which way it jumps, what is recorded by `popv`, and
where control goes. A call and a construction take as many cells as their operand says, and all
other instructions take a fixed number.

A unit is run alone. What happens inside of a function that is called is a matter of the primitive
`call`, which may do with other units whatever it does.
-/

set_option autoImplicit false

namespace StackCode

/-! ## Primitives

Effects are state transformers that may have no outcome. A failure keeps the store as it was when
the failure occurred. -/

/-- A computation on a store. It may fail, and it may never come to an end. A failure leaves a store
too. -/
abbrev Effect (S E : Type) : Type → Type :=
  ExceptT E (StateT S Option)

/-- The computation that never comes to an end. -/
def Effect.endless {S E α : Type} : Effect S E α :=
  fun _ => none

/-- Values, and the operations on values and the store that the machine is built on. A primitive
that stores a value does not choose what is left on the stack. -/
structure Primitives (V S E : Type) where
  undefined : V
  null : V
  boolean : Bool → V
  integer : Int → V
  string : String → V
  truthy : V → Bool
  this : Effect S E V
  binary : BinaryOp → (left right : V) → Effect S E V
  unary : UnaryOp → V → Effect S E V
  getArg : UInt16 → Effect S E V
  setArg : UInt16 → V → Effect S E Unit
  getLocal : UInt16 → Effect S E V
  setLocal : UInt16 → V → Effect S E Unit
  getGlobal : String → Effect S E V
  /-- The target of a later store to the global. -/
  bindGlobal : String → Effect S E V
  setGlobal : String → (target value : V) → Effect S E Unit
  getProp : (obj : V) → String → Effect S E V
  setProp : (obj : V) → String → (value : V) → Effect S E Unit
  getElem : (obj key : V) → Effect S E V
  setElem : (obj key value : V) → Effect S E Unit
  /-- Increments an element and gives its old value. -/
  incElem : (obj key : V) → Effect S E V
  /-- The function to call, looked up as a global, a property or an element. -/
  globalFunction : String → Effect S E V
  method : (obj : V) → String → Effect S E V
  methodAt : (obj key : V) → Effect S E V
  call : (function receiver : V) → List V → Effect S E V
  construct : (function receiver : V) → List V → Effect S E V
  newArray : (length : Nat) → Effect S E V
  initElem : (array key value : V) → Effect S E Unit
  /-- The value of an array whose elements are set. -/
  endInit : (array : V) → Effect S E V

/-- The operator that an operation computes. -/
def OpCode.binaryOp? : OpCode → Option BinaryOp
  | .add => some .add
  | .sub => some .subtract
  | .mul => some .multiply
  | .div => some .divide
  | .mod => some .modulo
  | .eq => some .equal
  | .ne => some .notEqual
  | .strictEq => some .strictEqual
  | .strictNe => some .strictNotEqual
  | .lt => some .lessThan
  | .le => some .lessThanEqual
  | .gt => some .greaterThan
  | .ge => some .greaterThanEqual
  | .and => some .logicalAnd
  | .or => some .logicalOr
  | _ => none

/-! ## Straight instructions

What an instruction does to the stack, whose top is the head of the list. There is no effect if the
stack does not hold what the instruction takes. -/

namespace Op

variable {V S E : Type} (P : Primitives V S E)

/-- Takes `count` arguments off the stack, then a receiver and a function, and pushes the result.
The last argument is on top. -/
def invoke (call : V → V → List V → Effect S E V) (count : Nat) (stack : List V) :
    Option (Effect S E (List V)) :=
  match stack.drop count with
  | receiver :: function :: rest => some do
    let v ← call function receiver (stack.take count).reverse
    pure (v :: rest)
  | _ => none

/-- An instruction without operand. -/
def actBare (opcode : OpCode) (stack : List V) : Option (Effect S E (List V)) :=
  match opcode, stack with
  | .push, stack => some (pure (P.undefined :: stack))
  | .pushNull, stack => some (pure (P.null :: stack))
  | .pushTrue, stack => some (pure (P.boolean true :: stack))
  | .pushFalse, stack => some (pure (P.boolean false :: stack))
  | .pushThis, stack => some do
    let v ← P.this
    pure (v :: stack)
  | .one, stack => some (pure (P.integer 1 :: stack))
  | .pop, _ :: stack => some (pure stack)
  | .dup, v :: stack => some (pure (v :: v :: stack))
  | .not, v :: stack => some do
    let w ← P.unary .logicalNot v
    pure (w :: stack)
  | .getElem, key :: obj :: stack => some do
    let v ← P.getElem obj key
    pure (v :: stack)
  | .setElem, v :: key :: obj :: stack => some do
    P.setElem obj key v
    pure (v :: stack)
  | .incElem, key :: obj :: stack => some do
    let v ← P.incElem obj key
    pure (v :: stack)
  | .callElem, key :: obj :: stack => some do
    let f ← P.methodAt obj key
    pure (obj :: f :: stack)
  | .initElem, v :: key :: array :: stack => some do
    P.initElem array key v
    pure (array :: stack)
  | .endInit, array :: stack => some do
    let v ← P.endInit array
    pure (v :: stack)
  | opcode, right :: left :: stack =>
    match opcode.binaryOp? with
    | some op => some do
      let v ← P.binary op left right
      pure (v :: stack)
    | none => none
  | _, _ => none

/-- An instruction with a string. -/
def actText (opcode : OpCode) (s : String) (stack : List V) : Option (Effect S E (List V)) :=
  match opcode, stack with
  | .string, stack => some (pure (P.string s :: stack))
  | .getGlobal, stack => some do
    let v ← P.getGlobal s
    pure (v :: stack)
  | .bindGlobal, stack => some do
    let target ← P.bindGlobal s
    pure (target :: stack)
  | .setGlobal, v :: target :: stack => some do
    P.setGlobal s target v
    pure (v :: stack)
  | .getProp, obj :: stack => some do
    let v ← P.getProp obj s
    pure (v :: stack)
  | .setProp, v :: obj :: stack => some do
    P.setProp obj s v
    pure (v :: stack)
  | .callGlobal, stack => some do
    let f ← P.globalFunction s
    pure (P.undefined :: f :: stack)
  | .callProp, obj :: stack => some do
    let f ← P.method obj s
    pure (obj :: f :: stack)
  | _, _ => none

/-- An instruction with another operand. -/
def actOperand (opcode : OpCode) (o : Operand) (stack : List V) : Option (Effect S E (List V)) :=
  match opcode, o, stack with
  | .int8, .int8 n, stack => some (pure (P.integer n.toInt :: stack))
  | .uint16, .uint16 n, stack => some (pure (P.integer n.toNat :: stack))
  | .uint24, .uint24 n, stack => some (pure (P.integer n.toNat :: stack))
  | .int32, .int32 n, stack => some (pure (P.integer n.toInt :: stack))
  | .getArg, .slot n, stack => some do
    let v ← P.getArg n
    pure (v :: stack)
  | .setArg, .slot n, v :: stack => some do
    P.setArg n v
    pure (v :: stack)
  | .getLocal, .slot n, stack => some do
    let v ← P.getLocal n
    pure (v :: stack)
  | .setLocal, .slot n, v :: stack => some do
    P.setLocal n v
    pure (v :: stack)
  | .newArray, .length n, stack => some do
    let array ← P.newArray n
    pure (array :: stack)
  | .call, .argCount n, stack => invoke P.call n.toNat stack
  | .new, .argCount n, stack => invoke P.construct n.toNat stack
  | _, _, _ => none

/-- An instruction behind which control goes on with the next one. -/
def act (o : Op) (stack : List V) : Option (Effect S E (List V)) :=
  match o.argument with
  | none => actBare P o.opcode stack
  | some (.text s) => actText P o.opcode s stack
  | some (.operand x) => actOperand P o.opcode x stack

end Op

/-! ## Runs

One instruction at a time, and a number of instructions that is given beforehand. A run that would
not end has no outcome with any amount of fuel. -/

/-- What is left of a run besides its stack: the store, and the last value that was recorded. -/
structure State (V S : Type) where
  store : S
  completion : Option V

/-- Where a run stands. -/
structure Config (V S : Type) where
  pc : Nat
  stack : List V
  state : State V S

/-- How a run ends. -/
inductive Outcome (V E : Type) where
  | stopped
  | returned (v : V)
  | failed (e : E)
  /-- There is no instruction, or not what it takes. -/
  | stuck

/-- A run that is over. -/
structure Halted (V S E : Type) where
  outcome : Outcome V E
  state : State V S

namespace Machine

variable {V S E : Type} (P : Primitives V S E)

/-- Goes on behind an instruction with the stack that its effect gives. -/
def proceed (pc : Nat) (state : State V S) (result : Option (Except E (List V) × S)) :
    Option (Config V S ⊕ Halted V S E) :=
  match result with
  | some (.ok stack, store) => some (.inl ⟨pc + 1, stack, { state with store }⟩)
  | some (.error e, store) => some (.inr ⟨.failed e, { state with store }⟩)
  | none => none

/-- Performs the effect of an instruction, if it has one. -/
def attempt (pc : Nat) (state : State V S) (effect : Option (Effect S E (List V))) :
    Option (Config V S ⊕ Halted V S E) :=
  match effect with
  | some m => proceed pc state (m state.store)
  | none => some (.inr ⟨.stuck, state⟩)

/-- One instruction. There is no next step if a primitive never comes to an end. -/
def exec (o : Op) (c : Config V S) : Option (Config V S ⊕ Halted V S E) :=
  match o.opcode, o.argument, c.stack with
  | .goto, some (.operand (.jump target)), _ => some (.inl { c with pc := target })
  | .ifEq, some (.operand (.jump target)), v :: stack =>
    some (.inl { c with pc := if P.truthy v then c.pc + 1 else target, stack })
  | .popv, none, v :: stack =>
    some (.inl ⟨c.pc + 1, stack, { c.state with completion := some v }⟩)
  | .ret, none, v :: _ => some (.inr ⟨.returned v, c.state⟩)
  | .stop, none, _ => some (.inr ⟨.stopped, c.state⟩)
  | _, _, stack => attempt c.pc c.state (o.act P stack)

/-- The instruction at the position where the run stands. -/
def step (code : List Op) (c : Config V S) : Option (Config V S ⊕ Halted V S E) :=
  match code[c.pc]? with
  | some o => exec P o c
  | none => some (.inr ⟨.stuck, c.state⟩)

/-- At most `fuel` instructions. -/
def run (code : List Op) : (fuel : Nat) → Config V S → Option (Halted V S E)
  | 0, _ => none
  | fuel + 1, c =>
    match step P code c with
    | some (.inl c') => run code fuel c'
    | some (.inr h) => some h
    | none => none

/-- A run of the whole code ends so. -/
def Halts (code : List Op) (store : S) (h : Halted V S E) : Prop :=
  ∃ fuel, run P code fuel ⟨0, [], ⟨store, none⟩⟩ = some h

end Machine

end StackCode
