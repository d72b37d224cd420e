import StackCode.Literal
import StackCode.Proofs.Machine.Basic

/-!
# The meaning of trees

What expressions and statements do, by recursion on the tree and over the same primitives as the
machine: no code, no positions and no stack. An expression is an effect that gives a value. A
statement relates the state it starts in to the ways in which it can end; it may also not end at
all.

Only what the compiler accepts has a meaning here. The other forms have no outcome.

## Why a relation for statements

An expression is an effect, with at most one outcome, because everything in it that may not end is a
primitive. A statement has loops of its own. Defining it as an effect would need a fixed point or
fuel, and a statement about fuel is a statement about the definition. The relation is inductive at
loops only (`Behaviour.Iterates`), and elsewhere it is computed by recursion on the tree.

That a statement has at most one ending is not proved here. It follows from the machine being
deterministic once the code is known to follow the statement.

Where the compiler and the language that it compiles differ, this file says what the compiler does.
The operands of `&&` and of `||` are both evaluated, a bare name is called as a global whatever it
is bound to, and a property by name gives back a value that was computed. Nothing else is said of
the language.
-/

set_option autoImplicit false

namespace StackCode

variable {V S E : Type}

/-! ## Expressions

By recursion on the tree, with the forms that are not compiled last. -/

namespace Variable

variable (P : Primitives V S E) (v : Variable)

/-- The value of the variable. -/
def read : Effect S E V :=
  match v.binding with
  | .parameter slot => P.getArg slot
  | .localSlot slot => P.getLocal slot
  | .global name => P.getGlobal name

/-- Stores a value and gives it. The target of a global is bound before the value is computed. -/
def assign (value : Effect S E V) : Effect S E V :=
  match v.binding with
  | .parameter slot => do
    let x ← value
    P.setArg slot x
    pure x
  | .localSlot slot => do
    let x ← value
    P.setLocal slot x
    pure x
  | .global name => do
    let target ← P.bindGlobal name
    let x ← value
    P.setGlobal name target x
    pure x

/-- Reads the variable, stores what it then reads plus one, and gives what was read first. -/
def postIncrement : Effect S E V := do
  let old ← v.read P
  let _ ← v.assign P do
    let x ← v.read P
    P.binary .add x (P.integer 1)
  pure old

end Variable

namespace Expr

variable (P : Primitives V S E)

mutual

/-- The value of an expression. Operands are evaluated from left to right, those of `&&` and `||`
too. -/
def eval : Expr → Effect S E V
  | .number value =>
    match value.toInt? with
    | some n => pure (P.integer n)
    | none => .endless
  | .string raw =>
    match Literal.decode raw with
    | .ok s => pure (P.string s)
    | .error _ => .endless
  | .null => pure P.null
  | .boolean value => pure (P.boolean value)
  | .this => P.this
  | .identifier v => v.read P
  | .array items => do
    let array ← P.newArray items.length
    evalElements array 0 items
    P.endInit array
  | .binary op left right => do
    let x ← left.eval
    let y ← right.eval
    P.binary op x y
  | .unary op argument => do
    let x ← argument.eval
    P.unary op x
  | .update .increment false (.identifier v) => v.postIncrement P
  -- The value of the property is not kept: what the store left, minus one, stands for it.
  | .update .increment false (.member obj property) => do
    let o ← obj.eval
    let old ← P.getProp o property
    let new ← P.binary .add old (P.integer 1)
    P.setProp o property new
    P.binary .subtract new (P.integer 1)
  | .update .increment false (.index obj key) => do
    let o ← obj.eval
    let k ← key.eval
    P.incElem o k
  | .assign .assign (.identifier v) value => v.assign P value.eval
  | .assign .assign (.member obj property) value => do
    let o ← obj.eval
    let x ← value.eval
    P.setProp o property x
    pure x
  | .assign .assign (.index obj key) value => do
    let o ← obj.eval
    let k ← key.eval
    let x ← value.eval
    P.setElem o k x
    pure x
  | .call callee arguments => do
    let (f, receiver) ← callee.evalCallee
    let xs ← evalList arguments
    P.call f receiver xs
  | .new (.identifier v) arguments => do
    let f ← v.read P
    let xs ← evalList arguments
    P.construct f P.undefined xs
  | .member obj property => do
    let o ← obj.eval
    P.getProp o property
  | .index obj key => do
    let o ← obj.eval
    let k ← key.eval
    P.getElem o k
  | .conditional test consequent alternate => do
    let t ← test.eval
    if P.truthy t then consequent.eval else alternate.eval
  | .comma left right => do
    let _ ← left.eval
    right.eval
  | _ => .endless

/-- The function that is called, and its receiver. A name is looked up as a global, whatever it is
bound to. -/
def evalCallee : Expr → Effect S E (V × V)
  | .identifier v => do
    let f ← P.globalFunction v.name
    pure (f, P.undefined)
  | .member obj property => do
    let o ← obj.eval
    let f ← P.method o property
    pure (f, o)
  | .index obj key => do
    let o ← obj.eval
    let k ← key.eval
    let f ← P.methodAt o k
    pure (f, o)
  | _ => .endless

/-- The values of expressions in order. -/
def evalList : List Expr → Effect S E (List V)
  | [] => pure []
  | e :: es => do
    let x ← e.eval
    let xs ← evalList es
    pure (x :: xs)

/-- Sets the elements of an array from index `first` on. -/
def evalElements (array : V) (first : Nat) : List (Option Expr) → Effect S E Unit
  | [] => pure ()
  | none :: _ => .endless
  | some e :: items => do
    let x ← e.eval
    P.initElem array (P.integer first) x
    evalElements array (first + 1) items

end

/-- Evaluates an expression for its effect. -/
def discard (e : Expr) : Effect S E Unit := do
  let _ ← e.eval P
  pure ()

/-- Evaluates an expression as a condition. -/
def evalTest (e : Expr) : Effect S E Bool := do
  let x ← e.eval P
  pure (P.truthy x)

end Expr

/-! ## Statements

A statement ends normally or in one of four abrupt ways. A loop takes those of `break` and
`continue` for itself and passes a `return` and a failure on. -/

/-- How a statement ends. -/
inductive Ending (V E : Type) where
  | normal
  | broke
  | continued
  | returned (v : V)
  | failed (e : E)

/-- What a statement relates: a state, a way to end, and the state that it ends in. -/
abbrev Behaviour (V S E : Type) :=
  State V S → Ending V E → State V S → Prop

namespace Behaviour

/-- Ends at once. -/
def leave (ending : Ending V E) : Behaviour V S E :=
  fun σ r σ' => r = ending ∧ σ' = σ

/-- Records a value. -/
def record (v : V) : Behaviour V S E :=
  fun σ r σ' => r = .normal ∧ σ' = { σ with completion := some v }

/-- Never ends. -/
def none : Behaviour V S E :=
  fun _ _ _ => False

/-- Performs an effect and goes on with its result, unless it fails. -/
def perform {α : Type} (effect : Effect S E α) (next : α → Behaviour V S E) : Behaviour V S E :=
  fun σ r σ' =>
    match effect σ.store with
    | some (.ok x, store) => next x { σ with store } r σ'
    | some (.error e, store) => r = .failed e ∧ σ' = { σ with store }
    | .none => False

/-- One behind the other, if the first ends normally. -/
def andThen (first second : Behaviour V S E) : Behaviour V S E :=
  fun σ r σ' => (∃ mid, first σ .normal mid ∧ second mid r σ') ∨ (r ≠ .normal ∧ first σ r σ')

/-- A loop that starts with its test. The update is performed before every further test, whether the
body ended normally or by `continue`. -/
inductive Iterates (test : Effect S E Bool) (update : Effect S E Unit) (body : Behaviour V S E) :
    Behaviour V S E where
  | testFails {σ : State V S} {e : E} {s : S} (ht : test σ.store = some (.error e, s)) :
      Iterates test update body σ (.failed e) { σ with store := s }
  | done {σ : State V S} {s : S} (ht : test σ.store = some (.ok false, s)) :
      Iterates test update body σ .normal { σ with store := s }
  | broke {σ σ' : State V S} {s : S} (ht : test σ.store = some (.ok true, s))
      (hbody : body { σ with store := s } .broke σ') : Iterates test update body σ .normal σ'
  | returned {σ σ' : State V S} {s : S} {v : V} (ht : test σ.store = some (.ok true, s))
      (hbody : body { σ with store := s } (.returned v) σ') :
      Iterates test update body σ (.returned v) σ'
  | failed {σ σ' : State V S} {s : S} {e : E} (ht : test σ.store = some (.ok true, s))
      (hbody : body { σ with store := s } (.failed e) σ') :
      Iterates test update body σ (.failed e) σ'
  | updateFails {σ σ' : State V S} {s s' : S} {r : Ending V E} {e : E}
      (ht : test σ.store = some (.ok true, s)) (hbody : body { σ with store := s } r σ')
      (hr : r = .normal ∨ r = .continued) (hu : update σ'.store = some (.error e, s')) :
      Iterates test update body σ (.failed e) { σ' with store := s' }
  | again {σ σ' σ'' : State V S} {s s' : S} {r r' : Ending V E}
      (ht : test σ.store = some (.ok true, s)) (hbody : body { σ with store := s } r σ')
      (hr : r = .normal ∨ r = .continued) (hu : update σ'.store = some (.ok (), s'))
      (h : Iterates test update body { σ' with store := s' } r' σ'') :
      Iterates test update body σ r' σ''

end Behaviour

namespace Stmt

open Behaviour (leave record perform andThen Iterates)

variable (P : Primitives V S E)

/-- Stores the initial values of a declaration in order. -/
def declare : List (Variable × Option Expr) → Effect S E Unit
  | [] => pure ()
  | (_, none) :: rest => declare rest
  | (v, some init) :: rest => do
    let _ ← v.assign P (init.eval P)
    declare rest

/-- What a `for` starts with. -/
def initialise : Option Stmt → Effect S E Unit
  | none | some .empty => pure ()
  | some (.declaration .var ds) => declare P ds
  | some (.expression value) => value.discard P
  | some _ => .endless

mutual

/-- What a statement does. The value of a statement at the top level is recorded. -/
def exec (toplevel : Bool) : Stmt → Behaviour V S E
  | .empty => leave .normal
  | .block body => execList toplevel body
  | .expression value =>
    perform (value.eval P) fun v => if toplevel then record v else leave .normal
  | .declaration .var ds => perform (declare P ds) fun _ => leave .normal
  | .function .. => if toplevel then leave .normal else .none
  | .branch test consequent alternate =>
    perform (test.evalTest P) fun yes =>
      if yes then consequent.exec toplevel else execOption toplevel alternate
  | .whileLoop test body => Iterates (test.evalTest P) (pure ()) (body.exec toplevel)
  | .forLoop init test update body =>
    perform (initialise P init) fun _ =>
      Iterates (test.elim (pure true) (Expr.evalTest P)) (update.elim (pure ()) (Expr.discard P))
        (body.exec toplevel)
  | .breakLoop => leave .broke
  | .continueLoop => leave .continued
  | .giveBack none => leave (.returned P.undefined)
  | .giveBack (some argument) => perform (argument.eval P) fun v => leave (.returned v)
  | _ => .none

def execOption (toplevel : Bool) : Option Stmt → Behaviour V S E
  | none => leave .normal
  | some s => s.exec toplevel

/-- What statements do in order. -/
def execList (toplevel : Bool) : List Stmt → Behaviour V S E
  | [] => leave .normal
  | s :: ss => andThen (s.exec toplevel) (execList toplevel ss)

end

end Stmt

end StackCode
