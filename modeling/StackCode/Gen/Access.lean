import StackCode.Gen.Basic
import StackCode.Tree.Basic

/-!
# Reading and writing variables

| binding   | read         | write                                   |
|-----------|--------------|-----------------------------------------|
| parameter | `getarg n`   | value, `setarg n`                       |
| local     | `getlocal n` | value, `setlocal n`                     |
| global    | `getgname x` | `bindgname x`, value, `setgname x`      |

A global is bound before its new value is computed. Every write leaves the value on the stack.

An increment of a variable is put together from two reads and a write. It leaves the value of the
first read, so nothing has to be computed back.

No slot is checked against the scope. Slots come with the tree, and a tree whose slots are none of
its scope is compiled like any other.
-/

set_option autoImplicit false

namespace StackCode.Gen

/-- Pushes the value of a variable. -/
def load (v : Variable) : Gen Unit :=
  match v.binding with
  | .parameter slot => opWith .getArg (.slot slot)
  | .localSlot slot => opWith .getLocal (.slot slot)
  | .global name => opAtom .getGlobal name

/-- Stores into a variable what `value` pushes. -/
def store (v : Variable) (value : Gen Unit) : Gen Unit :=
  match v.binding with
  | .parameter slot => do
    value
    opWith .setArg (.slot slot)
  | .localSlot slot => do
    value
    opWith .setLocal (.slot slot)
  | .global name => do
    opAtom .bindGlobal name
    value
    opAtom .setGlobal name

/-- Adds one to a variable and leaves its old value. A global is read twice: once for the result,
and once behind its binding for the sum. -/
def increment (v : Variable) : Gen Unit :=
  match v.binding with
  | .global name => do
    opAtom .getGlobal name
    opAtom .bindGlobal name
    opAtom .getGlobal name
    op .one
    op .add
    opAtom .setGlobal name
    op .pop
  | _ => do
    load v
    load v
    op .one
    op .add
    store v (pure ())
    op .pop

/-- Adds one to a property of the object on top of the stack and leaves its old value: what is
stored stays on the stack, and subtracting one gives the old value back. -/
def incrementProperty (property : String) : Gen Unit := do
  op .dup
  opAtom .getProp property
  op .one
  op .add
  opAtom .setProp property
  op .one
  op .sub

end StackCode.Gen
