import StackCode.Gen.Statement
import StackCode.Proofs.Layout.Basic

/-!
# The layout of a tree

The code of every expression and statement as a layout, by recursion on the tree: no label, no loop
stack and no atom table. What the compiler refuses is a refused layout, with the first cause in the
order in which the compiler would meet it.

Additions are laid out as they stand. Folding is a matter of the tree that is laid out.

## What is laid out, and what is not

The recursion follows the tree and nothing else, which is the point of it: the code of a node is a
function of the codes of its parts, and of whether the node stands on the top level. The steps of
the compiler are not like that. They thread a unit, and what a jump will say is known only when a
later step fixes its label.

A function declaration contributes no code where it stands. On the top level it becomes a unit of
its own, and the order of units is a matter of the script and not of any layout; in the body of
another function it is refused.

Nothing is proved here. A definition that is to be compared with the compiler should be readable
beside it, and the lemmas that take layouts apart would only stand between the two.
-/

set_option autoImplicit false

namespace StackCode

/-! ## Variables

A parameter or a local is addressed by its slot, and everything else by its name, through the global
object. So a write to a global has something to push before the value and the others do not, and
this difference is kept in `target` rather than in every form that stores. -/

namespace Variable

/-- Pushes the value of the variable. -/
def load (v : Variable) : Op :=
  match v.binding with
  | .parameter slot => .operand .getArg (.slot slot)
  | .localSlot slot => .operand .getLocal (.slot slot)
  | .global name => .text .getGlobal name

/-- What stands before the new value of the variable. -/
def target (v : Variable) : List Op :=
  match v.binding with
  | .global name => [.text .bindGlobal name]
  | _ => []

/-- Writes the value on top of the stack to the variable. -/
def write (v : Variable) : Op :=
  match v.binding with
  | .parameter slot => .operand .setArg (.slot slot)
  | .localSlot slot => .operand .setLocal (.slot slot)
  | .global name => .text .setGlobal name

/-- Stores what `value` pushes. -/
def store (v : Variable) (value : Layout) : Layout :=
  .ofOps v.target ++ value ++ .ofOps [v.write]

/-- Adds one and leaves the old value. -/
def increment (v : Variable) : List Op :=
  v.load :: v.target ++ [v.load, .bare .one, .bare .add, v.write, .bare .pop]

end Variable

/-- Adds one to a property of the object on top of the stack and leaves its old value. -/
def Op.incrementProperty (property : String) : List Op :=
  [.bare .dup, .text .getProp property, .bare .one, .bare .add, .text .setProp property, .bare .one,
    .bare .sub]

/-- A layout that depends on a result. -/
def Layout.given {α : Type} (result : Except Error α) (plan : α → Layout) : Layout :=
  match result with
  | .ok a => plan a
  | .error e => .refused e

/-- What is not compiled. -/
def Layout.unsupported (feature : Feature) : Layout :=
  .refused (.unsupported feature)

/-! ## Expressions

The target of an assignment, the argument of an increment and the callee of a call are not evaluated
like other expressions. Each has a layout of its own, given for the three forms that can stand there
and refused for all others. -/

mutual

/-- The code of an expression. -/
def Expr.layout : Expr → Layout
  | .number value => .number value
  | .string raw => .given (Literal.decode raw) fun s => .ofOps [.text .string s]
  | .regExp .. => .unsupported .regExp
  | .null => .ofOps [.bare .pushNull]
  | .boolean value => .ofOps [.bare (if value then .pushTrue else .pushFalse)]
  | .this => .ofOps [.bare .pushThis]
  | .identifier v => .ofOps [v.load]
  | .array items =>
    if items.any Option.isNone then .unsupported .arrayHole
    else if 4294967296 ≤ items.length then .unsupported .longArray
    else
      .ofOps [.operand .newArray (.length items.length)] ++ Expr.elementsLayout 0 items ++
        .ofOps [.bare .endInit]
  | .object _ => .unsupported .objectLiteral
  | .binary op left right =>
    .given op.opcode fun opcode => left.layout ++ right.layout ++ .ofOps [.bare opcode]
  | .unary op argument => .given op.opcode fun opcode => argument.layout ++ .ofOps [.bare opcode]
  | .update .decrement _ _ => .unsupported .decrement
  | .update .increment true _ => .unsupported .increment
  | .update .increment false argument => argument.incrementLayout
  | .assign .assign target value => target.assignLayout value.layout
  | .assign op _ _ => .unsupported (.compoundAssignment op)
  | .call callee arguments =>
    .given (Operand.ofArgCount arguments.length) fun count =>
      callee.functionLayout ++ Expr.listLayout arguments ++ .ofOps [.operand .call count]
  | .new (.identifier v) arguments =>
    .given (Operand.ofArgCount arguments.length) fun count =>
      .ofOps [v.load, .bare .push] ++ Expr.listLayout arguments ++ .ofOps [.operand .new count]
  | .new _ _ => .unsupported .computedConstructor
  | .member obj property => obj.layout ++ .ofOps [.text .getProp property]
  | .index obj key => obj.layout ++ key.layout ++ .ofOps [.bare .getElem]
  | .conditional test consequent alternate => .branch test.layout consequent.layout alternate.layout
  | .comma left right => left.layout ++ .ofOps [.bare .pop] ++ right.layout
  | .function .. => .refused .nestedFunction

/-- The code that increments a variable, a property or an element. -/
def Expr.incrementLayout : Expr → Layout
  | .identifier v => .ofOps v.increment
  | .member obj property => obj.layout ++ .ofOps (Op.incrementProperty property)
  | .index obj key => obj.layout ++ key.layout ++ .ofOps [.bare .incElem]
  | _ => .unsupported .incrementOperand

/-- The code that stores what `value` pushes in a variable, a property or an element. -/
def Expr.assignLayout (target : Expr) (value : Layout) : Layout :=
  match target with
  | .identifier v => v.store value
  | .member obj property => obj.layout ++ value ++ .ofOps [.text .setProp property]
  | .index obj key => obj.layout ++ key.layout ++ value ++ .ofOps [.bare .setElem]
  | _ => .unsupported .assignmentTarget

/-- The code that pushes a function and its receiver. -/
def Expr.functionLayout : Expr → Layout
  | .identifier v => .ofOps [.text .callGlobal v.name]
  | .member obj property => obj.layout ++ .ofOps [.text .callProp property]
  | .index obj key => obj.layout ++ key.layout ++ .ofOps [.bare .callElem]
  | _ => .unsupported .callee

/-- The code of expressions in order. -/
def Expr.listLayout : List Expr → Layout
  | [] => .nothing
  | e :: es => e.layout ++ Expr.listLayout es

/-- The code of the elements of an array from index `first` on. Holes are skipped. -/
def Expr.elementsLayout (first : Nat) : List (Option Expr) → Layout
  | [] => .nothing
  | none :: items => Expr.elementsLayout first items
  | some e :: items =>
    .number (Double.ofNat first) ++ e.layout ++ .ofOps [.bare .initElem] ++
      Expr.elementsLayout (first + 1) items

end

/-! ## Statements

Statements leave nothing on the stack. On the top level the value of an expression statement is kept
for the caller, so the instruction behind it depends on where the statement stands. -/

namespace Stmt

/-- The code of initializers in order. -/
def declaratorsLayout : List (Variable × Option Expr) → Layout
  | [] => .nothing
  | (_, none) :: rest => declaratorsLayout rest
  | (v, some init) :: rest => v.store init.layout ++ .ofOps [.bare .pop] ++ declaratorsLayout rest

/-- The code of a variable declaration. -/
def declarationLayout (kind : DeclarationKind) (ds : List (Variable × Option Expr)) : Layout :=
  match kind with
  | .var => declaratorsLayout ds
  | .lexical => .unsupported .lexicalDeclaration
  | .constant => .unsupported .constantDeclaration

/-- The code that a `for` starts with. -/
def forInitLayout : Option Stmt → Layout
  | none | some .empty => .nothing
  | some (.declaration kind ds) => declarationLayout kind ds
  | some (.expression value) => value.layout ++ .ofOps [.bare .pop]
  | some _ => .unsupported .forInitializer

/-- The code of the update of a `for`. -/
def forUpdateLayout : Option Expr → Layout
  | none => .nothing
  | some update => update.layout ++ .ofOps [.bare .pop]

mutual

/-- The code of a statement. -/
def layout (toplevel : Bool) : Stmt → Layout
  | .empty => .nothing
  | .block body => listLayout toplevel body
  | .expression value => value.layout ++ .ofOps [.bare (if toplevel then .popv else .pop)]
  | .declaration kind ds => declarationLayout kind ds
  | .function .. => if toplevel then .nothing else .refused .nestedFunction
  | .branch test consequent alternate =>
    .branch test.layout (consequent.layout toplevel) (optionLayout toplevel alternate)
  | .whileLoop test body => .whileLoop test.layout (body.layout toplevel)
  | .forLoop init test update body =>
    .forLoop (forInitLayout init) (forUpdateLayout update) (test.map Expr.layout)
      (body.layout toplevel)
  | .breakLoop => .breakLoop
  | .continueLoop => .continueLoop
  | .giveBack none => .ofOps [.bare .push, .bare .ret]
  | .giveBack (some argument) => argument.layout ++ .ofOps [.bare .ret]
  | .doWhile .. => .unsupported .doWhile
  | .forIn .. => .unsupported .forIn
  | .switch .. => .unsupported .switch
  | .tryCatch .. => .unsupported .tryCatch
  | .throw _ => .unsupported .throw
  | .within .. => .unsupported .within
  | .labeled .. => .unsupported .labeled

/-- The code of a statement that may be missing. -/
def optionLayout (toplevel : Bool) : Option Stmt → Layout
  | none => .nothing
  | some s => s.layout toplevel

/-- The code of statements in order. -/
def listLayout (toplevel : Bool) : List Stmt → Layout
  | [] => .nothing
  | s :: ss => s.layout toplevel ++ listLayout toplevel ss

end

end Stmt

end StackCode
