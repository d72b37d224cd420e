import StackCode.Fold
import StackCode.Gen.Access
import StackCode.Gen.Literal
import StackCode.Literal

/-!
# Compiling expressions

Every expression leaves exactly one value on the stack. Operands come before the operation that
consumes them.

```text
test ? a : b        [x, y]                    f(x)            o.p(x)          o[k](x)
  [test]              newarray 2                callgname f     [o]             [o]
  ifeq ELSE           [0] [x] initelem          [x]             callprop p      [k]
  [a]                 [1] [y] initelem          call 1          [x]             callelem
  goto MERGE          endinit                                   call 1          [x]
ELSE:                                                                           call 1
  [b]
MERGE:
```

With folding on, an addition is folded each time it is compiled, and the compiler goes on with the
nodes that folding made. Those are no parts of the expression at hand, so the recursion ends by the
number of nodes: folding never adds one.

A form that is not compiled is refused before anything is emitted for it, but not before all that
stands around it: an argument of a call that is refused comes behind the code of the callee.

Operands of `&&` and `||` are both evaluated. Nothing is emitted that would jump over the second
one.
-/

set_option autoImplicit false

namespace StackCode

/-- The operation for a binary operator. -/
def BinaryOp.opcode : BinaryOp → Except Error OpCode
  | .add => .ok .add
  | .subtract => .ok .sub
  | .multiply => .ok .mul
  | .divide => .ok .div
  | .modulo => .ok .mod
  | .equal => .ok .eq
  | .notEqual => .ok .ne
  | .strictEqual => .ok .strictEq
  | .strictNotEqual => .ok .strictNe
  | .lessThan => .ok .lt
  | .lessThanEqual => .ok .le
  | .greaterThan => .ok .gt
  | .greaterThanEqual => .ok .ge
  | .logicalAnd => .ok .and
  | .logicalOr => .ok .or
  | .bitwiseAnd => .error (.unsupported .bitwiseAnd)
  | .bitwiseOr => .error (.unsupported .bitwiseOr)
  | .bitwiseXor => .error (.unsupported .bitwiseXor)
  | .leftShift => .error (.unsupported .leftShift)
  | .rightShift => .error (.unsupported .rightShift)
  | .unsignedRightShift => .error (.unsupported .unsignedRightShift)
  | .isIn => .error (.unsupported .isIn)
  | .instanceOf => .error (.unsupported .instanceOf)

/-- The operation for a unary operator. -/
def UnaryOp.opcode : UnaryOp → Except Error OpCode
  | .logicalNot => .ok .not
  | .minus => .error (.unsupported .unaryMinus)
  | .plus => .error (.unsupported .unaryPlus)
  | .bitwiseNot => .error (.unsupported .bitwiseNot)
  | .typeOf => .error (.unsupported .typeOf)
  | .void => .error (.unsupported .void)
  | .delete => .error (.unsupported .delete)

/-- The operand for a number of arguments. -/
def Operand.ofArgCount (n : Nat) : Except Error Operand :=
  if n < 65536 then .ok (.argCount (UInt16.ofNat n)) else .error (.unsupported .manyArguments)

theorem Expr.listSize_filterMap_id (items : List (Option Expr)) :
    Expr.listSize (items.filterMap id) = Expr.elementsSize items := by
  induction items with
  | nil => rfl
  | cons item items ih =>
    cases item with
    | none =>
      rw [List.filterMap_cons_none rfl, ih, Expr.elementsSize, Expr.optionSize, Nat.zero_add]
    | some e =>
      rw [List.filterMap_cons_some (f := id) rfl, Expr.listSize, ih, Expr.elementsSize,
        Expr.optionSize]

namespace Gen

mutual

/-- Compiles an expression, with additions of literals folded if `fold` is set. -/
def expression (fold : Bool) (e : Expr) : Gen Unit :=
  match e with
  | .number value => number value
  | .string raw => do
    let text ← ofExcept (Literal.decode raw)
    opAtom .string text
  | .regExp .. => refuse .regExp
  | .null => op .pushNull
  | .boolean value => op (if value then .pushTrue else .pushFalse)
  | .this => op .pushThis
  | .identifier v => load v
  | .array items =>
    if items.any Option.isNone then refuse .arrayHole
    else if 4294967296 ≤ items.length then refuse .longArray
    else do
      opWith .newArray (.length items.length)
      elements fold 0 (items.filterMap id)
      op .endInit
  | .object _ => refuse .objectLiteral
  | .binary .add left right =>
    if fold then
      match _h : (Expr.binary .add left right).fold.operands? with
      | some (left', right') => do
        expression fold left'
        expression fold right'
        op .add
      | none => expression fold (Expr.binary .add left right).fold
    else do
      expression fold left
      expression fold right
      op .add
  | .binary operator left right => do
    let opcode ← ofExcept operator.opcode
    expression fold left
    expression fold right
    op opcode
  | .unary operator argument => do
    let opcode ← ofExcept operator.opcode
    expression fold argument
    op opcode
  | .update .decrement _ _ => refuse .decrement
  | .update .increment true _ => refuse .increment
  | .update .increment false argument =>
    match argument with
    | .identifier v => increment v
    | .member object property => do
      expression fold object
      incrementProperty property
    | .index object key => do
      expression fold object
      expression fold key
      op .incElem
    | _ => refuse .incrementOperand
  | .assign .assign target value =>
    match target with
    | .identifier v => store v (expression fold value)
    | .member object property => do
      expression fold object
      expression fold value
      opAtom .setProp property
    | .index object key => do
      expression fold object
      expression fold key
      expression fold value
      op .setElem
    | _ => refuse .assignmentTarget
  | .assign operator _ _ => refuse (.compoundAssignment operator)
  | .call callee arguments => do
    let count ← ofExcept (Operand.ofArgCount arguments.length)
    function fold callee
    expressions fold arguments
    opWith .call count
  | .new callee arguments =>
    match callee with
    | .identifier v => do
      let count ← ofExcept (Operand.ofArgCount arguments.length)
      load v
      op .push
      expressions fold arguments
      opWith .new count
    | _ => refuse .computedConstructor
  | .member object property => do
    expression fold object
    opAtom .getProp property
  | .index object key => do
    expression fold object
    expression fold key
    op .getElem
  | .conditional test consequent alternate => do
    expression fold test
    let otherwise ← newLabel
    let merge ← newLabel
    jump .ifEq otherwise
    expression fold consequent
    jump .goto merge
    fix otherwise
    expression fold alternate
    fix merge
  | .comma left right => do
    expression fold left
    op .pop
    expression fold right
  | .function .. => throw .nestedFunction
termination_by 2 * e.size
decreasing_by
  case _ => simp only [Expr.size, Expr.listSize_filterMap_id]; omega
  case _ =>
    have := Expr.operands?_size _h
    have := (Expr.binary .add left right).fold_size_le
    omega
  case _ =>
    have := Expr.operands?_size _h
    have := (Expr.binary .add left right).fold_size_le
    omega
  case _ =>
    have := Expr.fold_size_lt_of_operands?_eq_none _h
    omega
  all_goals
    simp only [Expr.size]
    omega

/-- Compiles the callee of a call: the function and its receiver. A bare name is always looked up as
a global, whatever its binding. -/
def function (fold : Bool) (callee : Expr) : Gen Unit :=
  match callee with
  | .identifier v => opAtom .callGlobal v.name
  | .member object property => do
    expression fold object
    opAtom .callProp property
  | .index object key => do
    expression fold object
    expression fold key
    op .callElem
  | _ => refuse .callee
termination_by 2 * callee.size + 1
decreasing_by
  all_goals
    simp only [Expr.size]
    omega

/-- Compiles the arguments of a call in order. -/
def expressions (fold : Bool) (es : List Expr) : Gen Unit :=
  match es with
  | [] => pure ()
  | e :: es => do
    expression fold e
    expressions fold es
termination_by 2 * Expr.listSize es + 1
decreasing_by
  all_goals simp only [Expr.listSize]
  · omega
  · have := e.size_pos
    omega

/-- Compiles the elements of an array from index `first` on, each behind its index. -/
def elements (fold : Bool) (first : Nat) (es : List Expr) : Gen Unit :=
  match es with
  | [] => pure ()
  | e :: es => do
    number (Double.ofNat first)
    expression fold e
    op .initElem
    elements fold (first + 1) es
termination_by 2 * Expr.listSize es + 1
decreasing_by
  all_goals simp only [Expr.listSize]
  · omega
  · have := e.size_pos
    omega

end

end Gen

end StackCode
