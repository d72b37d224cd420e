import StackCode.Double.Decimal
import StackCode.Instruction
import StackCode.Tree.Symbol

/-!
# Why a unit cannot be compiled

Every cause is a constructor; its wording is in one place, `Error.message`. A cause belongs to one
of five kinds. Internal errors are broken promises of the code generator itself: no tree leads to
one.

A cause carries what its message needs: the number that was too large, the literal that could not be
decoded, the label and its two positions. No position in the source is kept, as trees have none
below functions.

Where a unit has several faults the first one counts, in the order in which it is compiled. So a
cause says why compilation stopped, and not all that is wrong.
-/

set_option autoImplicit false

namespace StackCode

/-- A form of the language that is not compiled. -/
inductive Feature where
  | doWhile | forIn | switch | tryCatch | throw | within | labeled
  | lexicalDeclaration | constantDeclaration
  /-- A `for` that starts with anything but a declaration or an expression. -/
  | forInitializer
  | regExp | objectLiteral | nonIntegerNumber | arrayHole | longArray
  | bitwiseAnd | bitwiseOr | bitwiseXor | leftShift | rightShift | unsignedRightShift
  | isIn | instanceOf
  | unaryMinus | unaryPlus | bitwiseNot | typeOf | void | delete
  | decrement
  /-- An increment in front of its operand. -/
  | increment
  | incrementOperand
  | compoundAssignment (op : AssignOp)
  | assignmentTarget
  | callee | manyArguments | computedConstructor
deriving DecidableEq

/-- What a form is called in messages. -/
def Feature.describe : Feature → String
  | .doWhile => "do-while statement"
  | .forIn => "for-in statement"
  | .switch => "switch statement"
  | .tryCatch => "try statement"
  | .throw => "throw statement"
  | .within => "with statement"
  | .labeled => "labeled statement"
  | .lexicalDeclaration => "let declaration"
  | .constantDeclaration => "const declaration"
  | .forInitializer => "for-loop initializer of this kind"
  | .regExp => "regular expression"
  | .objectLiteral => "object literal"
  | .nonIntegerNumber => "non-integer number literal"
  | .arrayHole => "array hole"
  | .longArray => "array literal longer than 2^32 - 1"
  | .bitwiseAnd => "bitwise and"
  | .bitwiseOr => "bitwise or"
  | .bitwiseXor => "bitwise xor"
  | .leftShift => "left shift"
  | .rightShift => "right shift"
  | .unsignedRightShift => "unsigned right shift"
  | .isIn => "in operator"
  | .instanceOf => "instanceof"
  | .unaryMinus => "unary minus"
  | .unaryPlus => "unary plus"
  | .bitwiseNot => "bitwise not"
  | .typeOf => "typeof operator"
  | .void => "void operator"
  | .delete => "delete operator"
  | .decrement => "decrement operator"
  | .increment => "prefix increment"
  | .incrementOperand => "increment of this operand"
  | .compoundAssignment op => op.symbol ++ " operator"
  | .assignmentTarget => "assignment to this target"
  | .callee => "call of this callee"
  | .manyArguments => "argument list longer than 65535"
  | .computedConstructor => "new with a computed constructor"

/-- Why a unit cannot be compiled. -/
inductive Error where
  | unsupported (feature : Feature)
  /-- An integer literal outside of the signed 32-bit range. -/
  | numberTooLarge (value : Double)
  | nestedFunction
  /-- A `break` or `continue`, named by `statement`, that no loop encloses. -/
  | outsideLoop (statement : String)
  /-- A string literal that is not well formed. -/
  | invalidLiteral (raw : String)
  /-- A label was fixed that was never allocated. -/
  | unknownLabel (label : Label)
  | labelFixedTwice (label : Label) (first second : Nat)
  /-- A unit was closed with labels that have no position or jumps that have no target. -/
  | labelsLeftOpen (unfixed unresolved : Nat)
  /-- A unit was finished inside of `depth` loops. -/
  | loopsLeftOpen (depth : Nat)
deriving DecidableEq

namespace Error

/-- The kinds of error. -/
inductive Kind where
  | unsupported | numberTooLarge | semantic | invalidLiteral | internal
deriving DecidableEq

/-- The kind that a cause belongs to. -/
def kind : Error → Kind
  | .unsupported _ => .unsupported
  | .numberTooLarge _ => .numberTooLarge
  | .nestedFunction | .outsideLoop _ => .semantic
  | .invalidLiteral _ => .invalidLiteral
  | .unknownLabel _ | .labelFixedTwice .. | .labelsLeftOpen .. | .loopsLeftOpen _ => .internal

/-- A cause in words, without its kind. -/
def detail : Error → String
  | .unsupported feature => s!"{feature.describe} not implemented"
  | .numberTooLarge value => s!"number literal {value.plainText} is too large"
  | .nestedFunction => "nested function not implemented"
  | .outsideLoop statement => s!"{statement} outside of loop"
  | .invalidLiteral raw => s!"invalid string literal: {raw}"
  | .unknownLabel l => s!"unknown label L{l.index}"
  | .labelFixedTwice l first second => s!"label L{l.index} fixed twice (at {first} and {second})"
  | .labelsLeftOpen unfixed unresolved =>
    s!"{unfixed} label(s) left unfixed, {unresolved} jump(s) unresolved at unit close"
  | .loopsLeftOpen depth => s!"{depth} loop context(s) still open at unit close"

/-- The message of an error. -/
def message (e : Error) : String :=
  match e.kind with
  | .semantic => "SemanticError: " ++ e.detail
  | .internal => "InternalError: " ++ e.detail
  | _ => e.detail

end Error

/-- An error together with the unit in which it arose. -/
structure CompileError where
  unit : String
  filename : String
  line : UInt32
  cause : Error
deriving DecidableEq

/-- The message of a compile error: where, in which unit, and why. -/
def CompileError.message (e : CompileError) : String :=
  s!"{e.filename}:{e.line}: in {e.unit}: {e.cause.message}"

end StackCode
