import StackCode.Tree.Basic

/-!
# Operator symbols

How each operator and declaration word is spelled in a script and in a serialized tree. The tables
are in the order in which a fault lists the spellings it would have accepted.

A symbol stands for one operator. Unary and binary operators share some, and which is meant is known
from the node.
-/

set_option autoImplicit false

namespace StackCode

def BinaryOp.symbols : List (String × BinaryOp) :=
  [("+", .add), ("-", .subtract), ("*", .multiply), ("/", .divide), ("%", .modulo), ("==", .equal),
    ("!=", .notEqual), ("===", .strictEqual), ("!==", .strictNotEqual), ("<", .lessThan),
    ("<=", .lessThanEqual), (">", .greaterThan), (">=", .greaterThanEqual), ("&&", .logicalAnd),
    ("||", .logicalOr), ("&", .bitwiseAnd), ("|", .bitwiseOr), ("^", .bitwiseXor),
      ("<<", .leftShift),
    (">>", .rightShift), (">>>", .unsignedRightShift), ("in", .isIn), ("instanceof", .instanceOf)]

def UnaryOp.symbols : List (String × UnaryOp) :=
  [("-", .minus), ("+", .plus), ("!", .logicalNot), ("~", .bitwiseNot), ("typeof", .typeOf),
    ("void", .void), ("delete", .delete)]

def UpdateOp.symbols : List (String × UpdateOp) :=
  [("++", .increment), ("--", .decrement)]

def AssignOp.symbols : List (String × AssignOp) :=
  [("=", .assign), ("+=", .add), ("-=", .subtract), ("*=", .multiply), ("/=", .divide),
    ("%=", .modulo), ("&=", .bitwiseAnd), ("|=", .bitwiseOr), ("^=", .bitwiseXor),
      ("<<=", .leftShift), (">>=", .rightShift), (">>>=", .unsignedRightShift)]

/-- The spelling of an assignment operator. -/
def AssignOp.symbol : AssignOp → String
  | .assign => "="
  | .add => "+="
  | .subtract => "-="
  | .multiply => "*="
  | .divide => "/="
  | .modulo => "%="
  | .bitwiseAnd => "&="
  | .bitwiseOr => "|="
  | .bitwiseXor => "^="
  | .leftShift => "<<="
  | .rightShift => ">>="
  | .unsignedRightShift => ">>>="

def DeclarationKind.words : List (String × DeclarationKind) :=
  [("var", .var), ("let", .lexical), ("const", .constant)]

end StackCode
