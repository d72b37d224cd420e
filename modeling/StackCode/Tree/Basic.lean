import StackCode.Double.Basic
import StackCode.Scope

/-!
# Resolved syntax trees

The input of the compiler: a script whose variable references already carry their binding. Forms
that the compiler refuses are still part of the tree, so that it can refuse them by name.

A reference carries its name as well as its binding. The compiler uses the name only where a
function is called by it.

Positions are left out but for the line of a function and of the script, which is all that a message
or a listing shows. Literals of strings are kept as they were written, numbers as values.
-/

set_option autoImplicit false

namespace StackCode

/-- Where a variable lives. -/
inductive Binding where
  | parameter (slot : UInt16)
  | localSlot (slot : UInt16)
  | global (name : String)
deriving DecidableEq

/-- A variable reference: the name as written, and where it lives. -/
structure Variable where
  name : String
  binding : Binding
deriving DecidableEq

inductive BinaryOp where
  | add | subtract | multiply | divide | modulo
  | equal | notEqual | strictEqual | strictNotEqual
  | lessThan | lessThanEqual | greaterThan | greaterThanEqual
  | logicalAnd | logicalOr
  | bitwiseAnd | bitwiseOr | bitwiseXor | leftShift | rightShift | unsignedRightShift
  | isIn | instanceOf
deriving DecidableEq

inductive UnaryOp where
  | minus | plus | logicalNot | bitwiseNot | typeOf | void | delete
deriving DecidableEq

inductive UpdateOp where
  | increment | decrement
deriving DecidableEq

inductive AssignOp where
  | assign | add | subtract | multiply | divide | modulo
  | bitwiseAnd | bitwiseOr | bitwiseXor | leftShift | rightShift | unsignedRightShift
deriving DecidableEq

/-- The word that opens a variable declaration. -/
inductive DeclarationKind where
  | var | lexical | constant
deriving DecidableEq

mutual

/-- An expression. -/
inductive Expr where
  | number (value : Double)
  /-- A string literal as written, with its quotes and escapes. -/
  | string (raw : String)
  | regExp (pattern flags : String)
  | null
  | boolean (value : Bool)
  | this
  | identifier (v : Variable)
  /-- An array literal. `none` is a hole. -/
  | array (elements : List (Option Expr))
  | object (properties : List (String × Expr))
  | binary (op : BinaryOp) (left right : Expr)
  | unary (op : UnaryOp) (argument : Expr)
  | update (op : UpdateOp) (before : Bool) (argument : Expr)
  | assign (op : AssignOp) (target value : Expr)
  | call (callee : Expr) (arguments : List Expr)
  | new (callee : Expr) (arguments : List Expr)
  | member (object : Expr) (property : String)
  | index (object key : Expr)
  | conditional (test consequent alternate : Expr)
  | comma (left right : Expr)
  | function (name : Option String) (scope : Scope) (body : List Stmt)

/-- A statement. -/
inductive Stmt where
  | empty
  | block (body : List Stmt)
  | expression (value : Expr)
  | declaration (kind : DeclarationKind) (declarators : List (Variable × Option Expr))
  | function (name : String) (line : UInt32) (scope : Scope) (body : List Stmt)
  | branch (test : Expr) (consequent : Stmt) (alternate : Option Stmt)
  | whileLoop (test : Expr) (body : Stmt)
  | doWhile (body : Stmt) (test : Expr)
  | forLoop (init : Option Stmt) (test update : Option Expr) (body : Stmt)
  | forIn (left : Variable) (right : Expr) (body : Stmt)
  | breakLoop
  | continueLoop
  | giveBack (argument : Option Expr)
  | switch (discriminant : Expr) (cases : List (Option Expr × List Stmt))
  | tryCatch (block : List Stmt) (handler finalizer : Option (List Stmt))
  | throw (argument : Expr)
  | within (object : Expr) (body : Stmt)
  | labeled (label : String) (body : Stmt)

end

/-- A function declaration: its name, the line it starts on, its scope and its body. -/
structure FunctionDecl where
  name : String
  line : UInt32 := 1
  scope : Scope := {}
  body : List Stmt

/-- The statement that declares a function. -/
def FunctionDecl.toStmt (f : FunctionDecl) : Stmt :=
  .function f.name f.line f.scope f.body

/-- A whole script. -/
structure Program where
  filename : String
  line : UInt32 := 1
  scope : Scope := {}
  body : List Stmt

end StackCode
