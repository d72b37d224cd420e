import StackCode.Proofs.Json.Fields
import StackCode.Tree.Symbol

/-!
# The JSON values that write a tree

`p.WrittenAs j` says that the JSON value `j` writes the program `p`. It does not go through the
decoders: it lists for each kind of node the entries that an object must give, by their names. Every
object may give its entries in any order and may have entries with names that are not listed. An
entry that can be left out says when.

A number is written as an integer. So a tree has a written form only if its numbers are integers,
and no `-0`.

## A second description of the input

The decoders say which values they accept and what they make of them. This file says which values
write a given tree, and is meant to be read by someone who produces trees: one clause for each kind
of node, with the names of its entries and what stands under them. The two are compared elsewhere,
and neither is derived from the other.

It is not the largest such relation. The decoders also accept a record that is an array of its
fields in order, and a number that is written with a fraction; a producer of trees has no use for
either. What is accepted besides the forms here is no concern of a statement that what is written is
read back.

The names of operators and of tags stand in the clauses as they are. The tables of the decoders are
searched by these names, so it has to be checked that each is found, and found as the operator it
stands for.
-/

set_option autoImplicit false

namespace StackCode

open Json (Given GivenOr)

/-- Which JSON values write a value. -/
abbrev Form (α : Type) := α → Json → Prop

namespace Form

variable {α : Type}

def text : Form String :=
  fun s j => j = .string s

def boolean : Form Bool :=
  fun b j => j = .bool b

def word16 : Form UInt16 :=
  fun n j => j = .number (.integer n.toNat)

def word32 : Form UInt32 :=
  fun n j => j = .number (.integer n.toNat)

def integer : Form Double :=
  fun x j => ∃ n, x.toInt? = some n ∧ x ≠ .zero true ∧ j = .number (.integer n)

def nullable (form : Form α) : Form (Option α)
  | none, j => j = .null
  | some a, j => form a j

def list (form : Form α) : Form (List α) :=
  fun as j => ∃ js, j = .array js ∧ List.Forall₂ form as js

/-- Written as an object that has these entries among others. -/
def object (entries : α → List (String × Json) → Prop) : Form α :=
  fun a j => ∃ es, j = .object es ∧ entries a es

end Form

/-! ## Operators

By cases, one symbol for each. That no two operators have the same symbol follows from each being
found in the table. -/

def BinaryOp.symbol : BinaryOp → String
  | .add => "+"
  | .subtract => "-"
  | .multiply => "*"
  | .divide => "/"
  | .modulo => "%"
  | .equal => "=="
  | .notEqual => "!="
  | .strictEqual => "==="
  | .strictNotEqual => "!=="
  | .lessThan => "<"
  | .lessThanEqual => "<="
  | .greaterThan => ">"
  | .greaterThanEqual => ">="
  | .logicalAnd => "&&"
  | .logicalOr => "||"
  | .bitwiseAnd => "&"
  | .bitwiseOr => "|"
  | .bitwiseXor => "^"
  | .leftShift => "<<"
  | .rightShift => ">>"
  | .unsignedRightShift => ">>>"
  | .isIn => "in"
  | .instanceOf => "instanceof"

def UnaryOp.symbol : UnaryOp → String
  | .minus => "-"
  | .plus => "+"
  | .logicalNot => "!"
  | .bitwiseNot => "~"
  | .typeOf => "typeof"
  | .void => "void"
  | .delete => "delete"

def UpdateOp.symbol : UpdateOp → String
  | .increment => "++"
  | .decrement => "--"

def DeclarationKind.word : DeclarationKind → String
  | .var => "var"
  | .lexical => "let"
  | .constant => "const"

theorem BinaryOp.lookup_symbol (op : BinaryOp) : BinaryOp.symbols.lookup op.symbol = some op := by
  cases op <;> rfl

theorem UnaryOp.lookup_symbol (op : UnaryOp) : UnaryOp.symbols.lookup op.symbol = some op := by
  cases op <;> rfl

theorem UpdateOp.lookup_symbol (op : UpdateOp) : UpdateOp.symbols.lookup op.symbol = some op := by
  cases op <;> rfl

theorem AssignOp.lookup_symbol (op : AssignOp) : AssignOp.symbols.lookup op.symbol = some op := by
  cases op <;> rfl

theorem DeclarationKind.lookup_word (kind : DeclarationKind) :
    DeclarationKind.words.lookup kind.word = some kind := by
  cases kind <;> rfl

/-! ## Scopes, bindings, variables -/

def Scope.Entries (scope : Scope) (es : List (String × Json)) : Prop :=
  GivenOr es "parameters" (scope.parameters.toList = [])
    (Form.list Form.text scope.parameters.toList) ∧
  GivenOr es "locals" (scope.locals.toList = []) (Form.list Form.text scope.locals.toList)

def Scope.form : Form Scope :=
  Form.object Scope.Entries

def Binding.Entries : Binding → List (String × Json) → Prop
  | .parameter slot, es =>
    Given es "kind" (Form.text "parameter") ∧ Given es "slot" (Form.word16 slot)
  | .localSlot slot, es => Given es "kind" (Form.text "local") ∧ Given es "slot" (Form.word16 slot)
  | .global name, es => Given es "kind" (Form.text "global") ∧ Given es "name" (Form.text name)

def Variable.Entries (v : Variable) (es : List (String × Json)) : Prop :=
  Given es "name" (Form.text v.name) ∧ Given es "binding" (Form.object Binding.Entries v.binding)

def Variable.form : Form Variable :=
  Form.object Variable.Entries

/-! ## Expressions and statements

The nodes inside of a node are described by forms that are arguments here. This leaves the recursion
to the next section, where it is on the depth and not on the tree. -/

section

variable (expr : Form Expr) (stmt : Form Stmt)

/-- A property of an object literal: its key and its value. -/
def Expr.PropertyEntries (property : String × Expr) (es : List (String × Json)) : Prop :=
  Given es "key" (Form.text property.1) ∧ Given es "value" (expr property.2)

/-- The entries of an expression, given the forms of the nodes inside. -/
def Expr.Entries : Expr → List (String × Json) → Prop
  | .number value, es =>
    Given es "type" (Form.text "Number") ∧ Given es "value" (Form.integer value)
  | .string raw, es => Given es "type" (Form.text "String") ∧ Given es "raw" (Form.text raw)
  | .regExp pattern flags, es =>
    Given es "type" (Form.text "RegExp") ∧ Given es "pattern" (Form.text pattern) ∧
      GivenOr es "flags" (flags = "") (Form.text flags)
  | .null, es => Given es "type" (Form.text "Null")
  | .boolean true, es => Given es "type" (Form.text "True")
  | .boolean false, es => Given es "type" (Form.text "False")
  | .this, es => Given es "type" (Form.text "This")
  | .identifier v, es => Given es "type" (Form.text "Identifier") ∧ v.Entries es
  | .array elements, es =>
    Given es "type" (Form.text "Array") ∧
    Given es "elements" (Form.list (Form.nullable expr) elements)
  | .object properties, es =>
    Given es "type" (Form.text "Object") ∧
      Given es "properties" (Form.list (Form.object (Expr.PropertyEntries expr)) properties)
  | .binary op left right, es =>
    Given es "type" (Form.text "Binary") ∧ Given es "operator" (Form.text op.symbol) ∧
      Given es "left" (expr left) ∧ Given es "right" (expr right)
  | .unary op argument, es =>
    Given es "type" (Form.text "Unary") ∧ Given es "operator" (Form.text op.symbol) ∧
      Given es "argument" (expr argument)
  | .update op before argument, es =>
    Given es "type" (Form.text "Update") ∧ Given es "operator" (Form.text op.symbol) ∧
      GivenOr es "prefix" (before = false) (Form.boolean before) ∧
      Given es "argument" (expr argument)
  | .assign op target value, es =>
    Given es "type" (Form.text "Assignment") ∧ Given es "operator" (Form.text op.symbol) ∧
      Given es "target" (expr target) ∧ Given es "value" (expr value)
  | .call callee arguments, es =>
    Given es "type" (Form.text "Call") ∧ Given es "callee" (expr callee) ∧
      GivenOr es "arguments" (arguments = []) (Form.list expr arguments)
  | .new callee arguments, es =>
    Given es "type" (Form.text "New") ∧ Given es "callee" (expr callee) ∧
      GivenOr es "arguments" (arguments = []) (Form.list expr arguments)
  | .member owner property, es =>
    Given es "type" (Form.text "Member") ∧ Given es "object" (expr owner) ∧
    Given es "property" (Form.text property)
  | .index owner key, es =>
    Given es "type" (Form.text "Index") ∧ Given es "object" (expr owner) ∧ Given es "key" (expr key)
  | .conditional test consequent alternate, es =>
    Given es "type" (Form.text "Conditional") ∧ Given es "test" (expr test) ∧
      Given es "consequent" (expr consequent) ∧ Given es "alternate" (expr alternate)
  | .comma left right, es =>
    Given es "type" (Form.text "Comma") ∧ Given es "left" (expr left) ∧
    Given es "right" (expr right)
  | .function name scope body, es =>
    Given es "type" (Form.text "Function") ∧
    GivenOr es "name" (name = none) (Form.nullable Form.text name) ∧
      GivenOr es "scope" (scope = {}) (Scope.form scope) ∧ Given es "body" (Form.list stmt body)

/-- The statements between two braces. -/
def Stmt.BlockEntries (body : List Stmt) (es : List (String × Json)) : Prop :=
  Given es "body" (Form.list stmt body)

/-- A declared variable and its first value. -/
def Stmt.DeclaratorEntries (declarator : Variable × Option Expr) (es : List (String × Json)) :
    Prop :=
  Given es "id" (Variable.form declarator.1) ∧
    GivenOr es "init" (declarator.2 = none) (Form.nullable expr declarator.2)

/-- A case of a switch. -/
def Stmt.CaseEntries (case : Option Expr × List Stmt) (es : List (String × Json)) : Prop :=
  GivenOr es "test" (case.1 = none) (Form.nullable expr case.1) ∧
    Given es "consequent" (Form.list stmt case.2)

/-- The entries of a statement, given the forms of the nodes inside. -/
def Stmt.Entries : Stmt → List (String × Json) → Prop
  | .empty, es => Given es "type" (Form.text "Empty")
  | .block body, es => Given es "type" (Form.text "Block") ∧ Stmt.BlockEntries stmt body es
  | .expression value, es =>
    Given es "type" (Form.text "Expression") ∧ Given es "expression" (expr value)
  | .declaration kind declarators, es =>
    Given es "type" (Form.text "VariableDeclaration") ∧ Given es "kind" (Form.text kind.word) ∧
      Given es "declarations" (Form.list (Form.object (Stmt.DeclaratorEntries expr)) declarators)
  | .function name line scope body, es =>
    Given es "type" (Form.text "FunctionDeclaration") ∧ Given es "name" (Form.text name) ∧
      GivenOr es "lineno" (line = 1) (Form.word32 line) ∧
      GivenOr es "scope" (scope = {}) (Scope.form scope) ∧
      Given es "body" (Form.list stmt body)
  | .branch test consequent alternate, es =>
    Given es "type" (Form.text "If") ∧ Given es "test" (expr test) ∧
    Given es "consequent" (stmt consequent) ∧
      GivenOr es "alternate" (alternate = none) (Form.nullable stmt alternate)
  | .whileLoop test body, es =>
    Given es "type" (Form.text "While") ∧ Given es "test" (expr test) ∧ Given es "body" (stmt body)
  | .doWhile body test, es =>
    Given es "type" (Form.text "DoWhile") ∧ Given es "body" (stmt body) ∧
    Given es "test" (expr test)
  | .forLoop init test update body, es =>
    Given es "type" (Form.text "For") ∧ GivenOr es "init" (init = none) (Form.nullable stmt init) ∧
      GivenOr es "test" (test = none) (Form.nullable expr test) ∧
      GivenOr es "update" (update = none) (Form.nullable expr update) ∧ Given es "body" (stmt body)
  | .forIn left right body, es =>
    Given es "type" (Form.text "ForIn") ∧ Given es "left" (Variable.form left) ∧
    Given es "right" (expr right) ∧
      Given es "body" (stmt body)
  | .breakLoop, es => Given es "type" (Form.text "Break")
  | .continueLoop, es => Given es "type" (Form.text "Continue")
  | .giveBack argument, es =>
    Given es "type" (Form.text "Return") ∧
    GivenOr es "argument" (argument = none) (Form.nullable expr argument)
  | .switch discriminant cases, es =>
    Given es "type" (Form.text "Switch") ∧ Given es "discriminant" (expr discriminant) ∧
      Given es "cases" (Form.list (Form.object (Stmt.CaseEntries expr stmt)) cases)
  | .tryCatch body handler finalizer, es =>
    Given es "type" (Form.text "Try") ∧
    Given es "block" (Form.object (Stmt.BlockEntries stmt) body) ∧
      GivenOr es "handler" (handler = none)
        (Form.nullable (Form.object (Stmt.BlockEntries stmt)) handler) ∧
      GivenOr es "finalizer" (finalizer = none)
        (Form.nullable (Form.object (Stmt.BlockEntries stmt)) finalizer)
  | .throw argument, es => Given es "type" (Form.text "Throw") ∧ Given es "argument" (expr argument)
  | .within owner body, es =>
    Given es "type" (Form.text "With") ∧ Given es "object" (expr owner) ∧
    Given es "body" (stmt body)
  | .labeled label body, es =>
    Given es "type" (Form.text "Labeled") ∧ Given es "label" (Form.text label) ∧
    Given es "body" (stmt body)

end

/-! ## Nodes within nodes -/

/-- Forms of both kinds of node. -/
structure NodeForms where
  expr : Form Expr
  stmt : Form Stmt

/-- Forms of nodes that are nested at most so deep. -/
def NodeForms.within : Nat → NodeForms
  | 0 => ⟨fun _ _ => False, fun _ _ => False⟩
  | depth + 1 =>
    let inner := NodeForms.within depth
    ⟨Form.object (Expr.Entries inner.expr inner.stmt),
      Form.object (Stmt.Entries inner.expr inner.stmt)⟩

/-- The JSON value writes the statement. -/
def Stmt.WrittenAs : Form Stmt :=
  fun s j => ∃ depth, (NodeForms.within depth).stmt s j

def Program.Entries (p : Program) (es : List (String × Json)) : Prop :=
  Given es "filename" (Form.text p.filename) ∧
    GivenOr es "lineno" (p.line = 1) (Form.word32 p.line) ∧
    GivenOr es "scope" (p.scope = {}) (Scope.form p.scope) ∧
    Given es "body" (Form.list Stmt.WrittenAs p.body)

/-- The JSON value writes the program. -/
def Program.WrittenAs : Form Program :=
  Form.object Program.Entries

end StackCode
