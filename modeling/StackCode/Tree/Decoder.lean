import StackCode.Json.Decoder
import StackCode.Tree.Symbol

/-!
# The JSON form of trees

Statements, expressions and bindings are tagged nodes; operators and declaration words are choices
by name; all else is records. The order of variants and of fields counts: faults list variants in
order, a tag may be given as a place in the list, and a record may be given as an array of its
fields.

Statements and expressions contain one another. Their decoders are tied together by the depth to
which nodes may be nested, which the reader of the text bounds.
-/

set_option autoImplicit false

namespace StackCode

open Json (Decoder Fields Record Tagged)

/-! ## Scopes, bindings, variables -/

/-- A scope, from whatever reads a list of names. -/
def Scope.record {R : Type → Type} (names : R (List String)) : Record R Scope where
  title := "struct Scope"
  fields := .optional "parameters" names [] <| .optional "locals" names [] .done
  make parameters locals := { parameters := parameters.toArray, locals := locals.toArray }

def Scope.decode : Decoder Scope :=
  Decoder.record (Scope.record (Decoder.list Decoder.text))

def Binding.tagged : Tagged Binding where
  name := "Binding"
  key := "kind"
  variants :=
    [("parameter", Decoder.record
        ⟨"struct variant Binding::Parameter", .required "slot" Decoder.word16 .done, .parameter⟩),
      ("local", Decoder.record
        ⟨"struct variant Binding::Local", .required "slot" Decoder.word16 .done, .localSlot⟩),
      ("global", Decoder.record
        ⟨"struct variant Binding::Global", .required "name" Decoder.text .done, .global⟩)]

def Variable.decode : Decoder Variable :=
  Decoder.record
    ⟨"struct Variable",
      .required "name" Decoder.text <| .required "binding" Binding.tagged.decode .done, Variable.mk⟩

/-! ## Functions and programs -/

/-- A function declaration, from whatever reads the values of its fields. -/
def FunctionDecl.record {R : Type → Type} (text : R String) (line : R UInt32) (scope : R Scope)
    (body : R (List Stmt)) : Record R FunctionDecl where
  title := "struct FunctionDeclaration"
  fields :=
    .required "name" text <| .optional "lineno" line 1 <| .optional "scope" scope {} <|
      .required "body" body .done
  make := FunctionDecl.mk

/-- A program, from whatever reads the values of its fields. -/
def Program.record {R : Type → Type} (text : R String) (line : R UInt32) (scope : R Scope)
    (body : R (List Stmt)) : Record R Program where
  title := "struct Program"
  fields :=
    .required "filename" text <| .optional "lineno" line 1 <| .optional "scope" scope {} <|
      .required "body" body .done
  make := Program.mk

/-! ## Expressions -/

section Expressions

variable (expr : Decoder Expr) (stmt : Decoder Stmt)

/-- A property of an object literal: its key and its value. -/
def Expr.property : Record Decoder (String × Expr) where
  title := "struct Property"
  fields := .required "key" Decoder.text <| .required "value" expr .done
  make := Prod.mk

/-- The kinds of expression, given decoders of the nodes inside. -/
def Expr.variants : List (String × Decoder Expr) :=
  [("Number", Decoder.record
      ⟨"struct variant Expression::Number", .required "value" Decoder.real .done, .number⟩),
    ("String", Decoder.record
      ⟨"struct variant Expression::String", .required "raw" Decoder.text .done, .string⟩),
    ("RegExp", Decoder.record
      ⟨"struct variant Expression::RegExp",
        .required "pattern" Decoder.text <| .optional "flags" Decoder.text "" .done, .regExp⟩),
    ("Null", Decoder.bare .null),
    ("True", Decoder.bare (.boolean true)),
    ("False", Decoder.bare (.boolean false)),
    ("This", Decoder.bare .this),
    ("Identifier", Decoder.map .identifier Variable.decode),
    ("Array", Decoder.record
      ⟨"struct ArrayExpression",
        .required "elements" (Decoder.list (Decoder.nullable expr)) .done, .array⟩),
    ("Object", Decoder.record
      ⟨"struct ObjectExpression",
        .required "properties" (Decoder.list (Decoder.record (Expr.property expr))) .done,
          .object⟩),
    ("Binary", Decoder.record
      ⟨"struct BinaryExpression",
        .required "operator" (Decoder.choice BinaryOp.symbols) <|
          .required "left" expr <| .required "right" expr .done, .binary⟩),
    ("Unary", Decoder.record
      ⟨"struct UnaryExpression",
        .required "operator" (Decoder.choice UnaryOp.symbols) <|
          .required "argument" expr .done, .unary⟩),
    ("Update", Decoder.record
      ⟨"struct UpdateExpression",
        .required "operator" (Decoder.choice UpdateOp.symbols) <|
          .optional "prefix" Decoder.boolean false <| .required "argument" expr .done, .update⟩),
    ("Assignment", Decoder.record
      ⟨"struct AssignmentExpression",
        .required "operator" (Decoder.choice AssignOp.symbols) <|
          .required "target" expr <| .required "value" expr .done, .assign⟩),
    ("Call", Decoder.record
      ⟨"struct CallExpression",
        .required "callee" expr <| .optional "arguments" (Decoder.list expr) [] .done, .call⟩),
    ("New", Decoder.record
      ⟨"struct NewExpression",
        .required "callee" expr <| .optional "arguments" (Decoder.list expr) [] .done, .new⟩),
    ("Member", Decoder.record
      ⟨"struct MemberExpression",
        .required "object" expr <| .required "property" Decoder.text .done, .member⟩),
    ("Index", Decoder.record
      ⟨"struct IndexExpression", .required "object" expr <| .required "key" expr .done, .index⟩),
    ("Conditional", Decoder.record
      ⟨"struct ConditionalExpression",
        .required "test" expr <| .required "consequent" expr <| .required "alternate" expr .done,
        .conditional⟩),
    ("Comma", Decoder.record
      ⟨"struct CommaExpression", .required "left" expr <| .required "right" expr .done, .comma⟩),
    ("Function", Decoder.record
      ⟨"struct FunctionExpression",
        .optional "name" (Decoder.nullable Decoder.text) none <|
          .optional "scope" Scope.decode {} <|
            .required "body" (Decoder.list stmt) .done, .function⟩)]

end Expressions

/-! ## Statements -/

section Statements

variable (expr : Decoder Expr) (stmt : Decoder Stmt)

/-- The statements between two braces. -/
def Stmt.blockRecord : Record Decoder (List Stmt) where
  title := "struct BlockStatement"
  fields := .required "body" (Decoder.list stmt) .done
  make := id

/-- A declared variable and its first value. -/
def Stmt.declarator : Record Decoder (Variable × Option Expr) where
  title := "struct VariableDeclarator"
  fields := .required "id" Variable.decode <| .optional "init" (Decoder.nullable expr) none .done
  make := Prod.mk

/-- A case of a switch. The one without a test is the default. -/
def Stmt.switchCase : Record Decoder (Option Expr × List Stmt) where
  title := "struct SwitchCase"
  fields :=
    .optional "test" (Decoder.nullable expr) none <|
      .required "consequent" (Decoder.list stmt) .done
  make := Prod.mk

/-- The kinds of statement, given decoders of the nodes inside. -/
def Stmt.variants : List (String × Decoder Stmt) :=
  [("Empty", Decoder.bare .empty),
    ("Block", Decoder.map .block (Decoder.record (Stmt.blockRecord stmt))),
    ("Expression", Decoder.record
      ⟨"struct ExpressionStatement", .required "expression" expr .done, .expression⟩),
    ("VariableDeclaration", Decoder.record
      ⟨"struct VariableDeclaration",
        .required "kind" (Decoder.choice DeclarationKind.words) <|
          .required "declarations" (Decoder.list (Decoder.record (Stmt.declarator expr))) .done,
        .declaration⟩),
    ("FunctionDeclaration", Decoder.map FunctionDecl.toStmt <| Decoder.record <|
      FunctionDecl.record Decoder.text Decoder.word32 Scope.decode (Decoder.list stmt)),
    ("If", Decoder.record
      ⟨"struct IfStatement",
        .required "test" expr <| .required "consequent" stmt <|
          .optional "alternate" (Decoder.nullable stmt) none .done, .branch⟩),
    ("While", Decoder.record
      ⟨"struct WhileStatement", .required "test" expr <| .required "body" stmt .done, .whileLoop⟩),
    ("DoWhile", Decoder.record
      ⟨"struct DoWhileStatement", .required "body" stmt <| .required "test" expr .done, .doWhile⟩),
    ("For", Decoder.record
      ⟨"struct ForStatement",
        .optional "init" (Decoder.nullable stmt) none <|
          .optional "test" (Decoder.nullable expr) none <|
          .optional "update" (Decoder.nullable expr) none <|
            .required "body" stmt .done, .forLoop⟩),
    ("ForIn", Decoder.record
      ⟨"struct ForInStatement",
        .required "left" Variable.decode <| .required "right" expr <| .required "body" stmt .done,
        .forIn⟩),
    ("Break", Decoder.bare .breakLoop),
    ("Continue", Decoder.bare .continueLoop),
    ("Return", Decoder.record
      ⟨"struct ReturnStatement",
        .optional "argument" (Decoder.nullable expr) none .done, .giveBack⟩),
    ("Switch", Decoder.record
      ⟨"struct SwitchStatement",
        .required "discriminant" expr <|
          .required "cases" (Decoder.list (Decoder.record (Stmt.switchCase expr stmt))) .done,
            .switch⟩),
    ("Try", Decoder.record
      ⟨"struct TryStatement",
        .required "block" (Decoder.record (Stmt.blockRecord stmt)) <|
          .optional "handler" (Decoder.nullable (Decoder.record (Stmt.blockRecord stmt))) none <|
          .optional "finalizer"
            (Decoder.nullable (Decoder.record (Stmt.blockRecord stmt))) none .done,
        .tryCatch⟩),
    ("Throw", Decoder.record ⟨"struct ThrowStatement", .required "argument" expr .done, .throw⟩),
    ("With", Decoder.record
      ⟨"struct WithStatement", .required "object" expr <| .required "body" stmt .done, .within⟩),
    ("Labeled", Decoder.record
      ⟨"struct LabeledStatement", .required "label" Decoder.text <| .required "body" stmt .done,
        .labeled⟩)]

end Statements

/-! ## Nodes within nodes -/

/-- Decoders of both kinds of node. -/
structure NodeDecoders where
  expr : Decoder Expr
  stmt : Decoder Stmt

/-- The tagged form of expressions, given decoders of the nodes inside. -/
def Expr.tagged (inner : NodeDecoders) : Tagged Expr where
  name := "Expression"
  key := "type"
  variants := Expr.variants inner.expr inner.stmt

/-- The tagged form of statements, given decoders of the nodes inside. -/
def Stmt.tagged (inner : NodeDecoders) : Tagged Stmt where
  name := "Statement"
  key := "type"
  variants := Stmt.variants inner.expr inner.stmt

/-- Decoders of nodes that are nested at most so deep. -/
def NodeDecoders.within : Nat → NodeDecoders
  | 0 => ⟨Decoder.tooDeep "Expression", Decoder.tooDeep "Statement"⟩
  | depth + 1 =>
    let inner := NodeDecoders.within depth
    ⟨(Expr.tagged inner).decode, (Stmt.tagged inner).decode⟩

end StackCode
