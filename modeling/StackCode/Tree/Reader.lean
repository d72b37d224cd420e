import StackCode.Json.Typed
import StackCode.Tree.Decoder

/-!
# Reading trees from text

A text may open at most `maxNesting` arrays and objects inside of one another. A program and its
scope are interpreted while they are read; its statements are tagged nodes, each of which is read to
its end and then decoded.

Statements are decoded one at a time, each when it has been read, so a fault in one is reported
before any fault of the text behind it.
-/

set_option autoImplicit false

namespace StackCode

open Json (Reader)

/-- The number of arrays and objects that may be open at once. -/
def maxNesting : Nat := 127

/-- Reads an expression with at most so many arrays and objects open at once. -/
def Expr.reader (depth : Nat) : Reader Expr :=
  Reader.tagged (Expr.tagged (NodeDecoders.within (depth - 1))) depth

/-- Reads a statement with at most so many arrays and objects open at once. -/
def Stmt.reader (depth : Nat) : Reader Stmt :=
  Reader.tagged (Stmt.tagged (NodeDecoders.within (depth - 1))) depth

def Scope.reader : Reader Scope :=
  Reader.record (Scope.record (Reader.list Reader.text))

def FunctionDecl.reader : Reader FunctionDecl :=
  Reader.record <| FunctionDecl.record Reader.text Reader.word32 Scope.reader <|
    Reader.list (Stmt.reader (maxNesting - 2))

def Program.reader : Reader Program :=
  Reader.record <| Program.record Reader.text Reader.word32 Scope.reader <|
    Reader.list (Stmt.reader (maxNesting - 2))

/-! ## Whole texts -/

/-- The message for a text that is no tree. -/
def Fault.treeMessage (fault : Fault) : String :=
  "invalid syntax tree: " ++ fault.message

/-- Reads an expression from the whole of a text. -/
def Expr.parse (text : String) : Except Fault Expr :=
  (Expr.reader maxNesting).all text

/-- Reads a statement from the whole of a text. -/
def Stmt.parse (text : String) : Except Fault Stmt :=
  (Stmt.reader maxNesting).all text

/-- Reads an array of statements from the whole of a text. -/
def Stmt.parseList (text : String) : Except Fault (List Stmt) :=
  (Reader.list (Stmt.reader (maxNesting - 1))).all text

/-- Reads a function declaration, without a tag, from the whole of a text. -/
def FunctionDecl.parse (text : String) : Except Fault FunctionDecl :=
  FunctionDecl.reader.all text

/-- Reads a program from the whole of a text. -/
def Program.parse (text : String) : Except Fault Program :=
  Program.reader.all text

end StackCode
