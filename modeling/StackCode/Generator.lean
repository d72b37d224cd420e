import StackCode.Gen.Statement

/-!
# Units and programs

Each function declared at the top level of a script becomes a unit, and so does the top level
itself. Declarations in blocks, branches and loops of the top level count as declared there; those
in the bodies of functions do not, and are refused when the enclosing function is compiled.

The search for functions goes where a declaration can be compiled and no further. What it does not
look into, such as the body of a `do`, is refused as a whole, so that no function is lost unnoticed.

Units are compiled one by one and in order, and the first failure ends the compilation. The units
before it are complete, and are thrown away with the rest.
-/

set_option autoImplicit false

namespace StackCode

/-! ## Functions of the top level

In source order. A function keeps the scope and the line that it has in the tree. -/

mutual

/-- The functions that a statement of the top level declares, in order. -/
def Stmt.functions : Stmt → List FunctionDecl
  | .function name line scope body => [{ name, line, scope, body }]
  | .block body => Stmt.functionsOfList body
  | .branch _ consequent alternate => consequent.functions ++ Stmt.functionsOfOption alternate
  | .whileLoop _ body => body.functions
  | .forLoop _ _ _ body => body.functions
  | _ => []

def Stmt.functionsOfOption : Option Stmt → List FunctionDecl
  | none => []
  | some s => s.functions

def Stmt.functionsOfList : List Stmt → List FunctionDecl
  | [] => []
  | s :: ss => s.functions ++ Stmt.functionsOfList ss

end

/-- The functions of a script, in the order of their declaration. -/
def Program.functions (p : Program) : List FunctionDecl :=
  Stmt.functionsOfList p.body

/-! ## Compiling

A unit starts from nothing but its scope, the name of the file and its line. So units do not see one
another: each has atoms and labels of its own. -/

/-- Runs a step on a new unit and finishes the unit. -/
def OpenUnit.build (unit : OpenUnit) (step : Gen Unit) : Except Error CodeUnit :=
  match step.run.run unit with
  | (.ok (), unit) => unit.finish
  | (.error e, _) => .error e

/-- Compiles the body of a function. -/
def FunctionDecl.compile (f : FunctionDecl) (filename : String) (fold : Bool) :
    Except Error CodeUnit :=
  OpenUnit.build { asm := { scope := f.scope, filename, line := f.line } }
    (Gen.statements { toplevel := false, fold } f.body)

/-- Compiles the top level of a script. -/
def Program.compileToplevel (p : Program) (fold : Bool) : Except Error CodeUnit :=
  OpenUnit.build { asm := { scope := p.scope, filename := p.filename, line := p.line } }
    (Gen.statements { toplevel := true, fold } p.body)

/-- What a unit is compiled from. -/
inductive UnitOrigin where
  | function (name : String)
  | toplevel
deriving DecidableEq

/-- What messages call a unit. -/
def UnitOrigin.name : UnitOrigin → String
  | .function name => name
  | .toplevel => "<toplevel>"

/-- One unit of a script to be compiled: what it comes from, where it starts, and the outcome. -/
structure UnitResult where
  origin : UnitOrigin
  line : UInt32
  result : Except Error CodeUnit

/-- The units of a script: its functions, then the top level. -/
def Program.unitResults (p : Program) (fold : Bool) : List UnitResult :=
  p.functions.map (fun f => ⟨.function f.name, f.line, f.compile p.filename fold⟩) ++
    [⟨.toplevel, p.line, p.compileToplevel fold⟩]

/-- Collects units up to the first that cannot be compiled, behind the units of `file`. -/
def ObjectFile.collect (filename : String) (file : ObjectFile) :
    List UnitResult → Except CompileError ObjectFile
  | [] => .ok file
  | ⟨origin, line, result⟩ :: rest =>
    match result with
    | .ok unit => collect filename (file.push unit) rest
    | .error cause => .error { unit := origin.name, filename, line, cause }

/-- Compiles a script. The first unit that cannot be compiled decides the error. -/
def Program.compile (p : Program) (fold : Bool) : Except CompileError ObjectFile :=
  ObjectFile.collect p.filename {} (p.unitResults fold)

end StackCode
