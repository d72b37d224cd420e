import StackCode.Gen.Expression

/-!
# Compiling statements

Statements leave nothing on the stack.

```text
if (test) a else b      while (test) body       for (init; test; update) body
  [test]                ENTRY:                    [init]
  ifeq ELSE               [test]                  goto BODY
  [a]                     ifeq EXIT             ENTRY:
  goto MERGE              [body]                  [update]
ELSE:                     goto ENTRY              pop
  [b]                   EXIT:                   BODY:
MERGE:                                            [test]
                                                  ifeq EXIT
                                                  [body]
                                                  goto ENTRY
                                                EXIT:
```

`continue` goes to `ENTRY` and `break` to `EXIT` of the innermost loop. The update of a `for` stands
before the test, and the first iteration jumps over it.
-/

set_option autoImplicit false

namespace StackCode

/-- What compilation of a unit depends on besides its tree. -/
structure Mode where
  /-- Whether the unit is the top level of a script. There the value of an expression statement is
  kept as the completion value, and function declarations are allowed: they become units of their
  own. -/
  toplevel : Bool := true
  /-- Whether additions of number literals are folded. -/
  fold : Bool := true
deriving DecidableEq

namespace Gen

/-- Compiles the initializers of a `var` declaration in order. A variable without one is left
alone. -/
def declarators (fold : Bool) : List (Variable × Option Expr) → Gen Unit
  | [] => pure ()
  | (_, none) :: rest => declarators fold rest
  | (v, some init) :: rest => do
    store v (expression fold init)
    op .pop
    declarators fold rest

/-- Compiles a variable declaration. -/
def declaration (fold : Bool) (kind : DeclarationKind) (ds : List (Variable × Option Expr)) :
    Gen Unit :=
  match kind with
  | .var => declarators fold ds
  | .lexical => refuse .lexicalDeclaration
  | .constant => refuse .constantDeclaration

/-- Compiles what a `for` starts with. The value of an expression is dropped, also at the top
level. -/
def forInit (fold : Bool) : Option Stmt → Gen Unit
  | none | some .empty => pure ()
  | some (.declaration kind ds) => declaration fold kind ds
  | some (.expression value) => do
    expression fold value
    op .pop
  | some _ => refuse .forInitializer

/-- Compiles the update of a `for`. -/
def forUpdate (fold : Bool) : Option Expr → Gen Unit
  | none => pure ()
  | some update => do
    expression fold update
    op .pop

/-- Compiles the test of a `for`. Without a test the loop ends only by `break`. -/
def forTest (fold : Bool) (exit : Label) : Option Expr → Gen Unit
  | none => pure ()
  | some test => do
    expression fold test
    jump .ifEq exit

mutual

/-- Compiles a statement. -/
def statement (mode : Mode) : Stmt → Gen Unit
  | .empty => pure ()
  | .block body => statements mode body
  | .expression value => do
    expression mode.fold value
    op (if mode.toplevel then .popv else .pop)
  | .declaration kind ds => declaration mode.fold kind ds
  | .function .. => if mode.toplevel then pure () else throw .nestedFunction
  | .branch test consequent alternate => do
    expression mode.fold test
    let otherwise ← newLabel
    let merge ← newLabel
    jump .ifEq otherwise
    statement mode consequent
    jump .goto merge
    fix otherwise
    optional mode alternate
    fix merge
  | .whileLoop test body => do
    let exit ← newLabel
    let entry ← labelHere
    enterLoop { entry, exit }
    expression mode.fold test
    jump .ifEq exit
    statement mode body
    jump .goto entry
    fix exit
    leaveLoop
  | .forLoop init test update body => do
    forInit mode.fold init
    let start ← newLabel
    jump .goto start
    let entry ← labelHere
    forUpdate mode.fold update
    let exit ← newLabel
    enterLoop { entry, exit }
    fix start
    forTest mode.fold exit test
    statement mode body
    jump .goto entry
    fix exit
    leaveLoop
  | .breakLoop => do
    let loop ← innermost "break"
    jump .goto loop.exit
  | .continueLoop => do
    let loop ← innermost "continue"
    jump .goto loop.entry
  | .giveBack none => do
    op .push
    op .ret
  | .giveBack (some argument) => do
    expression mode.fold argument
    op .ret
  | .doWhile .. => refuse .doWhile
  | .forIn .. => refuse .forIn
  | .switch .. => refuse .switch
  | .tryCatch .. => refuse .tryCatch
  | .throw _ => refuse .throw
  | .within .. => refuse .within
  | .labeled .. => refuse .labeled

/-- Compiles a statement that may be missing. -/
def optional (mode : Mode) : Option Stmt → Gen Unit
  | none => pure ()
  | some s => statement mode s

/-- Compiles statements in order. -/
def statements (mode : Mode) : List Stmt → Gen Unit
  | [] => pure ()
  | s :: ss => do
    statement mode s
    statements mode ss

end

end Gen

end StackCode
