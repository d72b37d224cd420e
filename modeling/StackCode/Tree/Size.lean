import StackCode.Tree.Basic

/-!
# Node counts

The number of expressions and statements in a tree. Lists, options, properties and cases are no
nodes of their own.

The count is of nodes and not of characters, and the bodies of functions are counted where they
stand. It is the measure of the recursions that do not go by structure, and of the statements that
depend on how large a tree is.
-/

set_option autoImplicit false

namespace StackCode

mutual

/-- The number of nodes of an expression. -/
def Expr.size : Expr → Nat
  | .number _ | .string _ | .regExp _ _ | .null | .boolean _ | .this | .identifier _ => 1
  | .array elements => 1 + Expr.elementsSize elements
  | .object properties => 1 + Expr.propertiesSize properties
  | .binary _ left right => 1 + left.size + right.size
  | .unary _ argument => 1 + argument.size
  | .update _ _ argument => 1 + argument.size
  | .assign _ target value => 1 + target.size + value.size
  | .call callee arguments => 1 + callee.size + Expr.listSize arguments
  | .new callee arguments => 1 + callee.size + Expr.listSize arguments
  | .member object _ => 1 + object.size
  | .index object key => 1 + object.size + key.size
  | .conditional test consequent alternate => 1 + test.size + consequent.size + alternate.size
  | .comma left right => 1 + left.size + right.size
  | .function _ _ body => 1 + Stmt.listSize body

def Expr.optionSize : Option Expr → Nat
  | none => 0
  | some e => e.size

def Expr.listSize : List Expr → Nat
  | [] => 0
  | e :: es => e.size + Expr.listSize es

def Expr.elementsSize : List (Option Expr) → Nat
  | [] => 0
  | e :: es => Expr.optionSize e + Expr.elementsSize es

def Expr.propertySize : String × Expr → Nat
  | (_, e) => e.size

def Expr.propertiesSize : List (String × Expr) → Nat
  | [] => 0
  | p :: ps => Expr.propertySize p + Expr.propertiesSize ps

/-- The number of nodes of a statement. -/
def Stmt.size : Stmt → Nat
  | .empty | .breakLoop | .continueLoop => 1
  | .block body => 1 + Stmt.listSize body
  | .expression value => 1 + value.size
  | .declaration _ declarators => 1 + Stmt.declaratorsSize declarators
  | .function _ _ _ body => 1 + Stmt.listSize body
  | .branch test consequent alternate => 1 + test.size + consequent.size + Stmt.optionSize alternate
  | .whileLoop test body => 1 + test.size + body.size
  | .doWhile body test => 1 + body.size + test.size
  | .forLoop init test update body =>
    1 + Stmt.optionSize init + Expr.optionSize test + Expr.optionSize update + body.size
  | .forIn _ right body => 1 + right.size + body.size
  | .giveBack argument => 1 + Expr.optionSize argument
  | .switch discriminant cases => 1 + discriminant.size + Stmt.casesSize cases
  | .tryCatch block handler finalizer =>
    1 + Stmt.listSize block + Stmt.blockSize handler + Stmt.blockSize finalizer
  | .throw argument => 1 + argument.size
  | .within object body => 1 + object.size + body.size
  | .labeled _ body => 1 + body.size

def Stmt.optionSize : Option Stmt → Nat
  | none => 0
  | some s => s.size

def Stmt.listSize : List Stmt → Nat
  | [] => 0
  | s :: ss => s.size + Stmt.listSize ss

def Stmt.blockSize : Option (List Stmt) → Nat
  | none => 0
  | some ss => Stmt.listSize ss

def Stmt.declaratorSize : Variable × Option Expr → Nat
  | (_, init) => Expr.optionSize init

def Stmt.declaratorsSize : List (Variable × Option Expr) → Nat
  | [] => 0
  | d :: ds => Stmt.declaratorSize d + Stmt.declaratorsSize ds

def Stmt.caseSize : Option Expr × List Stmt → Nat
  | (test, body) => Expr.optionSize test + Stmt.listSize body

def Stmt.casesSize : List (Option Expr × List Stmt) → Nat
  | [] => 0
  | c :: cs => Stmt.caseSize c + Stmt.casesSize cs

end

theorem Expr.size_le_listSize {e : Expr} {es : List Expr} (h : e ∈ es) : e.size ≤ listSize es := by
  induction es with
  | nil => cases h
  | cons e' es ih =>
    rw [listSize]
    rcases List.mem_cons.mp h with rfl | h
    · exact Nat.le_add_right _ _
    · exact Nat.le_trans (ih h) (Nat.le_add_left _ _)

theorem Stmt.size_le_listSize {s : Stmt} {ss : List Stmt} (h : s ∈ ss) : s.size ≤ listSize ss := by
  induction ss with
  | nil => cases h
  | cons s' ss ih =>
    rw [listSize]
    rcases List.mem_cons.mp h with rfl | h
    · exact Nat.le_add_right _ _
    · exact Nat.le_trans (ih h) (Nat.le_add_left _ _)

end StackCode
