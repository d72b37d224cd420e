import StackCode.Tree.Basic

/-!
# Changing a tree node by node

A `Change` says what becomes of the number literals, of the variables and of the binary operations
of a tree; `Expr.map` and `Stmt.map` make the change everywhere and rebuild all other nodes as they
were. Three changes are studied in other files: folding every addition of literals, giving variables
other names, and replacing number literals. Each of them is a value of `Change`, so that the tree is
traversed by one definition.

The lemmas here are about any change. A list keeps its length, an array literal its holes, and an
expression stays what it can be used for: something to assign to, to increment, to call or to
construct (`Expr.isReference_map`, `Expr.isIdentifier_map`). That last fact needs a condition on
what a binary operation becomes, which is a field of the structure.

What a change means for the code of a tree is not said here, since it depends on the change.

The callee of a call has a field of its own in a change. The compiler looks it up by its name and
every other variable by its binding, so a change of the one kind of information is harmless in one
place and not in the other. All other positions are treated alike.

Functions inside of expressions and statements are changed with the rest, body and all. The declared
names and the scope of a function stay: they are not nodes.
-/

set_option autoImplicit false

namespace StackCode

namespace Expr

/-- Whether the expression names a place: a variable, a property or an element. -/
def isReference : Expr → Bool
  | .identifier _ | .member _ _ | .index _ _ => true
  | _ => false

/-- Whether the expression is a variable. -/
def isIdentifier : Expr → Bool
  | .identifier _ => true
  | _ => false

theorem isReference_binary (op : BinaryOp) (left right : Expr) :
    (binary op left right).isReference = false :=
  rfl

end Expr

/-- What is done to the nodes of a tree. A field that is not given leaves its nodes as they are. -/
structure Change where
  onNumber : Double → Double := id
  /-- The change of a variable that is the callee of a call. -/
  onCallee : Variable → Variable := id
  /-- The change of any other variable. -/
  onReference : Variable → Variable := id
  /-- The change of a binary operation whose operands have been changed. -/
  onBinary : BinaryOp → Expr → Expr → Expr := .binary
  /-- A value does not become a place. -/
  isReference_onBinary : ∀ op left right, (onBinary op left right).isReference = false := by
    exact Expr.isReference_binary

/-- Every number literal is replaced. -/
def Change.numbers (f : Double → Double) : Change where
  onNumber := f

namespace Change

variable (f : Double → Double)

@[simp] theorem numbers_onNumber (value : Double) : (numbers f).onNumber value = f value :=
  rfl

@[simp] theorem numbers_onCallee (v : Variable) : (numbers f).onCallee v = v :=
  rfl

@[simp] theorem numbers_onReference (v : Variable) : (numbers f).onReference v = v :=
  rfl

@[simp] theorem numbers_onBinary : (numbers f).onBinary = .binary :=
  rfl

end Change

mutual

/-- The expression with a change made at all of its nodes. -/
def Expr.map (m : Change) : Expr → Expr
  | .number value => .number (m.onNumber value)
  | .string raw => .string raw
  | .regExp pattern flags => .regExp pattern flags
  | .null => .null
  | .boolean value => .boolean value
  | .this => .this
  | .identifier v => .identifier (m.onReference v)
  | .array elements => .array (Expr.mapElements m elements)
  | .object properties => .object (Expr.mapProperties m properties)
  | .binary op left right => m.onBinary op (left.map m) (right.map m)
  | .unary op argument => .unary op (argument.map m)
  | .update op before argument => .update op before (argument.map m)
  | .assign op target value => .assign op (target.map m) (value.map m)
  | .call (.identifier v) arguments => .call (.identifier (m.onCallee v)) (Expr.mapList m arguments)
  | .call callee arguments => .call (callee.map m) (Expr.mapList m arguments)
  | .new callee arguments => .new (callee.map m) (Expr.mapList m arguments)
  | .member object property => .member (object.map m) property
  | .index object key => .index (object.map m) (key.map m)
  | .conditional test consequent alternate =>
    .conditional (test.map m) (consequent.map m) (alternate.map m)
  | .comma left right => .comma (left.map m) (right.map m)
  | .function name scope body => .function name scope (Stmt.mapList m body)

def Expr.mapOption (m : Change) : Option Expr → Option Expr
  | none => none
  | some e => some (e.map m)

def Expr.mapList (m : Change) : List Expr → List Expr
  | [] => []
  | e :: es => e.map m :: Expr.mapList m es

def Expr.mapElements (m : Change) : List (Option Expr) → List (Option Expr)
  | [] => []
  | e :: es => Expr.mapOption m e :: Expr.mapElements m es

def Expr.mapProperty (m : Change) : String × Expr → String × Expr
  | (name, e) => (name, e.map m)

def Expr.mapProperties (m : Change) : List (String × Expr) → List (String × Expr)
  | [] => []
  | p :: ps => Expr.mapProperty m p :: Expr.mapProperties m ps

/-- The statement with a change made at all of its nodes. -/
def Stmt.map (m : Change) : Stmt → Stmt
  | .empty => .empty
  | .block body => .block (Stmt.mapList m body)
  | .expression value => .expression (value.map m)
  | .declaration kind declarators => .declaration kind (Stmt.mapDeclarators m declarators)
  | .function name line scope body => .function name line scope (Stmt.mapList m body)
  | .branch test consequent alternate =>
    .branch (test.map m) (consequent.map m) (Stmt.mapOption m alternate)
  | .whileLoop test body => .whileLoop (test.map m) (body.map m)
  | .doWhile body test => .doWhile (body.map m) (test.map m)
  | .forLoop init test update body =>
    .forLoop (Stmt.mapOption m init) (Expr.mapOption m test) (Expr.mapOption m update) (body.map m)
  | .forIn left right body => .forIn (m.onReference left) (right.map m) (body.map m)
  | .breakLoop => .breakLoop
  | .continueLoop => .continueLoop
  | .giveBack argument => .giveBack (Expr.mapOption m argument)
  | .switch discriminant cases => .switch (discriminant.map m) (Stmt.mapCases m cases)
  | .tryCatch block handler finalizer =>
    .tryCatch (Stmt.mapList m block) (Stmt.mapBlock m handler) (Stmt.mapBlock m finalizer)
  | .throw argument => .throw (argument.map m)
  | .within object body => .within (object.map m) (body.map m)
  | .labeled label body => .labeled label (body.map m)

def Stmt.mapOption (m : Change) : Option Stmt → Option Stmt
  | none => none
  | some s => some (s.map m)

def Stmt.mapList (m : Change) : List Stmt → List Stmt
  | [] => []
  | s :: ss => s.map m :: Stmt.mapList m ss

def Stmt.mapBlock (m : Change) : Option (List Stmt) → Option (List Stmt)
  | none => none
  | some ss => some (Stmt.mapList m ss)

def Stmt.mapDeclarator (m : Change) : Variable × Option Expr → Variable × Option Expr
  | (v, init) => (m.onReference v, Expr.mapOption m init)

def Stmt.mapDeclarators (m : Change) :
    List (Variable × Option Expr) → List (Variable × Option Expr)
  | [] => []
  | d :: ds => Stmt.mapDeclarator m d :: Stmt.mapDeclarators m ds

def Stmt.mapCase (m : Change) : Option Expr × List Stmt → Option Expr × List Stmt
  | (test, body) => (Expr.mapOption m test, Stmt.mapList m body)

def Stmt.mapCases (m : Change) :
    List (Option Expr × List Stmt) → List (Option Expr × List Stmt)
  | [] => []
  | c :: cs => Stmt.mapCase m c :: Stmt.mapCases m cs

end

/-- The callee of a call after a change. -/
def Expr.mapCallee (m : Change) : Expr → Expr
  | .identifier v => .identifier (m.onCallee v)
  | callee => callee.map m

/-- The function with a change made in its body. It keeps its own name, and the names in its
scope. -/
def FunctionDecl.map (m : Change) (f : FunctionDecl) : FunctionDecl :=
  { f with body := Stmt.mapList m f.body }

/-- The script with a change made everywhere. -/
def Program.map (m : Change) (p : Program) : Program :=
  { p with body := Stmt.mapList m p.body }

namespace Expr

variable (m : Change)

/-! ## Lists -/

/-- The recursion over lists is the map of lists. It is a recursion of its own for the sake of
termination. -/
theorem mapList_eq_map (es : List Expr) : mapList m es = List.map (map m) es := by
  induction es with
  | nil => rfl
  | cons e es ih => exact congrArg (e.map m :: ·) ih

theorem mapElements_eq_map (items : List (Option Expr)) :
    mapElements m items = List.map (Option.map (map m)) items := by
  induction items with
  | nil => rfl
  | cons item items ih =>
    have hitem : mapOption m item = Option.map (map m) item := by
      cases item with
      | none => rfl
      | some e => rfl
    rw [mapElements, hitem, ih, List.map_cons]

theorem length_mapList (es : List Expr) : (mapList m es).length = es.length := by
  rw [mapList_eq_map, List.length_map]

theorem length_mapElements (items : List (Option Expr)) :
    (mapElements m items).length = items.length := by
  rw [mapElements_eq_map, List.length_map]

/-- An array literal keeps its holes. -/
theorem any_isNone_mapElements (items : List (Option Expr)) :
    (mapElements m items).any Option.isNone = items.any Option.isNone := by
  rw [mapElements_eq_map, List.any_map]
  congr 1
  funext item
  exact Option.isNone_map

/-- The elements of an array literal that are no holes. -/
theorem filterMap_mapElements (items : List (Option Expr)) :
    (mapElements m items).filterMap id = mapList m (items.filterMap id) := by
  rw [mapElements_eq_map, mapList_eq_map, List.filterMap_map, List.map_filterMap]
  rfl

theorem mapElements_map_some (es : List Expr) :
    mapElements m (es.map some) = (mapList m es).map some := by
  rw [mapElements_eq_map, mapList_eq_map, List.map_map, List.map_map]
  rfl

/-! ## What an expression can be used for

Whether an expression can be assigned to, incremented or called, and whether it can be constructed,
is decided by its outermost node. -/

/-- The one node where a change treats two variables differently. -/
theorem map_call (callee : Expr) (arguments : List Expr) :
    (call callee arguments).map m = .call (callee.mapCallee m) (mapList m arguments) := by
  cases callee <;> rfl

variable {m} in
/-- A change that treats all variables alike need not tell the callee of a call apart. -/
theorem mapCallee_eq_map (h : m.onCallee = m.onReference) (callee : Expr) :
    callee.mapCallee m = callee.map m := by
  cases callee with
  | identifier v => rw [mapCallee, map, h]
  | _ => rfl

/-- What names a place still does, and what does not does not begin to. -/
theorem isReference_map (e : Expr) : (e.map m).isReference = e.isReference := by
  cases e with
  | binary op left right => exact m.isReference_onBinary op _ _
  | call callee arguments =>
    rw [map_call]
    rfl
  | _ => rfl

theorem isReference_mapCallee (callee : Expr) :
    (callee.mapCallee m).isReference = callee.isReference := by
  cases callee with
  | identifier v => rfl
  | _ => exact isReference_map m _

theorem isIdentifier_eq_false_of_isReference {e : Expr} (h : e.isReference = false) :
    e.isIdentifier = false := by
  cases e with
  | identifier v => cases h
  | _ => rfl

/-- What is a variable still is. -/
theorem isIdentifier_map (e : Expr) : (e.map m).isIdentifier = e.isIdentifier := by
  cases e with
  | binary op left right =>
    exact isIdentifier_eq_false_of_isReference (m.isReference_onBinary op _ _)
  | call callee arguments =>
    rw [map_call]
    rfl
  | _ => rfl

end Expr

end StackCode
