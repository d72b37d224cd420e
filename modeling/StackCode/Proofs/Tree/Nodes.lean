import StackCode.Tree.Basic

/-!
# The nodes of a unit

The expressions and the statements that a unit is made of, at any depth. What stands in the body of
a function belongs to another unit: a function is a node, and nothing in it is.

A statement is listed with whether a loop of the unit is around it, since that decides what `break`
and `continue` mean.

The lists are flat. That is what a statement about all nodes needs, and it is also what makes a
decidable predicate on nodes decidable on trees, by looking at one after the other. The order is
that of the source, though nothing depends on it.

Not all expressions are nodes in the sense of being compiled. The target of an assignment and the
callee of a call are listed like the others, although the compiler looks at them in another way,
because what is asked of all nodes is usually something about literals and variables that should
hold there as well.
-/

set_option autoImplicit false

namespace StackCode

/-! ## Expressions -/

mutual

/-- The expression and the expressions in it. -/
def Expr.nodes (e : Expr) : List Expr :=
  e :: match e with
    | .array items => Expr.elementNodes items
    | .object properties => Expr.propertyNodes properties
    | .binary _ left right => left.nodes ++ right.nodes
    | .unary _ argument => argument.nodes
    | .update _ _ argument => argument.nodes
    | .assign _ target value => target.nodes ++ value.nodes
    | .call callee arguments => callee.nodes ++ Expr.listNodes arguments
    | .new callee arguments => callee.nodes ++ Expr.listNodes arguments
    | .member obj _ => obj.nodes
    | .index obj key => obj.nodes ++ key.nodes
    | .conditional test consequent alternate => test.nodes ++ consequent.nodes ++ alternate.nodes
    | .comma left right => left.nodes ++ right.nodes
    | _ => []

def Expr.listNodes : List Expr → List Expr
  | [] => []
  | e :: es => e.nodes ++ Expr.listNodes es

def Expr.elementNodes : List (Option Expr) → List Expr
  | [] => []
  | none :: items => Expr.elementNodes items
  | some e :: items => e.nodes ++ Expr.elementNodes items

def Expr.propertyNodes : List (String × Expr) → List Expr
  | [] => []
  | (_, e) :: properties => e.nodes ++ Expr.propertyNodes properties

end

/-! ## Statements -/

/-- A statement of a unit. -/
structure Stmt.Node where
  /-- Whether a loop is around the statement. -/
  inLoop : Bool
  stmt : Stmt

mutual

/-- The statement and the statements in it. -/
def Stmt.nodes (inLoop : Bool) (s : Stmt) : List Stmt.Node :=
  ⟨inLoop, s⟩ :: match s with
    | .block body => Stmt.listNodes inLoop body
    | .branch _ consequent alternate => consequent.nodes inLoop ++ Stmt.optionNodes inLoop alternate
    | .whileLoop _ body => body.nodes true
    | .doWhile body _ => body.nodes true
    | .forLoop init _ _ body => Stmt.optionNodes inLoop init ++ body.nodes true
    | .forIn _ _ body => body.nodes true
    | .switch _ cases => Stmt.caseNodes inLoop cases
    | .tryCatch body handler finalizer =>
      Stmt.listNodes inLoop body ++ Stmt.blockNodes inLoop handler ++
        Stmt.blockNodes inLoop finalizer
    | .within _ body => body.nodes inLoop
    | .labeled _ body => body.nodes inLoop
    | _ => []

def Stmt.optionNodes (inLoop : Bool) : Option Stmt → List Stmt.Node
  | none => []
  | some s => s.nodes inLoop

def Stmt.listNodes (inLoop : Bool) : List Stmt → List Stmt.Node
  | [] => []
  | s :: ss => s.nodes inLoop ++ Stmt.listNodes inLoop ss

def Stmt.blockNodes (inLoop : Bool) : Option (List Stmt) → List Stmt.Node
  | none => []
  | some ss => Stmt.listNodes inLoop ss

def Stmt.caseNodes (inLoop : Bool) : List (Option Expr × List Stmt) → List Stmt.Node
  | [] => []
  | (_, body) :: cases => Stmt.listNodes inLoop body ++ Stmt.caseNodes inLoop cases

end

/-- The expressions that stand in the statement itself, not in a statement of it. -/
def Stmt.expressions : Stmt → List Expr
  | .expression value => [value]
  | .declaration _ declarators => declarators.filterMap Prod.snd
  | .branch test _ _ | .whileLoop test _ | .doWhile _ test => [test]
  | .forLoop _ test update _ => test.toList ++ update.toList
  | .forIn _ right _ => [right]
  | .giveBack argument => argument.toList
  | .switch discriminant cases => discriminant :: cases.filterMap Prod.fst
  | .throw argument => [argument]
  | .within object _ => [object]
  | _ => []

/-! ## The variables of a unit

A variable occurs as an expression or is declared by a statement. `Within` asks for both at once,
and splits along the lists. -/

/-- The variable, if the expression is one. -/
def Expr.identifier? : Expr → Option Variable
  | .identifier v => some v
  | _ => none

/-- The variables that stand in the statement itself, other than in its expressions. -/
def Stmt.declared : Stmt → List Variable
  | .declaration _ declarators => declarators.map Prod.fst
  | .forIn left _ _ => [left]
  | _ => []

/-- The variables that stand in the statement itself, not in a statement of it. -/
def Stmt.vars (s : Stmt) : List Variable :=
  s.declared ++ s.expressions.flatMap fun e => e.nodes.filterMap Expr.identifier?

section

variable (vs : Binding → Prop)

/-- The variables among the expressions have bindings in `vs`. -/
def Expr.Within (nodes : List Expr) : Prop :=
  ∀ v ∈ nodes.filterMap Expr.identifier?, vs v.binding

/-- The variables of the statements have bindings in `vs`. -/
def Stmt.Within (nodes : List Stmt.Node) : Prop :=
  ∀ v ∈ nodes.flatMap fun node => node.stmt.vars, vs v.binding

end

section

variable {vs : Binding → Prop}

namespace Expr

variable {e : Expr} {nodes nodes' : List Expr}

theorem within_nil : Within vs [] :=
  nofun

theorem within_cons :
    Within vs (e :: nodes) ↔ (∀ v, e.identifier? = some v → vs v.binding) ∧ Within vs nodes := by
  unfold Within
  cases h : e.identifier? with
  | none => simp [h]
  | some v => simp [h]

theorem within_append : Within vs (nodes ++ nodes') ↔ Within vs nodes ∧ Within vs nodes' := by
  unfold Within
  rw [List.filterMap_append]
  exact List.forall_mem_append

attribute [local simp] within_nil within_cons within_append nodes identifier?

/-- Holes have no variables. -/
theorem within_filterMap_id {items : List (Option Expr)} :
    Within vs (listNodes (items.filterMap id)) ↔ Within vs (elementNodes items) := by
  induction items with
  | nil => rfl
  | cons item items ih =>
    cases item with
    | none => exact ih
    | some e =>
      rw [List.filterMap_cons_some (f := id) rfl, listNodes, elementNodes, within_append,
        within_append, ih]

end Expr

namespace Stmt

variable {node : Node} {nodes nodes' : List Node}

theorem within_cons :
    Within vs (node :: nodes) ↔
      ((∀ v ∈ node.stmt.declared, vs v.binding) ∧ ∀ e ∈ node.stmt.expressions,
        Expr.Within vs e.nodes) ∧
      Within vs nodes := by
  unfold Within vars Expr.Within
  rw [List.flatMap_cons, List.forall_mem_append, List.forall_mem_append, List.forall_mem_flatMap]

theorem within_append : Within vs (nodes ++ nodes') ↔ Within vs nodes ∧ Within vs nodes' := by
  unfold Within
  rw [List.flatMap_append]
  exact List.forall_mem_append

/-- A statement is a node of itself. -/
theorem Within.self {inLoop : Bool} {s : Stmt} (h : Within vs (s.nodes inLoop)) :
    (∀ v ∈ s.declared, vs v.binding) ∧ ∀ e ∈ s.expressions, Expr.Within vs e.nodes := by
  unfold Stmt.nodes at h
  exact (within_cons.mp h).1

end Stmt

end

end StackCode
