import Mathlib.Data.List.Chain
import StackCode.Tree.Basic

/-!
# The depth of a tree

Expressions and statements stand in one another, through every field that can hold one: the elements
of an array, the values of properties, the cases of a `switch`, the body of a function.
`TreeNode.children` lists what stands directly in a node.

`n.DepthAtMost k` says that a chain of nodes from `n` inwards has no more than `k` nodes. It goes
down with `k` and not with the tree, so that a bound on the children is a bound on the node,
whatever its kind.

Both kinds of node are in one type, so that a chain may pass from statements to expressions and,
through a function, back again. The depth is a predicate and not a number. A number would have to be
computed through all the lists of a node, and the proofs would be about maxima; the predicate asks
the same of every child.
-/

set_option autoImplicit false

namespace StackCode

/-- A node of a tree. -/
inductive TreeNode where
  | expr (e : Expr)
  | stmt (s : Stmt)

/-- The nodes that stand directly in an expression. -/
def Expr.children : Expr → List TreeNode
  | .number _ | .string _ | .regExp _ _ | .null | .boolean _ | .this | .identifier _ => []
  | .array elements => (elements.filterMap id).map .expr
  | .object properties => properties.map fun property => .expr property.2
  | .binary _ left right => [.expr left, .expr right]
  | .unary _ argument => [.expr argument]
  | .update _ _ argument => [.expr argument]
  | .assign _ target value => [.expr target, .expr value]
  | .call callee arguments => .expr callee :: arguments.map .expr
  | .new callee arguments => .expr callee :: arguments.map .expr
  | .member obj _ => [.expr obj]
  | .index obj key => [.expr obj, .expr key]
  | .conditional test consequent alternate => [.expr test, .expr consequent, .expr alternate]
  | .comma left right => [.expr left, .expr right]
  | .function _ _ body => body.map .stmt

/-- The nodes that stand directly in a statement. -/
def Stmt.children : Stmt → List TreeNode
  | .empty | .breakLoop | .continueLoop => []
  | .block body => body.map .stmt
  | .expression value => [.expr value]
  | .declaration _ declarators => (declarators.filterMap Prod.snd).map .expr
  | .function _ _ _ body => body.map .stmt
  | .branch test consequent alternate =>
    .expr test :: .stmt consequent :: alternate.toList.map .stmt
  | .whileLoop test body => [.expr test, .stmt body]
  | .doWhile body test => [.stmt body, .expr test]
  | .forLoop init test update body =>
    init.toList.map .stmt ++ test.toList.map .expr ++ update.toList.map .expr ++ [.stmt body]
  | .forIn _ right body => [.expr right, .stmt body]
  | .giveBack argument => argument.toList.map .expr
  | .switch discriminant cases =>
    .expr discriminant :: cases.flatMap fun case => case.1.toList.map .expr ++ case.2.map .stmt
  | .tryCatch body handler finalizer =>
    body.map .stmt ++ (handler.getD []).map .stmt ++ (finalizer.getD []).map .stmt
  | .throw argument => [.expr argument]
  | .within obj body => [.expr obj, .stmt body]
  | .labeled _ body => [.stmt body]

namespace TreeNode

def children : TreeNode → List TreeNode
  | .expr e => e.children
  | .stmt s => s.children

/-- A node stands in another one, directly or in a node that does. -/
def Inside (inner outer : TreeNode) : Prop :=
  Relation.TransGen (fun n child => child ∈ n.children) outer inner

/-- No more than so many nodes stand in one another, from this one inwards. -/
def DepthAtMost : Nat → TreeNode → Prop
  | 0, _ => False
  | k + 1, n => ∀ child ∈ n.children, child.DepthAtMost k

/-- The depth of each of these nodes is limited. -/
def EachWithin (k : Nat) (nodes : List TreeNode) : Prop :=
  ∀ n ∈ nodes, n.DepthAtMost k

namespace EachWithin

variable {k : Nat} {n : TreeNode} {nodes nodes' : List TreeNode}

theorem nil : EachWithin k [] :=
  List.forall_mem_nil _

theorem cons (h : n.DepthAtMost k) (hs : EachWithin k nodes) : EachWithin k (n :: nodes) :=
  List.forall_mem_cons.mpr ⟨h, hs⟩

theorem append (h : EachWithin k nodes) (h' : EachWithin k nodes') :
    EachWithin k (nodes ++ nodes') :=
  List.forall_mem_append.mpr ⟨h, h'⟩

theorem exprs {es : List Expr} (h : ∀ e ∈ es, (TreeNode.expr e).DepthAtMost k) :
    EachWithin k (es.map .expr) :=
  List.forall_mem_map.mpr h

theorem stmts {ss : List Stmt} (h : ∀ s ∈ ss, (TreeNode.stmt s).DepthAtMost k) :
    EachWithin k (ss.map .stmt) :=
  List.forall_mem_map.mpr h

theorem exprOption {o : Option Expr} (h : ∀ e ∈ o, (TreeNode.expr e).DepthAtMost k) :
    EachWithin k (o.toList.map .expr) :=
  exprs fun e he => h e (Option.mem_toList.mp he)

theorem stmtOption {o : Option Stmt} (h : ∀ s ∈ o, (TreeNode.stmt s).DepthAtMost k) :
    EachWithin k (o.toList.map .stmt) :=
  stmts fun s hs => h s (Option.mem_toList.mp hs)

end EachWithin

/-- A node is one deeper than its children. -/
theorem depthAtMost_succ {n : TreeNode} {k : Nat} (h : EachWithin k n.children) :
    n.DepthAtMost (k + 1) :=
  h

section

variable {n inner : TreeNode} {k k' : Nat}

theorem DepthAtMost.mono (h : n.DepthAtMost k) (hle : k ≤ k') : n.DepthAtMost k' := by
  induction k generalizing n k' with
  | zero => exact h.elim
  | succ k ih =>
    cases k' with
    | zero => cases hle
    | succ k' => exact fun child hchild => ih (h child hchild) (Nat.le_of_succ_le_succ hle)

/-- What stands in a node is less deep than the node. -/
theorem DepthAtMost.of_inside (h : n.DepthAtMost (k + 1)) (hinside : inner.Inside n) :
    inner.DepthAtMost k := by
  induction hinside with
  | single hchild => exact h _ hchild
  | tail _ hchild ih => exact (ih.mono (Nat.le_succ k)) _ hchild

/-- A chain of nodes is no longer than the depth of the outermost. -/
theorem DepthAtMost.length_le {chain : List TreeNode} (h : n.DepthAtMost k)
    (hchain : (n :: chain).IsChain fun outer inner => inner.Inside outer) :
    (n :: chain).length ≤ k := by
  induction chain generalizing n k with
  | nil =>
    cases k with
    | zero => exact h.elim
    | succ k => exact Nat.succ_le_succ (Nat.zero_le k)
  | cons inner chain ih =>
    obtain ⟨hinside, hmore⟩ := List.isChain_cons_cons.mp hchain
    cases k with
    | zero => exact h.elim
    | succ k => exact Nat.succ_le_succ (ih (h.of_inside hinside) hmore)

end

end TreeNode

/-- A node stands in a program: it is a statement of the body, or stands in one. -/
def Program.Contains (p : Program) (n : TreeNode) : Prop :=
  ∃ s ∈ p.body, n = .stmt s ∨ n.Inside (.stmt s)

/-- Every node of a program is as shallow as its statements. -/
theorem Program.Contains.depthAtMost {p : Program} {n : TreeNode} {k : Nat} (hn : p.Contains n)
    (h : ∀ s ∈ p.body, (TreeNode.stmt s).DepthAtMost k) : n.DepthAtMost k := by
  obtain ⟨s, hs, rfl | hinside⟩ := hn
  · exact h s hs
  · cases k with
    | zero => exact (h s hs).elim
    | succ k => exact ((h s hs).of_inside hinside).mono (Nat.le_succ k)

end StackCode
