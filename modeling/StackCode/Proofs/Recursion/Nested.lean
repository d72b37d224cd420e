import StackCode.Proofs.Declarations
import StackCode.Proofs.DeepFold
import StackCode.Proofs.Recursion
import StackCode.Proofs.Tree.Nesting
import StackCode.Proofs.Tree.RoundTrip

/-!
# Recursion over trees that were read

The search for functions, the folder and the compiler go down a tree as deep as its nodes are
nested. In a tree that was read from a text they are nested at most 125 deep, so that no more than
125 calls of any of these stand in one another.

For the search and the folder a call is at a child. The compiler also passes a node by: the object
of an assignment's target, what stands in the first part of a `for`. And it goes on with what
folding made, which is nested no deeper than what it was made of (`Expr.depthAtMost_fold`).

## Where the number comes from

The reader of JSON allows 127 arrays and objects to be open at once. The object of the script and
the array of its statements are two of them. Each node needs one of its own at least, so 125 remain;
a chain of negations needs no more than one each and reaches the bound, which is why it is the
example.

The three recursions are the ones whose depth depends on the tree. The reader itself and the printer
of listings are no such recursions, the first because it is bounded by what it is told, the second
because it is a loop.

The bound is on nodes in one another and not on the sizes of lists: a script may have any number of
statements side by side.
-/

set_option autoImplicit false

namespace StackCode

/-! ## The search for functions

It goes into blocks, branches and loops, and a call is at a statement directly inside. -/

namespace Stmt

/-- The functions that a statement declares, with `again` for the statements in it. -/
def functionsOnce (again : Stmt → List FunctionDecl) : Stmt → List FunctionDecl
  | .function name line scope body => [{ name, line, scope, body }]
  | .block body => body.flatMap again
  | .branch _ consequent alternate => again consequent ++ alternate.toList.flatMap again
  | .whileLoop _ body => again body
  | .forLoop _ _ _ body => again body
  | _ => []

/-- The statements that are searched when a statement is. -/
def searched : Stmt → List Stmt
  | .block body => body
  | .branch _ consequent alternate => consequent :: alternate.toList
  | .whileLoop _ body => [body]
  | .forLoop _ _ _ body => [body]
  | _ => []

theorem functionsOfOption_eq_flatMap (s : Option Stmt) :
    functionsOfOption s = s.toList.flatMap functions := by
  cases s with
  | none => rfl
  | some s => rw [functionsOfOption, Option.toList_some, List.flatMap_singleton]

theorem functions_isRecursion : IsRecursion functions functionsOnce searched where
  unfolds s := by
    cases s with
    | block body => rw [functions, functionsOnce, functionsOfList_eq_flatMap]
    | branch test consequent alternate =>
      rw [functions, functionsOnce, functionsOfOption_eq_flatMap]
    | _ => rw [functions, functionsOnce] <;> simp
  asks s f g h := by
    cases s with
    | block body => exact List.flatMap_congr h
    | branch test consequent alternate =>
      obtain ⟨hconsequent, halternate⟩ := List.forall_mem_cons.mp h
      rw [functionsOnce, functionsOnce, hconsequent, List.flatMap_congr halternate]
    | whileLoop test body => exact h body (.head _)
    | forLoop init test update body => exact h body (.head _)
    | _ => rfl

theorem mem_children_of_mem_searched {s s' : Stmt} (h : s' ∈ s.searched) :
    .stmt s' ∈ s.children := by
  cases s with
  | block body => exact List.mem_map_of_mem h
  | branch test consequent alternate => exact .tail _ (List.mem_map_of_mem (f := TreeNode.stmt) h)
  | whileLoop test body => exact .tail _ (List.mem_map_of_mem (f := TreeNode.stmt) h)
  | forLoop init test update body =>
    exact List.mem_append_right _ (List.mem_map_of_mem (f := TreeNode.stmt) h)
  | _ => cases h

end Stmt

/-! ## The folder

It goes into the operands of additions. -/

namespace Expr

/-- The folded form of an expression, with `again` for its operands. -/
def foldOnce (again : Expr → Option Expr) : Expr → Option Expr
  | .binary .add left right =>
    let left' := again left
    let right' := again right
    match (left'.getD left).number?, (right'.getD right).number? with
    | some a, some b => some (.number (a + b))
    | _, _ =>
      if left'.isNone && right'.isNone then none
      else some (.binary .add (left'.getD left) (right'.getD right))
  | _ => none

/-- The operands that are folded when an expression is. -/
def addends : Expr → List Expr
  | .binary .add left right => [left, right]
  | _ => []

theorem fold?_isRecursion : IsRecursion fold? foldOnce addends where
  unfolds e := by
    cases e with
    | binary operator left right => cases operator <;> rfl
    | _ => rfl
  asks e f g h := by
    unfold foldOnce
    split
    · obtain ⟨hleft, hright⟩ := List.forall_mem_cons.mp h
      rw [hleft, hright _ (.head _)]
    · rfl

theorem mem_children_of_mem_addends {e e' : Expr} (h : e' ∈ e.addends) : .expr e' ∈ e.children := by
  unfold addends at h
  split at h
  · exact List.mem_map_of_mem (f := TreeNode.expr) h
  · cases h

/-- Folding nests nothing deeper. -/
theorem depthAtMost_fold {k : Nat} {e : Expr} (h : (TreeNode.expr e).DepthAtMost k) :
    (TreeNode.expr e.fold).DepthAtMost k := by
  induction k generalizing e with
  | zero => exact h.elim
  | succ k ih =>
    cases e with
    | binary operator left right =>
      cases operator with
      | add =>
        obtain ⟨hleft, hright⟩ := List.forall_mem_cons.mp h
        rw [fold_add]
        obtain ⟨a, b, ha, hb⟩ | hnone := number?_cases left.fold right.fold
        · rw [combine_add_of_number ha hb]
          exact TreeNode.depthAtMost_succ .nil
        · rw [combine_add_of_not_number hnone]
          exact TreeNode.depthAtMost_succ (.cons (ih hleft) (.cons (ih (hright _ (.head _))) .nil))
      | _ => exact h
    | _ => exact h

/-- An addition that folds to anything but an addition folds to a literal. -/
theorem fold_add_eq_number {left right : Expr}
    (h : (binary .add left right).fold.operands? = none) :
    ∃ a, (binary .add left right).fold = .number a := by
  rw [fold_add] at h ⊢
  obtain ⟨a, b, ha, hb⟩ | hnone := number?_cases left.fold right.fold
  · exact ⟨a + b, combine_add_of_number ha hb⟩
  · rw [combine_add_of_not_number hnone] at h
    cases h

theorem IsPart.inside {part e : Expr} (h : part.IsPart e) :
    (TreeNode.expr part).Inside (.expr e) := by
  induction h with
  | single hchild => exact .single hchild
  | tail _ hchild ih => exact ih.tail hchild

end Expr

/-! ## The compiler

Expressions and statements in one recursion, since statements go on with expressions. A node of
either kind is an argument, and the depth is that of the nodes. -/

namespace Gen

/-- Compiles the initializers of a declaration, with `again` for each of them. -/
def declaratorsOnce (again : Expr → Gen Unit) : List (Variable × Option Expr) → Gen Unit
  | [] => pure ()
  | (_, none) :: rest => declaratorsOnce again rest
  | (v, some init) :: rest => do
    store v (again init)
    op .pop
    declaratorsOnce again rest

/-- Compiles a declaration, with `again` for the initializers. -/
def declarationOnce (again : Expr → Gen Unit) (kind : DeclarationKind)
    (ds : List (Variable × Option Expr)) : Gen Unit :=
  match kind with
  | .var => declaratorsOnce again ds
  | .lexical => refuse .lexicalDeclaration
  | .constant => refuse .constantDeclaration

/-- Compiles what a `for` starts with, with `again` for the expressions in it. -/
def forInitOnce (again : Expr → Gen Unit) : Option Stmt → Gen Unit
  | none | some .empty => pure ()
  | some (.declaration kind ds) => declarationOnce again kind ds
  | some (.expression value) => do
    again value
    op .pop
  | some _ => refuse .forInitializer

/-- Compiles the update of a `for`, with `again` for the expression. -/
def forUpdateOnce (again : Expr → Gen Unit) : Option Expr → Gen Unit
  | none => pure ()
  | some update => do
    again update
    op .pop

/-- Compiles the test of a `for`, with `again` for the expression. -/
def forTestOnce (again : Expr → Gen Unit) (exit : Label) : Option Expr → Gen Unit
  | none => pure ()
  | some test => do
    again test
    jump .ifEq exit

/-- Compiles statements in order, with `again` for each of them. -/
def statementsOnce (again : Stmt → Gen Unit) : List Stmt → Gen Unit
  | [] => pure ()
  | s :: ss => do
    again s
    statementsOnce again ss

/-- Compiles a statement that may be missing, with `again` for the statement. -/
def optionalOnce (again : Stmt → Gen Unit) : Option Stmt → Gen Unit
  | none => pure ()
  | some s => again s

/-- Compiles a statement, with `expr` and `stmt` for the expressions and the statements in it. -/
def statementOnce (toplevel : Bool) (expr : Expr → Gen Unit) (stmt : Stmt → Gen Unit) :
    Stmt → Gen Unit
  | .empty => pure ()
  | .block body => statementsOnce stmt body
  | .expression value => do
    expr value
    op (if toplevel then .popv else .pop)
  | .declaration kind ds => declarationOnce expr kind ds
  | .function .. => if toplevel then pure () else throw .nestedFunction
  | .branch test consequent alternate => do
    expr test
    let otherwise ← newLabel
    let merge ← newLabel
    jump .ifEq otherwise
    stmt consequent
    jump .goto merge
    fix otherwise
    optionalOnce stmt alternate
    fix merge
  | .whileLoop test body => do
    let exit ← newLabel
    let entry ← labelHere
    enterLoop { entry, exit }
    expr test
    jump .ifEq exit
    stmt body
    jump .goto entry
    fix exit
    leaveLoop
  | .forLoop init test update body => do
    forInitOnce expr init
    let start ← newLabel
    jump .goto start
    let entry ← labelHere
    forUpdateOnce expr update
    let exit ← newLabel
    enterLoop { entry, exit }
    fix start
    forTestOnce expr exit test
    stmt body
    jump .goto entry
    fix exit
    leaveLoop
  | .breakLoop => do
    let loop ← innermost "break"
    jump .goto loop.exit
  | .continueLoop => do
    let loop ← innermost "continue"
    jump .goto loop.entry
  | .giveBack none => do
    op .push
    op .ret
  | .giveBack (some argument) => do
    expr argument
    op .ret
  | .doWhile .. => refuse .doWhile
  | .forIn .. => refuse .forIn
  | .switch .. => refuse .switch
  | .tryCatch .. => refuse .tryCatch
  | .throw _ => refuse .throw
  | .within .. => refuse .within
  | .labeled .. => refuse .labeled

/-- Compiles an expression or a statement. -/
def node (mode : Mode) : TreeNode → Gen Unit
  | .expr e => expression mode.fold e
  | .stmt s => statement mode s

/-- Compiles an expression or a statement, with `again` for the nodes that it goes on with. -/
def nodeOnce (mode : Mode) (again : TreeNode → Gen Unit) : TreeNode → Gen Unit
  | .expr e => expressionOnce mode.fold (fun e => again (.expr e)) e
  | .stmt s => statementOnce mode.toplevel (fun e => again (.expr e)) (fun s => again (.stmt s)) s

end Gen

/-- The nodes that the compiler goes on with in a statement, if it does not refuse the statement
before. In the first part of a `for` it goes on with what stands there. -/
def Stmt.calls : Stmt → List TreeNode
  | .forLoop init test update body =>
    init.toList.flatMap Stmt.children ++ test.toList.map .expr ++
      update.toList.map .expr ++ [.stmt body]
  | .function .. => []
  | s => s.children

/-- The nodes that the compiler calls itself for. -/
def TreeNode.calls (fold : Bool) : TreeNode → List TreeNode
  | .expr e => (e.calls fold).map .expr
  | .stmt s => s.calls

/-- **Every call goes one level down at least.** -/
theorem TreeNode.DepthAtMost.of_mem_calls {fold : Bool} {k : Nat} {n called : TreeNode}
    (h : n.DepthAtMost (k + 1)) (hcalled : called ∈ n.calls fold) : called.DepthAtMost k := by
  cases n with
  | expr e =>
    obtain ⟨e', he', rfl⟩ := List.mem_map.mp hcalled
    obtain hpart | hpart | ⟨left, right, rfl, rfl, hoperands⟩ := Expr.mem_calls he'
    · exact h.of_inside hpart.inside
    · exact (Expr.depthAtMost_fold h).of_inside hpart.inside
    · -- A literal has no depth of its own to speak of, but the operand it came from had.
      obtain ⟨a, ha⟩ := Expr.fold_add_eq_number hoperands
      have hleft := h (.expr left) (.head _)
      rw [ha]
      cases k with
      | zero => exact hleft.elim
      | succ k => exact TreeNode.depthAtMost_succ .nil
  | stmt s =>
    cases s with
    | forLoop init test update body =>
      simp only [TreeNode.calls, Stmt.calls, List.mem_append] at hcalled
      simp only [TreeNode.DepthAtMost, TreeNode.children, Stmt.children, List.mem_append] at h
      rcases hcalled with ((hinit | htest) | hupdate) | hbody
      · -- What a `for` starts with is passed by, so the expressions in it are two levels down.
        obtain ⟨s, hs, hchild⟩ := List.mem_flatMap.mp hinit
        have hs' := h _ (.inl (.inl (.inl (List.mem_map_of_mem hs))))
        exact TreeNode.DepthAtMost.of_inside (hs'.mono (Nat.le_succ k)) (.single hchild)
      · exact h _ (.inl (.inl (.inr htest)))
      · exact h _ (.inl (.inr hupdate))
      · exact h _ (.inr hbody)
    | function name line scope body => cases hcalled
    | _ => exact h called hcalled

namespace Gen

section

variable (fold : Bool) (mode : Mode)

theorem declarators_eq_once (ds : List (Variable × Option Expr)) :
    declarators fold ds = declaratorsOnce (expression fold) ds := by
  fun_induction declaratorsOnce (expression fold) ds with
  | case1 => rfl
  | case2 v rest ih => exact ih
  | case3 v init rest ih => rw [declarators, ih]

theorem declaration_eq_once (kind : DeclarationKind) (ds : List (Variable × Option Expr)) :
    declaration fold kind ds = declarationOnce (expression fold) kind ds := by
  cases kind with
  | var => exact declarators_eq_once fold ds
  | _ => rfl

theorem forInit_eq_once (init : Option Stmt) :
    forInit fold init = forInitOnce (expression fold) init := by
  cases init with
  | none => rfl
  | some s =>
    cases s with
    | declaration kind ds => exact declaration_eq_once fold kind ds
    | _ => rfl

theorem statements_eq_once (ss : List Stmt) :
    statements mode ss = statementsOnce (statement mode) ss := by
  induction ss with
  | nil => rfl
  | cons s ss ih => rw [statements, statementsOnce, ih]

theorem statement_eq_once (s : Stmt) :
    statement mode s = statementOnce mode.toplevel (expression mode.fold) (statement mode) s := by
  cases s with
  | block body => rw [statement, statementOnce, statements_eq_once]
  | declaration kind ds => rw [statement, statementOnce, declaration_eq_once]
  | branch test consequent alternate => cases alternate <;> rfl
  | forLoop init test update body =>
    rw [statement, statementOnce, forInit_eq_once]
    cases test <;> cases update <;> rfl
  | giveBack argument => cases argument <;> rfl
  | _ => rfl

end

section

variable {f g : Expr → Gen Unit} {f' g' : Stmt → Gen Unit}

theorem declaratorsOnce_congr {ds : List (Variable × Option Expr)}
    (h : ∀ e ∈ ds.filterMap Prod.snd, f e = g e) :
    declaratorsOnce f ds = declaratorsOnce g ds := by
  induction ds with
  | nil => rfl
  | cons d ds ih =>
    obtain ⟨v, init⟩ := d
    cases init with
    | none => exact ih h
    | some init =>
      obtain ⟨hinit, hds⟩ := List.forall_mem_cons.mp h
      rw [declaratorsOnce, declaratorsOnce, hinit, ih hds]

theorem declarationOnce_congr {kind : DeclarationKind} {ds : List (Variable × Option Expr)}
    (h : ∀ e ∈ ds.filterMap Prod.snd, f e = g e) :
    declarationOnce f kind ds = declarationOnce g kind ds := by
  cases kind with
  | var => exact declaratorsOnce_congr h
  | _ => rfl

theorem forInitOnce_congr {init : Option Stmt}
    (h : ∀ e, .expr e ∈ init.toList.flatMap Stmt.children → f e = g e) :
    forInitOnce f init = forInitOnce g init := by
  cases init with
  | none => rfl
  | some s =>
    rw [Option.toList_some, List.flatMap_singleton] at h
    cases s with
    | declaration kind ds => exact declarationOnce_congr fun e he => h e (List.mem_map_of_mem he)
    | expression value => rw [forInitOnce, forInitOnce, h value (.head _)]
    | _ => rfl

theorem statementsOnce_congr {ss : List Stmt} (h : ∀ s ∈ ss, f' s = g' s) :
    statementsOnce f' ss = statementsOnce g' ss := by
  induction ss with
  | nil => rfl
  | cons s ss ih =>
    obtain ⟨hs, hss⟩ := List.forall_mem_cons.mp h
    rw [statementsOnce, statementsOnce, hs, ih hss]

theorem statementOnce_congr {toplevel : Bool} {s : Stmt}
    (hexpr : ∀ e, .expr e ∈ s.calls → f e = g e)
    (hstmt : ∀ s', .stmt s' ∈ s.calls → f' s' = g' s') :
    statementOnce toplevel f f' s = statementOnce toplevel g g' s := by
  cases s with
  | block body => exact statementsOnce_congr fun s' hs' => hstmt s' (List.mem_map_of_mem hs')
  | expression value => rw [statementOnce, statementOnce, hexpr value (.head _)]
  | declaration kind ds => exact declarationOnce_congr fun e he => hexpr e (List.mem_map_of_mem he)
  | branch test consequent alternate =>
    have halternate : optionalOnce f' alternate = optionalOnce g' alternate := by
      cases alternate with
      | none => rfl
      | some s => exact hstmt s (.tail _ (.tail _ (.head _)))
    rw [statementOnce, statementOnce, hexpr test (.head _),
      hstmt consequent (.tail _ (.head _)), halternate]
  | whileLoop test body =>
    rw [statementOnce, statementOnce, hexpr test (.head _), hstmt body (.tail _ (.head _))]
  | forLoop init test update body =>
    simp only [Stmt.calls, List.mem_append] at hexpr hstmt
    have hinit := forInitOnce_congr fun e he => hexpr e (.inl (.inl (.inl he)))
    have hupdate : forUpdateOnce f update = forUpdateOnce g update := by
      cases update with
      | none => rfl
      | some e => rw [forUpdateOnce, forUpdateOnce, hexpr e (.inl (.inr (.head _)))]
    have htest (exit : Label) : forTestOnce f exit test = forTestOnce g exit test := by
      cases test with
      | none => rfl
      | some e => rw [forTestOnce, forTestOnce, hexpr e (.inl (.inl (.inr (.head _))))]
    simp only [statementOnce, hinit, hupdate, htest, hstmt body (.inr (.head _))]
  | giveBack argument =>
    cases argument with
    | none => rfl
    | some e => rw [statementOnce, statementOnce, hexpr e (.head _)]
  | _ => rfl

end

theorem node_isRecursion (mode : Mode) :
    IsRecursion (node mode) (nodeOnce mode) (TreeNode.calls mode.fold) where
  unfolds n := by
    cases n with
    | expr e => exact expression_eq_once mode.fold e
    | stmt s => exact statement_eq_once mode s
  asks n f g h := by
    cases n with
    | expr e => exact expressionOnce_congr fun called hcalled => h _ (List.mem_map_of_mem hcalled)
    | stmt s => exact statementOnce_congr (fun e he => h _ he) (fun s' hs' => h _ hs')

end Gen

/-! ## Programs

From the depth of the statements of a body to that of everything that is reached from it by
calls. -/

/-- No more than `k` nodes of a program stand in one another, and no recursion over them goes
deeper. -/
structure Program.NestedWithin (p : Program) (k : Nat) : Prop where
  chains : ∀ chain : List TreeNode, (∀ n ∈ chain, p.Contains n) →
    (chain.IsChain fun outer inner => inner.Inside outer) →
    chain.length ≤ k
  search : ∀ s, p.Contains (.stmt s) → EndsWithin Stmt.functions Stmt.functionsOnce k s
  compilation : ∀ mode n, p.Contains n → EndsWithin (Gen.node mode) (Gen.nodeOnce mode) k n
  /-- The compiler also folds what folding made: whatever it comes to, the folder goes no deeper. -/
  folding : ∀ fold n e, p.Contains n →
    Relation.ReflTransGen (fun n called : TreeNode => called ∈ n.calls fold) n (.expr e) →
    EndsWithin Expr.fold? Expr.foldOnce k e

/-- What is reached by calls is no deeper than where they started. -/
theorem TreeNode.DepthAtMost.of_reached {fold : Bool} {k : Nat} {n called : TreeNode}
    (h : n.DepthAtMost k)
    (hcalled : Relation.ReflTransGen (fun n called : TreeNode => called ∈ n.calls fold) n called) :
    called.DepthAtMost k := by
  induction hcalled with
  | refl => exact h
  | tail _ hcall ih => exact (ih.mono (Nat.le_succ k)).of_mem_calls hcall

theorem Program.NestedWithin.of_depthAtMost {p : Program} {k : Nat}
    (h : ∀ s ∈ p.body, (TreeNode.stmt s).DepthAtMost k) :
    p.NestedWithin k where
  chains chain hcontains hchain := by
    cases chain with
    | nil => exact Nat.zero_le k
    | cons n chain => exact ((hcontains n (.head _)).depthAtMost h).length_le hchain
  search s hs :=
    Stmt.functions_isRecursion.endsWithin
      (P := fun k s => (TreeNode.stmt s).DepthAtMost k) (fun _ => id)
      (fun _ _ hdepth s' hs' => hdepth _ (Stmt.mem_children_of_mem_searched hs')) (hs.depthAtMost h)
  compilation mode n hn :=
    (Gen.node_isRecursion mode).endsWithin (P := fun k n => n.DepthAtMost k) (fun _ => id)
      (fun _ _ hdepth _ hcalled => hdepth.of_mem_calls hcalled) (hn.depthAtMost h)
  folding fold n e hn hreached :=
    Expr.fold?_isRecursion.endsWithin
      (P := fun k e => (TreeNode.expr e).DepthAtMost k) (fun _ => id)
      (fun _ _ hdepth e' he' => hdepth _ (Expr.mem_children_of_mem_addends he'))
      ((hn.depthAtMost h).of_reached hreached)

/-- **The nodes of a tree that was read are nested at most 125 deep**, through whatever fields, and
no recursion over them goes deeper. -/
theorem nestedWithin_of_parse {text : String} {p : Program} (h : Program.parse text = .ok p) :
    p.NestedWithin 125 :=
  .of_depthAtMost (Program.depthAtMost_of_parse h)

/-! ### A tree that is nested 125 deep

The text is written out for any number of negations, so that reading it is a matter of the theorem
on written trees and not of evaluation. -/

/-- A string between quotes, as it is. -/
def quote (s : String) : List Char :=
  '"' :: s.toList ++ ['"']

theorem quoted_quote (s : String) (h : s.toList.all fun c => c ≠ '"' ∧ c ≠ '\\' ∧ 32 ≤ c.toNat) :
    Json.Quoted s (quote s) :=
  Json.quoted_of_plain fun c hc => by simpa using List.all_eq_true.mp h c hc

namespace Expr

/-- A chain of negations. -/
def negations : Nat → Expr
  | 0 => .null
  | n + 1 => .unary .logicalNot (negations n)

/-- The operands in a chain of negations, from the outside in. -/
def negated : Nat → List TreeNode
  | 0 => []
  | n + 1 => .expr (negations n) :: negated n

def negationsJson : Nat → Json
  | 0 => .object [("type", .string "Null")]
  | n + 1 =>
    .object [("type", .string "Unary"), ("operator", .string "!"), ("argument", negationsJson n)]

def negationsText : Nat → List Char
  | 0 => '\x7b' :: (quote "type" ++ ':' :: (quote "Null" ++ ['\x7d']))
  | n + 1 =>
    '\x7b' :: (quote "type" ++
      ':' :: (quote "Unary" ++
        ',' :: (quote "operator" ++
          ':' :: (quote "!" ++ ',' :: (quote "argument" ++ ':' :: (negationsText n ++ ['\x7d']))))))

theorem length_negated (n : Nat) : (negated n).length = n := by
  induction n with
  | zero => rfl
  | succ n ih => rw [negated, List.length_cons, ih]

theorem inside_of_mem_negated (n : Nat) :
    ∀ inner ∈ negated n, inner.Inside (.expr (negations n)) := by
  induction n with
  | zero => exact List.forall_mem_nil _
  | succ n ih =>
    have hchild : (TreeNode.expr (negations n)).Inside (.expr (negations (n + 1))) :=
      .single (.head _)
    exact List.forall_mem_cons.mpr ⟨hchild, fun inner hinner => hchild.trans (ih inner hinner)⟩

theorem isChain_negated (n : Nat) :
    (TreeNode.expr (negations n) :: negated n).IsChain fun outer inner => inner.Inside outer := by
  induction n with
  | zero => exact .singleton _
  | succ n ih => exact .cons_cons (.single (.head _)) ih

theorem form_negations (n : Nat) :
    (NodeForms.within (n + 1)).expr (negations n) (negationsJson n) := by
  induction n with
  | zero => exact ⟨_, rfl, _, rfl, rfl⟩
  | succ n ih => exact ⟨_, rfl, ⟨_, rfl, rfl⟩, ⟨_, rfl, rfl⟩, _, rfl, ih⟩

theorem depth_negationsJson (n : Nat) : (negationsJson n).depth = n + 1 := by
  induction n with
  | zero => rfl
  | succ n ih => simp [negationsJson, Json.depth, Json.depthOfEntries, Json.depthOfEntry, ih]

theorem spelling_negations (n : Nat) : (negationsJson n).Spelling (negationsText n) := by
  have hnone : Json.Blanks [] := List.forall_mem_nil _
  have htype := quoted_quote "type" (by decide)
  induction n with
  | zero =>
    have hnull := quoted_quote "Null" (by decide)
    exact .object (.entry (.blanks hnone) htype hnone hnone (.string hnull) (.close hnone))
  | succ n ih =>
    have hunary := quoted_quote "Unary" (by decide)
    have hoperator := quoted_quote "operator" (by decide)
    have hnot := quoted_quote "!" (by decide)
    have hargument := quoted_quote "argument" (by decide)
    exact .object <| .entry (.blanks hnone) htype hnone hnone (.string hunary) <|
      .entry (.comma hnone hnone) hoperator hnone hnone (.string hnot) <|
        .entry (.comma hnone hnone) hargument hnone hnone ih (.close hnone)

end Expr

namespace Program

/-- A script of one statement, a chain of negations. -/
def negations (n : Nat) : Program :=
  ⟨"a", 1, {}, [.expression (Expr.negations n)]⟩

def negationsJson (n : Nat) : Json :=
  .object [("filename", .string "a"),
    ("body", .array [.object [("type", .string "Expression"),
      ("expression", Expr.negationsJson n)]])]

def negationsText (n : Nat) : List Char :=
  '\x7b' :: (quote "filename" ++
    ':' :: (quote "a" ++
      ',' :: (quote "body" ++
        ':' ::
          ('[' :: ('\x7b' ::
            (quote "type" ++ ':' :: (quote "Expression" ++ ',' ::
              (quote "expression" ++ ':' :: (Expr.negationsText n ++ ['\x7d'])))) ++ [']']) ++
                ['\x7d']))))

theorem spelling_negationsJson (n : Nat) : (negationsJson n).Spelling (negationsText n) := by
  have hnone : Json.Blanks [] := List.forall_mem_nil _
  have hfilename := quoted_quote "filename" (by decide)
  have ha := quoted_quote "a" (by decide)
  have hbody := quoted_quote "body" (by decide)
  have htype := quoted_quote "type" (by decide)
  have htag := quoted_quote "Expression" (by decide)
  have hexpression := quoted_quote "expression" (by decide)
  have hstatement :=
    Json.Spelling.object <| .entry (.blanks hnone) htype hnone hnone (.string htag) <|
    .entry (.comma hnone hnone) hexpression hnone hnone (Expr.spelling_negations n) (.close hnone)
  exact .object <| .entry (.blanks hnone) hfilename hnone hnone (.string ha) <|
    .entry (.comma hnone hnone) hbody hnone hnone
      (.array (.item (.blanks hnone) hstatement (.close hnone))) (.close hnone)

/-- Up to 123 negations can be read: with the program, its body and the statement 127 brackets are
open. -/
theorem parse_negations {n : Nat} (hn : n ≤ 123) :
    parse (String.ofList (negationsText n)) = .ok (negations n) := by
  have hwritten : (negations n).WrittenAs (negationsJson n) := by
    refine ⟨_, rfl, ⟨_, rfl, rfl⟩, .inr ⟨rfl, rfl⟩, .inr ⟨rfl, rfl⟩, _, rfl, _, rfl,
      .cons ⟨n + 2, _, rfl, ?_⟩ .nil⟩
    exact ⟨⟨_, rfl, rfl⟩, _, rfl, Expr.form_negations n⟩
  have hdepth : (negationsJson n).depth ≤ maxNesting := by
    simp only [negationsJson, Json.depth, Json.depthOfEntries, Json.depthOfEntry, Json.depthOfItems,
      Expr.depth_negationsJson, maxNesting]
    omega
  have hnone : Json.Blanks [] := List.forall_mem_nil _
  have hdocument : (negationsJson n).Document (String.ofList (negationsText n)) := by
    refine ⟨[], negationsText n, [], hnone, spelling_negationsJson n, hnone, ?_⟩
    rw [String.toList_ofList, List.nil_append, List.append_nil]
  exact Json.Reader.Reads.all (reads_program _ _ hwritten hdepth) hdocument

end Program

/-- The bound is met: 123 negations of `null` in a statement are 125 nodes in one another. -/
theorem nestedWithin_of_parse_negations :
    Program.parse (String.ofList (Program.negationsText 123)) = .ok (Program.negations 123) ∧
    (Program.negations 123).NestedWithin 125 ∧
    ∃ chain : List TreeNode, (∀ n ∈ chain, (Program.negations 123).Contains n) ∧
      (chain.IsChain fun outer inner => inner.Inside outer) ∧ chain.length = 125 := by
  have hparse := Program.parse_negations (Nat.le_refl 123)
  have hstatement :
      (TreeNode.expr (Expr.negations 123)).Inside (.stmt (.expression (Expr.negations 123))) :=
    .single (.head _)
  refine ⟨hparse, nestedWithin_of_parse hparse,
    .stmt (.expression (Expr.negations 123)) :: .expr (Expr.negations 123) :: Expr.negated 123,
    ?_, ?_, ?_⟩
  · have hinside := Expr.inside_of_mem_negated 123
    exact List.forall_mem_cons.mpr ⟨⟨_, .head _, .inl rfl⟩,
      List.forall_mem_cons.mpr ⟨⟨_, .head _, .inr hstatement⟩,
      fun n hn => ⟨_, .head _, .inr (hstatement.trans (hinside n hn))⟩⟩⟩
  · exact .cons_cons hstatement (Expr.isChain_negated 123)
  · rw [List.length_cons, List.length_cons, Expr.length_negated]

end StackCode
