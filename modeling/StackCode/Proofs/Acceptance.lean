import StackCode.Proofs.Double.Exact
import StackCode.Proofs.Layout.Supported
import StackCode.Proofs.Layout.Units
import StackCode.Proofs.Tree.Nodes

/-!
# What is compiled

The body of a unit is accepted if each of its nodes is of an allowed form. Whether a form is allowed
is a matter of the node and at most its direct parts: the range of a literal, the operator, the kind
of an operand or of a callee, the number of arguments. Of what is around a node only three things
count: whether the unit is the top level, whether a loop is around, and whether the node is what a
`for` starts with.

A unit compiles exactly if its body is accepted (`build_eq_ok_iff_accepted`). The compiler finds out
while it emits code, in the order in which it meets the nodes; the layout of a tree has its first
refusal, and by recursion on the tree there is none exactly if all nodes are allowed.

## What an exact condition has to say

It is not enough to list the forms that are refused. Some forms are refused for their context, such
as `break` outside of loops and a function inside of a function, and some for a value: a literal
that is no integer of 32 bits, a call of more than 65535 arguments, an array of 2^32 elements or
more. Each of these is a clause of `isAllowed`, with the number in it, so that the statement can be
checked against the code by evaluation.

With folding the condition is asked of the folded body. There is no way around this: `1.5 + 1.5` is
accepted with folding and refused without, and the sum of two accepted literals may be refused.

Which error is given where several nodes are not allowed is not said here. It is that of the first
one in the order of the compiler, and the layout of the body says which that is.
-/

set_option autoImplicit false

namespace StackCode

/-! ## Allowed forms

A predicate on one node, by cases of its outermost constructor, with a value in `Bool` so that a
body can be decided. -/

/-- Whether the number is an integer of 32 bits with a sign. -/
def Double.isInt32 (value : Double) : Bool :=
  value.toInt?.any fun n => -2147483648 ≤ n ∧ n < 2147483648

/-- The binary operators that have an instruction. -/
def BinaryOp.supported : List BinaryOp :=
  [.add, .subtract, .multiply, .divide, .modulo, .equal, .notEqual, .strictEqual, .strictNotEqual,
    .lessThan, .lessThanEqual, .greaterThan, .greaterThanEqual, .logicalAnd, .logicalOr]

/-- Whether the node itself is of a form that is compiled. -/
def Expr.isAllowed : Expr → Bool
  | .number value => value.isInt32
  | .string raw => (Literal.decode raw).isOk
  | .null | .boolean _ | .this | .identifier _ => true
  | .array items => !items.any Option.isNone && items.length ≤ 2147483648
  | .binary op _ _ => BinaryOp.supported.contains op
  | .unary op _ => op = .logicalNot
  | .update op before argument => op = .increment && !before && argument.isReference
  | .assign op target _ => op = .assign && target.isReference
  | .call callee arguments => arguments.length ≤ 65535 && callee.isReference
  | .new callee arguments => arguments.length ≤ 65535 && callee.isIdentifier
  | .member .. | .index .. | .conditional .. | .comma .. => true
  | .regExp .. | .object _ | .function .. => false

/-- Whether a `for` may start with the statement. -/
def Stmt.isForInit : Stmt → Bool
  | .empty | .expression _ | .declaration .var _ => true
  | _ => false

/-- Whether the node itself is of a form that is compiled. -/
def Stmt.Node.isAllowed (toplevel : Bool) (node : Stmt.Node) : Bool :=
  match node.stmt with
  | .empty | .block _ | .expression _ | .branch .. | .whileLoop .. | .giveBack _ => true
  | .declaration kind _ => kind = .var
  | .function .. => toplevel
  | .forLoop init _ _ _ => init.all Stmt.isForInit
  | .breakLoop | .continueLoop => node.inLoop
  | .doWhile .. | .forIn .. | .switch .. | .tryCatch .. | .throw _ | .within .. | .labeled .. =>
    false

/-- Every one of the expressions is allowed. -/
def Expr.Accepted (nodes : List Expr) : Prop :=
  ∀ node ∈ nodes, node.isAllowed = true

/-- Every one of the statements is allowed, and so are the expressions in it. -/
def Stmt.Accepted (toplevel : Bool) (nodes : List Stmt.Node) : Prop :=
  ∀ node ∈ nodes, node.isAllowed toplevel = true ∧ ∀ e ∈ node.stmt.expressions,
    Expr.Accepted e.nodes

/-- Every node of the unit is allowed. -/
def Body.Accepted (body : Body) : Prop :=
  Stmt.Accepted body.toplevel (Stmt.listNodes false body.statements)

instance (nodes : List Expr) : Decidable (Expr.Accepted nodes) :=
  inferInstanceAs (Decidable (∀ node ∈ nodes, node.isAllowed = true))

instance (toplevel : Bool) (nodes : List Stmt.Node) : Decidable (Stmt.Accepted toplevel nodes) :=
  inferInstanceAs (Decidable (∀ node ∈ nodes, node.isAllowed toplevel = true ∧
    ∀ e ∈ node.stmt.expressions, Expr.Accepted e.nodes))

instance (body : Body) : Decidable body.Accepted :=
  inferInstanceAs (Decidable (Stmt.Accepted _ _))

/-! ## Literals and operators

The results that a layout begins with, as conditions on what they are the results of. -/

/-- The range of the widest instruction contains those of the others. -/
theorem Instruction.isSome_pushInt? (n : Int) :
    (pushInt? n).isSome = decide (-2147483648 ≤ n ∧ n < 2147483648) := by
  grind [pushInt?]

/-- There is an instruction for a number exactly if it is an integer of 32 bits. -/
theorem Instruction.isOk_ofNumber (value : Double) : (ofNumber value).isOk = value.isInt32 := by
  unfold ofNumber Double.isInt32
  cases value.toInt? with
  | none => rfl
  | some n =>
    rw [Option.any_some, ← isSome_pushInt?]
    cases h : pushInt? n with
    | none => simp [h, Except.isOk, Except.toBool]
    | some i => simp [h, Except.isOk, Except.toBool]

/-- The operators that have an instruction are those in the list. -/
theorem BinaryOp.isOk_opcode (op : BinaryOp) : op.opcode.isOk = supported.contains op := by
  cases op <;> rfl

theorem UnaryOp.isOk_opcode (op : UnaryOp) : op.opcode.isOk = decide (op = .logicalNot) := by
  cases op <;> rfl

/-- The number of arguments is written in 16 bits. -/
theorem Operand.isOk_ofArgCount (n : Nat) : (ofArgCount n).isOk = decide (n ≤ 65535) := by
  unfold ofArgCount
  by_cases h : n < 65536
  · rw [if_pos h]
    exact (decide_eq_true (Nat.le_of_lt_succ h)).symm
  · rw [if_neg h]
    exact (decide_eq_false (by omega)).symm

/-! ## A layout without refusal

For each way of putting layouts together, when the whole is not refused. The order of the parts no
longer matters once none of them is. -/

namespace Layout

variable {inLoop : Bool}

/-- A result has to be there, and the rest accepted. -/
theorem given_refusal_eq_none_iff {α : Type} {result : Except Error α} {plan : α → Layout}
    {P : Prop} (h : ∀ a, (plan a).refusal inLoop = none ↔ P) :
    (given result plan).refusal inLoop = none ↔ result.isOk = true ∧ P := by
  cases result with
  | ok a =>
    rw [← h a]
    exact (and_iff_right rfl).symm
  | error e => simp [given, Except.isOk, Except.toBool]

theorem number_refusal_eq_none_iff {value : Double} :
    (number value).refusal inLoop = none ↔ value.isInt32 = true := by
  rw [← Instruction.isOk_ofNumber]
  unfold number
  cases Instruction.ofNumber value with
  | ok i => simp [Except.isOk, Except.toBool]
  | error e => simp [Except.isOk, Except.toBool]

/-- The index of an array element can be written if it is an integer of 32 bits. -/
theorem index_refusal_eq_none_iff {n : Nat} (h : n < 4294967296) :
    (number (Double.ofNat n)).refusal inLoop = none ↔ n < 2147483648 := by
  rw [number_refusal_eq_none_iff, Double.isInt32, Double.toInt?_ofNat (by omega), Option.any_some,
    decide_eq_true_eq]
  omega

theorem append_refusal_eq_none_iff {p q : Layout} :
    (p ++ q).refusal inLoop = none ↔ p.refusal inLoop = none ∧ q.refusal inLoop = none :=
  Option.or_eq_none_iff

theorem branch_refusal_eq_none_iff {p q r : Layout} :
    (branch p q r).refusal inLoop = none ↔
      p.refusal inLoop = none ∧ q.refusal inLoop = none ∧ r.refusal inLoop = none := by
  simp only [branch, Option.or_eq_none_iff]

theorem unsupported_refusal (feature : Feature) :
    (unsupported feature).refusal inLoop = some (.unsupported feature) :=
  rfl

end Layout

/-! ## Expressions -/

namespace Expr

section

variable {e : Expr} {nodes nodes' : List Expr}

theorem accepted_nil : Accepted [] :=
  nofun

theorem accepted_cons : Accepted (e :: nodes) ↔ e.isAllowed = true ∧ Accepted nodes :=
  List.forall_mem_cons

theorem accepted_append : Accepted (nodes ++ nodes') ↔ Accepted nodes ∧ Accepted nodes' :=
  List.forall_mem_append

end

open Layout (append_refusal_eq_none_iff given_refusal_eq_none_iff index_refusal_eq_none_iff
  branch_refusal_eq_none_iff number_refusal_eq_none_iff)

attribute [local simp] append_refusal_eq_none_iff branch_refusal_eq_none_iff
  Layout.unsupported_refusal
  accepted_nil accepted_cons accepted_append nodes isAllowed isReference isIdentifier and_assoc

mutual

/-- **An expression is compiled exactly if all of its nodes are allowed.** -/
theorem refusal_eq_none_iff (inLoop : Bool) (e : Expr) :
    e.layout.refusal inLoop = none ↔ Accepted e.nodes := by
  cases e with
  | number value => simp [layout, number_refusal_eq_none_iff]
  | string raw =>
    rw [layout, given_refusal_eq_none_iff (P := True) fun _ => by simp]
    simp
  | regExp pattern flags => simp [layout]
  | null => simp [layout]
  | boolean value => simp [layout]
  | this => simp [layout]
  | identifier v => simp [layout]
  | array items =>
    cases hholes : items.any Option.isNone with
    | true => simp [layout, hholes]
    | false =>
      by_cases hlength : 4294967296 ≤ items.length
      · have hlong : ¬ items.length ≤ 2147483648 := by omega
        simp [layout, hholes, hlength, hlong]
      · have helements := elements_refusal_eq_none_iff inLoop 0 items hholes (by omega)
        -- All indices below the length can be written exactly if the last one can.
        have hindex : (∀ k < items.length, 0 + k < 2147483648) ↔ items.length ≤ 2147483648 := by
          constructor
          · intro h
            apply Nat.le_of_not_lt
            intro hlong
            have := h 2147483648 hlong
            omega
          · intro h k hk
            omega
        rw [hindex] at helements
        simp [layout, helements, hholes, hlength]
  | object properties => simp [layout]
  | binary op left right =>
    have hleft := refusal_eq_none_iff inLoop left
    have hright := refusal_eq_none_iff inLoop right
    rw [layout, given_refusal_eq_none_iff (P := Accepted left.nodes ∧ Accepted right.nodes)
      fun _ => by simp [hleft, hright], BinaryOp.isOk_opcode]
    simp
  | unary op argument =>
    have hargument := refusal_eq_none_iff inLoop argument
    rw [layout, given_refusal_eq_none_iff
      (P := Accepted argument.nodes) fun _ => by simp [hargument], UnaryOp.isOk_opcode]
    simp
  | update op before argument =>
    have hargument := increment_refusal_eq_none_iff inLoop argument
    cases op with
    | decrement => simp [layout]
    | increment =>
      cases before with
      | true => simp [layout]
      | false => simp [layout, hargument]
  | assign op target value =>
    have htarget := assign_refusal_eq_none_iff inLoop target value.layout
    have hvalue := refusal_eq_none_iff inLoop value
    cases op with
    | assign => simp [layout, htarget, hvalue]
    | _ => simp [layout]
  | call callee arguments =>
    have hcallee := function_refusal_eq_none_iff inLoop callee
    have harguments := list_refusal_eq_none_iff inLoop arguments
    rw [layout, given_refusal_eq_none_iff
      (P := callee.isReference = true ∧ Accepted callee.nodes ∧ Accepted (listNodes arguments))
      fun _ => by simp [hcallee, harguments], Operand.isOk_ofArgCount]
    simp
  | new callee arguments =>
    have harguments := list_refusal_eq_none_iff inLoop arguments
    cases callee with
    | identifier v =>
      rw [layout, given_refusal_eq_none_iff (P := Accepted (listNodes arguments))
        fun _ => by simp [harguments], Operand.isOk_ofArgCount]
      simp
    | _ => simp [layout]
  | member obj property => simp [layout, refusal_eq_none_iff inLoop obj]
  | index obj key => simp [layout, refusal_eq_none_iff inLoop obj, refusal_eq_none_iff inLoop key]
  | conditional test consequent alternate =>
    simp [layout, refusal_eq_none_iff inLoop test, refusal_eq_none_iff inLoop consequent,
      refusal_eq_none_iff inLoop alternate]
  | comma left right =>
    simp [layout, refusal_eq_none_iff inLoop left, refusal_eq_none_iff inLoop right]
  | function name scope body => simp [layout]

/-- Only a reference can be incremented, and its parts have to be accepted. -/
theorem increment_refusal_eq_none_iff (inLoop : Bool) (argument : Expr) :
    argument.incrementLayout.refusal inLoop = none ↔
      argument.isReference = true ∧ Accepted argument.nodes := by
  cases argument with
  | identifier v => simp [incrementLayout]
  | member obj property => simp [incrementLayout, refusal_eq_none_iff inLoop obj]
  | index obj key =>
    simp [incrementLayout, refusal_eq_none_iff inLoop obj, refusal_eq_none_iff inLoop key]
  | _ => simp [incrementLayout]

theorem assign_refusal_eq_none_iff (inLoop : Bool) (target : Expr) (value : Layout) :
    (target.assignLayout value).refusal inLoop = none ↔
      target.isReference = true ∧ Accepted target.nodes ∧ value.refusal inLoop = none := by
  cases target with
  | identifier v => simp [assignLayout, Variable.store]
  | member obj property => simp [assignLayout, refusal_eq_none_iff inLoop obj]
  | index obj key =>
    simp [assignLayout, refusal_eq_none_iff inLoop obj, refusal_eq_none_iff inLoop key]
  | _ => simp [assignLayout]

theorem function_refusal_eq_none_iff (inLoop : Bool) (callee : Expr) :
    callee.functionLayout.refusal inLoop = none ↔
      callee.isReference = true ∧ Accepted callee.nodes := by
  cases callee with
  | identifier v => simp [functionLayout]
  | member obj property => simp [functionLayout, refusal_eq_none_iff inLoop obj]
  | index obj key =>
    simp [functionLayout, refusal_eq_none_iff inLoop obj, refusal_eq_none_iff inLoop key]
  | _ => simp [functionLayout]

theorem list_refusal_eq_none_iff (inLoop : Bool) (es : List Expr) :
    (listLayout es).refusal inLoop = none ↔ Accepted (listNodes es) := by
  cases es with
  | nil => simp [listLayout, listNodes]
  | cons e es =>
    simp [listLayout, listNodes, refusal_eq_none_iff inLoop e, list_refusal_eq_none_iff inLoop es]

/-- The elements of an array are accepted if their indices can be written and their values are
accepted. -/
theorem elements_refusal_eq_none_iff (inLoop : Bool) (first : Nat) (items : List (Option Expr))
    (hholes : items.any Option.isNone = false) (hlength : first + items.length ≤ 4294967296) :
    (elementsLayout first items).refusal inLoop = none ↔
      (∀ k < items.length, first + k < 2147483648) ∧ Accepted (elementNodes items) := by
  cases items with
  | nil => simp [elementsLayout, elementNodes]
  | cons item items =>
    cases item with
    | none => cases hholes
    | some e =>
      rw [List.length_cons] at hlength
      -- The range of indices is split into the first one and those of the other elements.
      have hindex : (∀ k < (some e :: items).length, first + k < 2147483648) ↔
          first < 2147483648 ∧ ∀ k < items.length, first + 1 + k < 2147483648 := by
        rw [List.length_cons]
        constructor
        · intro h
          refine ⟨h 0 (Nat.zero_lt_succ _), fun k hk => ?_⟩
          have := h (k + 1) (Nat.succ_lt_succ hk)
          omega
        · rintro ⟨hfirst, hrest⟩ k hk
          cases k with
          | zero => exact hfirst
          | succ k =>
            have := hrest k (Nat.lt_of_succ_lt_succ hk)
            omega
      -- That the array has fewer than 2^32 elements makes the index an exact number.
      have helement :
          (Layout.number (Double.ofNat first)).refusal inLoop = none ↔ first < 2147483648 :=
        index_refusal_eq_none_iff (by omega)
      have hrest := elements_refusal_eq_none_iff inLoop (first + 1) items hholes (by omega)
      rw [hindex]
      simp [elementsLayout, elementNodes, refusal_eq_none_iff inLoop e, helement, hrest,
        and_left_comm]

end

end Expr

/-! ## Statements -/

namespace Stmt

open Layout (append_refusal_eq_none_iff branch_refusal_eq_none_iff)

section

variable {toplevel : Bool} {node : Node} {nodes nodes' : List Node}

theorem accepted_nil : Accepted toplevel [] :=
  nofun

theorem accepted_cons :
    Accepted toplevel (node :: nodes) ↔
      (node.isAllowed toplevel = true ∧ ∀ e ∈ node.stmt.expressions, Expr.Accepted e.nodes) ∧
        Accepted toplevel nodes :=
  List.forall_mem_cons

theorem accepted_append :
    Accepted toplevel (nodes ++ nodes') ↔ Accepted toplevel nodes ∧ Accepted toplevel nodes' :=
  List.forall_mem_append

end

attribute [local simp] append_refusal_eq_none_iff branch_refusal_eq_none_iff
  Layout.unsupported_refusal
  Expr.refusal_eq_none_iff accepted_nil accepted_cons accepted_append nodes Node.isAllowed
    expressions and_assoc

theorem declarators_refusal_eq_none_iff (inLoop : Bool) (ds : List (Variable × Option Expr)) :
    (declaratorsLayout ds).refusal inLoop = none ↔
      ∀ e ∈ ds.filterMap Prod.snd, Expr.Accepted e.nodes := by
  induction ds with
  | nil => simp [declaratorsLayout]
  | cons d ds ih =>
    obtain ⟨v, init⟩ := d
    cases init with
    | none => simp [declaratorsLayout, ih]
    | some init => simp [declaratorsLayout, Variable.store, ih]

/-- Only `var` declares variables, and the initializers have to be accepted. -/
theorem declaration_refusal_eq_none_iff (inLoop : Bool) (kind : DeclarationKind)
    (ds : List (Variable × Option Expr)) :
    (declarationLayout kind ds).refusal inLoop = none ↔
      kind = .var ∧ ∀ e ∈ ds.filterMap Prod.snd, Expr.Accepted e.nodes := by
  cases kind with
  | var => simp only [declarationLayout, declarators_refusal_eq_none_iff, true_and]
  | lexical => simp [declarationLayout]
  | constant => simp [declarationLayout]

/-- A `for` may start with less than a block may. -/
theorem forInit_refusal_eq_none_iff (toplevel inLoop : Bool) (init : Option Stmt) :
    (forInitLayout init).refusal inLoop = none ↔
      init.all isForInit = true ∧ Accepted toplevel (optionNodes inLoop init) := by
  cases init with
  | none => simp [forInitLayout, optionNodes]
  | some s =>
    cases s with
    | empty => simp [forInitLayout, optionNodes, isForInit]
    | expression value => simp [forInitLayout, optionNodes, isForInit]
    | declaration kind ds =>
      rw [forInitLayout, declaration_refusal_eq_none_iff]
      cases kind <;> simp [optionNodes, isForInit]
    | _ => simp [forInitLayout, isForInit]

theorem forUpdate_refusal_eq_none_iff (inLoop : Bool) (update : Option Expr) :
    (forUpdateLayout update).refusal inLoop = none ↔ ∀ e ∈ update.toList,
      Expr.Accepted e.nodes := by
  cases update with
  | none => simp [forUpdateLayout]
  | some e => simp [forUpdateLayout]

theorem guard_refusal_eq_none_iff (inLoop : Bool) (test : Option Expr) :
    (Layout.guard (test.map Expr.layout)).refusal inLoop = none ↔
      ∀ e ∈ test.toList, Expr.Accepted e.nodes := by
  cases test with
  | none => simp [Layout.guard]
  | some e => simp [Layout.guard]

mutual

/-- **A statement is compiled exactly if all of its nodes are allowed where they stand.** -/
theorem refusal_eq_none_iff (toplevel inLoop : Bool) (s : Stmt) :
    (s.layout toplevel).refusal inLoop = none ↔ Accepted toplevel (s.nodes inLoop) := by
  cases s with
  | empty => simp [layout]
  | block body => simp [layout, list_refusal_eq_none_iff toplevel inLoop body]
  | expression value => simp [layout]
  | declaration kind ds => simp [layout, declaration_refusal_eq_none_iff]
  | function name line scope body => cases toplevel <;> simp [layout]
  | branch test consequent alternate =>
    simp [layout, refusal_eq_none_iff toplevel inLoop consequent,
      option_refusal_eq_none_iff toplevel inLoop alternate]
  | whileLoop test body =>
    simp [layout, Layout.whileLoop, refusal_eq_none_iff toplevel true body]
  | forLoop init test update body =>
    -- The update is refused before the test, and stands behind it in the tree.
    have hparts : ((forLoop init test update body).layout toplevel).refusal inLoop = none ↔
        (init.all isForInit = true ∧ Accepted toplevel (optionNodes inLoop init)) ∧
          (∀ e ∈ update.toList, Expr.Accepted e.nodes) ∧
          (∀ e ∈ test.toList, Expr.Accepted e.nodes) ∧
            Accepted toplevel (body.nodes true) := by
      simp only [layout, Layout.forLoop, Option.or_eq_none_iff,
        forInit_refusal_eq_none_iff toplevel inLoop init, forUpdate_refusal_eq_none_iff,
        guard_refusal_eq_none_iff, refusal_eq_none_iff toplevel true body]
    rw [hparts, nodes, accepted_cons, accepted_append]
    constructor
    · rintro ⟨⟨hallowed, hinit⟩, hupdate, htest, hbody⟩
      exact ⟨⟨hallowed, List.forall_mem_append.mpr ⟨htest, hupdate⟩⟩, hinit, hbody⟩
    · rintro ⟨⟨hallowed, hexpressions⟩, hinit, hbody⟩
      obtain ⟨htest, hupdate⟩ := List.forall_mem_append.mp hexpressions
      exact ⟨⟨hallowed, hinit⟩, hupdate, htest, hbody⟩
  | breakLoop => cases inLoop <;> simp [layout, Layout.breakLoop]
  | continueLoop => cases inLoop <;> simp [layout, Layout.continueLoop]
  | giveBack argument =>
    cases argument with
    | none => simp [layout]
    | some e => simp [layout]
  | _ => simp [layout]

theorem option_refusal_eq_none_iff (toplevel inLoop : Bool) (s : Option Stmt) :
    (optionLayout toplevel s).refusal inLoop = none ↔ Accepted toplevel (optionNodes inLoop s) := by
  cases s with
  | none => simp [optionLayout, optionNodes]
  | some s => simp [optionLayout, optionNodes, refusal_eq_none_iff toplevel inLoop s]

theorem list_refusal_eq_none_iff (toplevel inLoop : Bool) (ss : List Stmt) :
    (listLayout toplevel ss).refusal inLoop = none ↔ Accepted toplevel (listNodes inLoop ss) := by
  cases ss with
  | nil => simp [listLayout, listNodes]
  | cons s ss =>
    simp [listLayout, listNodes, refusal_eq_none_iff toplevel inLoop s,
      list_refusal_eq_none_iff toplevel inLoop ss]

end

end Stmt

/-! ## Units -/

/-- A unit is there exactly if its layout is not refused. -/
theorem Layout.IsCodeOf.exists_ok_iff {plan : Layout} {result : Except Error CodeUnit}
    (h : plan.IsCodeOf result) :
    (∃ unit, result = .ok unit) ↔ plan.refusal false = none := by
  unfold IsCodeOf at h
  cases hrefusal : plan.refusal false with
  | none =>
    rw [hrefusal] at h
    obtain ⟨unit, hunit, _⟩ := h
    exact ⟨fun _ => rfl, fun _ => ⟨unit, hunit⟩⟩
  | some e =>
    rw [hrefusal] at h
    simp [h]

/-- **Exact acceptance.** On a new unit, with or without folding, the body of a function or the top
level of a script compiles and can be finished exactly if all nodes of the body are allowed; with
folding, all nodes of the body in which every addition of number literals is replaced by its sum. -/
theorem build_eq_ok_iff_accepted (body : Body) (fold : Bool) (scope : Scope) (filename : String)
    (line : UInt32) :
    (∃ unit, OpenUnit.build { asm := { scope, filename, line } }
      (Gen.statements { toplevel := body.toplevel, fold } body.statements) = .ok unit) ↔
      (body.folded fold).Accepted := by
  have hcode := (Gen.compiles_body fold body).isCodeOf_build scope filename line
  rw [hcode.exists_ok_iff]
  exact Stmt.list_refusal_eq_none_iff _ false _

/-- `1.5 + 1.5;` is refused as it stands, since neither literal is an integer, and accepted once it
is folded. -/
example :
    let body : Body := ⟨true, [.expression (.binary .add (.number (.ofRatio false 3 2))
      (.number (.ofRatio false 3 2)))]⟩
    ¬ (body.folded false).Accepted ∧ (body.folded true).Accepted := by
  decide

end StackCode
