import StackCode.Proofs.Unseen

/-!
# Folding a whole tree

The compiler folds lazily: each time it meets an addition it folds that one addition, and goes on
with the nodes that came out. `Change.deepFold` folds everything at once instead, from the leaves
up, under every kind of node, and is a change that can be made to a tree before anything is
compiled.

The two agree as steps of code generation: the change is one that the compiler does not see if it
folds trees and does not fold changed ones (`Change.unseen_deepFold`). So whatever holds of code
that is compiled without folding holds of code that is compiled with it, for another tree, and most
files after this one argue about code without folding only.

What makes the comparison work is that the folder finds every literal that the deep fold finds
(`Expr.number?_fold`), although it does not look below other nodes than additions: between an
addition and its literals there are only additions. That the value of an expression is not changed
is not a matter of this file.
-/

set_option autoImplicit false

namespace StackCode

/-! ## Definitions

The fold of one addition is `combine`, and it is applied to operands that are folded already. So the
definition needs no pass that is repeated until nothing changes. -/

/-- A binary operation on two folded operands. -/
def Expr.combine (op : BinaryOp) (left right : Expr) : Expr :=
  match op, left, right with
  | .add, .number a, .number b => .number (a + b)
  | op, left, right => .binary op left right

/-- Every addition of number literals is replaced by its sum. -/
def Change.deepFold : Change where
  onBinary := Expr.combine
  isReference_onBinary op left right := by
    unfold Expr.combine
    split <;> rfl

@[simp] theorem Change.deepFold_onCallee (v : Variable) : deepFold.onCallee v = v :=
  rfl

@[simp] theorem Change.deepFold_onReference (v : Variable) : deepFold.onReference v = v :=
  rfl

@[simp] theorem Change.deepFold_onBinary : deepFold.onBinary = Expr.combine :=
  rfl

/-- The script with every addition of number literals replaced by its sum. -/
def Program.deepFold (p : Program) : Program :=
  p.map .deepFold

/-! ## The folder against the deep fold

The folder descends through additions only and the deep fold through everything, so the two trees
differ. They agree in the two things that matter to an addition: whether an operand is a literal,
and with which value. -/

namespace Expr

/-- Either both operands are literals, or one of them is none. -/
theorem number?_cases (left right : Expr) :
    (∃ a b, left.number? = some a ∧ right.number? = some b) ∨ left.number? = none ∨
    right.number? = none := by
  cases hl : left.number? with
  | none => exact Or.inr (Or.inl rfl)
  | some a =>
    cases hr : right.number? with
    | none => exact Or.inr (Or.inr rfl)
    | some b => exact Or.inl ⟨a, b, rfl, rfl⟩

theorem combine_add_of_number {left right : Expr} {a b : Double} (hl : left.number? = some a)
    (hr : right.number? = some b) : combine .add left right = .number (a + b) := by
  cases left <;> simp [number?] at hl
  cases right <;> simp [number?] at hr
  subst hl
  subst hr
  rfl

theorem combine_add_of_not_number {left right : Expr}
    (h : left.number? = none ∨ right.number? = none) :
    combine .add left right = .binary .add left right := by
  unfold combine
  split
  · simp [number?] at h
  · rfl

theorem combine_of_ne_add {op : BinaryOp} (h : op ≠ .add) (left right : Expr) :
    combine op left right = .binary op left right := by
  unfold combine
  split
  · exact absurd rfl h
  · rfl

/-- The folder does to an addition what the deep fold does, with operands that it has folded its own
way. -/
theorem fold_add (left right : Expr) :
    (binary .add left right).fold = combine .add left.fold right.fold := by
  unfold fold
  rw [fold?]
  split
  · rename_i a b hl hr
    rw [combine_add_of_number hl hr]
    rfl
  · rename_i hnot
    have hnone :
        (left.fold?.getD left).number? = none ∨ (right.fold?.getD right).number? = none := by
      cases hl : (left.fold?.getD left).number? with
      | none => exact Or.inl rfl
      | some a =>
        cases hr : (right.fold?.getD right).number? with
        | none => exact Or.inr rfl
        | some b => exact absurd hr (hnot a b hl)
    rw [combine_add_of_not_number hnone]
    -- The folder says nothing if neither operand changed, and the old operands are then the folded
    -- ones.
    split
    · rename_i hboth
      rw [Bool.and_eq_true, Option.isNone_iff_eq_none, Option.isNone_iff_eq_none] at hboth
      rw [hboth.1, hboth.2]
      rfl
    · rfl

/-- The folder stops at every other operation. -/
theorem fold_of_ne_add {op : BinaryOp} (h : op ≠ .add) (left right : Expr) :
    (binary op left right).fold = binary op left right := by
  cases op with
  | add => exact absurd rfl h
  | _ => rfl

theorem map_deepFold_binary (op : BinaryOp) (left right : Expr) :
    (binary op left right).map .deepFold =
      combine op (left.map .deepFold) (right.map .deepFold) :=
  rfl

theorem map_deepFold_call (callee : Expr) (arguments : List Expr) :
    (call callee arguments).map .deepFold =
      .call (callee.map .deepFold) (mapList .deepFold arguments) := by
  rw [map_call, mapCallee_eq_map rfl]

/-- Folding is idempotent in the operands. -/
theorem map_deepFold_combine (op : BinaryOp) (left right : Expr) :
    (combine op left right).map .deepFold =
      combine op (left.map .deepFold) (right.map .deepFold) := by
  unfold combine
  split
  · rfl
  · rw [map_deepFold_binary]
    rfl

/-- What the folder leaves to be folded is what it found. -/
theorem map_deepFold_fold (e : Expr) : e.fold.map .deepFold = e.map .deepFold := by
  cases e with
  | binary op left right =>
    by_cases hop : op = .add
    · subst hop
      rw [fold_add, map_deepFold_combine, map_deepFold_fold left, map_deepFold_fold right,
        map_deepFold_binary]
    · rw [fold_of_ne_add hop]
  | _ => rfl
termination_by e.size
decreasing_by
  all_goals
    simp only [size]
    omega

theorem number?_combine_of_ne_add {op : BinaryOp} (h : op ≠ .add) (left right : Expr) :
    (combine op left right).number? = none := by
  rw [combine_of_ne_add h]
  rfl

/-- Whether a sum of two folded operands is a literal depends on whether the operands are. -/
theorem number?_combine_congr {left right left' right' : Expr} (hl : left.number? = left'.number?)
    (hr : right.number? = right'.number?) :
    (combine .add left right).number? = (combine .add left' right').number? := by
  rcases number?_cases left' right' with ⟨a, b, ha, hb⟩ | hnone
  · rw [combine_add_of_number (hl.trans ha) (hr.trans hb), combine_add_of_number ha hb]
  · have hnone' : left.number? = none ∨ right.number? = none := by rwa [hl, hr]
    rw [combine_add_of_not_number hnone', combine_add_of_not_number hnone]
    rfl

/-- The folder finds every literal that the deep fold finds: between an addition and its literals
there are only additions. -/
theorem number?_fold (e : Expr) : e.fold.number? = (e.map .deepFold).number? := by
  cases e with
  | binary op left right =>
    by_cases hop : op = .add
    · subst hop
      rw [fold_add, map_deepFold_binary]
      exact number?_combine_congr (number?_fold left) (number?_fold right)
    · rw [fold_of_ne_add hop, map_deepFold_binary, number?_combine_of_ne_add hop]
      rfl
  | call callee arguments =>
    rw [map_deepFold_call]
    rfl
  | _ => rfl
termination_by e.size
decreasing_by
  all_goals
    simp only [size]
    omega

/-- An addition that stays one has the operands that it was given. -/
theorem operands?_combine_of_not_number {left right : Expr}
    (h : left.number? = none ∨ right.number? = none) :
    (combine .add left right).operands? = some (left, right) := by
  rw [combine_add_of_not_number h]
  rfl

end Expr

/-! ## Additions

What the compiler does with an addition, in the three cases that it distinguishes. -/

namespace Gen

/-- With folding, an addition whose operands fold to literals is the literal of their sum. -/
theorem expression_add_of_number {left right : Expr} {a b : Double}
    (hl : left.fold.number? = some a) (hr : right.fold.number? = some b) :
    expression true (.binary .add left right) = number (a + b) := by
  have hfold : (Expr.binary .add left right).fold = .number (a + b) := by
    rw [Expr.fold_add, Expr.combine_add_of_number hl hr]
  rw [expression, if_pos rfl]
  split
  · rename_i left' right' hops
    rw [hfold] at hops
    cases hops
  · rw [hfold, expression]

/-- With folding, any other addition is compiled operand by operand. -/
theorem expression_add_of_not_number {left right : Expr}
    (h : left.fold.number? = none ∨ right.fold.number? = none) :
    expression true (.binary .add left right) =
      (do expression true left.fold; expression true right.fold; op .add) := by
  have hfold : (Expr.binary .add left right).fold.operands? = some (left.fold, right.fold) := by
    rw [Expr.fold_add, Expr.operands?_combine_of_not_number h]
  rw [expression, if_pos rfl]
  split
  · rename_i left' right' hops
    rw [hfold] at hops
    cases hops
    rfl
  · rename_i hops
    rw [hfold] at hops
    cases hops

/-- Without folding, every addition is compiled operand by operand. -/
theorem expression_add_false (left right : Expr) :
    expression false (.binary .add left right) =
      (do expression false left; expression false right; op .add) := by
  rw [expression, if_neg Bool.false_ne_true]

/-- Other operations are compiled operand by operand, folding or not. The operation is looked up
first, so an operation that is refused is refused before its operands. -/
theorem expression_binary {operator : BinaryOp} (h : operator ≠ .add) (fold : Bool)
    (left right : Expr) :
    expression fold (.binary operator left right) = (do
      let opcode ← ofExcept operator.opcode
      expression fold left
      expression fold right
      op opcode) := by
  rw [expression]
  exact h

end Gen

/-- **Compiling with folding is compiling the deep fold without.** -/
theorem Change.unseen_deepFold : Change.deepFold.Unseen true false where
  number _ := rfl
  name_onCallee _ := rfl
  binding_onReference _ := rfl
  binary op left right ihl ihr := by
    show Gen.expression false (Expr.combine op (left.map .deepFold) (right.map .deepFold)) = _
    by_cases hop : op = .add
    · subst hop
      rcases Expr.number?_cases left.fold right.fold with ⟨a, b, ha, hb⟩ | hnone
      · have hl := (Expr.number?_fold left).symm.trans ha
        have hr := (Expr.number?_fold right).symm.trans hb
        rw [Gen.expression_add_of_number ha hb, Expr.combine_add_of_number hl hr, Gen.expression]
      · have hdeep :
            (left.map .deepFold).number? = none ∨ (right.map .deepFold).number? = none := by
          rw [← Expr.number?_fold, ← Expr.number?_fold]
          exact hnone
        -- The compiler goes on with the folded operands, which are no larger than the ones at hand.
        rw [Gen.expression_add_of_not_number hnone, Expr.combine_add_of_not_number hdeep,
          Gen.expression_add_false, ← ihl left.fold left.fold_size_le,
          ← ihr right.fold right.fold_size_le,
          Expr.map_deepFold_fold, Expr.map_deepFold_fold]
    · rw [Expr.combine_of_ne_add hop, Gen.expression_binary hop, Gen.expression_binary hop,
        ihl left (Nat.le_refl _), ihr right (Nat.le_refl _)]

/-- **Folding as additions are met is folding the whole script first.** Compiling a script with
folding gives what compiling the folded script without gives: the same units with the same code and
atoms, or the same error in the same unit. -/
theorem compile_fold_eq_compile_deepFold (p : Program) :
    p.compile true = p.deepFold.compile false :=
  (p.compile_map Change.unseen_deepFold).symm

/-- `x = [-(1 + 2)];` folds below the assignment, the array and the sign, which the folder does not
look through. -/
example :
    (Stmt.expression (.assign .assign (.identifier ⟨"x", .global "x"⟩) (.array [some (.unary .minus
      (.binary .add (.number (.ofNat 1)) (.number (.ofNat 2))))]))).map .deepFold =
      .expression (.assign .assign (.identifier ⟨"x", .global "x"⟩)
        (.array [some (.unary .minus (.number (.ofNat 3)))])) := by
  rfl

end StackCode
