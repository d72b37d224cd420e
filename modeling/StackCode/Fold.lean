import StackCode.Tree.Size

/-!
# Folding additions of number literals

An addition is folded when both of its operands fold to number literals. Only such additions are
combined, so that the result depends on how a chain of additions was grouped: `(1 + 2) + x` becomes
`3 + x`, and `(x + 1) + 2` stays as it is. Nothing is folded below any other kind of node.

Folding removes nodes: what it changes becomes smaller (`fold?_size_lt`), and nothing becomes larger
(`fold_size_le`).

Why not more is folded: a sum of doubles may not be regrouped, and `x + 1` is a number only if `x`
is. Other operators could be folded by the same argument as addition, and are not.

A literal that comes out need not be one that can be compiled. Whether it is is found out when it
is, and then the literal is refused as if it had been written so.
-/

set_option autoImplicit false

namespace StackCode.Expr

/-- The value of a number literal. -/
def number? : Expr → Option Double
  | .number value => some value
  | _ => none

/-- The operands of a binary operation. -/
def operands? : Expr → Option (Expr × Expr)
  | .binary _ left right => some (left, right)
  | _ => none

/-- The folded form of an expression, or nothing if there is nothing in it to fold. -/
def fold? : Expr → Option Expr
  | .binary .add left right =>
    let left' := left.fold?
    let right' := right.fold?
    match (left'.getD left).number?, (right'.getD right).number? with
    | some a, some b => some (.number (a + b))
    | _, _ =>
      if left'.isNone && right'.isNone then none
      else some (.binary .add (left'.getD left) (right'.getD right))
  | _ => none

/-- The folded form of an expression, which may be the expression itself. -/
def fold (e : Expr) : Expr :=
  e.fold?.getD e

/-! ## Size

The number of nodes is what the recursion of the compiler goes down by, so these facts stand beside
the definition and not with the theory of folding. -/

theorem size_pos (e : Expr) : 0 < e.size := by
  cases e <;> simp only [size] <;> omega

theorem fold?_size_lt {e folded : Expr} (h : e.fold? = some folded) : folded.size < e.size := by
  fun_induction fold? e generalizing folded with
  | case1 =>
    -- Both operands are literals: two nodes and the addition become one node.
    rename_i left right _ _ _ _ _ _ _ _
    cases h
    have := left.size_pos
    have := right.size_pos
    simp only [size]
    omega
  | case2 => simp at h
  | case3 =>
    -- One of the operands has become smaller, and the other is not larger.
    rename_i left right left' right' changed _ ihl ihr
    cases h
    simp only [size, left', right']
    cases hl : left.fold? with
    | none =>
      cases hr : right.fold? with
      | none => simp [left', right', hl, hr] at changed
      | some r =>
        have := ihr hr
        simp only [Option.getD_none, Option.getD_some]
        omega
    | some l =>
      have := ihl hl
      cases hr : right.fold? with
      | none =>
        simp only [Option.getD_none, Option.getD_some]
        omega
      | some r =>
        have := ihr hr
        simp only [Option.getD_some]
        omega
  | case4 => simp at h

theorem fold_size_le (e : Expr) : e.fold.size ≤ e.size := by
  unfold fold
  cases h : e.fold? with
  | none => simp
  | some folded => exact Nat.le_of_lt (fold?_size_lt h)

theorem operands?_size {e left right : Expr} (h : e.operands? = some (left, right)) :
    left.size + right.size < e.size := by
  cases e <;> simp_all [operands?, size]

/-- An operation that folds to anything but an operation has become smaller. -/
theorem fold_size_lt_of_operands?_eq_none {op : BinaryOp} {left right : Expr}
    (h : (binary op left right).fold.operands? = none) :
    (binary op left right).fold.size < (binary op left right).size := by
  unfold fold at h ⊢
  cases hf : (binary op left right).fold? with
  | none => simp [hf, operands?] at h
  | some folded => exact fold?_size_lt hf

end StackCode.Expr
