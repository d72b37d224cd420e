import StackCode.Proofs.DeepFold

/-!
# What folding does to a sum

To the folder an expression is a tree of additions with other expressions at its leaves, the
`summands`. It merges literals that are neighbours where the tree adds them to each other, and
leaves all else alone.

What comes out is known before the folder runs: it is a literal exactly if all summands are
(`Expr.isSome_number?_fold`), it is the expression itself exactly if no addition in it is between
sums of literals (`Expr.fold?_eq_none_iff`), and there is nothing in it left to fold
(`Expr.fold?_fold`).

It also means the same. Neither the sum of doubles nor the concatenation of strings can be regrouped
or reordered, so this holds only because each merge is an addition that the expression itself would
do (`Expr.merges_summands_fold`).

## The folder and its specification

`additions` and `isLiteralSum` are computed from the tree without folding it, so the three
statements about what comes out are predictions and not descriptions. Together they determine the
result up to the values of the literals, and those are fixed by which additions are merged.

Evaluation is left abstract. All that is assumed is how a sum and a literal are evaluated, in any
monad: an evaluation may read variables, call functions, fail or not end. This is what makes the
statement one about meaning and not about arithmetic. For the folder it means that no effect is
lost, since a literal has none.

Folding below other nodes than additions is not the folder's work. It is the compiler that meets
those nodes and calls the folder there.
-/

set_option autoImplicit false

universe u v

namespace StackCode

namespace Expr

/-! ## Sums

The summands forget the grouping, and `additions` keeps it. -/

/-- What an expression adds up, from left to right. An expression that is no addition is its own
only summand. -/
def summands : Expr → List Expr
  | .binary .add left right => left.summands ++ right.summands
  | e => [e]

/-- The operands of every addition that is reached from the expression through additions alone. -/
def additions : Expr → List (Expr × Expr)
  | .binary .add left right => (left, right) :: (left.additions ++ right.additions)
  | _ => []

/-- Whether the expression is a number literal or a sum of nothing but number literals. -/
def isLiteralSum (e : Expr) : Bool :=
  e.summands.all fun s => s.number?.isSome

theorem isLiteralSum_add (left right : Expr) :
    (binary .add left right).isLiteralSum = (left.isLiteralSum && right.isLiteralSum) := by
  unfold isLiteralSum
  rw [summands, List.all_append]

section

variable {e : Expr} (h : ∀ left right, e = .binary .add left right → False)

include h

theorem fold?_of_not_add : e.fold? = none := by
  rw [fold?]
  exact h

theorem fold_of_not_add : e.fold = e := by
  unfold fold
  rw [fold?_of_not_add h]
  rfl

theorem summands_of_not_add : e.summands = [e] := by
  rw [summands]
  exact h

end

theorem eq_number_of_number? {e : Expr} {a : Double} (h : e.number? = some a) : e = .number a := by
  cases e with
  | number value =>
    cases h
    rfl
  | _ => cases h

theorem fold_of_fold?_eq_none {e : Expr} (h : e.fold? = none) : e.fold = e := by
  unfold fold
  rw [h]
  rfl

/-! ## Normal form

By induction along additions. In the step there are two cases, both operands fold to literals or one
of them does not, and the two lemmas on `combine` say what comes out in each. -/

theorem isSome_number?_combine (left right : Expr) :
    (combine .add left right).number?.isSome = (left.number?.isSome && right.number?.isSome) := by
  rcases number?_cases left right with ⟨a, b, ha, hb⟩ | hnone
  · rw [combine_add_of_number ha hb, ha, hb]
    rfl
  · rw [combine_add_of_not_number hnone]
    rcases hnone with hl | hr
    · rw [hl]
      rfl
    · rw [hr, Option.isSome_none, Bool.and_false]
      rfl

/-- An expression folds to a literal exactly if it is a sum of literals. -/
theorem isSome_number?_fold (e : Expr) : e.fold.number?.isSome = e.isLiteralSum := by
  induction e using summands.induct with
  | case1 left right ihl ihr => rw [fold_add, isSome_number?_combine, ihl, ihr, isLiteralSum_add]
  | case2 e hadd =>
    unfold isLiteralSum
    rw [fold_of_not_add hadd, summands_of_not_add hadd, List.all_cons, List.all_nil, Bool.and_true]

/-- There is nothing to fold in an addition if its operands are not both sums of literals and there
is nothing to fold in either. -/
theorem fold?_add_eq_none_iff (left right : Expr) :
    (binary .add left right).fold? = none ↔
      ¬ (left.isLiteralSum ∧ right.isLiteralSum) ∧ left.fold? = none ∧ right.fold? = none := by
  rw [← isSome_number?_fold, ← isSome_number?_fold, fold?]
  unfold fold
  split
  · rename_i a b hl hr
    simp [hl, hr]
  · rename_i hnot
    have hnone :
        ¬ ((left.fold?.getD left).number?.isSome ∧ (right.fold?.getD right).number?.isSome) := by
      rintro ⟨hl, hr⟩
      obtain ⟨a, ha⟩ := Option.isSome_iff_exists.mp hl
      obtain ⟨b, hb⟩ := Option.isSome_iff_exists.mp hr
      exact hnot a b ha hb
    rw [and_iff_right hnone]
    simp

/-- There is nothing to fold exactly if no addition is between sums of literals. -/
theorem fold?_eq_none_iff (e : Expr) :
    e.fold? = none ↔ ∀ s ∈ e.additions, ¬ (s.1.isLiteralSum ∧ s.2.isLiteralSum) := by
  induction e using additions.induct with
  | case1 left right ihl ihr =>
    rw [fold?_add_eq_none_iff, ihl, ihr, additions, List.forall_mem_cons, List.forall_mem_append]
  | case2 e hadd =>
    rw [additions]
    · simp [fold?_of_not_add hadd]
    · exact hadd

/-- What the folder gives has nothing in it to fold. -/
theorem fold?_fold (e : Expr) : e.fold.fold? = none := by
  induction e using summands.induct with
  | case1 left right ihl ihr =>
    rw [fold_add]
    rcases number?_cases left.fold right.fold with ⟨a, b, ha, hb⟩ | hnone
    · rw [combine_add_of_number ha hb]
      rfl
    · rw [combine_add_of_not_number hnone, fold?_add_eq_none_iff, ← isSome_number?_fold,
        ← isSome_number?_fold, fold_of_fold?_eq_none ihl, fold_of_fold?_eq_none ihr]
      refine ⟨?_, ihl, ihr⟩
      rintro ⟨hl, hr⟩
      rcases hnone with hnone | hnone
      · simp [hnone] at hl
      · simp [hnone] at hr
  | case2 e hadd =>
    rw [fold_of_not_add hadd]
    exact fold?_of_not_add hadd

/-- **The normal form of folding.** An expression folds to a literal exactly if it is a literal or a
sum of literals. It is given back as it is exactly if no addition that is reached through additions
has such sums for both of its operands. What is changed has become smaller, and folding once more
changes nothing. -/
theorem fold_normal_form (e : Expr) :
    ((∃ a, e.fold = .number a) ↔ e.isLiteralSum) ∧
      (e.fold? = none ↔ ∀ s ∈ e.additions, ¬ (s.1.isLiteralSum ∧ s.2.isLiteralSum)) ∧
      (e.fold? = none → e.fold = e) ∧
      (∀ folded, e.fold? = some folded → folded.size < e.size) ∧
      e.fold.fold? = none ∧ e.fold.fold = e.fold := by
  refine ⟨?_, e.fold?_eq_none_iff, fold_of_fold?_eq_none, fun _ => fold?_size_lt, e.fold?_fold,
    fold_of_fold?_eq_none e.fold?_fold⟩
  rw [← isSome_number?_fold, Option.isSome_iff_exists]
  constructor
  · rintro ⟨a, ha⟩
    exact ⟨a, congrArg number? ha⟩
  · rintro ⟨a, ha⟩
    exact ⟨a, eq_number_of_number? ha⟩

end Expr

/-! ## Which literals are merged

A relation between two lists of summands. It does not say how a run of literals is grouped, only
that the number is their sum in some grouping and in their order. -/

/-- The number is the sum of the numbers in their order, in some grouping. -/
inductive Double.SumOf : List Double → Double → Prop where
  | single (a : Double) : SumOf [a] a
  | add {xs ys : List Double} {a b : Double} (hx : SumOf xs a) (hy : SumOf ys b) :
      SumOf (xs ++ ys) (a + b)

namespace Expr

/-- The second sum is the first with literals that are neighbours merged. All other summands stay,
and no literal gets past one of them. -/
inductive Merges : List Expr → List Expr → Prop where
  | nil : Merges [] []
  | keep (s : Expr) {xs ys : List Expr} (h : Merges xs ys) : Merges (s :: xs) (s :: ys)
  | merge {run : List Double} {a : Double} (hrun : Double.SumOf run a) {xs ys : List Expr}
      (h : Merges xs ys) : Merges (run.map .number ++ xs) (.number a :: ys)

theorem Merges.append {xs ys xs' ys' : List Expr} (h : Merges xs ys) (h' : Merges xs' ys') :
    Merges (xs ++ xs') (ys ++ ys') := by
  induction h with
  | nil => exact h'
  | keep s _ ih => exact .keep s ih
  | merge hrun _ ih =>
    rw [List.append_assoc]
    exact .merge hrun ih

/-- A sum that is merged into one literal is a run of literals. -/
theorem Merges.exists_run {xs : List Expr} {a : Double} (h : Merges xs [.number a]) :
    ∃ run, Double.SumOf run a ∧ xs = run.map .number := by
  cases h with
  | keep _ h =>
    cases h
    exact ⟨[a], .single a, rfl⟩
  | @merge run _ hrun _ _ h =>
    cases h
    exact ⟨run, hrun, List.append_nil _⟩

/-- Folding merges literals that are neighbours, and does nothing else. -/
theorem merges_summands_fold (e : Expr) : Merges e.summands e.fold.summands := by
  induction e using summands.induct with
  | case1 left right ihl ihr =>
    rw [fold_add, summands]
    rcases number?_cases left.fold right.fold with ⟨a, b, ha, hb⟩ | hnone
    · rw [combine_add_of_number ha hb]
      rw [eq_number_of_number? ha] at ihl
      rw [eq_number_of_number? hb] at ihr
      obtain ⟨xs, hxs, hleft⟩ := ihl.exists_run
      obtain ⟨ys, hys, hright⟩ := ihr.exists_run
      have hmerge := Merges.merge (hxs.add hys) .nil
      rwa [List.append_nil, List.map_append, ← hleft, ← hright] at hmerge
    · rw [combine_add_of_not_number hnone, summands]
      exact ihl.append ihr
  | case2 e hadd =>
    rw [fold_of_not_add hadd, summands_of_not_add hadd]
    exact .keep e .nil

end Expr

/-! ## Meaning -/

/-- A meaning of expressions of which only sums and number literals are known. What an expression
does besides giving a value is up to the monad: it may leave a trace, read and write a store,
fail. -/
structure Evaluation (m : Type u → Type v) [Monad m] (V : Type u) where
  eval : Expr → m V
  number : Double → V
  add : V → V → m V
  /-- A literal has no effect. -/
  eval_number : ∀ a, eval (.number a) = pure (number a)
  /-- The left operand is evaluated first, then the right one, and then the values are added. -/
  eval_add : ∀ left right, eval (.binary .add left right) = do
    let x ← eval left
    let y ← eval right
    add x y
  /-- Numbers are added as the folder adds them. -/
  add_number : ∀ a b, add (number a) (number b) = pure (number (a + b))

namespace Evaluation

variable {m : Type u → Type v} [Monad m] [LawfulMonad m] {V : Type u} (E : Evaluation m V)

/-- Merging two literals is the addition that would have been done. -/
theorem eval_combine_add (left right : Expr) :
    E.eval (Expr.combine .add left right) = (do
      let x ← E.eval left
      let y ← E.eval right
      E.add x y) := by
  rcases Expr.number?_cases left right with ⟨a, b, ha, hb⟩ | hnone
  · rw [Expr.combine_add_of_number ha hb, Expr.eq_number_of_number? ha,
      Expr.eq_number_of_number? hb, E.eval_number, E.eval_number, E.eval_number, pure_bind,
      pure_bind, E.add_number]
  · rw [Expr.combine_add_of_not_number hnone, E.eval_add]

/-- **Folding keeps the meaning.** Evaluating the folded expression gives the value of the
expression and has its effects, in every evaluation of sums. No law of addition is used: of the
summands, only literals that are neighbours have been merged. -/
theorem eval_fold (e : Expr) :
    E.eval e.fold = E.eval e ∧ Expr.Merges e.summands e.fold.summands := by
  refine ⟨?_, e.merges_summands_fold⟩
  induction e using Expr.summands.induct with
  | case1 left right ihl ihr => rw [Expr.fold_add, E.eval_combine_add, ihl, ihr, E.eval_add]
  | case2 e hadd => rw [Expr.fold_of_not_add hadd]

/-- Adds numbers, and writes one behind the other what is not both numbers. -/
def concat : Double ⊕ String → Double ⊕ String → Double ⊕ String
  | .inl a, .inl b => .inl (a + b)
  | x, y => .inr (x.elim Double.plainText id ++ y.elim Double.plainText id)

/-- Reads variables as their names and leaves a trace of the reads. -/
def traced : Expr → StateM (List String) (Double ⊕ String)
  | .number a => pure (.inl a)
  | .binary .add left right => do
    let x ← traced left
    let y ← traced right
    pure (concat x y)
  | .identifier v => modifyGet fun trace => (.inr v.name, trace ++ [v.name])
  | _ => pure (.inr "")

def tracing : Evaluation (StateM (List String)) (Double ⊕ String) where
  eval := traced
  number := .inl
  add x y := pure (concat x y)
  eval_number _ := rfl
  eval_add _ _ := rfl
  add_number _ _ := rfl

/-- `1 + 2 + x + 3 + (4 + 5) + y` -/
def mixedSum : Expr :=
  let literal (n : Nat) : Expr := .number (.ofNat n)
  let plus (left right : Expr) : Expr := .binary .add left right
  let read (name : String) : Expr := .identifier ⟨name, .global name⟩
  plus (plus (plus (plus (plus (literal 1) (literal 2)) (read "x")) (literal 3))
    (plus (literal 4) (literal 5))) (read "y")

/-- Folded to `3 + x + 3 + 9 + y`. The second `3` is added to a string, so it is not added to the
`9`. -/
theorem eval_fold_mixedSum :
    ((tracing.eval mixedSum).run []).run = (.inr "3x39y", ["x", "y"]) ∧
    mixedSum.fold.summands.length = 5 ∧
      tracing.eval mixedSum.fold = tracing.eval mixedSum ∧
      Expr.Merges mixedSum.summands mixedSum.fold.summands :=
  ⟨by decide +kernel, rfl, tracing.eval_fold mixedSum⟩

end Evaluation

end StackCode
