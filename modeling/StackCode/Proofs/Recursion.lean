import Mathlib.Logic.Function.Iterate
import StackCode.Gen.Expression
import StackCode.Proofs.Tree.Depth

/-!
# Recursion, call by call

A recursive function is taken apart into what one call does, `once`, and the arguments at which it
calls itself, `calls`. How deep the recursion goes is then a question of `calls` alone: a bound that
goes down with every call is a bound on the number of calls inside of one another
(`IsRecursion.endsWithin`).

The compiler of expressions is such a function. It does not go on with the operands of an addition
but with what folding makes of them, which is no part of the expression. Still every call is at an
expression with fewer nodes.

## Termination as a statement

That the compiler is defined at all says that its recursion ends, but the bound in its definition is
of no use to anyone outside. Here the bound is a theorem, and about the recursion as it is: `calls`
are the arguments of the calls that are made, not those that the definition mentions. A call that is
made only after a refusal is not made.

`IsRecursion` is what ties `once` and `calls` to the function. The function does what `once` does
with itself for the recursive calls, and `once` asks for nothing but the results at `calls`. The
second part is what a bound on the depth rests on.

Nothing is said about the time that compiling takes. Folding an addition that is folded again at
every level may look at a node many times; how often is not bounded here.
-/

set_option autoImplicit false

namespace StackCode

section

variable {α β : Type} {F : α → β} {once : (α → β) → α → β} {calls : α → List α}

/-- `F` does `once` at every argument, and calls itself there only at `calls`. -/
structure IsRecursion (F : α → β) (once : (α → β) → α → β) (calls : α → List α) : Prop where
  /-- One call is `once`, with `F` for the calls inside. -/
  unfolds : ∀ a, F a = once F a
  /-- Nothing else than `calls` is asked of whatever stands for the calls inside. -/
  asks : ∀ a f g, (∀ b ∈ calls a, f b = g b) → once f a = once g a

/-- No more than `k` calls stand in one another at this argument: what a further one would give does
not matter. -/
def EndsWithin (F : α → β) (once : (α → β) → α → β) (k : Nat) (a : α) : Prop :=
  ∀ again, once^[k] again a = F a

/-- If a bound goes down with every call and is never zero, then so many calls are enough. -/
theorem IsRecursion.endsWithin (h : IsRecursion F once calls) {P : Nat → α → Prop}
    (hzero : ∀ a, ¬ P 0 a) (hcalls : ∀ k a, P (k + 1) a → ∀ b ∈ calls a, P k b) {k : Nat} {a : α}
    (ha : P k a) : EndsWithin F once k a := by
  intro again
  induction k generalizing a with
  | zero => exact absurd ha (hzero a)
  | succ k ih =>
    rw [Function.iterate_succ_apply', h.unfolds]
    exact h.asks _ _ _ fun b hb => ih (hcalls k a ha b hb)

end

namespace Gen

/-! ## One call of the compiler of expressions

The equations of the compiler with its recursive calls replaced by an argument. They repeat the
compiler, as they must; that they are the compiler is proved below. -/

/-- Compiles the callee of a call, with `again` for the expressions in it. -/
def functionOnce (again : Expr → Gen Unit) : Expr → Gen Unit
  | .identifier v => opAtom .callGlobal v.name
  | .member obj property => do
    again obj
    opAtom .callProp property
  | .index obj key => do
    again obj
    again key
    op .callElem
  | _ => refuse .callee

/-- Compiles arguments in order, with `again` for each of them. -/
def expressionsOnce (again : Expr → Gen Unit) : List Expr → Gen Unit
  | [] => pure ()
  | e :: es => do
    again e
    expressionsOnce again es

/-- Compiles the elements of an array from index `first` on, with `again` for each of them. -/
def elementsOnce (again : Expr → Gen Unit) (first : Nat) : List Expr → Gen Unit
  | [] => pure ()
  | e :: es => do
    number (Double.ofNat first)
    again e
    op .initElem
    elementsOnce again (first + 1) es

/-- Compiles an expression, with `again` for the expressions that it goes on with. -/
def expressionOnce (fold : Bool) (again : Expr → Gen Unit) (e : Expr) : Gen Unit :=
  match e with
  | .number value => number value
  | .string raw => do
    let text ← ofExcept (Literal.decode raw)
    opAtom .string text
  | .regExp .. => refuse .regExp
  | .null => op .pushNull
  | .boolean value => op (if value then .pushTrue else .pushFalse)
  | .this => op .pushThis
  | .identifier v => load v
  | .array items =>
    if items.any Option.isNone then refuse .arrayHole
    else if 4294967296 ≤ items.length then refuse .longArray
    else do
      opWith .newArray (.length items.length)
      elementsOnce again 0 (items.filterMap id)
      op .endInit
  | .object _ => refuse .objectLiteral
  | .binary .add left right =>
    if fold then
      match (Expr.binary .add left right).fold.operands? with
      | some (left', right') => do
        again left'
        again right'
        op .add
      | none => again (Expr.binary .add left right).fold
    else do
      again left
      again right
      op .add
  | .binary operator left right => do
    let opcode ← ofExcept operator.opcode
    again left
    again right
    op opcode
  | .unary operator argument => do
    let opcode ← ofExcept operator.opcode
    again argument
    op opcode
  | .update .decrement _ _ => refuse .decrement
  | .update .increment true _ => refuse .increment
  | .update .increment false argument =>
    match argument with
    | .identifier v => increment v
    | .member obj property => do
      again obj
      incrementProperty property
    | .index obj key => do
      again obj
      again key
      op .incElem
    | _ => refuse .incrementOperand
  | .assign .assign target value =>
    match target with
    | .identifier v => store v (again value)
    | .member obj property => do
      again obj
      again value
      opAtom .setProp property
    | .index obj key => do
      again obj
      again key
      again value
      op .setElem
    | _ => refuse .assignmentTarget
  | .assign operator _ _ => refuse (.compoundAssignment operator)
  | .call callee arguments => do
    let count ← ofExcept (Operand.ofArgCount arguments.length)
    functionOnce again callee
    expressionsOnce again arguments
    opWith .call count
  | .new callee arguments =>
    match callee with
    | .identifier v => do
      let count ← ofExcept (Operand.ofArgCount arguments.length)
      load v
      op .push
      expressionsOnce again arguments
      opWith .new count
    | _ => refuse .computedConstructor
  | .member obj property => do
    again obj
    opAtom .getProp property
  | .index obj key => do
    again obj
    again key
    op .getElem
  | .conditional test consequent alternate => do
    again test
    let otherwise ← newLabel
    let merge ← newLabel
    jump .ifEq otherwise
    again consequent
    jump .goto merge
    fix otherwise
    again alternate
    fix merge
  | .comma left right => do
    again left
    op .pop
    again right
  | .function .. => throw .nestedFunction

end Gen

/-! ## The calls

With folding, an addition goes on with the operands that folding leaves. -/

/-- The expressions in a property or an element of something, as it is assigned to, incremented or
called. -/
def Expr.referenceParts : Expr → List Expr
  | .member obj _ => [obj]
  | .index obj key => [obj, key]
  | _ => []

/-- The expressions that the compiler of expressions calls itself for, if it does not refuse the
expression before. In an addition these are what folding made of the operands, or of the whole
addition. -/
def Expr.calls (fold : Bool) : Expr → List Expr
  | .number _ | .string _ | .regExp _ _ | .null | .boolean _ | .this | .identifier _ | .object
    _ | .function _ _ _ => []
  | .array items => items.filterMap id
  | .binary .add left right =>
    if fold then
      match (Expr.binary .add left right).fold.operands? with
      | some (left', right') => [left', right']
      | none => [(Expr.binary .add left right).fold]
    else [left, right]
  | .binary _ left right => [left, right]
  | .unary _ argument => [argument]
  | .update _ _ argument => argument.referenceParts
  | .assign _ target value => value :: target.referenceParts
  | .call callee arguments => callee.referenceParts ++ arguments
  | .new _ arguments => arguments
  | .member obj _ => [obj]
  | .index obj key => [obj, key]
  | .conditional test consequent alternate => [test, consequent, alternate]
  | .comma left right => [left, right]

namespace Gen

theorem expressions_eq_once (fold : Bool) (es : List Expr) :
    expressions fold es = expressionsOnce (expression fold) es := by
  induction es with
  | nil => rw [expressions, expressionsOnce]
  | cons e es ih => rw [expressions, expressionsOnce, ih]

theorem elements_eq_once (fold : Bool) (first : Nat) (es : List Expr) :
    elements fold first es = elementsOnce (expression fold) first es := by
  induction es generalizing first with
  | nil => rw [elements, elementsOnce]
  | cons e es ih => rw [elements, elementsOnce, ih]

theorem function_eq_once (fold : Bool) (callee : Expr) :
    function fold callee = functionOnce (expression fold) callee := by
  cases callee <;> rw [function, functionOnce] <;> simp

/-- **The compiler is what one call does**, with itself for the calls in it. -/
theorem expression_eq_once (fold : Bool) (e : Expr) :
    expression fold e = expressionOnce fold (expression fold) e := by
  cases e with
  | array items =>
    rw [expression, expressionOnce]
    simp only [elements_eq_once]
  | binary operator left right =>
    -- With folding the compiler looks at what folding left, and so does one call.
    cases operator with
    | add =>
      rw [expression, expressionOnce]
      split
      · split <;> rename_i hoperands <;> rw [hoperands]
      · rfl
    | _ => rw [expression, expressionOnce] <;> simp
  | update operator isPrefix argument =>
    cases operator with
    | decrement => rw [expression, expressionOnce]
    | increment =>
      cases isPrefix with
      | true => rw [expression, expressionOnce]
      | false => cases argument <;> rw [expression, expressionOnce] <;> simp
  | assign operator target value =>
    cases operator with
    | assign => cases target <;> rw [expression, expressionOnce] <;> simp
    | _ => rw [expression, expressionOnce] <;> simp
  | call callee arguments => rw [expression, expressionOnce, function_eq_once, expressions_eq_once]
  | new callee arguments =>
    cases callee with
    | identifier v => rw [expression, expressionOnce, expressions_eq_once]
    | _ => rw [expression, expressionOnce] <;> simp
  | _ => rw [expression, expressionOnce]

section

variable {f g : Expr → Gen Unit}

theorem expressionsOnce_congr {es : List Expr} (h : ∀ e ∈ es, f e = g e) :
    expressionsOnce f es = expressionsOnce g es := by
  induction es with
  | nil => rfl
  | cons e es ih =>
    obtain ⟨he, hes⟩ := List.forall_mem_cons.mp h
    rw [expressionsOnce, expressionsOnce, he, ih hes]

theorem elementsOnce_congr {es : List Expr} (h : ∀ e ∈ es, f e = g e) (first : Nat) :
    elementsOnce f first es = elementsOnce g first es := by
  induction es generalizing first with
  | nil => rfl
  | cons e es ih =>
    obtain ⟨he, hes⟩ := List.forall_mem_cons.mp h
    rw [elementsOnce, elementsOnce, he, ih hes]

theorem functionOnce_congr {callee : Expr} (h : ∀ e ∈ callee.referenceParts, f e = g e) :
    functionOnce f callee = functionOnce g callee := by
  cases callee with
  | member _ _ | index _ _ =>
    simp only [Expr.referenceParts, List.forall_mem_cons] at h
    simp only [functionOnce, h]
  | _ => rfl

/-- The calls are all that the compiler asks for. -/
theorem expressionOnce_congr {fold : Bool} {e : Expr}
    (h : ∀ called ∈ e.calls fold, f called = g called) :
    expressionOnce fold f e = expressionOnce fold g e := by
  -- A call that is refused makes no further calls, and both sides are the same by definition.
  cases e with
  | array items =>
    have helements :
        elementsOnce f 0 (items.filterMap id) = elementsOnce g 0 (items.filterMap id) :=
      elementsOnce_congr h 0
    rw [expressionOnce, expressionOnce, helements]
  | binary operator left right =>
    cases operator with
    | add =>
      rw [Expr.calls] at h
      rw [expressionOnce, expressionOnce]
      split at h
      · rename_i hfold
        rw [if_pos hfold, if_pos hfold]
        split at h <;> simp only [List.forall_mem_cons] at h <;> simp only [h]
      · rename_i hfold
        rw [if_neg hfold, if_neg hfold]
        simp only [List.forall_mem_cons] at h
        simp only [h]
    | _ =>
      simp only [Expr.calls, List.forall_mem_cons] at h
      simp only [expressionOnce, h]
  | unary _ _ | member _ _ | index _ _ | conditional _ _ _ | comma _ _ =>
    simp only [Expr.calls, List.forall_mem_cons] at h
    simp only [expressionOnce, h]
  | update operator isPrefix argument =>
    cases operator with
    | decrement => rfl
    | increment =>
      cases isPrefix with
      | true => rfl
      | false =>
        cases argument with
        | member _ _ | index _ _ =>
          simp only [Expr.calls, Expr.referenceParts, List.forall_mem_cons] at h
          simp only [expressionOnce, h]
        | _ => rfl
  | assign operator target value =>
    cases operator with
    | assign =>
      cases target with
      | identifier _ | member _ _ | index _ _ =>
        simp only [Expr.calls, Expr.referenceParts, List.forall_mem_cons] at h
        simp only [expressionOnce, h]
      | _ => rfl
    | _ => rfl
  | call callee arguments =>
    obtain ⟨hcallee, harguments⟩ := List.forall_mem_append.mp h
    rw [expressionOnce, expressionOnce, functionOnce_congr hcallee,
      expressionsOnce_congr harguments]
  | new callee arguments =>
    have harguments : expressionsOnce f arguments = expressionsOnce g arguments :=
      expressionsOnce_congr h
    cases callee with
    | identifier v => rw [expressionOnce, expressionOnce, harguments]
    | _ => rfl
  | _ => rfl

end

theorem expression_isRecursion (fold : Bool) :
    IsRecursion (expression fold) (expressionOnce fold) (Expr.calls fold) where
  unfolds := expression_eq_once fold
  asks _ _ _ h := expressionOnce_congr h

end Gen

/-! ## Every call is at fewer nodes

A part has fewer nodes than the whole, and folding adds none. -/

namespace Expr

/-- An expression is an operand, an element, an argument or the like of another one, or a part of
such. -/
def IsPart (part e : Expr) : Prop :=
  Relation.TransGen (fun e part : Expr => .expr part ∈ e.children) e part

theorem listSize_properties (properties : List (String × Expr)) :
    listSize (properties.map Prod.snd) = propertiesSize properties := by
  induction properties with
  | nil => rfl
  | cons property properties ih => rw [List.map_cons, listSize, ih, propertiesSize, propertySize]

theorem size_lt_of_mem_children {e part : Expr} (h : .expr part ∈ e.children) :
    part.size < e.size := by
  cases e with
  | array items =>
    have hmem : part ∈ items.filterMap id := by simpa [children] using h
    have hle := size_le_listSize hmem
    rw [listSize_filterMap_id] at hle
    rw [size]
    omega
  | object properties =>
    have hmem : part ∈ properties.map Prod.snd := by simpa [children] using h
    have hle := size_le_listSize hmem
    rw [listSize_properties] at hle
    rw [size]
    omega
  | call callee arguments | new callee arguments =>
    have hmem : part = callee ∨ part ∈ arguments := by simpa [children] using h
    rw [size]
    rcases hmem with rfl | hmem
    · omega
    · have hle := size_le_listSize hmem
      omega
  | function name scope body => simp [children] at h
  | number _ | string _ | regExp _ _ | null | boolean _ | this | identifier _ => cases h
  | _ =>
    simp only [children, List.mem_cons, TreeNode.expr.injEq, List.not_mem_nil, or_false] at h
    simp only [size]
    grind

theorem IsPart.size_lt {part e : Expr} (h : part.IsPart e) : part.size < e.size := by
  induction h with
  | single hchild => exact size_lt_of_mem_children hchild
  | tail _ hchild ih => exact Nat.lt_trans (size_lt_of_mem_children hchild) ih

theorem mem_children_of_referenceParts {e part : Expr} (h : part ∈ e.referenceParts) :
    .expr part ∈ e.children := by
  cases e with
  | member _ _ | index _ _ => exact List.mem_map_of_mem (f := TreeNode.expr) h
  | _ => cases h

theorem isPart_of_operands? {e left right : Expr} (h : e.operands? = some (left, right)) :
    left.IsPart e ∧ right.IsPart e := by
  cases e with
  | binary operator left' right' =>
    cases h
    exact ⟨.single (.head _), .single (.tail _ (.head _))⟩
  | _ => cases h

/-- What the compiler calls itself for is a part of the expression, or of what folding made of it,
or, in a sum of literals, all that folding left. -/
theorem mem_calls {fold : Bool} {e called : Expr} (h : called ∈ e.calls fold) :
    called.IsPart e ∨ called.IsPart e.fold ∨
      ∃ left right, e = .binary .add left right ∧ called = e.fold ∧ e.fold.operands? = none := by
  cases e with
  | array _ | unary _ _ | member _ _ | index _ _ | conditional _ _ _ | comma _ _ =>
    exact .inl (.single (List.mem_map_of_mem (f := TreeNode.expr) h))
  | binary operator left right =>
    cases operator with
    | add =>
      rw [calls] at h
      split at h
      · split at h
        · rename_i left' right' hoperands
          obtain ⟨hleft, hright⟩ := isPart_of_operands? hoperands
          simp only [List.mem_cons, List.not_mem_nil, or_false] at h
          rcases h with rfl | rfl
          · exact .inr (.inl hleft)
          · exact .inr (.inl hright)
        · -- Nothing but a literal is left of the addition, which is compiled in its place.
          rename_i hoperands
          exact .inr (.inr ⟨left, right, rfl, List.mem_singleton.mp h, hoperands⟩)
      · exact .inl (.single (List.mem_map_of_mem (f := TreeNode.expr) h))
    | _ => exact .inl (.single (List.mem_map_of_mem (f := TreeNode.expr) h))
  | update operator isPrefix argument =>
    exact .inl (.tail (.single (.head _)) (mem_children_of_referenceParts h))
  | assign operator target value =>
    rcases List.mem_cons.mp h with rfl | h
    · exact .inl (.single (.tail _ (.head _)))
    · exact .inl (.tail (.single (.head _)) (mem_children_of_referenceParts h))
  | call callee arguments =>
    rcases List.mem_append.mp h with h | h
    · exact .inl (.tail (.single (.head _)) (mem_children_of_referenceParts h))
    · exact .inl (.single (.tail _ (List.mem_map_of_mem h)))
  | new callee arguments => exact .inl (.single (.tail _ (List.mem_map_of_mem h)))
  | _ => cases h

theorem size_lt_of_mem_calls {fold : Bool} {e called : Expr} (h : called ∈ e.calls fold) :
    called.size < e.size := by
  obtain hpart | hpart | ⟨left, right, rfl, rfl, hoperands⟩ := mem_calls h
  · exact hpart.size_lt
  · exact Nat.lt_of_lt_of_le hpart.size_lt e.fold_size_le
  · exact fold_size_lt_of_operands?_eq_none hoperands

end Expr

/-- **Compiling an expression ends, with folding and without.** Folding adds no nodes, so that every
expression for which the compiler calls itself has fewer nodes than the one at hand, also where it
is the work of folding. No more calls stand in one another than there are nodes. -/
theorem expression_recursion_ends (fold : Bool) :
    (∀ e : Expr, e.fold.size ≤ e.size) ∧
    IsRecursion (Gen.expression fold) (Gen.expressionOnce fold) (Expr.calls fold) ∧
    (∀ e : Expr, ∀ called ∈ e.calls fold, called.size < e.size) ∧
    WellFounded (fun called e : Expr => called ∈ e.calls fold) ∧
    ∀ e : Expr, EndsWithin (Gen.expression fold) (Gen.expressionOnce fold) e.size e := by
  have hrecursion := Gen.expression_isRecursion fold
  refine ⟨Expr.fold_size_le, hrecursion, fun e called hcalled => Expr.size_lt_of_mem_calls hcalled,
    ?_, fun e => ?_⟩
  · exact Subrelation.wf Expr.size_lt_of_mem_calls (measure Expr.size).wf
  · refine hrecursion.endsWithin (P := fun k e => e.size ≤ k) ?_ ?_ (Nat.le_refl _)
    · intro e hle
      exact absurd e.size_pos (Nat.not_lt.mpr hle)
    · intro k e hle called hcalled
      exact Nat.le_of_lt_succ (Nat.lt_of_lt_of_le (Expr.size_lt_of_mem_calls hcalled) hle)

end StackCode
