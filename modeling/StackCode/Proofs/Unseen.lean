import StackCode.Generator
import StackCode.Proofs.Tree.Map

/-!
# Changes that the compiler does not see

A change of a tree may leave the code that is generated as it was. Whether it does is asked at the
nodes where the change does something (`Change.Unseen`): a number literal is pushed by the same
instruction, the callee of a call keeps its name, any other variable its binding, and a binary
operation is compiled to the same steps.

From that follows the same for every tree: the changed expression, the changed statement and the
changed script are compiled by the same steps (`Gen.expression_map`, `Gen.statement_map`,
`Program.compile_map`). The flag of the compiler may differ between the two sides, so that a change
can also do what the compiler does on its own.

The induction over trees is made here, once for all changes. Which changes are unseen is left to the
files that define them. The condition on binary operations takes the induction hypothesis for all
expressions of the size of an operand and not only for the operands, since a compiler that folds
goes on with other operands than those of the tree.

Equality is that of steps, which are functions on units. So the two compilations agree on every unit
they are run on, in what they leave behind as well as in their results, and also where they fail.

What is not covered is a change that the compiler does see but whose code does the same, such as
another order of operands. For that the machine would have to be asked, and steps would not be
equal.
-/

set_option autoImplicit false

namespace StackCode

/-- Compiling changed trees under `fold'` is compiling trees under `fold`, as far as the nodes are
concerned at which the change does something. -/
structure Change.Unseen (m : Change) (fold fold' : Bool) : Prop where
  number : ∀ value, Gen.number (m.onNumber value) = Gen.number value
  name_onCallee : ∀ v, (m.onCallee v).name = v.name
  binding_onReference : ∀ v, (m.onReference v).binding = v.binding
  binary : ∀ op (left right : Expr),
    (∀ e : Expr, e.size ≤ left.size → Gen.expression fold' (e.map m) = Gen.expression fold e) →
    (∀ e : Expr, e.size ≤ right.size → Gen.expression fold' (e.map m) = Gen.expression fold e) →
    Gen.expression fold' (m.onBinary op (left.map m) (right.map m)) =
      Gen.expression fold (.binary op left right)

/-! ## Steps that look at one node

The compiler tells what to do from the outermost node of an expression; each of the following lemmas
says so of one step of code generation. -/

namespace Gen

theorem load_congr {v w : Variable} (h : v.binding = w.binding) : load v = load w := by
  unfold load
  rw [h]

theorem store_congr {v w : Variable} (h : v.binding = w.binding) (value : Gen Unit) :
    store v value = store w value := by
  unfold store
  rw [h]

theorem increment_congr {v w : Variable} (h : v.binding = w.binding) :
    increment v = increment w := by
  unfold increment
  rw [h, load_congr h, store_congr h]

/-- Compound assignments are refused before target and value are looked at. -/
theorem expression_compound {operator : AssignOp} (h : operator ≠ .assign) (fold : Bool)
    (target value : Expr) :
    expression fold (.assign operator target value) = refuse (.compoundAssignment operator) := by
  rw [expression]
  exact h

section

variable {e : Expr} (fold : Bool)

theorem expression_increment_of_not_reference (h : e.isReference = false) :
    expression fold (.update .increment false e) = refuse .incrementOperand := by
  rw [expression]
  · rintro v rfl
    cases h
  · rintro object property rfl
    cases h
  · rintro object key rfl
    cases h

/-- Only a reference can be assigned to. The value is not looked at in this case. -/
theorem expression_assign_of_not_reference (h : e.isReference = false) (value : Expr) :
    expression fold (.assign .assign e value) = refuse .assignmentTarget := by
  rw [expression]
  · rintro v rfl
    cases h
  · rintro object property rfl
    cases h
  · rintro object key rfl
    cases h

/-- Only a reference can be called. -/
theorem function_of_not_reference (h : e.isReference = false) :
    function fold e = refuse .callee := by
  rw [function]
  · rintro v rfl
    cases h
  · rintro object property rfl
    cases h
  · rintro object key rfl
    cases h

theorem expression_new_of_not_identifier (h : e.isIdentifier = false) (arguments : List Expr) :
    expression fold (.new e arguments) = refuse .computedConstructor := by
  rw [expression]
  rintro v rfl
  cases h

end

/-! ## Expressions

The recursion is on the size of the expression, along the recursion of the compiler. Where the
compiler looks below the outermost node, at targets and callees, the case is split in the same way,
and what is left is refused on both sides. -/

section

variable {m : Change} {fold fold' : Bool}

mutual

/-- **A changed expression is compiled by the same steps.** -/
theorem expression_map (h : m.Unseen fold fold') (e : Expr) :
    expression fold' (e.map m) = expression fold e := by
  cases e with
  | number value => rw [Expr.map, expression, expression, h.number]
  | string raw => rw [Expr.map, expression, expression]
  | regExp pattern flags => rw [Expr.map, expression, expression]
  | null => rw [Expr.map, expression, expression]
  | boolean value => rw [Expr.map, expression, expression]
  | this => rw [Expr.map, expression, expression]
  | identifier v =>
    rw [Expr.map, expression, expression, load_congr (h.binding_onReference v)]
  | array items =>
    rw [Expr.map, expression, expression, Expr.any_isNone_mapElements, Expr.length_mapElements,
      Expr.filterMap_mapElements, elements_map h 0 (items.filterMap id)]
  | object properties => rw [Expr.map, expression, expression]
  | binary operator left right =>
    -- The one node that a change may rebuild. What is known of smaller expressions is handed over,
    -- since the compiler may go on with operands that are not in the tree.
    rw [Expr.map]
    exact h.binary operator left right (fun e hle => expression_map h e)
      (fun e hle => expression_map h e)
  | unary operator argument =>
    rw [Expr.map, expression, expression, expression_map h argument]
  | update operator before argument =>
    cases operator with
    | decrement => rw [Expr.map, expression, expression]
    | increment =>
      cases before with
      | true => rw [Expr.map, expression, expression]
      | false =>
        -- A change keeps references, so both sides are refused or neither is.
        cases hargument : argument.isReference with
        | false =>
          rw [Expr.map, expression_increment_of_not_reference _ hargument,
            expression_increment_of_not_reference _ ((argument.isReference_map m).trans hargument)]
        | true =>
          cases argument with
          | identifier v =>
            rw [Expr.map, Expr.map, expression, expression,
              increment_congr (h.binding_onReference v)]
          | member object property =>
            rw [Expr.map, Expr.map, expression, expression, expression_map h object]
          | index object key =>
            rw [Expr.map, Expr.map, expression, expression, expression_map h object,
              expression_map h key]
          | _ => cases hargument
  | assign operator target value =>
    by_cases hop : operator = .assign
    · subst hop
      cases htarget : target.isReference with
      | false =>
        rw [Expr.map, expression_assign_of_not_reference _ htarget,
          expression_assign_of_not_reference _ ((target.isReference_map m).trans htarget)]
      | true =>
        cases target with
        | identifier v =>
          rw [Expr.map, Expr.map, expression, expression, store_congr (h.binding_onReference v),
            expression_map h value]
        | member object property =>
          rw [Expr.map, Expr.map, expression, expression, expression_map h object,
            expression_map h value]
        | index object key =>
          rw [Expr.map, Expr.map, expression, expression, expression_map h object,
            expression_map h key, expression_map h value]
        | _ => cases htarget
    · rw [Expr.map, expression_compound hop, expression_compound hop]
  | call callee arguments =>
    -- The callee has an equation of its own, as its variable is looked up by name.
    rw [Expr.map_call, expression, expression, Expr.length_mapList, function_map h callee,
      expressions_map h arguments]
  | new callee arguments =>
    cases hcallee : callee.isIdentifier with
    | false =>
      rw [Expr.map, expression_new_of_not_identifier _ hcallee,
        expression_new_of_not_identifier _ ((callee.isIdentifier_map m).trans hcallee)]
    | true =>
      cases callee with
      | identifier v =>
        rw [Expr.map, Expr.map, expression, expression, load_congr (h.binding_onReference v),
          Expr.length_mapList, expressions_map h arguments]
      | _ => cases hcallee
  | member object property => rw [Expr.map, expression, expression, expression_map h object]
  | index object key =>
    rw [Expr.map, expression, expression, expression_map h object, expression_map h key]
  | conditional test consequent alternate =>
    rw [Expr.map, expression, expression, expression_map h test, expression_map h consequent,
      expression_map h alternate]
  | comma left right =>
    rw [Expr.map, expression, expression, expression_map h left, expression_map h right]
  | function name scope body => rw [Expr.map, expression, expression]
termination_by 2 * e.size
decreasing_by
  all_goals
    simp only [Expr.size, Expr.listSize_filterMap_id] at *
    omega

theorem function_map (h : m.Unseen fold fold') (callee : Expr) :
    function fold' (callee.mapCallee m) = function fold callee := by
  cases hcallee : callee.isReference with
  | false =>
    rw [function_of_not_reference _ hcallee,
      function_of_not_reference _ ((callee.isReference_mapCallee m).trans hcallee)]
  | true =>
    cases callee with
    -- The one place where the name of a variable is looked at.
    | identifier v => rw [Expr.mapCallee, function, function, h.name_onCallee]
    | member object property =>
      rw [Expr.mapCallee, Expr.map, function, function, expression_map h object]
      exact nofun
    | index object key =>
      rw [Expr.mapCallee, Expr.map, function, function, expression_map h object,
        expression_map h key]
      exact nofun
    | _ => cases hcallee
termination_by 2 * callee.size + 1
decreasing_by
  all_goals
    simp only [Expr.size]
    omega

theorem expressions_map (h : m.Unseen fold fold') (es : List Expr) :
    expressions fold' (Expr.mapList m es) = expressions fold es := by
  cases es with
  | nil => rw [Expr.mapList, expressions, expressions]
  | cons e es =>
    rw [Expr.mapList, expressions, expressions, expression_map h e, expressions_map h es]
termination_by 2 * Expr.listSize es + 1
decreasing_by
  all_goals simp only [Expr.listSize]
  · omega
  · have := e.size_pos
    omega

/-- The elements of an array literal, with the same indices. -/
theorem elements_map (h : m.Unseen fold fold') (first : Nat) (es : List Expr) :
    elements fold' first (Expr.mapList m es) = elements fold first es := by
  cases es with
  | nil => rw [Expr.mapList, elements, elements]
  | cons e es =>
    rw [Expr.mapList, elements, elements, expression_map h e, elements_map h (first + 1) es]
termination_by 2 * Expr.listSize es + 1
decreasing_by
  all_goals simp only [Expr.listSize]
  · omega
  · have := e.size_pos
    omega

end

/-! ## Statements -/

theorem declarators_map (h : m.Unseen fold fold') (ds : List (Variable × Option Expr)) :
    declarators fold' (Stmt.mapDeclarators m ds) = declarators fold ds := by
  induction ds with
  | nil => rfl
  | cons d ds ih =>
    obtain ⟨v, init⟩ := d
    cases init with
    | none => exact ih
    | some init =>
      rw [Stmt.mapDeclarators, Stmt.mapDeclarator, Expr.mapOption, declarators, declarators,
        store_congr (h.binding_onReference v), expression_map h, ih]

theorem declaration_map (h : m.Unseen fold fold') (kind : DeclarationKind)
    (ds : List (Variable × Option Expr)) :
    declaration fold' kind (Stmt.mapDeclarators m ds) = declaration fold kind ds := by
  cases kind with
  | var => exact declarators_map h ds
  | lexical => rfl
  | constant => rfl

theorem forInit_map (h : m.Unseen fold fold') (init : Option Stmt) :
    forInit fold' (Stmt.mapOption m init) = forInit fold init := by
  cases init with
  | none => rfl
  | some s =>
    cases s with
    | declaration kind ds => exact declaration_map h kind ds
    | expression value => rw [Stmt.mapOption, Stmt.map, forInit, forInit, expression_map h]
    | _ => rfl

theorem forUpdate_map (h : m.Unseen fold fold') (update : Option Expr) :
    forUpdate fold' (Expr.mapOption m update) = forUpdate fold update := by
  cases update with
  | none => rfl
  | some e => rw [Expr.mapOption, forUpdate, forUpdate, expression_map h]

theorem forTest_map (h : m.Unseen fold fold') (exit : Label) (test : Option Expr) :
    forTest fold' exit (Expr.mapOption m test) = forTest fold exit test := by
  cases test with
  | none => rfl
  | some e => rw [Expr.mapOption, forTest, forTest, expression_map h]

mutual

/-- **A changed statement is compiled by the same steps.** -/
theorem statement_map (h : m.Unseen fold fold') (toplevel : Bool) (s : Stmt) :
    statement { toplevel, fold := fold' } (s.map m) = statement { toplevel, fold } s := by
  cases s with
  | empty => rfl
  | block body => exact statements_map h toplevel body
  | expression value => rw [Stmt.map, statement, statement, expression_map h]
  | declaration kind ds => exact declaration_map h kind ds
  | function name line scope body => rfl
  | branch test consequent alternate =>
    rw [Stmt.map, statement, statement, expression_map h, statement_map h toplevel consequent,
      optional_map h toplevel alternate]
  | whileLoop test body =>
    rw [Stmt.map, statement, statement, expression_map h, statement_map h toplevel body]
  | forLoop init test update body =>
    simp only [Stmt.map, statement, forInit_map h, forTest_map h, forUpdate_map h,
      statement_map h toplevel body]
  | giveBack argument =>
    cases argument with
    | none => rfl
    | some e => rw [Stmt.map, Expr.mapOption, statement, statement, expression_map h]
  | breakLoop => rfl
  | continueLoop => rfl
  | doWhile body test => rfl
  | forIn left right body => rfl
  | switch discriminant cases => rfl
  | tryCatch block handler finalizer => rfl
  | throw argument => rfl
  | within object body => rfl
  | labeled label body => rfl

theorem optional_map (h : m.Unseen fold fold') (toplevel : Bool) (s : Option Stmt) :
    optional { toplevel, fold := fold' } (Stmt.mapOption m s) = optional { toplevel, fold } s := by
  cases s with
  | none => rfl
  | some s => exact statement_map h toplevel s

theorem statements_map (h : m.Unseen fold fold') (toplevel : Bool) (ss : List Stmt) :
    statements { toplevel, fold := fold' } (Stmt.mapList m ss) =
      statements { toplevel, fold } ss := by
  cases ss with
  | nil => rfl
  | cons s ss =>
    rw [Stmt.mapList, statements, statements, statement_map h toplevel s,
      statements_map h toplevel ss]

end

end

end Gen

/-! ## Scripts

The units of the changed script are the changed units of the script: a change neither moves a
declaration nor touches what is declared. -/

section

variable (m : Change)

namespace Stmt

mutual

/-- The functions that a statement declares are changed with it, and no function is gained or
lost. -/
theorem functions_map (s : Stmt) : (s.map m).functions = s.functions.map (FunctionDecl.map m) := by
  cases s with
  | function name line scope body => rfl
  | block body =>
    rw [map, functions, functions]
    exact functionsOfList_map body
  | branch test consequent alternate =>
    rw [map, functions, functions, functions_map consequent, functionsOfOption_map alternate,
      List.map_append]
  | whileLoop test body =>
    rw [map, functions, functions]
    exact functions_map body
  | forLoop init test update body =>
    rw [map, functions, functions]
    exact functions_map body
  | _ => rfl

theorem functionsOfOption_map (s : Option Stmt) :
    functionsOfOption (mapOption m s) = (functionsOfOption s).map (FunctionDecl.map m) := by
  cases s with
  | none => rfl
  | some s => exact functions_map s

theorem functionsOfList_map (ss : List Stmt) :
    functionsOfList (mapList m ss) = (functionsOfList ss).map (FunctionDecl.map m) := by
  cases ss with
  | nil => rfl
  | cons s ss =>
    rw [mapList, functionsOfList, functionsOfList, functions_map s, functionsOfList_map ss,
      List.map_append]

end

end Stmt

theorem Program.functions_map (p : Program) :
    (p.map m).functions = p.functions.map (FunctionDecl.map m) :=
  Stmt.functionsOfList_map m p.body

end

section

variable {m : Change} {fold fold' : Bool} (h : m.Unseen fold fold')

include h

/-- The unit of a changed function is that of the function. -/
theorem FunctionDecl.compile_map (f : FunctionDecl) (filename : String) :
    (f.map m).compile filename fold' = f.compile filename fold := by
  unfold compile map
  rw [Gen.statements_map h]

/-- The unit of the changed top level is that of the top level. -/
theorem Program.compileToplevel_map (p : Program) :
    (p.map m).compileToplevel fold' = p.compileToplevel fold := by
  unfold compileToplevel map
  rw [Gen.statements_map h]

/-- **A changed script compiles to the same object file, or fails with the same error.** -/
theorem Program.compile_map (p : Program) : (p.map m).compile fold' = p.compile fold := by
  have hunits : (p.map m).unitResults fold' = p.unitResults fold := by
    unfold unitResults
    rw [p.functions_map, List.map_map, p.compileToplevel_map h]
    congr 1
    apply List.map_congr_left
    intro f _
    show UnitResult.mk _ _ ((f.map m).compile p.filename fold') = _
    rw [f.compile_map h]
    rfl
  unfold compile
  rw [hunits]
  rfl

end

end StackCode
