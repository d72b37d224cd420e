import StackCode.Proofs.DeepFold
import StackCode.Proofs.Layout.Control

/-!
# The code of a unit is its layout

Every expression and every statement compiles to its layout (`compiles_expression`,
`compiles_statement`), one case for each kind of node. A unit is a step run on an empty draft, so
its code is the layout of its body at position 0, followed by `stop`.

The recursion is the one of the compiler: over the tree, with lists of expressions and statements
beside it. There is no induction hypothesis about units, labels or stacks, since `Compiles` holds
for every unit. Each case is put together from the cases of the parts with the lemmas on sequences,
branches and loops, and what remains is that the compiler and the layout write the same
instructions.

Folding is off throughout. With folding on, an addition of two literals is one literal, and that is
reduced to a change of the tree in another file; here it would double the cases for nothing.

The statement about units is an equivalence in effect: a unit is refused exactly if the layout of
its body is, and with the same error. What the layout is refused for is then a question about trees.
-/

set_option autoImplicit false

namespace StackCode

namespace Gen

/-- One more instruction in front of straight-line code. -/
theorem Compiles.cons {m m' : Gen Unit} {o : Op} {ops : List Op} (h : Compiles m (.ofOps [o]))
    (h' : Compiles m' (.ofOps ops)) : Compiles (do m; m') (.ofOps (o :: ops)) := by
  have := h.seq h'
  rwa [Layout.ofOps_append] at this

theorem Compiles.seq₃ {m₁ m₂ m₃ : Gen Unit} {p₁ p₂ p₃ : Layout} (h₁ : Compiles m₁ p₁)
    (h₂ : Compiles m₂ p₂) (h₃ : Compiles m₃ p₃) : Compiles (do m₁; m₂; m₃) (p₁ ++ p₂ ++ p₃) := by
  rw [Layout.append_assoc]
  exact h₁.seq (h₂.seq h₃)

theorem Compiles.seq₄ {m₁ m₂ m₃ m₄ : Gen Unit} {p₁ p₂ p₃ p₄ : Layout} (h₁ : Compiles m₁ p₁)
    (h₂ : Compiles m₂ p₂) (h₃ : Compiles m₃ p₃) (h₄ : Compiles m₄ p₄) :
    Compiles (do m₁; m₂; m₃; m₄) (p₁ ++ p₂ ++ p₃ ++ p₄) := by
  rw [Layout.append_assoc]
  exact h₁.seq₃ h₂ (h₃.seq h₄)

/-! ## Numbers and variables

The instruction for a number is chosen by its value, and the one for a variable by its kind. Both
choices are the same in compiler and layout, so the proofs are case distinctions. -/

theorem isPlain_of_integer? {i : Instruction} {n : Int}
    (h : (Op.ofInstruction i).integer? = some n) :
    i.operand.all Operand.isPlain = true := by
  obtain ⟨opcode, operand⟩ := i
  cases operand with
  | none => rfl
  | some operand =>
    cases operand with
    | atom index => cases opcode <;> cases h
    | label l => cases opcode <;> cases h
    | _ => rfl

/-- A number is pushed by the instruction that is chosen for it, or refused if there is none. -/
theorem compiles_number (value : Double) : Compiles (number value) (.number value) := by
  unfold number Layout.number
  cases h : Instruction.ofNumber value with
  | ok i =>
    obtain ⟨n, _, hpush⟩ := Op.integer?_ofNumber h
    exact compiles_emit (isPlain_of_integer? hpush)
  | error e => exact compiles_throw e

theorem compiles_load (v : Variable) : Compiles (load v) (.ofOps [v.load]) := by
  unfold load Variable.load
  cases v.binding with
  | parameter slot => exact compiles_opWith .getArg (.slot slot) rfl
  | localSlot slot => exact compiles_opWith .getLocal (.slot slot) rfl
  | global name => exact compiles_opAtom .getGlobal name

/-- What has to be pushed before the value is pushed before it. -/
theorem compiles_store (v : Variable) {value : Gen Unit} {p : Layout} (h : Compiles value p) :
    Compiles (store v value) (v.store p) := by
  unfold store Variable.store Variable.target Variable.write
  cases v.binding with
  | parameter slot =>
    rw [Layout.append_assoc, ← Layout.nothing, Layout.nothing_append]
    exact h.seq (compiles_opWith .setArg (.slot slot) rfl)
  | localSlot slot =>
    rw [Layout.append_assoc, ← Layout.nothing, Layout.nothing_append]
    exact h.seq (compiles_opWith .setLocal (.slot slot) rfl)
  | global name => exact (compiles_opAtom .bindGlobal name).seq₃ h (compiles_opAtom .setGlobal name)

theorem compiles_increment (v : Variable) : Compiles (increment v) (.ofOps v.increment) := by
  unfold increment Variable.increment store Variable.target Variable.write load Variable.load
  cases v.binding with
  | parameter slot =>
    have hload := compiles_opWith .getArg (.slot slot) rfl
    have hstore := compiles_opWith .setArg (.slot slot) rfl
    exact hload.cons (hload.cons ((compiles_op .one).cons ((compiles_op .add).cons
      (hstore.cons (compiles_op .pop)))))
  | localSlot slot =>
    have hload := compiles_opWith .getLocal (.slot slot) rfl
    have hstore := compiles_opWith .setLocal (.slot slot) rfl
    exact hload.cons (hload.cons ((compiles_op .one).cons ((compiles_op .add).cons
      (hstore.cons (compiles_op .pop)))))
  | global name =>
    have hload := compiles_opAtom .getGlobal name
    exact hload.cons ((compiles_opAtom .bindGlobal name).cons (hload.cons ((compiles_op .one).cons
      ((compiles_op .add).cons ((compiles_opAtom .setGlobal name).cons (compiles_op .pop))))))

theorem compiles_incrementProperty (property : String) :
    Compiles (incrementProperty property) (.ofOps (Op.incrementProperty property)) :=
  (compiles_op .dup).cons ((compiles_opAtom .getProp property).cons ((compiles_op .one).cons
    ((compiles_op .add).cons ((compiles_opAtom .setProp property).cons
      ((compiles_op .one).cons (compiles_op .sub))))))

/-! ## Expressions -/

theorem isPlain_ofArgCount {n : Nat} {count : Operand} (h : Operand.ofArgCount n = .ok count) :
    count.isPlain = true := by
  unfold Operand.ofArgCount at h
  split at h
  · cases h
    rfl
  · cases h

mutual

/-- **Every expression compiles to its layout.** -/
theorem compiles_expression (e : Expr) : Compiles (expression false e) e.layout := by
  cases e with
  | number value =>
    rw [expression, Expr.layout]
    exact compiles_number value
  | string raw =>
    rw [expression, Expr.layout]
    exact Compiles.given fun s _ => compiles_opAtom .string s
  | regExp pattern flags =>
    rw [expression, Expr.layout]
    exact compiles_refuse .regExp
  | null =>
    rw [expression, Expr.layout]
    exact compiles_op .pushNull
  | boolean value =>
    rw [expression, Expr.layout]
    exact compiles_op _
  | this =>
    rw [expression, Expr.layout]
    exact compiles_op .pushThis
  | identifier v =>
    rw [expression, Expr.layout]
    exact compiles_load v
  | array items =>
    rw [expression, Expr.layout]
    split
    · exact compiles_refuse .arrayHole
    · split
      · exact compiles_refuse .longArray
      · exact (compiles_opWith .newArray (.length items.length) rfl).seq₃
          (compiles_elements 0 items)
          (compiles_op .endInit)
  | object properties =>
    rw [expression, Expr.layout]
    exact compiles_refuse .objectLiteral
  | binary operator left right =>
    have hleft := compiles_expression left
    have hright := compiles_expression right
    rw [Expr.layout]
    -- An addition has equations of its own in the compiler, since it may be folded.
    by_cases hop : operator = .add
    · subst hop
      rw [expression_add_false]
      exact hleft.seq₃ hright (compiles_op .add)
    · rw [expression_binary hop]
      exact Compiles.given fun opcode _ => hleft.seq₃ hright (compiles_op opcode)
  | unary operator argument =>
    rw [expression, Expr.layout]
    exact Compiles.given fun opcode _ => (compiles_expression argument).seq (compiles_op opcode)
  | update operator before argument =>
    cases operator with
    | decrement =>
      rw [expression, Expr.layout]
      exact compiles_refuse .decrement
    | increment =>
      cases before with
      | true =>
        rw [expression, Expr.layout]
        exact compiles_refuse .increment
      | false =>
        rw [Expr.layout]
        exact compiles_increment_of argument
  | assign operator target value =>
    by_cases hop : operator = .assign
    · subst hop
      rw [Expr.layout]
      exact compiles_assign_to target (compiles_expression value)
    · rw [expression_compound hop, Expr.layout]
      · exact compiles_refuse (.compoundAssignment operator)
      · exact hop
  | call callee arguments =>
    rw [expression, Expr.layout]
    refine Compiles.given fun count hcount => ?_
    exact (compiles_function callee).seq₃ (compiles_expressions arguments)
      (compiles_opWith .call count (isPlain_ofArgCount hcount))
  | new callee arguments =>
    -- A variable is constructed, and every other callee is refused by the same equation.
    cases callee with
    | identifier v =>
      rw [expression, Expr.layout]
      refine Compiles.given fun count hcount => ?_
      have := (compiles_load v).seq₄ (compiles_op .push) (compiles_expressions arguments)
        (compiles_opWith .new count (isPlain_ofArgCount hcount))
      rwa [Layout.ofOps_append] at this
    | _ =>
      rw [expression_new_of_not_identifier _ rfl, Expr.layout]
      · exact compiles_refuse .computedConstructor
      all_goals
        intros
        contradiction
  | member object property =>
    rw [expression, Expr.layout]
    exact (compiles_expression object).seq (compiles_opAtom .getProp property)
  | index object key =>
    rw [expression, Expr.layout]
    exact (compiles_expression object).seq₃ (compiles_expression key) (compiles_op .getElem)
  | conditional test consequent alternate =>
    rw [expression, Expr.layout]
    exact (compiles_expression test).branch (compiles_expression consequent)
      (compiles_expression alternate)
  | comma left right =>
    rw [expression, Expr.layout]
    exact (compiles_expression left).seq₃ (compiles_op .pop) (compiles_expression right)
  | function name scope body =>
    rw [expression, Expr.layout]
    exact compiles_throw .nestedFunction

/-- An increment of a variable, a property or an element; every other argument is refused. -/
theorem compiles_increment_of (argument : Expr) :
    Compiles (expression false (.update .increment false argument)) argument.incrementLayout := by
  cases argument with
  | identifier v =>
    rw [expression, Expr.incrementLayout]
    exact compiles_increment v
  | member object property =>
    rw [expression, Expr.incrementLayout]
    exact (compiles_expression object).seq (compiles_incrementProperty property)
  | index object key =>
    rw [expression, Expr.incrementLayout]
    exact (compiles_expression object).seq₃ (compiles_expression key) (compiles_op .incElem)
  | _ =>
    rw [expression_increment_of_not_reference _ rfl, Expr.incrementLayout]
    · exact compiles_refuse .incrementOperand
    all_goals
      intros
      contradiction

/-- An assignment to a variable, a property or an element; every other target is refused. -/
theorem compiles_assign_to (target : Expr) {value : Expr}
    (hvalue : Compiles (expression false value) value.layout) :
    Compiles (expression false (.assign .assign target value))
      (target.assignLayout value.layout) := by
  cases target with
  | identifier v =>
    rw [expression, Expr.assignLayout]
    exact compiles_store v hvalue
  | member object property =>
    rw [expression, Expr.assignLayout]
    exact (compiles_expression object).seq₃ hvalue (compiles_opAtom .setProp property)
  | index object key =>
    rw [expression, Expr.assignLayout]
    exact (compiles_expression object).seq₄ (compiles_expression key) hvalue (compiles_op .setElem)
  | _ =>
    rw [expression_assign_of_not_reference _ rfl, Expr.assignLayout]
    · exact compiles_refuse .assignmentTarget
    all_goals
      intros
      contradiction

/-- A callee with its receiver: a bare name, a property or an element; every other callee is
refused. -/
theorem compiles_function (callee : Expr) :
    Compiles (function false callee) callee.functionLayout := by
  cases callee with
  | identifier v =>
    rw [function, Expr.functionLayout]
    exact compiles_opAtom .callGlobal v.name
  | member object property =>
    rw [function, Expr.functionLayout]
    exact (compiles_expression object).seq (compiles_opAtom .callProp property)
  | index object key =>
    rw [function, Expr.functionLayout]
    exact (compiles_expression object).seq₃ (compiles_expression key) (compiles_op .callElem)
  | _ =>
    rw [function_of_not_reference _ rfl, Expr.functionLayout]
    · exact compiles_refuse .callee
    all_goals
      intros
      contradiction

theorem compiles_expressions (es : List Expr) :
    Compiles (expressions false es) (Expr.listLayout es) := by
  cases es with
  | nil =>
    rw [expressions, Expr.listLayout]
    exact compiles_pure
  | cons e es =>
    rw [expressions, Expr.listLayout]
    exact (compiles_expression e).seq (compiles_expressions es)

/-- The elements of an array. The compiler drops the holes before it numbers the elements and the
layout skips them while it does. -/
theorem compiles_elements (first : Nat) (items : List (Option Expr)) :
    Compiles (elements false first (items.filterMap id)) (Expr.elementsLayout first items) := by
  cases items with
  | nil =>
    rw [List.filterMap_nil, elements, Expr.elementsLayout]
    exact compiles_pure
  | cons item items =>
    cases item with
    | none =>
      rw [List.filterMap_cons_none rfl, Expr.elementsLayout]
      exact compiles_elements first items
    | some e =>
      rw [List.filterMap_cons_some (f := id) rfl, elements, Expr.elementsLayout]
      exact (compiles_number _).seq₄ (compiles_expression e) (compiles_op .initElem)
        (compiles_elements (first + 1) items)

end

/-! ## Statements -/

/-- A declarator without initializer writes no code. -/
theorem compiles_declarators (ds : List (Variable × Option Expr)) :
    Compiles (declarators false ds) (Stmt.declaratorsLayout ds) := by
  induction ds with
  | nil => exact compiles_pure
  | cons d ds ih =>
    obtain ⟨v, init⟩ := d
    cases init with
    | none => exact ih
    | some init => exact (compiles_store v (compiles_expression init)).seq₃ (compiles_op .pop) ih

theorem compiles_declaration (kind : DeclarationKind) (ds : List (Variable × Option Expr)) :
    Compiles (declaration false kind ds) (Stmt.declarationLayout kind ds) := by
  cases kind with
  | var => exact compiles_declarators ds
  | lexical => exact compiles_refuse .lexicalDeclaration
  | constant => exact compiles_refuse .constantDeclaration

theorem compiles_forInit (init : Option Stmt) :
    Compiles (forInit false init) (Stmt.forInitLayout init) := by
  cases init with
  | none => exact compiles_pure
  | some s =>
    cases s with
    | empty => exact compiles_pure
    | declaration kind ds => exact compiles_declaration kind ds
    | expression value => exact (compiles_expression value).seq (compiles_op .pop)
    | _ => exact compiles_refuse .forInitializer

theorem compiles_forUpdate (update : Option Expr) :
    Compiles (forUpdate false update) (Stmt.forUpdateLayout update) := by
  cases update with
  | none => exact compiles_pure
  | some e => exact (compiles_expression e).seq (compiles_op .pop)

/-- The test of a `for` loop, if there is one. The labels of the loop are known already. -/
theorem yields_forTest (test : Option Expr) (d : Draft) (loops : LoopStack) (loop : Loop)
    (hk : d.Knows (loops.push loop)) :
    Yields (forTest false loop.exit test) (d.unit (loops.push loop))
      ((Layout.guard (test.map Expr.layout)).refusal true) (loops.push loop)
      (d.Places (.guard (test.map Expr.layout)) (loops.push loop)) := by
  cases test with
  | none => exact compiles_pure d _ hk
  | some e => exact yields_guard (compiles_expression e) hk

mutual

/-- **Every statement compiles to its layout.** -/
theorem compiles_statement (toplevel : Bool) (s : Stmt) :
    Compiles (statement { toplevel, fold := false } s) (s.layout toplevel) := by
  cases s with
  | empty => exact compiles_pure
  | block body => exact compiles_statements toplevel body
  | expression value => exact (compiles_expression value).seq (compiles_op _)
  | declaration kind ds => exact compiles_declaration kind ds
  | function name line scope body =>
    cases toplevel with
    | true => exact compiles_pure
    | false => exact compiles_throw .nestedFunction
  | branch test consequent alternate =>
    exact (compiles_expression test).branch (compiles_statement toplevel consequent)
      (compiles_optional toplevel alternate)
  | whileLoop test body =>
    exact (compiles_expression test).whileLoop (compiles_statement toplevel body)
  | forLoop init test update body =>
    exact (compiles_forInit init).forLoop (compiles_forUpdate update) (yields_forTest test)
      (compiles_statement toplevel body)
  | breakLoop => exact compiles_break
  | continueLoop => exact compiles_continue
  | giveBack argument =>
    cases argument with
    | none => exact (compiles_op .push).cons (compiles_op .ret)
    | some e => exact (compiles_expression e).seq (compiles_op .ret)
  | doWhile body test => exact compiles_refuse .doWhile
  | forIn left right body => exact compiles_refuse .forIn
  | switch discriminant cases => exact compiles_refuse .switch
  | tryCatch block handler finalizer => exact compiles_refuse .tryCatch
  | throw argument => exact compiles_refuse .throw
  | within object body => exact compiles_refuse .within
  | labeled label body => exact compiles_refuse .labeled

theorem compiles_optional (toplevel : Bool) (s : Option Stmt) :
    Compiles (optional { toplevel, fold := false } s) (Stmt.optionLayout toplevel s) := by
  cases s with
  | none => exact compiles_pure
  | some s => exact compiles_statement toplevel s

theorem compiles_statements (toplevel : Bool) (ss : List Stmt) :
    Compiles (statements { toplevel, fold := false } ss) (Stmt.listLayout toplevel ss) := by
  cases ss with
  | nil => exact compiles_pure
  | cons s ss => exact (compiles_statement toplevel s).seq (compiles_statements toplevel ss)

end

end Gen

/-! ## Units -/

namespace Draft

/-- When every label has a position, the second pass shows what the reading of the draft says. -/
theorem resolve_instruction {d : Draft} {fixed : List Nat} (hpos : d.positions = fixed.map some)
    (t : LoopTargets) {line : Line} (hline : line ∈ d.lines) (hfinal : line.isFinal = true) :
    (line.instruction d.position?).resolve d.atoms = line.read (d.reading t) ∧
      (line.instruction d.position?).isUnresolved = false := by
  cases line with
  | plain i => exact ⟨rfl, by simpa [Line.isFinal, Line.instruction] using hfinal⟩
  | stray opcode l => cases hfinal
  | jump opcode l =>
    have hlt := d.allocated opcode l hline
    obtain ⟨p, hp⟩ : ∃ p, d.position? l = some p := by
      rw [hpos, List.length_map] at hlt
      exact ⟨fixed[l.index], by simp [position?, hpos, hlt]⟩
    simp only [Line.instruction, Line.read, reading, hp]
    exact ⟨rfl, rfl⟩

/-- Closing a draft in which all is resolved. -/
theorem close_of_final {d : Draft} {fixed : List Nat} (hpos : d.positions = fixed.map some)
    (hfinal : ∀ line ∈ d.lines, line.isFinal = true) :
    ∃ closed, d.toAssembler.close = .ok closed ∧
      ∀ t, closed.ops = d.lines.map (Line.read (d.reading t)) ++ [.bare .stop] := by
  refine ⟨_, (d.close_eq_ok_iff _).mpr ⟨?_, ?_, rfl⟩, ?_⟩
  · intro l hl
    rw [hpos, List.length_map] at hl
    exact ⟨fixed[l.index], by simp [position?, hpos, hl]⟩
  · intro i hi l hl
    obtain ⟨line, hline, rfl⟩ : ∃ line ∈ d.lines, line.instruction d.position? = i := by
      simpa [toAssembler] using hi
    have hun := (resolve_instruction hpos ⟨0, 0⟩ hline (hfinal line hline)).2
    rw [isUnresolved_iff.mpr ⟨l, hl⟩] at hun
    cases hun
  · intro t
    have hlines : d.lines.map (Instruction.resolve d.atoms ∘ Line.instruction d.position?) =
        d.lines.map (Line.read (d.reading t)) :=
      List.map_congr_left fun line hline => (resolve_instruction hpos t hline (hfinal line hline)).1
    simp [CodeUnit.ops, toAssembler, hlines, Instruction.resolve, Op.bare]

end Draft

/-- `result` is what a unit with the layout `plan` comes out as: refused with the same error, or the
code of `plan` at position 0 and `stop`. No loop is around the body of a unit, so that it does not
matter for which targets the code is taken. -/
def Layout.IsCodeOf (plan : Layout) (result : Except Error CodeUnit) : Prop :=
  match plan.refusal false with
  | some e => result = .error e
  | none => ∃ unit, result = .ok unit ∧ unit.code.size = plan.size + 1 ∧
      ∀ t, unit.ops = plan.code t 0 ++ [.bare .stop]

section

variable {unit unit' : OpenUnit} {m : Gen Unit}

theorem OpenUnit.build_of_error {e : Error} (h : (m.exec unit).1 = .error e) :
    unit.build m = .error e := by
  show (match m.exec unit with
    | (.ok (), unit) => unit.finish
    | (.error e, _) => .error e) = .error e
  cases hm : m.exec unit with
  | mk result after =>
    rw [hm] at h
    cases h
    rfl

theorem OpenUnit.build_of_ok (h : m.exec unit = (.ok (), unit')) : unit.build m = unit'.finish := by
  show (match m.exec unit with
    | (.ok (), unit) => unit.finish
    | (.error e, _) => .error e) = unit'.finish
  rw [h]

end

/-- A step that compiles to a layout makes a unit that is the code of the layout at position 0,
outside of all loops. -/
theorem Gen.Compiles.isCodeOf_build {m : Gen Unit} {plan : Layout} (h : Compiles m plan)
    (scope : Scope) (filename : String) (line : UInt32) :
    plan.IsCodeOf (OpenUnit.build { asm := { scope, filename, line } } m) := by
  let d := Draft.start scope filename line
  have hrun := h d {} (by intro loop hloop; cases hloop)
  unfold Layout.IsCodeOf
  change Yields m (d.unit {}) (plan.refusal false) {} (d.Places plan {}) at hrun
  cases hrefusal : plan.refusal false with
  | some e =>
    rw [hrefusal] at hrun
    exact OpenUnit.build_of_error hrun
  | none =>
    rw [hrefusal] at hrun
    obtain ⟨d', hexec, hadds, fixed, hfixed⟩ := hrun
    obtain ⟨new, hnew, hfinal, hread⟩ := hadds.lines
    -- The draft was empty, so all of its lines are new ones.
    have hlines : d'.lines = new := hnew
    rw [← hlines] at hfinal
    obtain ⟨closed, hclosed, hops⟩ := Draft.close_of_final hfixed hfinal
    have hcode : ∀ t, closed.ops = plan.code t 0 ++ [.bare .stop] := by
      intro t
      rw [hops, hlines, hread _ (d'.readBy_reading t)]
      rfl
    refine ⟨closed, (OpenUnit.build_of_ok hexec).trans hclosed, ?_, hcode⟩
    have hlen := congrArg List.length (hcode ⟨0, 0⟩)
    simpa [CodeUnit.ops] using hlen

/-- **Backpatched code is laid out code.** Without folding, the top level of a script and the body
of a function are refused exactly if their layout is. Otherwise the code of the unit, with atoms
read as strings, is the layout of the body at position 0 followed by `stop`; its length is that of
the layout, which depends on neither place nor loops. -/
theorem code_eq_layout :
    (∀ p : Program, (Stmt.listLayout true p.body).IsCodeOf (p.compileToplevel false)) ∧
    ∀ (f : FunctionDecl) (filename : String),
      (Stmt.listLayout false f.body).IsCodeOf (f.compile filename false) :=
  ⟨fun p => (Gen.compiles_statements true p.body).isCodeOf_build p.scope p.filename p.line,
    fun f filename => (Gen.compiles_statements false f.body).isCodeOf_build f.scope filename f.line⟩

/-- `while (true) { while (false) continue; break; }`: each jump goes to the innermost loop around
it. -/
example :
    ((Stmt.whileLoop (.boolean true)
      (.block [.whileLoop (.boolean false) .continueLoop, .breakLoop])).layout true).code ⟨0, 0⟩ 0 =
      [.bare .pushTrue, .jump .ifEq 8, .bare .pushFalse, .jump .ifEq 6, .jump .goto 2,
        .jump .goto 2, .jump .goto 8, .jump .goto 0] := by
  decide

end StackCode
