import StackCode.Proofs.Atoms.Units
import StackCode.Proofs.Layout.Supported

/-!
# The top level and the body of a function

The value of an expression statement is dropped. At the top level it is dropped by `popv`, which
keeps it as the value of the script, and in a function by `pop`. Statements that declare no function
are otherwise compiled alike in both places.

`Layout.dropValues` puts `pop` in the place of `popv`. It goes through every way of putting layouts
together and changes no code of an expression, so the layout of a statement in a function is that of
the top level with its values dropped (`Stmt.layout_false`). What is refused is the same, and so are
the strings of the code and with them the table of atoms.

## Exactly one operation

There are two parts to it. One is that nothing else differs, which is an equation between the unit
of a function and the unit of the top level with its values dropped. The other is that the top level
keeps as many values as there are expression statements, at any depth; without it, `popv` might not
occur at all and the equation would say that the two are the same.

The expressions that a `for` starts with and is updated by are no expression statements. Their
values are dropped by `pop` in both places.

Statements that declare a function are left out, as they must be: at the top level a function
declaration is compiled to nothing, and in a function it is refused.
-/

set_option autoImplicit false

namespace StackCode

/-! ## Dropping values

On operations, instructions, units and layouts alike. On layouts the equations below push it to the
leaves. -/

/-- The operation that keeps no value for the script. -/
def OpCode.dropValue : OpCode → OpCode
  | .popv => .pop
  | opcode => opcode

@[simp] theorem OpCode.dropValue_popv : OpCode.popv.dropValue = .pop :=
  rfl

@[simp] theorem OpCode.dropValue_of_ne {opcode : OpCode} (h : opcode ≠ .popv) :
    opcode.dropValue = opcode := by
  unfold dropValue
  split
  · exact absurd rfl h
  · rfl

theorem OpCode.dropValue_ne_popv (opcode : OpCode) : opcode.dropValue ≠ .popv := by
  by_cases h : opcode = .popv
  · rw [h]
    nofun
  · rw [dropValue_of_ne h]
    exact h

def Op.dropValue (o : Op) : Op :=
  { o with opcode := o.opcode.dropValue }

section

variable (opcode : OpCode)

@[simp] theorem Op.dropValue_bare : (bare opcode).dropValue = bare opcode.dropValue :=
  rfl

@[simp] theorem Op.dropValue_text (s : String) :
    (text opcode s).dropValue = text opcode.dropValue s :=
  rfl

@[simp] theorem Op.dropValue_operand (o : Operand) :
    (operand opcode o).dropValue = operand opcode.dropValue o :=
  rfl

@[simp] theorem Op.dropValue_jump (target : Nat) :
    (jump opcode target).dropValue = jump opcode.dropValue target :=
  rfl

end

def Instruction.dropValue (i : Instruction) : Instruction :=
  { i with opcode := i.opcode.dropValue }

/-- The unit with `pop` in the place of every `popv`. -/
def CodeUnit.dropValues (unit : CodeUnit) : CodeUnit :=
  { unit with code := unit.code.map Instruction.dropValue }

/-- Dropping values does not touch operands, so it can be done before or after they are resolved. -/
theorem CodeUnit.ops_dropValues (unit : CodeUnit) :
    unit.dropValues.ops = unit.ops.map Op.dropValue := by
  simp [ops, dropValues, Function.comp_def, Instruction.dropValue,
    Instruction.resolve, Op.dropValue]

/-- No value is kept afterwards. -/
theorem CodeUnit.popv_notMem_dropValues (unit : CodeUnit) :
    OpCode.popv ∉ unit.dropValues.opcodes := by
  intro h
  simp only [opcodes, dropValues, Array.toList_map, List.map_map, List.mem_map,
    Function.comp_apply] at h
  obtain ⟨i, _, hi⟩ := h
  exact i.opcode.dropValue_ne_popv hi

namespace Layout

/-- The layout with `pop` in the place of every `popv`. -/
def dropValues (plan : Layout) : Layout where
  refusal := plan.refusal
  size := plan.size
  code t a := (plan.code t a).map Op.dropValue
  length_code t a := by simp

section

variable (p q r : Layout)

@[simp] theorem dropValues_ofOps (ops : List Op) :
    (ofOps ops).dropValues = ofOps (ops.map Op.dropValue) :=
  Layout.ext rfl (List.length_map _).symm rfl

/-- Dropping values in a sequence is dropping them in both parts. Sizes do not change, so neither do
targets. -/
@[simp] theorem dropValues_append : (p ++ q).dropValues = p.dropValues ++ q.dropValues := by
  refine Layout.ext rfl rfl ?_
  funext t a
  exact List.map_append

@[simp] theorem dropValues_branch :
    (branch p q r).dropValues = branch p.dropValues q.dropValues r.dropValues := by
  refine Layout.ext rfl rfl ?_
  funext t a
  simp [branch, dropValues]

@[simp] theorem dropValues_guard (test : Option Layout) :
    (guard test).dropValues = guard (test.map dropValues) := by
  cases test with
  | none => rfl
  | some test =>
    refine Layout.ext rfl rfl ?_
    funext t a
    exact List.map_append

@[simp] theorem dropValues_whileLoop :
    (whileLoop p q).dropValues = whileLoop p.dropValues q.dropValues := by
  refine Layout.ext rfl rfl ?_
  funext t a
  simp [whileLoop, guard, dropValues]

@[simp] theorem dropValues_forLoop (test : Option Layout) :
    (forLoop p q test r).dropValues =
      forLoop p.dropValues q.dropValues (test.map dropValues) r.dropValues := by
  have hguard := dropValues_guard test
  refine Layout.ext ?_ ?_ ?_
  · simp only [forLoop, ← hguard]
    rfl
  · simp only [forLoop, ← hguard]
    rfl
  · -- The guard is one layout on both sides, so that its size is the same term.
    funext t a
    simp [forLoop, ← hguard, dropValues]

/-- What depends on a result drops no value if it does not for any result. -/
theorem dropValues_given {α : Type} {result : Except Error α} {plan : α → Layout}
    (h : ∀ a, result = .ok a → (plan a).dropValues = plan a) :
    (given result plan).dropValues = given result plan := by
  cases result with
  | ok a => exact h a rfl
  | error e => rfl

theorem dropValues_number (value : Double) : (number value).dropValues = number value := by
  unfold number
  cases hi : Instruction.ofNumber value with
  | error e => rfl
  | ok i =>
    obtain ⟨n, _, hn⟩ := Op.integer?_ofNumber hi
    -- An instruction that pushes an integer is no `popv`.
    have hkeep : (Op.ofInstruction i).dropValue = Op.ofInstruction i := by
      rcases Op.integer?_eq_some hn with ⟨h, _⟩ | ⟨v, h, _⟩ | ⟨v, h, _⟩ | ⟨v, h, _⟩ |
        ⟨v, h, _⟩ <;> simp [h]
    simp [hkeep]

end

end Layout

/-! ## Expressions keep no value

No instruction of an expression is `popv`: neither those of operators nor those of variables nor
those that are written for the form itself. -/

theorem BinaryOp.opcode_ne_popv {op : BinaryOp} {opcode : OpCode} (h : op.opcode = .ok opcode) :
    opcode ≠ .popv := by
  cases op <;> cases h <;> nofun

theorem UnaryOp.opcode_ne_popv {op : UnaryOp} {opcode : OpCode} (h : op.opcode = .ok opcode) :
    opcode ≠ .popv := by
  cases op <;> cases h
  nofun

namespace Variable

variable (v : Variable)

@[simp] theorem dropValue_load : v.load.dropValue = v.load := by
  unfold load
  split <;> rfl

@[simp] theorem dropValue_write : v.write.dropValue = v.write := by
  unfold write
  split <;> rfl

@[simp] theorem dropValue_target : v.target.map Op.dropValue = v.target := by
  unfold target
  split <;> rfl

theorem dropValues_store {value : Layout} (h : value.dropValues = value) :
    (v.store value).dropValues = v.store value := by
  simp [store, h]

theorem dropValue_increment : v.increment.map Op.dropValue = v.increment := by
  simp [increment]

end Variable

namespace Expr

open Layout (dropValues_given dropValues_number)

mutual

/-- The code of an expression has no `popv`. -/
theorem dropValues_layout (e : Expr) : e.layout.dropValues = e.layout := by
  cases e with
  | number value => exact dropValues_number value
  | string raw => exact dropValues_given fun s _ => rfl
  | boolean value => cases value <;> rfl
  | identifier v => simp [layout]
  | array items =>
    rw [layout]
    split
    · rfl
    · split
      · rfl
      · simp [dropValues_elementsLayout 0 items]
  | binary op left right =>
    refine dropValues_given fun opcode hop => ?_
    simp [dropValues_layout left, dropValues_layout right, BinaryOp.opcode_ne_popv hop]
  | unary op argument =>
    refine dropValues_given fun opcode hop => ?_
    simp [dropValues_layout argument, UnaryOp.opcode_ne_popv hop]
  | update op before argument =>
    cases op with
    | decrement => rfl
    | increment =>
      cases before with
      | true => rfl
      | false => exact dropValues_incrementLayout argument
  | assign op target value =>
    cases op with
    | assign => exact dropValues_assignLayout target (dropValues_layout value)
    | _ => rfl
  | call callee arguments =>
    refine dropValues_given fun count _ => ?_
    simp [dropValues_functionLayout callee, dropValues_listLayout arguments]
  | new callee arguments =>
    cases callee with
    | identifier v =>
      refine dropValues_given fun count _ => ?_
      simp [dropValues_listLayout arguments]
    | _ => rfl
  | member obj property =>
    simp [layout, dropValues_layout obj]
  | index obj key =>
    simp [layout, dropValues_layout obj, dropValues_layout key]
  | conditional test consequent alternate =>
    simp [layout, dropValues_layout test, dropValues_layout consequent, dropValues_layout alternate]
  | comma left right =>
    simp [layout, dropValues_layout left, dropValues_layout right]
  | _ => rfl

theorem dropValues_incrementLayout (e : Expr) :
    e.incrementLayout.dropValues = e.incrementLayout := by
  cases e with
  | identifier v => simp [incrementLayout, v.dropValue_increment]
  | member obj property =>
    simp [incrementLayout, Op.incrementProperty, dropValues_layout obj]
  | index obj key =>
    simp [incrementLayout, dropValues_layout obj, dropValues_layout key]
  | _ => rfl

theorem dropValues_assignLayout (target : Expr) {value : Layout} (h : value.dropValues = value) :
    (target.assignLayout value).dropValues = target.assignLayout value := by
  cases target with
  | identifier v => exact v.dropValues_store h
  | member obj property =>
    simp [assignLayout, dropValues_layout obj, h]
  | index obj key =>
    simp [assignLayout, dropValues_layout obj, dropValues_layout key, h]
  | _ => rfl

theorem dropValues_functionLayout (e : Expr) : e.functionLayout.dropValues = e.functionLayout := by
  cases e with
  | member obj property =>
    simp [functionLayout, dropValues_layout obj]
  | index obj key =>
    simp [functionLayout, dropValues_layout obj, dropValues_layout key]
  | _ => rfl

theorem dropValues_listLayout (es : List Expr) : (listLayout es).dropValues = listLayout es := by
  cases es with
  | nil => rfl
  | cons e es => simp [listLayout, dropValues_layout e, dropValues_listLayout es]

theorem dropValues_elementsLayout (first : Nat) (items : List (Option Expr)) :
    (elementsLayout first items).dropValues = elementsLayout first items := by
  cases items with
  | nil => rfl
  | cons item items =>
    cases item with
    | none => exact dropValues_elementsLayout first items
    | some e =>
      simp [elementsLayout, dropValues_number, dropValues_layout e,
        dropValues_elementsLayout (first + 1) items]

end

end Expr

/-! ## Statements

An expression statement is where the two places differ, and the other statements hand the difference
down. -/

namespace Stmt

theorem dropValues_declaratorsLayout (ds : List (Variable × Option Expr)) :
    (declaratorsLayout ds).dropValues = declaratorsLayout ds := by
  induction ds with
  | nil => rfl
  | cons d ds ih =>
    obtain ⟨v, init⟩ := d
    cases init with
    | none => exact ih
    | some init => simp [declaratorsLayout, v.dropValues_store init.dropValues_layout, ih]

theorem dropValues_declarationLayout (kind : DeclarationKind) (ds : List (Variable × Option Expr)) :
    (declarationLayout kind ds).dropValues = declarationLayout kind ds := by
  cases kind with
  | var => exact dropValues_declaratorsLayout ds
  | _ => rfl

/-- What a `for` starts with drops its value in the same way everywhere. -/
theorem dropValues_forInitLayout (init : Option Stmt) :
    (forInitLayout init).dropValues = forInitLayout init := by
  cases init with
  | none => rfl
  | some s =>
    cases s with
    | declaration kind ds => exact dropValues_declarationLayout kind ds
    | expression value => simp [forInitLayout, value.dropValues_layout]
    | _ => rfl

theorem dropValues_forUpdateLayout (update : Option Expr) :
    (forUpdateLayout update).dropValues = forUpdateLayout update := by
  cases update with
  | none => rfl
  | some update => simp [forUpdateLayout, update.dropValues_layout]

theorem dropValues_test (test : Option Expr) :
    (test.map Expr.layout).map Layout.dropValues = test.map Expr.layout := by
  cases test with
  | none => rfl
  | some test => simp [test.dropValues_layout]

mutual

/-- **A statement in a function** is laid out as at the top level, with its values dropped. -/
theorem layout_false (s : Stmt) (h : s.functions = []) :
    s.layout false = (s.layout true).dropValues := by
  cases s with
  | block body => exact listLayout_false body h
  | expression value => simp [layout, value.dropValues_layout]
  | declaration kind ds => exact (dropValues_declarationLayout kind ds).symm
  | function name line scope body => cases h
  | branch test consequent alternate =>
    obtain ⟨hconsequent, halternate⟩ := List.append_eq_nil_iff.mp h
    simp [layout, test.dropValues_layout, layout_false consequent hconsequent,
      optionLayout_false alternate halternate]
  | whileLoop test body => simp [layout, test.dropValues_layout, layout_false body h]
  | forLoop init test update body =>
    simp only [layout, Layout.dropValues_forLoop, dropValues_forInitLayout,
      dropValues_forUpdateLayout, dropValues_test, layout_false body h]
  | giveBack argument =>
    cases argument with
    | none => rfl
    | some argument => simp [layout, argument.dropValues_layout]
  | _ => rfl

theorem optionLayout_false (s : Option Stmt) (h : functionsOfOption s = []) :
    optionLayout false s = (optionLayout true s).dropValues := by
  cases s with
  | none => rfl
  | some s => exact layout_false s h

theorem listLayout_false (ss : List Stmt) (h : functionsOfList ss = []) :
    listLayout false ss = (listLayout true ss).dropValues := by
  cases ss with
  | nil => rfl
  | cons s ss =>
    obtain ⟨hs, hss⟩ := List.append_eq_nil_iff.mp h
    simp [listLayout, layout_false s hs, listLayout_false ss hss]

end

end Stmt

/-! ## Expression statements

Counted in the tree, and then in the code. The counts agree for trees that are accepted; a tree that
is refused has no code to count in. -/

mutual

/-- The expressions that stand as statements of the unit, at any depth. What a `for` starts with is
no statement of its own. -/
def Stmt.expressionStatements : Stmt → List Expr
  | .expression value => [value]
  | .block body => Stmt.expressionStatementsOfList body
  | .branch _ consequent alternate =>
    consequent.expressionStatements ++ Stmt.expressionStatementsOfOption alternate
  | .whileLoop _ body | .doWhile body _ | .forLoop _ _ _ body | .forIn _ _ body
  | .within _ body | .labeled _ body => body.expressionStatements
  | .switch _ cases => Stmt.expressionStatementsOfCases cases
  | .tryCatch body handler finalizer =>
    Stmt.expressionStatementsOfList body ++ Stmt.expressionStatementsOfBlock handler ++
      Stmt.expressionStatementsOfBlock finalizer
  | _ => []

def Stmt.expressionStatementsOfOption : Option Stmt → List Expr
  | none => []
  | some s => s.expressionStatements

def Stmt.expressionStatementsOfList : List Stmt → List Expr
  | [] => []
  | s :: ss => s.expressionStatements ++ Stmt.expressionStatementsOfList ss

def Stmt.expressionStatementsOfBlock : Option (List Stmt) → List Expr
  | none => []
  | some ss => Stmt.expressionStatementsOfList ss

def Stmt.expressionStatementsOfCases : List (Option Expr × List Stmt) → List Expr
  | [] => []
  | (_, body) :: cases =>
    Stmt.expressionStatementsOfList body ++ Stmt.expressionStatementsOfCases cases

end

namespace Stmt

variable (m : Change)

mutual

/-- A change keeps the statements and changes what they evaluate. -/
theorem expressionStatements_map (s : Stmt) :
    (s.map m).expressionStatements = s.expressionStatements.map (Expr.map m) := by
  cases s with
  | expression value => rfl
  | block body => exact expressionStatementsOfList_map body
  | branch test consequent alternate =>
    simp [map, expressionStatements, expressionStatements_map consequent,
      expressionStatementsOfOption_map alternate]
  | whileLoop test body => exact expressionStatements_map body
  | doWhile body test => exact expressionStatements_map body
  | forLoop init test update body => exact expressionStatements_map body
  | forIn left right body => exact expressionStatements_map body
  | within object body => exact expressionStatements_map body
  | labeled label body => exact expressionStatements_map body
  | switch discriminant cases => exact expressionStatementsOfCases_map cases
  | tryCatch body handler finalizer =>
    simp [map, expressionStatements, expressionStatementsOfList_map body,
      expressionStatementsOfBlock_map handler, expressionStatementsOfBlock_map finalizer]
  | _ => rfl

theorem expressionStatementsOfOption_map (s : Option Stmt) :
    expressionStatementsOfOption (mapOption m s) =
      (expressionStatementsOfOption s).map (Expr.map m) := by
  cases s with
  | none => rfl
  | some s => exact expressionStatements_map s

theorem expressionStatementsOfList_map (ss : List Stmt) :
    expressionStatementsOfList (mapList m ss) =
      (expressionStatementsOfList ss).map (Expr.map m) := by
  cases ss with
  | nil => rfl
  | cons s ss =>
    simp [mapList, expressionStatementsOfList, expressionStatements_map s,
      expressionStatementsOfList_map ss]

theorem expressionStatementsOfBlock_map (ss : Option (List Stmt)) :
    expressionStatementsOfBlock (mapBlock m ss) =
      (expressionStatementsOfBlock ss).map (Expr.map m) := by
  cases ss with
  | none => rfl
  | some ss => exact expressionStatementsOfList_map ss

theorem expressionStatementsOfCases_map (cases : List (Option Expr × List Stmt)) :
    expressionStatementsOfCases (mapCases m cases) =
      (expressionStatementsOfCases cases).map (Expr.map m) := by
  cases cases with
  | nil => rfl
  | cons c cs =>
    obtain ⟨test, body⟩ := c
    simp [mapCases, mapCase, expressionStatementsOfCases, expressionStatementsOfList_map body,
      expressionStatementsOfCases_map cs]

end

end Stmt

/-- Wherever the code is placed, it keeps `n` values for the script. -/
def Layout.Keeps (n : Nat) (plan : Layout) : Prop :=
  ∀ t a, ((plan.code t a).map Op.opcode).count .popv = n

namespace Layout.Keeps

variable {p q r : Layout} {n m k : Nat}

/-- Code that dropping values does not change keeps none. -/
theorem of_dropValues (h : p.dropValues = p) : p.Keeps 0 := by
  intro t a
  rw [← h, List.count_eq_zero]
  show _ ∉ ((p.code t a).map Op.dropValue).map Op.opcode
  rw [List.map_map, List.mem_map]
  rintro ⟨o, _, ho⟩
  exact o.opcode.dropValue_ne_popv ho

theorem append (hp : p.Keeps n) (hq : q.Keeps m) : (p ++ q).Keeps (n + m) := by
  intro t a
  simp [hp t, hq t]

/-- Both parts of a branch count, although only one of them is run. -/
theorem branch (hp : p.Keeps n) (hq : q.Keeps m) (hr : r.Keeps k) :
    (branch p q r).Keeps (n + m + k) := by
  intro t a
  simp [Layout.branch, hp t, hq t, hr t, Op.jump, Op.operand, Nat.add_assoc]

theorem guard {test : Option Layout} (h : ∀ p ∈ test, p.Keeps 0) : (guard test).Keeps 0 := by
  cases test with
  | none => exact fun _ _ => rfl
  | some p =>
    intro t a
    simp [Layout.guard, h p rfl t, Op.jump, Op.operand]

theorem whileLoop (hp : p.Keeps 0) (hq : q.Keeps n) : (whileLoop p q).Keeps n := by
  have hguard : (Layout.guard (some p)).Keeps 0 := guard (by simpa using hp)
  intro t a
  simp [Layout.whileLoop, hguard _, hq _, Op.jump, Op.operand]

theorem forLoop {test : Option Layout} (hp : p.Keeps 0) (hq : q.Keeps 0)
    (htest : ∀ p ∈ test, p.Keeps 0) (hr : r.Keeps n) : (forLoop p q test r).Keeps n := by
  have hguard := guard htest
  intro t a
  simp [Layout.forLoop, hguard _, hp _, hq _, hr _, Op.jump, Op.operand]

end Layout.Keeps

namespace Stmt

theorem keeps_declarationLayout (kind : DeclarationKind) (ds : List (Variable × Option Expr)) :
    (declarationLayout kind ds).Keeps 0 :=
  .of_dropValues (dropValues_declarationLayout kind ds)

theorem keeps_optionLayout {s : Option Stmt}
    (h : ∀ s', s = some s' → (s'.layout true).Keeps s'.expressionStatements.length) :
    (optionLayout true s).Keeps (expressionStatementsOfOption s).length := by
  cases s with
  | none => exact .of_dropValues rfl
  | some s => exact h s rfl

/-- Statements in order keep what each of them keeps. -/
theorem keeps_listLayout {ss : List Stmt}
    (h : ∀ s ∈ ss, (s.layout true).Keeps s.expressionStatements.length) :
    (listLayout true ss).Keeps (expressionStatementsOfList ss).length := by
  induction ss with
  | nil => exact .of_dropValues rfl
  | cons s ss ih =>
    obtain ⟨hs, hss⟩ := List.forall_mem_cons.mp h
    rw [expressionStatementsOfList, List.length_append]
    exact hs.append (ih hss)

/-- **The top level keeps the value of every expression statement**, and no other value. -/
theorem Supported.keeps {inLoop : Bool} {s : Stmt} (h : s.Supported true inLoop) :
    (s.layout true).Keeps s.expressionStatements.length := by
  have hexpr (e : Expr) : e.layout.Keeps 0 := .of_dropValues e.dropValues_layout
  induction h with
  | empty => exact .of_dropValues rfl
  | block _ ih => exact keeps_listLayout ih
  | @expression _ value _ => exact (hexpr value).append fun _ _ => rfl
  | @declaration _ ds _ => exact keeps_declarationLayout .var ds
  | function => exact .of_dropValues rfl
  | @branch _ test consequent alternate _ _ _ ihc iha =>
    -- The test keeps no value, which is the zero in front.
    rw [expressionStatements, List.length_append,
      ← Nat.zero_add (consequent.expressionStatements.length)]
    exact (hexpr test).branch ihc (keeps_optionLayout iha)
  | @whileLoop _ test _ _ _ ih => exact (hexpr test).whileLoop ih
  | @forLoop _ init test update _ _ _ _ _ ih =>
    refine Layout.Keeps.forLoop (.of_dropValues (dropValues_forInitLayout init))
      (.of_dropValues (dropValues_forUpdateLayout update)) ?_ ih
    intro plan hplan
    obtain ⟨e, _, rfl⟩ := Option.map_eq_some_iff.mp hplan
    exact hexpr e
  | breakLoop => exact .of_dropValues rfl
  | continueLoop => exact .of_dropValues rfl
  | @giveBack _ argument _ =>
    cases argument with
    | none => exact .of_dropValues rfl
    | some argument => exact (hexpr argument).append (.of_dropValues rfl)

end Stmt

/-! ## Units -/

namespace Body

variable {fold : Bool} {body : List Stmt}

/-- With or without folding, a body in a function is laid out as at the top level, with its values
dropped. -/
theorem layout_function (h : Stmt.functionsOfList body = []) :
    (folded fold ⟨false, body⟩).layout = (folded fold ⟨true, body⟩).layout.dropValues := by
  cases fold with
  | false => exact Stmt.listLayout_false body h
  | true =>
    refine Stmt.listLayout_false (Stmt.mapList .deepFold body) ?_
    rw [Stmt.functionsOfList_map, h]
    rfl

/-- With or without folding, a top level that is not refused keeps a value for each of its
expression statements. -/
theorem keeps_toplevel (h : (folded fold ⟨true, body⟩).layout.refusal false = none) :
    (folded fold ⟨true, body⟩).layout.Keeps (Stmt.expressionStatementsOfList body).length := by
  cases fold with
  | false => exact Stmt.keeps_listLayout fun s hs => (Stmt.supported_of_list body h s hs).keeps
  | true =>
    have hkeeps := Stmt.keeps_listLayout fun s hs =>
        (Stmt.supported_of_list (Stmt.mapList .deepFold body) h s hs).keeps
    rw [Stmt.expressionStatementsOfList_map, List.length_map] at hkeeps
    exact hkeeps

end Body

theorem CodeUnit.opcodes_eq_map_ops (unit : CodeUnit) : unit.opcodes = unit.ops.map Op.opcode := by
  simp [opcodes, ops, Function.comp_def, Instruction.resolve]

/-- Two units that are built from sources with the same scope and line, one of which has the code of
the other with its values dropped. -/
theorem UnitSource.build_eq_dropValues (source source' : UnitSource) {filename : String}
    {fold : Bool} {unit unit' : CodeUnit} (hscope : source'.scope = source.scope)
    (hline : source'.line = source.line) (hbuild : source.build filename fold = .ok unit)
    (hbuild' : source'.build filename fold = .ok unit')
    (hops : unit'.ops = unit.ops.map Op.dropValue) : unit' = unit.dropValues := by
  -- No string is touched, so the tables are the same, and under one table the code is what it
  -- resolves to.
  have htexts : unit'.ops.map Op.text? = unit.ops.map Op.text? := by
    rw [hops, List.map_map]
    rfl
  have hatoms : unit'.atoms = unit.atoms := atoms_eq_of_texts_eq hbuild' hbuild htexts
  have hcode : unit'.code = unit.dropValues.code := by
    have hdropped : unit'.atoms = unit.dropValues.atoms := hatoms
    rw [CodeUnit.code_eq_iff_ops_eq (nodup_atoms_of_build hbuild') hdropped, hops,
      unit.ops_dropValues]
  obtain ⟨hfile, hstart⟩ := place_of_build hbuild
  obtain ⟨hfile', hstart'⟩ := place_of_build hbuild'
  refine CodeUnit.ext ?_ (hfile'.trans hfile.symm) ?_ hcode hatoms
  · exact (scope_of_build hbuild').trans (hscope.trans (scope_of_build hbuild).symm)
  · exact hstart'.trans (hline.trans hstart.symm)

section

variable (name filename : String) (line : UInt32) (scope : Scope) {body : List Stmt} (fold : Bool)

/-- Both fail with the same error, or the units differ in how values are dropped. -/
theorem FunctionDecl.compile_eq_dropValues (h : Stmt.functionsOfList body = []) :
    FunctionDecl.compile ⟨name, line, scope, body⟩ filename fold =
      (Program.compileToplevel ⟨filename, line, scope, body⟩ fold).map CodeUnit.dropValues := by
  have hf := FunctionDecl.isCodeOf_compile ⟨name, line, scope, body⟩ filename fold
  have hp := Program.isCodeOf_compileToplevel ⟨filename, line, scope, body⟩ fold
  dsimp only at hf hp
  rw [Body.layout_function h] at hf
  cases htop : Program.compileToplevel ⟨filename, line, scope, body⟩ fold with
  | error e =>
    rw [htop] at hp
    have hrefusal : (Body.folded fold ⟨true, body⟩).layout.dropValues.refusal false = some e :=
      hp.of_error
    unfold Layout.IsCodeOf at hf
    rw [hrefusal] at hf
    exact hf
  | ok unit =>
    rw [htop] at hp
    obtain ⟨hrefusal, hops⟩ := hp.of_ok
    -- Dropping values changes no refusal, so the function compiles as well.
    cases hfun : FunctionDecl.compile ⟨name, line, scope, body⟩ filename fold with
    | error e =>
      rw [hfun] at hf
      have hnone := hf.of_error.symm.trans hrefusal
      cases hnone
    | ok unit' =>
      rw [hfun] at hf
      obtain ⟨-, hops'⟩ := hf.of_ok
      have hdrop : unit'.ops = unit.ops.map Op.dropValue := by
        rw [hops' ⟨0, 0⟩, hops ⟨0, 0⟩, List.map_append]
        rfl
      exact congrArg Except.ok (UnitSource.build_eq_dropValues ⟨⟨true, body⟩, scope,
        line⟩ ⟨⟨false, body⟩, scope, line⟩ rfl rfl htop hfun hdrop)

/-- A script keeps a value for each of its expression statements. -/
theorem Program.count_popv_compileToplevel {unit : CodeUnit}
    (h : Program.compileToplevel ⟨filename, line, scope, body⟩ fold = .ok unit) :
    unit.opcodes.count .popv = (Stmt.expressionStatementsOfList body).length := by
  have hp := Program.isCodeOf_compileToplevel ⟨filename, line, scope, body⟩ fold
  rw [h] at hp
  obtain ⟨hrefusal, hops⟩ := hp.of_ok
  rw [unit.opcodes_eq_map_ops, hops ⟨0, 0⟩, List.map_append, List.count_append]
  exact Body.keeps_toplevel hrefusal _ _

end

/-- **The top level differs from a function in `popv` alone.** Statements that declare no function
are compiled as the body of a function and as the top level of a script, in the same scope and from
the same line.

- Both fail with the same error, or the unit of the function is that of the top level with `pop` in
  the place of `popv`: table of atoms, scope and all other instructions are the same.
- The unit of the function has no `popv`.
- The unit of the top level has one `popv` for each expression statement, at any depth. -/
theorem function_eq_toplevel_dropValues (name filename : String) (line : UInt32) (scope : Scope)
    (body : List Stmt) (fold : Bool) (h : Stmt.functionsOfList body = []) :
    let f : FunctionDecl := { name, line, scope, body }
    let p : Program := { filename, line, scope, body }
    f.compile filename fold = (p.compileToplevel fold).map CodeUnit.dropValues ∧
    (∀ unit, f.compile filename fold = .ok unit → OpCode.popv ∉ unit.opcodes) ∧
    ∀ unit, p.compileToplevel fold = .ok unit →
      unit.opcodes.count .popv = (Stmt.expressionStatementsOfList body).length := by
  intro f p
  have hsame : f.compile filename fold = (p.compileToplevel fold).map CodeUnit.dropValues :=
    FunctionDecl.compile_eq_dropValues name filename line scope fold h
  refine ⟨hsame, ?_,
    fun unit hunit => Program.count_popv_compileToplevel filename line scope fold hunit⟩
  intro unit hunit
  rw [hsame] at hunit
  cases htop : p.compileToplevel fold with
  | error e =>
    rw [htop] at hunit
    cases hunit
  | ok unit' =>
    rw [htop] at hunit
    cases hunit
    exact unit'.popv_notMem_dropValues

/-- `for (i = 0; i < 3; i++) { log.last = (i, "x"); if (i) 1 + 2; else while (i) i; }` -/
def Stmt.logged : List Stmt :=
  let i := Expr.identifier ⟨"i", .global "i"⟩
  let log := Expr.identifier ⟨"log", .global "log"⟩
  [.forLoop (some (.expression (.assign .assign i (.number (.ofNat 0)))))
    (some (.binary .lessThan i (.number (.ofNat 3)))) (some (.update .increment false i))
    (.block [.expression (.assign .assign (.member log "last") (.comma i (.string "'x'"))),
      .branch i (.expression (.binary .add (.number (.ofNat 1)) (.number (.ofNat 2))))
        (some (.whileLoop i (.expression i)))])]

theorem function_eq_toplevel_dropValues_logged :
    Stmt.functionsOfList Stmt.logged = [] ∧
    ∃ unit, Program.compileToplevel ⟨"log.js", 1, {}, Stmt.logged⟩ true = .ok unit ∧
      unit.opcodes.count .popv = 3 ∧ unit.opcodes.count .pop = 4 ∧
      FunctionDecl.compile ⟨"f", 1, {}, Stmt.logged⟩ "log.js" true = .ok unit.dropValues := by
  obtain ⟨hsame, -, hcount⟩ :=
    function_eq_toplevel_dropValues "f" "log.js" 1 {} Stmt.logged true rfl
  have hpops : ((Program.compileToplevel ⟨"log.js", 1, {}, Stmt.logged⟩ true).toOption.map
      fun unit => unit.opcodes.count .pop) = some 4 := by
    decide +kernel
  obtain ⟨unit, hunit, hpop⟩ := Option.map_eq_some_iff.mp hpops
  have htop := CodeUnit.eq_ok_of_toOption hunit
  refine ⟨rfl, unit, htop, hcount unit htop, hpop, ?_⟩
  rw [hsame, htop]
  rfl

end StackCode
