import StackCode.Proofs.DeepFold
import StackCode.Proofs.Tree.Nodes
import StackCode.Proofs.WellFormed.Basic

/-!
# What holds of every step

The compiler puts its code together from few steps: one instruction, one step after another, and
three forms that allocate labels: a branch and two kinds of loop. A property of steps that holds of
single instructions and is kept by sequence and by the three forms is `Closed`, and it holds of the
compilation of every tree (`Closed.expression`, `Closed.statement`). The induction over trees is
made here, once; what is left to a property are its own laws.

A property need not hold of every instruction, only of those that the compiler can emit: the
`Proper` ones, which have the operand that their operation needs and load or store the slot of a
variable of the tree. So the induction follows the variables of a tree along, as a predicate on
their bindings. A property that asks for nothing of the kind takes the predicate that is always
true.

The three forms are stated as definitions of their own. The compiler has them inside of its cases,
where they unfold to the same steps.

## The laws, and what they leave open

`Closed` asks for a law for each of the three forms and not for a law for each step that they are
made of. A property may well fail of `newLabel` alone, as framing does: a label has been allocated
and nobody has fixed it. It has to hold again at the end of the form, and how it gets there is the
business of the property.

`break` and `continue` need no law of their own: they ask for the innermost loop and jump. Nor do
refusals, beside that for `throw`. What a step does behind a failure does not arise, since it is not
run.

Folding is dealt with here too. An addition is compiled from what folding makes of it, which is
another tree; its variables are among those of the addition, so the predicate on bindings carries
over, and the induction is on the size of trees rather than on their structure.
-/

set_option autoImplicit false

namespace StackCode

/-! ## Variables under folding -/

namespace Expr

variable {vs : Binding → Prop}

attribute [local simp] within_nil within_cons within_append nodes identifier?

theorem within_combine_add {left right : Expr} (hl : Within vs left.nodes)
    (hr : Within vs right.nodes) :
    Within vs (combine .add left right).nodes := by
  unfold combine
  split
  · simp
  · simp [hl, hr]

/-- Folding takes variables from nowhere. -/
theorem within_fold (e : Expr) : Within vs e.nodes → Within vs e.fold.nodes := by
  cases e with
  | binary op left right =>
    intro h
    by_cases hop : op = .add
    · subst hop
      have hparts : Within vs left.nodes ∧ Within vs right.nodes := by simpa using h
      rw [fold_add]
      exact within_combine_add (within_fold left hparts.1) (within_fold right hparts.2)
    · rw [fold_of_ne_add hop]
      exact h
  | _ => exact id
termination_by e.size
decreasing_by
  all_goals
    simp only [size]
    omega

end Expr

namespace Gen

/-! ## The forms that allocate labels

Written with their labels inside, so that no law has to speak about a label that is allocated in one
place and fixed in another. -/

/-- A branch. -/
def branch (test yes no : Gen Unit) : Gen Unit := do
  test
  let otherwise ← newLabel
  let merge ← newLabel
  jump .ifEq otherwise
  yes
  jump .goto merge
  fix otherwise
  no
  fix merge

/-- A loop that starts with its test. -/
def whileLoop (test body : Gen Unit) : Gen Unit := do
  let exit ← newLabel
  let entry ← labelHere
  enterLoop { entry, exit }
  test
  jump .ifEq exit
  body
  jump .goto entry
  fix exit
  leaveLoop

/-- A loop with an update in front of its test. The first iteration jumps over the update. -/
def forLoop (init update : Gen Unit) (test : Label → Gen Unit) (body : Gen Unit) : Gen Unit := do
  init
  let start ← newLabel
  jump .goto start
  let entry ← labelHere
  update
  let exit ← newLabel
  enterLoop { entry, exit }
  fix start
  test exit
  body
  jump .goto entry
  fix exit
  leaveLoop

/-! ## Closed properties -/

/-- A property that holds of the steps that emit one instruction, and is kept by sequence, branches
and loops. The variables that instructions load and store have bindings in `vs`. -/
structure Closed (vs : Binding → Prop) (P : {α : Type} → Gen α → Prop) : Prop where
  pure : ∀ {α : Type} (a : α), P (pure a)
  throw : ∀ {α : Type} (e : Error), P (throw e : Gen α)
  bind : ∀ {α β : Type} {m : Gen α} {f : α → Gen β}, P m → (∀ a, P (f a)) → P (m >>= f)
  emit : ∀ {i : Instruction}, i.Proper vs → P (emit i)
  opAtom : ∀ {opcode : OpCode}, opcode.operandKind = some .atom → ∀ name, P (opAtom opcode name)
  jump : ∀ {opcode : OpCode}, opcode.operandKind = some .jump → ∀ l, P (jump opcode l)
  innermost : ∀ statement, P (innermost statement)
  branch : ∀ {test yes no : Gen Unit}, P test → P yes → P no → P (branch test yes no)
  whileLoop : ∀ {test body : Gen Unit}, P test → P body → P (whileLoop test body)
  forLoop : ∀ {init update : Gen Unit} {test : Label → Gen Unit} {body : Gen Unit},
    P init → P update →
    (∀ exit, P (test exit)) → P body → P (forLoop init update test body)

namespace Closed

variable {vs : Binding → Prop} {P : {α : Type} → Gen α → Prop} (h : Closed vs P)

include h

/-- One step behind another that gives no result. -/
theorem seq {m m' : Gen Unit} (hm : P m) (hm' : P m') : P (do m; m') :=
  h.bind hm fun _ => hm'

theorem op {opcode : OpCode} (hop : opcode.operandKind = none ∧ opcode ≠ .stop) : P (op opcode) :=
  h.emit (.bare hop)

theorem opWith {opcode : OpCode} {operand : Operand}
    (hop : Instruction.Proper vs ⟨opcode, some operand⟩) :
    P (opWith opcode operand) :=
  h.emit hop

theorem refuse {α : Type} (feature : Feature) : P (refuse feature : Gen α) :=
  h.throw (.unsupported feature)

/-- What comes behind a result that does not depend on the unit is only run if there is one. -/
theorem given {α β : Type} {result : Except Error α} {f : α → Gen β}
    (hf : ∀ a, result = .ok a → P (f a)) :
    P (ofExcept result >>= f) := by
  cases result with
  | error e => exact h.throw e
  | ok a => exact hf a rfl

/-- A number is pushed by a proper instruction or refused. -/
theorem number (value : Double) : P (number value) :=
  h.given fun _ hi => h.emit (.of_ofNumber hi)

/-! ### Variables

These are the only steps that emit an instruction on a slot. -/

/-- A load is one instruction, on a slot or on an atom. -/
theorem load {v : Variable} (hv : vs v.binding) : P (load v) := by
  unfold Gen.load
  cases hbinding : v.binding with
  | parameter slot => exact h.opWith (.slot rfl rfl (hbinding ▸ hv))
  | localSlot slot => exact h.opWith (.slot rfl rfl (hbinding ▸ hv))
  | global name => exact h.opAtom rfl name

/-- A store to a global has an instruction before the value as well. -/
theorem store {v : Variable} {value : Gen Unit} (hv : vs v.binding) (hvalue : P value) :
    P (store v value) := by
  unfold Gen.store
  cases hbinding : v.binding with
  | parameter slot => exact h.seq hvalue (h.opWith (.slot rfl rfl (hbinding ▸ hv)))
  | localSlot slot => exact h.seq hvalue (h.opWith (.slot rfl rfl (hbinding ▸ hv)))
  | global name => exact h.seq (h.opAtom rfl name) <| h.seq hvalue (h.opAtom rfl name)

theorem increment {v : Variable} (hv : vs v.binding) : P (increment v) := by
  have hslot : P (do
      Gen.load v; Gen.load v; Gen.op .one; Gen.op .add; Gen.store v (Pure.pure ()); Gen.op .pop) :=
    h.seq (h.load hv) <| h.seq (h.load hv) <| h.seq (h.op (by decide)) <|
      h.seq (h.op (by decide)) <| h.seq (h.store hv (h.pure ())) <| h.op (by decide)
  unfold Gen.increment
  cases hbinding : v.binding with
  | parameter slot => exact hslot
  | localSlot slot => exact hslot
  | global name =>
    exact h.seq (h.opAtom rfl name) <| h.seq (h.opAtom rfl name) <| h.seq (h.opAtom rfl name) <|
      h.seq (h.op (by decide)) <| h.seq (h.op (by decide)) <| h.seq (h.opAtom rfl name) <|
        h.op (by decide)

theorem incrementProperty (property : String) : P (incrementProperty property) :=
  h.seq (h.op (by decide)) <| h.seq (h.opAtom rfl property) <| h.seq (h.op (by decide)) <|
    h.seq (h.op (by decide)) <| h.seq (h.opAtom rfl property) <| h.seq (h.op (by decide)) <|
      h.op (by decide)

/-! ### Expressions -/

section

open StackCode.Expr (Within)

attribute [local simp] Expr.within_nil Expr.within_cons Expr.within_append Expr.nodes
  Expr.identifier?

mutual

/-- **A closed property holds of every expression** whose variables have bindings in `vs`. -/
theorem expression (fold : Bool) (e : Expr) : Within vs e.nodes → P (expression fold e) := by
  cases e with
  | number value =>
    intro _
    rw [Gen.expression]
    exact h.number value
  | string raw =>
    intro _
    rw [Gen.expression]
    exact h.given fun text _ => h.opAtom rfl text
  | regExp pattern flags =>
    intro _
    rw [Gen.expression]
    exact h.refuse _
  | null =>
    intro _
    rw [Gen.expression]
    exact h.op (by decide)
  | boolean value =>
    intro _
    rw [Gen.expression]
    cases value with
    | true => exact h.op (by decide)
    | false => exact h.op (by decide)
  | this =>
    intro _
    rw [Gen.expression]
    exact h.op (by decide)
  | identifier v =>
    intro hw
    rw [Gen.expression]
    exact h.load (by simpa using hw)
  | array items =>
    intro hw
    have hitems : Within vs (Expr.listNodes (items.filterMap id)) := by
      rw [Expr.within_filterMap_id]
      simpa using hw
    have hlength : Instruction.Proper vs ⟨.newArray, some (.length items.length)⟩ :=
      .of_operand rfl rfl (by decide) nofun nofun
    rw [Gen.expression]
    split
    · exact h.refuse _
    · split
      · exact h.refuse _
      · exact h.seq (h.opWith hlength) <| h.seq (elements fold 0 (items.filterMap id) hitems) <|
          h.op (by decide)
  | object properties =>
    intro _
    rw [Gen.expression]
    exact h.refuse _
  | binary operator left right =>
    intro hw
    have hparts : Within vs left.nodes ∧ Within vs right.nodes := by simpa using hw
    by_cases hop : operator = .add
    · subst hop
      cases fold with
      | false =>
        rw [expression_add_false]
        exact h.seq (expression false left hparts.1) <| h.seq (expression false right hparts.2) <|
          h.op (by decide)
      | true =>
        rcases Expr.number?_cases left.fold right.fold with ⟨a, b, ha, hb⟩ | hnone
        · rw [expression_add_of_number ha hb]
          exact h.number (a + b)
        · -- The compiler goes on with the folded operands, which are no larger than the ones at
          -- hand.
          have := left.fold_size_le
          have := right.fold_size_le
          rw [expression_add_of_not_number hnone]
          exact h.seq (expression true left.fold (left.within_fold hparts.1)) <|
            h.seq (expression true right.fold (right.within_fold hparts.2)) <| h.op (by decide)
    · rw [expression_binary hop]
      apply h.given
      intro opcode hopcode
      exact h.seq (expression fold left hparts.1) <| h.seq (expression fold right hparts.2) <|
        h.emit (.of_binary hopcode)
  | unary operator argument =>
    intro hw
    rw [Gen.expression]
    apply h.given
    intro opcode hopcode
    exact h.seq (expression fold argument (by simpa using hw)) <| h.emit (.of_unary hopcode)
  | update operator before argument =>
    intro hw
    cases operator with
    | decrement =>
      rw [Gen.expression]
      exact h.refuse _
    | increment =>
      cases before with
      | true =>
        rw [Gen.expression]
        exact h.refuse _
      | false =>
        cases hargument : argument.isReference with
        | false =>
          rw [expression_increment_of_not_reference _ hargument]
          exact h.refuse _
        | true =>
          cases argument with
          | identifier v =>
            rw [Gen.expression]
            exact h.increment (by simpa using hw)
          | member obj property =>
            rw [Gen.expression]
            exact h.seq (expression fold obj (by simpa using hw)) <| h.incrementProperty property
          | index obj key =>
            have hparts : Within vs obj.nodes ∧ Within vs key.nodes := by simpa using hw
            rw [Gen.expression]
            exact h.seq (expression fold obj hparts.1) <| h.seq (expression fold key hparts.2) <|
              h.op (by decide)
          | _ => cases hargument
  | assign operator target value =>
    intro hw
    have hparts : Within vs target.nodes ∧ Within vs value.nodes := by simpa using hw
    by_cases hop : operator = .assign
    · subst hop
      have hvalue := expression fold value hparts.2
      cases htarget : target.isReference with
      | false =>
        rw [expression_assign_of_not_reference _ htarget]
        exact h.refuse _
      | true =>
        cases target with
        | identifier v =>
          rw [Gen.expression]
          exact h.store (by simpa using hparts.1) hvalue
        | member obj property =>
          rw [Gen.expression]
          exact h.seq (expression fold obj (by simpa using hparts.1)) <| h.seq hvalue <|
            h.opAtom rfl property
        | index obj key =>
          have hplace : Within vs obj.nodes ∧ Within vs key.nodes := by simpa using hparts.1
          rw [Gen.expression]
          exact h.seq (expression fold obj hplace.1) <| h.seq (expression fold key hplace.2) <|
            h.seq hvalue <| h.op (by decide)
        | _ => cases htarget
    · rw [expression_compound hop]
      exact h.refuse _
  | call callee arguments =>
    intro hw
    have hparts : Within vs callee.nodes ∧ Within vs (Expr.listNodes arguments) := by simpa using hw
    rw [Gen.expression]
    apply h.given
    intro count hcount
    exact h.seq (function fold callee hparts.1) <| h.seq (expressions fold arguments hparts.2) <|
      h.opWith (.of_argCount rfl hcount)
  | new callee arguments =>
    intro hw
    have hparts : Within vs callee.nodes ∧ Within vs (Expr.listNodes arguments) := by simpa using hw
    cases hcallee : callee.isIdentifier with
    | false =>
      rw [expression_new_of_not_identifier _ hcallee]
      exact h.refuse _
    | true =>
      cases callee with
      | identifier v =>
        rw [Gen.expression]
        apply h.given
        intro count hcount
        exact h.seq (h.load (by simpa using hparts.1)) <| h.seq (h.op (by decide)) <|
          h.seq (expressions fold arguments hparts.2) <| h.opWith (.of_argCount rfl hcount)
      | _ => cases hcallee
  | member obj property =>
    intro hw
    rw [Gen.expression]
    exact h.seq (expression fold obj (by simpa using hw)) <| h.opAtom rfl property
  | index obj key =>
    intro hw
    have hparts : Within vs obj.nodes ∧ Within vs key.nodes := by simpa using hw
    rw [Gen.expression]
    exact h.seq (expression fold obj hparts.1) <| h.seq (expression fold key hparts.2) <|
      h.op (by decide)
  | conditional test consequent alternate =>
    intro hw
    have hparts :
        Within vs test.nodes ∧ Within vs consequent.nodes ∧ Within vs alternate.nodes := by
      simpa using hw
    rw [Gen.expression]
    exact h.branch (expression fold test hparts.1) (expression fold consequent hparts.2.1)
      (expression fold alternate hparts.2.2)
  | comma left right =>
    intro hw
    have hparts : Within vs left.nodes ∧ Within vs right.nodes := by simpa using hw
    rw [Gen.expression]
    exact h.seq (expression fold left hparts.1) <| h.seq (h.op (by decide)) <|
      expression fold right hparts.2
  | function name scope body =>
    intro _
    rw [Gen.expression]
    exact h.throw _
termination_by 2 * e.size
decreasing_by
  all_goals
    simp only [Expr.size, Expr.listSize_filterMap_id]
    omega

/-- The callee of a call. A bare name is an atom and no variable, so it need not be within `vs`. -/
theorem function (fold : Bool) (callee : Expr) :
    Within vs callee.nodes → P (function fold callee) := by
  cases hcallee : callee.isReference with
  | false =>
    intro _
    rw [function_of_not_reference _ hcallee]
    exact h.refuse _
  | true =>
    cases callee with
    | identifier v =>
      -- The callee is an atom here, whatever its binding.
      intro _
      rw [Gen.function]
      exact h.opAtom rfl v.name
    | member obj property =>
      intro hw
      rw [Gen.function]
      exact h.seq (expression fold obj (by simpa using hw)) <| h.opAtom rfl property
    | index obj key =>
      intro hw
      have hparts : Within vs obj.nodes ∧ Within vs key.nodes := by simpa using hw
      rw [Gen.function]
      exact h.seq (expression fold obj hparts.1) <| h.seq (expression fold key hparts.2) <|
        h.op (by decide)
    | _ => cases hcallee
termination_by 2 * callee.size + 1
decreasing_by
  all_goals
    simp only [Expr.size]
    omega

theorem expressions (fold : Bool) (es : List Expr) :
    Within vs (Expr.listNodes es) → P (expressions fold es) := by
  cases es with
  | nil =>
    intro _
    rw [Gen.expressions]
    exact h.pure ()
  | cons e es =>
    intro hw
    rw [Expr.listNodes, Expr.within_append] at hw
    rw [Gen.expressions]
    exact h.seq (expression fold e hw.1) <| expressions fold es hw.2
termination_by 2 * Expr.listSize es + 1
decreasing_by
  all_goals simp only [Expr.listSize]
  · omega
  · have := e.size_pos
    omega

theorem elements (fold : Bool) (first : Nat) (es : List Expr) :
    Within vs (Expr.listNodes es) → P (elements fold first es) := by
  cases es with
  | nil =>
    intro _
    rw [Gen.elements]
    exact h.pure ()
  | cons e es =>
    intro hw
    rw [Expr.listNodes, Expr.within_append] at hw
    rw [Gen.elements]
    exact h.seq (h.number _) <| h.seq (expression fold e hw.1) <| h.seq (h.op (by decide)) <|
      elements fold (first + 1) es hw.2
termination_by 2 * Expr.listSize es + 1
decreasing_by
  all_goals simp only [Expr.listSize]
  · omega
  · have := e.size_pos
    omega

end

end

/-! ### Statements -/

section

open StackCode.Stmt (Within)

/-- The initializers of a declaration, each stored in its variable. -/
theorem declarators (fold : Bool) (ds : List (Variable × Option Expr))
    (hvars : ∀ v ∈ ds.map Prod.fst, vs v.binding)
    (hinits : ∀ e ∈ ds.filterMap Prod.snd, Expr.Within vs e.nodes) : P (declarators fold ds) := by
  induction ds with
  | nil => exact h.pure ()
  | cons d ds ih =>
    obtain ⟨v, init⟩ := d
    rw [List.map_cons, List.forall_mem_cons] at hvars
    cases init with
    | none => exact ih hvars.2 hinits
    | some init =>
      rw [List.filterMap_cons_some (f := Prod.snd) rfl, List.forall_mem_cons] at hinits
      exact h.seq (h.store hvars.1 (h.expression fold init hinits.1)) <| h.seq (h.op (by decide)) <|
        ih hvars.2 hinits.2

theorem declaration (fold : Bool) (kind : DeclarationKind) (ds : List (Variable × Option Expr))
    (hvars : ∀ v ∈ ds.map Prod.fst, vs v.binding)
    (hinits : ∀ e ∈ ds.filterMap Prod.snd, Expr.Within vs e.nodes) :
    P (declaration fold kind ds) := by
  cases kind with
  | var => exact h.declarators fold ds hvars hinits
  | lexical => exact h.refuse _
  | constant => exact h.refuse _

theorem forInit (fold : Bool) {inLoop : Bool} (init : Option Stmt)
    (hw : Within vs (Stmt.optionNodes inLoop init)) : P (forInit fold init) := by
  cases init with
  | none => exact h.pure ()
  | some s =>
    rw [Stmt.optionNodes] at hw
    cases s with
    | empty => exact h.pure ()
    | declaration kind ds => exact h.declaration fold kind ds hw.self.1 hw.self.2
    | expression value =>
      exact h.seq (h.expression fold value (hw.self.2 value List.mem_cons_self)) <| h.op (by decide)
    | _ => exact h.refuse _

theorem forUpdate (fold : Bool) (update : Option Expr)
    (hw : ∀ e ∈ update.toList, Expr.Within vs e.nodes) :
    P (forUpdate fold update) := by
  cases update with
  | none => exact h.pure ()
  | some e => exact h.seq (h.expression fold e (hw e List.mem_cons_self)) <| h.op (by decide)

theorem forTest (fold : Bool) (exit : Label) (test : Option Expr)
    (hw : ∀ e ∈ test.toList, Expr.Within vs e.nodes) : P (forTest fold exit test) := by
  cases test with
  | none => exact h.pure ()
  | some e => exact h.seq (h.expression fold e (hw e List.mem_cons_self)) <| h.jump rfl exit

mutual

/-- **A closed property holds of every statement** whose variables have bindings in `vs`. -/
theorem statement (mode : Mode) (inLoop : Bool) (s : Stmt) (hw : Within vs (s.nodes inLoop)) :
    P (statement mode s) := by
  cases s with
  | empty => exact h.pure ()
  | block body =>
    rw [Stmt.nodes, Stmt.within_cons] at hw
    exact statements mode inLoop body hw.2
  | expression value =>
    apply h.seq (h.expression mode.fold value (hw.self.2 value List.mem_cons_self))
    split
    · exact h.op (by decide)
    · exact h.op (by decide)
  | declaration kind ds => exact h.declaration mode.fold kind ds hw.self.1 hw.self.2
  | function name line scope body =>
    rw [Gen.statement]
    split
    · exact h.pure ()
    · exact h.throw _
  | branch test consequent alternate =>
    rw [Stmt.nodes, Stmt.within_cons, Stmt.within_append] at hw
    exact h.branch (h.expression mode.fold test (hw.1.2 test List.mem_cons_self))
      (statement mode inLoop consequent hw.2.1) (optional mode inLoop alternate hw.2.2)
  | whileLoop test body =>
    rw [Stmt.nodes, Stmt.within_cons] at hw
    exact h.whileLoop (h.expression mode.fold test (hw.1.2 test List.mem_cons_self))
      (statement mode true body hw.2)
  | forLoop init test update body =>
    rw [Stmt.nodes, Stmt.within_cons, Stmt.within_append] at hw
    obtain ⟨⟨_, hexpressions⟩, hinit, hbody⟩ := hw
    rw [Stmt.expressions, List.forall_mem_append] at hexpressions
    exact h.forLoop (h.forInit mode.fold init hinit) (h.forUpdate mode.fold update hexpressions.2)
      (fun exit => h.forTest mode.fold exit test hexpressions.1) (statement mode true body hbody)
  | breakLoop => exact h.bind (h.innermost _) fun loop => h.jump rfl loop.exit
  | continueLoop => exact h.bind (h.innermost _) fun loop => h.jump rfl loop.entry
  | giveBack argument =>
    cases argument with
    | none => exact h.seq (h.op (by decide)) <| h.op (by decide)
    | some e =>
      exact h.seq (h.expression mode.fold e (hw.self.2 e List.mem_cons_self)) <| h.op (by decide)
  | _ => exact h.refuse _

theorem optional (mode : Mode) (inLoop : Bool) (s : Option Stmt)
    (hw : Within vs (Stmt.optionNodes inLoop s)) : P (optional mode s) := by
  cases s with
  | none => exact h.pure ()
  | some s =>
    rw [Stmt.optionNodes] at hw
    exact statement mode inLoop s hw

theorem statements (mode : Mode) (inLoop : Bool) (ss : List Stmt)
    (hw : Within vs (Stmt.listNodes inLoop ss)) : P (statements mode ss) := by
  cases ss with
  | nil => exact h.pure ()
  | cons s ss =>
    rw [Stmt.listNodes, Stmt.within_append] at hw
    exact h.seq (statement mode inLoop s hw.1) <| statements mode inLoop ss hw.2

end

end

end Closed

end Gen

end StackCode
