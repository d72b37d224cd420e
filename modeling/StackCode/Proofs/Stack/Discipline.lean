import StackCode.Proofs.Layout.Supported
import StackCode.Proofs.Layout.Units
import StackCode.Proofs.Stack.Shaped

/-!
# The stack discipline of compiled code

An expression pushes one value on whatever is there, a callee pushes a function with its receiver,
and statements start and end with an empty stack. The unit of a script is the layout of a statement
list, so there is an assignment of shapes to all of its positions under which every instruction
fits.

The statement also names the positions where the stack is empty: in front of and behind every
statement of the unit at any depth (`Stmt.boundaries`). They are computed from the tree and its
layout, not from the shapes.

The induction is on the grammar of what is compiled. In most cases the instructions of a form are
put together with the rule for sequences and the shapes are read off; the interesting ones are
calls, where the number of values below the instruction is its operand, and arrays, where each
element finds the array where the last one left it.
-/

set_option autoImplicit false

namespace StackCode

open Op (Steps)

/-! ## Variables and literals

A store to a global has its target below the value, and a store to a slot has nothing there. The
rule for a store hides the difference. -/

theorem Op.signature?_of_integer? {o : Op} {n : Int} (h : o.integer? = some n) :
    o.signature? = some ⟨[], [.value], false⟩ ∧ o.isStraight = true := by
  rcases integer?_eq_some h with ⟨rfl, _⟩ | ⟨v, rfl, _⟩ | ⟨v, rfl, _⟩ | ⟨v, rfl, _⟩ | ⟨v, rfl, _⟩
  all_goals exact ⟨rfl, rfl⟩

namespace Layout

/-- A literal pushes a value, with whatever instruction it is written. -/
theorem shaped_number {value : Double} {i : Instruction} (h : Instruction.ofNumber value = .ok i)
    (shape : Shape) : (number value).Shaped shape (.value :: shape) fun _ => [] := by
  obtain ⟨n, _, hn⟩ := Op.integer?_ofNumber h
  obtain ⟨hsig, hstraight⟩ := Op.signature?_of_integer? hn
  unfold number
  rw [h]
  exact .steps (.cons hsig hstraight rfl (.nil _))

end Layout

namespace Variable

variable (v : Variable) (shape : Shape)

theorem steps_load : Steps [v.load] shape (.value :: shape) := by
  unfold load
  cases v.binding <;> exact .cons rfl rfl rfl (.nil _)

/-- A store takes its target and its value off, and leaves the value. -/
theorem shaped_store {value : Layout}
    (h : ∀ shape, value.Shaped shape (.value :: shape) fun _ => []) :
    (v.store value).Shaped shape (.value :: shape) fun _ => [] := by
  unfold store target write
  cases v.binding with
  | parameter slot =>
    refine ((Layout.Shaped.steps (.nil _)).append (h shape)).append (.steps ?_)
    exact .cons rfl rfl rfl (.nil _)
  | localSlot slot =>
    refine ((Layout.Shaped.steps (.nil _)).append (h shape)).append (.steps ?_)
    exact .cons rfl rfl rfl (.nil _)
  | global name =>
    refine (Layout.Shaped.append (.steps ?_) (h (.target name :: shape))).append (.steps ?_)
    · exact .cons rfl rfl rfl (.nil _)
    · exact .cons rfl rfl rfl (.nil _)

theorem steps_increment : Steps v.increment shape (.value :: shape) := by
  unfold increment load target write
  cases v.binding with
  | parameter slot =>
    exact .cons rfl rfl rfl (.cons rfl rfl rfl (.cons rfl rfl rfl (.cons rfl rfl rfl
      (.cons rfl rfl rfl (.cons rfl rfl rfl (.nil _))))))
  | localSlot slot =>
    exact .cons rfl rfl rfl (.cons rfl rfl rfl (.cons rfl rfl rfl (.cons rfl rfl rfl
      (.cons rfl rfl rfl (.cons rfl rfl rfl (.nil _))))))
  | global name =>
    exact .cons rfl rfl rfl (.cons rfl rfl rfl (.cons rfl rfl rfl (.cons rfl rfl rfl
      (.cons rfl rfl rfl (.cons rfl rfl rfl (.cons rfl rfl rfl (.nil _)))))))

end Variable

/-- The object makes room for the old value of its property. -/
theorem Op.steps_incrementProperty (property : String) (shape : Shape) :
    Steps (incrementProperty property) (.value :: shape) (.value :: shape) :=
  .cons rfl rfl rfl (.cons rfl rfl rfl (.cons rfl rfl rfl (.cons rfl rfl rfl (.cons rfl rfl rfl
    (.cons rfl rfl rfl (.cons rfl rfl rfl (.nil _)))))))

/-! ## Expressions -/

/-- A binary operator takes two values and leaves one. -/
theorem BinaryOp.signature?_of_opcode {op : BinaryOp} {opcode : OpCode}
    (h : op.opcode = .ok opcode) :
    (Op.bare opcode).signature? = some ⟨[.value, .value], [.value], false⟩ ∧
      (Op.bare opcode).isStraight = true := by
  cases op <;> cases h <;> exact ⟨rfl, rfl⟩

theorem UnaryOp.signature?_of_opcode {op : UnaryOp} {opcode : OpCode} (h : op.opcode = .ok opcode) :
    (Op.bare opcode).signature? = some ⟨[.value], [.value], false⟩ ∧
      (Op.bare opcode).isStraight = true := by
  cases op <;> cases h
  exact ⟨rfl, rfl⟩

/-- The layout pushes one value, whatever is below. -/
def Layout.PushesValue (plan : Layout) : Prop :=
  ∀ shape, plan.Shaped shape (.value :: shape) fun _ => []

namespace Expr

/-- Arguments push a value each. -/
theorem shaped_list {es : List Expr} (h : ∀ e ∈ es, e.layout.PushesValue) (shape : Shape) :
    (listLayout es).Shaped shape (.replicate es.length .value ++ shape) fun _ => [] := by
  induction es generalizing shape with
  | nil => exact .steps (.nil shape)
  | cons e es ih =>
    have hes := ih (fun e' he' => h e' (List.mem_cons_of_mem e he')) (.value :: shape)
    have hshape : List.replicate es.length Mark.value ++ .value :: shape =
        .replicate (es.length + 1) .value ++ shape := by
      rw [List.replicate_succ', List.append_assoc]
      rfl
    rw [hshape] at hes
    exact (h e List.mem_cons_self shape).append hes

/-- Each element is set in the array that stays below. -/
theorem shaped_elements {es : List Expr} (first : Nat)
    (hindex : ∀ k < es.length, ∃ i, Instruction.ofNumber (Double.ofNat (first + k)) = .ok i)
    (h : ∀ e ∈ es, e.layout.PushesValue) (shape : Shape) :
    (elementsLayout first (es.map some)).Shaped (.array :: shape) (.array :: shape) fun _ =>
      [] := by
  induction es generalizing first with
  | nil => exact .steps (.nil _)
  | cons e es ih =>
    obtain ⟨i, hi⟩ := hindex 0 (Nat.zero_lt_succ _)
    have hrest := ih (first + 1) (fun k hk => by
      have := hindex (k + 1) (Nat.succ_lt_succ hk)
      rwa [Nat.add_comm k 1, ← Nat.add_assoc] at this)
      fun e' he' => h e' (List.mem_cons_of_mem e he')
    have hindex := Layout.shaped_number hi (.array :: shape)
    have helement := h e List.mem_cons_self (.value :: .array :: shape)
    refine ((hindex.append helement).append (.steps ?_)).append hrest
    exact .cons rfl rfl rfl (.nil _)

/-- A call takes a value for each argument off, and the function with its receiver. -/
theorem shaped_call {callee : Expr} {args : List Expr} (hcount : args.length < 65536)
    {shape : Shape} (hcallee : callee.functionLayout.Shaped shape (.callee :: shape) fun _ => [])
    (hargs : ∀ e ∈ args, e.layout.PushesValue) :
    (Expr.call callee args).layout.Shaped shape (.value :: shape) fun _ => [] := by
  rw [layout_call hcount]
  refine (hcallee.append (shaped_list hargs _)).append (.steps ?_)
  refine .cons rfl rfl ?_ (.nil _)
  rw [toNat_argCount hcount, List.append_assoc]
  rfl

/-- The constructor is pushed with a receiver, like a callee, but is a value. -/
theorem shaped_new (v : Variable) {args : List Expr} (hcount : args.length < 65536) (shape : Shape)
    (hargs : ∀ e ∈ args, e.layout.PushesValue) :
    (Expr.new (.identifier v) args).layout.Shaped shape (.value :: shape) fun _ => [] := by
  have hstart : Steps [v.load, .bare .push] shape (.value :: .value :: shape) := by
    unfold Variable.load
    cases v.binding <;> exact .cons rfl rfl rfl (.cons rfl rfl rfl (.nil _))
  rw [layout_new v hcount]
  refine ((Layout.Shaped.steps hstart).append (shaped_list hargs _)).append (.steps ?_)
  refine .cons rfl rfl ?_ (.nil _)
  rw [toNat_argCount hcount, List.append_assoc]
  rfl

end Expr

/-- **An expression pushes one value.** -/
theorem Expr.Supported.pushesValue {e : Expr} (h : e.Supported) : e.layout.PushesValue := by
  induction h with
  | number h => exact Layout.shaped_number h
  | string h =>
    intro shape
    rw [layout_string h]
    exact .steps (.cons rfl rfl rfl (.nil _))
  | null => exact fun shape => .steps (.cons rfl rfl rfl (.nil _))
  | boolean value =>
    intro shape
    cases value <;> exact .steps (.cons rfl rfl rfl (.nil _))
  | this => exact fun shape => .steps (.cons rfl rfl rfl (.nil _))
  | identifier v => exact fun shape => .steps (v.steps_load shape)
  | array hlength hindex _ ih =>
    -- The array stays below while its elements are set, and becomes a value at the end.
    intro shape
    rw [layout_array hlength]
    have helements := shaped_elements 0 (by simpa using hindex) ih shape
    refine (Layout.Shaped.append (.steps ?_) helements).append (.steps ?_)
    · exact .cons rfl rfl rfl (.nil _)
    · exact .cons rfl rfl rfl (.nil _)
  | binary hop _ _ ihl ihr =>
    intro shape
    obtain ⟨hsig, hstraight⟩ := BinaryOp.signature?_of_opcode hop
    rw [layout_binary hop]
    exact ((ihl shape).append (ihr _)).append (.steps (.cons hsig hstraight rfl (.nil _)))
  | unary hop _ ih =>
    intro shape
    obtain ⟨hsig, hstraight⟩ := UnaryOp.signature?_of_opcode hop
    rw [layout_unary hop]
    exact (ih shape).append (.steps (.cons hsig hstraight rfl (.nil _)))
  | incrementVariable v => exact fun shape => .steps (v.steps_increment shape)
  | incrementMember property _ ih =>
    exact fun shape => (ih shape).append (.steps (Op.steps_incrementProperty property shape))
  | incrementIndex _ _ iho ihk =>
    intro shape
    refine ((iho shape).append (ihk _)).append (.steps ?_)
    exact .cons rfl rfl rfl (.nil _)
  | assignVariable v _ ih => exact fun shape => v.shaped_store shape ih
    -- Targets and values are pushed on one another, and the store leaves the value.
  | assignMember property _ _ iho ih =>
    intro shape
    refine ((iho shape).append (ih _)).append (.steps ?_)
    exact .cons rfl rfl rfl (.nil _)
  | assignIndex _ _ _ iho ihk ih =>
    intro shape
    refine (((iho shape).append (ihk _)).append (ih _)).append (.steps ?_)
    exact .cons rfl rfl rfl (.nil _)
  | callName v hcount _ ih =>
    intro shape
    exact shaped_call hcount (.steps (.cons rfl rfl rfl (.nil _))) ih
  | callMember property hcount _ _ iho ih =>
    intro shape
    refine shaped_call hcount ((iho shape).append (.steps ?_)) ih
    exact .cons rfl rfl rfl (.nil _)
  | callIndex hcount _ _ _ iho ihk ih =>
    intro shape
    refine shaped_call hcount (((iho shape).append (ihk _)).append (.steps ?_)) ih
    exact .cons rfl rfl rfl (.nil _)
  | new v hcount _ ih => exact fun shape => shaped_new v hcount shape ih
  | member property _ ih =>
    intro shape
    refine (ih shape).append (.steps ?_)
    exact .cons rfl rfl rfl (.nil _)
  | index _ _ iho ihk =>
    intro shape
    refine ((iho shape).append (ihk _)).append (.steps ?_)
    exact .cons rfl rfl rfl (.nil _)
  | conditional _ _ _ iht ihc iha => exact fun shape => (iht shape).branch (ihc shape) (iha shape)
    -- Both parts start from the stack below the test.
  | comma _ _ ihl ihr =>
    intro shape
    refine ((ihl shape).append (.steps ?_)).append (ihr shape)
    exact .cons rfl rfl rfl (.nil _)

/-! ## Statements -/

namespace Stmt

mutual

/-- The positions in front of and behind of a statement that is laid out at `a`, and of the
statements in it. -/
def boundaries (toplevel : Bool) (a : Nat) (s : Stmt) : List Nat :=
  a :: (a + (s.layout toplevel).size) ::
    match s with
    | .block body => listBoundaries toplevel a body
    | .branch test consequent alternate =>
      consequent.boundaries toplevel (a + test.layout.size + 1) ++
        optionBoundaries toplevel
          (a + test.layout.size + (consequent.layout toplevel).size + 2) alternate
    | .whileLoop test body => body.boundaries toplevel (a + test.layout.size + 1)
    | .forLoop init test update body =>
      body.boundaries toplevel (a + (forInitLayout init).size + 1 + (forUpdateLayout update).size +
        (Layout.guard (test.map Expr.layout)).size)
    | _ => []

def optionBoundaries (toplevel : Bool) (a : Nat) : Option Stmt → List Nat
  | none => []
  | some s => s.boundaries toplevel a

def listBoundaries (toplevel : Bool) (a : Nat) : List Stmt → List Nat
  | [] => []
  | s :: ss => s.boundaries toplevel a ++ listBoundaries toplevel (a + (s.layout toplevel).size) ss

end

end Stmt

namespace Layout

theorem Shaped.ends {plan : Layout} {empty : Nat → List Nat} (h : plan.Shaped [] [] empty) :
    plan.Shaped [] [] fun a => a :: (a + plan.size) :: empty a := by
  intro t a
  have := (h t a).ends
  rwa [length_code] at this

/-- An expression whose value is dropped. -/
theorem PushesValue.pop {plan : Layout} (h : plan.PushesValue) :
    (plan ++ .ofOps [.bare .pop]).Shaped [] [] fun _ => [] := by
  refine (h []).append (.steps ?_)
  exact .cons rfl rfl rfl (.nil _)

end Layout

namespace Stmt

/-- A declaration stores its values and drops what the stores leave. -/
theorem SupportedDeclarators.shaped {ds : List (Variable × Option Expr)}
    (h : SupportedDeclarators ds) :
    (declaratorsLayout ds).Shaped [] [] fun _ => [] := by
  induction ds with
  | nil => exact .steps (.nil [])
  | cons d ds ih =>
    obtain ⟨v, init⟩ := d
    have hrest := ih fun v' init' hmem => h v' init' (List.mem_cons_of_mem _ hmem)
    cases init with
    | none => exact hrest
    | some init =>
      have hinit := (h v init List.mem_cons_self).pushesValue
      have hstore : (v.store init.layout).PushesValue := fun shape => v.shaped_store shape hinit
      exact hstore.pop.append hrest

theorem SupportedInit.shaped {init : Option Stmt} (h : SupportedInit init) :
    (forInitLayout init).Shaped [] [] fun _ => [] := by
  cases h with
  | none => exact .steps (.nil [])
  | empty => exact .steps (.nil [])
  | declaration h => exact h.shaped
  | expression h => exact h.pushesValue.pop

theorem shaped_forUpdate {update : Option Expr} (h : ∀ e, update = some e → e.Supported) :
    (forUpdateLayout update).Shaped [] [] fun _ => [] := by
  cases update with
  | none => exact .steps (.nil [])
  | some e => exact (h e rfl).pushesValue.pop

theorem shaped_option {toplevel : Bool} {s : Option Stmt}
    (h : ∀ s', s = some s' → (s'.layout toplevel).Shaped [] [] fun a => s'.boundaries toplevel a) :
    (optionLayout toplevel s).Shaped [] [] fun a => optionBoundaries toplevel a s := by
  cases s with
  | none => exact .steps (.nil [])
  | some s => exact h s rfl

theorem shaped_list {toplevel : Bool} {ss : List Stmt}
    (h : ∀ s ∈ ss, (s.layout toplevel).Shaped [] [] fun a => s.boundaries toplevel a) :
    (listLayout toplevel ss).Shaped [] [] fun a => listBoundaries toplevel a ss := by
  induction ss with
  | nil => exact .steps (.nil [])
  | cons s ss ih =>
    exact (h s List.mem_cons_self).append (ih fun s' hs => h s' (List.mem_cons_of_mem s hs))

/-- **A statement starts and ends with an empty stack**, and so do the statements in it. -/
theorem Supported.shaped {toplevel inLoop : Bool} {s : Stmt} (h : s.Supported toplevel inLoop) :
    (s.layout toplevel).Shaped [] [] fun a => s.boundaries toplevel a := by
  induction h with
  | empty => exact Layout.Shaped.ends (.steps (.nil []))
  | block _ ih => exact (shaped_list ih).ends
  | expression h =>
    cases toplevel with
    | true => exact ((h.pushesValue []).append .popv).ends
    | false => exact h.pushesValue.pop.ends
  | declaration h => exact h.shaped.ends
  | function htop name line scope body =>
    subst htop
    exact Layout.Shaped.ends (.steps (.nil []))
  | branch ht _ _ ihc iha => exact ((ht.pushesValue []).branch ihc (shaped_option iha)).ends
  | whileLoop ht _ ih => exact ((ht.pushesValue []).whileLoop ih).ends
  | forLoop hi ht hu _ ih =>
    refine (hi.shaped.forLoop (shaped_forUpdate hu) (fun p hp => ?_) ih).ends
    obtain ⟨e, he, rfl⟩ := Option.map_eq_some_iff.mp hp
    exact (ht e he).pushesValue []
  | breakLoop => exact Layout.Shaped.breakLoop.ends
  | continueLoop => exact Layout.Shaped.continueLoop.ends
  | @giveBack _ argument h =>
    cases argument with
    | none =>
      have hpush : Steps [.bare .push] [] [.value] := .cons rfl rfl rfl (.nil _)
      have hret : (Layout.ofOps [.bare .push, .bare .ret]).Shaped [] [] fun _ => [] := fun _ a =>
        (Piece.of_steps hpush a).seq rfl (.ret [])
      exact hret.ends
    | some e => exact (((h e rfl).pushesValue []).append (.ret [])).ends

end Stmt

/-! ## Units

The code of a unit stands at position 0 and outside of all loops, so nothing is assumed of other
positions. The `stop` behind it takes nothing. -/

/-- Shapes for all the instructions of a unit: each finds what it takes, and what it leaves is the
shape of each instruction that can come next. -/
structure Disciplined (code : List Op) (shapes : List Shape) : Prop where
  length : shapes.length = code.length
  start : shapes[0]? = some []
  fits : ∀ (i : Nat) (o : Op), code[i]? = some o → o.Fits (fun j => shapes[j]?) i

/-- A piece that starts and ends with an empty stack, followed by `stop`. It may jump to its
start. -/
theorem Piece.disciplined {code : List Op} {empty : List Nat}
    (h : Piece (fun S => S 0 = some [] ∧ S 0 = some []) 0 code [] [] empty) :
    ∃ shapes, Disciplined (code ++ [.bare .stop]) shapes ∧ ∀ j ∈ empty, shapes[j]? = some [] := by
  obtain ⟨shapes, hlen, hhead, hS⟩ := h
  have hstart : (shapes ++ [[]])[0]? = some [] := by
    rw [← List.head?_eq_getElem?]
    exact hhead
  have hassigns : Assigns (fun j => (shapes ++ [[]])[j]?) 0 (shapes ++ [[]]) := by
    intro k shape hk
    rw [Nat.zero_add]
    exact hk
  obtain ⟨hsound, hempty⟩ := hS _ ⟨hstart, hstart⟩ hassigns
  refine ⟨shapes ++ [[]], ⟨by simp [hlen], hstart, fun i o ho => ?_⟩, hempty⟩
  rcases Nat.lt_or_ge i code.length with hlt | hge
  · rw [List.getElem?_append_left hlt] at ho
    have := hsound i o ho
    rwa [Nat.zero_add] at this
  · rw [List.getElem?_append_right hge, List.getElem?_singleton] at ho
    split at ho
    · rename_i hzero
      have hi : i = shapes.length := by omega
      cases ho
      exact ⟨_, [], rfl, by simp [hi], fun _ => rfl, nofun⟩
    · cases ho

/-- **The stack discipline.** The instructions of every unit can be given shapes such that the stack
is empty at the start, every instruction finds the marks that it takes, and what it leaves is the
shape of each instruction that can come next; `stop`, `return` and `popv` find nothing below of what
they take. The stack is empty in front of and behind of every statement. -/
theorem stack_discipline {p : Program} {fold : Bool} {file : ObjectFile}
    (h : p.compile fold = .ok file) {i : Nat} {unit : CodeUnit}
    (hunit : file.units[i]? = some unit) :
    ∃ body shapes, (p.bodies fold)[i]? = some body ∧ Disciplined unit.ops shapes ∧
      ∀ j ∈ Stmt.listBoundaries body.toplevel 0 body.statements, shapes[j]? = some [] := by
  obtain ⟨body, hbody, hrefusal, hops⟩ := p.unit_of_compile h hunit
  have hsupported := Stmt.supported_of_list body.statements hrefusal
  have hshaped := Stmt.shaped_list fun s hs => (hsupported s hs).shaped
  obtain ⟨shapes, hdisciplined, hempty⟩ := (hshaped ⟨0, 0⟩ 0).disciplined
  rw [hops ⟨0, 0⟩]
  exact ⟨body, shapes, hbody, hdisciplined, hempty⟩

/-- `while (f(true)) x = [null];` -/
def Program.callInLoop : Program where
  filename := "loop.js"
  body := [.whileLoop (.call (.identifier ⟨"f", .global "f"⟩) [.boolean true])
    (.expression (.assign .assign (.identifier ⟨"x", .global "x"⟩) (.array [some .null])))]

/-- The stack is empty in front of the assignment of the loop and behind it. -/
theorem stack_discipline_callInLoop :
    ∃ file unit, Program.callInLoop.compile true = .ok file ∧ file.units[0]? = some unit ∧
      ∃ shapes, Disciplined unit.ops shapes ∧ shapes[4]? = some [] ∧ shapes[12]? = some [] := by
  obtain ⟨file, unit, hcompile, hunit⟩ := Program.callInLoop.exists_unit true 0 (by decide +kernel)
  obtain ⟨body, shapes, hbody, hshapes, hempty⟩ := stack_discipline hcompile hunit
  cases hbody
  exact ⟨file, unit, hcompile, hunit, shapes, hshapes, hempty 4 (by decide), hempty 12 (by decide)⟩

end StackCode
