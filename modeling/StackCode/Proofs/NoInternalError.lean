import StackCode.Proofs.Layout.Refusal
import StackCode.Proofs.WellFormed.Units

/-!
# No tree leads to an internal error

Internal errors are about labels and loops: a label that is unknown or fixed twice, a unit that is
closed with labels or loops left open. A tree is refused for what is written in it, and never for
one of these.

A unit is refused exactly if its layout is, and the refusals of layouts are read off the tree
(`Layout.External`). So a run of the compiler ends in no internal error. Since a label that cannot
be fixed is one, every attempt to fix a label succeeds; and since a unit that succeeds is closed,
every label that was allocated has been given a position, once.

The statement is about trees of any form, also those that are refused, and with folding as well as
without. It does not hold of sequences of operations in general: whoever works on an open unit
directly may fix a label twice. What it rules out is that the compiler ever does.

Errors have kinds, and the kind is what is looked at. Which error it is, and where, does not matter
here.
-/

set_option autoImplicit false

namespace StackCode

/-! ## What layouts are refused for

Outside of loops and inside of them, since a part of a loop may be refused for something else than
the same part elsewhere. -/

/-- The layout is refused for no internal error. -/
def Layout.External (plan : Layout) : Prop :=
  ∀ inLoop e, plan.refusal inLoop = some e → e.kind ≠ .internal

namespace Layout

variable {p q r : Layout}

theorem external_ofOps (ops : List Op) : (ofOps ops).External := by
  intro inLoop
  exact refusedFor_ofOps (P := fun e => e.kind ≠ .internal) ops

theorem external_refused {e : Error} (h : e.kind ≠ .internal) : (refused e).External := by
  intro inLoop
  exact refusedFor_refused (P := fun e => e.kind ≠ .internal) h

theorem external_unsupported (feature : Feature) : (unsupported feature).External :=
  external_refused nofun

theorem External.append (hp : p.External) (hq : q.External) : (p ++ q).External := by
  intro inLoop
  exact RefusedFor.append (hp inLoop) (hq inLoop)

theorem External.branch (hp : p.External) (hq : q.External) (hr : r.External) :
    (branch p q r).External := by
  intro inLoop
  exact RefusedFor.branch (hp inLoop) (hq inLoop) (hr inLoop)

theorem External.whileLoop (hp : p.External) (hq : q.External) : (whileLoop p q).External := by
  intro inLoop
  exact RefusedFor.whileLoop (hp true) (hq true)

theorem External.forLoop {test : Option Layout} (hp : p.External) (hq : q.External)
    (htest : ∀ t ∈ test, t.External) (hr : r.External) : (forLoop p q test r).External := by
  intro inLoop
  exact RefusedFor.forLoop (hp inLoop) (hq inLoop) (fun t ht => htest t ht true) (hr true)

/-- A result whose error is no internal one. -/
theorem external_given {α : Type} {result : Except Error α} {plan : α → Layout}
    (herror : ∀ e, result = .error e → e.kind ≠ .internal) (h : ∀ a, (plan a).External) :
    (given result plan).External := by
  cases result with
  | ok a => exact h a
  | error e => exact external_refused (herror e rfl)

/-- A `break` without loop is an error of the script. -/
theorem external_breakLoop : breakLoop.External := by
  intro inLoop e h
  cases inLoop <;> cases h
  nofun

theorem external_continueLoop : continueLoop.External := by
  intro inLoop e h
  cases inLoop <;> cases h
  nofun

end Layout

/-! ## Expressions and statements

The leaves are literals, operators and numbers of arguments, each with errors of its own, and the
forms that are refused on sight. -/

open Layout

theorem Instruction.kind_of_ofNumber {value : Double} {e : Error} (h : ofNumber value = .error e) :
    e.kind ≠ .internal := by
  unfold ofNumber at h
  split at h
  · cases h
    nofun
  · split at h
    · cases h
    · cases h
      nofun

theorem Layout.external_number (value : Double) : (number value).External := by
  unfold number
  split
  · exact external_ofOps _
  · rename_i e herror
    exact external_refused (Instruction.kind_of_ofNumber herror)

/-- A string literal is refused for an escape in it. -/
theorem Literal.kind_of_decode {raw : String} {e : Error} (h : decode raw = .error e) :
    e.kind ≠ .internal := by
  unfold decode at h
  split at h
  · cases h
  · cases h
    nofun

theorem BinaryOp.kind_of_opcode {op : BinaryOp} {e : Error} (h : op.opcode = .error e) :
    e.kind ≠ .internal := by
  cases op <;> cases h <;> nofun

theorem UnaryOp.kind_of_opcode {op : UnaryOp} {e : Error} (h : op.opcode = .error e) :
    e.kind ≠ .internal := by
  cases op <;> cases h <;> nofun

theorem Operand.kind_of_ofArgCount {n : Nat} {e : Error} (h : ofArgCount n = .error e) :
    e.kind ≠ .internal := by
  unfold ofArgCount at h
  split at h
  · cases h
  · cases h
    nofun

theorem Variable.external_store (v : Variable) {value : Layout} (h : value.External) :
    (v.store value).External :=
  ((external_ofOps _).append h).append (external_ofOps _)

namespace Expr

mutual

/-- **An expression is refused for no internal error.** -/
theorem external_layout (e : Expr) : e.layout.External := by
  cases e with
  | number value => exact external_number value
  | string raw => exact external_given (fun _ => Literal.kind_of_decode) fun _ => external_ofOps _
  | regExp pattern flags => exact external_unsupported _
  | null => exact external_ofOps _
  | boolean value => exact external_ofOps _
  | this => exact external_ofOps _
  | identifier v => exact external_ofOps _
  | array items =>
    rw [layout]
    split
    · exact external_unsupported _
    · split
      · exact external_unsupported _
      · exact ((external_ofOps _).append (external_elementsLayout 0 items)).append
          (external_ofOps _)
  | object properties => exact external_unsupported _
  | binary op left right =>
    apply external_given
    · intro _
      exact BinaryOp.kind_of_opcode
    · intro opcode
      exact (left.external_layout.append right.external_layout).append (external_ofOps _)
  | unary op argument =>
    apply external_given
    · intro _
      exact UnaryOp.kind_of_opcode
    · intro opcode
      exact argument.external_layout.append (external_ofOps _)
  | update op before argument =>
    cases op with
    | decrement => exact external_unsupported _
    | increment =>
      cases before with
      | true => exact external_unsupported _
      | false => exact argument.external_incrementLayout
  | assign op target value =>
    cases op with
    | assign => exact target.external_assignLayout value.external_layout
    | _ => exact external_unsupported _
  | call callee arguments =>
    apply external_given
    · intro _
      exact Operand.kind_of_ofArgCount
    · intro count
      exact (callee.external_functionLayout.append (external_listLayout arguments)).append
        (external_ofOps _)
  | new callee arguments =>
    cases callee with
    | identifier v =>
      apply external_given
      · intro _
        exact Operand.kind_of_ofArgCount
      · intro count
        exact ((external_ofOps _).append (external_listLayout arguments)).append (external_ofOps _)
    | _ => exact external_unsupported _
  | member obj property => exact obj.external_layout.append (external_ofOps _)
  | index obj key =>
    exact (obj.external_layout.append key.external_layout).append (external_ofOps _)
  | conditional test consequent alternate =>
    exact test.external_layout.branch consequent.external_layout alternate.external_layout
  | comma left right =>
    exact (left.external_layout.append (external_ofOps _)).append right.external_layout
  | function name scope body => exact external_refused nofun

theorem external_incrementLayout (argument : Expr) : argument.incrementLayout.External := by
  cases argument with
  | identifier v => exact external_ofOps _
  | member obj property => exact obj.external_layout.append (external_ofOps _)
  | index obj key =>
    exact (obj.external_layout.append key.external_layout).append (external_ofOps _)
  | _ => exact external_unsupported _

theorem external_assignLayout (target : Expr) {value : Layout} (h : value.External) :
    (target.assignLayout value).External := by
  cases target with
  | identifier v => exact v.external_store h
  | member obj property => exact (obj.external_layout.append h).append (external_ofOps _)
  | index obj key =>
    exact ((obj.external_layout.append key.external_layout).append h).append (external_ofOps _)
  | _ => exact external_unsupported _

theorem external_functionLayout (callee : Expr) : callee.functionLayout.External := by
  cases callee with
  | identifier v => exact external_ofOps _
  | member obj property => exact obj.external_layout.append (external_ofOps _)
  | index obj key =>
    exact (obj.external_layout.append key.external_layout).append (external_ofOps _)
  | _ => exact external_unsupported _

theorem external_listLayout (es : List Expr) : (listLayout es).External := by
  cases es with
  | nil => exact external_ofOps []
  | cons e es => exact e.external_layout.append (external_listLayout es)

theorem external_elementsLayout (first : Nat) (items : List (Option Expr)) :
    (elementsLayout first items).External := by
  cases items with
  | nil => exact external_ofOps []
  | cons item items =>
    cases item with
    | none => exact external_elementsLayout first items
    | some e =>
      exact (((external_number _).append e.external_layout).append (external_ofOps _)).append
        (external_elementsLayout (first + 1) items)

end

end Expr

namespace Stmt

theorem external_declaratorsLayout (ds : List (Variable × Option Expr)) :
    (declaratorsLayout ds).External := by
  induction ds with
  | nil => exact external_ofOps []
  | cons d ds ih =>
    obtain ⟨v, init⟩ := d
    cases init with
    | none => exact ih
    | some init =>
      exact ((v.external_store init.external_layout).append (external_ofOps _)).append ih

theorem external_declarationLayout (kind : DeclarationKind) (ds : List (Variable × Option Expr)) :
    (declarationLayout kind ds).External := by
  cases kind with
  | var => exact external_declaratorsLayout ds
  | lexical => exact external_unsupported _
  | constant => exact external_unsupported _

theorem external_forInitLayout (init : Option Stmt) : (forInitLayout init).External := by
  cases init with
  | none => exact external_ofOps []
  | some s =>
    cases s with
    | empty => exact external_ofOps []
    | declaration kind ds => exact external_declarationLayout kind ds
    | expression value => exact value.external_layout.append (external_ofOps _)
    | _ => exact external_unsupported _

theorem external_forUpdateLayout (update : Option Expr) : (forUpdateLayout update).External := by
  cases update with
  | none => exact external_ofOps []
  | some e => exact e.external_layout.append (external_ofOps _)

mutual

/-- **A statement is refused for no internal error.** -/
theorem external_layout (toplevel : Bool) (s : Stmt) : (s.layout toplevel).External := by
  cases s with
  | empty => exact external_ofOps []
  | block body => exact external_listLayout toplevel body
  | expression value => exact value.external_layout.append (external_ofOps _)
  | declaration kind ds => exact external_declarationLayout kind ds
  | function name line scope body =>
    cases toplevel with
    | true => exact external_ofOps []
    | false => exact external_refused nofun
  | branch test consequent alternate =>
    exact test.external_layout.branch (external_layout toplevel consequent)
      (external_optionLayout toplevel alternate)
  | whileLoop test body => exact test.external_layout.whileLoop (external_layout toplevel body)
  | forLoop init test update body =>
    apply (external_forInitLayout init).forLoop (external_forUpdateLayout update)
    · intro t ht
      obtain ⟨e, _, rfl⟩ := Option.map_eq_some_iff.mp ht
      exact e.external_layout
    · exact external_layout toplevel body
  | breakLoop => exact external_breakLoop
  | continueLoop => exact external_continueLoop
  | giveBack argument =>
    cases argument with
    | none => exact external_ofOps _
    | some e => exact e.external_layout.append (external_ofOps _)
  | _ => exact external_unsupported _

theorem external_optionLayout (toplevel : Bool) (s : Option Stmt) :
    (optionLayout toplevel s).External := by
  cases s with
  | none => exact external_ofOps []
  | some s => exact external_layout toplevel s

theorem external_listLayout (toplevel : Bool) (ss : List Stmt) :
    (listLayout toplevel ss).External := by
  cases ss with
  | nil => exact external_ofOps []
  | cons s ss => exact (external_layout toplevel s).append (external_listLayout toplevel ss)

end

end Stmt

/-! ## Runs

From layouts to runs, and from runs to logs. That a run succeeds says more than that no error was
given: the unit could be closed at once. -/

/-- A unit that has nothing left to be done: no loop is open, every label has a position, no
instruction waits for one, and finishing succeeds. -/
structure OpenUnit.Settled (unit : OpenUnit) : Prop where
  loops : unit.loops = {}
  labels : ∀ n < unit.asm.labels.size, ∃ p, unit.asm.labels[n]? = some (.fixed p)
  resolved : ∀ i ∈ unit.asm.code, ∀ l, i.operand ≠ some (.label l)
  finish : ∃ closed, unit.finish = .ok closed

/-- A label that the assembler knows to be fixed has one position. -/
theorem Draft.placed_of_fixed {d : Draft} {n p : Nat}
    (h : d.toAssembler.labels[n]? = some (.fixed p)) :
    d.placed ⟨n⟩ = 1 := by
  rw [toAssembler_getElem?, Option.map_eq_some_iff] at h
  obtain ⟨position, hget, hstate⟩ := h
  cases position with
  | none => cases hstate
  | some q => simp [placed, position?, hget]

namespace UnitSource

variable {source : UnitSource} {filename : String} {fold : Bool} {os : List Operation}
  {result : Except Error Unit} {after : OpenUnit}

theorem external_layout (source : UnitSource) (fold : Bool) :
    (source.body.folded fold).layout.External :=
  Stmt.external_listLayout _ _

/-- What the layout of the body says of a run. -/
theorem yields (source : UnitSource) (filename : String) (fold : Bool) :
    Gen.Yields (source.step fold) (source.fresh filename)
      ((source.body.folded fold).layout.refusal false) {}
      ((source.draft filename).Places (source.body.folded fold).layout {}) :=
  Gen.compiles_body fold source.body (source.draft filename) {} nofun

/-- **A run ends in no internal error.** -/
theorem kind_of_exec (hexec : (source.step fold).exec (source.fresh filename) = (result, after))
    (e : Error) (he : result = .error e) : e.kind ≠ .internal := by
  have hyields := source.yields filename fold
  unfold Gen.Yields at hyields
  subst he
  cases hrefusal : (source.body.folded fold).layout.refusal false with
  | some e' =>
    rw [hrefusal, hexec] at hyields
    cases hyields
    exact source.external_layout fold false e hrefusal
  | none =>
    rw [hrefusal, hexec] at hyields
    obtain ⟨d, hok, _⟩ := hyields
    cases hok

/-- **A run that succeeds leaves nothing to be done.** -/
theorem settled_of_exec
    (hexec : (source.step fold).exec (source.fresh filename) = (.ok (), after)) :
    after.Settled := by
  have hyields := source.yields filename fold
  have hcode := source.isCodeOf_build filename fold
  unfold Gen.Yields at hyields
  unfold IsCodeOf at hcode
  -- The run succeeded, so the layout is not refused, and the unit can be closed.
  cases hrefusal : (source.body.folded fold).layout.refusal false with
  | some e =>
    rw [hrefusal, hexec] at hyields
    cases hyields
  | none =>
    rw [hrefusal, hexec] at hyields
    rw [hrefusal] at hcode
    obtain ⟨d, hok, _⟩ := hyields
    obtain ⟨closed, hbuild, _⟩ := hcode
    cases hok
    have hfinish : (d.unit {}).finish = .ok closed := (OpenUnit.build_of_ok hexec).symm.trans hbuild
    -- Closing checks what is to be shown.
    obtain ⟨hfixed, hresolved, _⟩ := (d.close_eq_ok_iff closed).mp hfinish
    refine ⟨rfl, ?_, hresolved, closed, hfinish⟩
    intro n hn
    have hlt : n < d.positions.length := by simpa [Draft.unit, Draft.toAssembler] using hn
    obtain ⟨p, hp⟩ := hfixed ⟨n⟩ hlt
    refine ⟨p, ?_⟩
    show d.toAssembler.labels[n]? = some (.fixed p)
    rw [d.toAssembler_getElem?, Option.join_eq_some_iff.mp hp]
    rfl

/-- **A run that succeeds gives every label its position once.** -/
theorem count_placements
    (hlog : Gen.Performs (source.step fold) (source.fresh filename) os (.ok ()) after) (n : Nat)
    (hn : n < after.asm.labels.size) : (Operation.placements 0 os).count ⟨n⟩ = 1 := by
  obtain ⟨p, hp⟩ := (settled_of_exec hlog.exec_eq).labels n hn
  obtain ⟨loops, hafter⟩ := hlog.after_eq (source.fresh_eq_unit filename)
  have hpermits := hlog.permits (source.fresh_eq_unit filename) fun e he => by cases he
  have hplaced := (source.draft filename).placed_perform {} os hpermits ⟨n⟩
  rw [hafter] at hp
  rw [Draft.placed_of_fixed hp] at hplaced
  -- Nothing is placed in a new draft.
  exact (Nat.zero_add _).symm.trans hplaced.symm

/-- A unit that cannot be built is refused for another reason. -/
theorem kind_of_build {e : Error} (hbuild : source.build filename fold = .error e) :
    e.kind ≠ .internal := by
  have hcode := source.isCodeOf_build filename fold
  rw [hbuild] at hcode
  exact source.external_layout fold false e hcode.of_error

end UnitSource

/-- **No tree leads to an internal error.** No script fails with one. A run of the compiler on a new
unit has a log, and for every log of it:

- the run does not end in an internal error;
- no operation fails, so that no label is fixed that is unknown or has a position;
- if the run succeeds, the unit is settled: no loop is open, every label has a position, no
  instruction waits for a label, and finishing gives a unit;
- if the run succeeds, every label of the unit was given its position by exactly one of the
  operations. -/
theorem no_internal_error :
    (∀ (p : Program) (fold : Bool) (e : CompileError),
      p.compile fold = .error e → e.cause.kind ≠ .internal) ∧
    ∀ (source : UnitSource) (filename : String) (fold : Bool),
      (∃ os result after, Gen.Performs (source.step fold) (source.fresh filename) os result after) ∧
      ∀ os result after, Gen.Performs (source.step fold) (source.fresh filename) os result after →
        (source.step fold).exec (source.fresh filename) = (result, after) ∧
        (∀ e, result = .error e → e.kind ≠ .internal) ∧
        (source.fresh filename).Permits os ∧
        (result = .ok () → after.Settled ∧
          ∀ n < after.asm.labels.size, (Operation.placements 0 os).count ⟨n⟩ = 1) := by
  refine ⟨?_, ?_⟩
  · intro p fold e h
    obtain ⟨source, _, hbuild⟩ := Program.source_of_error h
    exact UnitSource.kind_of_build hbuild
  · intro source filename fold
    refine ⟨?_, ?_⟩
    · -- There is a log at all: nothing is asked of the operations in it.
      obtain ⟨os, result, after, hlog, _⟩ :=
        UnitSource.does_step (fun _ => True) (fun _ _ => trivial) fold (source.fresh filename)
      exact ⟨os, result, after, hlog⟩
    · intro os result after hlog
      have hkind := UnitSource.kind_of_exec hlog.exec_eq
      refine ⟨hlog.exec_eq, hkind, hlog.permits (source.fresh_eq_unit filename) hkind, ?_⟩
      intro hok
      subst hok
      exact ⟨UnitSource.settled_of_exec hlog.exec_eq, UnitSource.count_placements hlog⟩

end StackCode
