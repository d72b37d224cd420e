import StackCode.Proofs.Machine.Statement

/-!
# Compiled code does what the tree means

The layout of every statement simulates the statement, one rule for each combinator of layouts. A
unit is the layout of its body with a `stop` behind it, so its run ends as the body ends, and in the
same state.

## An equivalence

The run of a unit comes to an end exactly if the body does, and both end alike: they stop, return
the same value or fail with the same error, and leave the same store and the same recorded value.
The direction from the tree to the run is the usual one. The other one is what excludes that the
code ends where the tree goes on forever, and it cannot be had from the first by determinism, since
a body that does not end has no ending to start from.

Errors of primitives are followed as well, with the store at the time of the failure. Nothing is
said of the stack of a failed run.

The theorem is about units of a compiled script, with folding or without. With folding the body is
the folded one, and that folding keeps the meaning of sums is a statement about the folder.
-/

set_option autoImplicit false

namespace StackCode

open Machine
open Behaviour (leave record perform andThen Iterates)

variable {V S E : Type}

/-- The code of the layout follows the behaviour wherever it is placed. -/
def Layout.Simulates (P : Primitives V S E) (plan : Layout) (before : List V)
    (behaviour : Behaviour V S E) : Prop :=
  ∀ code t a, CodeAt code a (plan.code t a) → Mimics P code t a before (a + plan.size) behaviour

/-! ## Straight code

Instructions that end a statement, each with the behaviour that it stands for. -/

namespace Layout

variable {P : Primitives V S E} {p q s : Layout} {before : List V}

theorem simulates_nothing : nothing.Simulates P [] (leave .normal) := by
  intro code t a _
  refine .of_lands (f := id) ?_
  intro σ
  exact .refl

theorem simulates_pop (v : V) : (ofOps [.bare .pop]).Simulates P [v] (leave .normal) := by
  intro code t a hcode
  refine .of_lands (f := id) ?_
  intro σ
  have hstep := step_of_getElem? P code (c := ⟨a, [v], σ⟩) hcode.head
  exact .single hstep

theorem simulates_popv (v : V) : (ofOps [.bare .popv]).Simulates P [v] (record v) := by
  intro code t a hcode
  refine .of_lands ?_
  intro σ
  have hstep := step_of_getElem? P code (c := ⟨a, [v], σ⟩) hcode.head
  exact .single hstep

theorem simulates_ret (v : V) : (ofOps [.bare .ret]).Simulates P [v] (leave (.returned v)) := by
  intro code t a hcode
  refine .of_lands (f := id) ?_
  intro σ
  have hstep := step_of_getElem? P code (c := ⟨a, [v], σ⟩) hcode.head
  exact ⟨_, .refl, hstep⟩

/-- `break` ends its statement by leaving the loop. -/
theorem simulates_breakLoop : breakLoop.Simulates P [] (leave .broke) := by
  intro code t a hcode
  refine .of_lands (f := id) ?_
  intro σ
  have hstep := step_of_getElem? P code (c := ⟨a, [], σ⟩) hcode.head
  exact .single hstep

theorem simulates_continueLoop : continueLoop.Simulates P [] (leave .continued) := by
  intro code t a hcode
  refine .of_lands (f := id) ?_
  intro σ
  have hstep := step_of_getElem? P code (c := ⟨a, [], σ⟩) hcode.head
  exact .single hstep

/-- Code that computes an effect, placed somewhere. -/
theorem Computes.follows {α : Type} {m : Effect S E α} {after : α → List V}
    (h : p.Computes P before m after) {code : List Op} {t : LoopTargets} {a : Nat}
    (hcode : CodeAt code a (p.code t a)) (σ : State V S) :
    Follows P code a before σ m fun x => (a + p.size, after x) := by
  have := h code t a hcode [] σ
  simpa only [List.append_nil] using this

/-- An effect, and code that goes on with its result. -/
theorem Computes.simulates {α : Type} {m : Effect S E α} {after : α → List V}
    {f : α → Behaviour V S E} (h : p.Computes P before m after)
    (h' : ∀ x, q.Simulates P (after x) (f x)) : (p ++ q).Simulates P before (perform m f) := by
  intro code t a hcode
  have hq := hcode.right (b := a + p.size) (by rw [length_code])
  have hsize : a + (p ++ q).size = a + p.size + q.size := (Nat.add_assoc a p.size q.size).symm
  rw [hsize]
  exact .perform (h.follows hcode.left) fun x => h' x code t _ hq

/-- An effect that leaves nothing on the stack. -/
theorem Computes.simulates_unit {m : Effect S E Unit} (h : p.Computes P [] m fun _ => []) :
    p.Simulates P [] (perform m fun _ => leave .normal) := by
  intro code t a hcode
  refine .perform (h.follows hcode) fun _ => .of_lands (f := id) ?_
  intro σ
  exact .refl

/-- In sequence. The second part is only reached if the first one ends normally. -/
theorem Simulates.append {first second : Behaviour V S E} (h : p.Simulates P before first)
    (h' : q.Simulates P [] second) : (p ++ q).Simulates P before (andThen first second) := by
  intro code t a hcode
  have hq := hcode.right (b := a + p.size) (by rw [length_code])
  have hsize : a + (p ++ q).size = a + p.size + q.size := (Nat.add_assoc a p.size q.size).symm
  rw [hsize]
  exact (h code t a hcode.left).andThen (h' code t _ hq)

/-! ## Tests -/

/-- A condition, and the jump when it does not hold. -/
theorem Computes.follows_test {m : Effect S E V} (h : p.Evaluates P m) {code : List Op}
    {t : LoopTargets} {a b : Nat} (hcode : CodeAt code a (p.code t a))
    (hifEq : code[a + p.size]? = some (.jump .ifEq b)) (σ : State V S) :
    Follows P code a [] σ (m >>= fun x => pure (P.truthy x)) fun yes =>
      (if yes then a + p.size + 1 else b, []) := by
  refine (h.follows hcode σ).bind fun v _ σ' => .pure ?_
  by_cases hv : P.truthy v = true
  · rw [if_pos hv]
    exact steps_ifEq_truthy hifEq hv
  · rw [if_neg hv]
    exact steps_ifEq_falsy hifEq hv

/-- Exactly one of two statements is run. -/
theorem Simulates.branch {m : Effect S E V} {yes no : Behaviour V S E} (htest : p.Evaluates P m)
    (hyes : q.Simulates P [] yes) (hno : s.Simulates P [] no) :
    (Layout.branch p q s).Simulates P []
      (perform (m >>= fun x => pure (P.truthy x)) fun b => if b then yes else no) := by
  intro code t a hcode
  obtain ⟨hptest, hifEq, hpyes, hgoto, hpno⟩ := codeAt_branch hcode
  have hend : a + (Layout.branch p q s).size = a + p.size + q.size + s.size + 2 := by
    simp only [Layout.branch]
    omega
  rw [hend]
  refine .perform (htest.follows_test hptest hifEq) fun b => ?_
  cases b with
  | true => exact (hyes code t _ hpyes).steps fun σ => steps_goto hgoto
  | false =>
    have hplace : a + p.size + q.size + 2 + s.size = a + p.size + q.size + s.size + 2 := by omega
    rw [← hplace]
    exact hno code t _ hpno

/-- The test of a loop, which may be missing. -/
theorem follows_guard {test : Option Expr}
    (h : ∀ e, test = some e → e.layout.Evaluates P (e.eval P)) {code : List Op} {t : LoopTargets}
    {a : Nat} (hcode : CodeAt code a ((guard (test.map Expr.layout)).code t a)) (σ : State V S) :
    Follows P code a [] σ (test.elim (pure true) (Expr.evalTest P)) fun yes =>
      (if yes then a + (guard (test.map Expr.layout)).size else t.exit, []) := by
  cases test with
  | none => exact .pure .refl
  | some e =>
    have hifEq := hcode.right (b := a + e.layout.size) (by rw [length_code])
    exact (h e rfl).follows_test hcode.left hifEq.head σ

/-! ## Loops

A `while` is a loop whose update does nothing, and a `for` is one whose first iteration begins
behind the update. -/

theorem Simulates.whileLoop {m : Effect S E V} {body : Behaviour V S E} (htest : p.Evaluates P m)
    (hbody : q.Simulates P [] body) :
    (Layout.whileLoop p q).Simulates P []
      (Iterates (m >>= fun x => pure (P.truthy x)) (pure ()) body) := by
  intro code t a hcode
  let inner : LoopTargets := ⟨a, a + p.size + q.size + 2⟩
  have hend : a + (Layout.whileLoop p q).size = inner.exit := by
    simp only [Layout.whileLoop, inner]
    omega
  have hptest : CodeAt code a (p.code inner a ++ [.jump .ifEq inner.exit]) := hcode.left.left
  have hifEq := hptest.right (b := a + p.size) (by rw [length_code])
  have hpbody := hcode.left.right (b := a + p.size + 1) (by rw [length_code]; rfl)
  have hback := hcode.right (b := a + p.size + 1 + q.size) (by
    rw [List.length_append, length_code, length_code]
    simp only [guard]
    omega)
  rw [hend]
  refine .iterates (htest.follows_test hptest.left hifEq.head)
    (hbody code inner _ hpbody) hback.head ?_
  intro σ
  exact .pure .refl

/-- The run comes to the first test without the update. -/
theorem Simulates.forLoop {init update : Effect S E Unit} {test : Option Expr}
    {body : Behaviour V S E} (hinit : p.Computes P [] init fun _ => [])
    (hupdate : q.Computes P [] update fun _ => [])
    (htest : ∀ e, test = some e → e.layout.Evaluates P (e.eval P)) (hbody : s.Simulates P [] body) :
    (Layout.forLoop p q (test.map Expr.layout) s).Simulates P []
      (perform init fun _ => Iterates (test.elim (pure true) (Expr.evalTest P)) update body) := by
  intro code t a hcode
  let g := guard (test.map Expr.layout)
  let entry := a + p.size + 1
  let start := entry + q.size
  let inner : LoopTargets := ⟨entry, start + g.size + s.size + 1⟩
  have hend : a + (Layout.forLoop p q (test.map Expr.layout) s).size = inner.exit := by
    simp only [Layout.forLoop, inner, start, entry, g]
    omega
  have hhead : CodeAt code a (p.code t a ++ .jump .goto start :: q.code t entry) :=
    hcode.left.left.left
  have hskip := hhead.right (b := a + p.size) (by rw [length_code])
  have hptest := hcode.left.left.right (b := start) (by
    simp only [List.length_append, List.length_cons, length_code, start, entry]
    omega)
  have hpbody := hcode.left.right (b := start + g.size) (by
    simp only [List.length_append, List.length_cons, length_code, start, entry, g]
    omega)
  have hback := hcode.right (b := start + g.size + s.size) (by
    simp only [List.length_append, List.length_cons, length_code, start, entry, g]
    omega)
  -- The jump over the update is taken only on the way in.
  have hfirst : ∀ σ, Follows P code a [] σ init fun _ => (start, []) := by
    intro σ
    exact (hinit.follows hhead.left σ).steps fun _ σ' => steps_goto hskip.head
  rw [hend]
  refine .perform hfirst fun _ => ?_
  exact .iterates (follows_guard htest hptest) (hbody code inner _ hpbody) hback.head
    (hupdate.follows hskip.tail)

end Layout

/-! ## Statements

By induction on the grammar of what is compiled. Each case names the layouts that the statement is
made of and the rule that puts them together. -/

namespace Stmt

variable (P : Primitives V S E)

/-- An expression that is evaluated for its effect. -/
theorem computes_discard {e : Expr} (h : e.Supported) :
    (e.layout ++ .ofOps [.bare .pop]).Computes P [] (e.discard P) fun _ => [] :=
  (h.evaluates P).append fun x => Layout.computes_pop P x

/-- Declarations are stored in order, and the first failure ends them. -/
theorem SupportedDeclarators.computes {ds : List (Variable × Option Expr)}
    (h : SupportedDeclarators ds) :
    (declaratorsLayout ds).Computes P [] (declare P ds) fun _ => [] := by
  induction ds with
  | nil => exact .nothing rfl
  | cons d ds ih =>
    obtain ⟨v, init⟩ := d
    have hrest := ih fun v' init' hmem => h v' init' (List.mem_cons_of_mem _ hmem)
    cases init with
    | none => exact hrest
    | some init =>
      have hinit := (h v init List.mem_cons_self).evaluates P
      rw [declaratorsLayout, Layout.append_assoc]
      exact (v.evaluates_store P hinit).append fun x => (Layout.computes_pop P x).append_pure hrest

theorem SupportedInit.computes {init : Option Stmt} (h : SupportedInit init) :
    (forInitLayout init).Computes P [] (initialise P init) fun _ => [] := by
  cases h with
  | none => exact .nothing rfl
  | empty => exact .nothing rfl
  | declaration h => exact h.computes P
  | expression h => exact computes_discard P h

theorem computes_forUpdate {update : Option Expr} (h : ∀ e, update = some e → e.Supported) :
    (forUpdateLayout update).Computes P [] (update.elim (pure ()) (Expr.discard P)) fun _ =>
      [] := by
  cases update with
  | none => exact .nothing rfl
  | some e => exact computes_discard P (h e rfl)

variable {P}

theorem simulates_option {toplevel : Bool} {s : Option Stmt}
    (h : ∀ s', s = some s' → (s'.layout toplevel).Simulates P [] (s'.exec P toplevel)) :
    (optionLayout toplevel s).Simulates P [] (execOption P toplevel s) := by
  cases s with
  | none => exact Layout.simulates_nothing
  | some s => exact h s rfl

theorem simulates_list {toplevel : Bool} {ss : List Stmt}
    (h : ∀ s ∈ ss, (s.layout toplevel).Simulates P [] (s.exec P toplevel)) :
    (listLayout toplevel ss).Simulates P [] (execList P toplevel ss) := by
  induction ss with
  | nil => exact Layout.simulates_nothing
  | cons s ss ih =>
    have hss := ih fun s' hs => h s' (List.mem_cons_of_mem s hs)
    exact (h s List.mem_cons_self).append hss

/-- A `return` without value. -/
theorem simulates_returnUndefined :
    (Layout.ofOps [.bare .push, .bare .ret]).Simulates P [] (leave (.returned P.undefined)) := by
  intro code t a hcode
  refine .of_lands (f := id) ?_
  intro σ
  have hpush := step_of_getElem? P code (c := ⟨a, [], σ⟩) hcode.head
  have hret := step_of_getElem? P code (c := ⟨a + 1, [P.undefined], σ⟩) hcode.tail.head
  exact ⟨_, .single hpush, hret⟩

/-- **The code of a statement does what the statement means.** -/
theorem Supported.simulates (P : Primitives V S E) {toplevel inLoop : Bool} {s : Stmt}
    (h : s.Supported toplevel inLoop) : (s.layout toplevel).Simulates P [] (s.exec P toplevel) := by
  induction h with
  | empty => exact Layout.simulates_nothing
  | block _ ih => exact simulates_list ih
  | expression h =>
    cases toplevel with
    | true => exact (h.evaluates P).simulates fun v => Layout.simulates_popv v
    | false => exact (h.evaluates P).simulates fun v => Layout.simulates_pop v
  | declaration h => exact (h.computes P).simulates_unit
  | function htop name line scope body =>
    subst htop
    exact Layout.simulates_nothing
  | branch ht _ _ ihc iha => exact .branch (ht.evaluates P) ihc (simulates_option iha)
  | whileLoop ht _ ih => exact .whileLoop (ht.evaluates P) ih
  | forLoop hi ht hu _ ih =>
    exact .forLoop (hi.computes P) (computes_forUpdate P hu) (fun e he => (ht e he).evaluates P) ih
  | breakLoop => exact Layout.simulates_breakLoop
  | continueLoop => exact Layout.simulates_continueLoop
  | @giveBack _ argument h =>
    cases argument with
    | none => exact simulates_returnUndefined
    | some e => exact ((h e rfl).evaluates P).simulates fun v => Layout.simulates_ret v

end Stmt

/-! ## Units

A unit is its body at position 0 followed by `stop`. A body that ends normally runs into it. -/

/-- The outcome of a unit whose body ends in a given way. No unit ends by a `break` or a
`continue`. -/
def Ending.outcome? : Ending V E → Option (Outcome V E)
  | .normal => some .stopped
  | .returned v => some (.returned v)
  | .failed e => some (.failed e)
  | .broke | .continued => none

section

variable {P : Primitives V S E} {plan : Layout} {behaviour : Behaviour V S E} {ops : List Op}

theorem Layout.codeAt_unit (hops : ∀ t, ops = plan.code t 0 ++ [.bare .stop]) (t : LoopTargets) :
    CodeAt ops 0 (plan.code t 0) ∧ ops[plan.size]? = some (.bare .stop) := by
  have hall : CodeAt ops 0 (plan.code t 0 ++ [.bare .stop]) := by
    refine ⟨[], ?_⟩
    rw [List.append_nil, List.drop_zero, ← hops t]
  exact ⟨hall.left, (hall.right (b := plan.size) (by rw [length_code, Nat.zero_add])).head⟩

theorem Machine.ends_of_stop {b : Nat} (hstop : ops[b]? = some (.bare .stop)) (σ : State V S) :
    Ends P ops ⟨b, [], σ⟩ ⟨.stopped, σ⟩ := by
  have hstep := step_of_getElem? P ops (c := ⟨b, [], σ⟩) hstop
  exact ⟨_, .refl, hstep⟩

/-- A unit does not end by a jump out of a loop: the code has no loop targets in it, so it would
arrive at every position at once. -/
theorem Layout.Simulates.exists_outcome (hsim : plan.Simulates P [] behaviour)
    (hops : ∀ t, ops = plan.code t 0 ++ [.bare .stop]) {σ σ' : State V S} {r : Ending V E}
    (hb : behaviour σ r σ') : ∃ o, r.outcome? = some o := by
  have harrives : ∀ x, r = .broke ∨ r = .continued → Steps P ops ⟨0, [], σ⟩ ⟨x, [], σ'⟩ := by
    intro x hr
    have hlands := (hsim ops ⟨x, x⟩ 0 (codeAt_unit hops ⟨x, x⟩).1).forward hb
    rcases hr with rfl | rfl
    · exact hlands.to_reflTransGen
    · exact hlands.to_reflTransGen
  have hno : ¬ (r = .broke ∨ r = .continued) := by
    intro hr
    -- At the end of the layout the run stops; behind the end of the code it is stuck.
    have hstops := ends_of_stop (P := P) (codeAt_unit hops ⟨0, 0⟩).2 σ'
    have hgets : Ends P ops ⟨ops.length, [], σ'⟩ ⟨.stuck, σ'⟩ := by
      refine ⟨_, .refl, ?_⟩
      rw [step, List.getElem?_eq_none (Nat.le_refl _)]
    obtain ⟨n, hrun⟩ := (hstops.of_steps (harrives _ hr)).exists_run
    have := (hgets.of_steps (harrives _ hr)).eq_of_run hrun
    cases this
  cases r with
  | normal => exact ⟨.stopped, rfl⟩
  | returned v => exact ⟨.returned v, rfl⟩
  | failed e => exact ⟨.failed e, rfl⟩
  | broke => exact absurd (.inl rfl) hno
  | continued => exact absurd (.inr rfl) hno

/-- A body that ends in a way that a unit can end in. -/
theorem Layout.Simulates.ends (hsim : plan.Simulates P [] behaviour)
    (hops : ∀ t, ops = plan.code t 0 ++ [.bare .stop]) {σ σ' : State V S} {r : Ending V E}
    (hb : behaviour σ r σ') {o : Outcome V E} (ho : r.outcome? = some o) :
    Ends P ops ⟨0, [], σ⟩ ⟨o, σ'⟩ := by
  obtain ⟨hcode, hstop⟩ := codeAt_unit hops ⟨0, 0⟩
  have hlands := (hsim ops ⟨0, 0⟩ 0 hcode).forward hb
  cases r with
  | normal =>
    cases ho
    rw [Nat.zero_add] at hlands
    exact (ends_of_stop hstop σ').of_steps hlands
  | returned v =>
    cases ho
    exact hlands
  | failed e =>
    cases ho
    exact hlands
  | broke => cases ho
  | continued => cases ho

/-- The run of a unit ends as its body ends. -/
theorem Layout.Simulates.halts_iff (hsim : plan.Simulates P [] behaviour)
    (hops : ∀ t, ops = plan.code t 0 ++ [.bare .stop]) (store : S) (h : Halted V S E) :
    Halts P ops store h ↔
      ∃ r, r.outcome? = some h.outcome ∧ behaviour ⟨store, none⟩ r h.state := by
  constructor
  · rintro ⟨n, hrun⟩
    obtain ⟨r, σ', hb⟩ := (hsim ops ⟨0, 0⟩ 0 (codeAt_unit hops ⟨0, 0⟩).1).backward hrun
    obtain ⟨o, ho⟩ := hsim.exists_outcome hops hb
    obtain rfl := (hsim.ends hops hb ho).eq_of_run hrun
    exact ⟨r, ho, hb⟩
  · rintro ⟨r, ho, hb⟩
    exact (hsim.ends hops hb ho).exists_run

end

/-- **Compiled code does what the tree means.** For all primitives, the run of a unit comes to an
end exactly if its body does, with the same outcome, store and recorded value. So it also never gets
stuck. With folding on, the body is that of the folded tree. -/
theorem halts_iff_exec {p : Program} {fold : Bool} {file : ObjectFile}
    (h : p.compile fold = .ok file) {i : Nat} {unit : CodeUnit}
    (hunit : file.units[i]? = some unit) :
    ∃ body, (p.bodies fold)[i]? = some body ∧
      ∀ (P : Primitives V S E) (store : S) (halted : Halted V S E),
        Halts P unit.ops store halted ↔
          ∃ r, r.outcome? = some halted.outcome ∧
            Stmt.execList P body.toplevel body.statements ⟨store, none⟩ r halted.state := by
  obtain ⟨body, hbody, hrefusal, hops⟩ := p.unit_of_compile h hunit
  have hsupported := Stmt.supported_of_list body.statements hrefusal
  refine ⟨body, hbody, ?_⟩
  intro P store halted
  have hsim : body.layout.Simulates P [] (Stmt.execList P body.toplevel body.statements) :=
    Stmt.simulates_list fun s hs => (hsupported s hs).simulates P
  exact hsim.halts_iff hops store halted

/-- `for (;; n++) if (n) continue; else return;` -/
def Program.countUp : Program where
  filename := "count.js"
  body := [.forLoop none none (some (.update .increment false (.identifier ⟨"n", .global "n"⟩)))
    (.branch (.identifier ⟨"n", .global "n"⟩) .continueLoop (some (.giveBack none)))]

/-- The run of a loop without test, whose iterations but the first start with the update. -/
theorem halts_iff_exec_countUp :
    ∃ file unit, Program.countUp.compile false = .ok file ∧ file.units[0]? = some unit ∧
      ∀ (P : Primitives Int Nat String) (store : Nat) (halted : Halted Int Nat String),
        Halts P unit.ops store halted ↔
          ∃ r, r.outcome? = some halted.outcome ∧
            Stmt.execList P true Program.countUp.body ⟨store, none⟩ r halted.state := by
  obtain ⟨file, unit, hcompile, hunit⟩ := Program.countUp.exists_unit false 0 (by decide +kernel)
  obtain ⟨body, hbody, hruns⟩ := halts_iff_exec hcompile hunit
  cases hbody
  exact ⟨file, unit, hcompile, hunit, hruns⟩

end StackCode
