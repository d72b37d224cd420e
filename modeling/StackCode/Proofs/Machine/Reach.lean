import Mathlib.Logic.Relation
import StackCode.Proofs.Machine.Basic

/-!
# Following an effect

What the machine does with a piece of code is compared with an effect: `Follows` says that the run
comes to a given position and stack with the result of the effect, that it fails as the effect
fails, and that it goes nowhere if the effect has no outcome. The judgment is closed under the monad
operations, so that the simulation of a `do` block is put together from the simulations of its
lines. Since the machine is deterministic, it also says what a run that ends has done.

The machine is given by a step function, and a run by iterating it with fuel. Fuel is not mentioned
in the judgment. It comes back in the statements about runs that end, where an induction has to be
on something: each step uses one unit of fuel up, so what is left for the rest of a run is less than
what it started with.

A run can do three things: go on for ever, end, or come to an instruction without an outcome.
`Follows` has a clause for each outcome of an effect, and an effect never goes on for ever, so the
first of the three is left to loops.
-/

set_option autoImplicit false

namespace StackCode

/-! ## Effects

The monad laws for effects, split by what the first part comes to. -/

namespace Effect

variable {S E α β : Type} {m : Effect S E α} {f : α → Effect S E β} {s s' : S}

theorem bind_of_ok {x : α} (h : m s = some (.ok x, s')) : (m >>= f) s = f x s' := by
  show (m s).bind (fun r => ExceptT.bindCont f r.1 r.2) = f x s'
  rw [h]
  rfl

theorem bind_of_error {e : E} (h : m s = some (.error e, s')) :
    (m >>= f) s = some (.error e, s') := by
  show (m s).bind (fun r => ExceptT.bindCont f r.1 r.2) = some (.error e, s')
  rw [h]
  rfl

theorem bind_of_none (h : m s = none) : (m >>= f) s = none := by
  show (m s).bind (fun r => ExceptT.bindCont f r.1 r.2) = none
  rw [h]
  rfl

/-- A sequence that has a result has one in its first part. -/
theorem exists_of_bind_ok {y : β} (h : (m >>= f) s = some (.ok y, s')) :
    ∃ x s₁, m s = some (.ok x, s₁) ∧ f x s₁ = some (.ok y, s') := by
  cases hm : m s with
  | none =>
    rw [bind_of_none hm] at h
    cases h
  | some r =>
    obtain ⟨r, s₁⟩ := r
    cases r with
    | ok x =>
      rw [bind_of_ok hm] at h
      exact ⟨x, s₁, rfl, h⟩
    | error e =>
      rw [bind_of_error hm] at h
      cases h

/-- The effect can have this result. -/
def Gives (m : Effect S E α) (x : α) : Prop :=
  ∃ s s', m s = some (.ok x, s')

theorem Gives.of_pure {x y : α} (h : (pure x : Effect S E α).Gives y) : y = x := by
  obtain ⟨s, s', h⟩ := h
  cases h
  rfl

/-- A result of a sequence comes from a result of its first part. -/
theorem Gives.of_bind {y : β} (h : (m >>= f).Gives y) : ∃ x, m.Gives x ∧ (f x).Gives y := by
  obtain ⟨s, s', h⟩ := h
  obtain ⟨x, s₁, hm, hf⟩ := exists_of_bind_ok h
  exact ⟨x, ⟨s, s₁, hm⟩, s₁, s', hf⟩

end Effect

namespace Machine

variable {V S E : Type} (P : Primitives V S E) (code : List Op)

/-! ## Runs -/

/-- The run comes from one configuration to another. -/
abbrev Steps : Config V S → Config V S → Prop :=
  Relation.ReflTransGen fun c c' => step P code c = some (.inl c')

/-- The run from a configuration ends so. -/
def Ends (c : Config V S) (h : Halted V S E) : Prop :=
  ∃ c', Steps P code c c' ∧ step P code c' = some (.inr h)

/-- The run comes to an instruction that has no outcome. -/
def Dies (c : Config V S) : Prop :=
  ∃ c', Steps P code c c' ∧ step P code c' = none

section

variable {P code} {c c' : Config V S} {h h' : Halted V S E} {n : Nat}

/-- A run that comes to where another one ends ends there. -/
theorem Ends.of_steps (hsteps : Steps P code c c') (hends : Ends P code c' h) :
    Ends P code c h := by
  obtain ⟨last, hlast, hstep⟩ := hends
  exact ⟨last, hsteps.trans hlast, hstep⟩

theorem Dies.of_steps (hsteps : Steps P code c c') (hdies : Dies P code c') : Dies P code c := by
  obtain ⟨last, hlast, hstep⟩ := hdies
  exact ⟨last, hsteps.trans hlast, hstep⟩

/-- One step costs one unit of fuel. -/
theorem run_of_step (hstep : step P code c = some (.inl c')) (n : Nat) :
    run P code (n + 1) c = run P code n c' := by
  rw [run, hstep]

/-- A step uses fuel up. -/
theorem exists_run_of_step (hstep : step P code c = some (.inl c'))
    (hrun : run P code n c = some h) :
    ∃ m < n, run P code m c' = some h := by
  cases n with
  | zero => cases hrun
  | succ n =>
    rw [run_of_step hstep] at hrun
    exact ⟨n, Nat.lt_succ_self n, hrun⟩

/-- A run that ends does so from every configuration it comes to, with no more fuel. -/
theorem exists_run_of_steps (hsteps : Steps P code c c') (hrun : run P code n c = some h) :
    ∃ m ≤ n, run P code m c' = some h := by
  induction hsteps using Relation.ReflTransGen.head_induction_on generalizing n with
  | refl => exact ⟨n, Nat.le_refl n, hrun⟩
  | head hstep _ ih =>
    obtain ⟨k, hk, hrun⟩ := exists_run_of_step hstep hrun
    obtain ⟨m, hm, hrun⟩ := ih hrun
    exact ⟨m, by omega, hrun⟩

/-- A run that ends needs so much fuel and no more. -/
theorem Ends.exists_run (hends : Ends P code c h) : ∃ n, run P code n c = some h := by
  obtain ⟨last, hsteps, hlast⟩ := hends
  induction hsteps using Relation.ReflTransGen.head_induction_on with
  | refl => exact ⟨1, by rw [run, hlast]⟩
  | head hstep _ ih =>
    obtain ⟨n, hrun⟩ := ih
    exact ⟨n + 1, by rw [run_of_step hstep, hrun]⟩

/-- The machine is deterministic. -/
theorem Ends.eq_of_run (hends : Ends P code c h') (hrun : run P code n c = some h) : h = h' := by
  obtain ⟨last, hsteps, hlast⟩ := hends
  obtain ⟨m, _, hrun⟩ := exists_run_of_steps hsteps hrun
  cases m with
  | zero => cases hrun
  | succ m =>
    rw [run, hlast] at hrun
    exact (Option.some.inj hrun).symm

/-- A run that comes to an instruction without outcome does not end. -/
theorem Dies.run_ne (hdies : Dies P code c) (n : Nat) : run P code n c ≠ some h := by
  intro hrun
  obtain ⟨last, hsteps, hlast⟩ := hdies
  obtain ⟨m, _, hrun⟩ := exists_run_of_steps hsteps hrun
  cases m with
  | zero => cases hrun
  | succ m =>
    rw [run, hlast] at hrun
    cases hrun

end

/-! ## Code inside of code

A piece of code is followed inside of the whole unit, as jumps lead out of it. What is known of the
unit is that the piece stands in it. -/

/-- The piece stands in the code from position `a` on. -/
def CodeAt (a : Nat) (piece : List Op) : Prop :=
  piece <+: code.drop a

section

variable {code} {a b : Nat} {o : Op} {first second ops : List Op}

theorem CodeAt.left (h : CodeAt code a (first ++ second)) : CodeAt code a first :=
  (List.prefix_append first second).trans h

theorem CodeAt.right (h : CodeAt code a (first ++ second)) (hb : b = a + first.length) :
    CodeAt code b second := by
  obtain ⟨rest, hrest⟩ := h
  refine ⟨rest, ?_⟩
  rw [hb, ← List.drop_drop, ← hrest, List.append_assoc, List.drop_left]

theorem CodeAt.head (h : CodeAt code a (o :: ops)) : code[a]? = some o := by
  obtain ⟨rest, hrest⟩ := h
  have hzero : (code.drop a)[0]? = some o := by
    rw [← hrest]
    rfl
  rwa [List.getElem?_drop, Nat.add_zero] at hzero

theorem CodeAt.tail (h : CodeAt code a (o :: ops)) : CodeAt code (a + 1) ops :=
  CodeAt.right (show CodeAt code a ([o] ++ ops) from h) rfl

end

theorem step_of_getElem? {o : Op} {c : Config V S} (h : code[c.pc]? = some o) :
    step P code c = exec P o c := by
  rw [step, h]

section

variable {P code} {a b : Nat} {v : V} {stack : List V} {σ : State V S}

theorem steps_goto (h : code[a]? = some (.jump .goto b)) :
    Steps P code ⟨a, stack, σ⟩ ⟨b, stack, σ⟩ := by
  have hstep := step_of_getElem? P code (c := ⟨a, stack, σ⟩) h
  exact .single hstep

/-- A condition that holds goes on behind the jump. -/
theorem steps_ifEq_truthy (h : code[a]? = some (.jump .ifEq b)) (hv : P.truthy v = true) :
    Steps P code ⟨a, v :: stack, σ⟩ ⟨a + 1, stack, σ⟩ := by
  have hstep := step_of_getElem? P code (c := ⟨a, v :: stack, σ⟩) h
  simp only [exec, Op.jump, Op.operand, hv, if_true] at hstep
  exact .single hstep

theorem steps_ifEq_falsy (h : code[a]? = some (.jump .ifEq b)) (hv : ¬ P.truthy v = true) :
    Steps P code ⟨a, v :: stack, σ⟩ ⟨b, stack, σ⟩ := by
  have hstep := step_of_getElem? P code (c := ⟨a, v :: stack, σ⟩) h
  simp only [exec, Op.jump, Op.operand, hv] at hstep
  exact .single hstep

end

/-! ## Following an effect -/

/-- The run from position `a` with the stack `before` does what the effect does, and then stands
where `next` says. -/
def Follows {α : Type} (a : Nat) (before : List V) (σ : State V S) (m : Effect S E α)
    (next : α → Nat × List V) : Prop :=
  match m σ.store with
  | some (.ok x, s) => Steps P code ⟨a, before, σ⟩ ⟨(next x).1, (next x).2, { σ with store := s }⟩
  | some (.error e, s) => Ends P code ⟨a, before, σ⟩ ⟨.failed e, { σ with store := s }⟩
  | none => Dies P code ⟨a, before, σ⟩

section

variable {P code} {α β : Type} {a b : Nat} {before mid : List V} {σ : State V S} {m : Effect S E α}
  {next : α → Nat × List V}

/-- What has no effect may be followed by any number of steps that leave the store alone. -/
theorem Follows.pure {x : α} (h : Steps P code ⟨a, before, σ⟩ ⟨(next x).1, (next x).2, σ⟩) :
    Follows P code a before σ (pure x) next :=
  h

theorem Follows.of_ok {x : α} {s : S} (h : Follows P code a before σ m next)
    (hm : m σ.store = some (.ok x, s)) :
    Steps P code ⟨a, before, σ⟩ ⟨(next x).1, (next x).2, { σ with store := s }⟩ := by
  unfold Follows at h
  rw [hm] at h
  exact h

theorem Follows.of_error {e : E} {s : S} (h : Follows P code a before σ m next)
    (hm : m σ.store = some (.error e, s)) :
    Ends P code ⟨a, before, σ⟩ ⟨.failed e, { σ with store := s }⟩ := by
  unfold Follows at h
  rw [hm] at h
  exact h

/-- Steps in front of what follows an effect. They may end in another store, if the effect has its
outcome there. -/
theorem Follows.of_steps {m' : Effect S E α} {s : S}
    (hsteps : Steps P code ⟨a, before, σ⟩ ⟨b, mid, { σ with store := s }⟩)
    (h : Follows P code b mid { σ with store := s } m next) (hm : m' σ.store = m s) :
    Follows P code a before σ m' next := by
  revert h
  unfold Follows
  rw [hm]
  dsimp only
  cases m s with
  | none => exact Dies.of_steps hsteps
  | some r =>
    obtain ⟨r, s'⟩ := r
    cases r with
    | ok x => exact hsteps.trans
    | error e => exact Ends.of_steps hsteps

/-- **The rule for sequences.** The second part starts where the first one leads with its result. -/
theorem Follows.bind {f : α → Effect S E β} {next' : β → Nat × List V}
    (h : Follows P code a before σ m next)
    (hf : ∀ x, m.Gives x → ∀ σ', Follows P code (next x).1 (next x).2 σ' (f x) next') :
    Follows P code a before σ (m >>= f) next' := by
  unfold Follows at h
  split at h
  · rename_i x s hm
    exact .of_steps h (hf x ⟨σ.store, s, hm⟩ _) (Effect.bind_of_ok hm)
  · rename_i e s hm
    unfold Follows
    rw [Effect.bind_of_error hm]
    exact h
  · rename_i hm
    unfold Follows
    rw [Effect.bind_of_none hm]
    exact h

/-- Steps behind what follows an effect. -/
theorem Follows.steps {next' : α → Nat × List V} (h : Follows P code a before σ m next)
    (hsteps : ∀ x σ', Steps P code ⟨(next x).1, (next x).2, σ'⟩ ⟨(next' x).1, (next' x).2, σ'⟩) :
    Follows P code a before σ m next' := by
  have := h.bind fun x _ σ' => .pure (hsteps x σ')
  rwa [bind_pure] at this

/-- What a run that ends has done: the effect, and with no more fuel the rest. -/
theorem Follows.of_run {n : Nat} {h : Halted V S E} (hfollows : Follows P code a before σ m next)
    (hrun : run P code n ⟨a, before, σ⟩ = some h) :
    (∃ x s, m σ.store = some (.ok x, s) ∧
      ∃ k ≤ n, run P code k ⟨(next x).1, (next x).2, { σ with store := s }⟩ = some h) ∨
    ∃ e s, m σ.store = some (.error e, s) ∧ h = ⟨.failed e, { σ with store := s }⟩ := by
  unfold Follows at hfollows
  split at hfollows
  · rename_i x s hm
    exact .inl ⟨x, s, hm, exists_run_of_steps hfollows hrun⟩
  · rename_i e s hm
    exact .inr ⟨e, s, hm, hfollows.eq_of_run hrun⟩
  · exact absurd hrun (hfollows.run_ne n)

end

end Machine

end StackCode
