import StackCode.Proofs.Layout.Units
import StackCode.Proofs.Machine.Expression

/-!
# The code of statements

A layout *simulates* a behaviour if the run of its code ends up where the behaviour says, and if the
behaviour has an ending whenever the run comes to an end. The first is shown along the behaviour,
for loops by induction on the number of iterations. The second is shown along the code, for loops by
induction on the fuel: an iteration uses some up, since it comes back to the start of the loop by a
jump.

Both directions are fields of one structure, `Mimics`, and every rule proves both. They could not be
separated: the rule for sequences needs, for a run that ends, an ending of the first part to go on
from.

Where a statement leads depends on how it ends. Normally the run stands behind it, after `break` and
`continue` it stands at the targets of the loop around, and after `return` or a failure it is over.
The targets are a parameter, given by the loop whose body the statement is in.
-/

set_option autoImplicit false

namespace StackCode

open Machine

variable {V S E : Type}

/-! ## Where statements lead -/

namespace Machine

variable (P : Primitives V S E) (code : List Op)

/-- The run comes from one configuration to another by at least one step. -/
abbrev Jumps : Config V S → Config V S → Prop :=
  Relation.TransGen fun c c' => step P code c = some (.inl c')

/-- The run comes to where a statement leads that ends in a given way: behind the statement, to one
of the targets of the loop around it, or to its end. -/
def Lands (t : LoopTargets) (b : Nat) (c : Config V S) (r : Ending V E) (σ : State V S) : Prop :=
  match r with
  | .normal => Steps P code c ⟨b, [], σ⟩
  | .broke => Jumps P code c ⟨t.exit, [], σ⟩
  | .continued => Jumps P code c ⟨t.entry, [], σ⟩
  | .returned v => Ends P code c ⟨.returned v, σ⟩
  | .failed e => Ends P code c ⟨.failed e, σ⟩

variable {P code} {t : LoopTargets} {b : Nat} {c c' : Config V S} {r : Ending V E} {σ : State V S}

theorem exists_run_of_jumps {n : Nat} {h : Halted V S E} (hjumps : Jumps P code c c')
    (hrun : run P code n c = some h) : ∃ m < n, run P code m c' = some h := by
  obtain ⟨next, hstep, hsteps⟩ := Relation.TransGen.head'_iff.mp hjumps
  obtain ⟨k, hk, hrun⟩ := exists_run_of_step hstep hrun
  obtain ⟨m, hm, hrun⟩ := exists_run_of_steps hsteps hrun
  exact ⟨m, Nat.lt_of_le_of_lt hm hk, hrun⟩

theorem Lands.of_steps (hsteps : Steps P code c c') (h : Lands P code t b c' r σ) :
    Lands P code t b c r σ := by
  cases r with
  | normal => exact hsteps.trans h
  | broke => exact Relation.TransGen.trans_right hsteps h
  | continued => exact Relation.TransGen.trans_right hsteps h
  | returned v => exact Ends.of_steps hsteps h
  | failed e => exact Ends.of_steps hsteps h

/-- What stands behind a statement matters only if it ends normally. -/
theorem Lands.of_ne_normal {b' : Nat} (hr : r ≠ .normal) (h : Lands P code t b c r σ) :
    Lands P code t b' c r σ := by
  cases r with
  | normal => exact absurd rfl hr
  | broke => exact h
  | continued => exact h
  | returned v => exact h
  | failed e => exact h

/-- The run from position `a` follows a behaviour: from a stack that holds `before` it comes to an
empty one, at `b` if the behaviour ends normally. -/
structure Mimics (P : Primitives V S E) (code : List Op) (t : LoopTargets) (a : Nat)
    (before : List V) (b : Nat) (behaviour : Behaviour V S E) : Prop where
  /-- What the behaviour does, the run does. -/
  forward : ∀ {σ r σ'}, behaviour σ r σ' → Lands P code t b ⟨a, before, σ⟩ r σ'
  /-- A run that comes to an end is one of the behaviour. -/
  backward : ∀ {σ n h}, run P code n ⟨a, before, σ⟩ = some h → ∃ r σ', behaviour σ r σ'

end Machine

/-! ## Rules -/

open Behaviour (leave record perform andThen Iterates)

namespace Machine

section

variable {P : Primitives V S E} {code : List Op} {t : LoopTargets} {a b mid : Nat} {before : List V}

/-- Code that always leads to the same place. -/
theorem Mimics.of_lands {ending : Ending V E} {f : State V S → State V S}
    (h : ∀ σ, Lands P code t b ⟨a, before, σ⟩ ending (f σ)) :
    Mimics P code t a before b fun σ r σ' => r = ending ∧ σ' = f σ where
  forward := by
    intro σ r σ' hb
    obtain ⟨rfl, rfl⟩ := hb
    exact h σ
  backward := by
    intro σ n h _
    exact ⟨ending, f σ, rfl, rfl⟩

/-- Steps behind a statement that ends normally. -/
theorem Mimics.steps {behaviour : Behaviour V S E} (h : Mimics P code t a before mid behaviour)
    (hsteps : ∀ σ, Steps P code ⟨mid, [], σ⟩ ⟨b, [], σ⟩) :
    Mimics P code t a before b behaviour where
  forward := by
    intro σ r σ' hb
    have hlands := h.forward hb
    cases r with
    | normal => exact hlands.trans (hsteps σ')
    | _ => exact hlands
  backward := h.backward

/-- A behaviour that starts with an effect goes on where the run stands after it. -/
theorem Mimics.perform {α : Type} {m : Effect S E α} {next : α → Nat × List V}
    {f : α → Behaviour V S E} (hm : ∀ σ, Follows P code a before σ m next)
    (hf : ∀ x, Mimics P code t (next x).1 (next x).2 b (f x)) :
    Mimics P code t a before b (perform m f) where
  forward := by
    intro σ r σ' hb
    unfold Behaviour.perform at hb
    split at hb
    · rename_i x s hx
      exact ((hf x).forward hb).of_steps ((hm σ).of_ok hx)
    · rename_i e s he
      obtain ⟨rfl, rfl⟩ := hb
      exact (hm σ).of_error he
    · cases hb
  backward := by
    intro σ n h hrun
    unfold Behaviour.perform
    rcases (hm σ).of_run hrun with ⟨x, s, hx, k, _, hrest⟩ | ⟨e, s, he, _⟩
    · obtain ⟨r, σ', hr⟩ := (hf x).backward hrest
      refine ⟨r, σ', ?_⟩
      rw [hx]
      exact hr
    · refine ⟨.failed e, { σ with store := s }, ?_⟩
      rw [he]
      exact ⟨rfl, rfl⟩

theorem Mimics.andThen {first second : Behaviour V S E} (h : Mimics P code t a before mid first)
    (h' : Mimics P code t mid [] b second) : Mimics P code t a before b (andThen first second) where
  forward := by
    intro σ r σ' hb
    rcases hb with ⟨σ₁, hfirst, hsecond⟩ | ⟨hr, hfirst⟩
    · exact (h'.forward hsecond).of_steps (h.forward hfirst)
    · exact (h.forward hfirst).of_ne_normal hr
  backward := by
    intro σ n hend hrun
    obtain ⟨r, σ₁, hfirst⟩ := h.backward hrun
    by_cases hr : r = .normal
    · subst hr
      obtain ⟨k, _, hrest⟩ := exists_run_of_steps (h.forward hfirst) hrun
      obtain ⟨r, σ', hsecond⟩ := h'.backward hrest
      exact ⟨r, σ', .inl ⟨σ₁, hfirst, hsecond⟩⟩
    · exact ⟨r, σ₁, .inr ⟨hr, hfirst⟩⟩

end

/-! ## Loops

One rule for both kinds of loop. From the behaviour to the run, the induction is on how often the
loop iterates; from the run to the behaviour it is on the fuel that is left. -/

section

variable {P : Primitives V S E} {code : List Op} {t inner : LoopTargets} {start body back : Nat}
  {test : Effect S E Bool} {update : Effect S E Unit} {behaviour : Behaviour V S E}

/-- After an iteration the run is at the entry of the loop. -/
theorem Lands.jumps_entry {c : Config V S} {r : Ending V E} {σ : State V S}
    (h : Lands P code inner back c r σ) (hr : r = .normal ∨ r = .continued)
    (hback : code[back]? = some (.jump .goto inner.entry)) :
    Jumps P code c ⟨inner.entry, [], σ⟩ := by
  rcases hr with rfl | rfl
  · have hstep := step_of_getElem? P code (c := ⟨back, [], σ⟩) hback
    exact .tail' h hstep
  · exact h

/-- A loop whose test stands at `start`, whose body stands at `body`, and whose update stands at its
entry. -/
theorem Mimics.iterates
    (htest : ∀ σ, Follows P code start [] σ test fun yes => (if yes then body else inner.exit, []))
    (hbody : Mimics P code inner body [] back behaviour)
    (hback : code[back]? = some (.jump .goto inner.entry))
    (hupdate : ∀ σ, Follows P code inner.entry [] σ update fun _ => (start, [])) :
    Mimics P code t start [] inner.exit (Iterates test update behaviour) where
  forward := by
    intro σ r σ' hb
    induction hb with
    | testFails ht => exact (htest _).of_error ht
    | done ht => exact (htest _).of_ok ht
    | broke ht hb => exact ((htest _).of_ok ht).trans (hbody.forward hb).to_reflTransGen
    | returned ht hb => exact Ends.of_steps ((htest _).of_ok ht) (hbody.forward hb)
    | failed ht hb => exact Ends.of_steps ((htest _).of_ok ht) (hbody.forward hb)
    | updateFails ht hb hr hu =>
      have hentry := ((hbody.forward hb).jumps_entry hr hback).to_reflTransGen
      exact Ends.of_steps (((htest _).of_ok ht).trans hentry) ((hupdate _).of_error hu)
    | again ht hb hr hu _ ih =>
      have hentry := ((hbody.forward hb).jumps_entry hr hback).to_reflTransGen
      exact ih.of_steps ((((htest _).of_ok ht).trans hentry).trans ((hupdate _).of_ok hu))
  backward := by
    intro σ n h hrun
    induction n using Nat.strongRecOn generalizing σ with
    | ind n ih =>
      rcases (htest σ).of_run hrun with ⟨yes, s, ht, k, hk, hrun⟩ | ⟨e, s, ht, _⟩
      · cases yes with
        | false => exact ⟨.normal, _, .done ht⟩
        | true =>
          obtain ⟨r, σ₁, hb⟩ := hbody.backward hrun
          -- The jump back to the entry is what the fuel pays for.
          have hagain : r = .normal ∨ r = .continued →
              ∃ r' σ', Iterates test update behaviour σ r' σ' := by
            intro hr
            obtain ⟨m, hm, hrun⟩ :=
              exists_run_of_jumps ((hbody.forward hb).jumps_entry hr hback) hrun
            rcases (hupdate σ₁).of_run hrun with ⟨_, s', hu, j, hj, hrun⟩ | ⟨e, s', hu, _⟩
            · obtain ⟨r', σ', hrest⟩ := ih j (by omega) hrun
              exact ⟨r', σ', .again ht hb hr hu hrest⟩
            · exact ⟨.failed e, _, .updateFails ht hb hr hu⟩
          cases r with
          | normal => exact hagain (.inl rfl)
          | continued => exact hagain (.inr rfl)
          | broke => exact ⟨.normal, σ₁, .broke ht hb⟩
          | returned v => exact ⟨.returned v, σ₁, .returned ht hb⟩
          | failed e => exact ⟨.failed e, σ₁, .failed ht hb⟩
      · exact ⟨.failed e, _, .testFails ht⟩

end

end Machine

end StackCode
