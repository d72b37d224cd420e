import StackCode.Proofs.Draft
import StackCode.Proofs.Steps

/-!
# What a compilation leaves alone

Fixing a label rewrites instructions that were emitted before, and `break` and `continue` write into
labels of loops further out. Still, whatever is compiled, and whether it succeeds or fails, nothing
that was there before is disturbed: instructions and atoms stay, a label that has a position keeps
it, and one that waits for its position goes on waiting.

The reason is one about ownership. A step fixes no labels but its own, those that it has allocated,
and only instructions that came later can wait for these. `Assembler.Keeps` says what is left alone,
with this reason as its last part. A step that is in the middle of a branch or of a loop owes some
labels a position (`OpenUnit.Owes`); it is done when it owes none.

## What is said of a failed step, and what is not

A step that fails leaves the unit as it was at the failure, with code that was emitted for nothing,
with labels that nobody will fix and with loops that nobody will leave. None of that is undone, and
nothing here says that it is. What is said is that all of it is new: it lies behind what was there,
so that the old part of the unit is the same array of instructions under the same atoms
(`OpenUnit.Abandons`). A step that succeeds leaves no such rest (`OpenUnit.Completes`).

Whether the rest matters is a question about the unit in the end. It does: closing a unit with a
label or a loop that was left over is an internal error, whatever was compiled into it in between.

The proofs are about the assembler as it runs and not about its drafts. A draft would hide the one
thing that is at stake, since in a draft no instruction is ever written twice.
-/

set_option autoImplicit false

namespace StackCode

/-! ## Assemblers

`Keeps` is a preorder, so it is enough to look at single operations. Only fixing a label needs an
argument, and the argument is not about that operation alone: which instructions it rewrites depends
on all operations since the label was allocated. -/

/-- What may become of a label that was there at `start`: a position stays, and more jumps may
wait. -/
inductive LabelState.Kept (start : Nat) : LabelState → LabelState → Prop
  | fixed (position : Nat) : Kept start (.fixed position) (.fixed position)
  | pending {sites : List Nat} (more : List Nat) (h : ∀ site ∈ more, start ≤ site) :
      Kept start (.pending sites) (.pending (more ++ sites))

/-- The operations between `asm` and `after` left alone what was there. -/
structure Assembler.Keeps (asm after : Assembler) : Prop where
  code : ∀ (i : Nat) instruction, asm.code[i]? = some instruction →
    after.code[i]? = some instruction
  atoms : asm.atoms.toList <+: after.atoms.toList
  labels : ∀ (n : Nat) state, asm.labels[n]? = some state →
    ∃ state', after.labels[n]? = some state' ∧ state.Kept asm.position state'
  /-- No old instruction waits for a new label. -/
  sites : ∀ (n : Nat) sites, asm.labels.size ≤ n → after.labels[n]? = some (.pending sites) →
    ∀ site ∈ sites, asm.position ≤ site

namespace LabelState.Kept

theorem refl (start : Nat) (state : LabelState) : state.Kept start state := by
  cases state with
  | fixed position => exact .fixed position
  | pending sites => exact .pending [] (List.forall_mem_nil _)

/-- Sites that came after a later moment came after an earlier one. -/
theorem trans {start later : Nat} {s₁ s₂ s₃ : LabelState} (hle : start ≤ later)
    (h : s₁.Kept start s₂) (h' : s₂.Kept later s₃) : s₁.Kept start s₃ := by
  cases h with
  | fixed position => cases h' with | fixed _ => exact .fixed position
  | pending more hmore =>
    cases h' with
    | pending more' hmore' =>
      rw [← List.append_assoc]
      apply LabelState.Kept.pending
      intro site hsite
      rcases List.mem_append.mp hsite with hsite | hsite
      · exact Nat.le_trans hle (hmore' site hsite)
      · exact hmore site hsite

end LabelState.Kept

namespace Assembler

namespace Keeps

variable {asm mid after : Assembler}

theorem refl (asm : Assembler) : asm.Keeps asm where
  code _ _ h := h
  atoms := List.prefix_refl _
  labels _ state h := ⟨state, h, .refl _ state⟩
  sites n sites hn h := by
    rw [Array.getElem?_eq_none hn] at h
    cases h

theorem position_le (h : asm.Keeps after) : asm.position ≤ after.position := by
  unfold position
  by_cases hempty : asm.code.size = 0
  · rw [hempty]
    exact Nat.zero_le _
  · have hlast : asm.code.size - 1 < asm.code.size := by omega
    have hkept := h.code _ _ (Array.getElem?_eq_getElem hlast)
    have := (Array.getElem?_eq_some_iff.mp hkept).1
    omega

theorem labels_size_le (h : asm.Keeps after) : asm.labels.size ≤ after.labels.size := by
  by_cases hempty : asm.labels.size = 0
  · rw [hempty]
    exact Nat.zero_le _
  · have hlast : asm.labels.size - 1 < asm.labels.size := by omega
    obtain ⟨_, hkept, -⟩ := h.labels _ _ (Array.getElem?_eq_getElem hlast)
    have := (Array.getElem?_eq_some_iff.mp hkept).1
    omega

theorem trans (h : asm.Keeps mid) (h' : mid.Keeps after) : asm.Keeps after where
  code i instruction hi := h'.code i instruction (h.code i instruction hi)
  atoms := h.atoms.trans h'.atoms
  labels n state hn := by
    obtain ⟨state', hn', hkept⟩ := h.labels n state hn
    obtain ⟨state'', hn'', hkept'⟩ := h'.labels n state' hn'
    exact ⟨state'', hn'', hkept.trans h.position_le hkept'⟩
  sites n sites hn hpending := by
    intro site hsite
    by_cases hmid : n < mid.labels.size
    · -- The label was allocated on the way to `mid`: some of the sites were there, the others came
      -- later.
      obtain ⟨state, hafter, hkept⟩ := h'.labels n _ (Array.getElem?_eq_getElem hmid)
      rw [hpending] at hafter
      cases hafter
      cases hstate : mid.labels[n] with
      | fixed position =>
        rw [hstate] at hkept
        cases hkept
      | pending old =>
        have hold : mid.labels[n]? = some (.pending old) := by
          rw [Array.getElem?_eq_getElem hmid, hstate]
        rw [hstate] at hkept
        cases hkept with
        | pending more hmore =>
          rcases List.mem_append.mp hsite with hnew | hsite
          · exact Nat.le_trans h.position_le (hmore site hnew)
          · exact h.sites n old hn hold site hsite
    · exact Nat.le_trans h.position_le (h'.sites n sites (Nat.not_lt.mp hmid) hpending site hsite)

/-- Operations that leave the labels alone need an account of code and atoms only. -/
theorem of_labels_eq
    (hcode : ∀ (i : Nat) instruction, asm.code[i]? = some instruction →
      after.code[i]? = some instruction)
    (hatoms : asm.atoms.toList <+: after.atoms.toList) (hlabels : after.labels = asm.labels) :
    asm.Keeps after :=
  { Keeps.refl asm with
    code := hcode
    atoms := hatoms
    labels := fun _ state hn => ⟨state, hlabels ▸ hn, .refl _ state⟩
    sites := fun n sites hn hpending => (Keeps.refl asm).sites n sites hn (hlabels ▸ hpending) }

end Keeps

variable (asm : Assembler)

theorem getElem?_push_code {i : Nat} {instruction : Instruction} (added : Instruction)
    (h : asm.code[i]? = some instruction) : (asm.code.push added)[i]? = some instruction := by
  have hi := (Array.getElem?_eq_some_iff.mp h).1
  rw [Array.getElem?_push_lt hi, ← Array.getElem?_eq_getElem hi]
  exact h

theorem keeps_emit (i : Instruction) : asm.Keeps (asm.emit i) :=
  .of_labels_eq (fun _ _ => asm.getElem?_push_code i) (List.prefix_refl _) rfl

theorem keeps_intern (name : String) : asm.Keeps (asm.intern name).2 := by
  unfold intern
  cases asm.index[name]? with
  | some index => exact Keeps.refl asm
  | none =>
    refine .of_labels_eq (fun _ _ h => h) ?_ rfl
    rw [Array.toList_push]
    exact List.prefix_append _ _

theorem keeps_opAtom (opcode : OpCode) (name : String) : asm.Keeps (asm.opAtom opcode name) :=
  (asm.keeps_intern name).trans (keeps_emit _ _)

theorem labels_size_intern (name : String) : (asm.intern name).2.labels.size = asm.labels.size := by
  unfold intern
  cases asm.index[name]? with
  | some index => rfl
  | none => rfl

theorem labels_size_jump (opcode : OpCode) (l : Label) :
    (asm.jump opcode l).labels.size = asm.labels.size := by
  unfold jump
  cases asm.labels[l.index]? with
  | none => rfl
  | some state =>
    cases state with
    | fixed position => rfl
    | pending sites => exact Array.size_setIfInBounds

/-- One more jump waits for a label that has no position. -/
theorem keeps_wait {l : Label} {sites : List Nat}
    (h : asm.labels[l.index]? = some (.pending sites)) :
    asm.Keeps
      { asm with
        labels := asm.labels.setIfInBounds l.index (.pending (asm.position :: sites)) } where
  code _ _ h := h
  atoms := List.prefix_refl _
  labels n state hn := by
    dsimp only
    rw [Array.getElem?_setIfInBounds]
    by_cases hl : l.index = n
    · subst hl
      rw [if_pos rfl, if_pos (Array.getElem?_eq_some_iff.mp h).1]
      rw [h] at hn
      cases hn
      refine ⟨_, rfl, .pending [asm.position] ?_⟩
      intro site hsite
      exact Nat.le_of_eq (List.mem_singleton.mp hsite).symm
    · rw [if_neg hl]
      exact ⟨state, hn, .refl _ state⟩
  sites n sites' hn hpending := by
    rw [Array.getElem?_eq_none (by simpa using hn)] at hpending
    cases hpending

/-- A jump is added, and becomes a site if its label has no position. -/
theorem keeps_jump (opcode : OpCode) (l : Label) : asm.Keeps (asm.jump opcode l) := by
  unfold jump
  cases hl : asm.labels[l.index]? with
  | none => exact asm.keeps_emit _
  | some state =>
    cases state with
    | fixed position => exact asm.keeps_emit _
    | pending sites => exact (asm.keeps_wait hl).trans (keeps_emit _ _)

/-- A label is allocated, and no instruction waits for it. -/
theorem keeps_push {state : LabelState} (h : ∀ sites, state = .pending sites → sites = []) :
    asm.Keeps { asm with labels := asm.labels.push state } where
  code _ _ h := h
  atoms := List.prefix_refl _
  labels n old hn := by
    have hlt := (Array.getElem?_eq_some_iff.mp hn).1
    refine ⟨old, ?_, .refl _ old⟩
    dsimp only
    rw [Array.getElem?_push_lt hlt, ← Array.getElem?_eq_getElem hlt]
    exact hn
  sites n sites hn hpending := by
    have hlt := (Array.getElem?_eq_some_iff.mp hpending).1
    have hn' : n = asm.labels.size := by
      rw [Array.size_push] at hlt
      omega
    subst hn'
    rw [Array.getElem?_push_size] at hpending
    rw [h sites (Option.some.inj hpending)]
    exact List.forall_mem_nil _

/-- A label is fixed that was not there at `base`. The instructions that are rewritten were not
there either. -/
theorem Keeps.settle {base : Assembler} {l : Label} (h : base.Keeps asm)
    (hl : base.labels.size ≤ l.index) :
    base.Keeps (asm.settle l) := by
  unfold Assembler.settle
  cases hstate : asm.labels[l.index]? with
  | none => exact h
  | some state =>
    cases state with
    | fixed position => exact h
    | pending sites =>
      -- The heart of it: the instructions that wait for a label of one's own are new.
      have hsites := h.sites l.index sites hl hstate
      refine { code := ?_, atoms := h.atoms, labels := ?_, sites := ?_ }
      · intro i instruction hi
        have hlt : i < base.position := (Array.getElem?_eq_some_iff.mp hi).1
        have hnot : i ∉ sites := fun hmem => Nat.not_lt.mpr (hsites i hmem) hlt
        dsimp only
        rw [Draft.getElem?_foldl_patch, if_neg hnot]
        exact h.code i instruction hi
      · intro n state hn
        have hne : ¬ l.index = n := by
          have := (Array.getElem?_eq_some_iff.mp hn).1
          omega
        dsimp only
        rw [Array.getElem?_setIfInBounds, if_neg hne]
        exact h.labels n state hn
      · -- The label that was fixed waits no more, and the others wait as before.
        intro n sites' hn hpending
        dsimp only at hpending
        rw [Array.getElem?_setIfInBounds] at hpending
        by_cases hne : l.index = n
        · rw [if_pos hne] at hpending
          split at hpending <;> cases hpending
        · rw [if_neg hne] at hpending
          exact h.sites n sites' hn hpending

end Assembler

/-! ## Steps

What a step owes is a list of labels and not a number, since labels are not fixed in the order in
which they were allocated: the exit of a loop is older than the labels of its body and outlives
them. -/

/-- The labels from number `first` on have a position. -/
def Assembler.FixedFrom (asm : Assembler) (first : Nat) : Prop :=
  ∀ n : Nat, first ≤ n → n < asm.labels.size → ∃ position, asm.labels[n]? = some (.fixed position)

/-- What is left of a unit after a failed step: its loops, at least, are still open. -/
structure OpenUnit.Abandons (unit after : OpenUnit) : Prop where
  keeps : unit.asm.Keeps after.asm
  loops : unit.loops.frames <:+ after.loops.frames

/-- What is left of a unit after a step that succeeded. -/
structure OpenUnit.Completes (unit after : OpenUnit) : Prop where
  keeps : unit.asm.Keeps after.asm
  loops : after.loops = unit.loops
  fixed : after.asm.FixedFrom unit.asm.labels.size

/-- Inside of `loops`, the labels of `owed` wait for a position, and all else that was allocated
since `base` has one. -/
structure OpenUnit.Owes (base : OpenUnit) (owed : List Label) (loops : LoopStack)
    (unit : OpenUnit) : Prop where
  keeps : base.asm.Keeps unit.asm
  enclosed : base.loops.frames <:+ loops.frames
  loops : unit.loops = loops
  nodup : owed.Nodup
  own : ∀ l ∈ owed, base.asm.labels.size ≤ l.index
  pending : ∀ l ∈ owed, ∃ sites, unit.asm.labels[l.index]? = some (.pending sites)
  fixed : ∀ n : Nat, base.asm.labels.size ≤ n → n < unit.asm.labels.size → ⟨n⟩ ∉ owed →
    ∃ position, unit.asm.labels[n]? = some (.fixed position)

namespace OpenUnit.Owes

variable {base unit after : OpenUnit} {owed : List Label} {loops : LoopStack}

/-- A step begins without debts. -/
theorem start (base : OpenUnit) : base.Owes [] base.loops base where
  keeps := .refl _
  loops := rfl
  enclosed := List.suffix_refl _
  nodup := List.nodup_nil
  own := List.forall_mem_nil _
  pending := List.forall_mem_nil _
  fixed _ hn hn' := absurd hn' (Nat.not_lt.mpr hn)

/-- A step that owes nothing has cleaned up behind itself. -/
theorem completes (h : base.Owes [] base.loops unit) : base.Completes unit where
  keeps := h.keeps
  loops := h.loops
  fixed n hn hn' := h.fixed n hn hn' List.not_mem_nil

/-- A step may be given up at any time. -/
theorem abandons (h : base.Owes owed loops unit) : base.Abandons unit where
  keeps := h.keeps
  loops := by
    rw [h.loops]
    exact h.enclosed

/-- What is owed is still owed after a step that cleans up behind itself. -/
theorem trans (h : base.Owes owed loops unit) (h' : unit.Completes after) :
    base.Owes owed loops after where
  keeps := h.keeps.trans h'.keeps
  loops := h'.loops.trans h.loops
  enclosed := h.enclosed
  nodup := h.nodup
  own := h.own
  pending l hl := by
    obtain ⟨sites, hsites⟩ := h.pending l hl
    obtain ⟨state, hstate, hkept⟩ := h'.keeps.labels _ _ hsites
    cases hkept with
    | pending _ _ => exact ⟨_, hstate⟩
  fixed n hn hn' hnot := by
    by_cases hold : n < unit.asm.labels.size
    · obtain ⟨position, hposition⟩ := h.fixed n hn hold hnot
      obtain ⟨state, hstate, hkept⟩ := h'.keeps.labels _ _ hposition
      cases hkept with
      | fixed _ => exact ⟨position, hstate⟩
    · exact h'.fixed n (Nat.not_lt.mp hold) hn'

/-- The number of the next label is owed nothing yet. -/
theorem size_notMem (h : base.Owes owed loops unit) : ⟨unit.asm.labels.size⟩ ∉ owed := by
  intro hmem
  obtain ⟨sites, hsites⟩ := h.pending _ hmem
  exact Nat.lt_irrefl _ (Array.getElem?_eq_some_iff.mp hsites).1

/-- A label that is allocated is owed a position. -/
theorem newLabel (h : base.Owes owed loops unit) :
    base.Owes (⟨unit.asm.labels.size⟩ :: owed) loops { unit with asm := unit.asm.newLabel.2 } where
  keeps := h.keeps.trans (unit.asm.keeps_push fun _ hsites => by cases hsites; rfl)
  loops := h.loops
  enclosed := h.enclosed
  nodup := List.nodup_cons.mpr ⟨h.size_notMem, h.nodup⟩
  own := List.forall_mem_cons.mpr ⟨h.keeps.labels_size_le, h.own⟩
  -- The new label waits without sites. The others are where they were, below it.
  pending := by
    intro l hl
    rcases List.mem_cons.mp hl with rfl | hl
    · exact ⟨[], Array.getElem?_push_size⟩
    · obtain ⟨sites, hsites⟩ := h.pending l hl
      have hlt := (Array.getElem?_eq_some_iff.mp hsites).1
      refine ⟨sites, ?_⟩
      show (unit.asm.labels.push _)[l.index]? = _
      rw [Array.getElem?_push_lt hlt, ← Array.getElem?_eq_getElem hlt]
      exact hsites
  -- A label that is not owed is not the new one, so it was there before.
  fixed n hn hn' hnot := by
    obtain ⟨hne, hnot⟩ := not_or.mp (mt List.mem_cons.mpr hnot)
    have hlt : n < unit.asm.labels.size := by
      have hsize : n < (unit.asm.labels.push (.pending [])).size := hn'
      rw [Array.size_push] at hsize
      have : n ≠ unit.asm.labels.size := fun heq => hne (by rw [heq])
      omega
    obtain ⟨position, hposition⟩ := h.fixed n hn hlt hnot
    refine ⟨position, ?_⟩
    show (unit.asm.labels.push _)[n]? = _
    rw [Array.getElem?_push_lt hlt, ← Array.getElem?_eq_getElem hlt]
    exact hposition

/-- A label of one's own can be fixed, and is owed no longer. -/
theorem fix {front back : List Label} {l : Label} (h : base.Owes (front ++ l :: back) loops unit) :
    (Gen.fix l).exec unit = (.ok (), { unit with asm := unit.asm.settle l }) ∧
      base.Owes (front ++ back) loops { unit with asm := unit.asm.settle l } := by
  have hmem : l ∈ front ++ l :: back := List.mem_append_right _ List.mem_cons_self
  obtain ⟨sites, hsites⟩ := h.pending l hmem
  have hlt := (Array.getElem?_eq_some_iff.mp hsites).1
  -- Each label is owed once. So what is left of the list does not name the label again.
  obtain ⟨hnot, hnodup⟩ : l ∉ front ++ back ∧ (front ++ back).Nodup :=
    List.nodup_cons.mp (List.perm_middle.nodup_iff.mp h.nodup)
  have hsub : ∀ l' ∈ front ++ back, l' ∈ front ++ l :: back := fun l' hl' =>
    List.perm_middle.mem_iff.mpr (List.mem_cons_of_mem _ hl')
  have hlabels :
      (unit.asm.settle l).labels =
        unit.asm.labels.setIfInBounds l.index (.fixed unit.asm.position) := by
    unfold Assembler.settle
    rw [hsites]
  have hne : ∀ {l' : Label}, l' ≠ l → ¬ l.index = l'.index := fun {l'} hne heq => hne (by
    cases l
    cases l'
    simpa using heq.symm)
  constructor
  · -- A label that is owed has no position, and this is all that could be refused.
    have hok : unit.asm.fixError? l = none := by
      unfold Assembler.fixError?
      rw [hsites]
    rw [Gen.exec_fix, Assembler.fix, hok]
  · refine
      { keeps := h.keeps.settle _ (h.own l hmem), loops := h.loops, enclosed := h.enclosed,
        nodup := hnodup, own := fun l' hl' => h.own l' (hsub l' hl'), pending := ?_, fixed := ?_ }
    · intro l' hl'
      have hother : l' ≠ l := fun heq => hnot (heq ▸ hl')
      obtain ⟨sites', hsites'⟩ := h.pending l' (hsub l' hl')
      refine ⟨sites', ?_⟩
      dsimp only
      rw [hlabels, Array.getElem?_setIfInBounds, if_neg (hne hother)]
      exact hsites'
    · intro n hn hn' hnot'
      dsimp only at hn' ⊢
      rw [hlabels] at hn' ⊢
      rw [Array.size_setIfInBounds] at hn'
      rw [Array.getElem?_setIfInBounds]
      by_cases hl : l.index = n
      · rw [if_pos hl, if_pos hlt]
        exact ⟨_, rfl⟩
      · rw [if_neg hl]
        refine h.fixed n hn hn' fun hmem' => ?_
        rcases List.mem_cons.mp (List.perm_middle.mem_iff.mp hmem') with heq | hmem'
        · exact hl (by rw [← heq])
        · exact hnot' hmem'

end OpenUnit.Owes

namespace Gen

/-- The step leaves alone what was there. If it succeeds it cleans up behind itself. -/
def Framed {α : Type} (m : Gen α) : Prop :=
  ∀ unit, match m.exec unit with
    | (.ok _, after) => unit.Completes after
    | (.error _, after) => unit.Abandons after

/-- The step, begun with `owed` inside of `loops`, ends with `owed'` inside of `loops'`, where what
is owed is counted from `base`. It may fail, and then what was there at `base` is left alone. -/
def Advances {α : Type} (base : OpenUnit) (owed : List Label) (loops : LoopStack) (m : Gen α)
    (owed' : α → List Label) (loops' : LoopStack) : Prop :=
  ∀ unit, base.Owes owed loops unit →
    match m.exec unit with
    | (.ok a, after) => base.Owes (owed' a) loops' after
    | (.error _, after) => base.Abandons after

section

variable {α β : Type} {base : OpenUnit} {owed : List Label} {loops : LoopStack}

theorem Advances.of_ok {m : Gen α} {owed' : α → List Label} {loops' : LoopStack}
    (h : ∀ unit, base.Owes owed loops unit → ∃ a after,
      m.exec unit = (.ok a, after) ∧ base.Owes (owed' a) loops' after) :
    Advances base owed loops m owed' loops' := by
  intro unit hunit
  obtain ⟨a, after, hexec, hafter⟩ := h unit hunit
  rw [hexec]
  exact hafter

/-- The debts of the first step are those that the second one begins with. -/
theorem Advances.bind {m : Gen α} {f : α → Gen β} {owed' : α → List Label} {owed'' : β → List Label}
    {loops' loops'' : LoopStack} (hm : Advances base owed loops m owed' loops')
    (hf : ∀ a, Advances base (owed' a) loops' (f a) owed'' loops'') :
    Advances base owed loops (m >>= f) owed'' loops'' := by
  intro unit hunit
  have hfirst := hm unit hunit
  rw [exec_bind]
  rcases hexec : m.exec unit with ⟨result, mid⟩
  rw [hexec] at hfirst
  cases result with
  | ok a => exact hf a mid hfirst
  | error e => exact hfirst

/-- A framed step runs inside of any other and changes nothing about what the other owes. -/
theorem Framed.advances {m : Gen α} (h : Framed m) (owed : List Label) (loops : LoopStack) :
    Advances base owed loops m (fun _ => owed) loops := by
  intro unit hunit
  have hm := h unit
  rcases hexec : m.exec unit with ⟨result, after⟩
  rw [hexec] at hm
  cases result with
  | ok a => exact hunit.trans hm
  | error e => exact ⟨hunit.keeps.trans hm.keeps, hunit.abandons.loops.trans hm.loops⟩

/-- A step that owes nothing in the end is framed. -/
theorem Framed.of_advances {m : Gen α}
    (h : ∀ base, Advances base [] base.loops m (fun _ => []) base.loops) :
    Framed m := by
  intro unit
  have hm := h unit unit (.start unit)
  rcases hexec : m.exec unit with ⟨result, after⟩
  rw [hexec] at hm
  cases result with
  | ok a => exact hm.completes
  | error e => exact hm

theorem advances_newLabel : Advances base owed loops newLabel (fun l => l :: owed) loops :=
  .of_ok fun _ hunit => ⟨_, _, rfl, hunit.newLabel⟩

/-- A debt is paid, wherever it stands in the list. -/
theorem advances_fix (front : List Label) (l : Label) (back : List Label) :
    Advances base (front ++ l :: back) loops (fix l) (fun _ => front ++ back) loops :=
  .of_ok fun _ hunit => ⟨_, _, hunit.fix.1, hunit.fix.2⟩

theorem advances_enterLoop (loop : Loop) :
    Advances base owed loops (enterLoop loop) (fun _ => owed) (loops.push loop) := by
  apply Advances.of_ok
  intro unit hunit
  refine ⟨(), { unit with loops := unit.loops.push loop }, rfl,
    { hunit with enclosed := ?_, loops := ?_ }⟩
  · exact hunit.enclosed.trans (List.suffix_cons _ _)
  · rw [hunit.loops]

/-- A loop of one's own can be left; those that were there cannot be mistaken for it. -/
theorem advances_leaveLoop (loop : Loop) (h : base.loops.frames <:+ loops.frames) :
    Advances base owed (loops.push loop) leaveLoop (fun _ => owed) loops := by
  apply Advances.of_ok
  intro unit hunit
  refine ⟨(), { unit with loops := unit.loops.pop.2 }, rfl,
    { hunit with loops := ?_, enclosed := h }⟩
  rw [hunit.loops]
  rfl

end

/-! ## Primitive steps

Steps that allocate no label, or one that has its position from the beginning. -/

theorem framed_throw {α : Type} (e : Error) : Framed (throw e : Gen α) := fun _ =>
  ⟨.refl _, List.suffix_refl _⟩

theorem framed_pure {α : Type} (a : α) : Framed (pure a) := fun unit =>
  (OpenUnit.Owes.start unit).completes

/-- An operation of the assembler that allocates no label. -/
theorem framed_assemble {f : Assembler → Assembler} (hkeeps : ∀ asm : Assembler, asm.Keeps (f asm))
    (hsize : ∀ asm, (f asm).labels.size = asm.labels.size) : Framed (assemble f) := by
  intro unit
  refine ⟨hkeeps unit.asm, rfl, fun n hn hn' => ?_⟩
  have hlt : n < (f unit.asm).labels.size := hn'
  rw [hsize] at hlt
  exact absurd hlt (Nat.not_lt.mpr hn)

/-- A label that is allocated at the current position is owed nothing. -/
theorem framed_labelHere : Framed labelHere := by
  intro unit
  refine ⟨unit.asm.keeps_push nofun, rfl, fun n hn hn' => ?_⟩
  have hlt : n < (unit.asm.labels.push (.fixed unit.asm.position)).size := hn'
  have heq : n = unit.asm.labels.size := by
    rw [Array.size_push] at hlt
    omega
  subst heq
  exact ⟨_, Array.getElem?_push_size⟩

theorem framed_innermost (statement : String) : Framed (innermost statement) := by
  intro unit
  have hexec :
      (innermost statement).exec unit = (ofExcept (unit.loops.innermost statement)).exec unit :=
    exec_bind_ok _ (show exec get unit = (.ok unit, unit) from rfl)
  rw [hexec]
  cases unit.loops.innermost statement with
  | ok loop => exact framed_pure loop unit
  | error e => exact framed_throw (α := Loop) e unit

theorem framed_jump (opcode : OpCode) (l : Label) : Framed (jump opcode l) :=
  framed_assemble (fun asm => asm.keeps_jump opcode l) (fun asm => asm.labels_size_jump opcode l)

/-! ## Forms that allocate labels

Each line of a form is one line of its proof: what is owed changes with `newLabel` and `fix` and at
no other line. -/

section

variable {test yes no body : Gen Unit}

theorem Framed.branch (htest : Framed test) (hyes : Framed yes) (hno : Framed no) :
    Framed (branch test yes no) := by
  apply Framed.of_advances
  intro base
  apply (htest.advances [] base.loops).bind
  intro _
  apply advances_newLabel.bind
  intro otherwise
  apply advances_newLabel.bind
  intro merge
  apply ((framed_jump _ otherwise).advances [merge, otherwise] base.loops).bind
  intro _
  apply (hyes.advances _ _).bind
  intro _
  apply ((framed_jump _ merge).advances _ _).bind
  intro _
  apply (advances_fix [merge] otherwise []).bind
  intro _
  apply (hno.advances [merge] _).bind
  intro _
  exact advances_fix [] merge []

theorem Framed.whileLoop (htest : Framed test) (hbody : Framed body) :
    Framed (whileLoop test body) := by
  apply Framed.of_advances
  intro base
  apply advances_newLabel.bind
  intro exit
  apply (framed_labelHere.advances [exit] base.loops).bind
  intro entry
  apply (advances_enterLoop ⟨entry, exit⟩).bind
  intro _
  apply (htest.advances _ _).bind
  intro _
  apply ((framed_jump _ exit).advances _ _).bind
  intro _
  apply (hbody.advances _ _).bind
  intro _
  apply ((framed_jump _ entry).advances _ _).bind
  intro _
  apply (advances_fix [] exit []).bind
  intro _
  exact advances_leaveLoop _ (List.suffix_refl _)

theorem Framed.forLoop {init update : Gen Unit} {guard : Label → Gen Unit} (hinit : Framed init)
    (hupdate : Framed update) (hguard : ∀ exit, Framed (guard exit)) (hbody : Framed body) :
    Framed (forLoop init update guard body) := by
  apply Framed.of_advances
  intro base
  apply (hinit.advances [] base.loops).bind
  intro _
  apply advances_newLabel.bind
  intro start
  apply ((framed_jump _ start).advances [start] base.loops).bind
  intro _
  apply (framed_labelHere.advances _ _).bind
  intro entry
  apply (hupdate.advances _ _).bind
  intro _
  apply advances_newLabel.bind
  intro exit
  apply (advances_enterLoop ⟨entry, exit⟩).bind
  intro _
  apply (advances_fix [exit] start []).bind
  intro _
  apply ((hguard exit).advances [exit] _).bind
  intro _
  apply (hbody.advances _ _).bind
  intro _
  apply ((framed_jump _ entry).advances _ _).bind
  intro _
  apply (advances_fix [] exit []).bind
  intro _
  exact advances_leaveLoop _ (List.suffix_refl _)

end

theorem Framed.bind {α β : Type} {m : Gen α} {f : α → Gen β} (hm : Framed m)
    (hf : ∀ a, Framed (f a)) :
    Framed (m >>= f) :=
  .of_advances fun base => (hm.advances [] base.loops).bind fun a => (hf a).advances [] base.loops

/-- Framing asks nothing of instructions and variables, so the predicate on bindings is the one that
always holds. -/
theorem closed_framed : Closed (fun _ => True) Framed where
  pure := framed_pure
  throw := framed_throw
  bind := Framed.bind
  emit _ := framed_assemble (fun asm => asm.keeps_emit _) (fun _ => rfl)
  opAtom _ name :=
    framed_assemble (fun asm => asm.keeps_opAtom _ name) (fun asm => asm.labels_size_intern name)
  jump _ := framed_jump _
  innermost := framed_innermost
  branch := Framed.branch
  whileLoop := Framed.whileLoop
  forLoop := Framed.forLoop

end Gen

/-! ## Calls of the compiler

A caller may hold a unit open and compile one piece of code after another into it. The calls are
independent of each other: none can tell what the others were, except by the numbers of labels and
atoms. -/

/-- What the compiler can be asked to compile into an open unit. -/
inductive Call where
  | expression (e : Expr)
  | statement (s : Stmt)
  | statements (ss : List Stmt)

namespace Call

/-- The step of a call. -/
def step (mode : Mode) : Call → Gen Unit
  | expression e => Gen.expression mode.fold e
  | statement s => Gen.statement mode s
  | statements ss => Gen.statements mode ss

theorem framed_step (mode : Mode) (call : Call) : (call.step mode).Framed := by
  cases call with
  | expression e => exact Gen.closed_framed.expression mode.fold e fun _ _ => trivial
  | statement s => exact Gen.closed_framed.statement mode false s fun _ _ => trivial
  | statements ss => exact Gen.closed_framed.statements mode false ss fun _ _ => trivial

end Call

namespace OpenUnit

/-- Makes calls one after the other. A call that fails does not keep the next one from being
made. -/
def afterCalls (mode : Mode) (unit : OpenUnit) (calls : List Call) : OpenUnit :=
  calls.foldl (fun unit call => ((call.step mode).exec unit).2) unit

/-- A label without a position or a loop is left. -/
def Unsettled (unit : OpenUnit) : Prop :=
  (∃ (n : Nat) (sites : List Nat), unit.asm.labels[n]? = some (.pending sites)) ∨
    unit.loops.frames ≠ []

variable {unit after : OpenUnit}

/-- What is left over is old to every later step, and no step settles what is not its own. -/
theorem Unsettled.of_abandons (h : unit.Unsettled) (hafter : unit.Abandons after) :
    after.Unsettled := by
  rcases h with ⟨n, sites, hn⟩ | hloops
  · obtain ⟨state, hstate, hkept⟩ := hafter.keeps.labels n _ hn
    cases hkept with
    | pending _ _ => exact .inl ⟨n, _, hstate⟩
  · refine .inr fun hnil => hloops ?_
    have hsuffix := hafter.loops
    rw [hnil] at hsuffix
    exact List.suffix_nil.mp hsuffix

theorem Unsettled.step (h : unit.Unsettled) (mode : Mode) (call : Call) :
    ((call.step mode).exec unit).2.Unsettled := by
  have hframed := call.framed_step mode unit
  rcases hexec : (call.step mode).exec unit with ⟨result, after⟩
  rw [hexec] at hframed
  cases result with
  | ok _ => exact h.of_abandons ⟨hframed.keeps, hframed.loops ▸ List.suffix_refl _⟩
  | error e => exact h.of_abandons hframed

/-- No call settles what an earlier one has left. -/
theorem Unsettled.afterCalls (h : unit.Unsettled) (mode : Mode) (calls : List Call) :
    (unit.afterCalls mode calls).Unsettled := by
  induction calls generalizing unit with
  | nil => exact h
  | cons call calls ih => exact ih (h.step mode call)

theorem Unsettled.finish (h : unit.Unsettled) :
    ∃ e, unit.finish = .error e ∧ e.kind = .internal := by
  unfold OpenUnit.finish
  by_cases hdepth : unit.loops.depth = 0
  · rw [if_pos hdepth]
    rcases h with ⟨n, sites, hn⟩ | hloops
    · have hunfixed : (unit.asm.op .stop).unfixed ≠ 0 := by
        refine Nat.ne_of_gt (Array.countP_pos_iff.mpr ⟨.pending sites, ?_, rfl⟩)
        exact Array.mem_of_getElem? hn
      unfold Assembler.close
      rw [if_neg fun hclosed => hunfixed hclosed.1]
      exact ⟨_, rfl, rfl⟩
    · exact absurd (List.eq_nil_of_length_eq_zero hdepth) hloops
  · rw [if_neg hdepth]
    exact ⟨_, rfl, rfl⟩

end OpenUnit

/-- **Compilation frame.** Whatever is compiled into whatever unit, and whether it succeeds or
fails, the instructions, atoms and labels that were there are left alone. A call that succeeds has
fixed every label that it allocated and leaves the loops as they were; one that fails leaves all of
them open. What a call has left unsettled stays so, and keeps the unit from being finished, whatever
is compiled afterwards. -/
theorem compilation_frame (mode : Mode) (call : Call) (unit : OpenUnit) :
    let (result, after) := (call.step mode).exec unit
    unit.asm.Keeps after.asm ∧
      (result = .ok () → after.loops = unit.loops ∧ after.asm.FixedFrom unit.asm.labels.size) ∧
      (∀ e, result = .error e → unit.loops.frames <:+ after.loops.frames) ∧
      (after.Unsettled → ∀ calls, ∃ e, (after.afterCalls mode calls).finish = .error e ∧
        e.kind = .internal) := by
  have hframed := call.framed_step mode unit
  rcases hexec : (call.step mode).exec unit with ⟨result, after⟩
  rw [hexec] at hframed
  have hfinish (h : after.Unsettled) (calls : List Call) := (h.afterCalls mode calls).finish
  cases result with
  | ok _ =>
    refine ⟨hframed.keeps, fun _ => ⟨hframed.loops, hframed.fixed⟩, ?_, hfinish⟩
    intro e he
    cases he
  | error e =>
    refine ⟨hframed.keeps, ?_, fun _ _ => hframed.loops, hfinish⟩
    intro hok
    cases hok

end StackCode
