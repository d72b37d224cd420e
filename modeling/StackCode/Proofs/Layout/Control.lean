import StackCode.Proofs.Layout.Compiles

/-!
# Branches and loops

The steps that allocate labels. In each of them the positions table is followed entry by entry: what
was allocated without a position is fixed before the end of the step, so that a reading at the end
knows where every jump goes.

Why entries, and not positions: between the allocation of a label and the step that fixes it the
draft grows by code of which only its layout is known. That code may allocate and fix labels of its
own. What survives it is that the table before is a prefix of the table after except where entries
were filled in (`Places`), so an entry that was empty and is not touched is still empty when its
turn comes. Each proof of this file is that observation made once for every label of the shape.

A branch has two labels, a `while` has two and a `for` has three. The shapes are stated for
arbitrary parts, so the tree does not occur: what is needed of test, body and update is that they
compile to some layouts.

The loop stack is pushed and popped in the steps of a loop and nowhere else, and the parts of a loop
are run with the stack as it is inside. That a part leaves the stack as it found it is included in
what it means to compile to a layout.
-/

set_option autoImplicit false

namespace StackCode

/-! ## Entries of the table -/

namespace Draft

section

variable {d : Draft} {l : Label} {front back : List (Option Nat)}

/-- A label whose entry is empty can be fixed. -/
theorem pending_of_entry (h : d.positions = front ++ none :: back) (hl : l.index = front.length) :
    d.positions[l.index]? = some none := by
  rw [h, hl, List.getElem?_append_right (Nat.le_refl _), Nat.sub_self]
  rfl

/-- Fixing a label fills its entry. -/
theorem positions_fix_of_entry (h : d.positions = front ++ none :: back)
    (hl : l.index = front.length) :
    (d.fix l).positions = front ++ some d.lines.length :: back := by
  rw [d.fix_positions (pending_of_entry h hl), h, hl, List.set_append_right _ _ (Nat.le_refl _),
    Nat.sub_self, List.set_cons_zero]

/-- A filled entry is what every later reading has for the label. -/
theorem ReadBy.position_of_entry {r : Reading} {p : Nat} (hr : d.ReadBy r)
    (h : d.positions = front ++ some p :: back) (hl : l.index = front.length) :
    r.position l = p := by
  refine hr.positions l p ?_
  rw [position?, h, hl, List.getElem?_append_right (Nat.le_refl _), Nat.sub_self]
  rfl

end

end Draft

namespace Gen

/-! ## Branches -/

/-- A test, the code for yes with a jump over the code for no, and the code for no. -/
theorem Compiles.branch {test yes no : Gen Unit} {p q s : Layout} (htest : Compiles test p)
    (hyes : Compiles yes q) (hno : Compiles no s) :
    Compiles (do
      test
      let otherwise ← newLabel
      let merge ← newLabel
      jump .ifEq otherwise
      yes
      jump .goto merge
      fix otherwise
      no
      fix merge) (.branch p q s) := by
  intro d loops hk
  refine (htest d loops hk).bind fun d₁ w₁ => ?_
  -- The labels are the next two entries of the table.
  let otherwise : Label := ⟨d₁.positions.length⟩
  let merge : Label := ⟨d₁.positions.length + 1⟩
  refine .after (d₁.exec_newLabel loops) (.after (d₁.newLabel.exec_newLabel loops) ?_)
  rw [Draft.newLabel_positions, List.length_append, List.length_singleton]
  let d₂ := d₁.newLabel.newLabel.jump .ifEq otherwise
  have hpos₂ : d₂.positions = d₁.positions ++ [none, none] := by simp [d₂]
  have hadds₂ := w₁.adds.newLabel.newLabel.jump .ifEq (l := otherwise) (by simp [otherwise])
  refine .after (Draft.exec_jump _ loops .ifEq otherwise) ?_
  refine (hyes d₂ loops ((w₁.knows hk).mono (by simp [hpos₂]))).bind fun d₃ w₃ => ?_
  obtain ⟨fixed₃, hfixed₃⟩ := w₃.labels
  have hpos₃ : d₃.positions = d₁.positions ++ none :: none :: fixed₃.map some := by
    simpa [hpos₂] using hfixed₃
  have hadds₃ := (hadds₂.trans w₃.adds).jump .goto (l := merge) (by simp [merge, hpos₃])
  refine .after (d₃.exec_jump loops .goto merge) ?_
  refine .after (Draft.exec_fix_pending _ loops (Draft.pending_of_entry hpos₃ rfl)) ?_
  -- `otherwise` gets the position behind the jump to `merge`, which is open until the end.
  let d₄ := (d₃.jump .goto merge).fix otherwise
  have hpos₄ : d₄.positions =
      d₁.positions ++ some (d₃.lines.length + 1) :: none :: fixed₃.map some := by
    rw [← d₃.length_jump_lines .goto merge]
    exact Draft.positions_fix_of_entry hpos₃ rfl
  refine (hno d₄ loops ((w₁.knows hk).mono (by simp [hpos₄]))).andThen fun d₅ w₅ => ?_
  obtain ⟨fixed₅, hfixed₅⟩ := w₅.labels
  have hpos₅ : d₅.positions = (d₁.positions ++ [some (d₃.lines.length + 1)]) ++ none ::
      (fixed₃ ++ fixed₅).map some := by
    simpa [hpos₄] using hfixed₅
  have hmerge : merge.index = (d₁.positions ++ [some (d₃.lines.length + 1)]).length := by
    simp [merge]
  have hpos₆ := Draft.positions_fix_of_entry hpos₅ hmerge
  refine .of_exec (d₅.exec_fix_pending loops (Draft.pending_of_entry hpos₅ hmerge)) ⟨?_, ?_⟩
  · refine (((hadds₃.fix otherwise).trans w₅.adds).fix merge).congr fun r hr => ?_
    have hread : r.position merge = d₅.lines.length := hr.position_of_entry hpos₆ hmerge
    rw [List.append_assoc] at hpos₆
    have hread' : r.position otherwise = d₃.lines.length + 1 := hr.position_of_entry hpos₆ rfl
    have hlen₂ : d₂.lines.length = d.lines.length + p.size + 1 := by
      rw [← w₁.length_lines]
      exact Draft.length_jump_lines _ _ _
    have hlen₃ : d₃.lines.length + 1 = d.lines.length + p.size + q.size + 2 := by
      rw [w₃.length_lines, hlen₂]
      omega
    have hlen₄ : d₄.lines.length = d.lines.length + p.size + q.size + 2 := by
      rw [← hlen₃]
      simp [d₄]
    have hlen₅ : d₅.lines.length = d.lines.length + p.size + q.size + s.size + 2 := by
      rw [w₅.length_lines, hlen₄]
      omega
    rw [hread, hread', hlen₂, hlen₃, hlen₄, hlen₅]
    simp [Layout.branch]
  · obtain ⟨fixed₁, hfixed₁⟩ := w₁.labels
    refine ⟨fixed₁ ++ (d₃.lines.length + 1) :: d₅.lines.length :: (fixed₃ ++ fixed₅), ?_⟩
    rw [hpos₆, hfixed₁]
    simp

/-! ## Loops

All loops share the last part, in which the body is followed by a jump back and the exit is fixed.
They differ in where the labels are allocated: the entry of a `while` is in front of its test, the
entry of a `for` in front of its update. -/

theorem exec_enterLoop (d : Draft) (loops : LoopStack) (loop : Loop) :
    (enterLoop loop).exec (d.unit loops) = (.ok (), d.unit (loops.push loop)) :=
  rfl

theorem exec_leaveLoop (d : Draft) (loops : LoopStack) (loop : Loop) :
    leaveLoop.exec (d.unit (loops.push loop)) = (.ok (), d.unit loops) :=
  rfl

/-- A jump to a label of the innermost loop. `label` and `target` are the two sides of the choice
between the entry and the exit. -/
theorem compiles_loop_jump {statement : String} {label : Loop → Label} {target : LoopTargets → Nat}
    {plan : Layout} (hrefusal : ∀ inLoop, plan.refusal inLoop =
      if inLoop then none else some (.outsideLoop statement))
    (hcode : ∀ t a, plan.code t a = [.jump .goto (target t)])
    (hlabel : ∀ (d : Draft) loops loop, d.Knows loops → loop ∈ loops.frames.head? →
      (label loop).index < d.positions.length)
    (htarget : ∀ r loop frames,
      target (LoopStack.targets ⟨loop :: frames⟩ r) = r.position (label loop)) :
    Compiles (do
      let loop ← innermost statement
      jump .goto (label loop)) plan := by
  intro d loops hk
  rw [hrefusal]
  obtain ⟨frames⟩ := loops
  cases frames with
  | nil => rfl
  | cons loop frames =>
    have hl := hlabel d ⟨loop :: frames⟩ loop hk rfl
    refine .after (a := loop) rfl (.of_exec (d.exec_jump _ .goto (label loop)) ⟨?_, [], ?_⟩)
    · refine (d.adds_jump .goto hl).congr fun r _ => ?_
      rw [hcode, htarget]
    · simp

/-- `break` jumps to the exit of the innermost loop and is refused if there is none. -/
theorem compiles_break : Compiles (do
    let loop ← innermost "break"
    jump .goto loop.exit) .breakLoop :=
  compiles_loop_jump (fun _ => rfl) (fun _ _ => rfl) (fun _ _ loop hk hloop => (hk loop hloop).2)
    fun _ _ _ => rfl

/-- `continue` jumps to the entry of the innermost loop and is refused if there is none. -/
theorem compiles_continue : Compiles (do
    let loop ← innermost "continue"
    jump .goto loop.entry) .continueLoop :=
  compiles_loop_jump (fun _ => rfl) (fun _ _ => rfl) (fun _ _ loop hk hloop => (hk loop hloop).1)
    fun _ _ _ => rfl

section

variable {d : Draft} {loops : LoopStack} {loop : Loop}

theorem knows_push (hentry : loop.entry.index < d.positions.length)
    (hexit : loop.exit.index < d.positions.length) : d.Knows (loops.push loop) := by
  intro loop' hloop'
  cases hloop'
  exact ⟨hentry, hexit⟩

/-- The test of a loop, inside of the loop. -/
theorem yields_guard {test : Gen Unit} {p : Layout} (htest : Compiles test p)
    (hk : d.Knows (loops.push loop)) :
    Yields (do test; jump .ifEq loop.exit) (d.unit (loops.push loop))
      ((Layout.guard (some p)).refusal true)
      (loops.push loop) (d.Places (.guard (some p)) (loops.push loop)) := by
  refine (htest d (loops.push loop) hk).andThen fun d₁ w₁ => ?_
  have hexit := (w₁.knows hk loop rfl).2
  refine .of_exec (d₁.exec_jump _ .ifEq loop.exit) ⟨w₁.adds.jump .ifEq hexit, ?_⟩
  obtain ⟨fixed, hfixed⟩ := w₁.labels
  exact ⟨fixed, hfixed⟩

/-- The part that all loops end with: what is done in each iteration, the jump back, and the end of
the loop. The exit gets the position behind it. -/
theorem yields_iteration {guard body : Gen Unit} {p q : Layout}
    (hguard : Yields guard (d.unit (loops.push loop)) (p.refusal true) (loops.push loop)
      (d.Places p (loops.push loop)))
    (hbody : Compiles body q) (hentry : loop.entry.index < d.positions.length)
    {front back : List (Option Nat)} (hpos : d.positions = front ++ none :: back)
    (hexit : loop.exit.index = front.length) :
    Yields (do guard; body; jump .goto loop.entry; fix loop.exit; leaveLoop)
      (d.unit (loops.push loop)) ((p.refusal true).or (q.refusal true)) loops fun d' =>
        d.Adds d' (fun r => (p ++ q).code ⟨r.position loop.entry,
          r.position loop.exit⟩ d.lines.length ++ [.jump .goto (r.position loop.entry)]) ∧
        d'.lines.length = d.lines.length + p.size + q.size + 1 ∧
        ∃ fixed : List Nat,
          d'.positions = front ++ some d'.lines.length :: back ++ fixed.map some := by
  have hlen : loop.exit.index < d.positions.length := by
    rw [hpos, hexit]
    simp
  have hk : d.Knows (loops.push loop) := knows_push hentry hlen
  refine hguard.bind fun d₁ w₁ => ?_
  refine (hbody d₁ _ (w₁.knows hk)).andThen fun d₂ w₂ => ?_
  have w := w₁.append w₂
  obtain ⟨fixed, hfixed⟩ := w.labels
  -- The entry of the exit is still empty: the parts of the loop have added entries behind it and
  -- filled none.
  have hpos₂ :
      (d₂.jump .goto loop.entry).positions = front ++ none :: (back ++ fixed.map some) := by
    simpa [hpos] using hfixed
  refine .after (d₂.exec_jump _ .goto loop.entry) ?_
  refine .after (Draft.exec_fix_pending _ _ (Draft.pending_of_entry hpos₂ hexit)) ?_
  refine .of_exec (exec_leaveLoop _ loops loop) ⟨?_, ?_, fixed, ?_⟩
  · exact (w.adds.jump .goto (w.knows hk loop rfl).1).fix loop.exit
  · rw [Draft.fix_lines, Draft.length_jump_lines, w₂.length_lines, w₁.length_lines]
  · rw [Draft.positions_fix_of_entry hpos₂ hexit, Draft.fix_lines]
    simp

end

/-- A `while` loop: the test at the entry, a jump to the exit, the body and the jump back. -/
theorem Compiles.whileLoop {test body : Gen Unit} {p q : Layout} (htest : Compiles test p)
    (hbody : Compiles body q) :
    Compiles (do
      let exit ← newLabel
      let entry ← labelHere
      enterLoop { entry, exit }
      test
      jump .ifEq exit
      body
      jump .goto entry
      fix exit
      leaveLoop) (.whileLoop p q) := by
  intro d loops _
  refine .after (d.exec_newLabel loops) (.after (d.newLabel.exec_labelHere loops) ?_)
  refine .after (exec_enterLoop d.newLabel.labelHere loops _) ?_
  -- The exit is allocated first and stays open; the entry has its position from the start.
  let loop : Loop := ⟨⟨d.newLabel.positions.length⟩, ⟨d.positions.length⟩⟩
  let d₁ := d.newLabel.labelHere
  have hpos₁ : d₁.positions = d.positions ++ none :: [some d.lines.length] := by simp [d₁]
  have hentry : loop.entry.index < d₁.positions.length := by simp [loop, hpos₁]
  have hexit : loop.exit.index < d₁.positions.length := by simp [loop, hpos₁]
  have hk₁ : d₁.Knows (loops.push loop) := knows_push hentry hexit
  rw [← bind_assoc]
  refine (yields_iteration (yields_guard htest hk₁) hbody hentry hpos₁ rfl).mono fun d₂ h₂ => ?_
  obtain ⟨hadds, hlen, fixed, hfixed⟩ := h₂
  have hstart : d.Adds d₁ fun _ => [] := (Draft.Adds.of_lines_eq (.refl d) rfl).newLabel.labelHere
  have hlen₂ : d₂.lines.length = d.lines.length + p.size + q.size + 2 := by
    rw [hlen]
    show d.lines.length + (p.size + 1) + q.size + 1 = _
    omega
  refine ⟨(hstart.trans hadds).congr fun r hr => ?_, ?_⟩
  · have hreadExit : r.position loop.exit = d₂.lines.length := by
      rw [List.append_assoc] at hfixed
      exact hr.position_of_entry hfixed rfl
    have hreadEntry : r.position loop.entry = d.lines.length := by
      have hfixed' : d₂.positions =
          (d.positions ++ [some d₂.lines.length]) ++ some d.lines.length :: fixed.map some := by
        simpa using hfixed
      exact hr.position_of_entry hfixed' (by simp [loop])
    rw [hreadExit, hreadEntry, hlen₂]
    rfl
  · refine ⟨d₂.lines.length :: d.lines.length :: fixed, ?_⟩
    rw [hfixed]
    simp

/-- `guard` is the step for the test, which is given the exit once there is one. -/
theorem Compiles.forLoop {init update body : Gen Unit} {guard : Label → Gen Unit} {i u q : Layout}
    {test : Option Layout} (hinit : Compiles init i) (hupdate : Compiles update u)
    (hguard : ∀ (d : Draft) (loops : LoopStack) (loop : Loop), d.Knows (loops.push loop) →
      Yields (guard loop.exit) (d.unit (loops.push loop)) ((Layout.guard test).refusal true)
        (loops.push loop) (d.Places (.guard test) (loops.push loop)))
    (hbody : Compiles body q) :
    Compiles (do
      init
      let start ← newLabel
      jump .goto start
      let entry ← labelHere
      update
      let exit ← newLabel
      enterLoop { entry, exit }
      fix start
      guard exit
      body
      jump .goto entry
      fix exit
      leaveLoop) (.forLoop i u test q) := by
  intro d loops hk
  refine (hinit d loops hk).bind fun d₁ w₁ => ?_
  -- `start` and `entry` are the next two entries of the table; `exit` comes behind the labels of
  -- the update.
  let start : Label := ⟨d₁.positions.length⟩
  refine .after (d₁.exec_newLabel loops) (.after (Draft.exec_jump _ loops .goto start) ?_)
  refine .after (Draft.exec_labelHere _ loops) ?_
  have hentry : (d₁.newLabel.jump .goto start).positions.length = d₁.positions.length + 1 := by simp
  rw [hentry]
  let d₂ := (d₁.newLabel.jump .goto start).labelHere
  have hpos₂ : d₂.positions = d₁.positions ++ [none, some (d₁.lines.length + 1)] := by simp [d₂]
  have hadds₂ := (w₁.adds.newLabel.jump .goto (l := start) (by simp [start])).labelHere
  refine (hupdate d₂ loops ((w₁.knows hk).mono (by simp [hpos₂]))).bind fun d₃ w₃ => ?_
  obtain ⟨fixed₃, hfixed₃⟩ := w₃.labels
  have hpos₃ : d₃.positions =
      d₁.positions ++ none :: some (d₁.lines.length + 1) :: fixed₃.map some := by
    simpa [hpos₂] using hfixed₃
  have hpos₃' : d₃.newLabel.positions =
      d₁.positions ++ none :: (some (d₁.lines.length + 1) :: fixed₃.map some ++ [none]) := by
    simp [hpos₃]
  let loop : Loop := ⟨⟨d₁.positions.length + 1⟩, ⟨d₃.positions.length⟩⟩
  let d₄ := d₃.newLabel.fix start
  refine .after (d₃.exec_newLabel loops) (.after (exec_enterLoop _ loops loop) ?_)
  refine .after (Draft.exec_fix_pending _ _ (Draft.pending_of_entry hpos₃' rfl)) ?_
  -- With `start` fixed, the exit is the one label of the loop that is still open.
  let front := d₁.positions ++ some d₃.lines.length :: some (d₁.lines.length + 1) :: fixed₃.map some
  have hpos₄ : d₄.positions = front ++ none :: [] := by
    have := Draft.positions_fix_of_entry (l := start) hpos₃' rfl
    simpa [front] using this
  have hexit : loop.exit.index = front.length := by simp [loop, front, hpos₃]
  have hlt : loop.entry.index < d₄.positions.length := by simp [loop, hpos₄, front]
  have hk₄ : d₄.Knows (loops.push loop) := knows_push hlt (by simp [hpos₄, hexit])
  refine (yields_iteration (hguard d₄ loops loop hk₄) hbody hlt hpos₄ hexit).mono fun d₅ h₅ => ?_
  obtain ⟨hadds₅, hlen₅, fixed₅, hfixed₅⟩ := h₅
  have hpos₅ : d₅.positions = d₁.positions ++ some d₃.lines.length ::
      (some (d₁.lines.length + 1) ::
        (fixed₃.map some ++ some d₅.lines.length :: fixed₅.map some)) := by
    simpa [front] using hfixed₅
  have hadds := (((hadds₂.trans w₃.adds).newLabel).fix start).trans hadds₅
  refine ⟨hadds.congr fun r hr => ?_, ?_⟩
  · have hreadStart : r.position start = d₃.lines.length := hr.position_of_entry hpos₅ rfl
    have hreadEntry : r.position loop.entry = d₁.lines.length + 1 := by
      have hpos₅' : d₅.positions = d₁.positions ++ [some d₃.lines.length] ++
          some (d₁.lines.length + 1) ::
            (fixed₃.map some ++ some d₅.lines.length :: fixed₅.map some) := by
        simpa using hpos₅
      exact hr.position_of_entry hpos₅' (by simp [loop])
    have hreadExit : r.position loop.exit = d₅.lines.length := by
      rw [List.append_assoc] at hfixed₅
      exact hr.position_of_entry hfixed₅ hexit
    have hlen₂ : d₂.lines.length = d.lines.length + i.size + 1 := by
      rw [← w₁.length_lines]
      exact Draft.length_jump_lines _ _ _
    have hlen₃ : d₃.lines.length = d.lines.length + i.size + 1 + u.size := by
      rw [w₃.length_lines, hlen₂]
    have hlen₄ : d₄.lines.length = d.lines.length + i.size + 1 + u.size := by
      rw [← hlen₃]
      exact congrArg List.length (Draft.fix_lines _ _)
    have hlen₁ : d₁.lines.length + 1 = d.lines.length + i.size + 1 := by rw [w₁.length_lines]
    rw [hreadStart, hreadEntry, hreadExit, hlen₅, hlen₁, hlen₂, hlen₃, hlen₄]
    simp [Layout.forLoop]
  · obtain ⟨fixed₁, hfixed₁⟩ := w₁.labels
    refine ⟨fixed₁ ++ d₃.lines.length :: (d₁.lines.length + 1) ::
      (fixed₃ ++ d₅.lines.length :: fixed₅), ?_⟩
    rw [hpos₅, hfixed₁]
    simp

end Gen

end StackCode
