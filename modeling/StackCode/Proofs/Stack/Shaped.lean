import StackCode.Proofs.Stack.Shape

/-!
# Shapes of layouts

A layout is *shaped* if it takes the stack from one shape to another wherever it is placed, inside
of any loop at whose entry and exit the stack is empty. This file has a rule for each combinator of
layouts.

Being shaped is asked for all places and all loop targets. So a rule may place its parts where it
likes, and the positions that a piece promises to be empty are given as a function of the place.

The rules for branches ask that both parts leave the same shape. There is no rule that would join
two shapes, and none is needed: the compiler emits no code whose stack depends on the way it was
reached.

A loop is entered with an empty stack. This is a restriction on the rule and a fact about
statements, as no loop stands inside of an expression.
-/

set_option autoImplicit false

namespace StackCode

/-- The layout turns the shape `before` into `after`, and has an empty stack at the positions
`empty a` when it is placed at `a`. -/
def Layout.Shaped (plan : Layout) (before after : Shape) (empty : Nat → List Nat) : Prop :=
  ∀ t a, Piece (fun S => S t.entry = some [] ∧ S t.exit = some []) a (plan.code t a) before after
    (empty a)

/-! ## Pieces at a given place

The instructions that the rules write themselves: jumps, tests and returns. -/

section

variable {outside : (Nat → Option Shape) → Prop} {a b : Nat} {code code' : List Op}
  {before mid after : Shape} {empty empty' : List Nat}

/-- In sequence, with the place of the second given by an equation, so that no rule has to rewrite
positions. -/
theorem Piece.seq (h : Piece outside a code before mid empty) (hb : b = a + code.length)
    (h' : Piece outside b code' mid after empty') :
    Piece outside a (code ++ code') before after (empty ++ empty') := by
  exact .append hb (h.mono fun _ hS => hS.1) (h'.mono fun _ hS => hS.1.1)

theorem Piece.of_subset (h : Piece outside a code before after empty)
    (hsub : ∀ j ∈ empty', j ∈ empty) : Piece outside a code before after empty' := by
  obtain ⟨shapes, hlen, hhead, hS⟩ := h
  refine ⟨shapes, hlen, hhead, fun S hout hassigns => ?_⟩
  obtain ⟨hsound, hempty⟩ := hS S hout hassigns
  exact ⟨hsound, fun j hj => hempty j (hsub j hj)⟩

/-- A jump to a position whose shape is known. What stands behind it is not reached from it. -/
theorem Piece.goto {target : Nat} (behind : Shape) (h : ∀ S, outside S → S target = some before) :
    Piece outside a [.jump .goto target] before behind [] := by
  refine .op fun S hout hS _ => ⟨_, before, rfl, hS, nofun, fun j hj => ?_⟩
  obtain rfl := List.mem_singleton.mp hj
  exact h S hout

/-- A test of the value on top. -/
theorem Piece.ifEq {target : Nat} {shape : Shape} (h : ∀ S, outside S → S target = some shape) :
    Piece outside a [.jump .ifEq target] (.value :: shape) shape [] := by
  refine .op fun S hout hS hnext => ⟨_, shape, rfl, hS, nofun, fun j hj => ?_⟩
  rcases List.mem_cons.mp hj with rfl | hj
  · exact hnext
  · obtain rfl := List.mem_singleton.mp hj
    exact h S hout

/-- An instruction behind which control never arrives at the next one. -/
theorem Piece.ret (behind : Shape) : Piece outside a [.bare .ret] [.value] behind [] :=
  .op fun _ _ hS _ => ⟨_, [], rfl, hS, fun _ => rfl, nofun⟩

theorem Piece.popv : Piece outside a [.bare .popv] [.value] [] [] := by
  refine .op fun S _ hS hnext => ⟨_, [], rfl, hS, fun _ => rfl, fun j hj => ?_⟩
  obtain rfl := List.mem_singleton.mp hj
  exact hnext

end

/-! ## Straight-line code -/

/-- Whether control goes on with the next instruction. -/
def Op.isStraight (o : Op) : Bool :=
  match o.opcode with
  | .goto | .ifEq | .ret | .stop => false
  | _ => true

theorem Op.successors_of_isStraight {o : Op} (h : o.isStraight = true) (i : Nat) :
    o.successors i = [i + 1] := by
  obtain ⟨opcode, argument⟩ := o
  cases opcode <;> first | rfl | cases h

/-- Instructions without jumps take the stack from one shape to another. -/
inductive Op.Steps : List Op → Shape → Shape → Prop where
  | nil (shape : Shape) : Steps [] shape shape
  | cons {o : Op} {ops : List Op} {takes leaves rest before after : Shape}
      (hsig : o.signature? = some ⟨takes, leaves, false⟩) (hstraight : o.isStraight = true)
      (hbefore : before = takes ++ rest) (h : Steps ops (leaves ++ rest) after) :
      Steps (o :: ops) before after

/-- Straight-line code is a piece wherever it is placed. -/
theorem Piece.of_steps {outside : (Nat → Option Shape) → Prop} {ops : List Op}
    {before after : Shape} (h : Op.Steps ops before after) (a : Nat) :
    Piece outside a ops before after [] := by
  induction h generalizing a with
  | nil shape => exact .nil shape
  | cons hsig hstraight hbefore _ ih =>
    refine Piece.seq
      (.op fun S _ hS hnext => ⟨_, _, hsig, hbefore ▸ hS, nofun, fun j hj => ?_⟩) rfl (ih _)
    rw [Op.successors_of_isStraight hstraight, List.mem_singleton] at hj
    exact hj ▸ hnext

/-! ## Rules

One for each way of putting layouts together, with the shapes of the parts in the premises. -/

namespace Layout

section

variable {p q s : Layout} {before mid after : Shape} {empty empty' : Nat → List Nat}

theorem Shaped.steps {ops : List Op} (h : Op.Steps ops before after) :
    (ofOps ops).Shaped before after fun _ => [] := fun _ a =>
  .of_steps h a

theorem Shaped.popv : (ofOps [.bare .popv]).Shaped [.value] [] fun _ => [] := fun _ _ =>
  .popv

/-- Nothing is known of the stack behind a return, so it may be taken for what is needed there. -/
theorem Shaped.ret (behind : Shape) : (ofOps [.bare .ret]).Shaped [.value] behind fun _ => [] :=
  fun _ _ => .ret behind

theorem Shaped.append (h : p.Shaped before mid empty) (h' : q.Shaped mid after empty') :
    (p ++ q).Shaped before after fun a => empty a ++ empty' (a + p.size) := fun t a =>
  (h t a).seq (by simp) (h' t (a + p.size))

/-- Both parts start where the test leaves off, and end with the same shape. -/
theorem Shaped.branch (htest : p.Shaped before (.value :: before) fun _ => [])
    (hyes : q.Shaped before after empty) (hno : s.Shaped before after empty') :
    (Layout.branch p q s).Shaped before after fun a =>
      empty (a + p.size + 1) ++ empty' (a + p.size + q.size + 2) := by
  intro t a
  let otherwise := a + p.size + q.size + 2
  let merge := a + p.size + q.size + s.size + 2
  let first :=
    p.code t a ++ [.jump .ifEq otherwise] ++ q.code t (a + p.size + 1) ++ [.jump .goto merge]
  have hcode : (Layout.branch p q s).code t a = first ++ s.code t otherwise := by
    simp [Layout.branch, first, otherwise, merge]
  have hfirst : otherwise = a + first.length := by
    simp only [first, otherwise, List.length_append, List.length_singleton, length_code]
    omega
  have hall : merge = a + (first ++ s.code t otherwise).length := by
    rw [List.length_append, ← Nat.add_assoc, ← hfirst, length_code]
    omega
  let known (S : Nat → Option Shape) :=
    (S t.entry = some [] ∧ S t.exit = some []) ∧ S otherwise = some before ∧ S merge = some after
  have hpiece : Piece known a first before before (empty (a + p.size + 1)) := by
    have htest' :=
      ((htest t a).mono fun S (hS : known S) => hS.1).seq rfl (.ifEq fun S hS => hS.2.1)
    have hyes' :=
      htest'.seq (by simp [Nat.add_assoc]) ((hyes t (a + p.size + 1)).mono fun S hS => hS.1)
    exact (hyes'.seq rfl (.goto before fun S hS => hS.2.2)).of_subset (by simp)
  have hpiece' : Piece known otherwise (s.code t otherwise) before after (empty' otherwise) :=
    (hno t otherwise).mono fun S hS => hS.1
  rw [hcode]
  -- The end of the code is `merge`, and the place between its two parts is `otherwise`.
  refine .loop hall (.append hfirst (hpiece.mono ?_) (hpiece'.mono ?_))
  · rintro S ⟨⟨hout, _, hmerge⟩, hotherwise⟩
    exact ⟨hout, hotherwise, hmerge⟩
  · rintro S ⟨⟨⟨hout, _, hmerge⟩, hotherwise⟩, _⟩
    exact ⟨hout, hotherwise, hmerge⟩

/-- The test of a loop leaves the loop, where the stack is empty. -/
theorem Shaped.guard {test : Option Layout} (h : ∀ p ∈ test, p.Shaped [] [.value] fun _ => []) :
    (Layout.guard test).Shaped [] [] fun _ => [] := by
  cases test with
  | none => exact fun _ _ => .nil []
  | some p => exact fun t a => (h p rfl t a).seq rfl (.ifEq fun S hS => hS.2)

/-- The exit of a loop is assumed to have an empty stack. -/
theorem Shaped.breakLoop : Layout.breakLoop.Shaped [] [] fun _ => [] := fun _ _ =>
  .goto [] fun _ hS => hS.2

theorem Shaped.continueLoop : Layout.continueLoop.Shaped [] [] fun _ => [] := fun _ _ =>
  .goto [] fun _ hS => hS.1

/-- What is done in each iteration of a loop, and the jump back. -/
theorem Shaped.iteration (hguard : p.Shaped [] [] fun _ => []) (hbody : q.Shaped [] [] empty)
    (inner : LoopTargets) (a : Nat) :
    Piece (fun S => S inner.entry = some [] ∧ S inner.exit = some []) a
      (p.code inner a ++ q.code inner (a + p.size) ++ [.jump .goto inner.entry]) [] []
      (empty (a + p.size)) := by
  have hbody' := (hguard inner a).seq (by simp) (hbody inner (a + p.size))
  exact (hbody'.seq rfl (.goto [] fun S hS => hS.1)).of_subset (by simp)

/-- The body comes back with an empty stack, and so does the test that fails. -/
theorem Shaped.whileLoop (htest : p.Shaped [] [.value] fun _ => []) (hbody : q.Shaped [] [] empty) :
    (Layout.whileLoop p q).Shaped [] [] fun a => empty (a + p.size + 1) := by
  intro t a
  let inner : LoopTargets := ⟨a, a + p.size + q.size + 2⟩
  have hguard : (Layout.guard (some p)).Shaped [] [] fun _ => [] := .guard (by simpa using htest)
  have hall : inner.exit = a + ((Layout.whileLoop p q).code t a).length := by
    rw [length_code]
    show a + p.size + q.size + 2 = a + (p.size + q.size + 2)
    omega
  exact .loop hall ((hguard.iteration hbody inner a).mono fun S hS => hS.2)

/-- The entry of the loop is between the initialisation and the update, and its start behind the
update. -/
theorem Shaped.forLoop {test : Option Layout} (hinit : p.Shaped [] [] fun _ => [])
    (hupdate : q.Shaped [] [] fun _ => []) (htest : ∀ p ∈ test, p.Shaped [] [.value] fun _ => [])
    (hbody : s.Shaped [] [] empty) :
    (Layout.forLoop p q test s).Shaped [] [] fun a =>
      empty (a + p.size + 1 + q.size + (Layout.guard test).size) := by
  intro t a
  let entry := a + p.size + 1
  let start := entry + q.size
  let exit := start + (Layout.guard test).size + s.size + 1
  let inner : LoopTargets := ⟨entry, exit⟩
  let first := p.code t a ++ [.jump .goto start]
  let head := first ++ q.code t entry
  let tail := (Layout.guard test).code inner start ++
    s.code inner (start + (Layout.guard test).size) ++
    [.jump .goto entry]
  have hcode : (Layout.forLoop p q test s).code t a = head ++ tail := by
    simp [Layout.forLoop, head, first, tail, inner, start, entry, exit]
  have hentry : entry = a + first.length := by
    simp [entry, first, Nat.add_assoc]
  have hstart : start = a + head.length := by
    rw [List.length_append, ← Nat.add_assoc, ← hentry, length_code]
  have hexit : exit = a + (head ++ tail).length := by
    rw [List.length_append, ← Nat.add_assoc, ← hstart]
    simp [tail, exit, Nat.add_assoc]
  -- What the two halves assume of the positions that they do not own. The entry is known to be
  -- empty from the first half on.
  let known (S : Nat → Option Shape) :=
    (S t.entry = some [] ∧ S t.exit = some []) ∧ S start = some [] ∧ S exit = some []
  -- The initialisation and the jump over the update, and then the update, whose start is the entry.
  have hhead : Piece known a head [] [] [entry] := by
    have hinit' :=
      ((hinit t a).mono fun S (hS : known S) => hS.1).seq rfl (.goto [] fun S hS => hS.2.1)
    have hupdate' := (hupdate t entry).mono fun S (hS : known S) => hS.1
    exact (hinit'.seq hentry hupdate'.ends).of_subset (by simp)
  have htail : Piece (fun S => known S ∧ ∀ j ∈ [entry], S j = some []) start tail [] []
      (empty (start + (Layout.guard test).size)) :=
    ((Shaped.guard htest).iteration hbody inner start).mono fun S hS =>
      ⟨hS.2 entry List.mem_cons_self, hS.1.2.2⟩
  rw [hcode]
  refine .loop hexit ((Piece.append hstart (hhead.mono ?_) (htail.mono ?_)).of_subset fun j hj =>
    ?_)
  · rintro S ⟨⟨hout, _, hexit⟩, hstart⟩
    exact ⟨hout, hstart, hexit⟩
  · rintro S ⟨⟨⟨hout, _, hexit⟩, hstart⟩, hentry⟩
    exact ⟨⟨hout, hstart, hexit⟩, hentry⟩
  · exact List.mem_append_right _ hj

end

end Layout

end StackCode
