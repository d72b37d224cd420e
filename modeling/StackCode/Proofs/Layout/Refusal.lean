import StackCode.Proofs.Layout.Tree

/-!
# What layouts are refused for

A layout that is put together from others is refused for what the first refused one of them is
refused for. So what holds of every refusal of the parts holds of every refusal of the whole, one
lemma for each shape of control flow.

The property is of errors, so it is enough to look at the leaves, where a layout is refused
outright. The lemmas on sequences are proved with one observation, that of two refusals the first
that is there is one of the two (`forall_or`).

Whether a loop is around matters for `break` and `continue`. It is a parameter of the property and
is changed by the lemmas on loops, where the parts are inside whatever is outside.
-/

set_option autoImplicit false

namespace StackCode.Layout

/-- Whatever the layout is refused for has the property. -/
def RefusedFor (P : Error → Prop) (inLoop : Bool) (plan : Layout) : Prop :=
  ∀ e, plan.refusal inLoop = some e → P e

variable {P : Error → Prop} {inLoop : Bool} {p q r : Layout}

/-- What is not refused is not refused for anything. -/
theorem refusedFor_of_eq_none (h : p.refusal inLoop = none) : p.RefusedFor P inLoop := by
  intro e he
  rw [h] at he
  cases he

theorem refusedFor_ofOps (ops : List Op) : (ofOps ops).RefusedFor P inLoop :=
  refusedFor_of_eq_none rfl

theorem refusedFor_refused {e : Error} (h : P e) : (refused e).RefusedFor P inLoop := by
  intro e' he'
  cases he'
  exact h

/-- The first refusal counts, and it is one of the two. -/
theorem forall_or {first second : Option Error} (h : ∀ e, first = some e → P e)
    (h' : ∀ e, second = some e → P e) (e : Error) (he : first.or second = some e) : P e := by
  rcases Option.or_eq_some_iff.mp he with hfirst | ⟨_, hsecond⟩
  · exact h e hfirst
  · exact h' e hsecond

namespace RefusedFor

theorem append (hp : p.RefusedFor P inLoop) (hq : q.RefusedFor P inLoop) :
    (p ++ q).RefusedFor P inLoop :=
  forall_or hp hq

theorem branch (hp : p.RefusedFor P inLoop) (hq : q.RefusedFor P inLoop)
    (hr : r.RefusedFor P inLoop) :
    (branch p q r).RefusedFor P inLoop :=
  forall_or hp (forall_or hq hr)

/-- Test and body are in the loop, wherever the loop is. -/
theorem whileLoop (hp : p.RefusedFor P true) (hq : q.RefusedFor P true) :
    (whileLoop p q).RefusedFor P inLoop :=
  forall_or hp hq

theorem guard {test : Option Layout} (h : ∀ t ∈ test, t.RefusedFor P inLoop) :
    (guard test).RefusedFor P inLoop := by
  cases test with
  | none => exact refusedFor_ofOps []
  | some t => exact h t rfl

/-- In a `for` loop. Its start and its update are outside of it, its test and its body are
inside. -/
theorem forLoop {test : Option Layout} (hp : p.RefusedFor P inLoop) (hq : q.RefusedFor P inLoop)
    (htest : ∀ t ∈ test, t.RefusedFor P true) (hr : r.RefusedFor P true) :
    (forLoop p q test r).RefusedFor P inLoop :=
  forall_or hp (forall_or hq (forall_or (guard htest) hr))

end RefusedFor

end StackCode.Layout
