import StackCode.Error

/-!
# Enclosing loops

Where `break` and `continue` jump, for each loop around the statement being compiled.

Only the innermost loop is ever asked for, as there are no labels of statements. The others are kept
so that they are there again when the inner one is left.

Leaving a loop when there is none does nothing. It cannot happen in the compilation of a tree, where
entering and leaving come in pairs.
-/

set_option autoImplicit false

namespace StackCode

/-- The jump targets of a loop. -/
structure Loop where
  /-- Where `continue` goes: the test of a `while`, the update of a `for`. -/
  entry : Label
  /-- Where `break` goes: behind the loop. -/
  exit : Label
deriving DecidableEq

/-- The enclosing loops, the innermost first. -/
structure LoopStack where
  frames : List Loop := []
deriving DecidableEq

namespace LoopStack

/-- Enters a loop. -/
def push (loops : LoopStack) (loop : Loop) : LoopStack :=
  ⟨loop :: loops.frames⟩

/-- Leaves the innermost loop, which is returned if there is one. -/
def pop (loops : LoopStack) : Option Loop × LoopStack :=
  (loops.frames.head?, ⟨loops.frames.tail⟩)

/-- The innermost loop, as the target of the jump named by `statement`. -/
def innermost (loops : LoopStack) (statement : String) : Except Error Loop :=
  match loops.frames with
  | loop :: _ => .ok loop
  | [] => .error (.outsideLoop statement)

/-- The number of enclosing loops. -/
def depth (loops : LoopStack) : Nat :=
  loops.frames.length

end LoopStack

end StackCode
