import StackCode.Proofs.Layout.Emitted
import StackCode.Proofs.Layout.Units
import StackCode.Proofs.Machine.Doubles

/-!
# Postfix increment

An increment leaves the old value of its operand behind, with one exception. A variable is read a
second time for the sum, and an element has an instruction of its own; but the old value of a
property by name is computed back from the new one, so that it is the old value only if subtracting
undoes adding.

The theorem is an equivalence for each operand: it says when the old value is left, and so also when
it is not. On doubles the condition fails at 2^53, where adding one is lost to rounding and
subtracting one is not. This is a property of the code that is emitted, and not of any machine that
runs it.

For the code the difference is one of instructions. A property by name is incremented by a sequence
of them that does not keep the old value on the stack, and an element by one instruction that gives
it.
-/

set_option autoImplicit false

namespace StackCode

open Machine

variable {V S E Place : Type} {P : Primitives V S E}

/-- **The code that is emitted for an expression evaluates it**, wherever it is emitted. -/
theorem Expr.steps_of_emitted (P : Primitives V S E) {e : Expr} {fold : Bool} {d : Draft}
    {loops : LoopStack} (hk : d.Knows loops) {after : OpenUnit}
    (hexec : (Gen.expression fold e).exec (d.unit loops) = (.ok (), after)) {code : List Op}
    (hcode : CodeAt code (d.unit loops).asm.position ((d.unit loops).emitted after))
    (stack : List V) {σ : State V S} {v : V} {s : S}
    (heval : (e.folded fold).eval P σ.store = some (.ok v, s)) :
    Steps P code ⟨(d.unit loops).asm.position, stack, σ⟩ ⟨after.asm.position, v :: stack,
      { σ with store := s }⟩ := by
  have haccepted := Gen.refusal_of_exec hk hexec
  obtain ⟨hemitted, hposition⟩ := (Gen.compiles_folded fold e).emitted_eq haccepted hk hexec ⟨0, 0⟩
  rw [hemitted] at hcode
  have hfollows :=
    ((e.folded fold).supported_of_refusal haccepted).evaluates P code ⟨0, 0⟩ _ hcode stack σ
  rw [hposition]
  exact hfollows.of_ok heval

/-- Folding looks below an increment and leaves it one. -/
theorem Expr.folded_increment (fold : Bool) (operand : Expr) :
    (Expr.update .increment false operand).folded fold =
      .update .increment false (operand.folded fold) := by
  cases fold with
  | false => rfl
  | true => rw [folded, if_pos rfl, map, folded, if_pos rfl]

/-- What is left does not depend on how the operand is folded, only on its form. -/
theorem Expr.leftover_folded (M : Memory P Place) (fold : Bool) (operand : Expr) (v : V) :
    (operand.folded fold).leftover M v = operand.leftover M v := by
  cases fold with
  | false => rfl
  | true =>
    cases operand with
    | binary op left right =>
      rw [folded, if_pos rfl, map_deepFold_binary]
      unfold combine
      split <;> rfl
    | call callee arguments =>
      rw [folded, if_pos rfl, map_deepFold_call]
      rfl
    | _ => rfl

/-- The old value is left, unless the operand is a property by name and subtracting does not undo
adding. -/
theorem Expr.leftover_eq_iff (M : Memory P Place) (operand : Expr) (v : V) :
    operand.leftover M v = v ↔
      ∀ obj property, operand = .member obj property → M.predecessor (M.successor v) = v := by
  cases operand with
  | member obj property => exact ⟨fun h _ _ _ => h, fun h => h obj property rfl⟩
  | _ => exact ⟨fun _ _ _ h => (nomatch h), fun _ => rfl⟩

/-- **What the code of a postfix increment does.** Let the object and the key of the operand, each
evaluated once, lead to a place that holds `v`. Then the emitted code, wherever it was emitted and
whatever is on the stack, comes to its end with the store that this evaluation left, but with `v`
plus one at the place and everything else as it was. On top of the stack is `v` itself, unless the
operand is a property by name and subtracting one from `v` plus one does not give `v` back. -/
theorem increment_leaves_old_value_iff (M : Memory P Place) {operand : Expr} {fold : Bool}
    {d : Draft} {loops : LoopStack}
    (hk : d.Knows loops) {after : OpenUnit}
    (hexec : (Gen.expression fold (.update .increment false operand)).exec (d.unit loops) =
      (.ok (), after))
    {code : List Op}
    (hcode : CodeAt code (d.unit loops).asm.position ((d.unit loops).emitted after))
    (stack : List V) {σ : State V S} {place : Place} {s : S} {v : V}
    (hplace : (operand.folded fold).locate M σ.store = some (.ok place, s))
    (hv : M.read s place = some v) :
    ∃ result final,
      Steps P code ⟨(d.unit loops).asm.position, stack, σ⟩
        ⟨after.asm.position, result :: stack, { σ with store := final }⟩ ∧
      final = M.write place (M.successor v) s ∧ M.read final place = some (M.successor v) ∧
      (∀ other, other ≠ place → M.read final other = M.read s other) ∧
      (result = v ↔ ∀ obj property, operand = .member obj property →
        M.predecessor (M.successor v) = v) := by
  have heval := Expr.eval_increment M hplace hv
  rw [← Expr.folded_increment, Expr.leftover_folded] at heval
  refine ⟨operand.leftover M v, _, Expr.steps_of_emitted P hk hexec hcode stack heval,
    rfl, ?_, ?_, ?_⟩
  · exact M.read_write _ hv
  · intro other hother
    exact M.read_write_of_ne _ _ hother
  · exact operand.leftover_eq_iff M v

/-! ## On doubles -/

/-- `2 ^ 53`, where one is too small to be added. -/
def Double.brim : Double :=
  .ofNat 9007199254740992

/-- The globals `o` and `k`, and an object that has the number under the name `p` and under the key
7. -/
def Doubles.brimful : Doubles.Store
  | .global "o" => some (.object 0)
  | .global "k" => some (.number (.ofInt 7))
  | .field (.object 0) key =>
    if key = .string "p" ∨ key = .number (.ofInt 7) then some (.number .brim) else none
  | _ => none

/-- `o.p` -/
def Expr.named : Expr :=
  .member (.identifier ⟨"o", .global "o"⟩) "p"

/-- `o[k++]` -/
def Expr.keyed : Expr :=
  .index (.identifier ⟨"o", .global "o"⟩)
    (.update .increment false (.identifier ⟨"k", .global "k"⟩))

/-- The code for the increment of an operand, emitted at the start of a unit and run with a value on
the stack, leaves this result and this store. -/
def Doubles.Leaves (operand : Expr) (result : Doubles.Value) (final : Doubles.Store) : Prop :=
  ∃ after,
    (Gen.expression true (.update .increment false operand)).exec
      ((Draft.start {} "inc.js" 1).unit {}) = (.ok (), after) ∧
    Steps Doubles.primitives (((Draft.start {} "inc.js" 1).unit {}).emitted after)
      ⟨0, [.null], ⟨Doubles.brimful, none⟩⟩ ⟨after.asm.position, [result, .null], ⟨final, none⟩⟩

/-- `o[k++]++` leaves the old value, and `k` is incremented once. `o.p++` does not leave it. -/
theorem increment_leaves_old_value_iff_brimful :
    (∃ final, Doubles.Leaves .keyed (.number .brim) final ∧
      final (.global "k") = some (.number (.ofInt 8))) ∧
      ∃ result final, Doubles.Leaves .named result final ∧ result ≠ .number .brim := by
  have hk : (Draft.start {} "inc.js" 1).Knows {} := by
    intro loop hloop
    cases hloop
  constructor
  · obtain ⟨d', hexec, -⟩ := Gen.compiles_folded true (.update .increment false .keyed) _ _ hk
    have hplace : (Expr.keyed.folded true).locate Doubles.memory Doubles.brimful =
        some (.ok (.field (.object 0) (.number (.ofInt 7))),
          Doubles.write (.global "k")
            (.number ((Double.ofInt 7).add (.ofInt 1))) Doubles.brimful) := rfl
    obtain ⟨result, final, hsteps, -, -, hothers, hresult⟩ :=
      increment_leaves_old_value_iff Doubles.memory hk hexec (List.prefix_refl _) [.null]
        (σ := ⟨_, none⟩) hplace rfl
    obtain rfl := hresult.mpr nofun
    refine ⟨final, ⟨_, hexec, hsteps⟩, ?_⟩
    have hkey := hothers (.global "k") nofun
    exact hkey.trans (by decide +kernel)
  · obtain ⟨d', hexec, -⟩ := Gen.compiles_folded true (.update .increment false .named) _ _ hk
    have hplace : (Expr.named.folded true).locate Doubles.memory Doubles.brimful =
        some (.ok (.field (.object 0) (.string "p")), Doubles.brimful) := rfl
    obtain ⟨result, final, hsteps, -, -, -, hresult⟩ :=
      increment_leaves_old_value_iff Doubles.memory hk hexec (List.prefix_refl _) [.null]
        (σ := ⟨_, none⟩) hplace rfl
    refine ⟨result, final, ⟨_, hexec, hsteps⟩, fun hold => ?_⟩
    have hundone := hresult.mp hold _ _ rfl
    exact absurd hundone (by decide +kernel)

/-- The unit of `o.p++;`. -/
def CodeUnit.namedIncrement : CodeUnit where
  scope := {}
  filename := "inc.js"
  line := 1
  code := #[⟨.getGlobal, some (.atom 0)⟩, ⟨.dup, none⟩, ⟨.getProp, some (.atom 1)⟩, ⟨.one, none⟩,
    ⟨.add, none⟩, ⟨.setProp, some (.atom 1)⟩, ⟨.one, none⟩, ⟨.sub, none⟩, ⟨.popv, none⟩,
    ⟨.stop, none⟩]
  atoms := #["o", "p"]

/-- The value of the script `o.p++;` is not what `o.p` was: it is `2 ^ 53 - 1` where `o.p` was
`2 ^ 53`. -/
theorem namedIncrement_loses_old_value :
    Program.compileToplevel
        { filename := "inc.js", body := [.expression (.update .increment false .named)] } false =
      .ok .namedIncrement ∧
      Doubles.brimful (.field (.object 0) (.string "p")) =
        some (.number (.ofNat 9007199254740992)) ∧
      ((run Doubles.primitives CodeUnit.namedIncrement.ops 10 ⟨0, [], ⟨Doubles.brimful, none⟩⟩).map
        fun h => h.state.completion) = some (some (.number (.ofNat 9007199254740991))) ∧
      Double.ofNat 9007199254740991 ≠ Double.ofNat 9007199254740992 := by
  refine ⟨CodeUnit.eq_ok_of_toOption
    (by decide +kernel), by decide +kernel, by decide +kernel, by decide +kernel⟩

end StackCode
