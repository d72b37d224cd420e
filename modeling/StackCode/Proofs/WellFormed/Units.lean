import StackCode.Proofs.Log.Units
import StackCode.Proofs.WellFormed.Tree

/-!
# The units of an object file are well formed

Each unit comes from a run of the compiler on a new draft. The log of the run has proper operations
only, so the draft at the end of the run is tidy, and closing it gives the unit.

Two things are proved of every unit. That it is well formed needs no assumption at all. That its
slots are those of its scope is what one would expect, and holds if the variables of the tree are
within the scope, for which the compiler has to trust whoever resolved the names: it copies slots
and does not count them.

The second part is about each unit separately, since a function and the top level have different
scopes.
-/

set_option autoImplicit false

namespace StackCode

namespace UnitSource

/-- The variables of the unit: those in its expressions and those that it declares, at any depth. -/
def vars (source : UnitSource) : List Variable :=
  (Stmt.listNodes false source.body.statements).flatMap fun node => node.stmt.vars

variable {source : UnitSource} {filename : String} {fold : Bool} {unit : CodeUnit}

/-- What a unit is compiled with, where `vs` holds of the variables of the source. -/
theorem does_step (vs : Binding → Prop) (hvars : ∀ v ∈ source.vars, vs v.binding) (fold : Bool) :
    Gen.Does (Operation.Proper vs) (source.step fold) :=
  Gen.closed_does.statements _ false _ hvars

/-- A unit that is built is a closed draft, which comes out of proper operations on a new one. If
the variables of the unit are within `vs`, so is all that the operations load and store. -/
theorem exists_log (vs : Binding → Prop) (hvars : ∀ v ∈ source.vars, vs v.binding)
    (hbuild : source.build filename fold = .ok unit) :
    ∃ os : List Operation, (∀ o ∈ os, o.Proper vs) ∧
      ((source.draft filename).perform os).toAssembler.close = .ok unit := by
  obtain ⟨os, result, after, hlog, hos⟩ := does_step vs hvars fold (source.fresh filename)
  obtain ⟨loops, hafter⟩ := hlog.after_eq (source.fresh_eq_unit filename)
  refine ⟨os, hos, ?_⟩
  cases result with
  | error e =>
    -- A run that fails builds nothing.
    have herror : source.build filename fold = .error e :=
      OpenUnit.build_of_error (congrArg Prod.fst hlog.exec_eq)
    rw [hbuild] at herror
    cases herror
  | ok a =>
    have hfinish : source.build filename fold = after.finish := OpenUnit.build_of_ok hlog.exec_eq
    rw [hbuild, hafter] at hfinish
    unfold OpenUnit.finish at hfinish
    split at hfinish
    · exact hfinish.symm
    · cases hfinish

/-- The draft is tidy, and has the scope of the source. -/
theorem exists_tidy (vs : Binding → Prop) (hvars : ∀ v ∈ source.vars, vs v.binding)
    (hbuild : source.build filename fold = .ok unit) :
    ∃ d : Draft, d.Tidy vs ∧ d.toAssembler.close = .ok unit ∧ d.scope = source.scope := by
  obtain ⟨os, hos, hclose⟩ := exists_log vs hvars hbuild
  exact ⟨_, (Draft.tidy_start _ _ _).perform hos, hclose,
    ((source.draft filename).extends_perform os).scope⟩

/-- A unit that is built is well formed, whatever its source. -/
theorem wellFormed_of_build (hbuild : source.build filename fold = .ok unit) : unit.WellFormed := by
  obtain ⟨d, htidy, hclose, _⟩ := exists_tidy (fun _ => True) (fun _ _ => trivial) hbuild
  exact htidy.wellFormed hclose

theorem scope_of_build (hbuild : source.build filename fold = .ok unit) :
    unit.scope = source.scope := by
  obtain ⟨d, htidy, hclose, hscope⟩ := exists_tidy (fun _ => True) (fun _ _ => trivial) hbuild
  obtain ⟨-, -, rfl⟩ := (d.close_eq_ok_iff unit).mp hclose
  exact hscope

/-- The unit says where its source stands. -/
theorem place_of_build (hbuild : source.build filename fold = .ok unit) :
    unit.filename = filename ∧ unit.line = source.line := by
  obtain ⟨os, -, hclose⟩ := exists_log (fun _ => True) (fun _ _ => trivial) hbuild
  obtain ⟨-, -, rfl⟩ := (Draft.close_eq_ok_iff _ unit).mp hclose
  have hext := (source.draft filename).extends_perform os
  exact ⟨hext.filename, hext.line⟩

theorem slotsInScope_of_build (hbuild : source.build filename fold = .ok unit)
    (hvars : ∀ v ∈ source.vars, v.binding.InScope source.scope) : unit.SlotsInScope := by
  obtain ⟨d, htidy, hclose, _⟩ := exists_tidy (Binding.InScope source.scope) hvars hbuild
  intro i hi b hb
  rw [scope_of_build hbuild]
  exact htidy.bound hclose hi hb

end UnitSource

/-- **Units are well formed.** Every unit of an object file is a unit that the machine can run. It
comes from the source at its index and has the scope of the source. If the variables of the source
have slots of that scope, so has every instruction that loads or stores an argument or a local. -/
theorem compiled_units_wellFormed {p : Program} {fold : Bool} {file : ObjectFile}
    (h : p.compile fold = .ok file) {i : Nat} {unit : CodeUnit}
    (hunit : file.units[i]? = some unit) :
    unit.WellFormed ∧
      ∃ source, p.sources[i]? = some source ∧ unit.scope = source.scope ∧
        ((∀ v ∈ source.vars, v.binding.InScope source.scope) → unit.SlotsInScope) := by
  obtain ⟨source, hsource, hbuild⟩ := Program.source_of_unit h hunit
  exact ⟨UnitSource.wellFormed_of_build hbuild, source, hsource, UnitSource.scope_of_build hbuild,
    UnitSource.slotsInScope_of_build hbuild⟩

/-- `function f(n) { var total = 70000; while (n < total) { total = total - n; log.last = "step"; }
return total; }`, and a call of it. -/
def Program.drain : Program where
  filename := "drain.js"
  body :=
    let n := Variable.mk "n" (.parameter 0)
    let total := Variable.mk "total" (.localSlot 0)
    let log := Variable.mk "log" (.global "log")
    [.function "f" 1 { parameters := #["n"], locals := #["total"] }
      [.declaration .var [(total, some (.number (.ofNat 70000)))],
        .whileLoop (.binary .lessThan (.identifier n) (.identifier total))
          (.block [.expression (.assign .assign (.identifier total)
              (.binary .subtract (.identifier total) (.identifier n))),
            .expression (.assign .assign (.member (.identifier log) "last") (.string "'step'"))]),
        .giveBack (some (.identifier total))],
      .expression (.call (.identifier ⟨"f", .global "f"⟩) [.number (.ofNat 2), .number (.ofNat 3)])]

/-- What the function compiles to, with its two jumps, three atoms and every load and store of a
slot. -/
def CodeUnit.drain : CodeUnit where
  scope := { parameters := #["n"], locals := #["total"] }
  filename := "drain.js"
  line := 1
  code := #[⟨.uint24, some (.uint24 70000)⟩, ⟨.setLocal, some (.slot 0)⟩, ⟨.pop, none⟩,
    ⟨.getArg, some (.slot 0)⟩, ⟨.getLocal, some (.slot 0)⟩, ⟨.lt, none⟩, ⟨.ifEq, some (.jump 17)⟩,
    ⟨.getLocal, some (.slot 0)⟩, ⟨.getArg, some (.slot 0)⟩, ⟨.sub, none⟩,
    ⟨.setLocal, some (.slot 0)⟩, ⟨.pop, none⟩,
    ⟨.getGlobal, some (.atom 0)⟩, ⟨.string, some (.atom 1)⟩, ⟨.setProp, some (.atom 2)⟩,
    ⟨.pop, none⟩, ⟨.goto, some (.jump 3)⟩,
    ⟨.getLocal, some (.slot 0)⟩, ⟨.ret, none⟩, ⟨.stop, none⟩]
  atoms := #["log", "step", "last"]

theorem compiled_units_wellFormed_drain :
    ∃ file, Program.drain.compile true = .ok file ∧ file.units[0]? = some .drain ∧
      CodeUnit.drain.WellFormed ∧ CodeUnit.drain.SlotsInScope := by
  obtain ⟨file, hcompile, hunit⟩ : ∃ file, Program.drain.compile true = .ok file ∧
      file.units[0]? = some .drain := Program.exists_file (by decide +kernel)
  obtain ⟨hwf, source, hsource, _, hslots⟩ := compiled_units_wellFormed hcompile hunit
  cases hsource
  exact ⟨file, hcompile, hunit, hwf, hslots (by decide)⟩

end StackCode
