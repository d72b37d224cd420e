import StackCode.Proofs.Layout.Correct

/-!
# The units of an object file

Every unit of an object file has a body: the statements of a function, or those of the top level.
With folding on, what is laid out is the deep fold of those statements. Units stand in the order of
their bodies, and the code of each is the layout of its body.

This is where statements about units become statements about trees. A property of every unit of
every object file is a property of the layouts of bodies, and a reader of such a property does not
meet the assembler again.

The bodies are those of the script in the order of the units: the functions that the top level
declares at any depth, in the order of their declaration, and then the top level itself. Scopes and
line numbers play no part in the code, and bodies do not mention them.

For a given script the units are found by evaluation (`Program.exists_unit` and the two lemmas
before it), so that what is proved of all units can be applied to one.
-/

set_option autoImplicit false

namespace StackCode

/-- What a unit is compiled from. -/
structure Body where
  toplevel : Bool
  statements : List Stmt

namespace Body

/-- The body whose additions are those that the compiler is left with. -/
def folded (fold : Bool) (body : Body) : Body :=
  if fold then { body with statements := Stmt.mapList .deepFold body.statements } else body

def layout (body : Body) : Layout :=
  Stmt.listLayout body.toplevel body.statements

end Body

/-- The bodies of the units of a script: its functions, then the top level. -/
def Program.bodies (p : Program) (fold : Bool) : List Body :=
  (p.functions.map fun f => Body.folded fold ⟨false, f.body⟩) ++ [Body.folded fold ⟨true, p.body⟩]

/-- A body compiles to the layout of what folding makes of it. -/
theorem Gen.compiles_body (fold : Bool) (body : Body) :
    Compiles (statements { toplevel := body.toplevel, fold } body.statements)
      (body.folded fold).layout := by
  cases fold with
  | false => exact compiles_statements body.toplevel body.statements
  | true =>
    rw [← statements_map Change.unseen_deepFold]
    exact compiles_statements body.toplevel (Stmt.mapList .deepFold body.statements)

/-- The unit of a function has the code of its body. -/
theorem FunctionDecl.isCodeOf_compile (f : FunctionDecl) (filename : String) (fold : Bool) :
    (Body.folded fold ⟨false, f.body⟩).layout.IsCodeOf (f.compile filename fold) :=
  (Gen.compiles_body fold ⟨false, f.body⟩).isCodeOf_build f.scope filename f.line

/-- The unit of the top level has the code of the script. -/
theorem Program.isCodeOf_compileToplevel (p : Program) (fold : Bool) :
    (Body.folded fold ⟨true, p.body⟩).layout.IsCodeOf (p.compileToplevel fold) :=
  (Gen.compiles_body fold ⟨true, p.body⟩).isCodeOf_build p.scope p.filename p.line

/-- A unit that was compiled: the layout is accepted, and the code is the layout followed by
`stop`. -/
theorem Layout.IsCodeOf.of_ok {plan : Layout} {unit : CodeUnit} (h : plan.IsCodeOf (.ok unit)) :
    plan.refusal false = none ∧ ∀ t, unit.ops = plan.code t 0 ++ [.bare .stop] := by
  unfold IsCodeOf at h
  cases hrefusal : plan.refusal false with
  | some e =>
    rw [hrefusal] at h
    cases h
  | none =>
    rw [hrefusal] at h
    obtain ⟨unit', hunit, _, hops⟩ := h
    cases hunit
    exact ⟨rfl, hops⟩

/-- A unit that was not: the layout is refused with its error. -/
theorem Layout.IsCodeOf.of_error {plan : Layout} {e : Error} (h : plan.IsCodeOf (.error e)) :
    plan.refusal false = some e := by
  unfold IsCodeOf at h
  cases hrefusal : plan.refusal false with
  | some e' =>
    rw [hrefusal] at h
    cases h
    rfl
  | none =>
    rw [hrefusal] at h
    obtain ⟨unit, hunit, _⟩ := h
    cases hunit

/-- Where units are the results of compiling some things, each of the things compiles. -/
theorem CodeUnit.exists_of_map {α : Type} {units : List CodeUnit} {xs : List α}
    {compile : α → Except Error CodeUnit} (h : units.map .ok = xs.map compile) (x : α)
    (hx : x ∈ xs) : ∃ unit, compile x = .ok unit := by
  have hmem : compile x ∈ units.map .ok := by
    rw [h]
    exact List.mem_map_of_mem hx
  obtain ⟨unit, _, hunit⟩ := List.mem_map.mp hmem
  exact ⟨unit, hunit.symm⟩

/-- An object file is collected if every unit compiles, and then holds the units in order. -/
theorem ObjectFile.collect_eq_ok {filename : String} {results : List UnitResult}
    {file file' : ObjectFile} (h : collect filename file results = .ok file') :
    ∃ units : List CodeUnit, file'.units.toList = file.units.toList ++ units ∧
      results.map UnitResult.result = units.map .ok := by
  induction results generalizing file with
  | nil =>
    cases h
    exact ⟨[], (List.append_nil _).symm, rfl⟩
  | cons r results ih =>
    obtain ⟨origin, line, result⟩ := r
    cases result with
    | error e => cases h
    | ok unit =>
      obtain ⟨units, hunits, hresults⟩ := ih h
      refine ⟨unit :: units, ?_, ?_⟩
      · rw [hunits]
        simp [push]
      · rw [List.map_cons, hresults]
        rfl

/-- The results of a script, each with the body that it comes from. -/
theorem Program.isCodeOf_unitResults (p : Program) (fold : Bool) {i : Nat} {r : UnitResult}
    (h : (p.unitResults fold)[i]? = some r) :
    ∃ body, (p.bodies fold)[i]? = some body ∧ body.layout.IsCodeOf r.result := by
  unfold unitResults at h
  unfold bodies
  rcases Nat.lt_or_ge i p.functions.length with hlt | hge
  · rw [List.getElem?_append_left (by simpa using hlt), List.getElem?_map,
      List.getElem?_eq_getElem hlt] at h
    rw [List.getElem?_append_left (by simpa using hlt), List.getElem?_map,
      List.getElem?_eq_getElem hlt]
    cases h
    exact ⟨_, rfl, FunctionDecl.isCodeOf_compile _ p.filename fold⟩
  · rw [List.getElem?_append_right (by simpa using hge), List.length_map] at h
    rw [List.getElem?_append_right (by simpa using hge), List.length_map]
    obtain ⟨hi, hr⟩ := List.getElem?_eq_some_iff.mp h
    have hzero : i - p.functions.length = 0 := by simpa using hi
    rw [hzero] at h ⊢
    cases h
    exact ⟨_, rfl, p.isCodeOf_compileToplevel fold⟩

/-- **The units of an object file are those of its bodies**, in the same order. -/
theorem Program.unit_of_compile {p : Program} {fold : Bool} {file : ObjectFile}
    (h : p.compile fold = .ok file) {i : Nat} {unit : CodeUnit}
    (hunit : file.units[i]? = some unit) :
    ∃ body, (p.bodies fold)[i]? = some body ∧ body.layout.refusal false = none ∧
      ∀ t, unit.ops = body.layout.code t 0 ++ [.bare .stop] := by
  obtain ⟨units, hunits, hresults⟩ := ObjectFile.collect_eq_ok h
  have hget : units[i]? = some unit := by
    have : file.units.toList = units := hunits
    rw [← this, Array.getElem?_toList]
    exact hunit
  have hresult : ((p.unitResults fold).map UnitResult.result)[i]? = some (.ok unit) := by
    rw [hresults, List.getElem?_map, hget]
    rfl
  rw [List.getElem?_map, Option.map_eq_some_iff] at hresult
  obtain ⟨r, hr, hok⟩ := hresult
  obtain ⟨body, hbody, hcode⟩ := p.isCodeOf_unitResults fold hr
  rw [hok] at hcode
  exact ⟨body, hbody, hcode.of_ok⟩

/-- Which unit a body is compiled to can be computed. -/
theorem CodeUnit.eq_ok_of_toOption {result : Except Error CodeUnit} {unit : CodeUnit}
    (h : result.toOption = some unit) :
    result = .ok unit := by
  cases result with
  | error e => cases h
  | ok unit' => rw [Option.some.inj h]

/-- Which unit a script has at a given index can be computed. -/
theorem Program.exists_file {p : Program} {fold : Bool} {i : Nat} {unit : CodeUnit}
    (h : ((p.compile fold).toOption.bind fun file => file.units[i]?) = some unit) :
    ∃ file, p.compile fold = .ok file ∧ file.units[i]? = some unit := by
  cases hfile : p.compile fold with
  | error e =>
    rw [hfile] at h
    cases h
  | ok file =>
    rw [hfile] at h
    exact ⟨file, rfl, h⟩

/-- Whether a script has a unit of a given index can be computed. -/
theorem Program.exists_unit (p : Program) (fold : Bool) (i : Nat)
    (h : ((p.compile fold).toOption.bind fun file => file.units[i]?).isSome = true) :
    ∃ file unit, p.compile fold = .ok file ∧ file.units[i]? = some unit := by
  obtain ⟨unit, hunit⟩ := Option.isSome_iff_exists.mp h
  obtain ⟨file, hfile, hunit⟩ := Program.exists_file hunit
  exact ⟨file, unit, hfile, hunit⟩

end StackCode
