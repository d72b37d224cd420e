import StackCode.Proofs.Layout.Units
import StackCode.Proofs.Log.Basic

/-!
# Where units come from

Each unit of an object file is built by one run of the compiler on a new unit, from the body of a
function or of the top level. An object file that cannot be compiled fails with the error of such a
run.

A source is the body of a unit together with what the unit says of itself, its scope and its line.
Where only the code matters, `Body` is enough, and the units are looked at through layouts. Here
they are looked at through runs, for statements about what happens on the way.

An object file is collected unit by unit, and the first failure ends it. So a script fails with the
error of the first source that cannot be built, and nothing is said about those behind it.
-/

set_option autoImplicit false

namespace StackCode

/-- What a unit is compiled from, with its scope and the line that it starts on. -/
structure UnitSource where
  body : Body
  scope : Scope
  line : UInt32

/-- The sources of the units of a script: its functions, then the top level. -/
def Program.sources (p : Program) : List UnitSource :=
  (p.functions.map fun f => ⟨⟨false, f.body⟩, f.scope, f.line⟩) ++
    [⟨⟨true, p.body⟩, p.scope, p.line⟩]

namespace UnitSource

/-- The unit before anything is compiled. -/
def fresh (source : UnitSource) (filename : String) : OpenUnit :=
  { asm := { scope := source.scope, filename, line := source.line } }

/-- The step that compiles the body. -/
def step (source : UnitSource) (fold : Bool) : Gen Unit :=
  Gen.statements { toplevel := source.body.toplevel, fold } source.body.statements

def build (source : UnitSource) (filename : String) (fold : Bool) : Except Error CodeUnit :=
  (source.fresh filename).build (source.step fold)

/-- The draft of the unit before anything is compiled. -/
def draft (source : UnitSource) (filename : String) : Draft :=
  .start source.scope filename source.line

theorem fresh_eq_unit (source : UnitSource) (filename : String) :
    source.fresh filename = (source.draft filename).unit {} :=
  rfl

/-- What the layout of the body says of the unit. -/
theorem isCodeOf_build (source : UnitSource) (filename : String) (fold : Bool) :
    (source.body.folded fold).layout.IsCodeOf (source.build filename fold) :=
  (Gen.compiles_body fold source.body).isCodeOf_build source.scope filename source.line

end UnitSource

/-- Only a unit that cannot be compiled keeps an object file from being collected. -/
theorem ObjectFile.collect_eq_error {filename : String} {results : List UnitResult}
    {file : ObjectFile} {e : CompileError} (h : collect filename file results = .error e) :
    ∃ r ∈ results, r.result = .error e.cause := by
  induction results generalizing file with
  | nil => cases h
  | cons r results ih =>
    obtain ⟨origin, line, result⟩ := r
    cases result with
    | error cause =>
      cases h
      exact ⟨_, List.mem_cons_self, rfl⟩
    | ok unit =>
      obtain ⟨r, hr, herror⟩ := ih h
      exact ⟨r, List.mem_cons_of_mem _ hr, herror⟩

namespace Program

variable {p : Program} {fold : Bool}

/-- The results of a script are those of its sources, in order. -/
theorem result_unitResults (p : Program) (fold : Bool) :
    (p.unitResults fold).map UnitResult.result = p.sources.map fun source =>
      source.build p.filename fold := by
  unfold unitResults sources
  rw [List.map_append, List.map_append, List.map_map, List.map_map]
  rfl

/-- A unit of an object file is built from the source at its index. -/
theorem source_of_unit {file : ObjectFile} (h : p.compile fold = .ok file) {i : Nat}
    {unit : CodeUnit} (hunit : file.units[i]? = some unit) :
    ∃ source, p.sources[i]? = some source ∧ source.build p.filename fold = .ok unit := by
  obtain ⟨units, hunits, hresults⟩ := ObjectFile.collect_eq_ok h
  rw [result_unitResults] at hresults
  have hfile : file.units.toList = units := hunits
  have hget : (p.sources.map fun source => source.build p.filename fold)[i]? = some (.ok unit) := by
    rw [hresults, ← hfile, List.getElem?_map, Array.getElem?_toList, hunit]
    rfl
  rw [List.getElem?_map, Option.map_eq_some_iff] at hget
  exact hget

/-- A script that compiles has a unit for each of its sources. -/
theorem size_units {file : ObjectFile} (h : p.compile fold = .ok file) :
    file.units.size = p.sources.length := by
  obtain ⟨units, hunits, hresults⟩ := ObjectFile.collect_eq_ok h
  have hlength := congrArg List.length hresults
  rw [result_unitResults, List.length_map, List.length_map] at hlength
  have hfile : file.units.toList = units := hunits
  rw [← Array.length_toList, hfile, hlength]

/-- Every source of a script that compiles can be built. -/
theorem build_of_compile {file : ObjectFile} (h : p.compile fold = .ok file) {source : UnitSource}
    (hsource : source ∈ p.sources) : ∃ unit, source.build p.filename fold = .ok unit := by
  obtain ⟨units, _, hresults⟩ := ObjectFile.collect_eq_ok h
  rw [result_unitResults] at hresults
  exact CodeUnit.exists_of_map hresults.symm source hsource

/-- The error of a script is that of a source that cannot be built. -/
theorem source_of_error {e : CompileError} (h : p.compile fold = .error e) :
    ∃ source ∈ p.sources, source.build p.filename fold = .error e.cause := by
  obtain ⟨r, hr, herror⟩ := ObjectFile.collect_eq_error h
  have hmem : r.result ∈ (p.unitResults fold).map UnitResult.result := List.mem_map_of_mem hr
  rw [result_unitResults, List.mem_map, herror] at hmem
  exact hmem

end Program

end StackCode
