import StackCode.Proofs.DeepFold

/-!
# What the compiler sees of a variable

A variable has a name and a binding, and the compiler uses one of the two. The callee of a bare call
is looked up by its name, whatever its binding. Every other variable is read, written, declared,
incremented or constructed where its binding says, whatever its name.

A `Renaming` changes what is not used: the bindings of bare callees and the names of all other
variables. It is a change that the compiler does not see (`Renaming.unseen`), with folding as well
as without, since the folder looks at literals only. Two scripts that differ in nothing else become
the same script once all of it is forgotten, so they compile to the same object file or fail with
the same error.

The names that a function declares, its own and those of its scope, are no variables and stay: they
are part of what is compiled. Nor is anything said here of renamings of globals, whose names are
their bindings.

The two halves of the statement are not symmetric to a reader of scripts. That names do not matter
is expected, as names of parameters and locals have been resolved. That the binding of a bare callee
does not matter is not: a parameter that is called is looked up as a global of the same name. The
theorem is stated so that it shows both.
-/

set_option autoImplicit false

namespace StackCode

/-- A change of variables that the compiler does not see. -/
structure Renaming where
  /-- The change of a variable that is the callee of a call. -/
  onCallee : Variable → Variable
  /-- The change of any other variable. -/
  onReference : Variable → Variable
  name_onCallee : ∀ v, (onCallee v).name = v.name
  binding_onReference : ∀ v, (onReference v).binding = v.binding

namespace Renaming

/-- Forgets all that a renaming may change. -/
def forget : Renaming where
  onCallee v := { v with binding := .global "" }
  onReference v := { v with name := "" }
  name_onCallee _ := rfl
  binding_onReference _ := rfl

/-- The change that a renaming makes to a tree. -/
def change (r : Renaming) : Change where
  onCallee := r.onCallee
  onReference := r.onReference

end Renaming

/-- The script with its variables renamed. -/
def Program.rename (r : Renaming) (p : Program) : Program :=
  p.map r.change

/-! ## Folding

The folder looks through additions at number literals, and a renaming changes neither. -/

namespace Expr

variable (r : Renaming)

theorem map_rename_binary (op : BinaryOp) (left right : Expr) :
    (binary op left right).map r.change = .binary op (left.map r.change) (right.map r.change) :=
  rfl

/-- A literal is none the less one, and nothing else becomes one. -/
theorem number?_rename (e : Expr) : (e.map r.change).number? = e.number? := by
  cases e with
  | call callee arguments =>
    rw [map_call]
    rfl
  | _ => rfl

theorem rename_combine_add (left right : Expr) :
    (combine .add left right).map r.change =
      combine .add (left.map r.change) (right.map r.change) := by
  have hl := number?_rename r left
  have hr := number?_rename r right
  rcases number?_cases left right with ⟨a, b, ha, hb⟩ | hnone
  · rw [combine_add_of_number ha hb, combine_add_of_number (hl.trans ha) (hr.trans hb)]
    rfl
  · have hnone' : (left.map r.change).number? = none ∨ (right.map r.change).number? = none := by
      rwa [hl, hr]
    rw [combine_add_of_not_number hnone, combine_add_of_not_number hnone', map_rename_binary]

/-- Folding looks at literals only, so it makes no difference whether variables are renamed before
or after. -/
theorem fold_rename (e : Expr) : (e.map r.change).fold = e.fold.map r.change := by
  cases e with
  | binary op left right =>
    by_cases hop : op = .add
    · subst hop
      rw [map_rename_binary, fold_add, fold_add, rename_combine_add, fold_rename left,
        fold_rename right]
    · rw [fold_of_ne_add hop, map_rename_binary, fold_of_ne_add hop]
  | call callee arguments =>
    rw [map_call]
    exact (map_call r.change callee arguments).symm
  | _ => rfl
termination_by e.size
decreasing_by
  all_goals
    simp only [size]
    omega

end Expr

/-! ## Compiling -/

/-- **The compiler does not see a renaming**, whether it folds or not. -/
theorem Renaming.unseen (r : Renaming) (fold : Bool) : r.change.Unseen fold fold where
  number _ := rfl
  name_onCallee := r.name_onCallee
  binding_onReference := r.binding_onReference
  binary op left right ihl ihr := by
    show Gen.expression fold (.binary op (left.map r.change) (right.map r.change)) = _
    by_cases hop : op = .add
    · subst hop
      cases fold with
      | false =>
        rw [Gen.expression_add_false, Gen.expression_add_false, ihl left (Nat.le_refl _),
          ihr right (Nat.le_refl _)]
      | true =>
        have hl := Expr.number?_rename r left.fold
        have hr := Expr.number?_rename r right.fold
        rw [← Expr.fold_rename] at hl hr
        rcases Expr.number?_cases left.fold right.fold with ⟨a, b, ha, hb⟩ | hnone
        · rw [Gen.expression_add_of_number ha hb,
            Gen.expression_add_of_number (hl.trans ha) (hr.trans hb)]
        · have hnone' : (left.map r.change).fold.number? = none ∨
              (right.map r.change).fold.number? = none := by
            rwa [hl, hr]
          -- The compiler goes on with the folded operands, which are no larger than the ones at
          -- hand.
          rw [Gen.expression_add_of_not_number hnone, Gen.expression_add_of_not_number hnone',
            Expr.fold_rename, Expr.fold_rename,
            ihl left.fold left.fold_size_le,
            ihr right.fold right.fold_size_le]
    · rw [Gen.expression_binary hop, Gen.expression_binary hop, ihl left (Nat.le_refl _),
        ihr right (Nat.le_refl _)]

/-- **A script compiles to the same object file, or fails with the same error, whatever its
variables are renamed to.** -/
theorem Program.compile_rename (r : Renaming) (p : Program) (fold : Bool) :
    (p.rename r).compile fold = p.compile fold :=
  p.compile_map (r.unseen fold)

/-- **Names do not matter, except those of bare callees; bindings matter, except those of bare
callees.** Two scripts that are the same once the names of all variables but bare callees and the
bindings of bare callees are forgotten compile to the same object file or fail with the same
error. -/
theorem compile_eq_of_forget_eq {p q : Program} (h : p.rename .forget = q.rename .forget)
    (fold : Bool) :
    p.compile fold = q.compile fold := by
  rw [← p.compile_rename .forget, h, q.compile_rename]

/-- `function g(v) { var w = new v(f(v + 1)); w++; }`, where `v` and `w` are written as other names
and `f` has another binding. -/
def Program.construct (v w : String) (callee : Binding) : Program where
  filename := "construct.js"
  body :=
    let argument := Expr.identifier ⟨v, .parameter 0⟩
    [.function "g" 1 { parameters := #["v"], locals := #["w"] }
      [.declaration .var [(⟨w, .localSlot 0⟩, some (.new argument
        [.call (.identifier ⟨"f", callee⟩) [.binary .add argument (.number (.ofNat 1))]]))],
        .expression (.update .increment false (.identifier ⟨w, .localSlot 0⟩))]]

theorem compile_eq_of_forget_eq_construct :
    ((Program.construct "v" "w" (.global "f")).compile true).isOk = true ∧
      (Program.construct "v" "w" (.global "f")).rename .forget =
        (Program.construct "this" "v" (.parameter 7)).rename .forget ∧
      (Program.construct "v" "w" (.global "f")).compile true =
        (Program.construct "this" "v" (.parameter 7)).compile true := by
  have hforget : (Program.construct "v" "w" (.global "f")).rename .forget =
      (Program.construct "this" "v" (.parameter 7)).rename .forget := rfl
  exact ⟨by decide +kernel, hforget, compile_eq_of_forget_eq hforget true⟩

end StackCode
