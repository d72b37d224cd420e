import StackCode.Proofs.Layout.Supported
import StackCode.Proofs.Log.Units

/-!
# Every declared function is a unit

A function can be declared anywhere in a tree: in the body of a `do`, in a case of a `switch`, in
the body of another function, in a function that is an argument of a call. `Program.declarations`
lists all of them. The compiler looks for functions in fewer places (`Program.functions`), and
compiles the top level as if the declarations in it were not there. Two traversals that differ could
lose a function.

None is lost, since whatever the search does not look into is refused. In a script that compiles the
two lists are the same (`Program.functions_eq_declarations`): a supported expression holds no
declaration, and a supported statement holds those that the search finds. With folding this is said
of the folded script, and the search finds no more declarations than there are, so that it is enough
to count.

## Two directions

The search of the compiler finds a part of all declarations, in their order
(`Stmt.functions_sublist`); this holds of every script. That it finds all of them holds of scripts
that compile, and here the argument is not about the search but about what is refused: a `do`, a
`switch`, a function in an expression and a function in a function are all refused, so there is
nothing in them to be missed.

The statement for folding is obtained from the one without. Folding merges literals, so it keeps all
declarations; what it changes are their bodies, and those are compared unit by unit.

The order of declarations is that of the source, where an enclosing function comes before those
inside of it. In a script that compiles there is no function inside of a function, so this choice
does not show.
-/

set_option autoImplicit false

namespace StackCode

/-! ## All declarations

The traversal goes below every node that has parts, also those that the compiler refuses. It says
what is meant by a declared function, so it must not be taken from the compiler. -/

mutual

/-- The functions declared anywhere in an expression, in source order. -/
def Expr.declarations : Expr → List FunctionDecl
  | .number _ | .string _ | .regExp _ _ | .null | .boolean _ | .this | .identifier _ => []
  | .array elements => Expr.declarationsOfElements elements
  | .object properties => Expr.declarationsOfProperties properties
  | .binary _ left right => left.declarations ++ right.declarations
  | .unary _ argument => argument.declarations
  | .update _ _ argument => argument.declarations
  | .assign _ target value => target.declarations ++ value.declarations
  | .call callee arguments => callee.declarations ++ Expr.declarationsOfList arguments
  | .new callee arguments => callee.declarations ++ Expr.declarationsOfList arguments
  | .member object _ => object.declarations
  | .index object key => object.declarations ++ key.declarations
  | .conditional test consequent alternate =>
    test.declarations ++ consequent.declarations ++ alternate.declarations
  | .comma left right => left.declarations ++ right.declarations
  | .function _ _ body => Stmt.declarationsOfList body

def Expr.declarationsOfOption : Option Expr → List FunctionDecl
  | none => []
  | some e => e.declarations

def Expr.declarationsOfList : List Expr → List FunctionDecl
  | [] => []
  | e :: es => e.declarations ++ Expr.declarationsOfList es

def Expr.declarationsOfElements : List (Option Expr) → List FunctionDecl
  | [] => []
  | e :: es => Expr.declarationsOfOption e ++ Expr.declarationsOfElements es

def Expr.declarationsOfProperty : String × Expr → List FunctionDecl
  | (_, e) => e.declarations

def Expr.declarationsOfProperties : List (String × Expr) → List FunctionDecl
  | [] => []
  | p :: ps => Expr.declarationsOfProperty p ++ Expr.declarationsOfProperties ps

/-- The functions declared anywhere in a statement, in source order: a function stands before those
in its body. -/
def Stmt.declarations : Stmt → List FunctionDecl
  | .empty | .breakLoop | .continueLoop => []
  | .block body => Stmt.declarationsOfList body
  | .expression value => value.declarations
  | .declaration _ declarators => Stmt.declarationsOfDeclarators declarators
  | .function name line scope body => { name, line, scope, body } :: Stmt.declarationsOfList body
  | .branch test consequent alternate =>
    test.declarations ++ consequent.declarations ++ Stmt.declarationsOfOption alternate
  | .whileLoop test body => test.declarations ++ body.declarations
  | .doWhile body test => body.declarations ++ test.declarations
  | .forLoop init test update body =>
    Stmt.declarationsOfOption init ++ Expr.declarationsOfOption test ++
      Expr.declarationsOfOption update ++
      body.declarations
  | .forIn _ right body => right.declarations ++ body.declarations
  | .giveBack argument => Expr.declarationsOfOption argument
  | .switch discriminant cases => discriminant.declarations ++ Stmt.declarationsOfCases cases
  | .tryCatch block handler finalizer =>
    Stmt.declarationsOfList block ++ Stmt.declarationsOfBlock handler ++
      Stmt.declarationsOfBlock finalizer
  | .throw argument => argument.declarations
  | .within object body => object.declarations ++ body.declarations
  | .labeled _ body => body.declarations

def Stmt.declarationsOfOption : Option Stmt → List FunctionDecl
  | none => []
  | some s => s.declarations

def Stmt.declarationsOfList : List Stmt → List FunctionDecl
  | [] => []
  | s :: ss => s.declarations ++ Stmt.declarationsOfList ss

def Stmt.declarationsOfBlock : Option (List Stmt) → List FunctionDecl
  | none => []
  | some ss => Stmt.declarationsOfList ss

def Stmt.declarationsOfDeclarator : Variable × Option Expr → List FunctionDecl
  | (_, init) => Expr.declarationsOfOption init

def Stmt.declarationsOfDeclarators : List (Variable × Option Expr) → List FunctionDecl
  | [] => []
  | d :: ds => Stmt.declarationsOfDeclarator d ++ Stmt.declarationsOfDeclarators ds

def Stmt.declarationsOfCase : Option Expr × List Stmt → List FunctionDecl
  | (test, body) => Expr.declarationsOfOption test ++ Stmt.declarationsOfList body

def Stmt.declarationsOfCases : List (Option Expr × List Stmt) → List FunctionDecl
  | [] => []
  | c :: cs => Stmt.declarationsOfCase c ++ Stmt.declarationsOfCases cs

end

/-- The functions declared anywhere in a script, in source order. -/
def Program.declarations (p : Program) : List FunctionDecl :=
  Stmt.declarationsOfList p.body

/-! ## What the search finds is declared -/

namespace Stmt

mutual

/-- What the search finds is declared, and is found in the order of declaration. -/
theorem functions_sublist (s : Stmt) : s.functions.Sublist s.declarations := by
  cases s with
  | function name line scope body => exact (List.nil_sublist _).cons_cons _
  | block body => exact functionsOfList_sublist body
  | branch test consequent alternate =>
    rw [functions, declarations, List.append_assoc]
    exact ((functions_sublist consequent).append (functionsOfOption_sublist alternate)).trans
      (List.sublist_append_right _ _)
  | whileLoop test body =>
    rw [functions, declarations]
    exact (functions_sublist body).trans (List.sublist_append_right _ _)
  | forLoop init test update body =>
    rw [functions, declarations]
    exact (functions_sublist body).trans (List.sublist_append_right _ _)
  | _ => exact List.nil_sublist _

theorem functionsOfOption_sublist (s : Option Stmt) :
    (functionsOfOption s).Sublist (declarationsOfOption s) := by
  cases s with
  | none => exact List.nil_sublist _
  | some s => exact functions_sublist s

theorem functionsOfList_sublist (ss : List Stmt) :
    (functionsOfList ss).Sublist (declarationsOfList ss) := by
  cases ss with
  | nil => exact List.nil_sublist _
  | cons s ss =>
    rw [functionsOfList, declarationsOfList]
    exact (functions_sublist s).append (functionsOfList_sublist ss)

end

end Stmt

/-! ## Folding keeps declarations

One lemma for each kind of node that has a traversal of its own. Only at a binary operation is there
something to say, since a sum may be replaced by a literal; its operands are literals then and
declare nothing. -/

/-- Two operands declare what they declare, whether or not they are merged. -/
theorem Expr.declarations_combine (op : BinaryOp) (left right : Expr) :
    (combine op left right).declarations = left.declarations ++ right.declarations := by
  unfold combine
  split
  · rfl
  · rw [declarations]

section

attribute [local simp] Expr.map Expr.map_deepFold_call Expr.declarations
  Expr.declarations_combine Stmt.map Stmt.declarations

mutual

/-- **Folding an expression** folds the functions that are declared in it. -/
theorem Expr.declarations_deepFold (e : Expr) :
    (e.map .deepFold).declarations = e.declarations.map (FunctionDecl.map .deepFold) := by
  cases e with
  | array elements => exact Expr.declarationsOfElements_deepFold elements
  | object properties => exact Expr.declarationsOfProperties_deepFold properties
  | binary op left right => simp [left.declarations_deepFold, right.declarations_deepFold]
  | unary op argument => exact argument.declarations_deepFold
  | update op before argument => exact argument.declarations_deepFold
  | assign op target value => simp [target.declarations_deepFold, value.declarations_deepFold]
  | call callee arguments =>
    simp [callee.declarations_deepFold, Expr.declarationsOfList_deepFold arguments]
  | new callee arguments =>
    simp [callee.declarations_deepFold, Expr.declarationsOfList_deepFold arguments]
  | member object property => exact object.declarations_deepFold
  | index object key => simp [object.declarations_deepFold, key.declarations_deepFold]
  | conditional test consequent alternate =>
    simp [test.declarations_deepFold, consequent.declarations_deepFold,
      alternate.declarations_deepFold]
  | comma left right => simp [left.declarations_deepFold, right.declarations_deepFold]
  | function name scope body => exact Stmt.declarationsOfList_deepFold body
  | _ => rfl

theorem Expr.declarationsOfOption_deepFold (e : Option Expr) :
    Expr.declarationsOfOption (Expr.mapOption .deepFold e) =
      (Expr.declarationsOfOption e).map (FunctionDecl.map .deepFold) := by
  cases e with
  | none => rfl
  | some e => exact e.declarations_deepFold

theorem Expr.declarationsOfList_deepFold (es : List Expr) :
    Expr.declarationsOfList (Expr.mapList .deepFold es) =
      (Expr.declarationsOfList es).map (FunctionDecl.map .deepFold) := by
  cases es with
  | nil => rfl
  | cons e es =>
    simp [Expr.mapList, Expr.declarationsOfList, e.declarations_deepFold,
      Expr.declarationsOfList_deepFold es]

theorem Expr.declarationsOfElements_deepFold (items : List (Option Expr)) :
    Expr.declarationsOfElements (Expr.mapElements .deepFold items) =
      (Expr.declarationsOfElements items).map (FunctionDecl.map .deepFold) := by
  cases items with
  | nil => rfl
  | cons item items =>
    simp [Expr.mapElements, Expr.declarationsOfElements, Expr.declarationsOfOption_deepFold item,
      Expr.declarationsOfElements_deepFold items]

theorem Expr.declarationsOfProperty_deepFold (p : String × Expr) :
    Expr.declarationsOfProperty (Expr.mapProperty .deepFold p) =
      (Expr.declarationsOfProperty p).map (FunctionDecl.map .deepFold) := by
  obtain ⟨name, e⟩ := p
  exact e.declarations_deepFold

theorem Expr.declarationsOfProperties_deepFold (ps : List (String × Expr)) :
    Expr.declarationsOfProperties (Expr.mapProperties .deepFold ps) =
      (Expr.declarationsOfProperties ps).map (FunctionDecl.map .deepFold) := by
  cases ps with
  | nil => rfl
  | cons p ps =>
    simp [Expr.mapProperties, Expr.declarationsOfProperties, Expr.declarationsOfProperty_deepFold p,
      Expr.declarationsOfProperties_deepFold ps]

/-- **Folding a statement** folds the functions that are declared in it. -/
theorem Stmt.declarations_deepFold (s : Stmt) :
    (s.map .deepFold).declarations = s.declarations.map (FunctionDecl.map .deepFold) := by
  cases s with
  | block body => exact Stmt.declarationsOfList_deepFold body
  | expression value => exact value.declarations_deepFold
  | declaration kind ds => exact Stmt.declarationsOfDeclarators_deepFold ds
  | function name line scope body =>
    simp [FunctionDecl.map, Stmt.declarationsOfList_deepFold body]
  | branch test consequent alternate =>
    simp [test.declarations_deepFold, consequent.declarations_deepFold,
      Stmt.declarationsOfOption_deepFold alternate]
  | whileLoop test body => simp [test.declarations_deepFold, body.declarations_deepFold]
  | doWhile body test => simp [test.declarations_deepFold, body.declarations_deepFold]
  | forLoop init test update body =>
    simp [Stmt.declarationsOfOption_deepFold init, Expr.declarationsOfOption_deepFold test,
      Expr.declarationsOfOption_deepFold update, body.declarations_deepFold]
  | forIn left right body => simp [right.declarations_deepFold, body.declarations_deepFold]
  | giveBack argument => exact Expr.declarationsOfOption_deepFold argument
  | switch discriminant cases =>
    simp [discriminant.declarations_deepFold, Stmt.declarationsOfCases_deepFold cases]
  | tryCatch block handler finalizer =>
    simp [Stmt.declarationsOfList_deepFold block, Stmt.declarationsOfBlock_deepFold handler,
      Stmt.declarationsOfBlock_deepFold finalizer]
  | throw argument => exact argument.declarations_deepFold
  | within object body => simp [object.declarations_deepFold, body.declarations_deepFold]
  | labeled label body => exact body.declarations_deepFold
  | _ => rfl

theorem Stmt.declarationsOfOption_deepFold (s : Option Stmt) :
    Stmt.declarationsOfOption (Stmt.mapOption .deepFold s) =
      (Stmt.declarationsOfOption s).map (FunctionDecl.map .deepFold) := by
  cases s with
  | none => rfl
  | some s => exact s.declarations_deepFold

theorem Stmt.declarationsOfList_deepFold (ss : List Stmt) :
    Stmt.declarationsOfList (Stmt.mapList .deepFold ss) =
      (Stmt.declarationsOfList ss).map (FunctionDecl.map .deepFold) := by
  cases ss with
  | nil => rfl
  | cons s ss =>
    simp [Stmt.mapList, Stmt.declarationsOfList, s.declarations_deepFold,
      Stmt.declarationsOfList_deepFold ss]

theorem Stmt.declarationsOfBlock_deepFold (ss : Option (List Stmt)) :
    Stmt.declarationsOfBlock (Stmt.mapBlock .deepFold ss) =
      (Stmt.declarationsOfBlock ss).map (FunctionDecl.map .deepFold) := by
  cases ss with
  | none => rfl
  | some ss => exact Stmt.declarationsOfList_deepFold ss

theorem Stmt.declarationsOfDeclarator_deepFold (d : Variable × Option Expr) :
    Stmt.declarationsOfDeclarator (Stmt.mapDeclarator .deepFold d) =
      (Stmt.declarationsOfDeclarator d).map (FunctionDecl.map .deepFold) := by
  obtain ⟨v, init⟩ := d
  exact Expr.declarationsOfOption_deepFold init

theorem Stmt.declarationsOfDeclarators_deepFold (ds : List (Variable × Option Expr)) :
    Stmt.declarationsOfDeclarators (Stmt.mapDeclarators .deepFold ds) =
      (Stmt.declarationsOfDeclarators ds).map (FunctionDecl.map .deepFold) := by
  cases ds with
  | nil => rfl
  | cons d ds =>
    simp [Stmt.mapDeclarators, Stmt.declarationsOfDeclarators,
      Stmt.declarationsOfDeclarator_deepFold d, Stmt.declarationsOfDeclarators_deepFold ds]

theorem Stmt.declarationsOfCase_deepFold (c : Option Expr × List Stmt) :
    Stmt.declarationsOfCase (Stmt.mapCase .deepFold c) =
      (Stmt.declarationsOfCase c).map (FunctionDecl.map .deepFold) := by
  obtain ⟨test, body⟩ := c
  simp [Stmt.mapCase, Stmt.declarationsOfCase, Expr.declarationsOfOption_deepFold test,
    Stmt.declarationsOfList_deepFold body]

theorem Stmt.declarationsOfCases_deepFold (cs : List (Option Expr × List Stmt)) :
    Stmt.declarationsOfCases (Stmt.mapCases .deepFold cs) =
      (Stmt.declarationsOfCases cs).map (FunctionDecl.map .deepFold) := by
  cases cs with
  | nil => rfl
  | cons c cs =>
    simp [Stmt.mapCases, Stmt.declarationsOfCases, Stmt.declarationsOfCase_deepFold c,
      Stmt.declarationsOfCases_deepFold cs]

end

end

/-! ## A supported tree holds no other declarations

By induction on the grammar of what is compiled, where the forms that would hide a declaration do
not occur. -/

namespace Expr

theorem declarationsOfList_eq_nil {es : List Expr} (h : ∀ e ∈ es, e.declarations = []) :
    declarationsOfList es = [] := by
  induction es with
  | nil => rfl
  | cons e es ih =>
    rw [List.forall_mem_cons] at h
    rw [declarationsOfList, h.1, ih h.2]
    rfl

theorem declarationsOfElements_map_some (es : List Expr) :
    declarationsOfElements (es.map some) = declarationsOfList es := by
  induction es with
  | nil => rfl
  | cons e es ih => exact congrArg (e.declarations ++ ·) ih

/-- Functions are declared by statements, and an expression with statements in it is not
supported. -/
theorem Supported.declarations_eq_nil {e : Expr} (h : e.Supported) : e.declarations = [] := by
  induction h with
  | array hlength hindex h ih =>
    rw [declarations, declarationsOfElements_map_some]
    exact declarationsOfList_eq_nil ih
  | callName v hcount h ih => simp [declarations, declarationsOfList_eq_nil ih]
  | callMember property hcount ho h iho ih => simp [declarations, iho, declarationsOfList_eq_nil ih]
  | callIndex hcount ho hk h iho ihk ih =>
    simp [declarations, iho, ihk, declarationsOfList_eq_nil ih]
  | new v hcount h ih => simp [declarations, declarationsOfList_eq_nil ih]
  | _ => simp_all [declarations]

theorem declarationsOfOption_eq_nil {e : Option Expr} (h : ∀ a, e = some a → a.Supported) :
    declarationsOfOption e = [] := by
  cases e with
  | none => rfl
  | some e => exact (h e rfl).declarations_eq_nil

end Expr

namespace Stmt

theorem SupportedDeclarators.declarations_eq_nil {ds : List (Variable × Option Expr)}
    (h : SupportedDeclarators ds) : declarationsOfDeclarators ds = [] := by
  induction ds with
  | nil => rfl
  | cons d ds ih =>
    obtain ⟨v, init⟩ := d
    have hinit : Expr.declarationsOfOption init = [] := by
      apply Expr.declarationsOfOption_eq_nil
      rintro e rfl
      exact h v e List.mem_cons_self
    have hrest := ih fun v init hmem => h v init (List.mem_cons_of_mem _ hmem)
    rw [declarationsOfDeclarators, declarationsOfDeclarator, hinit, hrest]
    rfl

theorem SupportedInit.declarations_eq_nil {init : Option Stmt} (h : SupportedInit init) :
    declarationsOfOption init = [] := by
  cases h with
  | none => rfl
  | empty => rfl
  | declaration h => exact h.declarations_eq_nil
  | expression h => exact h.declarations_eq_nil

/-- The traversal of a list of statements is that of each of them. -/
theorem declarationsOfList_eq_flatMap (ss : List Stmt) :
    declarationsOfList ss = ss.flatMap declarations := by
  induction ss with
  | nil => rfl
  | cons s ss ih => rw [declarationsOfList, List.flatMap_cons, ih]

theorem functionsOfList_eq_flatMap (ss : List Stmt) :
    functionsOfList ss = ss.flatMap functions := by
  induction ss with
  | nil => rfl
  | cons s ss ih => rw [functionsOfList, List.flatMap_cons, ih]

/-- The search finds every declaration in a list of statements if it does so in each of them. -/
theorem declarationsOfList_eq_functions {ss : List Stmt}
    (h : ∀ s ∈ ss, (∀ f ∈ s.functions, declarationsOfList f.body = []) →
      s.declarations = s.functions)
    (hbodies : ∀ f ∈ functionsOfList ss, declarationsOfList f.body = []) :
    declarationsOfList ss = functionsOfList ss := by
  rw [functionsOfList_eq_flatMap] at hbodies ⊢
  rw [declarationsOfList_eq_flatMap, List.flatMap_def, List.flatMap_def]
  apply congrArg List.flatten
  apply List.map_congr_left
  intro s hs
  apply h s hs
  intro f hf
  exact hbodies f (List.mem_flatMap.mpr ⟨s, hs, hf⟩)

/-- **The search finds every declaration in a supported statement**, if there are none in the
functions that it finds. -/
theorem Supported.declarations_eq {toplevel inLoop : Bool} {s : Stmt}
    (h : s.Supported toplevel inLoop)
    (hbodies : ∀ f ∈ s.functions, declarationsOfList f.body = []) :
    s.declarations = s.functions := by
  induction h with
  | empty => rfl
  | block h ih => exact declarationsOfList_eq_functions ih hbodies
  | expression h => exact h.declarations_eq_nil
  | declaration h => exact h.declarations_eq_nil
  | function htop name line scope body =>
    -- The one place where something is declared. Its body is no part of the unit, and declares
    -- nothing by assumption.
    have hbody := hbodies _ List.mem_cons_self
    rw [declarations, hbody]
    rfl
  | @branch inLoop test consequent alternate ht hc ha ihc iha =>
    rw [functions, List.forall_mem_append] at hbodies
    rw [declarations, functions, ht.declarations_eq_nil, ihc hbodies.1]
    cases alternate with
    | none => rfl
    | some s =>
      rw [declarationsOfOption, functionsOfOption, iha s rfl hbodies.2]
      rfl
  | whileLoop ht h ih =>
    rw [declarations, ht.declarations_eq_nil]
    exact ih hbodies
  | forLoop hi ht hu h ih =>
    rw [declarations, hi.declarations_eq_nil, Expr.declarationsOfOption_eq_nil ht,
      Expr.declarationsOfOption_eq_nil hu]
    exact ih hbodies
  | breakLoop => rfl
  | continueLoop => rfl
  | giveBack h => exact Expr.declarationsOfOption_eq_nil h

/-- A function declares no function. -/
theorem Supported.functions_eq_nil {inLoop : Bool} {s : Stmt} (h : s.Supported false inLoop) :
    s.functions = [] := by
  induction h with
  | block h ih =>
    rw [functions, functionsOfList_eq_flatMap]
    exact List.flatMap_eq_nil_iff.mpr ih
  | function htop => cases htop
  | @branch inLoop test consequent alternate ht hc ha ihc iha =>
    rw [functions, ihc]
    cases alternate with
    | none => rfl
    | some s => exact iha s rfl
  | whileLoop ht h ih => exact ih
  | forLoop hi ht hu h ih => exact ih
  | _ => rfl

end Stmt

/-! ## Scripts that compile -/

/-- A function that compiles without folding declares no function. -/
theorem FunctionDecl.declarations_eq_nil {f : FunctionDecl} {filename : String} {unit : CodeUnit}
    (h : f.compile filename false = .ok unit) : Stmt.declarationsOfList f.body = [] := by
  have hcode := f.isCodeOf_compile filename false
  rw [h] at hcode
  have hsupported := Stmt.supported_of_list f.body hcode.of_ok.1
  have hfunctions : Stmt.functionsOfList f.body = [] := by
    rw [Stmt.functionsOfList_eq_flatMap, List.flatMap_eq_nil_iff]
    intro s hs
    exact (hsupported s hs).functions_eq_nil
  rw [Stmt.declarationsOfList_eq_functions fun s hs => (hsupported s hs).declarations_eq]
  · exact hfunctions
  · rw [hfunctions]
    exact nofun

namespace Program

variable {p : Program} {fold : Bool}

/-- Without folding. The bodies of functions have to compile too, since a declaration may be inside
of one. -/
theorem functions_eq_declarations_of_false
    (hfunctions : ∀ f ∈ p.functions, ∃ unit, f.compile p.filename false = .ok unit)
    (htoplevel : ∃ unit, p.compileToplevel false = .ok unit) : p.functions = p.declarations := by
  obtain ⟨unit, hunit⟩ := htoplevel
  have hcode := p.isCodeOf_compileToplevel false
  rw [hunit] at hcode
  have hsupported := Stmt.supported_of_list p.body hcode.of_ok.1
  symm
  apply Stmt.declarationsOfList_eq_functions
  · intro s hs
    exact (hsupported s hs).declarations_eq
  · intro f hf
    obtain ⟨unit, hunit⟩ := hfunctions f hf
    exact FunctionDecl.declarations_eq_nil hunit

/-- **In a script whose units compile, the functions that have a unit are all functions that are
declared.** -/
theorem functions_eq_declarations
    (hfunctions : ∀ f ∈ p.functions, ∃ unit, f.compile p.filename fold = .ok unit)
    (htoplevel : ∃ unit, p.compileToplevel fold = .ok unit) : p.functions = p.declarations := by
  cases fold with
  | false => exact functions_eq_declarations_of_false hfunctions htoplevel
  | true =>
    have hfold : (p.map .deepFold).functions = p.functions.map (FunctionDecl.map .deepFold) :=
      p.functions_map .deepFold
    have hfolded : (p.map .deepFold).functions = (p.map .deepFold).declarations := by
      apply functions_eq_declarations_of_false
      · rw [hfold, List.forall_mem_map]
        intro f hf
        rw [f.compile_map Change.unseen_deepFold]
        exact hfunctions f hf
      · rwa [p.compileToplevel_map Change.unseen_deepFold]
    -- Folding keeps both counts, and the functions are among the declarations.
    apply (Stmt.functionsOfList_sublist p.body).eq_of_length
    have hlength := congrArg List.length hfolded
    rw [hfold, declarations, map, Stmt.declarationsOfList_deepFold, List.length_map,
      List.length_map] at hlength
    exact hlength

end Program

/-! ## Collecting units

Units are collected one after the other, and the first that fails ends the collection with its
error. The lemmas say so in both directions, since the main statement is an equivalence. -/

namespace ObjectFile

variable {filename : String} {results : List UnitResult}

/-- Units that are all there are collected behind those that were. -/
theorem collect_of_units {units : List CodeUnit} {file file' : ObjectFile}
    (hresults : results.map UnitResult.result = units.map .ok)
    (hunits : file'.units.toList = file.units.toList ++ units) :
    collect filename file results = .ok file' := by
  induction results generalizing units file with
  | nil =>
    cases units with
    | nil =>
      rw [List.append_nil, Array.toList_inj] at hunits
      cases file
      cases file'
      cases hunits
      rfl
    | cons unit units => cases hresults
  | cons r results ih =>
    cases units with
    | nil => cases hresults
    | cons unit units =>
      obtain ⟨origin, line, result⟩ := r
      rw [List.map_cons, List.map_cons, List.cons.injEq] at hresults
      obtain ⟨rfl, hrest⟩ := hresults
      apply ih hrest
      rw [hunits, push, Array.toList_push, List.append_assoc]
      rfl

/-- An object file is collected exactly if every unit compiles, and it holds the units in order. -/
theorem collect_eq_ok_iff {file : ObjectFile} :
    collect filename {} results = .ok file ↔
      file.units.toList.map .ok = results.map UnitResult.result := by
  constructor
  · intro h
    obtain ⟨units, hunits, hresults⟩ := collect_eq_ok h
    rw [hresults, hunits]
    rfl
  · intro h
    exact collect_of_units h.symm rfl

/-- The functions and the top level are the units. -/
theorem units_eq_append_iff {file : ObjectFile} {results : List (Except Error CodeUnit)}
    {last : Except Error CodeUnit} :
    file.units.toList.map .ok = results ++ [last] ↔
      file.functions.toList.map .ok = results ∧ file.toplevel?.map .ok = some last := by
  unfold functions toplevel?
  rw [Array.toList_pop, ← Array.getLast?_toList, List.map_dropLast, ← List.getLast?_map]
  constructor
  · intro h
    rw [h]
    exact ⟨List.dropLast_concat, List.getLast?_concat⟩
  · rintro ⟨rfl, hlast⟩
    obtain ⟨front, hfront⟩ := List.getLast?_eq_some_iff.mp hlast
    rw [hfront, List.dropLast_concat]

/-- The error of an object file is that of the first function that does not compile, or of the top
level if all of them do. -/
theorem collect_eq_error_iff {compile : FunctionDecl → Except Error CodeUnit} {line : UInt32}
    {toplevel : Except Error CodeUnit} {e : CompileError} (fs : List FunctionDecl)
    (file : ObjectFile) :
    collect filename file (fs.map (fun f => ⟨.function f.name, f.line, compile f⟩) ++
        [⟨.toplevel, line, toplevel⟩]) = .error e ↔
      (∃ before f after, fs = before ++ f :: after ∧ (∀ g ∈ before, ∃ unit, compile g = .ok unit) ∧
        compile f = .error e.cause ∧
        e = { unit := f.name, filename, line := f.line, cause := e.cause }) ∨
      (∀ f ∈ fs, ∃ unit, compile f = .ok unit) ∧ toplevel = .error e.cause ∧
        e = { unit := "<toplevel>", filename, line, cause := e.cause } := by
  -- The induction is on the functions. Those that compile are passed over, and the top level comes
  -- when there are no more.
  induction fs generalizing file with
  | nil =>
    cases toplevel with
    | ok unit => simp [collect]
    | error cause =>
      simp only [List.map_nil, List.nil_append, collect]
      constructor
      · intro h
        cases h
        exact Or.inr ⟨List.forall_mem_nil _, rfl, rfl⟩
      · rintro (⟨before, f, after, hsplit, _⟩ | ⟨_, hcause, he⟩)
        · cases before <;> cases hsplit
        · cases hcause
          rw [he]
          rfl
  | cons f fs ih =>
    rw [List.map_cons, List.cons_append]
    cases hf : compile f with
    | error cause =>
      -- The first function that fails: no function in front of it can be the one that failed, and
      -- the top level is not reached.
      simp only [collect]
      constructor
      · intro h
        cases h
        exact Or.inl ⟨[], f, fs, rfl, List.forall_mem_nil _, hf, rfl⟩
      · rintro (⟨before, g, after, hsplit, hbefore, hg, he⟩ | ⟨hall, _⟩)
        · cases before with
          | nil =>
            cases hsplit
            cases hf.symm.trans hg
            rw [he]
            rfl
          | cons g' before =>
            cases hsplit
            obtain ⟨unit, hunit⟩ := hbefore f List.mem_cons_self
            cases hf.symm.trans hunit
        · obtain ⟨unit, hunit⟩ := hall f List.mem_cons_self
          cases hf.symm.trans hunit
    | ok unit =>
      -- A function that compiles: whichever fails, it is not this one, so it joins those in front.
      simp only [collect]
      rw [ih]
      constructor
      · rintro (⟨before, g, after, rfl, hbefore, hg, he⟩ | ⟨hall, htoplevel, he⟩)
        · exact Or.inl ⟨f :: before, g, after, rfl,
            List.forall_mem_cons.mpr ⟨⟨unit, hf⟩, hbefore⟩, hg, he⟩
        · exact Or.inr ⟨List.forall_mem_cons.mpr ⟨⟨unit, hf⟩, hall⟩, htoplevel, he⟩
      · rintro (⟨before, g, after, hsplit, hbefore, hg, he⟩ | ⟨hall, htoplevel, he⟩)
        · cases before with
          | nil =>
            cases hsplit
            cases hf.symm.trans hg
          | cons g' before =>
            cases hsplit
            exact Or.inl ⟨before, g, after, rfl, (List.forall_mem_cons.mp hbefore).2, hg, he⟩
        · exact Or.inr ⟨(List.forall_mem_cons.mp hall).2, htoplevel, he⟩

end ObjectFile

/-- **Every declared function is a unit.** A script compiles to an object file exactly if the
functions of the file are what the functions declared anywhere in the script compile to, one by one
and in order, and its top level is what the top level of the script compiles to. A script fails with
an error exactly if it is the error of the first function that does not compile, reported with the
name and the line of the function; or, if all of them compile, that of the top level. -/
theorem compile_eq_declarations (p : Program) (fold : Bool) :
    (∀ file, p.compile fold = .ok file ↔
      file.functions.toList.map .ok = p.declarations.map (fun f => f.compile p.filename fold) ∧
      file.toplevel?.map .ok = some (p.compileToplevel fold)) ∧
    ∀ e, p.compile fold = .error e ↔
      (∃ before f after, p.functions = before ++ f :: after ∧
        (∀ g ∈ before, ∃ unit, g.compile p.filename fold = .ok unit) ∧
        f.compile p.filename fold = .error e.cause ∧
        e = { unit := f.name, filename := p.filename, line := f.line, cause := e.cause }) ∨
      (∀ f ∈ p.functions, ∃ unit, f.compile p.filename fold = .ok unit) ∧
        p.compileToplevel fold = .error e.cause ∧
        e = { unit := "<toplevel>", filename := p.filename, line := p.line, cause := e.cause } := by
  constructor
  · intro file
    unfold Program.compile
    rw [ObjectFile.collect_eq_ok_iff, p.result_unitResults, Program.sources, List.map_append,
      List.map_map, List.map_singleton, ObjectFile.units_eq_append_iff]
    -- A source is built as the declaration that it comes from is compiled.
    change file.functions.toList.map .ok = p.functions.map (fun f => f.compile p.filename fold) ∧
      file.toplevel?.map .ok = some (p.compileToplevel fold) ↔ _
    have htoplevel : file.toplevel?.map .ok = some (p.compileToplevel fold) →
        ∃ unit, p.compileToplevel fold = .ok unit := by
      intro h
      obtain ⟨unit, _, hunit⟩ := Option.map_eq_some_iff.mp h
      exact ⟨unit, hunit.symm⟩
    constructor
    · rintro ⟨hfunctions, hlast⟩
      have hcompile := CodeUnit.exists_of_map hfunctions
      rw [← Program.functions_eq_declarations hcompile (htoplevel hlast)]
      exact ⟨hfunctions, hlast⟩
    · rintro ⟨hdeclarations, hlast⟩
      have hcompile := CodeUnit.exists_of_map hdeclarations
      have hsublist : p.functions.Sublist p.declarations := Stmt.functionsOfList_sublist p.body
      rw [Program.functions_eq_declarations (fun f hf => hcompile f (hsublist.mem hf))
        (htoplevel hlast)]
      exact ⟨hdeclarations, hlast⟩
  · intro e
    exact ObjectFile.collect_eq_error_iff p.functions {}

/-- `while (a) { function f() {} }` declares a function that the search finds, and
`do { function f() {} } while (a);`, which is refused, one that it does not. -/
example :
    let declare : Stmt := .block [.function "f" 1 {} []]
    let a : Expr := .identifier ⟨"a", .global "a"⟩
    (Stmt.whileLoop a declare).functions.length = 1 ∧
    (Stmt.whileLoop a declare).declarations.length = 1 ∧
      (Stmt.doWhile declare a).functions.length = 0 ∧
      (Stmt.doWhile declare a).declarations.length = 1 := by
  decide

end StackCode
