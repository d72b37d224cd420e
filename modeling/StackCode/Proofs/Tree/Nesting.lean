import StackCode.Proofs.Json.Depth
import StackCode.Proofs.Tree.Depth
import StackCode.Tree.Reader

/-!
# Trees that are read are not deep

A node is an array or an object of its own in the text, and a text opens at most 127 of these at
once. Two of them are around a statement of the program, so no chain of nodes has more than 125.

The bound is that of the text alone. Reading a node keeps its body as a JSON value of limited depth,
and a node that is decoded from a value is no deeper than the value (`NodeDecoders.shallow_within`):
the nodes in it are decoded from parts of the value. This holds of decoders that go to any depth.

The reader is told how deep it may go, and that limit is one on the text. So it has to be shown that
every node costs a level: a node is read from an object or an array of its own, and nothing in a
tree is made of anything else.

The decoders have a bound of their own, which they need in order to be defined by recursion. It is
not what limits the tree and is not used; the statement holds of decoders of any bound.
-/

set_option autoImplicit false

namespace StackCode

open Json (Decoder Reader Tagged)
open Json.Fields (makes_required makes_optional)
open TreeNode (EachWithin depthAtMost_succ)

/-- Nodes are no deeper than the values that they are decoded from. -/
structure NodeDecoders.Shallow (inner : NodeDecoders) : Prop where
  expr : ∀ {d : Nat} {e : Expr}, inner.expr.Gives d e → (TreeNode.expr e).DepthAtMost d
  stmt : ∀ {d : Nat} {s : Stmt}, inner.stmt.Gives d s → (TreeNode.stmt s).DepthAtMost d

section

variable {inner : NodeDecoders} {d : Nat}

/-! ## Parts of nodes

Some fields hold nodes inside of smaller records: the properties of an object, the declarators of a
declaration, the cases of a `switch`. Such a record costs a level as well, which is given away. -/

theorem depthAtMost_property (h : inner.Shallow) {property : String × Expr}
    (hgives : Decoder.Gives d (Decoder.record (Expr.property inner.expr)) property) :
    (TreeNode.expr property.2).DepthAtMost d := by
  refine (hgives.mono (Nat.le_succ d)).record
    (P := fun property => (TreeNode.expr property.2).DepthAtMost d) ?_
  exact makes_required fun _ _ => makes_required fun _ hvalue => h.expr hvalue

theorem depthAtMost_block (h : inner.Shallow) {body : List Stmt}
    (hgives : Decoder.Gives d (Decoder.record (Stmt.blockRecord inner.stmt)) body) :
    ∀ s ∈ body, (TreeNode.stmt s).DepthAtMost d := by
  refine (hgives.mono (Nat.le_succ d)).record (P := fun body => ∀ s ∈ body,
    (TreeNode.stmt s).DepthAtMost d) ?_
  exact makes_required fun _ hbody s hs => h.stmt (hbody.list s hs)

theorem depthAtMost_optionalBlock (h : inner.Shallow) {block : Option (List Stmt)}
    (hgives : Decoder.Gives d
      (Decoder.nullable (Decoder.record (Stmt.blockRecord inner.stmt))) block ∨ block = none) :
    ∀ s ∈ block.getD [], (TreeNode.stmt s).DepthAtMost d := by
  cases block with
  | none => exact List.forall_mem_nil _
  | some body => exact depthAtMost_block h (Decoder.gives_of_mem_optional hgives body rfl)

theorem depthAtMost_declarator (h : inner.Shallow) {declarator : Variable × Option Expr}
    (hgives : Decoder.Gives d (Decoder.record (Stmt.declarator inner.expr)) declarator) :
    ∀ e ∈ declarator.2, (TreeNode.expr e).DepthAtMost d := by
  refine (hgives.mono (Nat.le_succ d)).record (P := fun declarator => ∀ e ∈ declarator.2,
    (TreeNode.expr e).DepthAtMost d) ?_
  exact makes_required fun _ _ => makes_optional fun _ hinit e he =>
    h.expr (Decoder.gives_of_mem_optional hinit e he)

theorem depthAtMost_switchCase (h : inner.Shallow) {case : Option Expr × List Stmt}
    (hgives : Decoder.Gives d (Decoder.record (Stmt.switchCase inner.expr inner.stmt)) case) :
    EachWithin d (case.1.toList.map .expr ++ case.2.map .stmt) := by
  refine (hgives.mono (Nat.le_succ d)).record
    (P := fun case => EachWithin d (case.1.toList.map .expr ++ case.2.map .stmt)) ?_
  refine makes_optional fun _ htest => makes_required fun _ hbody => .append ?_ ?_
  · exact .exprOption fun e he => h.expr (Decoder.gives_of_mem_optional htest e he)
  · exact .stmts fun s hs => h.stmt (hbody.list s hs)

/-! ## Expressions

One case for each tag. In each the fields are gone through, and those that hold nodes are decoded by
the decoders inside. -/

theorem depthAtMost_exprRecord {r : Json.Record Decoder Expr}
    (hmakes : r.fields.Makes (Decoder.Gives d) (fun e => EachWithin d e.children) r.make) (e : Expr)
    (hgives : (Decoder.record r).Gives (d + 1) e) : (TreeNode.expr e).DepthAtMost (d + 1) :=
  depthAtMost_succ (hgives.record hmakes)

theorem depthAtMost_exprLeaf {leaf : Expr} (hleaf : leaf.children = []) (e : Expr)
    (hgives : (Decoder.bare leaf).Gives (d + 1) e) : (TreeNode.expr e).DepthAtMost (d + 1) := by
  obtain rfl := hgives.bare
  refine depthAtMost_succ (show EachWithin d e.children from ?_)
  rw [hleaf]
  exact .nil

/-- The nodes in an expression are decoded from parts of its body. -/
theorem depthAtMost_expr (h : inner.Shallow) :
    ∀ variant ∈ Expr.variants inner.expr inner.stmt, ∀ e, variant.2.Gives (d + 1) e →
      (TreeNode.expr e).DepthAtMost (d + 1) := by
  simp only [Expr.variants, List.forall_mem_cons]
  -- The variants in their order; each has its fields gone through one by one.
  refine ⟨?number, ?string, ?regExp, ?null, ?true, ?false, ?this, ?identifier, ?array, ?object,
    ?binary, ?unary, ?update, ?assign, ?call, ?new, ?member, ?index, ?conditional, ?comma,
    ?function, List.forall_mem_nil _⟩
  case number => exact depthAtMost_exprRecord (makes_required fun _ _ => .nil)
  case string => exact depthAtMost_exprRecord (makes_required fun _ _ => .nil)
  case regExp =>
    exact depthAtMost_exprRecord (makes_required fun _ _ => makes_optional fun _ _ => .nil)
  case null => exact depthAtMost_exprLeaf rfl
  case true => exact depthAtMost_exprLeaf rfl
  case false => exact depthAtMost_exprLeaf rfl
  case this => exact depthAtMost_exprLeaf rfl
  case identifier =>
    intro e hgives
    obtain ⟨v, -, rfl⟩ := hgives.map
    exact depthAtMost_succ .nil
  case array =>
    refine depthAtMost_exprRecord (makes_required fun elements hgives => .exprs fun e he => ?_)
    obtain ⟨_, helement, rfl⟩ := List.mem_filterMap.mp he
    exact h.expr ((hgives.list _ helement).nullable e rfl)
  case object =>
    refine depthAtMost_exprRecord (makes_required fun properties hgives => ?_)
    exact List.forall_mem_map.mpr fun property hproperty =>
      depthAtMost_property h (hgives.list property hproperty)
  case binary =>
    exact depthAtMost_exprRecord <| makes_required fun _ _ => makes_required fun _ hleft =>
      makes_required fun _ hright =>
      .cons (h.expr hleft) (.cons (h.expr hright) .nil)
  case unary =>
    exact depthAtMost_exprRecord <| makes_required fun _ _ => makes_required fun _ hargument =>
      .cons (h.expr hargument) .nil
  case update =>
    exact depthAtMost_exprRecord <| makes_required fun _ _ => makes_optional fun _ _ =>
      makes_required fun _ hargument =>
      .cons (h.expr hargument) .nil
  case assign =>
    exact depthAtMost_exprRecord <| makes_required fun _ _ => makes_required fun _ htarget =>
      makes_required fun _ hvalue =>
      .cons (h.expr htarget) (.cons (h.expr hvalue) .nil)
  case call =>
    exact depthAtMost_exprRecord <| makes_required fun _ hcallee =>
      makes_optional fun _ harguments =>
      .cons (h.expr hcallee) (.exprs fun e he => h.expr (Decoder.gives_of_mem_list harguments e he))
  case new =>
    exact depthAtMost_exprRecord <| makes_required fun _ hcallee =>
      makes_optional fun _ harguments =>
      .cons (h.expr hcallee) (.exprs fun e he => h.expr (Decoder.gives_of_mem_list harguments e he))
  case member =>
    exact depthAtMost_exprRecord <| makes_required fun _ hobject => makes_required fun _ _ =>
      .cons (h.expr hobject) .nil
  case index =>
    exact depthAtMost_exprRecord <| makes_required fun _ hobject => makes_required fun _ hkey =>
      .cons (h.expr hobject) (.cons (h.expr hkey) .nil)
  case conditional =>
    exact depthAtMost_exprRecord <| makes_required fun _ htest =>
      makes_required fun _ hconsequent =>
      makes_required fun _ halternate =>
        .cons (h.expr htest) (.cons (h.expr hconsequent) (.cons (h.expr halternate) .nil))
  case comma =>
    exact depthAtMost_exprRecord <| makes_required fun _ hleft => makes_required fun _ hright =>
      .cons (h.expr hleft) (.cons (h.expr hright) .nil)
  case function =>
    exact depthAtMost_exprRecord <| makes_optional fun _ _ => makes_optional fun _ _ =>
      makes_required fun _ hbody =>
      .stmts fun s hs => h.stmt (hbody.list s hs)

/-! ## Statements -/

theorem depthAtMost_stmtRecord {r : Json.Record Decoder Stmt}
    (hmakes : r.fields.Makes (Decoder.Gives d) (fun s => EachWithin d s.children) r.make) (s : Stmt)
    (hgives : (Decoder.record r).Gives (d + 1) s) : (TreeNode.stmt s).DepthAtMost (d + 1) :=
  depthAtMost_succ (hgives.record hmakes)

theorem depthAtMost_stmtLeaf {leaf : Stmt} (hleaf : leaf.children = []) (s : Stmt)
    (hgives : (Decoder.bare leaf).Gives (d + 1) s) : (TreeNode.stmt s).DepthAtMost (d + 1) := by
  obtain rfl := hgives.bare
  refine depthAtMost_succ (show EachWithin d s.children from ?_)
  rw [hleaf]
  exact .nil

/-- The nodes in a statement are decoded from parts of its body. -/
theorem depthAtMost_stmt (h : inner.Shallow) :
    ∀ variant ∈ Stmt.variants inner.expr inner.stmt, ∀ s, variant.2.Gives (d + 1) s →
      (TreeNode.stmt s).DepthAtMost (d + 1) := by
  simp only [Stmt.variants, List.forall_mem_cons]
  -- The variants in their order. Where a field may be left out the fallback has no nodes.
  refine ⟨?empty, ?block, ?expression, ?declaration, ?function, ?branch, ?whileLoop, ?doWhile,
    ?forLoop, ?forIn, ?breakLoop, ?continueLoop, ?giveBack, ?switch, ?tryCatch, ?throw, ?within,
    ?labeled, List.forall_mem_nil _⟩
  case empty => exact depthAtMost_stmtLeaf rfl
  case block =>
    intro s hgives
    obtain ⟨body, hbody, rfl⟩ := hgives.map
    refine depthAtMost_succ (.stmts ?_)
    refine hbody.record (P := fun body => ∀ s ∈ body, (TreeNode.stmt s).DepthAtMost d) ?_
    exact makes_required fun _ hbody s hs => h.stmt (hbody.list s hs)
  case expression =>
    exact depthAtMost_stmtRecord (makes_required fun _ hvalue => .cons (h.expr hvalue) .nil)
  case declaration =>
    refine depthAtMost_stmtRecord <| makes_required fun _ _ => makes_required fun _ hdeclarators =>
      .exprs fun e he => ?_
    obtain ⟨declarator, hmem, hinit⟩ := List.mem_filterMap.mp he
    exact depthAtMost_declarator h (hdeclarators.list declarator hmem) e hinit
  case function =>
    intro s hgives
    obtain ⟨f, hf, rfl⟩ := hgives.map
    refine depthAtMost_succ (.stmts ?_)
    refine hf.record (P := fun f => ∀ s ∈ f.body, (TreeNode.stmt s).DepthAtMost d) ?_
    exact makes_required fun _ _ => makes_optional fun _ _ => makes_optional fun _ _ =>
      makes_required fun _ hbody s hs =>
      h.stmt (hbody.list s hs)
  case branch =>
    exact depthAtMost_stmtRecord <| makes_required fun _ htest =>
      makes_required fun _ hconsequent =>
      makes_optional fun _ halternate => .cons (h.expr htest) <| .cons (h.stmt hconsequent) <|
        .stmtOption fun s hs => h.stmt (Decoder.gives_of_mem_optional halternate s hs)
  case whileLoop =>
    exact depthAtMost_stmtRecord <| makes_required fun _ htest => makes_required fun _ hbody =>
      .cons (h.expr htest) (.cons (h.stmt hbody) .nil)
  case doWhile =>
    exact depthAtMost_stmtRecord <| makes_required fun _ hbody => makes_required fun _ htest =>
      .cons (h.stmt hbody) (.cons (h.expr htest) .nil)
  case forLoop =>
    refine depthAtMost_stmtRecord <| makes_optional fun _ hinit => makes_optional fun _ htest =>
      makes_optional fun _ hupdate =>
      makes_required fun _ hbody => .append (.append (.append ?_ ?_) ?_) (.cons (h.stmt hbody) .nil)
    · exact .stmtOption fun s hs => h.stmt (Decoder.gives_of_mem_optional hinit s hs)
    · exact .exprOption fun e he => h.expr (Decoder.gives_of_mem_optional htest e he)
    · exact .exprOption fun e he => h.expr (Decoder.gives_of_mem_optional hupdate e he)
  case forIn =>
    exact depthAtMost_stmtRecord <| makes_required fun _ _ => makes_required fun _ hright =>
      makes_required fun _ hbody =>
      .cons (h.expr hright) (.cons (h.stmt hbody) .nil)
  case breakLoop => exact depthAtMost_stmtLeaf rfl
  case continueLoop => exact depthAtMost_stmtLeaf rfl
  case giveBack =>
    exact depthAtMost_stmtRecord <| makes_optional fun _ hargument =>
      .exprOption fun e he => h.expr (Decoder.gives_of_mem_optional hargument e he)
  case switch =>
    refine depthAtMost_stmtRecord <| makes_required fun _ hdiscriminant =>
      makes_required fun _ hcases =>
      .cons (h.expr hdiscriminant) fun n hn => ?_
    obtain ⟨case, hcase, hn⟩ := List.mem_flatMap.mp hn
    exact depthAtMost_switchCase h (hcases.list case hcase) n hn
  case tryCatch =>
    exact depthAtMost_stmtRecord <| makes_required fun _ hbody => makes_optional fun _ hhandler =>
      makes_optional fun _ hfinalizer => .append
        (.append (.stmts (depthAtMost_block h hbody))
          (.stmts (depthAtMost_optionalBlock h hhandler)))
        (.stmts (depthAtMost_optionalBlock h hfinalizer))
  case throw =>
    exact depthAtMost_stmtRecord (makes_required fun _ hargument => .cons (h.expr hargument) .nil)
  case within =>
    exact depthAtMost_stmtRecord <| makes_required fun _ hobject => makes_required fun _ hbody =>
      .cons (h.expr hobject) (.cons (h.stmt hbody) .nil)
  case labeled =>
    exact depthAtMost_stmtRecord <| makes_required fun _ _ => makes_required fun _ hbody =>
      .cons (h.stmt hbody) .nil

end

/-! ## Nodes within nodes -/

/-- **A node is no deeper than the value it is decoded from**, whatever bound the decoders have
themselves. -/
theorem NodeDecoders.shallow_within (n : Nat) : (NodeDecoders.within n).Shallow := by
  induction n with
  | zero =>
    -- These decoders refuse every value.
    refine ⟨fun h => ?_, fun h => ?_⟩
    · obtain ⟨j, -, h⟩ := h
      cases j <;> cases h
    · obtain ⟨j, -, h⟩ := h
      cases j <;> cases h
  | succ n ih =>
    refine ⟨fun h => ?_, fun h => ?_⟩
    · obtain ⟨hpos, variant, hvariant, hgives⟩ := Decoder.Gives.tagged h
      obtain ⟨d, rfl⟩ := Nat.exists_eq_add_one.mpr hpos
      exact depthAtMost_expr ih variant hvariant _ hgives
    · obtain ⟨hpos, variant, hvariant, hgives⟩ := Decoder.Gives.tagged h
      obtain ⟨d, rfl⟩ := Nat.exists_eq_add_one.mpr hpos
      exact depthAtMost_stmt ih variant hvariant _ hgives

theorem depthAtMost_of_reader {d : Nat} {s : Stmt} (h : (Stmt.reader d).Gives s) :
    (TreeNode.stmt s).DepthAtMost d := by
  obtain ⟨hpos, variant, hvariant, hgives⟩ := h.tagged
  obtain ⟨d, rfl⟩ := Nat.exists_eq_add_one.mpr hpos
  exact depthAtMost_stmt (NodeDecoders.shallow_within _) variant hvariant s hgives

/-! ## Programs -/

/-- Two of the 127 arrays and objects are around a statement: the object of the program and the
array of its body. -/
theorem Program.depthAtMost_of_parse {text : String} {p : Program}
    (h : Program.parse text = .ok p) :
    ∀ s ∈ p.body, (TreeNode.stmt s).DepthAtMost 125 := by
  refine (Reader.gives_of_all h).record (P := fun p => ∀ s ∈ p.body,
    (TreeNode.stmt s).DepthAtMost 125) ?_
  exact makes_required fun _ _ => makes_optional fun _ _ => makes_optional fun _ _ =>
    makes_required fun _ hbody s hs =>
    depthAtMost_of_reader (hbody.list s hs)

end StackCode
