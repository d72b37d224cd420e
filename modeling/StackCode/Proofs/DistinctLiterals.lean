import StackCode.Proofs.Atoms.Units
import StackCode.Proofs.Double.Exact
import StackCode.Proofs.Layout.Supported
import StackCode.Proofs.Tree.Map

/-!
# Distinct literals, distinct code

Two bodies that differ in their number literals only have code of the same shape, and the code tells
them apart as far as an instruction tells two numbers apart. That is far: a literal that compiles is
an integer, and its instruction holds it in full. What is lost is the sign of a zero, since `0` and
`-0` are the same integer.

`Layout.Tells P plan plan'` says of two layouts that they have the same size and the same strings in
the same places, and are the same wherever they are placed exactly if `P`. Put together in any way,
layouts tell apart all that their parts do; by induction on supported trees, the code of two trees
is the same exactly if the trees are, up to signs of zero.

## What is compared

The two bodies are the same once every number literal is blanked out. So they have the same nodes,
the same variables, the same strings; and no condition is made on how their literals differ, nor in
how many places. The conclusion is an equivalence, so it says as well that nothing else is told
apart.

The bodies declare no functions. A function declaration is no code of the unit it stands in, so a
literal inside of one cannot be told from that code; it is told by the code of its own unit, to
which the same statement applies.

Jump targets are no obstacle although they are numbers in the code. Two instructions that push
numbers may have different operands, but each is one instruction, so the code has the same size and
every jump the same target.
-/

set_option autoImplicit false

namespace StackCode

/-! ## Signs of zero -/

namespace Double

/-- The number, with the sign of a zero forgotten. -/
def unsignZero (x : Double) : Double :=
  if x = zero true then zero false else x

/-- Any number, made the same. -/
def blank (_ : Double) : Double :=
  zero false

/-- The integer that a number stands for does not have its sign of zero. -/
theorem toInt?_unsignZero (x : Double) : x.unsignZero.toInt? = x.toInt? := by
  unfold unsignZero
  split
  · rename_i h
    rw [h]
    rfl
  · rfl

/-- All of a number but the sign of a zero is in the integer that it stands for. -/
theorem unsignZero_of_toInt? {x : Double} {n : Int} (h : x.toInt? = some n) :
    x.unsignZero = ofInt n := by
  unfold unsignZero
  split
  · rename_i hzero
    rw [hzero] at h
    obtain rfl := Option.some.inj h
    rfl
  · rename_i hne
    exact (ofInt_of_toInt? h hne).symm

/-- Two numbers that stand for integers are the same up to the sign of a zero exactly if the
integers are. -/
theorem unsignZero_eq_iff {x y : Double} {n m : Int} (hx : x.toInt? = some n)
    (hy : y.toInt? = some m) :
    x.unsignZero = y.unsignZero ↔ n = m := by
  constructor
  · intro h
    have hint : x.toInt? = y.toInt? := by rw [← x.toInt?_unsignZero, h, y.toInt?_unsignZero]
    rw [hx, hy] at hint
    exact Option.some.inj hint
  · rintro rfl
    rw [unsignZero_of_toInt? hx, unsignZero_of_toInt? hy]

end Double

/-! ## Code that tells

`P` is the condition under which the two pieces of code are the same. It is a proposition about
trees in the end, but the lemmas on layouts do not look at it: a sequence of two pieces is the same
exactly if both conditions hold. For this the sizes have to agree, since otherwise a difference in
the first part might be made up for in the second. -/

theorem Instruction.pushInt?_of_ofNumber {x : Double} {i : Instruction} {n : Int}
    (h : ofNumber x = .ok i) (hn : x.toInt? = some n) : pushInt? n = some i := by
  unfold ofNumber at h
  rw [hn] at h
  cases hi : pushInt? n with
  | none => simp [hi] at h
  | some j => simpa [hi] using h

theorem Op.text?_ofInstruction (i : Instruction) : (ofInstruction i).text? = none := by
  obtain ⟨opcode, operand⟩ := i
  cases operand <;> rfl

/-- Two pieces of code have the same strings in the same places, and are the same exactly if `P`. -/
structure Op.Tells (P : Prop) (ops ops' : List Op) : Prop where
  texts : ops.map Op.text? = ops'.map Op.text?
  eq_iff : ops = ops' ↔ P

namespace Op.Tells

variable {P Q : Prop} {ops ops' rest rest' : List Op}

theorem refl (ops : List Op) : Tells True ops ops :=
  ⟨rfl, iff_of_true rfl trivial⟩

/-- Pieces of code that tell have the same length. -/
theorem length_eq (h : Tells P ops ops') : ops.length = ops'.length := by
  simpa using congrArg List.length h.texts

theorem congr (h : Tells P ops ops') (hPQ : P ↔ Q) : Tells Q ops ops' :=
  ⟨h.texts, h.eq_iff.trans hPQ⟩

theorem append (h : Tells P ops ops') (hrest : Tells Q rest rest') :
    Tells (P ∧ Q) (ops ++ rest) (ops' ++ rest') where
  texts := by rw [List.map_append, List.map_append, h.texts, hrest.texts]
  eq_iff := by
    rw [← h.eq_iff, ← hrest.eq_iff]
    constructor
    · intro heq
      exact List.append_inj heq h.length_eq
    · rintro ⟨rfl, rfl⟩
      rfl

/-- What both pieces have in common tells nothing. -/
theorem cons (o : Op) (h : Tells P ops ops') : Tells P (o :: ops) (o :: ops') :=
  ((refl [o]).append h).congr (and_iff_right trivial)

end Op.Tells

/-- Two layouts have the same size and the same strings in the same places, and are the same
wherever they are placed exactly if `P`. -/
structure Layout.Tells (P : Prop) (plan plan' : Layout) : Prop where
  size : plan.size = plan'.size
  code : ∀ t a, Op.Tells P (plan.code t a) (plan'.code t a)

namespace Layout.Tells

variable {P Q R S : Prop} {p p' q q' r r' : Layout}

/-- Where there is nothing to tell. -/
theorem same (h : P) : Tells P p p :=
  ⟨rfl, fun _ _ => (Op.Tells.refl _).congr (iff_of_true trivial h)⟩

theorem congr (h : Tells P p p') (hPQ : P ↔ Q) : Tells Q p p' :=
  ⟨h.size, fun t a => (h.code t a).congr hPQ⟩

theorem append (hp : Tells P p p') (hq : Tells Q q q') : Tells (P ∧ Q) (p ++ q) (p' ++ q') where
  size := by simp [hp.size, hq.size]
  code t a := by
    rw [append_code, append_code, hp.size]
    exact (hp.code t a).append (hq.code t _)

/-- What stands behind both layouts tells nothing. -/
theorem append_ops (hp : Tells P p p') (ops : List Op) :
    Tells P (p ++ ofOps ops) (p' ++ ofOps ops) :=
  (hp.append (same trivial)).congr (and_iff_left trivial)

theorem ops_append (ops : List Op) (hp : Tells P p p') :
    Tells P (ofOps ops ++ p) (ofOps ops ++ p') :=
  ((same trivial).append hp).congr (and_iff_right trivial)

theorem branch (hp : Tells P p p') (hq : Tells Q q q') (hr : Tells R r r') :
    Tells (P ∧ Q ∧ R) (branch p q r) (branch p' q' r') where
  size := by simp [Layout.branch, hp.size, hq.size, hr.size]
  code t a := by
    simp only [Layout.branch, hp.size, hq.size, hr.size, List.append_assoc, List.cons_append]
    exact (hp.code t a).append (((hq.code t _).append ((hr.code t _).cons _)).cons _)

theorem guard (hp : Tells P p p') : Tells P (Layout.guard (some p)) (Layout.guard (some p')) :=
  ⟨congrArg (· + 1) hp.size,
    fun t a => ((hp.code t a).append (.refl _)).congr (and_iff_left trivial)⟩

/-- A loop tells what its test and its body tell. -/
theorem whileLoop (hp : Tells P p p') (hq : Tells Q q q') :
    Tells (P ∧ Q) (whileLoop p q) (whileLoop p' q') where
  size := by simp [Layout.whileLoop, hp.size, hq.size]
  code t a := by
    simp only [Layout.whileLoop, Layout.guard, hp.size, hq.size, List.append_assoc,
      List.cons_append, List.nil_append]
    exact (hp.code _ a).append
      ((((hq.code _ _).append (.refl _)).congr (and_iff_left trivial)).cons _)

theorem forLoop {test test' : Option Layout} (hp : Tells P p p') (hq : Tells Q q q')
    (htest : Tells R (Layout.guard test) (Layout.guard test')) (hr : Tells S r r') :
    Tells (P ∧ Q ∧ R ∧ S) (forLoop p q test r) (forLoop p' q' test' r') where
  size := by simp [Layout.forLoop, hp.size, hq.size, htest.size, hr.size]
  code t a := by
    simp only [Layout.forLoop, hp.size, hq.size, htest.size, hr.size, List.append_assoc,
      List.cons_append]
    exact (hp.code t a).append (((hq.code t _).append ((htest.code _ _).append
      (((hr.code _ _).append (.refl _)).congr (and_iff_left trivial)))).cons _)

/-- Two literals that compile have the same instruction exactly if they are the same but for the
sign of a zero. -/
theorem number {x y : Double} {i j : Instruction} (hx : Instruction.ofNumber x = .ok i)
    (hy : Instruction.ofNumber y = .ok j) :
    Tells (x.unsignZero = y.unsignZero) (number x) (number y) := by
  obtain ⟨n, hn, hi⟩ := Op.integer?_ofNumber hx
  obtain ⟨m, hm, hj⟩ := Op.integer?_ofNumber hy
  have hlayout {z : Double} {k : Instruction} (hz : Instruction.ofNumber z = .ok k) :
      Layout.number z = ofOps [.ofInstruction k] := by
    unfold Layout.number
    rw [hz]
  rw [hlayout hx, hlayout hy]
  refine ⟨rfl, fun t a => ⟨?_, ?_⟩⟩
  · simp [Op.text?_ofInstruction]
  · rw [Double.unsignZero_eq_iff hn hm, ofOps_code, ofOps_code, List.cons.injEq, and_iff_left rfl]
    constructor
    · intro h
      rw [h, hj] at hi
      exact (Option.some.inj hi).symm
    · -- The instruction is chosen by the integer alone.
      rintro rfl
      have hsame : some i = some j :=
        (Instruction.pushInt?_of_ofNumber hx hn).symm.trans (Instruction.pushInt?_of_ofNumber hy hm)
      rw [Option.some.inj hsame]

end Layout.Tells

/-! ## Expressions -/

open Double (blank unsignZero)

namespace Expr

/-- Code tells the expression from every other one that compiles and differs from it in number
literals only. The same code means the same expression, up to signs of zero. -/
def Distinct (e : Expr) : Prop :=
  ∀ e' : Expr, e'.Supported → e.map (.numbers blank) = e'.map (.numbers blank) →
    Layout.Tells (e.map (.numbers unsignZero) = e'.map (.numbers unsignZero)) e.layout e'.layout

/-- Lists that are the same after a change have the same length. -/
theorem length_eq_of_mapList {m : Change} {es es' : List Expr} (h : mapList m es = mapList m es') :
    es.length = es'.length := by
  rw [← length_mapList m es, h, length_mapList]

theorem tells_listLayout {es es' : List Expr} (h : ∀ e ∈ es, e.Distinct)
    (h' : ∀ e ∈ es', e.Supported)
    (hsame : mapList (.numbers blank) es = mapList (.numbers blank) es') :
    Layout.Tells (mapList (.numbers unsignZero) es = mapList (.numbers unsignZero) es')
      (listLayout es) (listLayout es') := by
  induction es generalizing es' with
  | nil =>
    cases es' with
    | nil => exact .same rfl
    | cons e' es' => cases hsame
  | cons e es ih =>
    cases es' with
    | nil => cases hsame
    | cons e' es' =>
      obtain ⟨he, hes⟩ := List.forall_mem_cons.mp h
      obtain ⟨he', hes'⟩ := List.forall_mem_cons.mp h'
      obtain ⟨hhead, htail⟩ := List.cons.inj hsame
      refine ((he e' he' hhead).append (ih hes hes' htail)).congr ?_
      simp [mapList]

/-- The indices of the elements are the same and tell nothing. -/
theorem tells_elementsLayout (first : Nat) {es es' : List Expr} (h : ∀ e ∈ es, e.Distinct)
    (h' : ∀ e ∈ es', e.Supported)
    (hsame : mapList (.numbers blank) es = mapList (.numbers blank) es') :
    Layout.Tells (mapList (.numbers unsignZero) es = mapList (.numbers unsignZero) es')
      (elementsLayout first (es.map some))
      (elementsLayout first (es'.map some)) := by
  induction es generalizing es' first with
  | nil =>
    cases es' with
    | nil => exact .same rfl
    | cons e' es' => cases hsame
  | cons e es ih =>
    cases es' with
    | nil => cases hsame
    | cons e' es' =>
      obtain ⟨he, hes⟩ := List.forall_mem_cons.mp h
      obtain ⟨he', hes'⟩ := List.forall_mem_cons.mp h'
      obtain ⟨hhead, htail⟩ := List.cons.inj hsame
      have hindex : Layout.Tells True (.number (.ofNat first)) (.number (.ofNat first)) :=
        .same trivial
      refine (((hindex.append (he e' he' hhead)).append_ops _).append
        (ih (first + 1) hes hes' htail)).congr ?_
      simp [mapList]

/-- **Expressions.** -/
theorem Supported.distinct {e : Expr} (h : e.Supported) : e.Distinct := by
  induction h with
  | number hi =>
    intro e' h' hsame
    cases h' with
    | number hj =>
      refine (Layout.Tells.number hi hj).congr ?_
      simp [map]
    | _ => cases hsame
  | string hs =>
    intro e' h' hsame
    cases h' with
    | string hs' =>
      cases hsame
      exact .same rfl
    | _ => cases hsame
  | null =>
    intro e' h' hsame
    cases h' with
    | null => exact .same rfl
    | _ => cases hsame
  | boolean value =>
    intro e' h' hsame
    cases h' with
    | boolean value' =>
      cases hsame
      exact .same rfl
    | _ => cases hsame
  | this =>
    intro e' h' hsame
    cases h' with
    | this => exact .same rfl
    | _ => cases hsame
  | identifier v =>
    intro e' h' hsame
    cases h' with
    | identifier v' =>
      cases hsame
      exact .same rfl
    | _ => cases hsame
  | array hlength _ _ ih =>
    intro e' h' hsame
    cases h' with
    | array hlength' _ hes' =>
      have helements := Expr.array.inj hsame
      rw [mapElements_map_some, mapElements_map_some] at helements
      have hes := (List.map_inj_right fun _ _ => Option.some.inj).mp helements
      rw [layout_array hlength, layout_array hlength', length_eq_of_mapList hes]
      have htells := tells_elementsLayout 0 ih hes' hes
      refine ((htells.ops_append _).append_ops _).congr ?_
      simp [map, mapElements_map_some, List.map_inj_right fun _ _ => Option.some.inj]
    | _ => cases hsame
  | binary hop _ _ ihl ihr =>
    intro e' h' hsame
    cases h' with
    | binary hop' hl' hr' =>
      -- The operators are the same, and with them the opcodes.
      obtain ⟨rfl, hleft, hright⟩ := Expr.binary.inj hsame
      rw [layout_binary hop, layout_binary hop]
      refine (((ihl _ hl' hleft).append (ihr _ hr' hright)).append_ops _).congr ?_
      simp [map]
    | _ => cases hsame
  | unary hop _ ih =>
    intro e' h' hsame
    cases h' with
    | unary hop' harg' =>
      obtain ⟨rfl, harg⟩ := Expr.unary.inj hsame
      rw [layout_unary hop, layout_unary hop]
      refine ((ih _ harg' harg).append_ops _).congr ?_
      simp [map]
    | _ => cases hsame
  | incrementVariable v =>
    intro e' h' hsame
    cases h' with
    | incrementVariable v' =>
      cases hsame
      exact .same rfl
    | _ => cases hsame
  | incrementMember property _ ih =>
    intro e' h' hsame
    cases h' with
    | incrementMember property' ho' =>
      obtain ⟨-, -, htarget⟩ := Expr.update.inj hsame
      obtain ⟨ho, rfl⟩ := Expr.member.inj htarget
      refine ((ih _ ho' ho).append_ops _).congr ?_
      simp [map]
    | _ => cases hsame
  | incrementIndex _ _ iho ihk =>
    intro e' h' hsame
    cases h' with
    | incrementIndex ho' hk' =>
      obtain ⟨-, -, htarget⟩ := Expr.update.inj hsame
      obtain ⟨ho, hk⟩ := Expr.index.inj htarget
      refine (((iho _ ho' ho).append (ihk _ hk' hk)).append_ops _).congr ?_
      simp [map]
    | _ => cases hsame
  | assignVariable v _ ih =>
    intro e' h' hsame
    cases h' with
    | assignVariable v' hvalue' =>
      obtain ⟨-, htarget, hvalue⟩ := Expr.assign.inj hsame
      cases htarget
      refine ((Layout.Tells.ops_append _ (ih _ hvalue' hvalue)).append_ops _).congr ?_
      simp [map]
    | _ => cases hsame
  | assignMember property _ _ iho ih =>
    intro e' h' hsame
    cases h' with
    | assignMember property' ho' hvalue' =>
      obtain ⟨-, htarget, hvalue⟩ := Expr.assign.inj hsame
      obtain ⟨ho, rfl⟩ := Expr.member.inj htarget
      refine (((iho _ ho' ho).append (ih _ hvalue' hvalue)).append_ops _).congr ?_
      simp [map]
    | _ => cases hsame
  | assignIndex _ _ _ iho ihk ih =>
    intro e' h' hsame
    cases h' with
    | assignIndex ho' hk' hvalue' =>
      obtain ⟨-, htarget, hvalue⟩ := Expr.assign.inj hsame
      obtain ⟨ho, hk⟩ := Expr.index.inj htarget
      refine ((((iho _ ho' ho).append (ihk _ hk' hk)).append
        (ih _ hvalue' hvalue)).append_ops _).congr ?_
      simp [map]
    | _ => cases hsame
  | callName v hcount _ ih =>
    intro e' h' hsame
    cases h' with
    | callName v' hcount' hargs' =>
      obtain ⟨hcallee, hargs⟩ := Expr.call.inj hsame
      cases hcallee
      rw [layout_call hcount, layout_call hcount', length_eq_of_mapList hargs]
      refine ((Layout.Tells.ops_append _ (tells_listLayout ih hargs' hargs)).append_ops _).congr ?_
      simp [map]
    | _ => cases hsame
  | callMember property hcount _ _ iho ih =>
    intro e' h' hsame
    cases h' with
    | callMember property' hcount' ho' hargs' =>
      obtain ⟨hcallee, hargs⟩ := Expr.call.inj hsame
      obtain ⟨ho, rfl⟩ := Expr.member.inj hcallee
      rw [layout_call hcount, layout_call hcount', length_eq_of_mapList hargs]
      refine ((((iho _ ho' ho).append_ops _).append
        (tells_listLayout ih hargs' hargs)).append_ops _).congr ?_
      simp [map]
    | _ => cases hsame
  | callIndex hcount _ _ _ iho ihk ih =>
    intro e' h' hsame
    cases h' with
    | callIndex hcount' ho' hk' hargs' =>
      obtain ⟨hcallee, hargs⟩ := Expr.call.inj hsame
      obtain ⟨ho, hk⟩ := Expr.index.inj hcallee
      rw [layout_call hcount, layout_call hcount', length_eq_of_mapList hargs]
      refine (((((iho _ ho' ho).append (ihk _ hk' hk)).append_ops _).append
        (tells_listLayout ih hargs' hargs)).append_ops _).congr ?_
      simp [map]
    | _ => cases hsame
  | new v hcount _ ih =>
    intro e' h' hsame
    cases h' with
    | new v' hcount' hargs' =>
      obtain ⟨hcallee, hargs⟩ := Expr.new.inj hsame
      cases hcallee
      rw [layout_new v hcount, layout_new v hcount', length_eq_of_mapList hargs]
      refine ((Layout.Tells.ops_append _ (tells_listLayout ih hargs' hargs)).append_ops _).congr ?_
      simp [map]
    | _ => cases hsame
  | member property _ ih =>
    intro e' h' hsame
    cases h' with
    | member property' ho' =>
      obtain ⟨ho, rfl⟩ := Expr.member.inj hsame
      refine ((ih _ ho' ho).append_ops _).congr ?_
      simp [map]
    | _ => cases hsame
  | index _ _ iho ihk =>
    intro e' h' hsame
    cases h' with
    | index ho' hk' =>
      obtain ⟨ho, hk⟩ := Expr.index.inj hsame
      refine (((iho _ ho' ho).append (ihk _ hk' hk)).append_ops _).congr ?_
      simp [map]
    | _ => cases hsame
  | conditional _ _ _ iht ihc iha =>
    intro e' h' hsame
    cases h' with
    | conditional ht' hc' ha' =>
      obtain ⟨ht, hc, ha⟩ := Expr.conditional.inj hsame
      refine ((iht _ ht' ht).branch (ihc _ hc' hc) (iha _ ha' ha)).congr ?_
      simp [map]
    | _ => cases hsame
  | comma _ _ ihl ihr =>
    intro e' h' hsame
    cases h' with
    | comma hl' hr' =>
      obtain ⟨hl, hr⟩ := Expr.comma.inj hsame
      refine (((ihl _ hl' hl).append_ops _).append (ihr _ hr' hr)).congr ?_
      simp [map]
    | _ => cases hsame

end Expr

/-! ## Statements -/

namespace Stmt

/-- Code tells the statement from every other one that compiles and differs from it in number
literals only. -/
def Distinct (toplevel inLoop : Bool) (s : Stmt) : Prop :=
  ∀ s' : Stmt, s'.Supported toplevel inLoop → s.map (.numbers blank) = s'.map (.numbers blank) →
    Layout.Tells (s.map (.numbers unsignZero) = s'.map (.numbers unsignZero)) (s.layout toplevel)
      (s'.layout toplevel)

/-- Declarations. The variables are the same, and so is which of them have an initializer. -/
theorem tells_declaratorsLayout {ds ds' : List (Variable × Option Expr)}
    (h : SupportedDeclarators ds) (h' : SupportedDeclarators ds')
    (hsame : mapDeclarators (.numbers blank) ds = mapDeclarators (.numbers blank) ds') :
    Layout.Tells (mapDeclarators (.numbers unsignZero) ds =
      mapDeclarators (.numbers unsignZero) ds') (declaratorsLayout ds)
      (declaratorsLayout ds') := by
  induction ds generalizing ds' with
  | nil =>
    cases ds' with
    | nil => exact .same rfl
    | cons d' ds' => cases hsame
  | cons d ds ih =>
    cases ds' with
    | nil => cases hsame
    | cons d' ds' =>
      obtain ⟨v, init⟩ := d
      obtain ⟨v', init'⟩ := d'
      obtain ⟨hhead, htail⟩ := List.cons.inj hsame
      -- The variables are the same, since only numbers are blanked out.
      obtain ⟨rfl, hinit⟩ := Prod.mk.inj hhead
      have hrest :=
        ih (fun w e he => h w e (List.mem_cons_of_mem _ he))
          (fun w e he => h' w e (List.mem_cons_of_mem _ he)) htail
      cases init with
      | none =>
        cases init' with
        | some e' => cases hinit
        | none =>
          refine hrest.congr ?_
          simp [mapDeclarators, mapDeclarator, Expr.mapOption]
      | some e =>
        cases init' with
        | none => cases hinit
        | some e' =>
          have hvalue :=
            (h v e List.mem_cons_self).distinct e' (h' v e' List.mem_cons_self)
              (Option.some.inj hinit)
          -- What is pushed before the value and what stores it depend on the variable only.
          have hstore := (Layout.Tells.ops_append v.target hvalue).append_ops [v.write]
          refine ((hstore.append_ops _).append hrest).congr ?_
          simp [mapDeclarators, mapDeclarator, Expr.mapOption]

theorem tells_forInitLayout {init init' : Option Stmt} (h : SupportedInit init)
    (h' : SupportedInit init')
    (hsame : mapOption (.numbers blank) init = mapOption (.numbers blank) init') :
    Layout.Tells (mapOption (.numbers unsignZero) init = mapOption (.numbers unsignZero) init')
      (forInitLayout init)
      (forInitLayout init') := by
  cases h with
  | none =>
    cases h' with
    | none => exact .same rfl
    | _ => cases hsame
  | empty =>
    cases h' with
    | empty => exact .same rfl
    | _ => cases hsame
  | declaration hds =>
    cases h' with
    | declaration hds' =>
      obtain ⟨-, hsames⟩ := Stmt.declaration.inj (Option.some.inj hsame)
      refine (tells_declaratorsLayout hds hds' hsames).congr ?_
      simp [mapOption, map]
    | _ => cases hsame
  | expression he =>
    cases h' with
    | expression he' =>
      have hvalue := he.distinct _ he' (Stmt.expression.inj (Option.some.inj hsame))
      refine (hvalue.append_ops _).congr ?_
      simp [mapOption, map]
    | _ => cases hsame

/-- An expression that may be missing, compiled in any way that tells apart what its own code
does. -/
theorem tells_expression (plan : Option Expr → Layout)
    (hplan : ∀ {P : Prop} {e e' : Expr}, Layout.Tells P e.layout e'.layout →
      Layout.Tells P (plan (some e)) (plan (some e')))
    {e e' : Option Expr} (h : ∀ d, e = some d → d.Supported) (h' : ∀ d, e' = some d → d.Supported)
    (hsame : Expr.mapOption (.numbers blank) e = Expr.mapOption (.numbers blank) e') :
    Layout.Tells (Expr.mapOption (.numbers unsignZero) e = Expr.mapOption (.numbers unsignZero) e')
      (plan e) (plan e') := by
  cases e with
  | none =>
    cases e' with
    | none => exact .same rfl
    | some d' => cases hsame
  | some d =>
    cases e' with
    | none => cases hsame
    | some d' =>
      refine (hplan ((h d rfl).distinct d' (h' d' rfl) (Option.some.inj hsame))).congr ?_
      simp [Expr.mapOption]

theorem tells_optionLayout {toplevel inLoop : Bool} {s s' : Option Stmt}
    (h : ∀ t, s = some t → t.Distinct toplevel inLoop)
    (h' : ∀ t, s' = some t → t.Supported toplevel inLoop)
    (hsame : mapOption (.numbers blank) s = mapOption (.numbers blank) s') :
    Layout.Tells (mapOption (.numbers unsignZero) s = mapOption (.numbers unsignZero) s')
      (optionLayout toplevel s)
      (optionLayout toplevel s') := by
  cases s with
  | none =>
    cases s' with
    | none => exact .same rfl
    | some t' => cases hsame
  | some t =>
    cases s' with
    | none => cases hsame
    | some t' =>
      refine (h t rfl t' (h' t' rfl) (Option.some.inj hsame)).congr ?_
      simp [mapOption]

theorem tells_listLayout {toplevel inLoop : Bool} {ss ss' : List Stmt}
    (h : ∀ s ∈ ss, s.Distinct toplevel inLoop) (h' : ∀ s ∈ ss', s.Supported toplevel inLoop)
    (hsame : mapList (.numbers blank) ss = mapList (.numbers blank) ss') :
    Layout.Tells (mapList (.numbers unsignZero) ss = mapList (.numbers unsignZero) ss')
      (listLayout toplevel ss)
      (listLayout toplevel ss') := by
  induction ss generalizing ss' with
  | nil =>
    cases ss' with
    | nil => exact .same rfl
    | cons s' ss' => cases hsame
  | cons s ss ih =>
    cases ss' with
    | nil => cases hsame
    | cons s' ss' =>
      obtain ⟨hs, hss⟩ := List.forall_mem_cons.mp h
      obtain ⟨hs', hss'⟩ := List.forall_mem_cons.mp h'
      obtain ⟨hhead, htail⟩ := List.cons.inj hsame
      refine ((hs s' hs' hhead).append (ih hss hss' htail)).congr ?_
      simp [mapList]

theorem functions_eq_nil_of_mem {ss : List Stmt} (h : functionsOfList ss = []) :
    ∀ s ∈ ss, s.functions = [] := by
  induction ss with
  | nil => simp
  | cons s ss ih =>
    obtain ⟨hs, hss⟩ := List.append_eq_nil_iff.mp h
    exact List.forall_mem_cons.mpr ⟨hs, ih hss⟩

/-- **Statements.** The body of a declared function is no code of the unit, so its literals could
not be told apart. -/
theorem Supported.distinct {toplevel inLoop : Bool} {s : Stmt} (h : s.Supported toplevel inLoop)
    (hfun : s.functions = []) :
    s.Distinct toplevel inLoop := by
  induction h with
  | empty =>
    intro s' h' hsame
    cases h' with
    | empty => exact .same rfl
    | _ => cases hsame
  | block _ ih =>
    intro s' h' hsame
    cases h' with
    | block hbody' =>
      have hbody := fun s hs => ih s hs (functions_eq_nil_of_mem hfun s hs)
      refine (tells_listLayout hbody hbody' (Stmt.block.inj hsame)).congr ?_
      simp [map]
    | _ => cases hsame
  | expression he =>
    intro s' h' hsame
    cases h' with
    | expression he' =>
      refine ((he.distinct _ he' (Stmt.expression.inj hsame)).append_ops _).congr ?_
      simp [map]
    | _ => cases hsame
  | declaration hds =>
    intro s' h' hsame
    cases h' with
    | declaration hds' =>
      refine (tells_declaratorsLayout hds hds' (Stmt.declaration.inj hsame).2).congr ?_
      simp [map]
    | _ => cases hsame
  | function htop name line scope body => cases hfun
  | branch ht _ _ ihc iha =>
    intro s' h' hsame
    cases h' with
    | branch ht' hc' ha' =>
      obtain ⟨htest, hconsequent, halternate⟩ := Stmt.branch.inj hsame
      obtain ⟨hfunc, hfuna⟩ := List.append_eq_nil_iff.mp hfun
      have halt :=
        tells_optionLayout (fun t ht => iha t ht (by subst ht; exact hfuna)) ha' halternate
      refine ((ht.distinct _ ht' htest).branch (ihc hfunc _ hc' hconsequent) halt).congr ?_
      simp [map]
    | _ => cases hsame
  | whileLoop ht _ ih =>
    intro s' h' hsame
    cases h' with
    | whileLoop ht' hbody' =>
      obtain ⟨htest, hbody⟩ := Stmt.whileLoop.inj hsame
      refine ((ht.distinct _ ht' htest).whileLoop (ih hfun _ hbody' hbody)).congr ?_
      simp [map]
    | _ => cases hsame
  | forLoop hi ht hu _ ih =>
    intro s' h' hsame
    cases h' with
    | forLoop hi' ht' hu' hbody' =>
      obtain ⟨hinit, htest, hupdate, hbody⟩ := Stmt.forLoop.inj hsame
      have hguard :=
        tells_expression (fun test => .guard (test.map Expr.layout)) Layout.Tells.guard ht ht' htest
      have hstep := tells_expression forUpdateLayout (fun h => h.append_ops _) hu hu' hupdate
      refine ((tells_forInitLayout hi hi' hinit).forLoop hstep hguard
        (ih hfun _ hbody' hbody)).congr ?_
      -- The update is laid out before the test, and comes behind it in the tree.
      simp only [map, Stmt.forLoop.injEq]
      exact and_congr_right fun _ => and_left_comm
    | _ => cases hsame
  | breakLoop =>
    intro s' h' hsame
    cases h' with
    | breakLoop => exact .same rfl
    | _ => cases hsame
  | continueLoop =>
    intro s' h' hsame
    cases h' with
    | continueLoop => exact .same rfl
    | _ => cases hsame
  | giveBack he =>
    intro s' h' hsame
    cases h' with
    | giveBack he' =>
      refine (tells_expression (fun e => layout _ (.giveBack e)) (fun h => h.append_ops _) he he'
        (Stmt.giveBack.inj hsame)).congr ?_
      simp [map]
    | _ => cases hsame

end Stmt

/-! ## Units -/

/-- Units that are built without folding from bodies that differ in number literals only have the
same code exactly if the bodies are the same up to signs of zero. -/
theorem UnitSource.code_eq_iff {toplevel : Bool} {body body' : List Stmt} {scope scope' : Scope}
    {line line' : UInt32} {filename filename' : String} {unit unit' : CodeUnit}
    (hsame : Stmt.mapList (.numbers blank) body = Stmt.mapList (.numbers blank) body')
    (hfun : Stmt.functionsOfList body = [])
    (hbuild : build ⟨⟨toplevel, body⟩, scope, line⟩ filename false = .ok unit)
    (hbuild' : build ⟨⟨toplevel, body'⟩, scope', line'⟩ filename' false = .ok unit') :
    unit.code = unit'.code ↔
      Stmt.mapList (.numbers unsignZero) body = Stmt.mapList (.numbers unsignZero) body' := by
  have hplan := isCodeOf_build ⟨⟨toplevel, body⟩, scope, line⟩ filename false
  have hplan' := isCodeOf_build ⟨⟨toplevel, body'⟩, scope', line'⟩ filename' false
  rw [hbuild] at hplan
  rw [hbuild'] at hplan'
  obtain ⟨hrefusal, hops⟩ := hplan.of_ok
  obtain ⟨hrefusal', hops'⟩ := hplan'.of_ok
  have hdistinct : ∀ s ∈ body, s.Distinct toplevel false := by
    intro s hs
    exact (Stmt.supported_of_list body hrefusal s hs).distinct
      (Stmt.functions_eq_nil_of_mem hfun s hs)
  have htells := Stmt.tells_listLayout hdistinct (Stmt.supported_of_list body' hrefusal') hsame
  -- `stop` stands behind both and tells nothing.
  have hcode :
      Op.Tells (Stmt.mapList (.numbers unsignZero) body = Stmt.mapList (.numbers unsignZero) body')
        unit.ops unit'.ops := by
    rw [hops ⟨0, 0⟩, hops' ⟨0, 0⟩]
    exact ((htells.code ⟨0, 0⟩ 0).append (.refl _)).congr (and_iff_left trivial)
  have hatoms := atoms_eq_of_texts_eq hbuild hbuild' hcode.texts
  rw [CodeUnit.code_eq_iff_ops_eq (nodup_atoms_of_build hbuild) hatoms]
  exact hcode.eq_iff

/-- **Literals are told apart up to the sign of a zero.** Two bodies that declare no function,
differ in number literals only and compile without folding, as the top level of a script or as the
body of a function, have the same code exactly if they are the same once the sign of every zero is
forgotten. No literal is compiled as another one, except `-0` as `0`. -/
theorem literals_told_apart (name filename : String) (line : UInt32) (scope : Scope)
    (body body' : List Stmt) (hfun : Stmt.functionsOfList body = [])
    (hsame : Stmt.mapList (.numbers blank) body = Stmt.mapList (.numbers blank) body') :
    (∀ unit unit' : CodeUnit,
      Program.compileToplevel ⟨filename, line, scope, body⟩ false = .ok unit →
      Program.compileToplevel ⟨filename, line, scope, body'⟩ false = .ok unit' →
        (unit.code = unit'.code ↔
          Stmt.mapList (.numbers unsignZero) body = Stmt.mapList (.numbers unsignZero) body')) ∧
    ∀ unit unit' : CodeUnit,
      FunctionDecl.compile ⟨name, line, scope, body⟩ filename false = .ok unit →
      FunctionDecl.compile ⟨name, line, scope, body'⟩ filename false = .ok unit' →
        (unit.code = unit'.code ↔
          Stmt.mapList (.numbers unsignZero) body = Stmt.mapList (.numbers unsignZero) body') := by
  refine ⟨?_, ?_⟩
  · intro unit unit' hunit hunit'
    exact UnitSource.code_eq_iff hsame hfun hunit hunit'
  · intro unit unit' hunit hunit'
    exact UnitSource.code_eq_iff hsame hfun hunit hunit'

/-- `x[z] + n;` -/
def Stmt.shifted (z n : Double) : List Stmt :=
  [.expression (.binary .add (.index (.identifier ⟨"x", .global "x"⟩) (.number z)) (.number n))]

/-- The sign of the zero does not show, and the other literal does. -/
theorem literals_told_apart_shifted :
    let body := Stmt.shifted (.zero false) (.ofNat 128)
    let body' := Stmt.shifted (.zero true) (.ofNat 129)
    Stmt.functionsOfList body = [] ∧
    Stmt.mapList (.numbers blank) body = Stmt.mapList (.numbers blank) body' ∧
      ∃ unit unit', Program.compileToplevel ⟨"a.js", 1, {}, body⟩ false = .ok unit ∧
        Program.compileToplevel ⟨"a.js", 1, {}, body'⟩ false = .ok unit' ∧
        unit.code ≠ unit'.code := by
  intro body body'
  obtain ⟨unit, hunit⟩ := Option.isSome_iff_exists.mp
    (show (Program.compileToplevel ⟨"a.js", 1, {}, body⟩ false).toOption.isSome =
      true by decide +kernel)
  obtain ⟨unit', hunit'⟩ := Option.isSome_iff_exists.mp
    (show (Program.compileToplevel ⟨"a.js", 1, {}, body'⟩ false).toOption.isSome =
      true by decide +kernel)
  replace hunit := CodeUnit.eq_ok_of_toOption hunit
  replace hunit' := CodeUnit.eq_ok_of_toOption hunit'
  have hiff := (literals_told_apart "f" "a.js" 1 {} body body' rfl rfl).1 unit unit' hunit hunit'
  refine ⟨rfl, rfl, unit, unit', hunit, hunit', ?_⟩
  intro hcode
  have hvalue : unsignZero (.ofNat 128) = unsignZero (.ofNat 129) := by
    have hbodies := hiff.mp hcode
    simp only [body, body', Stmt.shifted, Stmt.mapList, Stmt.map, Expr.map,
      Change.numbers_onBinary, Change.numbers_onNumber, List.cons.injEq,
      Stmt.expression.injEq, Expr.binary.injEq, Expr.number.injEq] at hbodies
    exact hbodies.1.2.2
  exact absurd hvalue (by decide)

/-- `-0;` is compiled to the code of `0;`, though they differ. -/
theorem negative_zero_compiled_as_zero :
    let body := [Stmt.expression (.number (.zero false))]
    let body' := [Stmt.expression (.number (.zero true))]
    body ≠ body' ∧ Stmt.functionsOfList body = [] ∧
    Stmt.mapList (.numbers blank) body = Stmt.mapList (.numbers blank) body' ∧
      ∃ unit, Program.compileToplevel ⟨"a.js", 1, {}, body⟩ false = .ok unit ∧
        Program.compileToplevel ⟨"a.js", 1, {}, body'⟩ false = .ok unit := by
  intro body body'
  let unit : CodeUnit :=
    ⟨{}, "a.js", 1, #[⟨.int8, some (.int8 0)⟩, ⟨.popv, none⟩, ⟨.stop, none⟩], #[]⟩
  refine ⟨?_, rfl, rfl, unit, CodeUnit.eq_ok_of_toOption (by decide +kernel),
    CodeUnit.eq_ok_of_toOption (by decide +kernel)⟩
  intro h
  have hvalue : Double.zero false = Double.zero true := by
    simpa [body, body'] using h
  exact absurd hvalue (by decide)

end StackCode
