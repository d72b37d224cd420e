import StackCode.Proofs.Acceptance
import StackCode.Proofs.Double.Nearest
import StackCode.Proofs.Layout.Refusal
import StackCode.Proofs.Log.Units

/-!
# Folding refuses by range only

A script that compiles without folding has only literals of 32 bits in it. Folding replaces sums of
them by new literals, which may need more bits: then the script is refused, and this is the only way
in which folding can refuse it.

Two things are to be shown. A sum of literals stands for an integer again, however it is rounded on
the way (`Expr.Supported.toInt?_deepFold`): it cannot become infinite, since the number of its nodes
bounds its absolute value. And folding changes nothing else that could be refused: by induction on
the grammar of what is compiled, the layout of a folded tree is refused, if at all, for a literal
that is an integer out of range.

## The bound on the size

The main statement assumes that the script has fewer than 2^496 nodes. Doubles end below 2^1024, and
a sum of accepted literals with that many nodes stays below. For some larger size a sum is infinite
and is refused for not being an integer, so a hypothesis of this kind is needed in a statement about
all trees. The number in it is what the argument yields and is not sharp.

A sum need not be exact. From 2^53 on an addition rounds, and the result is an integer all the same,
though not the sum of the integers. The bound therefore allows each addition an error as large as
its smaller operand, which is more than rounding ever does.
-/

set_option autoImplicit false

namespace StackCode

/-! ## Sums of literals

The bound is on the number of nodes and not on the number of literals, since sizes are what the
induction on trees has at hand. -/

/-- An operation stays what it is or becomes a literal. -/
theorem Expr.combine_cases (op : BinaryOp) (left right : Expr) :
    combine op left right = .binary op left right ∨ ∃ value,
      combine op left right = .number value := by
  unfold combine
  split
  · exact Or.inr ⟨_, rfl⟩
  · exact Or.inl rfl

/-- A literal that compiles is an integer of 32 bits. -/
theorem Instruction.natAbs_le_of_ofNumber {value : Double} {i : Instruction}
    (h : ofNumber value = .ok i) :
    ∃ n, value.toInt? = some n ∧ n.natAbs ≤ 2147483648 := by
  have hint32 : value.isInt32 = true := by
    rw [← isOk_ofNumber, h]
    rfl
  obtain ⟨n, hn, hrange⟩ := (Option.any_eq_true _ _).mp hint32
  rw [decide_eq_true_eq] at hrange
  exact ⟨n, hn, by omega⟩

/-- What bounds the absolute value of a sum of literals that has so many nodes. Where a sum is
rounded, it is off by no more than the smaller of its operands; so the bound grows with the square
of the number of nodes. -/
def Expr.sumBound (size : Nat) : Nat :=
  2147483648 * (size * size)

namespace Expr

theorem sumBound_mono {m n : Nat} (h : m ≤ n) : sumBound m ≤ sumBound n :=
  Nat.mul_le_mul_left _ (Nat.mul_le_mul h h)

theorem sumBound_lt {size i : Nat} (h : size < 2 ^ i) : sumBound size < 2 ^ (31 + (i + i)) := by
  have hsquare : size * size < 2 ^ i * 2 ^ i := Nat.mul_lt_mul'' h h
  calc 2147483648 * (size * size) < 2 ^ 31 * (2 ^ i * 2 ^ i) :=
    Nat.mul_lt_mul_of_pos_left hsquare (by decide)
    _ = 2 ^ (31 + (i + i)) := by rw [Nat.pow_add, Nat.pow_add]

/-- The bound of a sum covers those of its operands and the error of one addition. -/
theorem sumBound_add_le (m n : Nat) :
    sumBound m + sumBound n + min (sumBound m) (sumBound n) ≤ sumBound (1 + m + n) := by
  have hmin : min (m * m) (n * n) ≤ m * n := by
    rcases Nat.le_total m n with h | h
    · exact Nat.le_trans (Nat.min_le_left _ _) (Nat.mul_le_mul_left m h)
    · exact Nat.le_trans (Nat.min_le_right _ _) (Nat.mul_le_mul_right n h)
  have hsquare : (m + n) * (m + n) = m * m + n * n + 2 * (m * n) := by
    rw [Nat.add_mul, Nat.mul_add, Nat.mul_add, Nat.mul_comm n m]
    omega
  have hmono : sumBound (m + n) ≤ sumBound (1 + m + n) := sumBound_mono (by omega)
  unfold sumBound at *
  omega

/-- **A sum of literals stands for an integer**, and not for an infinity: for that it would take
more literals than any script has. -/
theorem Supported.toInt?_deepFold {e : Expr} {i : Nat} {value : Double} (h : e.Supported)
    (hi : i ≤ 496) (hsize : e.size < 2 ^ i) (hvalue : (e.map .deepFold).number? = some value) :
    ∃ n, value.toInt? = some n ∧ n.natAbs ≤ sumBound e.size := by
  induction h generalizing value with
  | number hi =>
    cases hvalue
    exact Instruction.natAbs_le_of_ofNumber hi
  | @binary op opcode left right hop hl hr ihl ihr =>
    by_cases hadd : op = .add
    · subst hadd
      rw [map_deepFold_binary] at hvalue
      rcases number?_cases (left.map .deepFold) (right.map .deepFold) with ⟨x, y, hx, hy⟩ | hnone
      · have hlt := sumBound_lt hsize
        rw [size] at hsize hlt ⊢
        obtain ⟨a, ha, habs⟩ := ihl (by omega) hx
        obtain ⟨b, hb, hbabs⟩ := ihr (by omega) hy
        have hstep := sumBound_add_le left.size right.size
        -- The sum is off by no more than the smaller of the two, and the bound of the whole has
        -- room for that.
        obtain ⟨c, hc, hcabs⟩ := Double.toInt?_add (i := 31 + (i + i)) ha hb (by omega) (by omega)
        rw [combine_add_of_number hx hy] at hvalue
        cases hvalue
        exact ⟨c, hc, by omega⟩
      · rw [combine_add_of_not_number hnone] at hvalue
        cases hvalue
    · rw [map_deepFold_binary, number?_combine_of_ne_add hadd] at hvalue
      cases hvalue
  | _ => cases hvalue

end Expr

/-! ## Sizes of parts -/

theorem Expr.elementsSize_map_some (es : List Expr) : elementsSize (es.map some) = listSize es := by
  induction es with
  | nil => rfl
  | cons e es ih => exact congrArg (e.size + ·) ih

namespace Stmt

mutual

/-- A function is smaller than the statement that declares it. -/
theorem listSize_lt_of_mem_functions (s : Stmt) (f : FunctionDecl) (hf : f ∈ s.functions) :
    listSize f.body < s.size := by
  cases s with
  | function name line scope body =>
    cases List.mem_singleton.mp hf
    exact Nat.lt_add_of_pos_left Nat.one_pos
  | block body =>
    have := listSize_le_of_mem_functionsOfList body f hf
    rw [size]
    omega
  | branch test consequent alternate =>
    rw [size]
    rcases List.mem_append.mp hf with hf | hf
    · have := listSize_lt_of_mem_functions consequent f hf
      omega
    · have := listSize_le_of_mem_functionsOfOption alternate f hf
      omega
  | whileLoop test body =>
    have := listSize_lt_of_mem_functions body f hf
    rw [size]
    omega
  | forLoop init test update body =>
    have := listSize_lt_of_mem_functions body f hf
    rw [size]
    omega
  | _ => cases hf

theorem listSize_le_of_mem_functionsOfOption (s : Option Stmt) (f : FunctionDecl)
    (hf : f ∈ functionsOfOption s) :
    listSize f.body ≤ optionSize s := by
  cases s with
  | none => cases hf
  | some s => exact Nat.le_of_lt (listSize_lt_of_mem_functions s f hf)

theorem listSize_le_of_mem_functionsOfList (ss : List Stmt) (f : FunctionDecl)
    (hf : f ∈ functionsOfList ss) :
    listSize f.body ≤ listSize ss := by
  cases ss with
  | nil => cases hf
  | cons s ss =>
    rw [listSize.eq_2 s ss]
    rcases List.mem_append.mp hf with hf | hf
    · have := listSize_lt_of_mem_functions s f hf
      omega
    · have := listSize_le_of_mem_functionsOfList ss f hf
      omega

end

end Stmt

/-- No unit of a script is larger than the script. -/
theorem Program.listSize_le_of_mem_sources {p : Program} {source : UnitSource}
    (h : source ∈ p.sources) :
    Stmt.listSize source.body.statements ≤ Stmt.listSize p.body := by
  rcases List.mem_append.mp h with h | h
  · obtain ⟨f, hf, rfl⟩ := List.mem_map.mp h
    exact Stmt.listSize_le_of_mem_functionsOfList p.body f hf
  · cases List.mem_singleton.mp h
    exact Nat.le_refl _

/-! ## What a folded tree is refused for

One case for each form of the grammar. In all but additions and literals the folded tree has the
same outermost node as before, and its parts are covered by the induction. -/

/-- The error is that of an integer that does not fit 32 bits with a sign. -/
def Error.OutOfRange (e : Error) : Prop :=
  ∃ value n, e = .numberTooLarge value ∧ value.toInt? = some n ∧ (n < -2147483648 ∨ 2147483648 ≤ n)

open Layout (refusedFor_ofOps refusedFor_of_eq_none)

/-- A literal that stands for an integer is refused by range, if at all. -/
theorem Layout.refusedFor_number {inLoop : Bool} {value : Double} {n : Int}
    (h : value.toInt? = some n) :
    (number value).RefusedFor Error.OutOfRange inLoop := by
  have hpush := Instruction.isSome_pushInt? n
  unfold number Instruction.ofNumber
  rw [h]
  dsimp only
  cases hi : Instruction.pushInt? n with
  | some i => exact refusedFor_ofOps _
  | none =>
    rw [hi] at hpush
    refine Layout.refusedFor_refused ⟨value, n, rfl, h, ?_⟩
    have hrange : ¬ (-2147483648 ≤ n ∧ n < 2147483648) := of_decide_eq_false hpush.symm
    omega

namespace Expr

variable {inLoop : Bool} {i : Nat}

theorem refusedFor_listLayout {P : Error → Prop} {es : List Expr}
    (h : ∀ e ∈ es, (e.map .deepFold).layout.RefusedFor P inLoop) :
    (listLayout (mapList .deepFold es)).RefusedFor P inLoop := by
  induction es with
  | nil => exact refusedFor_ofOps []
  | cons e es ih =>
    obtain ⟨he, hes⟩ := List.forall_mem_cons.mp h
    exact he.append (ih hes)

/-- The indices of the elements stay what they are. -/
theorem refusedFor_elementsLayout {P : Error → Prop} {es : List Expr} (first : Nat)
    (hindex : ∀ k < es.length, ∃ i, Instruction.ofNumber (Double.ofNat (first + k)) = .ok i)
    (h : ∀ e ∈ es, (e.map .deepFold).layout.RefusedFor P inLoop) :
    (elementsLayout first ((mapList .deepFold es).map some)).RefusedFor P inLoop := by
  induction es generalizing first with
  | nil => exact refusedFor_ofOps []
  | cons e es ih =>
    obtain ⟨he, hes⟩ := List.forall_mem_cons.mp h
    obtain ⟨i, hi⟩ := hindex 0 (Nat.zero_lt_succ _)
    have hnumber : (Layout.number (Double.ofNat first)).refusal inLoop = none := by
      rw [Layout.number_refusal_eq_none_iff, ← Instruction.isOk_ofNumber]
      rw [Nat.add_zero] at hi
      rw [hi]
      rfl
    have hrest := ih (first + 1) (fun k hk => by
      rw [Nat.add_assoc, Nat.add_comm 1 k]
      exact hindex (k + 1) (Nat.succ_lt_succ hk)) hes
    exact (((refusedFor_of_eq_none hnumber).append he).append (refusedFor_ofOps _)).append hrest

/-- A call keeps its number of arguments, so it is refused for its parts only. -/
theorem refusedFor_call {P : Error → Prop} {callee : Expr} {args : List Expr}
    (hcount : args.length < 65536)
    (hcallee : (callee.map .deepFold).functionLayout.RefusedFor P inLoop)
    (h : ∀ e ∈ args, (e.map .deepFold).layout.RefusedFor P inLoop) :
    ((Expr.call callee args).map .deepFold).layout.RefusedFor P inLoop := by
  rw [map_deepFold_call, layout_call (by rwa [length_mapList])]
  exact (hcallee.append (refusedFor_listLayout h)).append (refusedFor_ofOps _)

/-- **What folding makes of an expression that compiles is refused by range only.** -/
theorem Supported.refusedFor_deepFold {e : Expr} (h : e.Supported) (hi : i ≤ 496)
    (hsize : e.size < 2 ^ i) :
    (e.map .deepFold).layout.RefusedFor Error.OutOfRange inLoop := by
  induction h with
  | number hnumber =>
    obtain ⟨n, hn, _⟩ := Instruction.natAbs_le_of_ofNumber hnumber
    exact Layout.refusedFor_number hn
  | string hdecode =>
    rw [map, layout_string hdecode]
    exact refusedFor_ofOps _
  | null => exact refusedFor_ofOps _
  | boolean value => exact refusedFor_ofOps _
  | this => exact refusedFor_ofOps _
  | identifier v => exact refusedFor_ofOps _
  | @array es hlength hindex h ih =>
    rw [size, elementsSize_map_some] at hsize
    rw [map, mapElements_map_some, layout_array (by rwa [length_mapList])]
    have helements := refusedFor_elementsLayout 0 (by simpa using hindex) fun e he =>
      ih e he (Nat.lt_of_le_of_lt (size_le_listSize he) (by omega))
    exact ((refusedFor_ofOps _).append helements).append (refusedFor_ofOps _)
  | @binary op opcode left right hop hl hr ihl ihr =>
    -- An operation that stays one is refused for its operands; one that became a literal is refused
    -- for its range.
    rcases combine_cases op (left.map .deepFold) (right.map .deepFold) with heq | ⟨value, heq⟩
    · rw [size] at hsize
      rw [map_deepFold_binary, heq, layout_binary hop]
      exact ((ihl (by omega)).append (ihr (by omega))).append (refusedFor_ofOps _)
    · have hvalue : ((Expr.binary op left right).map .deepFold).number? = some value := by
        rw [map_deepFold_binary, heq]
        rfl
      obtain ⟨n, hn, _⟩ := (Supported.binary hop hl hr).toInt?_deepFold hi hsize hvalue
      rw [map_deepFold_binary, heq]
      exact Layout.refusedFor_number hn
  | unary hop h ih =>
    rw [size] at hsize
    rw [map, layout_unary hop]
    exact (ih (by omega)).append (refusedFor_ofOps _)
  | incrementVariable v => exact refusedFor_ofOps _
  | incrementMember property h ih =>
    -- From here on a node is what it was, and its parts are smaller.
    simp only [size] at hsize
    exact (ih (by omega)).append (refusedFor_ofOps _)
  | incrementIndex ho hk iho ihk =>
    simp only [size] at hsize
    exact ((iho (by omega)).append (ihk (by omega))).append (refusedFor_ofOps _)
  | assignVariable v h ih =>
    simp only [size] at hsize
    exact ((refusedFor_ofOps _).append (ih (by omega))).append (refusedFor_ofOps _)
  | assignMember property ho h iho ih =>
    simp only [size] at hsize
    exact ((iho (by omega)).append (ih (by omega))).append (refusedFor_ofOps _)
  | assignIndex ho hk h iho ihk ih =>
    simp only [size] at hsize
    exact (((iho (by omega)).append (ihk (by omega))).append (ih (by omega))).append
      (refusedFor_ofOps _)
  | callName v hcount h ih =>
    rw [size] at hsize
    refine refusedFor_call hcount (refusedFor_ofOps _) fun e he => ih e he ?_
    exact Nat.lt_of_le_of_lt (size_le_listSize he) (by omega)
  | callMember property hcount ho h iho ih =>
    simp only [size] at hsize
    refine refusedFor_call hcount ((iho (by omega)).append (refusedFor_ofOps _)) fun e he =>
      ih e he ?_
    exact Nat.lt_of_le_of_lt (size_le_listSize he) (by omega)
  | callIndex hcount ho hk h iho ihk ih =>
    simp only [size] at hsize
    have hcallee := (iho (by omega)).append (ihk (by omega))
    refine refusedFor_call hcount (hcallee.append (refusedFor_ofOps _)) fun e he => ih e he ?_
    exact Nat.lt_of_le_of_lt (size_le_listSize he) (by omega)
  | new v hcount h ih =>
    rw [size] at hsize
    rw [map, map, Change.deepFold_onReference, layout_new v (by rwa [length_mapList])]
    have hlist := refusedFor_listLayout fun e he =>
      ih e he (Nat.lt_of_le_of_lt (size_le_listSize he) (by omega))
    exact ((refusedFor_ofOps _).append hlist).append (refusedFor_ofOps _)
  | member property h ih =>
    rw [size] at hsize
    exact (ih (by omega)).append (refusedFor_ofOps _)
  | index ho hk iho ihk =>
    rw [size] at hsize
    exact ((iho (by omega)).append (ihk (by omega))).append (refusedFor_ofOps _)
  | conditional ht hc ha iht ihc iha =>
    rw [size] at hsize
    exact (iht (by omega)).branch (ihc (by omega)) (iha (by omega))
  | comma hl hr ihl ihr =>
    rw [size] at hsize
    exact ((ihl (by omega)).append (refusedFor_ofOps _)).append (ihr (by omega))

end Expr

namespace Stmt

variable {inLoop : Bool} {i : Nat}

theorem SupportedDeclarators.refusedFor_deepFold {ds : List (Variable × Option Expr)}
    (h : SupportedDeclarators ds) (hi : i ≤ 496) (hsize : declaratorsSize ds < 2 ^ i) :
    (declaratorsLayout (mapDeclarators .deepFold ds)).RefusedFor Error.OutOfRange inLoop := by
  induction ds with
  | nil => exact refusedFor_ofOps []
  | cons d ds ih =>
    obtain ⟨v, init⟩ := d
    rw [declaratorsSize, declaratorSize] at hsize
    have hrest := ih (fun v init hmem => h v init (List.mem_cons_of_mem _ hmem)) (by omega)
    cases init with
    | none => exact hrest
    | some init =>
      have hinit : (init.map .deepFold).layout.RefusedFor Error.OutOfRange inLoop :=
        (h v init List.mem_cons_self).refusedFor_deepFold hi
          (Nat.lt_of_le_of_lt (Nat.le_add_right _ _) hsize)
      have hstore := ((refusedFor_ofOps v.target).append hinit).append (refusedFor_ofOps [v.write])
      exact (hstore.append (refusedFor_ofOps _)).append hrest

theorem SupportedInit.refusedFor_deepFold {init : Option Stmt} (h : SupportedInit init)
    (hi : i ≤ 496) (hsize : optionSize init < 2 ^ i) :
    (forInitLayout (mapOption .deepFold init)).RefusedFor Error.OutOfRange inLoop := by
  cases h with
  | none => exact refusedFor_ofOps []
  | empty => exact refusedFor_ofOps []
  | declaration h =>
    rw [optionSize, size] at hsize
    exact h.refusedFor_deepFold hi (by omega)
  | expression h =>
    rw [optionSize, size] at hsize
    exact (h.refusedFor_deepFold hi (by omega)).append (refusedFor_ofOps _)

theorem refusedFor_forUpdateLayout {update : Option Expr} (h : ∀ e, update = some e → e.Supported)
    (hi : i ≤ 496) (hsize : Expr.optionSize update < 2 ^ i) :
    (forUpdateLayout (Expr.mapOption .deepFold update)).RefusedFor Error.OutOfRange inLoop := by
  cases update with
  | none => exact refusedFor_ofOps []
  | some e => exact ((h e rfl).refusedFor_deepFold hi hsize).append (refusedFor_ofOps _)

theorem refusedFor_listLayout {P : Error → Prop} {toplevel : Bool} {ss : List Stmt}
    (h : ∀ s ∈ ss, ((s.map .deepFold).layout toplevel).RefusedFor P inLoop) :
    (listLayout toplevel (mapList .deepFold ss)).RefusedFor P inLoop := by
  induction ss with
  | nil => exact refusedFor_ofOps []
  | cons s ss ih =>
    obtain ⟨hs, hss⟩ := List.forall_mem_cons.mp h
    exact hs.append (ih hss)

/-- **What folding makes of a statement that compiles is refused by range only.** -/
theorem Supported.refusedFor_deepFold {toplevel : Bool} {s : Stmt}
    (h : s.Supported toplevel inLoop) (hi : i ≤ 496) (hsize : s.size < 2 ^ i) :
    ((s.map .deepFold).layout toplevel).RefusedFor Error.OutOfRange inLoop := by
  induction h with
  | empty => exact refusedFor_ofOps []
  | block h ih =>
    rw [size] at hsize
    exact refusedFor_listLayout fun s hs =>
      ih s hs (Nat.lt_of_le_of_lt (size_le_listSize hs) (by omega))
  | expression h =>
    rw [size] at hsize
    exact (h.refusedFor_deepFold hi (by omega)).append (refusedFor_ofOps _)
  | declaration h =>
    rw [size] at hsize
    exact h.refusedFor_deepFold hi (by omega)
  | function htop name line scope body =>
    subst htop
    exact refusedFor_ofOps []
  | @branch inLoop test consequent alternate ht hc ha ihc iha =>
    rw [size] at hsize
    refine (ht.refusedFor_deepFold hi (by omega)).branch (ihc (by omega)) ?_
    cases alternate with
    | none => exact refusedFor_ofOps []
    | some s => exact iha s rfl (Nat.lt_of_le_of_lt (Nat.le_add_left _ _) hsize)
  | whileLoop ht h ih =>
    rw [size] at hsize
    exact (ht.refusedFor_deepFold hi (by omega)).whileLoop (ih (by omega))
  | @forLoop inLoop init test update body hinit ht hu h ih =>
    rw [size] at hsize
    refine (hinit.refusedFor_deepFold hi (by omega)).forLoop
      (refusedFor_forUpdateLayout hu hi (by omega)) ?_ (ih (by omega))
    cases test with
    | none => exact nofun
    | some e =>
      rw [Expr.optionSize] at hsize
      rintro t ⟨⟩
      exact (ht e rfl).refusedFor_deepFold hi (by omega)
  | breakLoop => exact refusedFor_of_eq_none rfl
  | continueLoop => exact refusedFor_of_eq_none rfl
  | @giveBack inLoop argument h =>
    cases argument with
    | none => exact refusedFor_ofOps _
    | some e =>
      rw [size, Expr.optionSize] at hsize
      exact ((h e rfl).refusedFor_deepFold hi (by omega)).append (refusedFor_ofOps _)

end Stmt

/-! ## Scripts -/

/-- **Folding refuses by range only.** A script that compiles without folding compiles with folding
to as many units, or is refused with the error of a number that is too large, for an integer that
indeed does not fit 32 bits.

The size says that the script is one that can be written down. It keeps sums of literals below the
largest finite number; a sum that overflows to an infinity would be refused as one with a fraction
is. -/
theorem compile_fold_eq_ok_or_outOfRange {p : Program} {file : ObjectFile}
    (hsize : Stmt.listSize p.body < 2 ^ 496) (h : p.compile false = .ok file) :
    (∃ folded, p.compile true = .ok folded ∧ folded.units.size = file.units.size) ∨
      ∃ e, p.compile true = .error e ∧ e.cause.OutOfRange := by
  cases hfold : p.compile true with
  | ok folded =>
    left
    exact ⟨folded, rfl, by rw [Program.size_units hfold, Program.size_units h]⟩
  | error e =>
    right
    refine ⟨e, rfl, ?_⟩
    obtain ⟨source, hsource, herror⟩ := Program.source_of_error hfold
    obtain ⟨unit, hunit⟩ := Program.build_of_compile h hsource
    have hplain := source.isCodeOf_build p.filename false
    rw [hunit] at hplain
    have hfolded := source.isCodeOf_build p.filename true
    rw [herror] at hfolded
    have hsupported := Stmt.supported_of_list source.body.statements hplain.of_ok.1
    refine Stmt.refusedFor_listLayout (fun s hs => ?_) e.cause hfolded.of_error
    apply (hsupported s hs).refusedFor_deepFold (Nat.le_refl 496)
    exact Nat.lt_of_le_of_lt
      (Nat.le_trans (Stmt.size_le_listSize hs) (Program.listSize_le_of_mem_sources hsource)) hsize

/-- `function f() { return 2147483647 + 1; } f(1 + 2);` -/
def Program.overflow : Program where
  filename := "overflow.js"
  body :=
    [.function "f" 1 {}
      [.giveBack (some (.binary .add (.number (.ofNat 2147483647)) (.number (.ofNat 1))))],
        .expression (.call (.identifier ⟨"f", .global "f"⟩)
          [.binary .add (.number (.ofNat 1)) (.number (.ofNat 2))])]

theorem compile_fold_eq_ok_or_outOfRange_overflow :
    Stmt.listSize Program.overflow.body < 2 ^ 496 ∧
      ∃ file e, Program.overflow.compile false = .ok file ∧
      Program.overflow.compile true = .error e ∧
        e.cause.OutOfRange := by
  have hpow (i : Nat) : i < 2 ^ i := Nat.lt_two_pow_self
  have hsize : Stmt.listSize Program.overflow.body < 2 ^ 496 :=
    Nat.lt_of_le_of_lt (by decide) (hpow 496)
  refine ⟨hsize, ?_⟩
  have hok : (Program.overflow.compile false).isOk = true := by decide +kernel
  have hrefused : (Program.overflow.compile true).isOk = false := by decide +kernel
  cases hfile : Program.overflow.compile false with
  | error e =>
    rw [hfile] at hok
    cases hok
  | ok file =>
    rcases compile_fold_eq_ok_or_outOfRange hsize hfile with ⟨folded, hfolded, _⟩ | ⟨e, he, hrange⟩
    · rw [hfolded] at hrefused
      cases hrefused
    · exact ⟨file, e, rfl, he, hrange⟩

end StackCode
