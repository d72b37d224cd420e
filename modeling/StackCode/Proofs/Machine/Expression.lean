import StackCode.Proofs.Double.Exact
import StackCode.Proofs.Layout.Supported
import StackCode.Proofs.Machine.Meaning
import StackCode.Proofs.Machine.Reach

/-!
# The code of expressions

A layout *computes* an effect if the machine follows the effect with its code, wherever the code is
placed and whatever is below on the stack. The code of every expression computes the value of the
expression.

The stack below is arbitrary but for what the code takes off it. So the rule for sequences can put
the results of one piece under the next (`Computes.frame`), and the evaluation of a tree never has
to mention what its surroundings have pushed.

An effect that has no outcome is followed by a run that goes nowhere. This is part of what it means
to compute, and it comes for free in the rules: a sequence has no outcome if its first part has
none.

The order of evaluation is that of the tree. Where the code takes its operands off the stack in the
opposite order the rule for the instruction turns them around; where an instruction comes before the
operands, as it does for the target of a global, the tree has an effect there as well.
-/

set_option autoImplicit false

namespace StackCode

open Machine

variable {V S E α β : Type}

/-- The layout takes `before` off the stack, does what the effect does, and pushes what `after`
makes of its result. The head of a list is the top of the stack. -/
def Layout.Computes (P : Primitives V S E) (plan : Layout) (before : List V) (m : Effect S E α)
    (after : α → List V) : Prop :=
  ∀ code t a, CodeAt code a (plan.code t a) → ∀ stack σ,
    Follows P code a (before ++ stack) σ m fun x => (a + plan.size, after x ++ stack)

/-! ## Rules

The combinators of layouts against those of the monad. -/

namespace Layout

variable {P : Primitives V S E} {p q s : Layout} {before mid : List V} {m : Effect S E α}
  {after : α → List V}

/-- A layout without code computes what has no effect. -/
theorem Computes.nothing {x : α} (h : after x = before) :
    nothing.Computes P before (pure x) after := by
  subst h
  exact fun _ _ _ _ _ _ => .pure .refl

/-- An instruction that does not jump. -/
theorem Computes.op {o : Op}
    (h : ∀ pc stack σ, exec P o ⟨pc, before ++ stack, σ⟩ =
      proceed pc σ ((m >>= fun x => pure (after x ++ stack)) σ.store)) :
    (ofOps [o]).Computes P before m after := by
  intro code t a hcode stack σ
  have hstep : step P code ⟨a, before ++ stack, σ⟩ =
      proceed a σ ((m >>= fun x => pure (after x ++ stack)) σ.store) := by
    rw [step_of_getElem? P code hcode.head, h]
  unfold Follows
  split
  · rename_i x s hm
    rw [Effect.bind_of_ok hm] at hstep
    exact .single hstep
  · rename_i e s hm
    rw [Effect.bind_of_error hm] at hstep
    exact ⟨_, .refl, hstep⟩
  · rename_i hm
    rw [Effect.bind_of_none hm] at hstep
    exact ⟨_, .refl, hstep⟩

/-- What is below on the stack stays there. -/
theorem Computes.frame (h : p.Computes P before m after) (below : List V) :
    p.Computes P (before ++ below) m fun x => after x ++ below := by
  intro code t a hcode stack σ
  have := h code t a hcode (below ++ stack) σ
  simpa only [List.append_assoc] using this

/-- In sequence. The second part need only be followed for results that the first one can have. -/
theorem Computes.append_of_gives {f : α → Effect S E β} {after' : β → List V}
    (h : p.Computes P before m after) (h' : ∀ x, m.Gives x → q.Computes P (after x) (f x) after') :
    (p ++ q).Computes P before (m >>= f) after' := by
  intro code t a hcode stack σ
  have hq := hcode.right (b := a + p.size) (by rw [length_code])
  have hsize : a + (p ++ q).size = a + p.size + q.size := (Nat.add_assoc a p.size q.size).symm
  rw [hsize]
  exact (h code t a hcode.left stack σ).bind fun x hx σ' => h' x hx code t _ hq stack σ'

theorem Computes.append {f : α → Effect S E β} {after' : β → List V}
    (h : p.Computes P before m after) (h' : ∀ x, q.Computes P (after x) (f x) after') :
    (p ++ q).Computes P before (m >>= f) after' :=
  h.append_of_gives fun x _ => h' x

/-- Code that has no effect but on the stack. -/
theorem Computes.append_pure {x : β} {before : List V} {mid : β → List V}
    (h : p.Computes P before (pure x) mid) (h' : q.Computes P (mid x) m after) :
    (p ++ q).Computes P before m after := by
  intro code t a hcode stack σ
  have hq := hcode.right (b := a + p.size) (by rw [length_code])
  have hsize : a + (p ++ q).size = a + p.size + q.size := (Nat.add_assoc a p.size q.size).symm
  rw [hsize]
  exact .of_steps (s := σ.store) (h code t a hcode.left stack σ) (h' code t _ hq stack σ) rfl

/-- The result of the effect may be made into another one. -/
theorem Computes.map {f : α → β} {after' : β → List V}
    (h : p.Computes P before m fun x => after' (f x)) :
    p.Computes P before (m >>= fun x => pure (f x)) after' := fun code t a hcode stack σ =>
  (h code t a hcode stack σ).bind fun _ _ _ => .pure .refl

/-- The parts of a branch, and where they stand. -/
theorem codeAt_branch {code : List Op} {t : LoopTargets} {a : Nat}
    (h : CodeAt code a ((Layout.branch p q s).code t a)) :
    CodeAt code a (p.code t a) ∧
      code[a + p.size]? = some (.jump .ifEq (a + p.size + q.size + 2)) ∧
      CodeAt code (a + p.size + 1) (q.code t (a + p.size + 1)) ∧
      code[a + p.size + 1 + q.size]? = some (.jump .goto (a + p.size + q.size + s.size + 2)) ∧
      CodeAt code (a + p.size + q.size + 2) (s.code t (a + p.size + q.size + 2)) := by
  have hyes := h.left.right (b := a + p.size) (by rw [length_code])
  have hno := h.right (b := a + p.size + 1 + q.size) (by
    rw [List.length_append, List.length_cons, length_code, length_code]
    omega)
  have hplace : a + p.size + 1 + q.size + 1 = a + p.size + q.size + 2 := by omega
  exact ⟨h.left.left, hyes.head, hyes.tail, hno.head, hplace ▸ hno.tail⟩

/-- Exactly one of the two parts of a branch is run. -/
theorem Computes.branch {mt : Effect S E V} {my mn : Effect S E α}
    (htest : p.Computes P [] mt fun v => [v]) (hyes : q.Computes P [] my after)
    (hno : s.Computes P [] mn after) :
    (Layout.branch p q s).Computes P [] (mt >>= fun v => if P.truthy v then my else mn) after := by
  intro code t a hcode stack σ
  obtain ⟨hptest, hifEq, hpyes, hgoto, hpno⟩ := codeAt_branch hcode
  have hend : a + (Layout.branch p q s).size = a + p.size + q.size + s.size + 2 := by
    simp only [Layout.branch]
    omega
  rw [hend]
  refine (htest code t a hptest stack σ).bind fun v _ σ' => ?_
  by_cases hv : P.truthy v = true
  · rw [if_pos hv]
    refine .of_steps (s := σ'.store) (steps_ifEq_truthy hifEq hv) ?_ rfl
    exact (hyes code t _ hpyes stack σ').steps fun _ _ => steps_goto hgoto
  · rw [if_neg hv]
    refine .of_steps (s := σ'.store) (steps_ifEq_falsy hifEq hv) ?_ rfl
    have hplace : a + p.size + q.size + 2 + s.size = a + p.size + q.size + s.size + 2 := by omega
    rw [← hplace]
    exact hno code t _ hpno stack σ'

end Layout

/-! ## Instructions -/

section

variable (P : Primitives V S E)

/-- The layout pushes the value that the effect gives. -/
abbrev Layout.Evaluates (plan : Layout) (m : Effect S E V) : Prop :=
  plan.Computes P [] m fun v => [v]

theorem Layout.computes_pop (v : V) : (ofOps [.bare .pop]).Computes P [v] (pure ()) fun _ => [] :=
  .op fun _ _ _ => rfl

theorem Op.exec_of_integer? {o : Op} {n : Int} (h : o.integer? = some n) (c : Config V S) :
    exec P o c = some (.inl ⟨c.pc + 1, P.integer n :: c.stack, c.state⟩) := by
  rcases integer?_eq_some h with ⟨rfl, rfl⟩ | ⟨v, rfl, rfl⟩ | ⟨v, rfl, rfl⟩ |
    ⟨v, rfl, rfl⟩ | ⟨v, rfl, rfl⟩
  all_goals rfl

/-- A literal denotes its integer. -/
theorem Layout.evaluates_number {value : Double} {i : Instruction} {n : Int}
    (h : Instruction.ofNumber value = .ok i) (hn : value.toInt? = some n) :
    (number value).Evaluates P (pure (P.integer n)) := by
  obtain ⟨k, hk, hpush⟩ := Op.integer?_ofNumber h
  cases hn.symm.trans hk
  unfold number
  rw [h]
  exact .op fun _ _ _ => Op.exec_of_integer? P hpush _

/-- The right operand is on top. -/
theorem BinaryOp.computes_opcode {op : BinaryOp} {opcode : OpCode} (h : op.opcode = .ok opcode)
    (x y : V) : (Layout.ofOps [.bare opcode]).Computes P [y, x] (P.binary op x y) fun v => [v] := by
  refine .op fun pc stack σ => ?_
  cases op <;> cases h <;> rfl

theorem UnaryOp.computes_opcode {op : UnaryOp} {opcode : OpCode} (h : op.opcode = .ok opcode)
    (x : V) :
    (Layout.ofOps [.bare opcode]).Computes P [x] (P.unary op x) fun v => [v] := by
  refine .op fun pc stack σ => ?_
  cases op <;> cases h
  rfl

end

/-! ## Variables -/

namespace Variable

variable (P : Primitives V S E) (v : Variable)

theorem evaluates_load : (Layout.ofOps [v.load]).Evaluates P (v.read P) := by
  unfold load read
  cases v.binding with
  | parameter slot => exact .op fun _ _ _ => rfl
  | localSlot slot => exact .op fun _ _ _ => rfl
  | global name => exact .op fun _ _ _ => rfl

/-- The target of a global is on the stack, below the value, before the value is computed. -/
theorem evaluates_store {value : Layout} {m : Effect S E V} (h : value.Evaluates P m) :
    (v.store value).Evaluates P (v.assign P m) := by
  unfold store target write assign
  cases v.binding with
  | parameter slot =>
    have hwrite : ∀ x, (Layout.ofOps [.operand .setArg (.slot slot)]).Computes P [x]
        (P.setArg slot x) fun _ => [x] := fun x => .op fun _ _ _ => rfl
    rw [show Layout.ofOps [] = .nothing from rfl, Layout.nothing_append]
    exact h.append fun x => .map (hwrite x)
  | localSlot slot =>
    have hwrite : ∀ x, (Layout.ofOps [.operand .setLocal (.slot slot)]).Computes P [x]
        (P.setLocal slot x) fun _ => [x] := fun x => .op fun _ _ _ => rfl
    rw [show Layout.ofOps [] = .nothing from rfl, Layout.nothing_append]
    exact h.append fun x => .map (hwrite x)
  | global name =>
    have hbind : (Layout.ofOps [.text .bindGlobal name]).Evaluates P (P.bindGlobal name) :=
      .op fun _ _ _ => rfl
    have hwrite : ∀ target x, (Layout.ofOps [.text .setGlobal name]).Computes P [x, target]
        (P.setGlobal name target x) fun _ => [x] := fun target x => .op fun _ _ _ => rfl
    rw [Layout.append_assoc]
    exact hbind.append fun target => (h.frame [target]).append fun x => .map (hwrite target x)

/-- An increment of a variable reads it twice and leaves what was read first. -/
theorem evaluates_increment : (Layout.ofOps v.increment).Evaluates P (v.postIncrement P) := by
  have hone : (Layout.ofOps [.bare .one]).Evaluates P (pure (P.integer 1)) := .op fun _ _ _ => rfl
  have hadd := BinaryOp.computes_opcode P (show BinaryOp.add.opcode = .ok .add from rfl)
  have hnew : (Layout.ofOps [v.load] ++ (.ofOps [.bare .one] ++ .ofOps [.bare .add])).Evaluates P
      (v.read P >>= fun x => P.binary .add x (P.integer 1)) :=
    (v.evaluates_load P).append fun x => (hone.frame [x]).append_pure (hadd x (P.integer 1))
  have hplan : Layout.ofOps v.increment = .ofOps [v.load] ++
      (v.store (.ofOps [v.load] ++ (.ofOps [.bare .one] ++ .ofOps [.bare .add])) ++
        .ofOps [.bare .pop]) := by
    simp only [increment, store, Layout.ofOps_append, List.append_assoc, List.cons_append,
      List.nil_append]
  rw [hplan]
  refine (v.evaluates_load P).append fun old => ?_
  refine ((v.evaluates_store P hnew).frame [old]).append fun x => ?_
  exact .map ((Layout.computes_pop P x).frame [old])

end Variable

/-- Incrementing a property of the object on top of the stack. -/
theorem Op.computes_incrementProperty (P : Primitives V S E) (property : String) (o : V) :
    (Layout.ofOps (incrementProperty property)).Computes P [o]
      (do
        let old ← P.getProp o property
        let new ← P.binary .add old (P.integer 1)
        P.setProp o property new
        P.binary .subtract new (P.integer 1))
      fun v => [v] := by
  have hdup : (Layout.ofOps [.bare .dup]).Computes P [o] (pure ()) fun _ => [o, o] :=
    .op fun _ _ _ => rfl
  have hget : (Layout.ofOps [.text .getProp property]).Computes P [o]
      (P.getProp o property) fun v => [v] :=
    .op fun _ _ _ => rfl
  have hset : ∀ x,
      (Layout.ofOps [.text .setProp property]).Computes P [x, o] (P.setProp o property x)
      fun _ => [x] := fun x => .op fun _ _ _ => rfl
  have hone : (Layout.ofOps [.bare .one]).Evaluates P (pure (P.integer 1)) := .op fun _ _ _ => rfl
  have hadd := BinaryOp.computes_opcode P (show BinaryOp.add.opcode = .ok .add from rfl)
  have hsub := BinaryOp.computes_opcode P (show BinaryOp.subtract.opcode = .ok .sub from rfl)
  -- One instruction after the other. The object is pushed twice, for reading and for writing, and
  -- the old value is computed at the end.
  have hplan : Layout.ofOps (incrementProperty property) = .ofOps [.bare .dup] ++
      (.ofOps [.text .getProp property] ++ (.ofOps [.bare .one] ++ (.ofOps [.bare .add] ++
        (.ofOps [.text .setProp property] ++ (.ofOps [.bare .one] ++ .ofOps [.bare .sub]))))) := rfl
  rw [hplan]
  refine hdup.append_pure ((hget.frame [o]).append fun old => ?_)
  refine (hone.frame [old, o]).append_pure (((hadd old _).frame [o]).append fun new => ?_)
  exact (hset new).append fun _ => (hone.frame [new]).append_pure (hsub new _)

/-! ## Lists of expressions -/

namespace Expr

variable {P : Primitives V S E}

theorem length_of_evalList {es : List Expr} {xs : List V} (h : (evalList P es).Gives xs) :
    xs.length = es.length := by
  induction es generalizing xs with
  | nil =>
    rw [h.of_pure]
    rfl
  | cons e es ih =>
    obtain ⟨x, _, h⟩ := h.of_bind
    obtain ⟨xs', hxs, h⟩ := h.of_bind
    rw [h.of_pure, List.length_cons, List.length_cons, ih hxs]

/-- The last argument ends up on top. -/
theorem computes_list {es : List Expr} (h : ∀ e ∈ es, e.layout.Evaluates P (e.eval P)) :
    (listLayout es).Computes P [] (evalList P es) List.reverse := by
  induction es with
  | nil => exact .nothing rfl
  | cons e es ih =>
    have hes := ih fun e' he' => h e' (List.mem_cons_of_mem e he')
    refine (h e List.mem_cons_self).append fun x => .map ?_
    simp only [List.reverse_cons]
    exact hes.frame [x]

/-- The elements are set in order, each at its index. -/
theorem computes_elements {es : List Expr} (array : V) (first : Nat)
    (hlength : first + es.length < 4294967296)
    (hindex : ∀ k < es.length, ∃ i, Instruction.ofNumber (Double.ofNat (first + k)) = .ok i)
    (h : ∀ e ∈ es, e.layout.Evaluates P (e.eval P)) :
    (elementsLayout first (es.map some)).Computes P [array]
    (evalElements P array first (es.map some))
      fun _ => [array] := by
  induction es generalizing first with
  | nil => exact .nothing rfl
  | cons e es ih =>
    rw [List.length_cons] at hlength
    obtain ⟨i, hi⟩ := hindex 0 (Nat.zero_lt_succ _)
    have hnumber := Layout.evaluates_number P hi (Double.toInt?_ofNat (by omega))
    have hinit : ∀ x, (Layout.ofOps [.bare .initElem]).Computes P [x, P.integer first, array]
        (P.initElem array (P.integer first) x) fun _ => [array] := fun x => .op fun _ _ _ => rfl
    have hrest := ih (first + 1) (by omega) (fun k hk => by
      have := hindex (k + 1) (Nat.succ_lt_succ hk)
      rwa [Nat.add_comm k 1, ← Nat.add_assoc] at this)
      fun e' he' => h e' (List.mem_cons_of_mem e he')
    rw [List.map_cons, elementsLayout, Layout.append_assoc, Layout.append_assoc]
    refine (hnumber.frame [array]).append_pure ?_
    refine ((h e List.mem_cons_self).frame [P.integer first, array]).append fun x => ?_
    exact (hinit x).append fun _ => hrest

/-! ## Calls

The operand of a call says how many arguments it takes. That there are so many on the stack is the
one thing here that is not by the form of the code: it follows from how many arguments were
evaluated. -/

/-- A call finds its arguments in order, then the receiver and the function. -/
theorem invoke_append (call : V → V → List V → Effect S E V) (f receiver : V) (xs rest : List V) :
    Op.invoke call xs.length (xs.reverse ++ receiver :: f :: rest) =
      some (call f receiver xs >>= fun v => pure (v :: rest)) := by
  have hlength : xs.reverse.length = xs.length := List.length_reverse
  unfold Op.invoke
  rw [List.drop_left' hlength, List.take_left' hlength, List.reverse_reverse]

/-- Arguments, and the instruction that calls the function below them. -/
theorem computes_invoke {args : List Expr} {o : Op} {call : V → V → List V → Effect S E V}
    (hcount : args.length < 65536)
    (ho : ∀ pc stack σ, exec P o ⟨pc, stack, σ⟩ =
      attempt pc σ (Op.invoke call (UInt16.ofNat args.length).toNat stack))
    (hargs : ∀ e ∈ args, e.layout.Evaluates P (e.eval P)) (f receiver : V) :
    (listLayout args ++ .ofOps [o]).Computes P [receiver, f] (evalList P args >>= call f receiver)
      fun v => [v] := by
  -- That as many values were pushed as the instruction takes is a property of the evaluation, not
  -- of the stack.
  refine ((computes_list hargs).frame [receiver, f]).append_of_gives fun xs hxs =>
    .op fun pc stack σ => ?_
  have hn : (UInt16.ofNat args.length).toNat = xs.length := by
    rw [toNat_argCount hcount, length_of_evalList hxs]
  have hinvoke := invoke_append call f receiver xs stack
  rw [ho, hn, List.append_assoc]
  exact congrArg (attempt pc σ) hinvoke

/-- A call evaluates its callee, then its arguments, and then calls. -/
theorem evaluates_call {callee : Expr} {args : List Expr} (hcount : args.length < 65536)
    (hcallee : callee.functionLayout.Computes P [] (callee.evalCallee P) fun c => [c.2, c.1])
    (hargs : ∀ e ∈ args, e.layout.Evaluates P (e.eval P)) :
    (Expr.call callee args).layout.Evaluates P ((Expr.call callee args).eval P) := by
  rw [layout_call hcount, Layout.append_assoc, eval]
  exact hcallee.append fun c => computes_invoke hcount (fun _ _ _ => rfl) hargs c.1 c.2

/-- A construction does the same with a variable for its callee. -/
theorem evaluates_new (v : Variable) {args : List Expr} (hcount : args.length < 65536)
    (hargs : ∀ e ∈ args, e.layout.Evaluates P (e.eval P)) :
    (Expr.new (.identifier v) args).layout.Evaluates P
      ((Expr.new (.identifier v) args).eval P) := by
  have hpush : (Layout.ofOps [.bare .push]).Evaluates P (pure P.undefined) := .op fun _ _ _ => rfl
  have hplan : Layout.ofOps [v.load, .bare .push] = .ofOps [v.load] ++ .ofOps [.bare .push] := rfl
  rw [layout_new v hcount, hplan, Layout.append_assoc, Layout.append_assoc, eval]
  refine (v.evaluates_load P).append fun f => (hpush.frame [f]).append_pure ?_
  exact computes_invoke hcount (fun _ _ _ => rfl) hargs f P.undefined

end Expr

/-! ## Expressions -/

/-- **The code of an expression computes its value.** -/
theorem Expr.Supported.evaluates (P : Primitives V S E) {e : Expr} (h : e.Supported) :
    e.layout.Evaluates P (e.eval P) := by
  induction h with
  | number h =>
    obtain ⟨n, hn, _⟩ := Op.integer?_ofNumber h
    rw [eval, hn]
    exact Layout.evaluates_number P h hn
  | string h =>
    rw [layout_string h, eval, h]
    exact .op fun _ _ _ => rfl
  | null => exact .op fun _ _ _ => rfl
  | boolean value =>
    cases value with
    | true => exact .op fun _ _ _ => rfl
    | false => exact .op fun _ _ _ => rfl
  | this => exact .op fun _ _ _ => rfl
  | identifier v => exact v.evaluates_load P
  | @array es hlength hindex _ ih =>
    have hnew : (Layout.ofOps [.operand .newArray (.length es.length)]).Evaluates P
        (P.newArray es.length) :=
      .op fun _ _ _ => rfl
    have hend : ∀ array, (Layout.ofOps [.bare .endInit]).Computes P [array] (P.endInit array)
        fun v => [v] := fun array => .op fun _ _ _ => rfl
    rw [layout_array hlength, Layout.append_assoc, eval, List.length_map]
    refine hnew.append fun array => ?_
    refine (computes_elements array 0 ?_ ?_ ih).append fun _ => hend array
    · rwa [Nat.zero_add]
    · simpa only [Nat.zero_add] using hindex
  | binary hop _ _ ihl ihr =>
    rw [layout_binary hop, Layout.append_assoc, eval]
    exact ihl.append fun x => (ihr.frame [x]).append fun y => BinaryOp.computes_opcode P hop x y
  | unary hop _ ih =>
    rw [layout_unary hop, eval]
    exact ih.append fun x => UnaryOp.computes_opcode P hop x
  | incrementVariable v => exact v.evaluates_increment P
  | incrementMember property _ ih =>
    exact ih.append fun o => Op.computes_incrementProperty P property o
  | @incrementIndex obj key _ _ iho ihk =>
    show (obj.layout ++ key.layout ++ .ofOps [.bare .incElem]).Evaluates P _
    rw [Layout.append_assoc]
    exact iho.append fun o => (ihk.frame [o]).append fun k => .op fun _ _ _ => rfl
  | assignVariable v _ ih => exact v.evaluates_store P ih
  | @assignMember obj value property _ _ iho ih =>
    have hset : ∀ o x, (Layout.ofOps [.text .setProp property]).Computes P [x, o]
        (P.setProp o property x) fun _ => [x] := fun o x => .op fun _ _ _ => rfl
    show (obj.layout ++ value.layout ++ .ofOps [.text .setProp property]).Evaluates P _
    rw [Layout.append_assoc]
    exact iho.append fun o => (ih.frame [o]).append fun x => .map (hset o x)
  | @assignIndex obj key value _ _ _ iho ihk ih =>
    have hset : ∀ o k x, (Layout.ofOps [.bare .setElem]).Computes P [x, k, o] (P.setElem o k x)
        fun _ => [x] := fun o k x => .op fun _ _ _ => rfl
    show (obj.layout ++ key.layout ++ value.layout ++ .ofOps [.bare .setElem]).Evaluates P _
    rw [Layout.append_assoc, Layout.append_assoc]
    exact iho.append fun o => (ihk.frame [o]).append fun k => (ih.frame [k, o]).append fun x =>
      .map (hset o k x)
  | callName v hcount _ ih =>
    have hlookup : (Layout.ofOps [.text .callGlobal v.name]).Computes P [] (P.globalFunction v.name)
        fun f => [P.undefined, f] := .op fun _ _ _ => rfl
    exact evaluates_call hcount (.map hlookup) ih
  -- The object is taken off and comes back as the receiver, on top of the function.
  | @callMember obj property args hcount _ _ iho ih =>
    have hlookup :
        ∀ o, (Layout.ofOps [.text .callProp property]).Computes P [o] (P.method o property)
        fun f => [o, f] := fun o => .op fun _ _ _ => rfl
    exact evaluates_call hcount (iho.append fun o => .map (hlookup o)) ih
  | @callIndex obj key args hcount _ _ _ iho ihk ih =>
    have hlookup : ∀ o k, (Layout.ofOps [.bare .callElem]).Computes P [k, o] (P.methodAt o k)
        fun f => [o, f] := fun o k => .op fun _ _ _ => rfl
    refine evaluates_call hcount ?_ ih
    show (obj.layout ++ key.layout ++ .ofOps [.bare .callElem]).Computes P [] _ _
    rw [Layout.append_assoc]
    exact iho.append fun o => (ihk.frame [o]).append fun k => .map (hlookup o k)
  | new v hcount _ ih => exact evaluates_new v hcount ih
  | member property _ ih => exact ih.append fun o => .op fun _ _ _ => rfl
  | @index obj key _ _ iho ihk =>
    show (obj.layout ++ key.layout ++ .ofOps [.bare .getElem]).Evaluates P _
    rw [Layout.append_assoc]
    exact iho.append fun o => (ihk.frame [o]).append fun k => .op fun _ _ _ => rfl
  | conditional _ _ _ iht ihc iha => exact iht.branch ihc iha
  | @comma left right _ _ ihl ihr =>
    show (left.layout ++ .ofOps [.bare .pop] ++ right.layout).Evaluates P _
    rw [Layout.append_assoc]
    exact ihl.append fun x => (Layout.computes_pop P x).append_pure ihr

end StackCode
