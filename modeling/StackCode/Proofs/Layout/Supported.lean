import StackCode.Proofs.Layout.Tree

/-!
# Supported trees

The trees that the compiler accepts, as a grammar. A layout that is not refused is the layout of a
supported tree (`Expr.supported_of_refusal`, `Stmt.supported_of_refusal`); what is to be shown of
accepted code is then shown by induction on the grammar, where the refused forms do not come up.

Why a grammar: the recursion on trees has a case for every kind of node, and most kinds are refused.
A proof about accepted code by that recursion would have to dismiss the refused ones each time, and
for the others it would have to take the hypothesis that nothing is refused apart before it can use
what it is about. The grammar does both once. Its constructors carry what was found out on the way:
that a number has an instruction, that a string could be decoded, that the number of arguments fits.

The grammar is not the definition of what is accepted. That is the layout, and through it the
compiler. The statements here go in one direction only, since nothing needs the other.
-/

set_option autoImplicit false

namespace StackCode

/-! ## Grammar -/

/-- The expressions that are compiled. -/
inductive Expr.Supported : Expr → Prop where
  | number {value : Double} {i : Instruction} (h : Instruction.ofNumber value = .ok i) :
      Supported (.number value)
  | string {raw s : String} (h : Literal.decode raw = .ok s) : Supported (.string raw)
  | null : Supported .null
  | boolean (value : Bool) : Supported (.boolean value)
  | this : Supported .this
  | identifier (v : Variable) : Supported (.identifier v)
  /-- An array without holes, whose indices can be written as literals. -/
  | array {es : List Expr} (hlength : es.length < 4294967296)
      (hindex : ∀ k < es.length, ∃ i, Instruction.ofNumber (Double.ofNat k) = .ok i)
      (h : ∀ e ∈ es, Supported e) : Supported (.array (es.map some))
  | binary {op : BinaryOp} {opcode : OpCode} {left right : Expr} (hop : op.opcode = .ok opcode)
      (hl : Supported left) (hr : Supported right) : Supported (.binary op left right)
  | unary {op : UnaryOp} {opcode : OpCode} {argument : Expr} (hop : op.opcode = .ok opcode)
      (h : Supported argument) : Supported (.unary op argument)
  | incrementVariable (v : Variable) : Supported (.update .increment false (.identifier v))
  | incrementMember {obj : Expr} (property : String) (h : Supported obj) :
      Supported (.update .increment false (.member obj property))
  | incrementIndex {obj key : Expr} (ho : Supported obj) (hk : Supported key) :
      Supported (.update .increment false (.index obj key))
  | assignVariable (v : Variable) {value : Expr} (h : Supported value) :
      Supported (.assign .assign (.identifier v) value)
  | assignMember {obj value : Expr} (property : String) (ho : Supported obj) (h : Supported value) :
      Supported (.assign .assign (.member obj property) value)
  | assignIndex {obj key value : Expr} (ho : Supported obj) (hk : Supported key)
      (h : Supported value) : Supported (.assign .assign (.index obj key) value)
  | callName (v : Variable) {args : List Expr} (hcount : args.length < 65536)
      (h : ∀ e ∈ args, Supported e) : Supported (.call (.identifier v) args)
  | callMember {obj : Expr} (property : String) {args : List Expr} (hcount : args.length < 65536)
      (ho : Supported obj) (h : ∀ e ∈ args, Supported e) :
      Supported (.call (.member obj property) args)
  | callIndex {obj key : Expr} {args : List Expr} (hcount : args.length < 65536)
      (ho : Supported obj) (hk : Supported key) (h : ∀ e ∈ args, Supported e) :
      Supported (.call (.index obj key) args)
  | new (v : Variable) {args : List Expr} (hcount : args.length < 65536)
      (h : ∀ e ∈ args, Supported e) : Supported (.new (.identifier v) args)
  | member {obj : Expr} (property : String) (h : Supported obj) : Supported (.member obj property)
  | index {obj key : Expr} (ho : Supported obj) (hk : Supported key) : Supported (.index obj key)
  | conditional {test consequent alternate : Expr} (ht : Supported test) (hc : Supported consequent)
      (ha : Supported alternate) : Supported (.conditional test consequent alternate)
  | comma {left right : Expr} (hl : Supported left) (hr : Supported right) :
      Supported (.comma left right)

/-- The declarators that are compiled. -/
def Stmt.SupportedDeclarators (ds : List (Variable × Option Expr)) : Prop :=
  ∀ v init, (v, some init) ∈ ds → init.Supported

/-- What a `for` may start with. -/
inductive Stmt.SupportedInit : Option Stmt → Prop where
  | none : SupportedInit none
  | empty : SupportedInit (some .empty)
  | declaration {ds : List (Variable × Option Expr)} (h : SupportedDeclarators ds) :
      SupportedInit (some (.declaration .var ds))
  | expression {value : Expr} (h : value.Supported) : SupportedInit (some (.expression value))

/-- The statements that are compiled. The index says whether a loop is around the statement. -/
inductive Stmt.Supported (toplevel : Bool) : Bool → Stmt → Prop where
  | empty {inLoop : Bool} : Supported toplevel inLoop .empty
  | block {inLoop : Bool} {body : List Stmt} (h : ∀ s ∈ body, Supported toplevel inLoop s) :
      Supported toplevel inLoop (.block body)
  | expression {inLoop : Bool} {value : Expr} (h : value.Supported) :
      Supported toplevel inLoop (.expression value)
  | declaration {inLoop : Bool} {ds : List (Variable × Option Expr)} (h : SupportedDeclarators ds) :
      Supported toplevel inLoop (.declaration .var ds)
  | function {inLoop : Bool} (htop : toplevel = true) (name : String) (line : UInt32)
      (scope : Scope) (body : List Stmt) :
      Supported toplevel inLoop (.function name line scope body)
  | branch {inLoop : Bool} {test : Expr} {consequent : Stmt} {alternate : Option Stmt}
      (ht : test.Supported) (hc : Supported toplevel inLoop consequent)
      (ha : ∀ s, alternate = some s → Supported toplevel inLoop s) :
      Supported toplevel inLoop (.branch test consequent alternate)
  | whileLoop {inLoop : Bool} {test : Expr} {body : Stmt} (ht : test.Supported)
      (h : Supported toplevel true body) : Supported toplevel inLoop (.whileLoop test body)
  | forLoop {inLoop : Bool} {init : Option Stmt} {test update : Option Expr} {body : Stmt}
      (hi : SupportedInit init) (ht : ∀ e, test = some e → e.Supported)
      (hu : ∀ e, update = some e → e.Supported) (h : Supported toplevel true body) :
      Supported toplevel inLoop (.forLoop init test update body)
  | breakLoop : Supported toplevel true .breakLoop
  | continueLoop : Supported toplevel true .continueLoop
  | giveBack {inLoop : Bool} {argument : Option Expr} (h : ∀ e, argument = some e → e.Supported) :
      Supported toplevel inLoop (.giveBack argument)

/-! ## What is not refused is supported -/

section

variable {inLoop : Bool}

/-- A layout that depends on a result is there only if the result is. -/
theorem Layout.given_refusal {α : Type} {result : Except Error α} {plan : α → Layout}
    (h : (given result plan).refusal inLoop = none) :
    ∃ a, result = .ok a ∧ (plan a).refusal inLoop = none := by
  cases result with
  | ok a => exact ⟨a, rfl, h⟩
  | error e => cases h

/-- A number that is accepted has an instruction. -/
theorem Layout.number_refusal {value : Double} (h : (number value).refusal inLoop = none) :
    ∃ i, Instruction.ofNumber value = .ok i := by
  unfold number at h
  cases hi : Instruction.ofNumber value with
  | ok i => exact ⟨i, rfl⟩
  | error e =>
    rw [hi] at h
    cases h

/-- A number of arguments that is accepted fits in 16 bits. -/
theorem Operand.lt_of_ofArgCount {n : Nat} {count : Operand} (h : ofArgCount n = .ok count) :
    n < 65536 := by
  unfold ofArgCount at h
  split at h
  · assumption
  · cases h

open Layout (refusal_left refusal_right given_refusal)

namespace Expr

mutual

/-- **An expression that is not refused is supported.** -/
theorem supported_of_refusal (e : Expr) (h : e.layout.refusal inLoop = none) : e.Supported := by
  cases e with
  | number value =>
    obtain ⟨i, hi⟩ := Layout.number_refusal h
    exact .number hi
  | string raw =>
    obtain ⟨s, hs, _⟩ := given_refusal h
    exact .string hs
  | regExp pattern flags => cases h
  | null => exact .null
  | boolean value => exact .boolean value
  | this => exact .this
  | identifier v => exact .identifier v
  | array items =>
    rw [layout] at h
    split at h
    · cases h
    · rename_i hholes
      split at h
      · cases h
      · rename_i hlength
        obtain ⟨es, rfl, hindex, hes⟩ := supported_of_elements 0 items hholes
          (refusal_right (refusal_left h))
        rw [List.length_map] at hlength
        refine .array (Nat.lt_of_not_le hlength) (fun k hk => ?_) hes
        have := hindex k hk
        rwa [Nat.zero_add] at this
  | object properties => cases h
  | binary op left right =>
    obtain ⟨opcode, hop, hplan⟩ := given_refusal h
    exact .binary hop (supported_of_refusal left (refusal_left (refusal_left hplan)))
      (supported_of_refusal right (refusal_right (refusal_left hplan)))
  | unary op argument =>
    obtain ⟨opcode, hop, hplan⟩ := given_refusal h
    exact .unary hop (supported_of_refusal argument (refusal_left hplan))
  | update op before argument =>
    cases op with
    | decrement => cases h
    | increment =>
      cases before with
      | true => cases h
      | false =>
        cases argument with
        | identifier v => exact .incrementVariable v
        | member obj property =>
          exact .incrementMember property (supported_of_refusal obj (refusal_left h))
        | index obj key =>
          exact .incrementIndex (supported_of_refusal obj (refusal_left (refusal_left h)))
            (supported_of_refusal key (refusal_right (refusal_left h)))
        | _ => cases h
  | assign op target value =>
    cases op with
    | assign =>
      cases target with
      | identifier v =>
        exact .assignVariable v (supported_of_refusal value (refusal_right (refusal_left h)))
      | member obj property =>
        exact .assignMember property (supported_of_refusal obj (refusal_left (refusal_left h)))
          (supported_of_refusal value (refusal_right (refusal_left h)))
      | index obj key =>
        exact .assignIndex (supported_of_refusal obj (refusal_left (refusal_left (refusal_left h))))
          (supported_of_refusal key (refusal_right (refusal_left (refusal_left h))))
          (supported_of_refusal value (refusal_right (refusal_left h)))
      | _ => cases h
    | _ => cases h
  | call callee arguments =>
    -- The number of arguments is checked first, whatever the callee is.
    obtain ⟨count, hcount, hplan⟩ := given_refusal h
    have hlt := Operand.lt_of_ofArgCount hcount
    have hcallee := refusal_left (refusal_left hplan)
    have hargs := supported_of_list arguments (refusal_right (refusal_left hplan))
    cases callee with
    | identifier v => exact .callName v hlt hargs
    | member obj property =>
      exact .callMember property hlt (supported_of_refusal obj (refusal_left hcallee)) hargs
    | index obj key =>
      exact .callIndex hlt (supported_of_refusal obj (refusal_left (refusal_left hcallee)))
        (supported_of_refusal key (refusal_right (refusal_left hcallee))) hargs
    | _ => cases hcallee
  | new callee arguments =>
    cases callee with
    | identifier v =>
      obtain ⟨count, hcount, hplan⟩ := given_refusal h
      exact .new v (Operand.lt_of_ofArgCount hcount)
        (supported_of_list arguments (refusal_right (refusal_left hplan)))
    | _ => cases h
  | member obj property => exact .member property (supported_of_refusal obj (refusal_left h))
  | index obj key =>
    exact .index (supported_of_refusal obj (refusal_left (refusal_left h)))
      (supported_of_refusal key (refusal_right (refusal_left h)))
  | conditional test consequent alternate =>
    obtain ⟨htest, hrest⟩ := Option.or_eq_none_iff.mp h
    obtain ⟨hyes, hno⟩ := Option.or_eq_none_iff.mp hrest
    exact .conditional (supported_of_refusal test htest) (supported_of_refusal consequent hyes)
      (supported_of_refusal alternate hno)
  | comma left right =>
    exact .comma (supported_of_refusal left (refusal_left (refusal_left h)))
      (supported_of_refusal right (refusal_right h))
  | function name scope body => cases h

theorem supported_of_list (es : List Expr) (h : (listLayout es).refusal inLoop = none) :
    ∀ e ∈ es, e.Supported := by
  cases es with
  | nil => simp
  | cons e es =>
    have he := supported_of_refusal e (refusal_left h)
    have hes := supported_of_list es (refusal_right h)
    intro e' he'
    rcases List.mem_cons.mp he' with rfl | he'
    · exact he
    · exact hes e' he'

/-- The elements of an array that is not refused: no holes, and every index has an instruction. -/
theorem supported_of_elements (first : Nat) (items : List (Option Expr))
    (hholes : ¬ items.any Option.isNone = true)
    (h : (elementsLayout first items).refusal inLoop = none) :
    ∃ es : List Expr, items = es.map some ∧
      (∀ k < es.length, ∃ i, Instruction.ofNumber (Double.ofNat (first + k)) = .ok i) ∧
      ∀ e ∈ es, e.Supported := by
  cases items with
  | nil => exact ⟨[], rfl, by simp, by simp⟩
  | cons item items =>
    cases item with
    | none => exact absurd rfl hholes
    | some e =>
      -- The layout of an element is its index, its value and the instruction that sets it, in front
      -- of the rest.
      have hhead := refusal_left (refusal_left h)
      have he := supported_of_refusal e (refusal_right hhead)
      obtain ⟨i, hi⟩ := Layout.number_refusal (refusal_left hhead)
      obtain ⟨es, rfl, hindex, hes⟩ :=
        supported_of_elements (first + 1) items hholes (refusal_right h)
      refine ⟨e :: es, rfl, fun k hk => ?_, fun e' he' => ?_⟩
      · cases k with
        | zero => exact ⟨i, hi⟩
        | succ k =>
          have := hindex k (Nat.lt_of_succ_lt_succ hk)
          rwa [Nat.add_assoc, Nat.add_comm 1 k] at this
      · rcases List.mem_cons.mp he' with rfl | he'
        · exact he
        · exact hes e' he'

end

end Expr

namespace Stmt

theorem supported_of_declarators (ds : List (Variable × Option Expr))
    (h : (declaratorsLayout ds).refusal inLoop = none) : SupportedDeclarators ds := by
  induction ds with
  | nil =>
    intro v init hmem
    cases hmem
  | cons d ds ih =>
    obtain ⟨v, init⟩ := d
    cases init with
    | none =>
      intro v' init' hmem
      rcases List.mem_cons.mp hmem with heq | hmem
      · cases heq
      · exact ih h v' init' hmem
    | some init =>
      intro v' init' hmem
      rcases List.mem_cons.mp hmem with heq | hmem
      · cases heq
        exact init.supported_of_refusal
          (refusal_right (refusal_left (refusal_left (refusal_left h))))
      · exact ih (refusal_right h) v' init' hmem

/-- What a `for` that is not refused starts with. -/
theorem supported_of_forInit (init : Option Stmt) (h : (forInitLayout init).refusal inLoop = none) :
    SupportedInit init := by
  cases init with
  | none => exact .none
  | some s =>
    cases s with
    | empty => exact .empty
    | declaration kind ds =>
      cases kind with
      | var => exact .declaration (supported_of_declarators ds h)
      | lexical => cases h
      | constant => cases h
    | expression value => exact .expression (value.supported_of_refusal (refusal_left h))
    | _ => cases h

mutual

/-- **A statement that is not refused is supported.** Inside of a loop more is supported than
outside, and the body of a loop is inside. -/
theorem supported_of_refusal {toplevel inLoop : Bool} (s : Stmt)
    (h : (s.layout toplevel).refusal inLoop = none) : s.Supported toplevel inLoop := by
  cases s with
  | empty => exact .empty
  | block body => exact .block (supported_of_list body h)
  | expression value => exact .expression (value.supported_of_refusal (refusal_left h))
  | declaration kind ds =>
    cases kind with
    | var => exact .declaration (supported_of_declarators ds h)
    | lexical => cases h
    | constant => cases h
  | function name line scope body =>
    cases toplevel with
    | true => exact .function rfl name line scope body
    | false => cases h
  | branch test consequent alternate =>
    obtain ⟨htest, hrest⟩ := Option.or_eq_none_iff.mp h
    obtain ⟨hyes, hno⟩ := Option.or_eq_none_iff.mp hrest
    exact .branch (test.supported_of_refusal htest) (supported_of_refusal consequent hyes)
      (supported_of_option alternate hno)
  | whileLoop test body =>
    obtain ⟨htest, hbody⟩ := Option.or_eq_none_iff.mp h
    exact .whileLoop (test.supported_of_refusal htest) (supported_of_refusal body hbody)
  | forLoop init test update body =>
    obtain ⟨hinit, hrest⟩ := Option.or_eq_none_iff.mp h
    -- The update is laid out in front of the test, so its refusal comes first.
    obtain ⟨hupdate, hrest⟩ := Option.or_eq_none_iff.mp hrest
    obtain ⟨htest, hbody⟩ := Option.or_eq_none_iff.mp hrest
    refine .forLoop (supported_of_forInit init hinit) ?_ ?_ (supported_of_refusal body hbody)
    · rintro e rfl
      exact e.supported_of_refusal htest
    · rintro e rfl
      exact e.supported_of_refusal (refusal_left hupdate)
  | breakLoop =>
    cases inLoop with
    | true => exact .breakLoop
    | false => cases h
  | continueLoop =>
    cases inLoop with
    | true => exact .continueLoop
    | false => cases h
  | giveBack argument =>
    refine .giveBack ?_
    rintro e rfl
    exact e.supported_of_refusal (refusal_left h)
  | _ => cases h

theorem supported_of_option {toplevel inLoop : Bool} (s : Option Stmt)
    (h : (optionLayout toplevel s).refusal inLoop = none) :
    ∀ s', s = some s' → s'.Supported toplevel inLoop := by
  cases s with
  | none =>
    intro s' hs
    cases hs
  | some s =>
    intro s' hs
    cases hs
    exact supported_of_refusal s h

theorem supported_of_list {toplevel inLoop : Bool} (ss : List Stmt)
    (h : (listLayout toplevel ss).refusal inLoop = none) :
    ∀ s ∈ ss, s.Supported toplevel inLoop := by
  cases ss with
  | nil => simp
  | cons s ss =>
    have hhead := supported_of_refusal s (refusal_left h)
    have htail := supported_of_list ss (refusal_right h)
    intro s' hs
    rcases List.mem_cons.mp hs with rfl | hs
    · exact hhead
    · exact htail s' hs

end

end Stmt

end

/-! ## Layouts of supported forms

Where the layout begins with a result, as it does for a call, an array, an operator and a string,
the grammar says that the result is there. The equations below are the layouts without it. -/

/-- The number of arguments fits its operand. -/
theorem Operand.ofArgCount_of_lt {n : Nat} (h : n < 65536) :
    ofArgCount n = .ok (.argCount (UInt16.ofNat n)) :=
  if_pos h

theorem toNat_argCount {n : Nat} (h : n < 65536) : (UInt16.ofNat n).toNat = n :=
  Nat.mod_eq_of_lt h

namespace Expr

theorem layout_array {es : List Expr} (h : es.length < 4294967296) :
    (Expr.array (es.map some)).layout =
      .ofOps [.operand .newArray (.length es.length)] ++ elementsLayout 0 (es.map some) ++
        .ofOps [.bare .endInit] := by
  have hholes : ¬ (es.map some).any Option.isNone = true := by simp
  rw [layout, if_neg hholes, List.length_map, if_neg (Nat.not_le_of_lt h)]

theorem layout_call {callee : Expr} {args : List Expr} (h : args.length < 65536) :
    (Expr.call callee args).layout = callee.functionLayout ++ listLayout args ++
      .ofOps [.operand .call (.argCount (UInt16.ofNat args.length))] := by
  rw [layout, Operand.ofArgCount_of_lt h]
  rfl

theorem layout_new (v : Variable) {args : List Expr} (h : args.length < 65536) :
    (Expr.new (.identifier v) args).layout = .ofOps [v.load, .bare .push] ++ listLayout args ++
      .ofOps [.operand .new (.argCount (UInt16.ofNat args.length))] := by
  rw [layout, Operand.ofArgCount_of_lt h]
  rfl

theorem layout_binary {op : BinaryOp} {opcode : OpCode} (h : op.opcode = .ok opcode)
    (left right : Expr) :
    (Expr.binary op left right).layout = left.layout ++ right.layout ++ .ofOps [.bare opcode] := by
  rw [layout, h]
  rfl

theorem layout_unary {op : UnaryOp} {opcode : OpCode} (h : op.opcode = .ok opcode)
    (argument : Expr) :
    (Expr.unary op argument).layout = argument.layout ++ .ofOps [.bare opcode] := by
  rw [layout, h]
  rfl

theorem layout_string {raw s : String} (h : Literal.decode raw = .ok s) :
    (Expr.string raw).layout = .ofOps [.text .string s] := by
  rw [layout, h]
  rfl

end Expr

end StackCode
