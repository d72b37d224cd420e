import StackCode.Proofs.Double.Exact
import StackCode.Proofs.Tree.Form
import StackCode.Tree.Reader

/-!
# Reading a written tree

Whatever text writes a program, reading it gives the program back. Each decoder fits the form of its
values (`Fits`): those of scalars by themselves, those of lists and records if the decoders of their
parts do. A node is decoded one level at a time, so the decoders of nodes fit by induction on the
depth of the JSON value.

The program and its scope are read while the text is scanned, its statements only afterwards. So
records are treated for both at once where they occur in both.

## What is assumed, and what is not

Two relations stand between a program and a text: the value that writes the program, and the text
that writes the value. Both are relations and not functions, so the statement covers every order of
entries, every additional entry, every amount of blanks and every spelling of strings. The one
condition is on the depth, which has to be within what the reader allows.

A text of the JSON grammar may still fail to be such a text, and the theorem says nothing about it
then. Strings and names with the escape of a surrogate that has no partner are the case in point:
they stand for no characters, so no value has them, and the reader refuses them wherever it keeps
what it reads (`unpaired_surrogate_not_read`).

That different programs have different texts is a consequence: a text is read in one way.
-/

set_option autoImplicit false

namespace StackCode

open Json (Decoder Fits Given Reader Record Tagged depthOfEntries depthOfItems)
open Json.Fields (accepts_required accepts_optional)

/-! ## Scalars and lists

For the decoders, and for the readers of those that occur in a program outside of its statements. -/

section

variable {α : Type} {depth : Nat}

theorem decodes_text : Fits Decoder.Decodes depth Form.text Decoder.text := by
  intro s j h _
  subst h
  rfl

theorem reads_text : Fits Reader.Reads depth Form.text Reader.text := by
  intro s j h _
  subst h
  exact Reader.reads_scalar rfl rfl

theorem decodes_boolean : Fits Decoder.Decodes depth Form.boolean Decoder.boolean := by
  intro b j h _
  subst h
  rfl

theorem decode_word {bits n : Nat} (h : n < 1 <<< bits) :
    Decoder.word bits (.number (.integer n)) = .ok n := by
  rw [Decoder.word, if_pos, Int.toNat_natCast]
  rw [Int.toNat_natCast]
  exact ⟨Int.natCast_nonneg n, h⟩

theorem decodes_word16 : Fits Decoder.Decodes depth Form.word16 Decoder.word16 := by
  intro n j h _
  subst h
  rw [Decoder.Decodes, Decoder.word16, Decoder.map, decode_word n.toNat_lt, Except.map,
    UInt16.ofNat_toNat]

theorem decode_word32 (n : UInt32) : Decoder.word32 (.number (.integer n.toNat)) = .ok n := by
  rw [Decoder.word32, Decoder.map, decode_word n.toNat_lt, Except.map, UInt32.ofNat_toNat]

theorem decodes_word32 : Fits Decoder.Decodes depth Form.word32 Decoder.word32 := by
  intro n j h _
  subst h
  exact decode_word32 n

theorem reads_word32 : Fits Reader.Reads depth Form.word32 Reader.word32 := by
  intro n j h _
  subst h
  exact Reader.reads_scalar rfl (decode_word32 n)

/-- A number of a tree is written as an integer and read as a double, without loss. -/
theorem decodes_integer : Fits Decoder.Decodes depth Form.integer Decoder.real := by
  intro x j h _
  obtain ⟨n, hn, hzero, rfl⟩ := h
  rw [Decoder.Decodes, Decoder.real, Double.ofInt_of_toInt? hn hzero]

theorem decodes_choice {symbol : α → String} {choices : List (String × α)}
    (h : ∀ a, choices.lookup (symbol a) = some a) :
    Fits Decoder.Decodes depth (fun a => Form.text (symbol a)) (Decoder.choice choices) := by
  intro a j hj _
  subst hj
  rw [Decoder.Decodes, Decoder.choice, Decoder.named, h]

/-- A value that may be null. Nothing else may be written as null, or the two could not be told
apart. -/
theorem decodes_nullable {form : Form α} {decode : Decoder α}
    (h : Fits Decoder.Decodes depth form decode) (hnull : ∀ a, ¬ form a .null) :
    Fits Decoder.Decodes depth (Form.nullable form) (Decoder.nullable decode) := by
  intro a j hform hdepth
  cases a with
  | none =>
    subst hform
    rfl
  | some a =>
    have hj := h a j hform hdepth
    cases j with
    -- A value that is there must not be taken for one that is not.
    | null => exact absurd hform (hnull a)
    | _ =>
      simp only [Decoder.Decodes] at hj ⊢
      rw [Decoder.nullable, hj, Except.map]
      · intro heq
        cases heq

/-- The items of a list that fit are read one by one. -/
theorem forall₂_reads {R : Type → Type} {reads : {β : Type} → R β → Json → β → Prop}
    {form : Form α} {read : R α} (h : Fits reads depth form read) {as : List α} {js : List Json}
    (hform : List.Forall₂ form as js) (hdepth : depthOfItems js ≤ depth) :
    List.Forall₂ (reads read) js as := by
  induction hform with
  | nil => exact .nil
  | cons hj _ ih =>
    obtain ⟨hhead, htail⟩ := Nat.max_le.mp hdepth
    exact .cons (h _ _ hj hhead) (ih htail)

theorem mapM_of_decodes {decode : Decoder α} {js : List Json} {as : List α}
    (h : List.Forall₂ decode.Decodes js as) : js.mapM decode = .ok as := by
  induction h with
  | nil => rfl
  | cons hj _ ih =>
    rw [List.mapM_cons, hj, ih]
    rfl

theorem decodes_list {form : Form α} {decode : Decoder α}
    (h : Fits Decoder.Decodes depth form decode) :
    Fits Decoder.Decodes depth (Form.list form) (Decoder.list decode) := by
  intro as j hform hdepth
  obtain ⟨js, rfl, hitems⟩ := hform
  exact mapM_of_decodes (forall₂_reads h hitems (Nat.le_of_succ_le hdepth))

theorem reads_list {form : Form α} {read : Reader α} (h : Fits Reader.Reads depth form read) :
    Fits Reader.Reads (depth + 1) (Form.list form) (Reader.list read) := by
  intro as j hform hdepth
  obtain ⟨js, rfl, hitems⟩ := hform
  exact Reader.reads_list (forall₂_reads h hitems (Nat.le_of_succ_le_succ hdepth))

end

/-! ## Records and tagged nodes

What the entries of an object have to give, and that the decoder then makes the record. The names of
the fields have to be different, which is checked once for each record. -/

section

variable {α : Type} {depth : Nat} {entries : α → List (String × Json) → Prop}

theorem object_ne_null (a : α) : ¬ Form.object entries a .null := by
  intro h
  obtain ⟨es, heq, -⟩ := h
  cases heq

/-- A record is decoded from its written form if its entries make it. -/
theorem decodes_record {r : Record Decoder α} (hnodup : r.fields.names.Nodup)
    (h : ∀ a es, entries a es → r.fields.Accepts Decoder.Decodes depth r.make es a) :
    Fits Decoder.Decodes depth (Form.object entries) (Decoder.record r) := by
  intro a j hform hdepth
  obtain ⟨es, rfl, hentries⟩ := hform
  exact Decoder.record_of_accepts (h a es hentries) hnodup (Nat.le_of_succ_le hdepth)

/-- A record is read from its written form if its entries make it. -/
theorem reads_record {r : Record Reader α} (hnodup : r.fields.names.Nodup)
    (h : ∀ a es, entries a es → r.fields.Accepts Reader.Reads depth r.make es a) :
    Fits Reader.Reads (depth + 1) (Form.object entries) (Reader.record r) := by
  intro a j hform hdepth
  obtain ⟨es, rfl, hentries⟩ := hform
  exact Reader.record_of_accepts (h a es hentries) hnodup (Nat.le_of_succ_le_succ hdepth)

/-- A node whose tag selects a record is what the other entries make. -/
theorem selects_record {t : Tagged α} {tag : String} {r : Record Decoder α}
    {es : List (String × Json)} {a : α} (htag : Given es t.key (Form.text tag))
    (hnamed : Decoder.named t.variants tag = .ok (Decoder.record r))
    (hnames : (t.key :: r.fields.names).Nodup) (hdepth : depthOfEntries es ≤ depth)
    (h : r.fields.Accepts Decoder.Decodes depth r.make es a) : t.Selects es a :=
  ⟨tag, _, htag, hnamed, Decoder.record_of_accepts_others h hnames hdepth⟩

theorem selects_map {β : Type} {f : β → α} {t : Tagged α} {tag : String} {r : Record Decoder β}
    {es : List (String × Json)} {b : β} (htag : Given es t.key (Form.text tag))
    (hnamed : Decoder.named t.variants tag = .ok (Decoder.map f (Decoder.record r)))
    (hnames : (t.key :: r.fields.names).Nodup) (hdepth : depthOfEntries es ≤ depth)
    (h : r.fields.Accepts Decoder.Decodes depth r.make es b) : t.Selects es (f b) := by
  refine ⟨tag, _, htag, hnamed, ?_⟩
  have hbody := Decoder.record_of_accepts_others h hnames hdepth
  rw [Decoder.Decodes] at hbody ⊢
  rw [Decoder.map, hbody, Except.map]

/-- The entries of a node, of limited depth, tell how to decode it. -/
def Selecting (depth : Nat) (entries : α → List (String × Json) → Prop) (t : Tagged α) : Prop :=
  ∀ a es, entries a es → depthOfEntries es ≤ depth → t.Selects es a

theorem Selecting.decodes {t : Tagged α} (h : Selecting depth entries t) :
    Fits Decoder.Decodes (depth + 1) (Form.object entries) t.decode := by
  intro a j hform hdepth
  obtain ⟨es, rfl, hentries⟩ := hform
  exact (h a es hentries (Nat.le_of_succ_le_succ hdepth)).decodes

theorem Selecting.reads {t : Tagged α} (h : Selecting depth entries t) :
    Fits Reader.Reads (depth + 1) (Form.object entries) (Reader.tagged t (depth + 1)) := by
  intro a j hform hdepth
  obtain ⟨es, rfl, hentries⟩ := hform
  have hes := Nat.le_of_succ_le_succ hdepth
  exact (h a es hentries hes).reads hes

end

/-! ## Scopes, bindings, variables -/

section

variable {depth : Nat}

theorem Scope.accepts {R : Type → Type} {reads : {β : Type} → R β → Json → β → Prop}
    {names : R (List String)} (h : Fits reads depth (Form.list Form.text) names) (scope : Scope)
    (es : List (String × Json)) (hes : scope.Entries es) :
    (Scope.record names).fields.Accepts reads depth (Scope.record names).make es scope := by
  obtain ⟨hparameters, hlocals⟩ := hes
  exact accepts_optional h hparameters <| accepts_optional h hlocals rfl

theorem decodes_scope : Fits Decoder.Decodes depth Scope.form Scope.decode :=
  decodes_record (of_decide_eq_true rfl) (Scope.accepts (decodes_list decodes_text))

theorem reads_scope : Fits Reader.Reads (depth + 2) Scope.form Scope.reader :=
  reads_record (of_decide_eq_true rfl) (Scope.accepts (reads_list reads_text))

theorem selecting_binding : Selecting depth Binding.Entries Binding.tagged := by
  intro b es h hdepth
  cases b with
  | parameter slot =>
    obtain ⟨htag, hslot⟩ := h
    exact selects_record htag rfl (of_decide_eq_true rfl) hdepth
      (accepts_required decodes_word16 hslot rfl)
  | localSlot slot =>
    obtain ⟨htag, hslot⟩ := h
    exact selects_record htag rfl (of_decide_eq_true rfl) hdepth
      (accepts_required decodes_word16 hslot rfl)
  | global name =>
    obtain ⟨htag, hname⟩ := h
    exact selects_record htag rfl (of_decide_eq_true rfl) hdepth
      (accepts_required decodes_text hname rfl)

theorem decodes_binding :
    Fits Decoder.Decodes depth (Form.object Binding.Entries) Binding.tagged.decode := by
  intro b j hform hdepth
  exact selecting_binding.decodes b j hform (Nat.le_succ_of_le hdepth)

theorem decodes_variable : Fits Decoder.Decodes depth Variable.form Variable.decode := by
  refine decodes_record (of_decide_eq_true rfl) fun v es h => ?_
  obtain ⟨hname, hbinding⟩ := h
  exact accepts_required decodes_text hname <| accepts_required decodes_binding hbinding rfl

end

/-! ## Expressions and statements

One level of a node. The forms and the decoders of what is inside are arguments, and it is assumed
that these fit. -/

/-- The decoders decode what the forms write, up to a depth. -/
structure NodesFit (depth : Nat) (forms : NodeForms) (decoders : NodeDecoders) : Prop where
  expr : Fits Decoder.Decodes depth forms.expr decoders.expr
  stmt : Fits Decoder.Decodes depth forms.stmt decoders.stmt
  expr_ne_null : ∀ e, ¬ forms.expr e .null
  stmt_ne_null : ∀ s, ¬ forms.stmt s .null

section

variable {depth : Nat} {forms : NodeForms} {inner : NodeDecoders}

theorem decodes_property (h : NodesFit depth forms inner) :
    Fits Decoder.Decodes depth (Form.object (Expr.PropertyEntries forms.expr))
      (Decoder.record (Expr.property inner.expr)) := by
  refine decodes_record (of_decide_eq_true rfl) fun property es hes => ?_
  obtain ⟨hkey, hvalue⟩ := hes
  exact accepts_required decodes_text hkey <| accepts_required h.expr hvalue rfl

theorem decodes_block (h : NodesFit depth forms inner) :
    Fits Decoder.Decodes depth (Form.object (Stmt.BlockEntries forms.stmt))
      (Decoder.record (Stmt.blockRecord inner.stmt)) := by
  refine decodes_record (of_decide_eq_true rfl) fun body es hes => ?_
  exact accepts_required (decodes_list h.stmt) hes rfl

theorem decodes_declarator (h : NodesFit depth forms inner) :
    Fits Decoder.Decodes depth (Form.object (Stmt.DeclaratorEntries forms.expr))
      (Decoder.record (Stmt.declarator inner.expr)) := by
  refine decodes_record (of_decide_eq_true rfl) fun declarator es hes => ?_
  obtain ⟨hid, hinit⟩ := hes
  exact accepts_required decodes_variable hid <|
    accepts_optional (decodes_nullable h.expr h.expr_ne_null) hinit rfl

theorem decodes_switchCase (h : NodesFit depth forms inner) :
    Fits Decoder.Decodes depth (Form.object (Stmt.CaseEntries forms.expr forms.stmt))
      (Decoder.record (Stmt.switchCase inner.expr inner.stmt)) := by
  refine decodes_record (of_decide_eq_true rfl) fun case es hes => ?_
  obtain ⟨htest, hconsequent⟩ := hes
  exact accepts_optional (decodes_nullable h.expr h.expr_ne_null) htest <|
    accepts_required (decodes_list h.stmt) hconsequent rfl

theorem text_ne_null (s : String) : ¬ Form.text s .null := by
  intro h
  cases h

/-- **One level of an expression**: its entries tell how to decode it if the decoders of the nodes
inside fit. -/
theorem selecting_expr (h : NodesFit depth forms inner) :
    Selecting depth (Expr.Entries forms.expr forms.stmt) (Expr.tagged inner) := by
  intro e es hes hdepth
  -- The entries of each form are those that its decoder asks for, in the order of its fields. That
  -- the names of the fields are different is decided.
  cases e with
  | number value =>
    obtain ⟨htag, hvalue⟩ := hes
    exact selects_record htag rfl (of_decide_eq_true rfl) hdepth
      (accepts_required decodes_integer hvalue rfl)
  | string raw =>
    obtain ⟨htag, hraw⟩ := hes
    exact selects_record htag rfl (of_decide_eq_true rfl) hdepth
      (accepts_required decodes_text hraw rfl)
  | regExp pattern flags =>
    obtain ⟨htag, hpattern, hflags⟩ := hes
    exact selects_record htag rfl (of_decide_eq_true rfl) hdepth <|
      accepts_required decodes_text hpattern <| accepts_optional decodes_text hflags rfl
  | null => exact ⟨_, _, hes, rfl, rfl⟩
  | boolean value =>
    cases value with
    | true => exact ⟨_, _, hes, rfl, rfl⟩
    | false => exact ⟨_, _, hes, rfl, rfl⟩
  | this => exact ⟨_, _, hes, rfl, rfl⟩
  | identifier v =>
    obtain ⟨htag, hname, hbinding⟩ := hes
    exact selects_map htag rfl (of_decide_eq_true rfl) hdepth <|
      accepts_required decodes_text hname <| accepts_required decodes_binding hbinding rfl
  | array elements =>
    obtain ⟨htag, helements⟩ := hes
    exact selects_record htag rfl (of_decide_eq_true rfl) hdepth <|
      accepts_required (decodes_list (decodes_nullable h.expr h.expr_ne_null)) helements rfl
  | object properties =>
    obtain ⟨htag, hproperties⟩ := hes
    exact selects_record htag rfl (of_decide_eq_true rfl) hdepth <|
      accepts_required (decodes_list (decodes_property h)) hproperties rfl
  | binary op left right =>
    obtain ⟨htag, hop, hleft, hright⟩ := hes
    exact selects_record htag rfl (of_decide_eq_true rfl) hdepth <|
      accepts_required (decodes_choice BinaryOp.lookup_symbol) hop <|
        accepts_required h.expr hleft <|
        accepts_required h.expr hright rfl
  | unary op argument =>
    obtain ⟨htag, hop, hargument⟩ := hes
    exact selects_record htag rfl (of_decide_eq_true rfl) hdepth <|
      accepts_required (decodes_choice UnaryOp.lookup_symbol) hop <|
        accepts_required h.expr hargument rfl
  | update op before argument =>
    obtain ⟨htag, hop, hbefore, hargument⟩ := hes
    exact selects_record htag rfl (of_decide_eq_true rfl) hdepth <|
      accepts_required (decodes_choice UpdateOp.lookup_symbol) hop <|
        accepts_optional decodes_boolean hbefore <|
        accepts_required h.expr hargument rfl
  | assign op target value =>
    obtain ⟨htag, hop, htarget, hvalue⟩ := hes
    exact selects_record htag rfl (of_decide_eq_true rfl) hdepth <|
      accepts_required (decodes_choice AssignOp.lookup_symbol) hop <|
        accepts_required h.expr htarget <|
        accepts_required h.expr hvalue rfl
  | call callee arguments =>
    obtain ⟨htag, hcallee, harguments⟩ := hes
    exact selects_record htag rfl (of_decide_eq_true rfl) hdepth <|
      accepts_required h.expr hcallee <| accepts_optional (decodes_list h.expr) harguments rfl
  | new callee arguments =>
    obtain ⟨htag, hcallee, harguments⟩ := hes
    exact selects_record htag rfl (of_decide_eq_true rfl) hdepth <|
      accepts_required h.expr hcallee <| accepts_optional (decodes_list h.expr) harguments rfl
  | member owner property =>
    obtain ⟨htag, howner, hproperty⟩ := hes
    exact selects_record htag rfl (of_decide_eq_true rfl) hdepth <|
      accepts_required h.expr howner <| accepts_required decodes_text hproperty rfl
  | index owner key =>
    obtain ⟨htag, howner, hkey⟩ := hes
    exact selects_record htag rfl (of_decide_eq_true rfl) hdepth <|
      accepts_required h.expr howner <| accepts_required h.expr hkey rfl
  | conditional test consequent alternate =>
    obtain ⟨htag, htest, hconsequent, halternate⟩ := hes
    exact selects_record htag rfl (of_decide_eq_true rfl) hdepth <|
      accepts_required h.expr htest <| accepts_required h.expr hconsequent <|
        accepts_required h.expr halternate rfl
  | comma left right =>
    obtain ⟨htag, hleft, hright⟩ := hes
    exact selects_record htag rfl (of_decide_eq_true rfl) hdepth <|
      accepts_required h.expr hleft <| accepts_required h.expr hright rfl
  | function name scope body =>
    obtain ⟨htag, hname, hscope, hbody⟩ := hes
    exact selects_record htag rfl (of_decide_eq_true rfl) hdepth <|
      accepts_optional (decodes_nullable decodes_text text_ne_null) hname <|
        accepts_optional decodes_scope hscope <| accepts_required (decodes_list h.stmt) hbody rfl

/-- **One level of a statement.** -/
theorem selecting_stmt (h : NodesFit depth forms inner) :
    Selecting depth (Stmt.Entries forms.expr forms.stmt) (Stmt.tagged inner) := by
  intro s es hes hdepth
  -- As for expressions. Fields that hold statements use the decoders of the next level.
  cases s with
  | empty => exact ⟨_, _, hes, rfl, rfl⟩
  | block body =>
    obtain ⟨htag, hbody⟩ := hes
    exact selects_map htag rfl (of_decide_eq_true rfl) hdepth
      (accepts_required (decodes_list h.stmt) hbody rfl)
  | expression value =>
    obtain ⟨htag, hvalue⟩ := hes
    exact selects_record htag rfl (of_decide_eq_true rfl) hdepth
      (accepts_required h.expr hvalue rfl)
  | declaration kind declarators =>
    obtain ⟨htag, hkind, hdeclarators⟩ := hes
    exact selects_record htag rfl (of_decide_eq_true rfl) hdepth <|
      accepts_required (decodes_choice DeclarationKind.lookup_word) hkind <|
        accepts_required (decodes_list (decodes_declarator h)) hdeclarators rfl
  | function name line scope body =>
    obtain ⟨htag, hname, hline, hscope, hbody⟩ := hes
    change (Stmt.tagged inner).Selects es (FunctionDecl.toStmt ⟨name, line, scope, body⟩)
    exact selects_map htag rfl (of_decide_eq_true rfl) hdepth <|
      accepts_required decodes_text hname <| accepts_optional decodes_word32 hline <|
        accepts_optional decodes_scope hscope <| accepts_required (decodes_list h.stmt) hbody rfl
  | branch test consequent alternate =>
    obtain ⟨htag, htest, hconsequent, halternate⟩ := hes
    exact selects_record htag rfl (of_decide_eq_true rfl) hdepth <|
      accepts_required h.expr htest <| accepts_required h.stmt hconsequent <|
        accepts_optional (decodes_nullable h.stmt h.stmt_ne_null) halternate rfl
  | whileLoop test body =>
    obtain ⟨htag, htest, hbody⟩ := hes
    exact selects_record htag rfl (of_decide_eq_true rfl) hdepth <|
      accepts_required h.expr htest <| accepts_required h.stmt hbody rfl
  | doWhile body test =>
    obtain ⟨htag, hbody, htest⟩ := hes
    exact selects_record htag rfl (of_decide_eq_true rfl) hdepth <|
      accepts_required h.stmt hbody <| accepts_required h.expr htest rfl
  | forLoop init test update body =>
    obtain ⟨htag, hinit, htest, hupdate, hbody⟩ := hes
    exact selects_record htag rfl (of_decide_eq_true rfl) hdepth <|
      accepts_optional (decodes_nullable h.stmt h.stmt_ne_null) hinit <|
        accepts_optional (decodes_nullable h.expr h.expr_ne_null) htest <|
          accepts_optional (decodes_nullable h.expr h.expr_ne_null) hupdate <|
            accepts_required h.stmt hbody rfl
  | forIn left right body =>
    obtain ⟨htag, hleft, hright, hbody⟩ := hes
    exact selects_record htag rfl (of_decide_eq_true rfl) hdepth <|
      accepts_required decodes_variable hleft <| accepts_required h.expr hright <|
        accepts_required h.stmt hbody rfl
  | breakLoop => exact ⟨_, _, hes, rfl, rfl⟩
  | continueLoop => exact ⟨_, _, hes, rfl, rfl⟩
  | giveBack argument =>
    obtain ⟨htag, hargument⟩ := hes
    exact selects_record htag rfl (of_decide_eq_true rfl) hdepth <|
      accepts_optional (decodes_nullable h.expr h.expr_ne_null) hargument rfl
  | switch discriminant cases =>
    obtain ⟨htag, hdiscriminant, hcases⟩ := hes
    exact selects_record htag rfl (of_decide_eq_true rfl) hdepth <|
      accepts_required h.expr hdiscriminant <|
        accepts_required (decodes_list (decodes_switchCase h)) hcases rfl
  | tryCatch body handler finalizer =>
    obtain ⟨htag, hbody, hhandler, hfinalizer⟩ := hes
    exact selects_record htag rfl (of_decide_eq_true rfl) hdepth <|
      accepts_required (decodes_block h) hbody <|
        accepts_optional (decodes_nullable (decodes_block h) object_ne_null) hhandler <|
          accepts_optional (decodes_nullable (decodes_block h) object_ne_null) hfinalizer rfl
  | throw argument =>
    obtain ⟨htag, hargument⟩ := hes
    exact selects_record htag rfl (of_decide_eq_true rfl) hdepth
      (accepts_required h.expr hargument rfl)
  | within owner body =>
    obtain ⟨htag, howner, hbody⟩ := hes
    exact selects_record htag rfl (of_decide_eq_true rfl) hdepth <|
      accepts_required h.expr howner <| accepts_required h.stmt hbody rfl
  | labeled label body =>
    obtain ⟨htag, hlabel, hbody⟩ := hes
    exact selects_record htag rfl (of_decide_eq_true rfl) hdepth <|
      accepts_required decodes_text hlabel <| accepts_required h.stmt hbody rfl

end

/-! ## Nodes within nodes

The induction is on the depth of the JSON value, since a tree is not decoded by recursion on
itself. -/

/-- No object is written without one open. -/
theorem fits_object_zero {α : Type} {entries : α → List (String × Json) → Prop}
    {decode : Decoder α} :
    Fits Decoder.Decodes 0 (Form.object entries) decode := by
  intro a j hform hdepth
  obtain ⟨es, rfl, -⟩ := hform
  exact absurd hdepth (Nat.not_succ_le_zero _)

/-- Nodes are decoded at every depth, however deep they may be nested. -/
theorem nodesFit_within (nesting depth : Nat) :
    NodesFit depth (NodeForms.within nesting) (NodeDecoders.within depth) := by
  -- How deep a node is nested and how deep its JSON value is go down together, but the latter also
  -- counts lists.
  induction nesting generalizing depth with
  | zero => exact ⟨fun _ _ h => h.elim, fun _ _ h => h.elim, fun _ h => h, fun _ h => h⟩
  | succ nesting ih =>
    cases depth with
    | zero => exact ⟨fits_object_zero, fits_object_zero, object_ne_null, object_ne_null⟩
    | succ depth =>
      have hinner := ih depth
      exact ⟨(selecting_expr hinner).decodes, (selecting_stmt hinner).decodes, object_ne_null,
        object_ne_null⟩

theorem reads_stmt (depth : Nat) :
    Fits Reader.Reads (depth + 1) Stmt.WrittenAs (Stmt.reader (depth + 1)) := by
  intro s j hform hdepth
  obtain ⟨nesting, hform⟩ := hform
  cases nesting with
  | zero => exact hform.elim
  | succ nesting => exact (selecting_stmt (nodesFit_within nesting depth)).reads s j hform hdepth

/-! ## Programs -/

/-- **A program is read from any text of any value that writes it.** -/
theorem reads_program : Fits Reader.Reads maxNesting Program.WrittenAs Program.reader := by
  refine reads_record (of_decide_eq_true rfl) fun p es hes => ?_
  obtain ⟨hfilename, hline, hscope, hbody⟩ := hes
  -- Around a statement the object of the program and the array of its body are open.
  exact accepts_required reads_text hfilename <| accepts_optional reads_word32 hline <|
    accepts_optional reads_scope hscope <| accepts_required (reads_list (reads_stmt _)) hbody rfl

/-- **Reading undoes writing.** If a text writes a JSON value, and the value writes a program, then
reading the text gives the program, as long as no more than 127 arrays and objects are open at
once. -/
theorem parse_written_program {p : Program} {j : Json} {text : String} (hform : p.WrittenAs j)
    (htext : j.Document text) (hdepth : j.depth ≤ 127) : Program.parse text = .ok p :=
  Reader.Reads.all (reads_program p j hform hdepth) htext

/-- The statements stand first, the tags last, an entry `x` is unknown, and the name of the file is
written by an escape. -/
theorem parse_written_program_return :
    Program.parse
        "\x7b\"body\":[\x7b\"argument\":\x7b\"value\":7,\"type\":\"Number\"\x7d,\"x\":[],\"type\":\"Return\"\x7d],\n\"filename\":\"\\u0061\"\x7d" =
      .ok ⟨"a", 1, {}, [.giveBack (some (.number (.ofNat 7)))]⟩ := by
  have hwritten : Program.WrittenAs ⟨"a", 1, {}, [.giveBack (some (.number (.ofNat 7)))]⟩
      (.object
        [("body", .array [.object
            [("argument", .object [("value", .number (.integer 7)), ("type", .string "Number")]),
              ("x", .array []), ("type", .string "Return")]]),
          ("filename", .string "a")]) := by
    refine ⟨_, rfl, ⟨_, rfl, rfl⟩, .inr ⟨rfl, rfl⟩, .inr ⟨rfl, rfl⟩, _, rfl, _, rfl,
      .cons ⟨2, _, rfl, ?_⟩ .nil⟩
    exact ⟨⟨_, rfl, rfl⟩,
      .inl ⟨_, rfl, _, rfl, ⟨_, rfl, rfl⟩, ⟨_, rfl, 7, by decide, by decide, rfl⟩⟩⟩
  have hplain : ∀ s ∈ ["body", "argument", "value", "type", "Number", "x", "Return", "filename"],
      Json.Quoted s ('"' :: s.toList ++ ['"']) := by
    intro s hs
    simp only [List.mem_cons, List.not_mem_nil, or_false] at hs
    rcases hs with rfl | rfl | rfl | rfl | rfl | rfl | rfl | rfl <;> exact
      Json.quoted_of_plain (by simp)
  have hescaped :
      Json.Quoted "a" ('"' :: ('\\' :: 'u' :: ['0', '0', '6', '1'] ++ []) ++ ['"']) := by
    have hunit : Text.Utf16Unit ['0', '0', '6', '1'] 97 :=
      ⟨rfl, .cons rfl (.cons rfl (.cons rfl (.cons rfl (.nil _))))⟩
    exact ⟨_, rfl, .unit hunit (by decide) (by decide) .nil⟩
  have hnone : Json.Blanks [] := List.forall_mem_nil _
  have hnewline : Json.Blanks ['\n'] := by simp [Json.Blanks]
  have hnumber :
      Json.EntriesSpelling true [("value", .number (.integer 7)), ("type", .string "Number")] _ :=
    .entry (.blanks hnone) (hplain "value" (by simp)) hnone hnone
      (.number (.integer (by decide) (by decide))) <|
      .entry (.comma hnone hnone) (hplain "type" (by simp)) hnone hnone
        (.string (hplain "Number" (by simp))) (.close hnone)
  have hreturn : Json.EntriesSpelling true
      [("argument", .object [("value", .number (.integer 7)), ("type", .string "Number")]),
        ("x", .array []), ("type", .string "Return")] _ :=
    .entry (.blanks hnone) (hplain "argument" (by simp)) hnone hnone (.object hnumber) <|
      .entry (.comma hnone hnone) (hplain "x" (by simp)) hnone hnone (.array (.close hnone)) <|
        .entry (.comma hnone hnone) (hplain "type" (by simp)) hnone hnone
          (.string (hplain "Return" (by simp)))
          (.close hnone)
  have hprogram := Json.EntriesSpelling.entry (.blanks hnone) (hplain "body" (by simp)) hnone hnone
    (.array (.item (.blanks hnone) (.object hreturn) (.close hnone))) <|
      .entry (.comma hnone hnewline) (hplain "filename" (by simp)) hnone hnone (.string hescaped)
        (.close hnone)
  exact parse_written_program hwritten ⟨[], _, [], hnone, .object hprogram,
    hnone, by decide⟩ (by decide)

/-- A text of the JSON grammar need not be read. Here an entry `x` that no statement has holds the
escape of a surrogate without its partner, which the grammar allows and which writes no string. -/
theorem unpaired_surrogate_not_read :
    Json.StringText ['\\', 'u', 'd', '8', '0', '0'] ∧
    (∀ chars, ¬ Json.CharsSpelling chars ['\\', 'u', 'd', '8', '0', '0']) ∧
    Program.parse
        "\x7b\"filename\":\"a\",\"body\":[\x7b\"type\":\"Empty\",\"x\":\"\\ud800\"\x7d]\x7d" =
      .error (.malformed .hexEscapeCutOff) := by
  have hunit : Text.Utf16Unit ['d', '8', '0', '0'] 0xD800 :=
    ⟨rfl, .cons rfl (.cons rfl (.cons rfl (.cons rfl (.nil _))))⟩
  have hunpaired : Json.Unpaired ['\\', 'u', 'd', '8', '0', '0'] :=
    ⟨_, _, [], rfl, hunit, .inr ⟨by decide, fun _ _ _ hrest => by cases hrest⟩⟩
  refine ⟨.unit hunit .nil, fun chars => hunpaired.not_spelled, ?_⟩
  -- Programs have no decidable equality, so that the kernel is asked for the fault only.
  generalize hresult : Program.parse _ = result
  have hfault : result.map (fun _ => ()) = .error (.malformed .hexEscapeCutOff) := by
    rw [← hresult]
    decide +kernel
  cases result with
  | error fault => rw [Except.error.inj hfault]
  | ok p => cases hfault

end StackCode
