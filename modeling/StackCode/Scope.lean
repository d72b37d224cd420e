import Std.Data.HashMap

/-!
# Scopes

The parameters and `var` locals of one unit, in slot order. A slot is a 16-bit word: the slot of a
name is its index taken modulo `2 ^ 16`.

Many locals are declared at once by `declareLocals`, which keeps the index of every name at hand.
`declareLocals_eq_foldl` says that this is the same as declaring them one by one.

A parameter that is declared twice has two slots, and a local that is declared twice has one. The
difference is that of the language: the last of two parameters of one name is the one that counts,
and two declarations of a local are one.

No limit is enforced. What becomes of slots when there are more names than a slot can tell apart is
the subject of a file of its own.
-/

set_option autoImplicit false

namespace StackCode

/-- The names of a unit's parameters and locals, in slot order. -/
structure Scope where
  parameters : Array String := #[]
  locals : Array String := #[]
deriving DecidableEq, Inhabited

namespace Scope

/-- Adds a parameter and returns its slot. Every declaration takes a new slot, also of a known
name. -/
def declareParameter (scope : Scope) (name : String) : UInt16 × Scope :=
  (UInt16.ofNat scope.parameters.size, { scope with parameters := scope.parameters.push name })

/-- Adds a local and returns its slot. A name that is already there keeps its first slot. -/
def declareLocal (scope : Scope) (name : String) : UInt16 × Scope :=
  match scope.locals.idxOf? name with
  | some index => (UInt16.ofNat index, scope)
  | none => (UInt16.ofNat scope.locals.size, { scope with locals := scope.locals.push name })

/-! ## Many locals -/

/-- The index of the first occurrence of each name, behind those in `index`. `start` is the index of
the first name. -/
def indexFrom (index : Std.HashMap String Nat) (start : Nat) : List String → Std.HashMap String Nat
  | [] => index
  | name :: names => indexFrom (index.insertIfNew name start) (start + 1) names

/-- Declares locals in order and returns the last slot. `index` holds the index of each local. -/
def declareIndexed (index : Std.HashMap String Nat) (slot : UInt16) (scope : Scope) :
    List String → UInt16 × Scope
  | [] => (slot, scope)
  | name :: names =>
    match index[name]? with
    | some i => declareIndexed index (UInt16.ofNat i) scope names
    | none =>
      declareIndexed (index.insert name scope.locals.size) (UInt16.ofNat scope.locals.size)
        { scope with locals := scope.locals.push name } names

/-- Declares locals in order and returns the slot of the last one, or `slot` if there is none. -/
def declareLocals (scope : Scope) (slot : UInt16) (names : List String) : UInt16 × Scope :=
  declareIndexed (indexFrom ∅ 0 scope.locals.toList) slot scope names

theorem getElem?_indexFrom (index : Std.HashMap String Nat) (start : Nat) (names : List String)
    (name : String) :
    (indexFrom index start names)[name]? =
      index[name]?.or ((names.idxOf? name).map (start + ·)) := by
  induction names generalizing index start with
  | nil => simp [indexFrom]
  | cons n names ih =>
    rw [indexFrom, ih, Std.HashMap.getElem?_insertIfNew, List.idxOf?_cons]
    by_cases hn : n = name
    · subst hn
      by_cases hm : n ∈ index
      · simp [hm]
      · simp [hm]
    · simp only [beq_iff_eq, hn, false_and, if_false, Option.map_map]
      congr 2
      funext i
      simp only [Function.comp_apply]
      omega

theorem idxOf?_push (names : Array String) (last name : String) :
    (names.push last).idxOf? name =
      (names.idxOf? name).or (if last = name then some names.size else none) := by
  obtain ⟨names⟩ := names
  rw [List.push_toArray, List.idxOf?_toArray, List.idxOf?_toArray]
  simp only [List.idxOf?, List.findIdx?_append]
  by_cases h : last = name <;> simp [h]

theorem declareIndexed_eq_foldl (index : Std.HashMap String Nat) (slot : UInt16) (scope : Scope)
    (names : List String) (h : ∀ name : String, index[name]? = scope.locals.idxOf? name) :
    declareIndexed index slot scope names =
      names.foldl (fun state name => state.2.declareLocal name) (slot, scope) := by
  induction names generalizing index slot scope with
  | nil => rfl
  | cons name names ih =>
    rw [declareIndexed, List.foldl_cons, declareLocal, ← h]
    split
    · exact ih _ _ _ h
    · rename_i hnone
      refine ih _ _ _ fun other => ?_
      rw [h] at hnone
      rw [Std.HashMap.getElem?_insert, idxOf?_push, h]
      by_cases heq : name = other
      · subst heq
        simp [hnone]
      · simp [heq]

theorem declareLocals_eq_foldl (scope : Scope) (slot : UInt16) (names : List String) :
    scope.declareLocals slot names =
      names.foldl (fun state name => state.2.declareLocal name) (slot, scope) := by
  refine declareIndexed_eq_foldl _ _ _ _ fun name => ?_
  rw [getElem?_indexFrom]
  obtain ⟨parameters, ⟨locals⟩⟩ := scope
  simp [List.idxOf?_toArray]

end Scope

end StackCode
