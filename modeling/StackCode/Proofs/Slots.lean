import Mathlib.Data.List.Basic
import StackCode.Proofs.Text.Digits
import StackCode.Scope

/-!
# What a slot stands for

A slot is taken for an index into the parameters or the locals of its scope. This file follows both
lists over every sequence of declarations. A list is only ever added to, so a name that was declared
keeps its place, and a local has one place for good, the first one where its name stands.

A slot is the place cut to 16 bits. It stands for the name that was declared exactly if nothing of
the place is cut off, or if by chance a parameter of the same name stands where the slot points
(`Scope.Addressed`). From the 65537th name on, two names of one part share a slot.

The two lists do not behave alike. A parameter that is declared again gets a new place, behind the
others, and both places hold its name; a local that is declared again keeps the place it has. So for
parameters the slot is asked to be an index of the name, and not the only one.

Nothing in a scope is ever refused, and no number is checked. That more than 65536 names are too
many is therefore not an error but a fact about slots, and this file says exactly what happens then.
-/

set_option autoImplicit false

namespace StackCode.Scope

/-- The two lists of a scope. -/
inductive Part where
  | parameters
  | locals
deriving DecidableEq

/-- What a declaration asks for. -/
structure Declaration where
  part : Part
  name : String
deriving DecidableEq

/-- The names in one part of a scope, in order. -/
def names (scope : Scope) : Part → List String
  | .parameters => scope.parameters.toList
  | .locals => scope.locals.toList

/-- Declares a name: its slot, and the scope with the name in it. -/
def declare (scope : Scope) (d : Declaration) : UInt16 × Scope :=
  match d.part with
  | .parameters => scope.declareParameter d.name
  | .locals => scope.declareLocal d.name

/-- The scope behind declarations that are made in order. -/
def declareAll (scope : Scope) (ds : List Declaration) : Scope :=
  ds.foldl (fun scope d => (scope.declare d).2) scope

/-- The slot that a declaration gets behind others. -/
def slotBehind (scope : Scope) (before : List Declaration) (d : Declaration) : UInt16 :=
  ((scope.declareAll before).declare d).1

/-- Slots are indices of names all along a sequence of declarations. -/
structure SlotsIndexNames (scope : Scope) (ds : List Declaration) : Prop where
  /-- The slot of a declaration indexes its name, at once and behind whatever is declared
  afterwards. -/
  indexes : ∀ before d after, before ++ d :: after <+: ds →
    ((scope.declareAll (before ++ d :: after)).names d.part)[(scope.slotBehind before d).toNat]? =
      some d.name
  /-- Two declarations of locals get the same slot exactly if they are given the same name. -/
  separates : ∀ before name between name',
    before ++ ⟨.locals, name⟩ :: (between ++ [⟨.locals, name'⟩]) <+: ds →
      (scope.slotBehind before ⟨.locals, name⟩ =
          scope.slotBehind (before ++ ⟨.locals, name⟩ :: between) ⟨.locals, name'⟩ ↔
        name = name')

/-! ## Places

A place is a natural number, as large as it needs to be. It is what the slot would be if a slot had
no width. -/

/-- The place of a name that is declared next: behind all others for a parameter, the first place of
its name for a local. -/
def place (scope : Scope) (d : Declaration) : Nat :=
  match d.part with
  | .parameters => (scope.names .parameters).length
  | .locals => (scope.names .locals).idxOf d.name

/-- A slot is its place without all but the lowest 16 bits. -/
theorem declare_slot (scope : Scope) (d : Declaration) :
    (scope.declare d).1.toNat = scope.place d % 65536 := by
  obtain ⟨part, name⟩ := d
  have hslot : (scope.declare ⟨part, name⟩).1 = UInt16.ofNat (scope.place ⟨part, name⟩) := by
    cases part with
    | parameters => rfl
    | locals =>
      have hfound : scope.locals.idxOf? name = scope.locals.toList.idxOf? name :=
        List.idxOf?_toArray name _
      have hplace :
          scope.place ⟨.locals, name⟩ = (scope.locals.idxOf? name).getD scope.locals.size := by
        rw [hfound]
        exact List.idxOf_eq_getD_idxOf? name scope.locals.toList
      rw [hplace]
      unfold declare declareLocal
      cases scope.locals.idxOf? name <;> rfl
  rw [hslot, UInt16.toNat_ofNat']

/-- A parameter is added at the end, whether or not its name is there. -/
theorem names_declareParameter (scope : Scope) (name : String) :
    (scope.declare ⟨.parameters, name⟩).2.names .parameters =
      scope.names .parameters ++ [name] := by
  simp [declare, declareParameter, names]

/-- A local is added at the end if it is new. -/
theorem names_declareLocal (scope : Scope) (name : String) :
    (scope.declare ⟨.locals, name⟩).2.names .locals =
      if name ∈ scope.names .locals then scope.names .locals
      else scope.names .locals ++ [name] := by
  unfold declare declareLocal
  cases hfound : scope.locals.idxOf? name with
  | some index =>
    have hmem : name ∈ scope.locals := by
      rw [← Array.isSome_idxOf?, hfound, Option.isSome_some]
    simp [names, hmem]
  | none =>
    have hmem : name ∉ scope.locals := Array.idxOf?_eq_none_iff.mp hfound
    simp [names, hmem]

/-- A declaration leaves the other part as it is. -/
theorem names_declare_of_ne (scope : Scope) {d : Declaration} {part : Part} (h : part ≠ d.part) :
    (scope.declare d).2.names part = scope.names part := by
  obtain ⟨part', name⟩ := d
  cases part' with
  | parameters =>
    cases part with
    | parameters => exact absurd rfl h
    | locals => rfl
  | locals =>
    cases part with
    | parameters =>
      unfold declare declareLocal
      cases scope.locals.idxOf? name <;> rfl
    | locals => exact absurd rfl h

/-- **One declaration** adds to a list or leaves it. -/
theorem names_prefix_declare (scope : Scope) (d : Declaration) (part : Part) :
    scope.names part <+: (scope.declare d).2.names part := by
  by_cases h : part = d.part
  · subst h
    obtain ⟨part, name⟩ := d
    cases part with
    | parameters =>
      rw [names_declareParameter]
      exact List.prefix_append _ _
    | locals =>
      rw [names_declareLocal]
      split
      · exact List.prefix_refl _
      · exact List.prefix_append _ _
  · exact names_declare_of_ne scope h ▸ List.prefix_refl _

theorem declareAll_append (scope : Scope) (ds ds' : List Declaration) :
    scope.declareAll (ds ++ ds') = (scope.declareAll ds).declareAll ds' :=
  List.foldl_append

/-- **A sequence of declarations** only adds to a list. -/
theorem names_prefix_declareAll (scope : Scope) (ds : List Declaration) (part : Part) :
    scope.names part <+: (scope.declareAll ds).names part := by
  induction ds generalizing scope with
  | nil => exact List.prefix_refl _
  | cons d ds ih => exact (scope.names_prefix_declare d part).trans (ih (scope.declare d).2)

/-- What is declared stays in the list, from the declaration on. -/
theorem names_declare_prefix (scope : Scope) (before : List Declaration) (d : Declaration)
    (after : List Declaration) :
    ((scope.declareAll before).declare d).2.names d.part <+:
      (scope.declareAll (before ++ d :: after)).names d.part := by
  rw [declareAll_append]
  exact names_prefix_declareAll ((scope.declareAll before).declare d).2 after d.part

theorem mem_names_declareLocal (scope : Scope) (name : String) :
    name ∈ (scope.declare ⟨.locals, name⟩).2.names .locals := by
  rw [names_declareLocal]
  split
  · assumption
  · exact List.mem_append_right _ List.mem_cons_self

/-- Declaring a local does not move the first place of its name. -/
theorem idxOf_names_declare (scope : Scope) (name : String) :
    ((scope.declare ⟨.locals, name⟩).2.names .locals).idxOf name = scope.place ⟨.locals, name⟩ := by
  rw [names_declareLocal]
  split
  · rfl
  · rename_i hnew
    rw [List.idxOf_append_of_notMem hnew, List.idxOf_cons_self]
    exact (List.idxOf_of_notMem hnew).symm

/-- A local stands where its name stands first, from its declaration on. -/
theorem idxOf_names_declareAll (scope : Scope) (before : List Declaration) (name : String)
    (after : List Declaration) :
    ((scope.declareAll (before ++ ⟨.locals, name⟩ :: after)).names .locals).idxOf name =
      (scope.declareAll before).place ⟨.locals, name⟩ := by
  rw [← idxOf_names_declare]
  exact ((scope.names_declare_prefix before ⟨.locals, name⟩ after).idxOf_eq_of_mem
    (mem_names_declareLocal _ _)).symm

/-- The place of a declaration holds its name as soon as it is declared. -/
theorem getElem?_place (scope : Scope) (d : Declaration) :
    ((scope.declare d).2.names d.part)[scope.place d]? = some d.name := by
  obtain ⟨part, name⟩ := d
  cases part with
  | parameters =>
    rw [names_declareParameter]
    exact List.getElem?_concat_length
  | locals =>
    rw [← idxOf_names_declare]
    exact List.getElem?_idxOf (scope.mem_names_declareLocal name)

/-! ## Slots

A name is addressed if its slot leads back to it. The condition is about the place and the lists at
the time of the declaration only, since the lists do not change where the slot points. -/

/-- The slot of a name that is declared next stands for the name. A local has to be among the first
65536. A parameter that is not must happen to have the name of the one that its slot points to. -/
def Addressed (scope : Scope) (d : Declaration) : Prop :=
  match d.part with
  | .parameters =>
    scope.place d < 65536 ∨ (scope.names .parameters)[scope.place d % 65536]? = some d.name
  | .locals => scope.place d < 65536

/-- The first place of a name is not behind any other. -/
theorem idxOf_le_of_getElem? {names : List String} {name : String} {i : Nat}
    (h : names[i]? = some name) :
    names.idxOf name ≤ i := by
  obtain ⟨hi, hget⟩ := List.getElem?_eq_some_iff.mp h
  refine Nat.not_lt.mp fun hlt => ?_
  have hbefore := List.not_of_lt_findIdx (p := (· == name)) hlt
  rw [hget, beq_self_eq_true] at hbefore
  cases hbefore

/-- Right behind a declaration, its slot points to its name exactly if the name is addressed. -/
theorem addressed_iff (scope : Scope) (d : Declaration) :
    scope.Addressed d ↔
      ((scope.declare d).2.names d.part)[(scope.declare d).1.toNat]? = some d.name := by
  have hplace := scope.getElem?_place d
  rw [declare_slot]
  obtain ⟨part, name⟩ := d
  cases part with
  | parameters =>
    by_cases hlt : scope.place ⟨.parameters, name⟩ < 65536
    · rw [Nat.mod_eq_of_lt hlt]
      exact iff_of_true (.inl hlt) hplace
    · -- The slot points to one of the parameters in front.
      have hslot : scope.place ⟨.parameters, name⟩ % 65536 < (scope.names .parameters).length :=
        show _ < scope.place ⟨.parameters, name⟩ by omega
      rw [names_declareParameter, List.getElem?_append_left hslot]
      exact or_iff_right hlt
  | locals =>
    constructor
    · intro hlt
      rw [Nat.mod_eq_of_lt hlt]
      exact hplace
    · intro hslot
      have hle := idxOf_le_of_getElem? hslot
      rw [idxOf_names_declare] at hle
      exact Nat.lt_of_le_of_lt hle (Nat.mod_lt _ (by decide))

/-- Two locals that are both addressed get the same slot exactly if they are the same. -/
theorem slotBehind_eq_iff {scope : Scope} {before between : List Declaration} {name name' : String}
    (h : (scope.declareAll before).Addressed ⟨.locals, name⟩)
    (h' : (scope.declareAll (before ++ ⟨.locals, name⟩ :: between)).Addressed ⟨.locals, name'⟩) :
    scope.slotBehind before ⟨.locals, name⟩ =
        scope.slotBehind (before ++ ⟨.locals, name⟩ :: between) ⟨.locals, name'⟩ ↔
      name = name' := by
  -- Both places are the first ones of the names in the list that the second declaration leaves.
  have hplace := scope.idxOf_names_declareAll before name (between ++ [⟨.locals, name'⟩])
  have hplace' := scope.idxOf_names_declareAll (before ++ ⟨.locals, name⟩ :: between) name' []
  have hmem :=
    (scope.names_declare_prefix before ⟨.locals, name⟩ (between ++ [⟨.locals, name'⟩])).subset
    (mem_names_declareLocal _ _)
  rw [List.append_assoc, List.cons_append] at hplace'
  rw [← UInt16.toNat_inj, slotBehind, slotBehind, declare_slot, declare_slot, Nat.mod_eq_of_lt h,
    Nat.mod_eq_of_lt h', ← hplace, ← hplace']
  exact List.idxOf_inj hmem

/-- **When slots index names.** Along a sequence of declarations in any scope, the slot of every
declaration indexes the name that was declared, from then on, and two locals get the same slot
exactly if they are the same, if and only if every name is addressed when it is declared. -/
theorem slotsIndexNames_iff_addressed (scope : Scope) (ds : List Declaration) :
    scope.SlotsIndexNames ds ↔ ∀ before d, before ++ [d] <+: ds →
      (scope.declareAll before).Addressed d := by
  constructor
  · intro h before d hprefix
    have hslot := h.indexes before d [] hprefix
    rw [declareAll_append] at hslot
    exact (addressed_iff _ d).mpr hslot
  · intro h
    have haddressed :
        ∀ before d after, before ++ d :: after <+: ds → (scope.declareAll before).Addressed d := by
      intro before d after hprefix
      refine h before d (List.IsPrefix.trans ⟨after, ?_⟩ hprefix)
      rw [List.append_assoc, List.singleton_append]
    refine ⟨?_, ?_⟩
    · intro before d after hprefix
      have hslot := (addressed_iff _ d).mp (haddressed before d after hprefix)
      obtain ⟨hlt, -⟩ := List.getElem?_eq_some_iff.mp hslot
      obtain ⟨more, hmore⟩ := scope.names_declare_prefix before d after
      rw [← hmore, slotBehind, List.getElem?_append_left hlt]
      exact hslot
    · intro before name between name' hprefix
      refine slotBehind_eq_iff (haddressed _ _ _ hprefix) (h _ _ ?_)
      rwa [List.append_assoc, List.cons_append]

/-! ## Too many names

Names that are all different fill a part one place at a time, so the last of them gets a slot that
was given before. -/

/-- The names `x0`, `x1` and so on, all declared in one part. -/
def numbered (part : Part) (count : Nat) : List Declaration :=
  (List.range count).map fun i => ⟨part, "x" ++ toString i⟩

theorem numbered_succ (part : Part) (count : Nat) :
    numbered part (count + 1) = numbered part count ++ [⟨part, "x" ++ toString count⟩] := by
  rw [numbered, List.range_succ, List.map_append]
  rfl

theorem notMem_numbered (count : Nat) :
    "x" ++ toString count ∉ (List.range count).map fun i => "x" ++ toString i := by
  intro hmem
  obtain ⟨i, hi, hsame⟩ := List.mem_map.mp hmem
  obtain rfl := Text.toString_injective (String.append_right_inj _ |>.mp hsame)
  exact absurd (List.mem_range.mp hi) (Nat.lt_irrefl i)

theorem names_numbered (part : Part) (count : Nat) :
    (({} : Scope).declareAll (numbered part count)).names part =
      (List.range count).map fun i => "x" ++ toString i := by
  induction count with
  | zero => cases part <;> rfl
  | succ count ih =>
    rw [numbered_succ, declareAll_append, List.range_succ, List.map_append, ← ih]
    cases part with
    | parameters => exact names_declareParameter _ _
    | locals =>
      have hnew := notMem_numbered count
      rw [← ih] at hnew
      exact (names_declareLocal _ _).trans (if_neg hnew)

/-- The next name gets its number for a slot, as far as the slot can hold it. -/
theorem toNat_slotBehind_numbered (part : Part) (count : Nat) :
    (({} : Scope).slotBehind (numbered part count) ⟨part, "x" ++ toString count⟩).toNat =
      count % 65536 := by
  have hplace :
      (({} : Scope).declareAll (numbered part count)).place ⟨part, "x" ++ toString count⟩ =
      count := by
    cases part with
    | parameters =>
      show List.length _ = _
      rw [names_numbered, List.length_map, List.length_range]
    | locals =>
      show List.idxOf _ _ = _
      rw [names_numbered, List.idxOf_of_notMem (notMem_numbered count), List.length_map,
        List.length_range]
  rw [slotBehind, declare_slot, hplace]

/-- The 65537th name of a part gets the slot of the first one, so that its slot is no index of
it. -/
theorem not_slotsIndexNames_numbered (part : Part) :
    ¬ ({} : Scope).SlotsIndexNames (numbered part 65537) := by
  intro h
  have hlast : ({} : Scope).slotBehind (numbered part 65536) ⟨part, "x65536"⟩ = 0 :=
    UInt16.toNat_inj.mp (toNat_slotBehind_numbered part 65536)
  have hslot := h.indexes (numbered part 65536) ⟨part, "x65536"⟩ []
    (numbered_succ part 65536 ▸ List.prefix_refl _)
  have hnames :
      (({} : Scope).declareAll (numbered part 65536 ++ [⟨part, "x65536"⟩])).names part = _ :=
    numbered_succ part 65536 ▸ names_numbered part 65537
  rw [hlast, hnames, List.getElem?_map, List.getElem?_range (by decide)] at hslot
  have hsame : "x" ++ toString 0 = "x65536" := Option.some.inj hslot
  exact absurd hsame (by decide)

/-- With 65537 parameters, and likewise with 65537 locals, the first and the last one have the same
slot. -/
theorem numbered_names_share_slot :
    (({} : Scope).slotBehind [] ⟨.parameters, "x0"⟩ = 0 ∧
      ({} : Scope).slotBehind (numbered .parameters 65536) ⟨.parameters, "x65536"⟩ = 0 ∧
      ¬ ({} : Scope).SlotsIndexNames (numbered .parameters 65537)) ∧
    ({} : Scope).slotBehind [] ⟨.locals, "x0"⟩ = 0 ∧
      ({} : Scope).slotBehind (numbered .locals 65536) ⟨.locals, "x65536"⟩ = 0 ∧
      ¬ ({} : Scope).SlotsIndexNames (numbered .locals 65537) := by
  have hfirst (part : Part) : ({} : Scope).slotBehind [] ⟨part, "x0"⟩ = 0 :=
    UInt16.toNat_inj.mp (toNat_slotBehind_numbered part 0)
  have hlast (part : Part) :
      ({} : Scope).slotBehind (numbered part 65536) ⟨part, "x65536"⟩ = 0 :=
    UInt16.toNat_inj.mp (toNat_slotBehind_numbered part 65536)
  exact ⟨⟨hfirst _, hlast _, not_slotsIndexNames_numbered _⟩, hfirst _, hlast _,
    not_slotsIndexNames_numbered _⟩

end StackCode.Scope
