import StackCode.Proofs.Json.Reads

/-!
# What readers and decoders can give

`r.Gives a` says that a reader reads `a` from some text, and `decode.Gives d a` that a decoder makes
`a` of some value of depth at most `d`. What is known of the parts is handed on to the whole: what a
list gives has items that its reader gives, and what a record gives is made of what the readers of
its fields give (`Fields.Makes`), whether the record is an object or an array and whatever the order
of its entries.

The depth comes in with the values that are kept as JSON. Reading one opens no more arrays and
objects than are allowed (`Reader.Gives.depth_le`), so a tagged node is decoded from a body of
limited depth (`Reader.Gives.tagged`).

This is the opposite direction to reading back. There a value is given and it is shown that it is
read; here something was read, from a text of which nothing is known, and it is asked what it can
be. The text may have been any, so the judgments quantify over it, and nothing is said about which
text gives what.

Faults do not occur, since only what was read is considered. Nor do entries that were skipped:
whatever depth they have, nothing is made of them.
-/

set_option autoImplicit false

universe u v

namespace StackCode.Json

/-- The reader reads `a` from some text. -/
def Reader.Gives {α : Type u} (r : Reader α) (a : α) : Prop :=
  ∃ cs rest, r.run cs = .ok (a, rest)

/-- The decoder makes `a` of some value of depth at most `d`. -/
def Decoder.Gives {α : Type} (d : Nat) (decode : Decoder α) (a : α) : Prop :=
  ∃ j : Json, j.depth ≤ d ∧ decode j = .ok a

theorem depthOfItems_le {d : Nat} {js : List Json} (h : ∀ j ∈ js, j.depth ≤ d) :
    depthOfItems js ≤ d := by
  induction js with
  | nil => exact Nat.zero_le d
  | cons j js ih =>
    exact Nat.max_le.mpr ⟨h j List.mem_cons_self,
      ih fun j' hj' => h j' (List.mem_cons_of_mem _ hj')⟩

theorem depthOfEntries_le {d : Nat} {es : List (String × Json)}
    (h : ∀ entry ∈ es, entry.2.depth ≤ d) :
    depthOfEntries es ≤ d := by
  induction es with
  | nil => exact Nat.zero_le d
  | cons entry es ih =>
    obtain ⟨key, j⟩ := entry
    exact Nat.max_le.mpr ⟨h (key, j) List.mem_cons_self,
      ih fun entry hentry => h entry (List.mem_cons_of_mem _ hentry)⟩

/-! ## Fields

A record is made by applying a function to one value after the other. `Makes` follows this
application, so that a property of the whole record can be shown with all of its values at hand. -/

namespace Fields

section

variable {R : Type → Type} {α β γ : Type} {gives : {β : Type} → R β → β → Prop} {P : α → Prop}

/-- Whatever values the fields get, the record that is made of them has the property. A value stands
in its slot already, is given by the reader of the field, or is the one for a field that is left
out. -/
def Makes (gives : {β : Type} → R β → β → Prop) (P : α → Prop) {γ : Type} : Fields R α γ → γ → Prop
  | .done, a => P a
  | .field _ read fallback slot rest, make =>
    ∀ b, slot = some b ∨ gives read b ∨ fallback = some b → rest.Makes gives P (make b)

/-- A field that must be given has a value of its reader. -/
theorem makes_required {name : String} {read : R β} {rest : Fields R α γ} {make : β → γ}
    (h : ∀ b, gives read b → rest.Makes gives P (make b)) :
    (required name read rest).Makes gives P make := by
  rintro b (hslot | hread | hfallback)
  · cases hslot
  · exact h b hread
  · cases hfallback

/-- A field that may be left out has a value of its reader or the one that stands in for it. -/
theorem makes_optional {name : String} {read : R β} {fallback : β} {rest : Fields R α γ}
    {make : β → γ} (h : ∀ b, gives read b ∨ b = fallback → rest.Makes gives P (make b)) :
    (optional name read fallback rest).Makes gives P make := by
  rintro b (hslot | hread | hfallback)
  · cases hslot
  · exact h b (.inl hread)
  · exact h b (.inr (Option.some.inj hfallback).symm)

/-- A field that is filled with a value of its reader can get no other values than before. -/
theorem Makes.fill {fs fs' : Fields R α γ} {make : γ} {ρ ρ' : Type}
    {run : {β : Type} → R β → ρ → Except Fault (β × ρ')} {key : String} {source : ρ} {left : ρ'}
    (h : fs.Makes gives P make)
    (hrun : ∀ {β : Type} (read : R β) (b : β), run read source = .ok (b, left) → gives read b)
    (hfill : fs.fill run key source = some (.ok (fs', left))) : fs'.Makes gives P make := by
  induction fs with
  | done => cases hfill
  | field name read fallback slot rest ih =>
    simp only [Fields.fill] at hfill
    split at hfill
    · split at hfill
      · cases hfill
      · split at hfill
        · cases hfill
        · rename_i b _ hb
          cases hfill
          -- The field that was filled has the value that was read; all other values are those it
          -- could have had.
          rintro b' (hslot | hgiven)
          · cases hslot
            exact h _ (.inr (.inl (hrun read _ hb)))
          · exact h b' (.inr hgiven)
    · split at hfill
      · cases hfill
      · cases hfill
      · rename_i heq
        cases hfill
        exact fun b hb => ih (h b hb) heq

theorem Makes.finish {fs : Fields R α γ} {make : γ} {a : α} (h : fs.Makes gives P make)
    (hfinish : fs.finish make = .ok a) :
    P a := by
  induction fs with
  | done =>
    cases hfinish
    exact h
  | field name read fallback slot rest ih =>
    simp only [Fields.finish] at hfinish
    split at hfinish
    · rename_i b hb
      refine ih (h b ?_) hfinish
      rcases Option.or_eq_some_iff.mp hb with hslot | ⟨-, hfallback⟩
      · exact .inl hslot
      · exact .inr (.inr hfallback)
    · cases hfinish

end

end Fields

/-! ## Decoders -/

namespace Decoder

variable {α β : Type} {d : Nat}

/-- A decoder that is allowed deeper values can give more. -/
theorem Gives.mono {d' : Nat} {decode : Decoder α} {a : α} (h : decode.Gives d a) (hle : d ≤ d') :
    decode.Gives d' a := by
  obtain ⟨j, hj, ha⟩ := h
  exact ⟨j, Nat.le_trans hj hle, ha⟩

theorem ok_of_map_eq_ok {f : α → β} {x : Except Fault α} {b : β} (h : x.map f = .ok b) :
    ∃ a, x = .ok a ∧ f a = b := by
  cases x with
  | error fault => cases h
  | ok a => exact ⟨a, rfl, Except.ok.inj h⟩

theorem Gives.map {f : α → β} {decode : Decoder α} {b : β} (h : (map f decode).Gives d b) :
    ∃ a, decode.Gives d a ∧ f a = b := by
  obtain ⟨j, hj, hb⟩ := h
  obtain ⟨a, ha, hb⟩ := ok_of_map_eq_ok hb
  exact ⟨a, ⟨j, hj, ha⟩, hb⟩

theorem Gives.bare {a b : α} (h : (bare a).Gives d b) : b = a := by
  obtain ⟨j, -, hb⟩ := h
  unfold Decoder.bare at hb
  split at hb <;> cases hb <;> rfl

theorem Gives.nullable {decode : Decoder α} {o : Option α} (h : (nullable decode).Gives d o) :
    ∀ a ∈ o, decode.Gives d a := by
  obtain ⟨j, hj, ho⟩ := h
  unfold Decoder.nullable at ho
  split at ho
  · cases ho
    exact nofun
  · obtain ⟨a, ha, rfl⟩ := ok_of_map_eq_ok ho
    rintro a' ⟨⟩
    exact ⟨j, hj, ha⟩

/-- A value that may be null or left out. -/
theorem gives_of_mem_optional {decode : Decoder α} {o : Option α}
    (h : (nullable decode).Gives d o ∨ o = none) :
    ∀ a ∈ o, decode.Gives d a := by
  rcases h with h | rfl
  · exact h.nullable
  · exact nofun

theorem decodes_of_mapM {decode : Decoder α} {js : List Json} {as : List α}
    (h : js.mapM decode = .ok as) :
    ∀ a ∈ as, ∃ j ∈ js, decode j = .ok a := by
  induction js generalizing as with
  | nil =>
    cases h
    exact List.forall_mem_nil _
  | cons j js ih =>
    rw [List.mapM_cons] at h
    obtain ⟨a, ha, h⟩ := Scan.bind_eq_ok.mp h
    obtain ⟨as, has, h⟩ := Scan.bind_eq_ok.mp h
    cases h
    refine List.forall_mem_cons.mpr ⟨⟨j, List.mem_cons_self, ha⟩, fun a' ha' => ?_⟩
    obtain ⟨j', hj', hdecode⟩ := ih has a' ha'
    exact ⟨j', List.mem_cons_of_mem _ hj', hdecode⟩

/-- Every item of a list is decoded by the decoder of items, from a value that is less deep. -/
theorem Gives.list {decode : Decoder α} {as : List α} (h : (list decode).Gives d as) :
    ∀ a ∈ as, decode.Gives d a := by
  obtain ⟨j, hj, has⟩ := h
  unfold Decoder.list at has
  split at has
  · rename_i js
    intro a ha
    obtain ⟨j, hmem, hdecode⟩ := decodes_of_mapM has a ha
    exact ⟨j, Nat.le_trans (depth_le_of_mem_items hmem) (Nat.le_of_succ_le hj), hdecode⟩
  · cases has

/-- A list that may be left out. -/
theorem gives_of_mem_list {decode : Decoder α} {as : List α}
    (h : (list decode).Gives d as ∨ as = []) :
    ∀ a ∈ as, decode.Gives d a := by
  rcases h with h | rfl
  · exact h.list
  · exact List.forall_mem_nil _

theorem mem_of_named {choices : List (String × α)} {name : String} {a : α}
    (h : named choices name = .ok a) :
    (name, a) ∈ choices := by
  unfold named at h
  split at h
  · rename_i hlookup
    cases h
    obtain ⟨before, after, heq, -⟩ := List.lookup_eq_some_iff.mp hlookup
    rw [heq]
    exact List.mem_append_right _ List.mem_cons_self
  · cases h

/-! ### Records

Entries are gone through in their order and fill the fields that they name. The property is kept by
every entry, whatever order they come in. -/

section

variable {γ : Type} {P : α → Prop}

/-- After some entries the remaining fields still make records with the property. -/
theorem makes_of_fields {fs fs' : Fields Decoder α γ} {make : γ} {es : List (String × Json)}
    (h : fs.Makes (Gives d) P make) (hfields : fields fs es = .ok fs')
    (hes : depthOfEntries es ≤ d) :
    fs'.Makes (Gives d) P make := by
  induction es generalizing fs with
  | nil =>
    cases hfields
    exact h
  | cons entry es ih =>
    obtain ⟨key, j⟩ := entry
    obtain ⟨hj, hes⟩ := Nat.max_le.mp hes
    rw [fields] at hfields
    split at hfields
    · exact ih h hfields hes
    · cases hfields
    · rename_i hfill
      refine ih (h.fill (fun read b hrun => ?_) hfill) hfields hes
      obtain ⟨b', hb, heq⟩ := ok_of_map_eq_ok hrun
      cases heq
      exact ⟨j, hj, hb⟩

theorem of_items {fs : Fields Decoder α γ} {make : γ} {title : String} {given count index : Nat}
    {js : List Json} {a : α} (h : fs.Makes (Gives d) P make)
    (hitems : items title given count index fs make js = .ok a) (hjs : depthOfItems js ≤ d) :
    P a := by
  induction fs generalizing index js with
  | done =>
    cases js with
    | nil =>
      cases hitems
      exact h
    | cons j js => cases hitems
  | field name decode fallback slot rest ih =>
    cases js with
    | nil =>
      cases fallback with
      | none => cases hitems
      | some b => exact ih (h b (.inr (.inr rfl))) hitems hjs
    | cons j js =>
      obtain ⟨hj, hjs⟩ := Nat.max_le.mp hjs
      simp only [items] at hitems
      split at hitems
      · cases hitems
      · rename_i b hb
        exact ih (h b (.inr (.inl ⟨j, hj, hb⟩))) hitems hjs

/-- A record is made of what the decoders of its fields make of values that are less deep. -/
theorem Gives.record {r : Record Decoder α} {a : α} (h : (record r).Gives (d + 1) a)
    (hmakes : r.fields.Makes (Gives d) P r.make) : P a := by
  obtain ⟨j, hj, ha⟩ := h
  unfold Decoder.record at ha
  split at ha
  · split at ha
    · cases ha
    · rename_i hfields
      exact (makes_of_fields hmakes hfields (Nat.le_of_succ_le_succ hj)).finish ha
  · exact of_items hmakes ha (Nat.le_of_succ_le_succ hj)
  · cases ha

end

/-! ### Tagged nodes

The tag may come anywhere among the entries. Those in front of it are kept as JSON until it is known
what to do with them, and this is where the depth of a kept value enters. -/

section

variable {t : Tagged α} {a : α}

/-- What is kept of an object while its entries are gone through: the tag, once it is met, has
selected one of the variants, and the depth of the other entries is limited. -/
structure Keeps (t : Tagged α) (d : Nat) (selected : Option (Decoder α))
    (acc : List (String × Json)) : Prop where
  tag : ∀ decode, selected = some decode → ∃ name, (name, decode) ∈ t.variants
  entries : ∀ entry ∈ acc, entry.2.depth ≤ d

theorem keeps_none (t : Tagged α) (d : Nat) : Keeps t d none [] :=
  ⟨nofun, List.forall_mem_nil _⟩

theorem mem_of_select {j : Json} {decode : Decoder α} (h : t.select j = .ok decode) :
    ∃ name, (name, decode) ∈ t.variants := by
  unfold Tagged.select at h
  split at h
  · exact ⟨_, mem_of_named h⟩
  · split at h
    · cases h
    · split at h
      · rename_i name _ hget
        cases h
        exact ⟨name, List.mem_of_getElem? hget⟩
      · cases h
  · cases h

theorem Keeps.finish {selected : Option (Decoder α)} {acc : List (String × Json)}
    (h : Keeps t d selected acc) (hfinish : t.finish selected acc.reverse = .ok a) :
    ∃ variant ∈ t.variants, variant.2.Gives (d + 1) a := by
  cases selected with
  | none => cases hfinish
  | some decode =>
    obtain ⟨name, hname⟩ := h.tag decode rfl
    refine ⟨_, hname, .object acc.reverse,
      Nat.succ_le_succ (depthOfEntries_le fun entry hentry => ?_), hfinish⟩
    exact h.entries entry (List.mem_reverse.mp hentry)

theorem Keeps.selected {selected : Option (Decoder α)} {acc : List (String × Json)}
    {decode : Decoder α} (h : Keeps t d selected acc)
    (hdecode : ∃ name, (name, decode) ∈ t.variants) : Keeps t d (some decode) acc := by
  refine ⟨fun decode' heq => ?_, h.entries⟩
  cases heq
  exact hdecode

theorem Keeps.entry {selected : Option (Decoder α)} {acc : List (String × Json)} {key : String}
    {j : Json} (h : Keeps t d selected acc) (hj : j.depth ≤ d) :
    Keeps t d selected ((key, j) :: acc) :=
  ⟨h.tag, List.forall_mem_cons.mpr ⟨hj, h.entries⟩⟩

/-- What is kept at the last entry is what the selected decoder is given. -/
theorem Keeps.decodeEntries {selected : Option (Decoder α)} {acc es : List (String × Json)}
    (h : Keeps t d selected acc) (ha : t.decodeEntries selected acc es = .ok a)
    (hes : depthOfEntries es ≤ d) :
    ∃ variant ∈ t.variants, variant.2.Gives (d + 1) a := by
  induction es generalizing selected acc with
  | nil => exact h.finish ha
  | cons entry es ih =>
    obtain ⟨key, j⟩ := entry
    obtain ⟨hj, hes⟩ := Nat.max_le.mp hes
    rw [Tagged.decodeEntries] at ha
    split at ha
    · split at ha
      · cases ha
      · split at ha
        · cases ha
        · rename_i hselect
          exact ih (h.selected (mem_of_select hselect)) ha hes
    · exact ih (h.entry hj) ha hes

/-- A tagged node is an object or an array. It is decoded by the decoder of one of the variants,
from a body that is no deeper than the node. -/
theorem Gives.tagged (h : Decoder.Gives d t.decode a) :
    0 < d ∧ ∃ variant ∈ t.variants, variant.2.Gives d a := by
  obtain ⟨j, hj, ha⟩ := h
  unfold Tagged.decode at ha
  split at ha
  · obtain ⟨variant, hvariant, hgives⟩ := (keeps_none t _).decodeEntries ha (Nat.le_refl _)
    exact ⟨Nat.lt_of_lt_of_le (Nat.succ_pos _) hj, variant, hvariant, hgives.mono hj⟩
  · cases ha
  · split at ha
    · cases ha
    · rename_i hselect
      obtain ⟨name, hname⟩ := mem_of_select hselect
      refine ⟨Nat.lt_of_lt_of_le (Nat.succ_pos _) hj, _, hname, _,
        Nat.le_trans (Nat.succ_le_succ ?_) hj, ha⟩
      exact Nat.le_max_right _ _
  · cases ha

end

end Decoder

/-! ## Readers

The same for readers, which work on text. A reader consumes what it reads, so its recursion is on
the length of the text. -/

namespace Reader

section

variable {α : Type u} {β : Type v}

theorem Gives.behindColon {r : Reader α} {a : α} (h : r.behindColon.Gives a) : r.Gives a := by
  obtain ⟨cs, rest, h⟩ := h
  simp only [Reader.behindColon] at h
  split at h
  · cases h
  · exact ⟨_, rest, h⟩

theorem Gives.filterMap {r : Reader α} {check : α → Except Fault β} {b : β}
    (h : (r.filterMap check).Gives b) :
    ∃ a, r.Gives a ∧ check a = .ok b := by
  obtain ⟨cs, rest, h⟩ := h
  obtain ⟨a, ha, hcheck⟩ := checked_eq_ok.mp h
  exact ⟨a, ⟨cs, rest, ha⟩, hcheck⟩

/-- Every item that is read is given by the reader of items. -/
theorem gives_of_items {item : Reader α} {first : Bool} {acc result : List α} {cs rest : List Char}
    (h : items item first acc cs = .ok (result, rest)) (hacc : ∀ a ∈ acc, item.Gives a) :
    ∀ a ∈ result, item.Gives a := by
  fun_induction items item first acc cs with
  | case1 => cases h
  | case2 => cases h
  | case3 =>
    cases h
    exact fun a ha => hacc a (List.mem_reverse.mp ha)
  | case4 => cases h
  | case5 first acc cs left _ a rest' hitem ih =>
    refine ih h fun a' ha' => ?_
    rcases List.mem_cons.mp ha' with rfl | ha'
    · exact ⟨left, rest', hitem⟩
    · exact hacc a' ha'

/-- What every step keeps holds of the state behind the last entry. -/
theorem invariant_of_entries {σ : Type u} {step : σ → String → Reader σ} {I : σ → Prop}
    (hstep : ∀ state key state', I state → (step state key).Gives state' → I state') {first : Bool}
    {state result : σ}
    {cs rest : List Char} (h : entries step first state cs = .ok (result, rest))
    (hstate : I state) : I result := by
  fun_induction entries step first state cs with
  | case1 => cases h
  | case2 =>
    cases h
    exact hstate
  | case3 => cases h
  | case4 first state cs key left _ state' rest' hentry ih =>
    exact ih h (hstep _ _ _ hstate ⟨left, rest', hentry⟩)

end

theorem gives_of_all {α : Type u} {r : Reader α} {text : String} {a : α} (h : r.all text = .ok a) :
    r.Gives a := by
  unfold Reader.all at h
  split at h
  · cases h
  · rename_i hrun
    split at h
    · cases h
      exact ⟨_, _, hrun⟩
    · cases h

/-! ## Values

A JSON value is kept as it is read, and it is bounded by the number of arrays and objects that the
reader was allowed to open. -/

/-- What is read has one of three shapes. -/
theorem HasShapes.of_gives {α : Type u} {r : Reader α}
    {array object scalar : List Char → Except Fault (α × List Char)}
    (hr : HasShapes r array object scalar) {a : α} (h : r.Gives a) :
    (∃ cs rest, array cs = .ok (a, rest)) ∨ (∃ cs rest, object cs = .ok (a, rest)) ∨ ∃ cs rest,
      scalar cs = .ok (a, rest) := by
  obtain ⟨cs, rest, h⟩ := h
  rw [hr] at h
  split at h
  · exact .inl ⟨_, rest, h⟩
  · exact .inr (.inl ⟨_, rest, h⟩)
  · exact .inr (.inr ⟨_, rest, h⟩)

theorem depth_of_scalar {cs rest : List Char} {j : Json} (h : Scan.scalar cs = .ok (j, rest)) :
    j.depth = 0 := by
  unfold Scan.scalar at h
  split at h
  case h_6 => cases h
  case h_7 =>
    split at h
    · obtain ⟨_, -, heq⟩ := Scan.bind_eq_ok.mp h
      cases heq
      rfl
    · cases h
  all_goals
    obtain ⟨_, -, heq⟩ := Scan.bind_eq_ok.mp h
    cases heq
    rfl

/-- The entries of an object that is kept are values of its reader. -/
theorem gives_of_entries_keep {item : Reader Json} {result : List (String × Json)}
    {cs rest : List Char} (h : entries (keep item) true [] cs = .ok (result, rest)) :
    ∀ entry ∈ result, item.Gives entry.2 := by
  refine invariant_of_entries (I := fun acc => ∀ entry ∈ acc,
    item.Gives entry.2) ?_ h (List.forall_mem_nil _)
  intro acc key acc' hacc hgives
  obtain ⟨j, hj, hkeep⟩ := hgives.filterMap
  cases hkeep
  exact List.forall_mem_cons.mpr ⟨hj.behindColon, hacc⟩

/-- **A value that is read opens no more arrays and objects than are allowed.** -/
theorem Gives.depth_le {d : Nat} {j : Json} (h : (value d).Gives j) : j.depth ≤ d := by
  induction d generalizing j with
  | zero =>
    rcases HasShapes.of_gives (fun _ => rfl) h with ⟨cs, rest, h⟩ | ⟨cs, rest, h⟩ | ⟨cs, rest, h⟩
    · cases h
    · cases h
    · exact Nat.le_of_eq (depth_of_scalar h)
  | succ d ih =>
    rcases HasShapes.of_gives (fun _ => rfl) h with ⟨cs, rest, h⟩ | ⟨cs, rest, h⟩ | ⟨cs, rest, h⟩
    · obtain ⟨js, hitems, heq⟩ := checked_eq_ok.mp h
      cases heq
      exact Nat.succ_le_succ
        (depthOfItems_le fun j hj => ih (gives_of_items hitems (List.forall_mem_nil _) j hj))
    · obtain ⟨es, hentries, heq⟩ := checked_eq_ok.mp h
      cases heq
      refine Nat.succ_le_succ (depthOfEntries_le fun entry hentry => ih ?_)
      exact gives_of_entries_keep hentries entry (List.mem_reverse.mp hentry)
    · exact Nat.le_trans (Nat.le_of_eq (depth_of_scalar h)) (Nat.zero_le _)

theorem Gives.list {α : Type u} {item : Reader α} {as : List α} (h : (list item).Gives as) :
    ∀ a ∈ as, item.Gives a := by
  rcases HasShapes.of_gives (fun _ => rfl) h with ⟨cs, rest, h⟩ | ⟨cs, rest, h⟩ | ⟨cs, rest, h⟩
  · exact gives_of_items h (List.forall_mem_nil _)
  · cases h
  · exact absurd h refuseScalar_ne_ok

/-! ## Records -/

section

variable {α γ : Type} {P : α → Prop}

theorem makes_of_fieldEntry {fs fs' : Fields Reader α γ} {make : γ} {key : String}
    (h : fs.Makes Gives P make) (hentry : (fieldEntry fs key).Gives fs') :
    fs'.Makes Gives P make := by
  obtain ⟨cs, rest, hentry⟩ := hentry
  simp only [fieldEntry] at hentry
  split at hentry
  · rename_i hfill
    subst hentry
    refine h.fill (fun read b hrun => ?_) hfill
    exact Gives.behindColon ⟨cs, rest, hrun⟩
  · -- An entry that nobody knows is skipped.
    obtain ⟨_, -, heq⟩ := checked_eq_ok.mp hentry
    cases heq
    exact h

theorem of_fieldItems {fs : Fields Reader α γ} {make : γ} {title : String} {count index : Nat}
    {first : Bool} {cs rest : List Char} {a : α} (h : fs.Makes Gives P make)
    (hitems : fieldItems title count index first fs make cs = .ok (a, rest)) : P a := by
  induction fs generalizing index first cs with
  | done =>
    rw [fieldItems] at hitems
    split at hitems
    · cases hitems
    · cases hitems
      exact h
  | field name read fallback slot others ih =>
    simp only [fieldItems] at hitems
    split at hitems
    · cases hitems
    · split at hitems
      · cases hitems
      · rename_i hrun
        exact ih (h _ (.inr (.inl ⟨_, _, hrun⟩))) hitems
    · split at hitems
      · exact ih (h _ (.inr (.inr rfl))) hitems
      · cases hitems

/-- A record that is read is made of what the readers of its fields give. -/
theorem Gives.record {r : Record Reader α} {a : α} (h : (record r).Gives a)
    (hmakes : r.fields.Makes Gives P r.make) :
    P a := by
  rcases HasShapes.of_gives (fun _ => rfl) h with ⟨cs, rest, h⟩ | ⟨cs, rest, h⟩ | ⟨cs, rest, h⟩
  · exact of_fieldItems hmakes h
  · obtain ⟨fs, hentries, hfinish⟩ := checked_eq_ok.mp h
    have hfilled :=
      invariant_of_entries (I := fun fs : Fields Reader α _ => fs.Makes Gives P r.make)
      (fun _ _ _ hfs hentry => makes_of_fieldEntry hfs hentry) hentries hmakes
    exact hfilled.finish hfinish
  · exact absurd h refuseScalar_ne_ok

end

/-! ## Tagged nodes -/

section

variable {α : Type} {t : Tagged α} {d : Nat} {a : α}

theorem mem_of_tag {decode : Decoder α} (h : (tag t).Gives decode) :
    ∃ name, (name, decode) ∈ t.variants := by
  rcases HasShapes.of_gives (fun _ => rfl) h with ⟨cs, rest, h⟩ | ⟨cs, rest, h⟩ | ⟨cs, rest, h⟩
  · cases h
  · cases h
  · obtain ⟨j, -, hj⟩ := checked_eq_ok.mp h
    split at hj
    · exact ⟨_, Decoder.mem_of_named hj⟩
    · cases hj

theorem keeps_of_taggedEntry {state state' : Option (Decoder α) × List (String × Json)}
    {key : String} (h : Decoder.Keeps t d state.1 state.2)
    (hentry : (taggedEntry t (value d) state key).Gives state') :
    Decoder.Keeps t d state'.1 state'.2 := by
  unfold taggedEntry at hentry
  split at hentry
  · split at hentry
    · obtain ⟨cs, rest, hentry⟩ := hentry
      cases hentry
    · obtain ⟨decode, hdecode, heq⟩ := hentry.filterMap
      cases heq
      exact h.selected (mem_of_tag hdecode.behindColon)
  · obtain ⟨j, hj, heq⟩ := hentry.filterMap
    cases heq
    exact h.entry hj.behindColon.depth_le

/-- **A tagged node is decoded from a body of limited depth**, by the decoder of one of the
variants. -/
theorem Gives.tagged (h : (tagged t d).Gives a) :
    0 < d ∧ ∃ variant ∈ t.variants, variant.2.Gives d a := by
  cases d with
  | zero =>
    rcases HasShapes.of_gives (fun _ => rfl) h with ⟨cs, rest, h⟩ | ⟨cs, rest, h⟩ | ⟨cs, rest, h⟩
    · cases h
    · cases h
    · exact absurd h refuseScalar_ne_ok
  | succ d =>
    refine ⟨Nat.succ_pos d, ?_⟩
    rcases HasShapes.of_gives (fun _ => rfl) h with ⟨cs, rest, h⟩ | ⟨cs, rest, h⟩ | ⟨cs, rest, h⟩
    · unfold taggedItems at h
      split at h
      · cases h
      · cases h
      · split at h
        · cases h
        · rename_i htag
          obtain ⟨name, hname⟩ := mem_of_tag ⟨_, _, htag⟩
          obtain ⟨js, hitems, hdecode⟩ := checked_eq_ok.mp h
          -- Behind the tag the items are read one level further in, and so is the array that is
          -- made of them.
          refine ⟨_, hname, .array js, Nat.succ_le_succ (depthOfItems_le fun j hj => ?_), hdecode⟩
          exact (gives_of_items hitems (List.forall_mem_nil _) j hj).depth_le
    · obtain ⟨state, hentries, hfinish⟩ := checked_eq_ok.mp h
      -- Of an object the entries are kept while the tag is looked for, each of them less deep than
      -- the node.
      have hkeeps := invariant_of_entries (I := fun state => Decoder.Keeps t d state.1 state.2)
        (fun _ _ _ hstate hentry => keeps_of_taggedEntry hstate hentry) hentries
          (Decoder.keeps_none t d)
      exact hkeeps.finish hfinish
    · exact absurd h refuseScalar_ne_ok

end

end Reader

end StackCode.Json
