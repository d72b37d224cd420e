import StackCode.Proofs.Json.Reads

/-!
# Records from the entries of an object

Which entries make which record is said here of the entries as a whole: each field is given once, or
left out if it may be, and entries with other names do not matter. `Fields.Accepts` says so of the
fields that are still to be filled, whether from JSON values or from text. Filling a field with the
next entry keeps it (`Accepts.fill`), and once there are no more entries it says what record is
made.

A tagged node gives its tag once, and the other entries make the record that the tag selects.

An entry that is given twice is a fault, so it is no help that the two values agree. An entry with
an unknown name is passed over, as often as it comes. `valuesOf` is the list of what was given for a
name, and a field is given if that list has one member.

What is made depends on the entries only through `valuesOf`, and hence not on their order. This is
not stated as a lemma on permutations of entries, because it is never needed in that form: whoever
writes a tree says what is given for each name, and the order does not come up.
-/

set_option autoImplicit false

namespace StackCode.Json

/-! ## Fields among entries -/

/-- The values that entries give for a name, in order. -/
def valuesOf (name : String) : List (String × Json) → List Json
  | [] => []
  | (key, j) :: entries => if key = name then j :: valuesOf name entries else valuesOf name entries

/-- The entries give a field, once, by a value with the property. -/
def Given (entries : List (String × Json)) (name : String) (P : Json → Prop) : Prop :=
  ∃ j, valuesOf name entries = [j] ∧ P j

/-- The entries give a field, or leave it out where that is allowed. -/
def GivenOr (entries : List (String × Json)) (name : String) (omissible : Prop) (P : Json → Prop) :
    Prop :=
  Given entries name P ∨ omissible ∧ valuesOf name entries = []

theorem valuesOf_cons_self {name : String} {j : Json} {entries : List (String × Json)} :
    valuesOf name ((name, j) :: entries) = j :: valuesOf name entries := by
  rw [valuesOf, if_pos rfl]

theorem valuesOf_cons_ne {name key : String} (h : key ≠ name) {j : Json}
    {entries : List (String × Json)} :
    valuesOf name ((key, j) :: entries) = valuesOf name entries := by
  rw [valuesOf, if_neg h]

/-- The entries with other names than `key`. -/
def others (key : String) (entries : List (String × Json)) : List (String × Json) :=
  entries.filter fun entry => entry.1 ≠ key

theorem others_cons_self {key : String} {j : Json} {entries : List (String × Json)} :
    others key ((key, j) :: entries) = others key entries := by
  simp [others]

theorem others_cons_ne {key key' : String} (h : key' ≠ key) {j : Json}
    {entries : List (String × Json)} :
    others key ((key', j) :: entries) = (key', j) :: others key entries := by
  simp [others, h]

/-- Taking out the entries of one name leaves those of every other. -/
theorem valuesOf_others {key name : String} (h : name ≠ key) (entries : List (String × Json)) :
    valuesOf name (others key entries) = valuesOf name entries := by
  induction entries with
  | nil => rfl
  | cons entry entries ih =>
    obtain ⟨key', j⟩ := entry
    by_cases hkey : key' = key
    · subst hkey
      rw [others_cons_self, valuesOf_cons_ne h.symm, ih]
    · rw [others_cons_ne hkey, valuesOf, valuesOf, ih]

theorem others_eq_self {key : String} {entries : List (String × Json)}
    (h : valuesOf key entries = []) :
    others key entries = entries := by
  induction entries with
  | nil => rfl
  | cons entry entries ih =>
    obtain ⟨key', j⟩ := entry
    by_cases hkey : key' = key
    · subst hkey
      rw [valuesOf_cons_self] at h
      cases h
    · rw [valuesOf_cons_ne hkey] at h
      rw [others_cons_ne hkey, ih h]

theorem depthOfEntries_others_le (key : String) (entries : List (String × Json)) :
    depthOfEntries (others key entries) ≤ depthOfEntries entries := by
  induction entries with
  | nil => exact Nat.le_refl _
  | cons entry entries ih =>
    unfold others at ih ⊢
    rw [List.filter_cons, depthOfEntries]
    split
    · rw [depthOfEntries]
      exact Nat.max_le.mpr ⟨Nat.le_max_left _ _, Nat.le_trans ih (Nat.le_max_right _ _)⟩
    · exact Nat.le_trans ih (Nat.le_max_right _ _)

/-! ## Fields still to be filled

A field is in one of two states. It has been filled, and must not be given again; or it has not, and
is given once among the entries to come, unless it may be left out. -/

section

variable {R : Type → Type} {α β : Type} (reads : {β : Type} → R β → Json → β → Prop) (depth : Nat)

/-- Values of limited depth that are written as `form` says are read back. -/
def Fits (form : β → Json → Prop) (read : R β) : Prop :=
  ∀ b j, form b j → j.depth ≤ depth → reads read j b

namespace Fields

/-- The names of fields. -/
def names {γ : Type} : Fields R α γ → List String
  | .done => []
  | .field name _ _ _ rest => name :: rest.names

/-- After the entries to come a field has the value `b`. One that has been filled is not given
again. -/
def Gets (entries : List (String × Json)) (name : String) (read : R β) (fallback slot : Option β)
    (b : β) : Prop :=
  match slot with
  | some b' => b' = b ∧ valuesOf name entries = []
  | none => GivenOr entries name (fallback = some b) fun j => j.depth ≤ depth → reads read j b

/-- The entries to come fill the fields so that `a` is made. -/
def Accepts {γ : Type} : Fields R α γ → γ → List (String × Json) → α → Prop
  | .done, made, _, a => made = a
  | .field name read fallback slot rest, make, entries, a =>
    ∃ b, Gets reads depth entries name read fallback slot b ∧ rest.Accepts (make b) entries a

end Fields

end

namespace Fields

section

variable {R : Type → Type} {α β γ : Type} {reads : {β : Type} → R β → Json → β → Prop} {depth : Nat}
  {entries : List (String × Json)} {a : α}

theorem accepts_required {name : String} {read : R β} {rest : Fields R α γ} {make : β → γ}
    {form : β → Json → Prop} {b : β} (hfits : Fits reads depth form read)
    (h : Given entries name (form b)) (hrest : rest.Accepts reads depth (make b) entries a) :
    (required name read rest).Accepts reads depth make entries a := by
  obtain ⟨j, hj, hform⟩ := h
  exact ⟨b, .inl ⟨j, hj, hfits b j hform⟩, hrest⟩

/-- A field that may be left out, and is given or has its fallback for a value. -/
theorem accepts_optional {name : String} {read : R β} {fallback : β} {rest : Fields R α γ}
    {make : β → γ} {form : β → Json → Prop} {b : β} (hfits : Fits reads depth form read)
    (h : GivenOr entries name (b = fallback) (form b))
    (hrest : rest.Accepts reads depth (make b) entries a) :
    (optional name read fallback rest).Accepts reads depth make entries a := by
  refine ⟨b, ?_, hrest⟩
  rcases h with ⟨j, hj, hform⟩ | ⟨rfl, hnone⟩
  · exact .inl ⟨j, hj, hfits b j hform⟩
  · exact .inr ⟨rfl, hnone⟩

/-- Entries with other names do not matter to a field. -/
theorem Gets.congr {entries' : List (String × Json)} {name : String} {read : R β}
    {fallback slot : Option β} {b : β} (h : Gets reads depth entries name read fallback slot b)
    (heq : valuesOf name entries = valuesOf name entries') :
    Gets reads depth entries' name read fallback slot b := by
  unfold Gets GivenOr Given at h ⊢
  rwa [heq] at h

/-- A field that is given next has not been filled before, and is not given again. -/
theorem Gets.next {name : String} {read : R β} {fallback slot : Option β} {b : β} {j : Json}
    (h : Gets reads depth ((name, j) :: entries) name read fallback slot b) :
    slot = none ∧ (j.depth ≤ depth → reads read j b) ∧ valuesOf name entries = [] := by
  unfold Gets GivenOr Given at h
  rw [valuesOf_cons_self] at h
  cases slot with
  | some b' => cases h.2
  | none =>
    rcases h with ⟨j', hj', hread⟩ | ⟨-, hnone⟩
    · obtain ⟨rfl, hnone⟩ := List.cons.inj hj'
      exact ⟨rfl, hread, hnone⟩
    · cases hnone

/-- Where nothing is to come the value is there already. -/
theorem Gets.last {name : String} {read : R β} {fallback slot : Option β} {b : β}
    (h : Gets reads depth [] name read fallback slot b) : slot.or fallback = some b := by
  cases slot with
  | some b' => exact congrArg some h.1
  | none =>
    rcases h with ⟨j, hj, -⟩ | ⟨hfallback, -⟩
    · cases hj
    · exact hfallback

/-- Only the entries with names of fields count. -/
theorem Accepts.congr {fs : Fields R α γ} {make : γ} {entries' : List (String × Json)}
    (h : fs.Accepts reads depth make entries a)
    (heq : ∀ name ∈ fs.names, valuesOf name entries = valuesOf name entries') :
    fs.Accepts reads depth make entries' a := by
  induction fs with
  | done => exact h
  | field name read fallback slot rest ih =>
    obtain ⟨b, hb, hrest⟩ := h
    refine ⟨b, hb.congr (heq name List.mem_cons_self), ih hrest fun name' hname' => ?_⟩
    exact heq name' (List.mem_cons_of_mem _ hname')

/-- **One entry fills one field**, the one with its name, or none if no field has that name,
whatever the fields are read from. -/
theorem Accepts.fill {fs : Fields R α γ} {make : γ} {key : String} {j : Json}
    (h : fs.Accepts reads depth make ((key, j) :: entries) a) (hnodup : fs.names.Nodup)
    (hj : j.depth ≤ depth) :
    (fs.Accepts reads depth make entries a ∧
        ∀ {ρ ρ' : Type} (run : {β : Type} → R β → ρ → Except Fault (β × ρ')) (source : ρ),
          fs.fill run key source = none) ∨
      ∃ fs' : Fields R α γ, fs'.names = fs.names ∧ fs'.Accepts reads depth make entries a ∧
        ∀ {ρ ρ' : Type} (run : {β : Type} → R β → ρ → Except Fault (β × ρ'))
          (source : ρ) (left : ρ'),
          (∀ {β : Type} (read : R β) (b : β), reads read j b → run read source = .ok (b, left)) →
            fs.fill run key source = some (.ok (fs', left)) := by
  induction fs with
  | done => exact .inl ⟨h, fun _ _ => rfl⟩
  | field name read fallback slot rest ih =>
    obtain ⟨b, hb, hrest⟩ := h
    obtain ⟨hnew, hnodup⟩ := List.nodup_cons.mp hnodup
    by_cases hkey : name = key
    · subst hkey
      obtain ⟨rfl, hread, hnone⟩ := hb.next
      -- The fields behind have other names, so they do not see the entry.
      have hothers : rest.Accepts reads depth (make b) entries a := by
        refine hrest.congr fun name' hname' => valuesOf_cons_ne ?_
        intro heq
        exact hnew (heq ▸ hname')
      refine .inr ⟨.field name read fallback (some b) rest, rfl, ⟨b, ⟨rfl, hnone⟩, hothers⟩, ?_⟩
      intro ρ ρ' run source left hrun
      simp only [Fields.fill, if_pos, hrun read b (hread hj)]
    · have hb' := hb.congr (valuesOf_cons_ne (Ne.symm hkey))
      rcases ih hrest hnodup with ⟨hmore, hnone⟩ | ⟨rest', hnames, hmore, hfill⟩
      · refine .inl ⟨⟨b, hb', hmore⟩, fun run source => ?_⟩
        simp only [Fields.fill, if_neg hkey, hnone run source]
      · refine .inr ⟨.field name read fallback slot rest', ?_, ⟨b, hb', hmore⟩, ?_⟩
        · simp only [names, hnames]
        · intro ρ ρ' run source left hrun
          simp only [Fields.fill, if_neg hkey, hfill run source left hrun]

/-- Once there are no more entries the record is made. -/
theorem Accepts.finish {fs : Fields R α γ} {make : γ} (h : fs.Accepts reads depth make [] a) :
    fs.finish make = .ok a := by
  induction fs with
  | done => exact congrArg Except.ok h
  | field name read fallback slot rest ih =>
    obtain ⟨b, hb, hrest⟩ := h
    simp only [Fields.finish, hb.last]
    exact ih hrest

end

end Fields

/-! ## Records

The induction is along the entries. One entry fills one field, and what it does to the others is
nothing. -/

/-- The decoder decodes the value as `a`. -/
def Decoder.Decodes {α : Type} (decode : Decoder α) (j : Json) (a : α) : Prop :=
  decode j = .ok a

section

variable {α : Type} {depth : Nat} {es : List (String × Json)} {a : α}

theorem Decoder.fields_of_accepts {γ : Type} {fs : Fields Decoder α γ} {make : γ}
    (h : fs.Accepts Decodes depth make es a) (hnodup : fs.names.Nodup)
    (hdepth : depthOfEntries es ≤ depth) :
    ∃ fs', Decoder.fields fs es = .ok fs' ∧ fs'.finish make = .ok a := by
  induction es generalizing fs with
  | nil => exact ⟨fs, rfl, h.finish⟩
  | cons entry es ih =>
    obtain ⟨key, j⟩ := entry
    obtain ⟨hj, hes⟩ := Nat.max_le.mp hdepth
    rcases h.fill hnodup hj with ⟨hmore, hnone⟩ | ⟨fs', hnames, hmore, hfill⟩
    · obtain ⟨after, hafter, hmake⟩ := ih hmore hnodup hes
      exact ⟨after, by simp only [Decoder.fields, hnone, hafter], hmake⟩
    · obtain ⟨after, hafter, hmake⟩ := ih hmore (hnames ▸ hnodup) hes
      have hrun := hfill (fun decode v => (decode v).map fun b => (b, ())) j () (by
        intro _ decode b hb
        rw [hb]
        rfl)
      exact ⟨after, by simp only [Decoder.fields, hrun, hafter], hmake⟩

/-- A record is decoded from any object whose entries make it. -/
theorem Decoder.record_of_accepts {r : Record Decoder α}
    (h : r.fields.Accepts Decodes depth r.make es a) (hnodup : r.fields.names.Nodup)
    (hdepth : depthOfEntries es ≤ depth) : (record r).Decodes (.object es) a := by
  obtain ⟨fs', hfields, hmake⟩ := fields_of_accepts h hnodup hdepth
  simp only [Decodes, record, hfields, hmake]

/-- The entries that are left when a tag is taken out make the same record. -/
theorem Decoder.record_of_accepts_others {r : Record Decoder α} {key : String}
    (h : r.fields.Accepts Decodes depth r.make es a) (hnames : (key :: r.fields.names).Nodup)
    (hdepth : depthOfEntries es ≤ depth) : (record r).Decodes (.object (others key es)) a := by
  obtain ⟨hkey, hnodup⟩ := List.nodup_cons.mp hnames
  refine record_of_accepts (h.congr fun name hname => ?_) hnodup ?_
  · have hne : name ≠ key := fun heq => hkey (heq ▸ hname)
    exact (valuesOf_others hne es).symm
  · exact Nat.le_trans (depthOfEntries_others_le key es) hdepth

theorem Reader.readsEntries_fieldEntry {γ : Type} {fs : Fields Reader α γ} {make : γ}
    (h : fs.Accepts Reads depth make es a) (hnodup : fs.names.Nodup)
    (hdepth : depthOfEntries es ≤ depth) :
    ∃ fs', ReadsEntries fieldEntry fs es fs' ∧ fs'.finish make = .ok a := by
  induction es generalizing fs with
  | nil => exact ⟨fs, .nil fs, h.finish⟩
  | cons entry es ih =>
    obtain ⟨key, j⟩ := entry
    obtain ⟨hj, hes⟩ := Nat.max_le.mp hdepth
    rcases h.fill hnodup hj with ⟨hmore, hnone⟩ | ⟨fs', hnames, hmore, hfill⟩
    · obtain ⟨after, hafter, hmake⟩ := ih hmore hnodup hes
      refine ⟨after, .cons ?_ hafter, hmake⟩
      -- Nobody knows the entry, so its value is skipped, however deep it is.
      intro text ws ws' rest htext hws hws' hrest
      simp only [fieldEntry, hnone]
      exact checked_eq_ok.mpr ⟨(), (reads_skip j).behindColon htext hws hws' hrest, rfl⟩
    · obtain ⟨after, hafter, hmake⟩ := ih hmore (hnames ▸ hnodup) hes
      refine ⟨after, .cons ?_ hafter, hmake⟩
      intro text ws ws' rest htext hws hws' hrest
      have hrun := hfill (fun r cs => r.behindColon.run cs) _ rest fun r b hb =>
          hb.behindColon htext hws hws' hrest
      simp only [fieldEntry, hrun]

/-- A record is read from any object whose entries make it. -/
theorem Reader.record_of_accepts {r : Record Reader α}
    (h : r.fields.Accepts Reads depth r.make es a) (hnodup : r.fields.names.Nodup)
    (hdepth : depthOfEntries es ≤ depth) : (record r).Reads (.object es) a := by
  obtain ⟨fs', hentries, hmake⟩ := readsEntries_fieldEntry h hnodup hdepth
  apply HasShapes.reads_object fun _ => rfl
  intro text htext rest
  exact checked_eq_ok.mpr ⟨fs', entries_of_reads hentries htext rest, hmake⟩

end

/-! ## Tagged nodes

The tag is taken out of the entries, wherever it stands, and the others are decoded as a record. For
readers the entries in front of the tag have been kept and are decoded later than those behind it
would be, with the same result. -/

section

variable {α : Type} {t : Tagged α} {es : List (String × Json)} {tag : String}
    {decode : Decoder α} {a : α}

/-- The entries give a tag, once, and what it selects decodes the others. -/
def Tagged.Selects (t : Tagged α) (es : List (String × Json)) (a : α) : Prop :=
  ∃ tag decode, Given es t.key (· = .string tag) ∧ Decoder.named t.variants tag = .ok decode ∧
    decode.Decodes (.object (others t.key es)) a

/-- Entries without the tag are kept, in reverse. -/
theorem Tagged.decodeEntries_of_absent (h : valuesOf t.key es = []) (selected : Option (Decoder α))
    (acc : List (String × Json)) :
    t.decodeEntries selected acc es = t.finish selected (acc.reverse ++ es) := by
  induction es generalizing acc with
  | nil => rw [decodeEntries, List.append_nil]
  | cons entry es ih =>
    obtain ⟨key, j⟩ := entry
    by_cases hkey : key = t.key
    · subst hkey
      rw [valuesOf_cons_self] at h
      cases h
    · rw [valuesOf_cons_ne hkey] at h
      rw [decodeEntries, if_neg hkey, ih h, List.reverse_cons, List.append_assoc,
        List.singleton_append]

/-- The tag may stand anywhere. -/
theorem Tagged.decodeEntries_of_given (h : valuesOf t.key es = [.string tag])
    (hnamed : Decoder.named t.variants tag = .ok decode) (acc : List (String × Json)) :
    t.decodeEntries none acc es = decode (.object (acc.reverse ++ others t.key es)) := by
  induction es generalizing acc with
  | nil => cases h
  | cons entry es ih =>
    obtain ⟨key, j⟩ := entry
    by_cases hkey : key = t.key
    · subst hkey
      rw [valuesOf_cons_self] at h
      obtain ⟨rfl, hnone⟩ := List.cons.inj h
      -- Behind the tag no other is to come.
      rw [decodeEntries, if_pos rfl, if_neg (by simp), others_cons_self, others_eq_self hnone]
      simp only [select, hnamed]
      rw [decodeEntries_of_absent hnone]
      rfl
    · rw [valuesOf_cons_ne hkey] at h
      rw [decodeEntries, if_neg hkey, ih h, others_cons_ne hkey, List.reverse_cons,
        List.append_assoc, List.singleton_append]

/-- A tagged node is decoded as its tag says. -/
theorem Tagged.Selects.decodes (h : t.Selects es a) : Decoder.Decodes t.decode (.object es) a := by
  obtain ⟨tag, decode, ⟨_, hgiven, rfl⟩, hnamed, hbody⟩ := h
  rw [Decoder.Decodes, Tagged.decode, decodeEntries_of_given hgiven hnamed]
  exact hbody

theorem Reader.readsEntries_taggedEntry_absent {item : Reader Json}
    (hitem : ∀ key j, (key, j) ∈ es → item.Reads j j) (h : valuesOf t.key es = [])
    (selected : Option (Decoder α)) (acc : List (String × Json)) :
    ReadsEntries (taggedEntry t item) (selected, acc) es (selected, es.reverse ++ acc) := by
  induction es generalizing acc with
  | nil => exact .nil _
  | cons entry es ih =>
    obtain ⟨key, j⟩ := entry
    by_cases hkey : key = t.key
    · subst hkey
      rw [valuesOf_cons_self] at h
      cases h
    · rw [valuesOf_cons_ne hkey] at h
      have hread := hitem key j List.mem_cons_self
      rw [List.reverse_cons, List.append_assoc, List.singleton_append]
      refine .cons ?_ (ih (fun key' j' hmem => hitem key' j' (List.mem_cons_of_mem _ hmem)) h _)
      rw [taggedEntry, if_neg hkey]
      exact hread.behindColon.filterMap rfl

theorem Reader.readsEntries_taggedEntry_given {item : Reader Json}
    (hitem : ∀ key j, (key, j) ∈ es → item.Reads j j) (h : valuesOf t.key es = [.string tag])
    (hnamed : Decoder.named t.variants tag = .ok decode) (acc : List (String × Json)) :
    ReadsEntries (taggedEntry t item) (none, acc) es (some decode,
      (others t.key es).reverse ++ acc) := by
  induction es generalizing acc with
  | nil => cases h
  | cons entry es ih =>
    obtain ⟨key, j⟩ := entry
    have hmore : ∀ key j, (key, j) ∈ es → item.Reads j j :=
      fun key' j' hmem => hitem key' j' (List.mem_cons_of_mem _ hmem)
    -- The tag is here or further on. Once it has been met it does not come again.
    by_cases hkey : key = t.key
    · subst hkey
      rw [valuesOf_cons_self] at h
      obtain ⟨rfl, hnone⟩ := List.cons.inj h
      have htag : (Reader.tag t).Reads (.string tag) decode := reads_scalar rfl hnamed
      rw [others_cons_self, others_eq_self hnone]
      refine .cons ?_ (readsEntries_taggedEntry_absent hmore hnone _ _)
      rw [taggedEntry, if_pos rfl, if_neg (by simp)]
      exact htag.behindColon.filterMap rfl
    · rw [valuesOf_cons_ne hkey] at h
      have hread := hitem key j List.mem_cons_self
      rw [others_cons_ne hkey, List.reverse_cons, List.append_assoc, List.singleton_append]
      refine .cons ?_ (ih hmore h _)
      rw [taggedEntry, if_neg hkey]
      exact hread.behindColon.filterMap rfl

/-- A tagged node is read as its tag says, if its entries open no more arrays and objects at once
than are allowed. -/
theorem Tagged.Selects.reads {depth : Nat} (h : t.Selects es a)
    (hdepth : depthOfEntries es ≤ depth) :
    (Reader.tagged t (depth + 1)).Reads (.object es) a := by
  obtain ⟨tag, decode, ⟨_, hgiven, rfl⟩, hnamed, hbody⟩ := h
  have hitem : ∀ key j, (key, j) ∈ es → (Reader.value depth).Reads j j := by
    intro key j hmem
    exact Reader.reads_value (Nat.le_trans (depth_le_of_mem_entries hmem) hdepth)
  have hentries := Reader.readsEntries_taggedEntry_given hitem hgiven hnamed []
  apply Reader.HasShapes.reads_object fun _ => rfl
  intro text htext rest
  refine Reader.checked_eq_ok.mpr ⟨_, Reader.entries_of_reads hentries htext rest, ?_⟩
  rw [List.append_nil, List.reverse_reverse]
  exact hbody

end

end StackCode.Json
