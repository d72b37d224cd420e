import Mathlib.Data.List.Forall2
import StackCode.Json.Typed
import StackCode.Proofs.Json.Scan

/-!
# Readers read what is written

`r.Reads j a` says of a reader that it takes every text of the value `j` off the front of what it is
given, as `a`: whatever the blanks in front of it, and whatever comes behind that ends a value. What
is read is a question of the value and no longer of its text. So a reader of lists reads an array if
its items are read, and a reader that goes through the entries of an object reads the object if its
step reads each entry in turn.

Any value is read by `value`, up to a depth, and skipped by `skip` at every depth.

With `Reads` the text disappears from what follows. A spelling of a value has been read when the
value has, so a statement about all texts of a tree becomes one about the JSON value of the tree.

A reader must stop where the value ends. For arrays, objects and strings the last character says so;
a number ends where something comes that is no part of it, so behind a value there may only stand
what ends one. This condition is met inside of arrays and objects, and at the end of the text.

Skipping has a section of its own, since skipping is no reading of a value that is then dropped: it
keeps a stack of open containers instead of calling itself, and so has no limit of depth.
-/

set_option autoImplicit false

universe u v

namespace StackCode.Json

/-- The reader reads every text of a value as `a`. -/
def Reader.Reads {α : Type u} (r : Reader α) (j : Json) (a : α) : Prop :=
  ∀ ⦃text ws rest : List Char⦄, Spelling j text → Blanks ws → Delimited rest →
    r.run (ws ++ (text ++ rest)) = .ok (a, rest)

/-- From behind the key of an entry, the reader reads the colon and every text of a value, as
`a`. -/
def Reader.ReadsEntry {α : Type u} (r : Reader α) (j : Json) (a : α) : Prop :=
  ∀ ⦃text ws ws' rest : List Char⦄, Spelling j text → Blanks ws → Blanks ws' → Delimited rest →
    r.run (ws ++ ':' :: (ws' ++ (text ++ rest))) = .ok (a, rest)

/-- The steps read entries one after the other, and `state` becomes `after`. -/
inductive Reader.ReadsEntries {σ : Type u} (step : σ → String → Reader σ) :
    (state : σ) → List (String × Json) → (after : σ) → Prop
  | nil (state : σ) : ReadsEntries step state [] state
  | cons {state mid after : σ} {key : String} {j : Json} {entries : List (String × Json)}
      (h : (step state key).ReadsEntry j mid) (hmore : ReadsEntries step mid entries after) :
      ReadsEntries step state ((key, j) :: entries) after

namespace Reader

section

variable {α : Type u} {β : Type v}

/-- The value of an entry stands behind its colon. -/
theorem Reads.behindColon {r : Reader α} {j : Json} {a : α} (h : r.Reads j a) :
    r.behindColon.ReadsEntry j a := by
  intro text ws ws' rest htext hws hws' hrest
  simp only [Reader.behindColon, Scan.colon_append hws]
  exact h htext hws' hrest

theorem ReadsEntry.filterMap {r : Reader α} {j : Json} {a : α} {check : α → Except Fault β}
    {b : β} (h : r.ReadsEntry j a) (hcheck : check a = .ok b) :
    (r.filterMap check).ReadsEntry j b := by
  intro text ws ws' rest htext hws hws' hrest
  exact checked_eq_ok.mpr ⟨a, h htext hws hws' hrest, hcheck⟩

/-! ## Items and entries

The loops over the items of an array and the entries of an object, one turn at a time. -/

theorem items_close {item : Reader α} {first : Bool} {acc : List α} {cs rest : List Char}
    (h : Scan.nextItem first cs = .ok none) (hend : Scan.endArray cs = .ok rest) :
    items item first acc cs = .ok (acc.reverse, rest) := by
  rw [items]
  -- The branches keep the equation of what they match, so the value cannot be rewritten in place.
  split
  · rename_i heq
    rw [h] at heq
    cases heq
  · rw [hend]
  · rename_i heq
    rw [h] at heq
    cases heq

theorem items_item {item : Reader α} {first : Bool} {acc : List α} {cs left rest : List Char}
    {a : α} (h : Scan.nextItem first cs = .ok (some left)) (hitem : item.run left = .ok (a, rest)) :
    items item first acc cs = items item false (a :: acc) rest := by
  rw [items]
  split
  · rename_i heq
    rw [h] at heq
    cases heq
  · rename_i heq
    rw [h] at heq
    cases heq
  · rename_i heq
    rw [h] at heq
    cases heq
    split
    · rename_i heq
      rw [hitem] at heq
      cases heq
    · rename_i heq
      rw [hitem] at heq
      cases heq
      rfl

/-- The items of an array are read if each of them is. -/
theorem items_of_reads {item : Reader α} {js : List Json} {as : List α}
    (h : List.Forall₂ item.Reads js as) {first : Bool} {text : List Char}
    (htext : ItemsSpelling first js text) (acc : List α) (rest : List Char) :
    items item first acc (text ++ rest) = .ok (acc.reverse ++ as, rest) := by
  induction h generalizing first text acc with
  | nil =>
    cases htext with
    | close hws =>
      rw [List.append_assoc, List.singleton_append,
        items_close (Scan.nextItem_close first hws rest) (Scan.endArray_close hws rest),
          List.append_nil]
  | @cons j a js as hread _ ih =>
    cases htext with
    | item hseparator hj hmore =>
      have hitem := hread hj (List.forall_mem_nil _) (hmore.delimited rest)
      rw [List.append_assoc, List.append_assoc,
        items_item (Scan.nextItem_item hseparator hj _) hitem, ih hmore, List.reverse_cons,
        List.append_assoc, List.singleton_append]

end

theorem entries_close {σ : Type u} {step : σ → String → Reader σ} {first : Bool} {state : σ}
    {cs rest : List Char} (h : Scan.nextKey first cs = .ok (none, rest)) :
    entries step first state cs = .ok (state, rest) := by
  rw [entries]
  split
  · rename_i heq
    rw [h] at heq
    cases heq
  · rename_i heq
    rw [h] at heq
    cases heq
    rfl
  · rename_i heq
    rw [h] at heq
    cases heq

theorem entries_entry {σ : Type u} {step : σ → String → Reader σ} {first : Bool}
    {state state' : σ} {key : String} {cs left rest : List Char}
    (h : Scan.nextKey first cs = .ok (some key, left))
    (hentry : (step state key).run left = .ok (state', rest)) :
    entries step first state cs = entries step false state' rest := by
  rw [entries]
  split
  · rename_i heq
    rw [h] at heq
    cases heq
  · rename_i heq
    rw [h] at heq
    cases heq
  · rename_i heq
    rw [h] at heq
    cases heq
    split
    · rename_i heq
      rw [hentry] at heq
      cases heq
    · rename_i heq
      rw [hentry] at heq
      cases heq
      rfl

/-- The entries of an object are read if the steps read them. -/
theorem entries_of_reads {σ : Type u} {step : σ → String → Reader σ} {state after : σ}
    {es : List (String × Json)} (h : ReadsEntries step state es after) {first : Bool}
    {text : List Char} (htext : EntriesSpelling first es text) (rest : List Char) :
    entries step first state (text ++ rest) = .ok (after, rest) := by
  induction h generalizing first text with
  | nil state =>
    cases htext with
    | close hws =>
      rw [List.append_assoc, List.singleton_append,
        entries_close (Scan.nextKey_close first hws rest)]
  | cons hread _ ih =>
    cases htext with
    | entry hseparator hname hws hws' hj hmore =>
      have hentry := hread hj hws hws' (hmore.delimited rest)
      simp only [List.append_assoc, List.cons_append]
      rw [entries_entry (Scan.nextKey_entry hseparator hname _) hentry, ih hmore]

/-! ## Values by their shape -/

/-- The reader reads arrays, objects and scalars by these functions. -/
def HasShapes {α : Type u} (r : Reader α)
    (array object scalar : List Char → Except Fault (α × List Char)) : Prop :=
  ∀ cs, r.run cs =
    match Scan.skipBlanks cs with
    | '[' :: cs => array cs
    | '\x7b' :: cs => object cs
    | cs => scalar cs

section

variable {α : Type u} {r : Reader α}
    {array object scalar : List Char → Except Fault (α × List Char)}

theorem HasShapes.reads_array (hr : HasShapes r array object scalar) {items : List Json} {a : α}
    (h : ∀ ⦃text : List Char⦄, ItemsSpelling true items text → ∀ rest,
      array (text ++ rest) = .ok (a, rest)) :
    r.Reads (.array items) a := by
  intro text ws rest htext hws hrest
  cases htext with
  | array hitems =>
    rw [hr, List.cons_append,
      Scan.skipBlanks_append_cons hws (show Scan.isBlank '[' = false from rfl)]
    exact h hitems rest

theorem HasShapes.reads_object (hr : HasShapes r array object scalar)
    {es : List (String × Json)} {a : α}
    (h : ∀ ⦃text : List Char⦄, EntriesSpelling true es text → ∀ rest,
      object (text ++ rest) = .ok (a, rest)) :
    r.Reads (.object es) a := by
  intro text ws rest htext hws hrest
  cases htext with
  | object hentries =>
    rw [hr, List.cons_append,
      Scan.skipBlanks_append_cons hws (show Scan.isBlank '\x7b' = false from rfl)]
    exact h hentries rest

theorem HasShapes.reads_scalar (hr : HasShapes r array object scalar) {j : Json} {a : α}
    (hj : j.depth = 0)
    (h : ∀ ⦃text rest : List Char⦄, Spelling j text → Delimited rest →
      scalar (text ++ rest) = .ok (a, rest)) :
    r.Reads j a := by
  intro text ws rest htext hws hrest
  have hread := h htext hrest
  obtain ⟨c, cs, rfl, hblank, -, hshape⟩ := Scan.spelling_head htext
  obtain ⟨hbracket, hbrace⟩ := hshape hj
  rw [List.cons_append] at hread ⊢
  rw [hr, Scan.skipBlanks_append_cons hws hblank]
  split
  · rename_i heq
    exact absurd (List.cons.inj heq).1 hbracket
  · rename_i heq
    exact absurd (List.cons.inj heq).1 hbrace
  · exact hread

end

/-- A scalar is read if it is decoded. -/
theorem reads_scalar {α : Type u} {wanted : Wanted} {decode : Json → Except Fault α} {j : Json}
    {a : α} (hj : j.depth = 0) (h : decode j = .ok a) : (scalar wanted decode).Reads j a := by
  apply HasShapes.reads_scalar (fun _ => rfl) hj
  intro text rest htext hrest
  exact checked_eq_ok.mpr ⟨j, Scan.scalar_of_spelling htext hj hrest, h⟩

/-- A list is read if its items are. -/
theorem reads_list {α : Type u} {item : Reader α} {js : List Json} {as : List α}
    (h : List.Forall₂ item.Reads js as) :
    (list item).Reads (.array js) as := by
  apply HasShapes.reads_array fun _ => rfl
  intro text htext rest
  exact items_of_reads h htext [] rest

/-- A step that keeps what it reads keeps all entries. -/
theorem readsEntries_keep {item : Reader Json} {es : List (String × Json)}
    (h : ∀ key j, (key, j) ∈ es → item.Reads j j) (acc : List (String × Json)) :
    ReadsEntries (keep item) acc es (es.reverse ++ acc) := by
  induction es generalizing acc with
  | nil => exact .nil acc
  | cons entry es ih =>
    obtain ⟨key, j⟩ := entry
    rw [List.reverse_cons, List.append_assoc, List.singleton_append]
    have hread := h key j List.mem_cons_self
    refine .cons (hread.behindColon.filterMap rfl) (ih (fun key' j' hmem => ?_) _)
    exact h key' j' (List.mem_cons_of_mem _ hmem)

/-- **Any value is read back**, if it opens no more arrays and objects at once than are allowed. -/
theorem reads_value {depth : Nat} {j : Json} (h : j.depth ≤ depth) : (value depth).Reads j j := by
  -- The recursion of the reader is on the number of containers that may be opened, and so is the
  -- induction.
  induction depth generalizing j with
  | zero =>
    have hj := Nat.le_zero.mp h
    apply HasShapes.reads_scalar (fun _ => rfl) hj
    intro text rest htext hrest
    exact Scan.scalar_of_spelling htext hj hrest
  | succ depth ih =>
    by_cases hj : j.depth = 0
    · apply HasShapes.reads_scalar (fun _ => rfl) hj
      intro text rest htext hrest
      exact Scan.scalar_of_spelling htext hj hrest
    · cases j with
      | array js =>
        have hitems : List.Forall₂ (value depth).Reads js js := by
          refine List.forall₂_same.mpr fun j hmem => ih ?_
          exact Nat.le_trans (depth_le_of_mem_items hmem) (Nat.le_of_succ_le_succ h)
        apply HasShapes.reads_array fun _ => rfl
        intro text htext rest
        exact checked_eq_ok.mpr ⟨js, items_of_reads hitems htext [] rest, rfl⟩
      | object es =>
        have hentries : ReadsEntries (keep (value depth)) [] es (es.reverse ++ []) := by
          refine readsEntries_keep (fun key j hmem => ih ?_) []
          exact Nat.le_trans (depth_le_of_mem_entries hmem) (Nat.le_of_succ_le_succ h)
        apply HasShapes.reads_object fun _ => rfl
        intro text htext rest
        refine checked_eq_ok.mpr ⟨_, entries_of_reads hentries htext rest, ?_⟩
        rw [List.append_nil, List.reverse_reverse]
      | _ => exact absurd rfl hj

end Reader

/-- A value is read from the whole of a text, with blanks around it. -/
theorem Reader.Reads.all {α : Type u} {r : Reader α} {j : Json} {a : α} (h : r.Reads j a)
    {text : String} (htext : Document j text) : r.all text = .ok a := by
  obtain ⟨ws, spelling, ws', hws, hspelling, hws', htext⟩ := htext
  have hrest : Delimited ws' := List.append_nil ws' ▸ hws'.delimited nofun
  have hrun := h hspelling hws hrest
  simp only [Reader.all, htext, hrun, Scan.skipBlanks_eq_nil hws', List.isEmpty_nil, if_true]

/-! ## Skipping

The text of a value is skipped in front of whatever follows. The open containers are an argument,
and a value leaves them as they are. -/

namespace Scan

/-- Goes on behind a value inside of open containers. -/
def resume : List Container → List Char → Except Fault (List Char)
  | [], rest => .ok rest
  | inner :: outer, rest => skipBehind false inner outer rest

/-- The text of a value is skipped, whatever containers are open. -/
def Skips (j : Json) : Prop :=
  ∀ ⦃text ws rest : List Char⦄ (opened : List Container), Spelling j text → Blanks ws →
    Delimited rest →
    skipValue opened (ws ++ (text ++ rest)) = resume opened rest

theorem skipBehind_close (first : Bool) (inner : Container) (outer : List Container)
    {ws : List Char} (h : Blanks ws) (rest : List Char) :
    skipBehind first inner outer (ws ++ inner.closing :: rest) = resume outer rest := by
  have hblank : isBlank inner.closing = false := by cases inner <;> rfl
  have hskip := skipBlanks_append_cons h hblank rest
  rw [skipBehind]
  split
  · rename_i heq
    rw [hskip] at heq
    cases heq
  · rename_i heq
    rw [hskip] at heq
    cases heq
    rw [if_pos rfl]
    cases outer with
    | nil => rfl
    | cons next outer => rfl

/-- Behind the separator stands an item. Only behind a comma are there still blanks in front of
it. -/
theorem skipBehind_item {first : Bool} {separator : List Char} {c : Char} (inner : Container)
    (outer : List Container) (h : Separator first separator) (hblank : isBlank c = false)
    (hc : c ≠ inner.closing) (cs : List Char) :
    ∃ ws, Blanks ws ∧
    skipBehind first inner outer (separator ++ c :: cs) = skipItem inner outer (ws ++ c :: cs) := by
  cases h with
  | blanks hws =>
    -- In front of the first item blanks are skipped before it is known what follows.
    refine ⟨[], List.forall_mem_nil _, ?_⟩
    have hskip := skipBlanks_append_cons hws hblank cs
    rw [skipBehind]
    split
    · rename_i heq
      rw [hskip] at heq
      cases heq
    · rename_i heq
      rw [hskip] at heq
      cases heq
      rw [if_neg hc, if_pos rfl, List.nil_append]
  | @comma ws ws' hws hws' =>
    -- Behind a comma they are left to the item.
    refine ⟨ws', hws', ?_⟩
    have hclosing : ',' ≠ inner.closing := by cases inner <;> decide
    have hskip := skipBlanks_append_cons hws (show isBlank ',' = false from rfl) (ws' ++ c :: cs)
    rw [List.append_assoc, List.cons_append, skipBehind]
    split
    · rename_i heq
      rw [hskip] at heq
      cases heq
    · rename_i heq
      rw [hskip] at heq
      cases heq
      rw [if_neg hclosing, if_neg Bool.false_ne_true, if_pos rfl]

theorem skipBehind_items {items : List Json} (h : ∀ j ∈ items, Skips j) {first : Bool}
    {text : List Char} (htext : ItemsSpelling first items text) (outer : List Container)
    (rest : List Char) :
    skipBehind first .array outer (text ++ rest) = resume outer rest := by
  induction items generalizing first text with
  | nil =>
    cases htext with
    | close hws =>
      rw [List.append_assoc]
      exact skipBehind_close first .array outer hws rest
  | cons j items ih =>
    cases htext with
    | item hseparator hj hmore =>
      have hskip := h j List.mem_cons_self
      obtain ⟨c, cs, rfl, hblank, hclose, -⟩ := spelling_head hj
      obtain ⟨ws, hws, heq⟩ :=
        skipBehind_item .array outer hseparator hblank hclose (cs ++ (_ ++ rest))
      rw [List.append_assoc, List.append_assoc, List.cons_append, heq, skipItem, ← List.cons_append,
        hskip _ hj hws (hmore.delimited rest)]
      exact ih (fun j' hj' => h j' (List.mem_cons_of_mem _ hj')) hmore

theorem skipKey_of_quoted {key : String} {name ws ws' : List Char} (h : Quoted key name)
    (hws : Blanks ws) (hws' : Blanks ws') (rest : List Char) :
    skipKey (ws ++ (name ++ (ws' ++ ':' :: rest))) = .ok rest := by
  obtain ⟨body, rfl, hskip⟩ := skipString_of_quoted h
  rw [List.cons_append, skipKey, skipBlanks_append_cons hws (show isBlank '"' = false from rfl)]
  simp only [hskip, bind, Except.bind, colon_append hws']

theorem skipBehind_entries {es : List (String × Json)} (h : ∀ key j, (key, j) ∈ es → Skips j)
    {first : Bool} {text : List Char} (htext : EntriesSpelling first es text)
    (outer : List Container) (rest : List Char) :
    skipBehind first .object outer (text ++ rest) = resume outer rest := by
  induction es generalizing first text with
  | nil =>
    cases htext with
    | close hws =>
      rw [List.append_assoc]
      exact skipBehind_close first .object outer hws rest
  | cons entry es ih =>
    cases htext with
    | @entry _ separator name ws₁ ws₂ text more key j _ hseparator hname hws₁ hws₂ hj hmore =>
      have hskip := h key j List.mem_cons_self
      have hkey := fun ws (hws : Blanks ws) =>
          skipKey_of_quoted hname hws hws₁ (ws₂ ++ (text ++ (more ++ rest)))
      obtain ⟨body, rfl, -⟩ := hname
      obtain ⟨ws, hws, heq⟩ :=
        skipBehind_item .object outer hseparator
          (show isBlank '"' = false from rfl) (by decide) (body ++ ['"'] ++
          (ws₁ ++ ':' :: (ws₂ ++ (text ++ (more ++ rest)))))
      simp only [List.append_assoc, List.cons_append] at hkey heq ⊢
      rw [heq, skipItem]
      split
      · rename_i hfail
        rw [hkey ws hws] at hfail
        cases hfail
      · rename_i hread
        rw [hkey ws hws] at hread
        cases hread
        rw [hskip _ hj hws₂ (hmore.delimited rest)]
        exact ih (fun key' j' hmem => h key' j' (List.mem_cons_of_mem _ hmem)) hmore

theorem skipValue_scalar {j : Json} (hj : j.depth = 0) : Skips j := by
  intro text ws rest opened htext hws hrest
  have hscalar := skipScalar_of_spelling htext hj hrest
  obtain ⟨c, cs, rfl, hblank, -, hshape⟩ := spelling_head htext
  obtain ⟨hbracket, hbrace⟩ := hshape hj
  have hskip := skipBlanks_append_cons hws hblank (cs ++ rest)
  rw [List.cons_append] at hscalar ⊢
  rw [skipValue]
  split
  · rename_i heq
    rw [hskip] at heq
    exact absurd (List.cons.inj heq).1 hbracket
  · rename_i heq
    rw [hskip] at heq
    exact absurd (List.cons.inj heq).1 hbrace
  · split
    · rename_i hfail
      rw [hskip, hscalar] at hfail
      cases hfail
    · rename_i hread
      rw [hskip, hscalar] at hread
      cases hread
      cases opened with
      | nil => rfl
      | cons inner outer => rfl

theorem skipValue_array {ws : List Char} (h : Blanks ws) (opened : List Container)
    (cs : List Char) :
    skipValue opened (ws ++ '[' :: cs) = skipBehind true .array opened cs := by
  have hskip := skipBlanks_append_cons h (show isBlank '[' = false from rfl) cs
  rw [skipValue]
  split
  · rename_i heq
    rw [hskip] at heq
    cases heq
    rfl
  · rename_i heq
    rw [hskip] at heq
    cases heq
  · rename_i hbracket _
    exact absurd hskip (hbracket _)

theorem skipValue_object {ws : List Char} (h : Blanks ws) (opened : List Container)
    (cs : List Char) :
    skipValue opened (ws ++ '\x7b' :: cs) = skipBehind true .object opened cs := by
  have hskip := skipBlanks_append_cons h (show isBlank '\x7b' = false from rfl) cs
  rw [skipValue]
  split
  · rename_i heq
    rw [hskip] at heq
    cases heq
  · rename_i heq
    rw [hskip] at heq
    cases heq
    rfl
  · rename_i hbrace
    exact absurd hskip (hbrace _)

/-- **Any value can be skipped**, at every depth. -/
theorem skips (j : Json) : Skips j := by
  -- The depth is a measure on values. Skipping itself knows no depth.
  suffices h : ∀ depth (j : Json), j.depth ≤ depth → Skips j from h _ j (Nat.le_refl _)
  intro depth
  induction depth with
  | zero =>
    intro j h
    exact skipValue_scalar (Nat.le_zero.mp h)
  | succ depth ih =>
    intro j h
    by_cases hj : j.depth = 0
    · exact skipValue_scalar hj
    · cases j with
      | array items =>
        intro text ws rest opened htext hws hrest
        cases htext with
        | array hitems =>
          rw [List.cons_append, skipValue_array hws]
          refine skipBehind_items (fun j hmem => ih j ?_) hitems opened rest
          exact Nat.le_trans (depth_le_of_mem_items hmem) (Nat.le_of_succ_le_succ h)
      | object es =>
        intro text ws rest opened htext hws hrest
        cases htext with
        | object hentries =>
          rw [List.cons_append, skipValue_object hws]
          refine skipBehind_entries (fun key j hmem => ih j ?_) hentries opened rest
          exact Nat.le_trans (depth_le_of_mem_entries hmem) (Nat.le_of_succ_le_succ h)
      | _ => exact absurd rfl hj

end Scan

/-- A value that nobody asked for is passed over. -/
theorem Reader.reads_skip (j : Json) : skip.Reads j () := by
  intro text ws rest htext hws hrest
  have hskip := Scan.skips j [] htext hws hrest
  simp only [skip, hskip, Scan.resume]

end StackCode.Json
