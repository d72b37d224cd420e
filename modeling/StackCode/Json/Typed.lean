import StackCode.Json.Decoder
import StackCode.Json.Skip

/-!
# Reading typed values from text

A record is interpreted while it is read, so that of two faults the one that comes first in the text
is reported. A field that nobody knows is skipped. A repeated field is reported as soon as its name
is read.

Of a tagged node only the tag is interpreted while the node is read. The rest of it is kept as JSON
values, and decoded as the tag says once the node is read to its end.

So there are two orders in which faults are found. In a record it is the order of the text. In a
tagged node faults of the text and of the tag come first, wherever they stand, and then those of the
other values in the order of the text.
-/

set_option autoImplicit false

namespace StackCode.Json

variable {α : Type}

namespace Reader

/-! ## Scalars -/

def text : Reader String :=
  scalar .text Decoder.text

def word32 : Reader UInt32 :=
  scalar (.word 32) Decoder.word32

/-! ## Records -/

theorem fill_length {γ : Type} {fs fs' : Fields Reader α γ} {key : String} {cs rest : List Char}
    (h : fs.fill (fun r cs => r.behindColon.run cs) key cs = some (.ok (fs', rest))) :
    rest.length < cs.length := by
  induction fs with
  | done => simp [Fields.fill] at h
  | field name read fallback slot others ih =>
    simp only [Fields.fill] at h
    split at h
    · split at h
      · simp at h
      · split at h
        · simp at h
        · rename_i hrun
          cases h
          exact read.behindColon.consumes hrun
    · split at h
      · simp at h
      · simp at h
      · rename_i heq
        cases h
        exact ih heq

/-- Reads one entry of a record from behind its key. -/
def fieldEntry {γ : Type} (fs : Fields Reader α γ) (key : String) : Reader (Fields Reader α γ) where
  run cs :=
    match fs.fill (fun r cs => r.behindColon.run cs) key cs with
    | some result => result
    | none => checked (fun _ => .ok fs) (skip.behindColon.run cs)
  consumes {cs fs' rest} h := by
    split at h
    · rename_i heq
      subst h
      exact fill_length heq
    · obtain ⟨_, hs, -⟩ := checked_eq_ok.1 h
      exact skip.behindColon.consumes hs

/-- Reads the fields of a record as the items of an array. `count` is the number of fields, `index`
is the place of the next one. -/
def fieldItems {γ : Type} (title : String) (count index : Nat) (first : Bool) :
    Fields Reader α γ → γ → List Char → Except Fault (α × List Char)
  | .done, a, cs =>
    match Scan.endArray cs with
    | .error fault => .error fault
    | .ok rest => .ok (a, rest)
  | .field _ read fallback _ others, make, cs =>
    match Scan.nextItem first cs with
    | .error fault => .error fault
    | .ok (some left) =>
      match read.run left with
      | .error fault => .error fault
      | .ok (b, rest) => fieldItems title count (index + 1) false others (make b) rest
    | .ok none =>
      match fallback with
      | some b => fieldItems title count (index + 1) first others (make b) cs
      | none => .error (.wrongLength index (.recordItems title count))

theorem fieldItems_length {γ : Type} {title : String} {count index : Nat} {first : Bool}
    {fs : Fields Reader α γ} {make : γ} {cs rest : List Char} {a : α}
    (h : fieldItems title count index first fs make cs = .ok (a, rest)) :
    rest.length < cs.length := by
  induction fs generalizing index first cs with
  | done =>
    rw [fieldItems] at h
    split at h
    · simp at h
    · rename_i heq
      cases h
      exact Scan.endArray_length heq
  | field name read fallback slot others ih =>
    simp only [fieldItems] at h
    split at h
    · simp at h
    · rename_i hnext
      split at h
      · simp at h
      · rename_i hrun
        have := Scan.nextItem_length hnext
        have := read.consumes hrun
        have := ih h
        omega
    · split at h
      · exact ih h
      · simp at h

/-- Reads a record in the form of an object or of an array. -/
def record (r : Record Reader α) : Reader α :=
  byShape
    (fieldItems r.title r.fields.size 0 true r.fields r.make)
    (fun cs => checked (fun fs => fs.finish r.make) (entries fieldEntry true r.fields cs))
    (refuseScalar (.record r.title))
    (fun h => Nat.le_of_lt (fieldItems_length h))
    (fun h => by
      obtain ⟨_, hf, -⟩ := checked_eq_ok.1 h
      exact Nat.le_of_lt (entries_length hf))
    (fun h => absurd h refuseScalar_ne_ok)

/-! ## Tagged nodes -/

/-- Reads a tag and selects the decoder of the body. -/
def tag (t : Tagged α) : Reader (Decoder α) :=
  scalar .tag fun v =>
    match v with
    | .string name => Decoder.named t.variants name
    | v => .error (.wrongType v.found .tag)

/-- Reads one entry of a tagged node from behind its key. The state is the decoder selected by the
tag, once that is read, and the other entries, the last one first. -/
def taggedEntry (t : Tagged α) (item : Reader Json)
    (state : Option (Decoder α) × List (String × Json)) (key : String) :
    Reader (Option (Decoder α) × List (String × Json)) :=
  if key = t.key then
    if state.1.isSome then fail (.duplicateField t.key)
    else (tag t).behindColon.filterMap fun decode => .ok (some decode, state.2)
  else item.behindColon.filterMap fun v => .ok (state.1, (key, v) :: state.2)

/-- Reads a tagged node as an array from behind its opening bracket. -/
def taggedItems (t : Tagged α) (item : Reader Json) (cs : List Char) :
    Except Fault (α × List Char) :=
  match Scan.nextItem true cs with
  | .error fault => .error fault
  | .ok none => .error (.missingField t.key)
  | .ok (some left) =>
    match (tag t).run left with
    | .error fault => .error fault
    | .ok (decode, rest) => checked (fun vs => decode (.array vs)) (items item false [] rest)

theorem taggedItems_length {t : Tagged α} {item : Reader Json} {cs rest : List Char} {a : α}
    (h : taggedItems t item cs = .ok (a, rest)) : rest.length < cs.length := by
  unfold taggedItems at h
  split at h
  · simp at h
  · simp at h
  · rename_i hnext
    split at h
    · simp at h
    · rename_i htag
      obtain ⟨_, hi, -⟩ := checked_eq_ok.1 h
      have := Scan.nextItem_length hnext
      have := (tag t).consumes htag
      have := items_length hi
      omega

/-- Reads a tagged node with at most so many arrays and objects open at once, the node itself
included. -/
def tagged (t : Tagged α) : Nat → Reader α
  | 0 =>
    byShape (fun _ => Scan.malformed .nesting) (fun _ => Scan.malformed .nesting)
      (refuseScalar (.tagged t.name))
      (by simp [Scan.malformed]) (by simp [Scan.malformed]) (fun h => absurd h refuseScalar_ne_ok)
  | depth + 1 =>
    byShape
      (taggedItems t (value depth))
      (fun cs => checked (fun state => t.finish state.1 state.2.reverse)
        (entries (taggedEntry t (value depth)) true (none, []) cs))
      (refuseScalar (.tagged t.name))
      (fun h => Nat.le_of_lt (taggedItems_length h))
      (fun h => by
        obtain ⟨_, he, -⟩ := checked_eq_ok.1 h
        exact Nat.le_of_lt (entries_length he))
      (fun h => absurd h refuseScalar_ne_ok)

end Reader

end StackCode.Json
