import StackCode.Json.Scan

/-!
# Scanners consume text

No scanner lengthens the text, and those that read a whole value shorten it. Loops over items and
entries end by this.
-/

set_option autoImplicit false

namespace StackCode.Json.Scan

/-- A sequence of two steps succeeds if both do. -/
theorem bind_eq_ok {ε α β : Type} {x : Except ε α} {f : α → Except ε β} {b : β} :
    (x >>= f) = .ok b ↔ ∃ a, x = .ok a ∧ f a = .ok b := by
  cases x <;> simp [bind, Except.bind]

theorem skipBlanks_length (cs : List Char) : (skipBlanks cs).length ≤ cs.length :=
  (List.dropWhile_suffix _).length_le

theorem length_lt_of_skipBlanks_eq_cons {cs rest : List Char} {c : Char}
    (h : skipBlanks cs = c :: rest) : rest.length < cs.length := by
  have := skipBlanks_length cs
  rw [h, List.length_cons] at this
  omega

theorem word_length {ws cs rest : List Char} (h : word ws cs = .ok rest) :
    rest.length ≤ cs.length := by
  fun_induction word ws cs with
  | case1 => cases h; omega
  | case2 => simp [cutOff] at h
  | case3 w ws cs ih =>
    have := ih h
    simp only [List.length_cons]
    omega
  | case4 => simp [malformed] at h

/-! ## Numbers -/

theorem digits_length (cs : List Char) :
    (digits cs).2.length + (digits cs).1.length = cs.length := by
  have := congrArg List.length (List.takeWhile_append_dropWhile (p := Char.isDigit) (l := cs))
  simp only [List.length_append] at this
  simp only [digits, List.length_map]
  omega

theorem digits_length_of_eq {cs rest : List Char} {ds : List Nat} (h : digits cs = (ds, rest)) :
    rest.length + ds.length = cs.length := by
  have := digits_length cs
  rwa [h] at this

theorem sign_length (cs : List Char) : (sign cs).2.length ≤ cs.length := by
  unfold sign
  split <;> simp

theorem power_length {cs rest : List Char} {p : Int} (h : power cs = .ok (p, rest)) :
    rest.length ≤ cs.length := by
  unfold power at h
  split at h
  · simp [cutOff] at h
  · simp [malformed] at h
  · rename_i heq
    have := digits_length_of_eq heq
    have := sign_length cs
    cases h
    omega

theorem scaled_length {negative : Bool} {whole fraction : List Nat} {cs rest : List Char}
    {x : Number} (h : scaled negative whole fraction cs = .ok (x, rest)) :
    rest.length ≤ cs.length := by
  unfold scaled at h
  split at h
  · simp only [bind_eq_ok] at h
    obtain ⟨⟨p, left⟩, hp, y, -, heq⟩ := h
    have := power_length hp
    cases heq
    simp only [List.length_cons]
    omega
  · simp only [bind_eq_ok] at h
    obtain ⟨⟨p, left⟩, hp, y, -, heq⟩ := h
    have := power_length hp
    cases heq
    simp only [List.length_cons]
    omega
  · simp only [bind_eq_ok] at h
    obtain ⟨y, -, heq⟩ := h
    cases heq
    omega

theorem behindWhole_length {negative : Bool} {whole : List Nat} {cs rest : List Char}
    {x : Number} (h : behindWhole negative whole cs = .ok (x, rest)) :
    rest.length ≤ cs.length := by
  unfold behindWhole at h
  split at h
  · split at h
    · simp [cutOff] at h
    · simp [malformed] at h
    · rename_i hd
      have := digits_length_of_eq hd
      have := scaled_length h
      simp only [List.length_cons]
      omega
  · exact scaled_length h
  · exact scaled_length h
  · simp only [bind_eq_ok] at h
    obtain ⟨y, -, heq⟩ := h
    cases heq
    omega

theorem number_length {negative : Bool} {cs rest : List Char} {x : Number}
    (h : number negative cs = .ok (x, rest)) : rest.length < cs.length := by
  unfold number at h
  split at h
  · simp [cutOff] at h
  · simp [malformed] at h
  · simp [malformed] at h
  · rename_i ds left hnil hcons _ heq
    have hlen := digits_length_of_eq heq
    have := behindWhole_length h
    cases ds with
    | nil =>
      cases left with
      | nil => exact absurd rfl (hnil rfl)
      | cons c left => exact absurd rfl (hcons c left rfl)
    | cons d ds =>
      simp only [List.length_cons] at hlen
      omega

/-! ## Strings and scalars -/

theorem string_length {acc cs rest : List Char} {s : String}
    (h : string acc cs = .ok (s, rest)) : rest.length < cs.length := by
  fun_induction string acc cs with
  | case1 => simp [cutOff] at h
  | case2 => cases h; simp
  | case3 acc cs denoted left heq _ ih =>
    have := ih h
    have := escape_length heq
    simp only [List.length_cons]
    omega
  | case4 => simp at h
  | case5 => simp [malformed] at h
  | case6 acc c cs _ _ _ ih =>
    have := ih h
    simp only [List.length_cons]
    omega

theorem skipString_length {cs rest : List Char} (h : skipString cs = .ok rest) :
    rest.length < cs.length := by
  fun_induction skipString cs with
  | case1 => simp [cutOff] at h
  | case2 => cases h; simp
  | case3 cs left heq _ ih =>
    have := ih h
    have := skipEscape_length heq
    simp only [List.length_cons]
    omega
  | case4 => simp at h
  | case5 => simp [malformed] at h
  | case6 c cs _ _ _ ih =>
    have := ih h
    simp only [List.length_cons]
    omega

theorem scalar_length {cs rest : List Char} {v : Json} (h : scalar cs = .ok (v, rest)) :
    rest.length < cs.length := by
  unfold scalar at h
  split at h
  · simp only [bind_eq_ok] at h
    obtain ⟨left, hw, heq⟩ := h
    have := word_length hw
    cases heq
    simp only [List.length_cons]
    omega
  · simp only [bind_eq_ok] at h
    obtain ⟨left, hw, heq⟩ := h
    have := word_length hw
    cases heq
    simp only [List.length_cons]
    omega
  · simp only [bind_eq_ok] at h
    obtain ⟨left, hw, heq⟩ := h
    have := word_length hw
    cases heq
    simp only [List.length_cons]
    omega
  · simp only [bind_eq_ok] at h
    obtain ⟨⟨x, left⟩, hn, heq⟩ := h
    have := number_length hn
    cases heq
    simp only [List.length_cons]
    omega
  · simp only [bind_eq_ok] at h
    obtain ⟨⟨x, left⟩, hs, heq⟩ := h
    have := string_length hs
    cases heq
    simp only [List.length_cons]
    omega
  · simp [cutOff] at h
  · split at h
    · simp only [bind_eq_ok] at h
      obtain ⟨⟨x, left⟩, hn, heq⟩ := h
      have := number_length hn
      cases heq
      exact this
    · simp [malformed] at h

/-! ## Between items and entries -/

theorem nextItem_length {first : Bool} {cs rest : List Char}
    (h : nextItem first cs = .ok (some rest)) : rest.length ≤ cs.length := by
  unfold nextItem at h
  split at h
  · simp [cutOff] at h
  · rename_i c left heq
    have := length_lt_of_skipBlanks_eq_cons heq
    split at h
    · simp at h
    · split at h
      · cases h
        simp only [List.length_cons]
        omega
      · split at h
        · split at h
          · simp [cutOff] at h
          · rename_i d left' heq'
            have := length_lt_of_skipBlanks_eq_cons heq'
            split at h
            · simp [malformed] at h
            · cases h
              simp only [List.length_cons]
              omega
        · simp [malformed] at h

theorem endArray_length {cs rest : List Char} (h : endArray cs = .ok rest) :
    rest.length < cs.length := by
  unfold endArray at h
  split at h
  · simp [cutOff] at h
  · rename_i c left heq
    have := length_lt_of_skipBlanks_eq_cons heq
    split at h
    · cases h
      exact this
    · split at h <;> simp [malformed] at h

theorem nextKey_key_length {cs rest : List Char} {k : Option String}
    (h : nextKey.key cs = .ok (k, rest)) : rest.length < cs.length := by
  unfold nextKey.key at h
  split at h
  · simp only [bind_eq_ok] at h
    obtain ⟨⟨x, left⟩, hs, heq⟩ := h
    have := string_length hs
    cases heq
    simp only [List.length_cons]
    omega
  · simp [malformed] at h

theorem nextKey_length {first : Bool} {cs rest : List Char} {k : Option String}
    (h : nextKey first cs = .ok (k, rest)) : rest.length < cs.length := by
  unfold nextKey at h
  split at h
  · simp [cutOff] at h
  · rename_i c left heq
    have := length_lt_of_skipBlanks_eq_cons heq
    split at h
    · cases h
      exact this
    · split at h
      · have := nextKey_key_length h
        simp only [List.length_cons] at this
        omega
      · split at h
        · split at h
          · simp [cutOff] at h
          · rename_i d left' heq'
            have := length_lt_of_skipBlanks_eq_cons heq'
            split at h
            · simp [malformed] at h
            · have := nextKey_key_length h
              simp only [List.length_cons] at this
              omega
        · simp [malformed] at h

theorem colon_length {cs rest : List Char} (h : colon cs = .ok rest) :
    rest.length < cs.length := by
  unfold colon at h
  split at h
  · simp [cutOff] at h
  · rename_i heq
    have := length_lt_of_skipBlanks_eq_cons heq
    cases h
    exact this
  · simp [malformed] at h

end StackCode.Json.Scan
