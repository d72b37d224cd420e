import StackCode.Double.Basic

/-!
# Exact natural numbers

A natural number of at most 53 bits is not rounded: shifted until all 53 bits are in use, it is its
own mantissa. The other way round, a number without fraction is got back from the integer that it
stands for, whatever its size.

Numbers are defined by rounding ratios of naturals, and this file is about the ratios for which no
rounding takes place. Two bounds are to be told apart. Up to 53 bits every integer is exact; beyond
that some are, namely those that end in enough zeros, and a number that stands for one of them comes
back from it as well.

Subnormal numbers and fractions do not occur, as no integer is one.
-/

set_option autoImplicit false

namespace StackCode

namespace Double

theorem roundQuotient_one (n : Nat) : roundQuotient n 1 = n := by
  simp [roundQuotient, Nat.mod_one]

theorem floorLog2_one {n : Nat} (h : n ≠ 0) : floorLog2 n 1 = n.log2 := by
  have hlog : Nat.log2 1 = 0 := by decide
  have hle : 1 <<< n.log2 ≤ n := by
    rw [Nat.one_shiftLeft]
    exact Nat.log2_self_le h
  simp [floorLog2, hlog, hle]

/-- The mantissa of a number that is shifted to 53 bits. -/
theorem normal_shiftLeft {n : Nat} (h : n ≠ 0) (hlt : n < 9007199254740992) :
    Normal (n <<< (52 - n.log2)) ((n.log2 : Int) - 52) := by
  have hlog : n.log2 < 53 := (Nat.log2_lt h).mpr hlt
  have hpow : ∀ k, 2 ^ k * 2 ^ (52 - n.log2) = 2 ^ (k + (52 - n.log2)) :=
    fun k => (Nat.pow_add 2 k _).symm
  have hlow : 2 ^ 52 ≤ n * 2 ^ (52 - n.log2) := by
    have := Nat.mul_le_mul_right (2 ^ (52 - n.log2)) (Nat.log2_self_le h)
    rwa [hpow, Nat.add_sub_of_le (by omega)] at this
  have hhigh : n * 2 ^ (52 - n.log2) < 2 ^ 53 := by
    have := Nat.mul_lt_mul_of_pos_right (Nat.lt_log2_self (n := n)) (Nat.two_pow_pos (52 - n.log2))
    rwa [hpow, show n.log2 + 1 + (52 - n.log2) = 53 by omega] at this
  rw [Nat.shiftLeft_eq]
  exact ⟨hhigh, by omega, by omega, .inl hlow⟩

/-- **Numbers of at most 53 bits are exact.** -/
theorem toInt?_ofNat {n : Nat} (hlt : n < 9007199254740992) :
    (ofNat n).toInt? = some (n : Int) := by
  unfold ofNat ofRatio
  by_cases h : n = 0
  · subst h
    rfl
  · have hlog : n.log2 < 53 := (Nat.log2_lt h).mpr hlt
    have hnormal := normal_shiftLeft h hlt
    have hexponent : max (-1074) (floorLog2 n 1 - 52) = (n.log2 : Int) - 52 := by
      rw [floorLog2_one h]
      omega
    have hshift : (-((n.log2 : Int) - 52)).toNat = 52 - n.log2 := by omega
    have hnone : ((n.log2 : Int) - 52).toNat = 0 := by omega
    have hmantissa : n <<< (52 - n.log2) ≠ 9007199254740992 := Nat.ne_of_lt hnormal.1
    rw [if_neg h, hexponent]
    dsimp only
    rw [hshift, hnone, Nat.shiftLeft_zero, roundQuotient_one, if_neg hmantissa, pack,
      dif_pos hnormal, toInt?]
    have hunit : 0 < 2 ^ (52 - n.log2) := Nat.two_pow_pos _
    rw [hshift, hnone, Nat.one_shiftLeft, Nat.shiftLeft_eq, Nat.mul_mod_left, if_pos rfl,
      Nat.mul_div_cancel n hunit]
    rfl

/-! ## Back from the integer

A number without fraction has a mantissa that can be shifted to the integer it stands for. Shifted
back it is the mantissa again, since the leading bit determines by how much. -/

/-- A quotient that comes out even is not rounded. -/
theorem roundQuotient_mul (q : Nat) {den : Nat} (h : 0 < den) :
    roundQuotient (q * den) den = q := by
  simp [roundQuotient, Nat.mul_div_cancel q h, h]

theorem log2_shiftLeft {n : Nat} (h : n ≠ 0) (a : Nat) : (n <<< a).log2 = n.log2 + a := by
  have hpos : 0 < n <<< a := by
    rw [Nat.shiftLeft_eq]
    exact Nat.mul_pos (Nat.pos_of_ne_zero h) (Nat.two_pow_pos a)
  refine (Nat.log2_eq_iff (Nat.ne_of_gt hpos)).mpr ⟨?_, ?_⟩
  · rw [Nat.shiftLeft_eq, Nat.pow_add]
    exact Nat.mul_le_mul_right _ (Nat.log2_self_le h)
  · rw [Nat.shiftLeft_eq, Nat.add_right_comm, Nat.pow_add]
    exact Nat.mul_lt_mul_of_pos_right Nat.lt_log2_self (Nat.two_pow_pos a)

/-- The leading bit of `k`, given `k` as a mantissa that is shifted to the left or to the right. -/
theorem log2_add_of_shift {k m a b : Nat} (heq : k <<< a = m <<< b) (hlow : 0x10000000000000 ≤ m)
    (hhigh : m < 0x20000000000000) : k.log2 + a = 52 + b := by
  have hm : m ≠ 0 := by omega
  have hlog : m.log2 = 52 := (Nat.log2_eq_iff hm).mpr ⟨hlow, hhigh⟩
  have hk : k ≠ 0 := by
    rintro rfl
    rw [Nat.zero_shiftLeft, Nat.shiftLeft_eq] at heq
    exact Nat.ne_of_lt (Nat.mul_pos (Nat.pos_of_ne_zero hm) (Nat.two_pow_pos b)) heq
  rw [← log2_shiftLeft hk, heq, log2_shiftLeft hm, hlog]

/-- A magnitude that is an integer is rounded to itself. -/
theorem ofRatio_of_normal (negative : Bool) {k m : Nat} {e : Int} (hnormal : Normal m e)
    (hk : k ≠ 0) (heq : k <<< (-e).toNat = m <<< e.toNat) :
    ofRatio negative k 1 = .finite negative m e hnormal := by
  have hlow : 0x10000000000000 ≤ m := by
    rcases hnormal.2.2.2 with hlow | hleast
    · exact hlow
    · -- The least exponent would make a mantissa of more than a thousand bits.
      have hshift : e.toNat = 0 ∧ 52 ≤ (-e).toNat := by omega
      rw [hshift.1, Nat.shiftLeft_zero, Nat.shiftLeft_eq] at heq
      calc 2 ^ 52 ≤ 2 ^ (-e).toNat := Nat.pow_le_pow_right (by decide) hshift.2
        _ = 1 * 2 ^ (-e).toNat := (Nat.one_mul _).symm
        _ ≤ k * 2 ^ (-e).toNat := Nat.mul_le_mul_right _ (Nat.pos_of_ne_zero hk)
        _ = m := heq
  have hlog := log2_add_of_shift heq hlow hnormal.1
  have hexponent : max (-1074) (floorLog2 k 1 - 52) = e := by
    have := hnormal.2.1
    rw [floorLog2_one hk]
    omega
  have hmantissa : m ≠ 9007199254740992 := Nat.ne_of_lt hnormal.1
  unfold ofRatio
  rw [if_neg hk, hexponent]
  dsimp only
  rw [heq, Nat.shiftLeft_eq, Nat.one_shiftLeft, roundQuotient_mul m (Nat.two_pow_pos _),
    if_neg hmantissa, pack, dif_pos hnormal]

/-- **A number that stands for an integer is the number nearest to it.** Negative zero stands for
`0` and is not. -/
theorem ofInt_of_toInt? {x : Double} {n : Int} (h : x.toInt? = some n) (hzero : x ≠ zero true) :
    ofInt n = x := by
  cases x with
  | nan => cases h
  | infinity negative => cases h
  | finite negative m e hnormal =>
    simp only [toInt?] at h
    split at h
    · rename_i hmod
      obtain rfl := Option.some.inj h
      rw [Nat.one_shiftLeft] at hmod ⊢
      have hdiv : m / 2 ^ (-e).toNat * 2 ^ (-e).toNat = m :=
        Nat.div_mul_cancel (Nat.dvd_of_mod_eq_zero hmod)
      -- A zero has one mantissa and one exponent, so only its sign is left open.
      by_cases hm : m = 0
      · subst hm
        obtain rfl : e = -1074 := by
          rcases hnormal.2.2.2 with hlow | hleast
          · exact absurd hlow (by decide)
          · exact hleast
        cases negative with
        | true => exact absurd rfl hzero
        | false =>
          rw [Nat.zero_div, Nat.zero_shiftLeft]
          rfl
      · have hk : (m / 2 ^ (-e).toNat) <<< e.toNat ≠ 0 := by
          rw [Nat.shiftLeft_eq]
          refine Nat.ne_of_gt (Nat.mul_pos (Nat.pos_of_ne_zero fun hq => hm ?_) (Nat.two_pow_pos _))
          rw [← hdiv, hq, Nat.zero_mul]
        -- The mantissa is the integer, shifted one way or the other: one of the two shifts is by
        -- nothing.
        have heq : (m / 2 ^ (-e).toNat) <<< e.toNat <<< (-e).toNat = m <<< e.toNat := by
          rw [Nat.shiftLeft_eq, Nat.shiftLeft_eq, Nat.shiftLeft_eq, Nat.mul_right_comm, hdiv]
        have hround := ofRatio_of_normal negative hnormal hk heq
        generalize (m / 2 ^ (-e).toNat) <<< e.toNat = k at hk hround ⊢
        cases negative with
        | false =>
          have hsign : ¬ (k : Int) < 0 := Int.not_lt.mpr (Int.natCast_nonneg k)
          simpa [ofInt, signed, hsign] using hround
        | true => simpa [ofInt, signed, Nat.pos_of_ne_zero hk] using hround
    · cases h

end Double

end StackCode
