import Mathlib.Algebra.Order.Ring.Int
import StackCode.Proofs.Double.Exact

/-!
# Sums of integers

A sum is computed exactly and rounded once. If both numbers stand for integers, so does the sum
unless it is out of range, and the rounding is to a nearest number: no integer that a number stands
for is nearer to the exact sum. Each of the two numbers stands for such an integer, so the error is
at most the smaller of them (`toInt?_add`).

What is needed of a sum is little: that it is an integer, and how far it can be from the exact one.
Both are shown through nearness and not by following bits. A number that is nearest to the exact sum
is at least as near as either summand, and the distance to a summand is the other one.

Ties go to the even neighbour, but the statement holds whichever way they go, and no lemma mentions
it.
-/

set_option autoImplicit false

namespace StackCode.Double

/-! ## Rounding to a multiple

Division with rounding, on natural numbers. -/

/-- The error is at most half of the divisor. -/
theorem two_mul_roundQuotient_error (n : Nat) {d : Nat} (hd : 0 < d) :
    2 * ((roundQuotient n d * d : Nat) - n : Int).natAbs ≤ d := by
  have hdiv := Nat.div_add_mod n d
  have hmod := Nat.mod_lt n hd
  unfold roundQuotient
  dsimp only
  rw [Nat.mul_comm d] at hdiv
  generalize n % d = r at hdiv hmod
  split
  · generalize n / d * d = t at hdiv
    omega
  · rw [Nat.add_mul, Nat.one_mul]
    generalize n / d * d = t at hdiv
    omega

/-- No other multiple of the divisor is nearer. -/
theorem roundQuotient_nearest (n : Nat) {d : Nat} (hd : 0 < d) (t : Nat) :
    ((roundQuotient n d * d : Nat) - n : Int).natAbs ≤ ((t * d : Nat) - n : Int).natAbs := by
  have herror := two_mul_roundQuotient_error n hd
  generalize roundQuotient n d = q at herror ⊢
  rcases Nat.lt_trichotomy t q with hlt | rfl | hgt
  · have := Nat.mul_le_mul_right d hlt
    rw [Nat.succ_mul] at this
    omega
  · exact Nat.le_refl _
  · have := Nat.mul_le_mul_right d hgt
    rw [Nat.succ_mul] at this
    omega

theorem roundQuotient_mul_mul (n d : Nat) {c : Nat} (hc : 0 < c) :
    roundQuotient (n * c) (d * c) = roundQuotient n d := by
  have hlt : 2 * (n % d * c) < d * c ↔ 2 * (n % d) < d := by
    rw [← Nat.mul_assoc]
    exact Nat.mul_lt_mul_right hc
  have heq : 2 * (n % d * c) = d * c ↔ 2 * (n % d) = d := by
    rw [← Nat.mul_assoc]
    exact Nat.mul_left_inj (Nat.ne_of_gt hc)
  unfold roundQuotient
  dsimp only
  simp only [Nat.mul_div_mul_right _ _ hc, Nat.mul_mod_mul_right, hlt, heq]

/-! ## Numbers that stand for integers -/

/-- A finite number stands for an integer if its mantissa, shifted by its exponent, is one. -/
theorem toInt?_finite_eq_some_iff {s : Bool} {m : Nat} {e : Int} {hnormal : Normal m e} {a : Int} :
    (finite s m e hnormal).toInt? = some a ↔
      ∃ k : Nat, a = signed s k ∧ k <<< (-e).toNat = m <<< e.toNat := by
  unfold toInt?
  dsimp only
  rw [Nat.one_shiftLeft]
  have hunit : 0 < 2 ^ (-e).toNat := Nat.two_pow_pos _
  constructor
  · intro h
    split at h
    · rename_i hmod
      obtain rfl := Option.some.inj h
      refine ⟨_, rfl, ?_⟩
      rw [Nat.shiftLeft_eq, Nat.shiftLeft_eq, Nat.shiftLeft_eq, Nat.mul_right_comm,
        Nat.div_mul_cancel (Nat.dvd_of_mod_eq_zero hmod)]
    · cases h
  · rintro ⟨k, rfl, hk⟩
    rw [Nat.shiftLeft_eq, Nat.shiftLeft_eq] at hk
    -- One of the two shifts is by nothing.
    rcases Int.le_total e 0 with hle | hge
    · rw [Int.toNat_of_nonpos hle, Nat.pow_zero, Nat.mul_one] at hk
      subst hk
      rw [Nat.mul_mod_left, if_pos rfl, Nat.mul_div_cancel k hunit, Int.toNat_of_nonpos hle,
        Nat.shiftLeft_zero]
    · have hzero : (-e).toNat = 0 := by omega
      rw [hzero, Nat.pow_zero, Nat.mul_one] at hk
      subst hk
      rw [hzero, Nat.pow_zero, Nat.mod_one, if_pos rfl, Nat.div_one, Nat.shiftLeft_eq]

theorem natAbs_signed (s : Bool) (k : Nat) : (signed s k).natAbs = k := by
  cases s <;> simp [signed]

/-- Some number stands for the natural number. -/
def IsExact (k : Nat) : Prop :=
  ∃ m e, Normal m e ∧ k <<< (-e).toNat = m <<< e.toNat

theorem isExact_natAbs {x : Double} {a : Int} (h : x.toInt? = some a) : IsExact a.natAbs := by
  cases x with
  | nan => cases h
  | infinity s => cases h
  | finite s m e hnormal =>
    obtain ⟨k, rfl, hk⟩ := toInt?_finite_eq_some_iff.mp h
    rw [natAbs_signed]
    exact ⟨m, e, hnormal, hk⟩

/-! ## Rounding an integer

Two cases by the number of bits. With 53 or fewer nothing happens; with more, the lowest are rounded
away, and what remains is a multiple of a power of two. -/

/-- A natural number below the lowest multiple of `2 ^ e` that needs all 53 bits has its exponent
below `e`, unless it is a multiple of `2 ^ e` itself. -/
theorem IsExact.multiple_or_le {k : Nat} (h : IsExact k) (e : Nat) :
    (∃ t, k = t * 2 ^ (e + 1)) ∨ k ≤ 9007199254740991 * 2 ^ e := by
  obtain ⟨m, d, ⟨hm, _⟩, hk⟩ := h
  rw [Nat.shiftLeft_eq, Nat.shiftLeft_eq] at hk
  rcases Int.lt_or_le (e : Int) d with hlt | hle
  · left
    have hneg : (-d).toNat = 0 := by omega
    have hpos : d.toNat = (d.toNat - (e + 1)) + (e + 1) := by omega
    refine ⟨m * 2 ^ (d.toNat - (e + 1)), ?_⟩
    rw [hneg, Nat.pow_zero, Nat.mul_one] at hk
    rw [hk, Nat.mul_assoc, ← Nat.pow_add, ← hpos]
  · right
    calc k = k * 1 := (Nat.mul_one k).symm
      _ ≤ k * 2 ^ (-d).toNat := Nat.mul_le_mul_left k (Nat.two_pow_pos _)
      _ = m * 2 ^ d.toNat := hk
      _ ≤ 9007199254740991 * 2 ^ e :=
  Nat.mul_le_mul (by omega) (Nat.pow_le_pow_right (by decide) (by omega))

/-- An integer of more than 53 bits loses the lowest of them. -/
theorem ofRatio_of_log2 (negative : Bool) {n e : Nat} (hn : n ≠ 0) (hlog : n.log2 = e + 53) :
    ofRatio negative n 1 =
      if roundQuotient n (2 ^ (e + 1)) = 9007199254740992 then pack negative 4503599627370496
        ((e : Int) + 2)
      else pack negative (roundQuotient n (2 ^ (e + 1))) ((e : Int) + 1) := by
  have hexponent : max (-1074) (floorLog2 n 1 - 52) = (e : Int) + 1 := by
    rw [floorLog2_one hn, hlog]
    omega
  have hshift : (-((e : Int) + 1)).toNat = 0 ∧ ((e : Int) + 1).toNat = e + 1 := by omega
  unfold ofRatio
  rw [if_neg hn, hexponent]
  dsimp only
  rw [hshift.1, hshift.2, Nat.shiftLeft_zero, Nat.one_shiftLeft, Int.add_assoc]
  rfl

theorem toInt?_pack {negative : Bool} {m k : Nat} {e : Int} (hnormal : Normal m e)
    (hk : k <<< (-e).toNat = m <<< e.toNat) :
    (pack negative m e).toInt? = some (signed negative k) := by
  rw [pack, dif_pos hnormal]
  exact toInt?_finite_eq_some_iff.mpr ⟨k, rfl, hk⟩

/-- At most 53 bits: nothing is lost. -/
theorem toInt?_ofRatio_of_lt (negative : Bool) {n : Nat} (hn : n ≠ 0) (hlt : n < 9007199254740992) :
    (ofRatio negative n 1).toInt? = some (signed negative n) := by
  have hlog : n.log2 < 53 := (Nat.log2_lt hn).mpr hlt
  have hshift : (-((n.log2 : Int) - 52)).toNat = 52 - n.log2 ∧ ((n.log2 : Int) - 52).toNat = 0 := by
    omega
  have heq : n <<< (-((n.log2 : Int) - 52)).toNat =
      (n <<< (52 - n.log2)) <<< ((n.log2 : Int) - 52).toNat := by
    rw [hshift.1, hshift.2, Nat.shiftLeft_zero]
  rw [ofRatio_of_normal negative (normal_shiftLeft hn hlt) hn heq]
  exact toInt?_finite_eq_some_iff.mpr ⟨n, rfl, heq⟩

section

variable {n e : Nat}

/-- The bounds of a number of `e + 54` bits. -/
theorem bounds_of_log2 (hn : n ≠ 0) (hlog : n.log2 = e + 53) :
    9007199254740992 * 2 ^ e ≤ n ∧ n < 2 * (9007199254740992 * 2 ^ e) := by
  constructor
  · have := Nat.log2_self_le hn
    rwa [hlog, Nat.pow_add, Nat.mul_comm] at this
  · have := Nat.lt_log2_self (n := n)
    rwa [hlog, Nat.pow_succ, Nat.pow_add, Nat.mul_comm _ 2, Nat.mul_comm (2 ^ e)] at this

/-- What is left has 53 bits, or all of them are carried into the next. -/
theorem roundQuotient_bounds (hn : n ≠ 0) (hlog : n.log2 = e + 53) :
    4503599627370496 ≤ roundQuotient n (2 ^ (e + 1)) ∧
    roundQuotient n (2 ^ (e + 1)) ≤ 9007199254740992 := by
  have hbounds := bounds_of_log2 hn hlog
  have hpow : 2 ^ (e + 1) = 2 * 2 ^ e := by rw [Nat.pow_succ, Nat.mul_comm]
  have herror := two_mul_roundQuotient_error n (Nat.two_pow_pos (e + 1))
  generalize roundQuotient n (2 ^ (e + 1)) = q at herror
  have hmono : ∀ {a b : Nat}, a < b → a * 2 ^ (e + 1) + 2 ^ (e + 1) ≤ b * 2 ^ (e + 1) := by
    intro a b hlt
    rw [← Nat.succ_mul]
    exact Nat.mul_le_mul_right _ hlt
  constructor
  · apply Nat.le_of_not_lt
    intro hlt
    have := hmono hlt
    omega
  · apply Nat.le_of_not_lt
    intro hlt
    have := hmono hlt
    omega

/-- More than 53 bits: what is left is a multiple of `2 ^ (e + 1)`. -/
theorem toInt?_ofRatio_of_log2 (negative : Bool) (hn : n ≠ 0) (hlog : n.log2 = e + 53)
    (hlt : n.log2 < 1023) :
    (ofRatio negative n 1).toInt? =
      some (signed negative (roundQuotient n (2 ^ (e + 1)) * 2 ^ (e + 1))) := by
  rw [ofRatio_of_log2 negative hn hlog]
  obtain ⟨hlow, hhigh⟩ := roundQuotient_bounds hn hlog
  generalize roundQuotient n (2 ^ (e + 1)) = q at hlow hhigh
  split
  · rename_i hcarry
    have hshift : (-((e : Int) + 2)).toNat = 0 ∧ ((e : Int) + 2).toNat = e + 1 + 1 := by omega
    refine toInt?_pack ⟨by decide, by omega, by omega, .inl (by decide)⟩ ?_
    rw [hcarry, hshift.1, hshift.2, Nat.shiftLeft_zero, Nat.shiftLeft_eq, Nat.pow_succ 2 (e + 1),
      Nat.mul_comm (2 ^ (e + 1)) 2, ← Nat.mul_assoc]
  · have hshift : (-((e : Int) + 1)).toNat = 0 ∧ ((e : Int) + 1).toNat = e + 1 := by omega
    refine toInt?_pack ⟨by omega, by omega, by omega, .inl hlow⟩ ?_
    rw [hshift.1, hshift.2, Nat.shiftLeft_zero, Nat.shiftLeft_eq]

end

/-- An integer in range is rounded to an integer, and no integer that a number stands for is
nearer. -/
theorem toInt?_ofRatio (negative : Bool) {n : Nat} (hn : n ≠ 0) (hlt : n.log2 < 1023) :
    ∃ k : Nat, (ofRatio negative n 1).toInt? = some (signed negative k) ∧
      ∀ j, IsExact j → (k - n : Int).natAbs ≤ (j - n : Int).natAbs := by
  rcases Nat.lt_or_ge n 9007199254740992 with hsmall | hlarge
  · refine ⟨n, toInt?_ofRatio_of_lt negative hn hsmall, fun j _ => ?_⟩
    omega
  · have hbits : 53 ≤ n.log2 := (Nat.le_log2 hn).mpr hlarge
    obtain ⟨e, he⟩ : ∃ e, n.log2 = e + 53 := ⟨n.log2 - 53, by omega⟩
    have hpos := Nat.two_pow_pos (e + 1)
    refine ⟨_, toInt?_ofRatio_of_log2 negative hn he hlt, fun j hj => ?_⟩
    rcases hj.multiple_or_le e with ⟨t, rfl⟩ | hj
    · exact roundQuotient_nearest n hpos t
    · -- Such a `j` is at least `2 ^ e` below `n`, and the error is no more than that.
      have hbounds := bounds_of_log2 hn he
      have herror := two_mul_roundQuotient_error n hpos
      have hpow : 2 ^ (e + 1) = 2 * 2 ^ e := by rw [Nat.pow_succ, Nat.mul_comm]
      omega

/-! ## Sums

Both summands are brought to a common scale, added as integers and rounded once. -/

/-- A ratio in which both sides are shifted is the same. -/
theorem ofRatio_shiftLeft (negative : Bool) (n a : Nat) :
    ofRatio negative (n <<< a) (1 <<< a) = ofRatio negative n 1 := by
  by_cases hn : n = 0
  · rw [hn, Nat.zero_shiftLeft]
    rfl
  · have hpos : 0 < 2 ^ a := Nat.two_pow_pos a
    have hshift : n <<< a ≠ 0 := by
      rw [Nat.shiftLeft_eq]
      exact Nat.ne_of_gt (Nat.mul_pos (Nat.pos_of_ne_zero hn) hpos)
    -- The leading bit is found by comparing numerator and denominator, which are both shifted.
    have hlog : floorLog2 (n <<< a) (1 <<< a) = floorLog2 n 1 := by
      have hle : 1 <<< a <<< n.log2 ≤ n <<< a := by
        rw [Nat.shiftLeft_eq, Nat.shiftLeft_eq, Nat.shiftLeft_eq, Nat.one_mul, Nat.mul_comm]
        exact Nat.mul_le_mul_right _ (Nat.log2_self_le hn)
      have hdiff : (n.log2 + a : Nat) - ((0 + a : Nat) : Int) = n.log2 := by omega
      rw [floorLog2_one hn]
      unfold floorLog2
      rw [log2_shiftLeft hn, log2_shiftLeft (by decide : (1 : Nat) ≠ 0),
        show Nat.log2 1 = 0 by decide, hdiff]
      simp [hle]
    unfold ofRatio
    rw [if_neg hn, if_neg hshift, hlog]
    dsimp only
    -- The quotient is rounded after further shifts, and those commute with the first.
    have hscale : ∀ c d,
        roundQuotient (n <<< a <<< c) (1 <<< a <<< d) = roundQuotient (n <<< c) (1 <<< d) := by
      intro c d
      simp only [Nat.shiftLeft_eq, Nat.mul_right_comm _ (2 ^ a)]
      exact roundQuotient_mul_mul _ _ hpos
    rw [hscale]

theorem signed_mul (s : Bool) (k c : Nat) : signed s (k * c) = signed s k * c := by
  cases s <;> simp [signed]

/-- A summand on a common scale. -/
theorem signed_shiftLeft_mul {s : Bool} {m k : Nat} {d low : Int}
    (hk : k <<< (-d).toNat = m <<< d.toNat) (hlow : low ≤ d) :
    signed s (m <<< (d - low).toNat) * (2 ^ low.toNat : Nat) =
      signed s k * (2 ^ (-low).toNat : Nat) := by
  rw [← signed_mul, ← signed_mul]
  congr 1
  have hexponents : (d - low).toNat + low.toNat + (-d).toNat = d.toNat + (-low).toNat := by omega
  rw [Nat.shiftLeft_eq, Nat.shiftLeft_eq] at hk
  rw [Nat.shiftLeft_eq]
  apply Nat.eq_of_mul_eq_mul_right (Nat.two_pow_pos (-d).toNat)
  calc m * 2 ^ (d - low).toNat * 2 ^ low.toNat * 2 ^ (-d).toNat
      = m * 2 ^ ((d - low).toNat + low.toNat + (-d).toNat) := by
        rw [Nat.pow_add, Nat.pow_add, Nat.mul_assoc m, Nat.mul_assoc m]
    _ = m * 2 ^ d.toNat * 2 ^ (-low).toNat := by rw [hexponents, Nat.pow_add, Nat.mul_assoc]
    _ = k * 2 ^ (-low).toNat * 2 ^ (-d).toNat := by rw [← hk, Nat.mul_right_comm]

/-- A ratio that is equal to an integer is rounded as the integer is. -/
theorem ofRatio_of_scaled {sum exact low : Int}
    (h : sum * (2 ^ low.toNat : Nat) = exact * (2 ^ (-low).toNat : Nat)) :
    ofRatio (sum < 0) (sum.natAbs <<< low.toNat) (1 <<< (-low).toNat) = ofInt exact := by
  have hsign : sum < 0 ↔ exact < 0 := by
    have hpos : ∀ c, (0 : Int) < (2 ^ c : Nat) := fun c => Int.natCast_pos.mpr (Nat.two_pow_pos c)
    have hleft := Int.mul_lt_mul_right (b := sum) (c := 0) (hpos low.toNat)
    have hright := Int.mul_lt_mul_right (b := exact) (c := 0) (hpos (-low).toNat)
    rw [Int.zero_mul] at hleft hright
    rw [← hleft, h, hright]
  have hmagnitude : sum.natAbs <<< low.toNat = exact.natAbs <<< (-low).toNat := by
    have := congrArg Int.natAbs h
    rwa [Int.natAbs_mul, Int.natAbs_mul, Int.natAbs_natCast, Int.natAbs_natCast, ← Nat.shiftLeft_eq,
      ← Nat.shiftLeft_eq] at this
  rw [hmagnitude, ofRatio_shiftLeft, decide_eq_decide.mpr hsign]
  rfl

/-- **The sum of two integers is the number nearest to the sum of the integers.** A sum of zero
keeps a sign. -/
theorem add_of_toInt? {x y : Double} {a b : Int} (hx : x.toInt? = some a) (hy : y.toInt? = some b) :
    x + y = ofInt (a + b) ∨ a + b = 0 ∧ ∃ s, x + y = zero s := by
  cases x with
  | nan => cases hx
  | infinity s => cases hx
  | finite s m d hm =>
    cases y with
    | nan => cases hy
    | infinity t => cases hy
    | finite t n e hn =>
      obtain ⟨k, rfl, hk⟩ := toInt?_finite_eq_some_iff.mp hx
      obtain ⟨l, rfl, hl⟩ := toInt?_finite_eq_some_iff.mp hy
      -- Each integer is its summand on the scale of the smaller exponent, times a power of two.
      have hleft := signed_shiftLeft_mul (s := s) hk (Int.min_le_left d e)
      have hright := signed_shiftLeft_mul (s := t) hl (Int.min_le_right d e)
      have hsum := congrArg₂ (· + ·) hleft hright
      rw [← Int.add_mul, ← Int.add_mul] at hsum
      show add _ _ = _ ∨ _ ∧ ∃ s, add _ _ = _
      unfold add
      dsimp only
      split
      · rename_i hzero
        rw [hzero, Int.zero_mul] at hsum
        -- A sum that vanishes on the common scale vanishes. Its sign is decided apart.
        rcases Int.mul_eq_zero.mp hsum.symm with hexact | hpow
        · exact Or.inr ⟨hexact, _, rfl⟩
        · exact absurd (Int.natCast_eq_zero.mp hpow) (Nat.ne_of_gt (Nat.two_pow_pos _))
      · exact Or.inl (ofRatio_of_scaled hsum)

/-- **The sum of two integers stands for an integer**, unless it is out of range. It is no farther
from the exact sum than the absolute value of either summand. -/
theorem toInt?_add {x y : Double} {a b : Int} {i : Nat} (hx : x.toInt? = some a)
    (hy : y.toInt? = some b) (hi : i ≤ 1023) (hlt : (a + b).natAbs < 2 ^ i) :
    ∃ c, (x + y).toInt? = some c ∧ c.natAbs ≤ a.natAbs + b.natAbs + min a.natAbs b.natAbs := by
  have hzero : ∀ s, (zero s).toInt? = some 0 := by
    intro s
    cases s <;> rfl
  rcases add_of_toInt? hx hy with hsum | ⟨_, s, hsum⟩
  · rw [hsum]
    by_cases hne : a + b = 0
    · rw [hne]
      exact ⟨0, rfl, Nat.zero_le _⟩
    · have hne' : (a + b).natAbs ≠ 0 := Int.natAbs_ne_zero.mpr hne
      have hlog : (a + b).natAbs.log2 < 1023 := Nat.lt_of_lt_of_le ((Nat.log2_lt hne').mpr hlt) hi
      obtain ⟨k, hk, hnearest⟩ := toInt?_ofRatio (a + b < 0) hne' hlog
      have hleft := hnearest _ (isExact_natAbs hx)
      have hright := hnearest _ (isExact_natAbs hy)
      refine ⟨_, hk, ?_⟩
      rw [natAbs_signed]
      omega
  · rw [hsum]
    exact ⟨0, hzero s, Nat.zero_le _⟩

end StackCode.Double
