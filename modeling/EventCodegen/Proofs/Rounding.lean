import Mathlib.Algebra.Order.Floor.Semifield
import Mathlib.Data.Int.Log
import Mathlib.Data.Rat.Floor
import Mathlib.Tactic.GCongr
import Mathlib.Tactic.FieldSimp
import Mathlib.Tactic.Linarith
import Mathlib.Tactic.NormNum
import Mathlib.Tactic.Positivity
import Mathlib.Tactic.Ring
import EventCodegen.Number.Binary64

/-! What number a decimal text is read as. The ratio arithmetic of `ofDecimal` computes the nearest
number to the exact value of the text (`ofDecimal_eq_nearest`), so two spellings of one value are
read as one number; what comes out is in the form in which numbers are kept (`canonical_nearest`);
and a value within one part in twice `10 ^ 16` of a number is read as that number
(`nearest_of_close`). -/
namespace EventCodegen.Binary64

/-- The form in which numbers are kept: 53 bits of mantissa, fewer only at the least exponent. -/
def Canonical : Binary64 → Prop
  | finite _ m e =>
    m < 2 * fullMantissa ∧ -1074 ≤ e ∧ e ≤ 971 ∧ (fullMantissa ≤ m ∨ e = -1074)
  | _ => True

/-- The nearest natural number, the even one of two. -/
def halfEven (x : ℚ) : ℕ :=
  let low := ⌊x⌋₊
  if x - low < 1 / 2 then low
  else if 1 / 2 < x - low then low + 1
  else if low % 2 = 1 then low + 1 else low

/-- The exponent of the numbers around a positive value. -/
noncomputable def gridOf (q : ℚ) : ℤ := max (-1074) (Int.log 2 q - 52)

/-- The number nearest to a value that is not negative. -/
noncomputable def nearest (negative : Bool) (q : ℚ) : Binary64 :=
  if q = 0 then finite negative 0 (-1074)
  else
    let m := halfEven (q / 2 ^ gridOf q)
    let (m, e) := if m = 2 * fullMantissa then (fullMantissa, gridOf q + 1) else (m, gridOf q)
    if e > 971 then infinite negative else finite negative m e

theorem two_zpow_pos (e : ℤ) : (0 : ℚ) < 2 ^ e := zpow_pos two_pos e

theorem ten_zpow_pos (e : ℤ) : (0 : ℚ) < 10 ^ e := zpow_pos (by norm_num) e

/-! ## Ratios -/

theorem descale_den_pos {base num den : ℕ} {e : ℤ} (hbase : 0 < base) (hden : 0 < den) :
    0 < (descale base num den e).2 := by
  unfold descale
  split
  · exact Nat.mul_pos hden (Nat.pow_pos hbase)
  · exact hden

/-- The two parts of a ratio, one of them scaled, are those of the scaled value. -/
theorem descale_value {base : ℕ} (hbase : 0 < base) (num den : ℕ) (e : ℤ) :
    ((descale base num den e).1 : ℚ) / (descale base num den e).2 = num / den / (base : ℚ) ^ e := by
  have hb : (base : ℚ) ≠ 0 := Nat.cast_ne_zero.mpr hbase.ne'
  unfold descale
  split
  · next h =>
    obtain ⟨n, rfl⟩ := Int.eq_ofNat_of_zero_le h
    rw [Int.toNat_natCast, Nat.pow_eq, zpow_natCast]
    push_cast
    rw [div_div]
  · next h =>
    obtain ⟨n, rfl⟩ : ∃ n : ℕ, e = -(n : ℤ) := ⟨(-e).toNat, by omega⟩
    rw [neg_neg, Int.toNat_natCast, Nat.pow_eq, zpow_neg, zpow_natCast, div_inv_eq_mul]
    push_cast
    ring

theorem ratio_value (m : ℕ) (e : ℤ) :
    ((ratio m e).1 : ℚ) / (ratio m e).2 = m * 2 ^ e := by
  rw [ratio, descale_value two_pos m 1 (-e), zpow_neg, div_inv_eq_mul]
  push_cast
  ring

/-! ## Whole numbers nearby -/

theorem roundRatio_eq_halfEven (num : ℕ) {den : ℕ} (hden : 0 < den) :
    roundRatio num den = halfEven ((num : ℚ) / den) := by
  have hd : (0 : ℚ) < den := Nat.cast_pos.mpr hden
  have hsplit : (num : ℚ) / den - (num / den : ℕ) = (num % den : ℕ) / den := by
    have hdiv : (num : ℚ) = den * (num / den : ℕ) + (num % den : ℕ) := by
      exact_mod_cast (Nat.div_add_mod num den).symm
    rw [div_sub' hd.ne', div_left_inj' hd.ne']
    linarith
  have hbelow : ((num % den : ℕ) : ℚ) / den < 1 / 2 ↔ 2 * (num % den) < den := by
    rw [div_lt_div_iff₀ hd two_pos, ← @Nat.cast_lt ℚ]
    push_cast
    constructor <;> intro h <;> linarith
  have habove : 1 / 2 < ((num % den : ℕ) : ℚ) / den ↔ den < 2 * (num % den) := by
    rw [div_lt_div_iff₀ two_pos hd, ← @Nat.cast_lt ℚ]
    push_cast
    constructor <;> intro h <;> linarith
  simp only [roundRatio, halfEven, Nat.floor_div_eq_div, hsplit, hbelow, habove]
  split_ifs <;> omega

/-- A value less than a half away from a natural number is rounded to it. -/
theorem halfEven_of_near {x : ℚ} {m : ℕ} (hx : 0 ≤ x) (h : |x - m| < 1 / 2) : halfEven x = m := by
  obtain ⟨hlow, hhigh⟩ := abs_lt.mp h
  have hfloor := Nat.floor_le hx
  have hlt := Nat.lt_floor_add_one x
  unfold halfEven
  by_cases hcase : (m : ℚ) ≤ x
  · have heq : ⌊x⌋₊ = m := (Nat.floor_eq_iff hx).mpr ⟨hcase, by linarith⟩
    simp only [heq]
    rw [if_pos (by linarith)]
  · -- the value lies below, so its whole part is the number before
    have hpos : 0 < m := by
      rcases Nat.eq_zero_or_pos m with rfl | hm
      · exact absurd hx (by simpa using hcase)
      · exact hm
    have heq : ⌊x⌋₊ = m - 1 := by
      refine (Nat.floor_eq_iff hx).mpr ⟨?_, ?_⟩ <;> push_cast [Nat.cast_sub hpos] <;> linarith
    have hcast : ((m - 1 : ℕ) : ℚ) = m - 1 := by push_cast [Nat.cast_sub hpos]; ring
    simp only [heq, hcast]
    rw [if_neg (by linarith), if_pos (by linarith)]
    omega

/-- Rounding does not lead out of a range of natural numbers. -/
theorem halfEven_bounds {x : ℚ} {low high : ℕ} (hlow : (low : ℚ) ≤ x) (hhigh : x < high) :
    low ≤ halfEven x ∧ halfEven x ≤ high := by
  have hx : 0 ≤ x := le_trans (Nat.cast_nonneg low) hlow
  have hle : low ≤ ⌊x⌋₊ := Nat.le_floor hlow
  have hlt : ⌊x⌋₊ < high := (Nat.floor_lt hx).mpr hhigh
  unfold halfEven
  dsimp only
  split_ifs <;> omega

/-! ## The grid around a value -/

theorem exponentOf_eq_gridOf {num den : ℕ} (hnum : 0 < num) (hden : 0 < den) :
    exponentOf num den = gridOf ((num : ℚ) / den) := by
  have hd : (0 : ℚ) < den := Nat.cast_pos.mpr hden
  have hq : (0 : ℚ) < (num : ℚ) / den := div_pos (Nat.cast_pos.mpr hnum) hd
  -- the lengths of the two parts leave two possible powers of two
  have hlow : (2 : ℚ) ^ ((num.log2 : ℤ) - den.log2 - 1) ≤ (num : ℚ) / den := by
    have hn : (2 : ℚ) ^ num.log2 ≤ num := by exact_mod_cast Nat.log2_self_le hnum.ne'
    have hdl : (den : ℚ) ≤ 2 ^ (den.log2 + 1) := by exact_mod_cast Nat.lt_log2_self.le
    rw [le_div_iff₀ hd]
    calc (2 : ℚ) ^ ((num.log2 : ℤ) - den.log2 - 1) * den
        ≤ 2 ^ ((num.log2 : ℤ) - den.log2 - 1) * 2 ^ (den.log2 + 1) :=
          mul_le_mul_of_nonneg_left hdl (two_zpow_pos _).le
      _ = 2 ^ num.log2 := by
        rw [← zpow_natCast, ← zpow_add₀ two_ne_zero, ← zpow_natCast]
        congr 1
        push_cast
        ring
      _ ≤ num := hn
  have hhigh : (num : ℚ) / den < 2 ^ ((num.log2 : ℤ) - den.log2 + 1) := by
    have hn : (num : ℚ) < 2 ^ (num.log2 + 1) := by exact_mod_cast Nat.lt_log2_self
    have hdl : (2 : ℚ) ^ den.log2 ≤ den := by exact_mod_cast Nat.log2_self_le hden.ne'
    rw [div_lt_iff₀ hd]
    calc (num : ℚ) < 2 ^ (num.log2 + 1) := hn
      _ = 2 ^ ((num.log2 : ℤ) - den.log2 + 1) * 2 ^ den.log2 := by
        rw [← zpow_natCast, ← zpow_natCast, ← zpow_add₀ two_ne_zero]
        congr 1
        push_cast
        ring
      _ ≤ 2 ^ ((num.log2 : ℤ) - den.log2 + 1) * den :=
          mul_le_mul_of_nonneg_left hdl (two_zpow_pos _).le
  have hlogLow := (Int.zpow_le_iff_le_log one_lt_two hq).mp (by rwa [Nat.cast_ofNat])
  have hlogHigh := (Int.lt_zpow_iff_log_lt one_lt_two hq).mp (by rwa [Nat.cast_ofNat])
  have htest : ∀ g : ℤ, (descale 2 num den g).1 < fullMantissa * (descale 2 num den g).2 ↔
      Int.log 2 ((num : ℚ) / den) < g + 52 := by
    intro g
    have hpos : (0 : ℚ) < (descale 2 num den g).2 :=
      Nat.cast_pos.mpr (descale_den_pos two_pos hden)
    have hfull : ((fullMantissa : ℕ) : ℚ) = 2 ^ (52 : ℤ) := by norm_num [fullMantissa]
    rw [← @Nat.cast_lt ℚ, Nat.cast_mul, ← div_lt_iff₀ hpos, descale_value two_pos num den g,
      Nat.cast_ofNat, div_lt_iff₀ (two_zpow_pos g), hfull, ← zpow_add₀ two_ne_zero, add_comm 52 g]
    exact Int.lt_zpow_iff_log_lt one_lt_two hq
  unfold exponentOf gridOf
  simp only [htest]
  split <;> congr 1 <;> omega

theorem ofRatio_eq_nearest (negative : Bool) (num : ℕ) {den : ℕ} (hden : 0 < den) :
    ofRatio negative num den = nearest negative ((num : ℚ) / den) := by
  unfold ofRatio nearest
  by_cases hnum : num = 0
  · simp [hnum]
  · have hq : (num : ℚ) / den ≠ 0 :=
      div_ne_zero (Nat.cast_ne_zero.mpr hnum) (Nat.cast_ne_zero.mpr hden.ne')
    rw [if_neg hnum, if_neg hq]
    simp only [exponentOf_eq_gridOf (Nat.pos_of_ne_zero hnum) hden,
      roundRatio_eq_halfEven _ (descale_den_pos two_pos hden), descale_value two_pos num den _,
      Nat.cast_ofNat]

/-- On its grid a positive value has a mantissa of at most 53 bits, and of no fewer unless the grid
is the finest. -/
theorem scaled_bounds {q : ℚ} (hq : 0 < q) : q / 2 ^ gridOf q < (2 * fullMantissa : ℕ) ∧
    (gridOf q = -1074 ∨ (fullMantissa : ℕ) ≤ q / 2 ^ gridOf q) := by
  have hfull : ((fullMantissa : ℕ) : ℚ) = 2 ^ (52 : ℤ) := by norm_num [fullMantissa]
  have htwice : ((2 * fullMantissa : ℕ) : ℚ) = 2 ^ (53 : ℤ) := by norm_num [fullMantissa]
  have hlow := Int.zpow_log_le_self one_lt_two hq
  have hhigh := Int.lt_zpow_succ_log_self one_lt_two q
  push_cast at hlow hhigh
  rw [hfull, htwice, div_lt_iff₀ (two_zpow_pos _), le_div_iff₀ (two_zpow_pos _),
    ← zpow_add₀ two_ne_zero, ← zpow_add₀ two_ne_zero]
  constructor
  · exact lt_of_lt_of_le hhigh (zpow_le_zpow_right₀ one_le_two (by unfold gridOf; omega))
  · by_cases hgrid : gridOf q = -1074
    · exact Or.inl hgrid
    · refine Or.inr (le_trans (zpow_le_zpow_right₀ one_le_two ?_) hlow)
      unfold gridOf at hgrid ⊢
      omega

/-- What a value is rounded to is kept in canonical form. -/
theorem canonical_nearest (negative : Bool) {q : ℚ} (hq : 0 ≤ q) :
    Canonical (nearest negative q) := by
  unfold nearest
  by_cases hzero : q = 0
  · rw [if_pos hzero]
    exact ⟨by decide, le_rfl, by decide, Or.inr rfl⟩
  · have hpos : 0 < q := lt_of_le_of_ne hq (Ne.symm hzero)
    obtain ⟨hhigh, hlow⟩ := scaled_bounds hpos
    have hgrid : -1074 ≤ gridOf q := le_max_left _ _
    have hscaled : ((0 : ℕ) : ℚ) ≤ q / 2 ^ gridOf q := by
      rw [Nat.cast_zero]
      exact (div_pos hpos (two_zpow_pos _)).le
    have hround := (halfEven_bounds hscaled hhigh).2
    rw [if_neg hzero]
    dsimp only
    split_ifs with hfull hbig hbig
    · trivial
    · have hmantissa : fullMantissa < 2 * fullMantissa := by decide
      exact ⟨hmantissa, by dsimp only; omega, by dsimp only at hbig ⊢; omega, Or.inl le_rfl⟩
    · trivial
    · refine ⟨by dsimp only; omega, hgrid, by dsimp only at hbig ⊢; omega, ?_⟩
      rcases hlow with hleast | hlow
      · exact Or.inr hleast
      · exact Or.inl (halfEven_bounds hlow hhigh).1

/-- The finest grid is that of all small values, and each other one that of the values from
`2 ^ 52` to `2 ^ 53` of its steps. -/
theorem gridOf_eq {q : ℚ} {e : ℤ} (hq : 0 < q) (hleast : -1074 ≤ e)
    (hhigh : q < (2 * fullMantissa : ℕ) * 2 ^ e)
    (hlow : e = -1074 ∨ (fullMantissa : ℕ) * 2 ^ e ≤ q) : gridOf q = e := by
  have hfull : ((fullMantissa : ℕ) : ℚ) = 2 ^ (52 : ℤ) := by norm_num [fullMantissa]
  have htwice : ((2 * fullMantissa : ℕ) : ℚ) = 2 ^ (53 : ℤ) := by norm_num [fullMantissa]
  rw [htwice, ← zpow_add₀ two_ne_zero] at hhigh
  rw [hfull, ← zpow_add₀ two_ne_zero] at hlow
  have hupper := (Int.lt_zpow_iff_log_lt one_lt_two hq).mp (by rwa [Nat.cast_ofNat])
  unfold gridOf
  rcases hlow with rfl | hlow
  · omega
  · have hlower := (Int.zpow_le_iff_le_log one_lt_two hq).mp (by rwa [Nat.cast_ofNat])
    omega

/-- The mantissa of a value is the natural number that lies less than half a step from it. -/
theorem nearest_eq {q : ℚ} {m : ℕ} (negative : Bool) (hq : 0 < q)
    (hnear : |q / 2 ^ gridOf q - m| < 1 / 2) : nearest negative q =
      if m = 2 * fullMantissa then
        if gridOf q + 1 > 971 then infinite negative else finite negative fullMantissa (gridOf q + 1)
      else if gridOf q > 971 then infinite negative else finite negative m (gridOf q) := by
  have hround := halfEven_of_near (div_pos hq (two_zpow_pos (gridOf q))).le hnear
  rw [nearest, if_neg hq.ne', hround]
  dsimp only
  by_cases hm : m = 2 * fullMantissa
  · rw [if_pos hm, if_pos hm]
  · rw [if_neg hm, if_neg hm]

/-- A value within one part in twice `10 ^ 16` of a number is read as that number. -/
theorem nearest_of_close {m : ℕ} {e : ℤ} {q : ℚ} (negative : Bool)
    (hcanonical : Canonical (finite negative m e)) (hm : 0 < m)
    (hclose : |q - m * 2 ^ e| * (2 * 10 ^ 16) ≤ m * 2 ^ e) :
    nearest negative q = finite negative m e := by
  obtain ⟨hbits, hleast, hmost, hfull⟩ := hcanonical
  have hu := two_zpow_pos e
  have hmq : (1 : ℚ) ≤ m := by exact_mod_cast hm
  obtain ⟨hbelow, habove⟩ := abs_le.mp ((le_div_iff₀ (by norm_num)).mpr hclose)
  have hmu : (2 : ℚ) ^ e ≤ m * 2 ^ e := le_mul_of_one_le_left hu.le hmq
  have hq : 0 < q := by linarith
  have hbitsq : (m : ℚ) + 1 ≤ 9007199254740992 := by
    have : m + 1 ≤ 9007199254740992 := hbits
    exact_mod_cast this
  have htop : (m : ℚ) * 2 ^ e + 2 ^ e ≤ 9007199254740992 * 2 ^ e := by
    have := mul_le_mul_of_nonneg_right hbitsq hu.le
    linarith
  by_cases hgrid : e = -1074 ∨ (fullMantissa : ℕ) * 2 ^ e ≤ q
  · -- the value lies among the numbers with this exponent
    have hsame : gridOf q = e := by
      refine gridOf_eq hq hleast ?_ hgrid
      push_cast [fullMantissa]
      linarith
    have hnear : |q / 2 ^ gridOf q - m| < 1 / 2 := by
      rw [hsame, abs_lt, lt_sub_iff_add_lt, sub_lt_iff_lt_add, lt_div_iff₀ hu, div_lt_iff₀ hu]
      constructor <;> linarith
    rw [nearest_eq negative hq hnear, if_neg hbits.ne, if_neg (by omega), hsame]
  · -- it lies below a power of two, where the steps are half as long, and is rounded up to it
    obtain ⟨hne, hlow⟩ := not_or.mp hgrid
    have hlow : q < 4503599627370496 * 2 ^ e := by
      have := not_le.mp hlow
      push_cast [fullMantissa] at this
      exact this
    have hmlow : 4503599627370496 ≤ m := hfull.resolve_right hne
    have hmeq : m = 4503599627370496 := by
      by_contra hother
      have hmore : (4503599627370496 : ℚ) + 1 ≤ m := by
        have : 4503599627370496 + 1 ≤ m := by omega
        exact_mod_cast this
      have := mul_le_mul_of_nonneg_right hmore hu.le
      linarith
    have hmcast : (m : ℚ) = 4503599627370496 := by rw [hmeq]; norm_num
    rw [hmcast] at hbelow
    have hhalf : (2 : ℚ) ^ e = 2 * 2 ^ (e - 1) := by
      rw [← zpow_one_add₀ two_ne_zero]
      congr 1
      ring
    have hv := two_zpow_pos (e - 1)
    rw [hhalf] at hbelow hlow
    have hsame : gridOf q = e - 1 := by
      refine gridOf_eq hq (by omega) ?_ (Or.inr ?_) <;> push_cast [fullMantissa] <;> linarith
    have hnear : |q / 2 ^ gridOf q - (2 * fullMantissa : ℕ)| < 1 / 2 := by
      rw [hsame, abs_lt, lt_sub_iff_add_lt, sub_lt_iff_lt_add, lt_div_iff₀ hv, div_lt_iff₀ hv]
      push_cast [fullMantissa]
      constructor <;> linarith
    rw [nearest_eq negative hq hnear, if_pos rfl, if_neg (by omega), hsame, sub_add_cancel, hmeq]
    rfl

/-! ## Decimal texts -/

/-- The digits of a positive number are as many as the powers of ten say. -/
theorem length_toDigits_bounds {n : ℕ} (hn : 0 < n) :
    10 ^ ((Nat.toDigits 10 n).length - 1) ≤ n ∧ n < 10 ^ (Nat.toDigits 10 n).length := by
  have hpos : 0 < (Nat.toDigits 10 n).length := Nat.length_toDigits_pos
  refine ⟨?_, (Nat.length_toDigits_le_iff (by decide) hpos).mp le_rfl⟩
  rcases Nat.eq_zero_or_pos ((Nat.toDigits 10 n).length - 1) with hzero | hmore
  · rw [hzero]
    exact hn
  · have := (Nat.length_toDigits_le_iff (b := 10) (n := n) (by decide) hmore).not
    omega

theorem two_pow_le_ten_pow (n : ℕ) : (2 : ℚ) ^ (3 * n) ≤ 10 ^ n := by
  rw [pow_mul]
  exact pow_le_pow_left₀ (by norm_num) (by norm_num) n

theorem nearest_of_tiny (negative : Bool) {q : ℚ} (hq : 0 < q) (h : q < 10 ^ (-400 : ℤ)) :
    nearest negative q = finite negative 0 (-1074) := by
  have hpow : (10 : ℚ) ^ (-400 : ℤ) ≤ 1 / 2 * 2 ^ (-1074 : ℤ) := by
    calc (10 : ℚ) ^ (-400 : ℤ) = (10 ^ 400)⁻¹ := rfl
      _ ≤ (2 ^ (3 * 400))⁻¹ := inv_anti₀ (by positivity) (two_pow_le_ten_pow 400)
      _ = 2 ^ (-1200 : ℤ) := rfl
      _ ≤ 2 ^ (-1 + -1074 : ℤ) := zpow_le_zpow_right₀ one_le_two (by decide)
      _ = 1 / 2 * 2 ^ (-1074 : ℤ) := by
        rw [zpow_add₀ two_ne_zero, zpow_neg_one, one_div]
  have hsmall : q < 1 / 2 * 2 ^ (-1074 : ℤ) := lt_of_lt_of_le h hpow
  have hu := two_zpow_pos (-1074)
  have hgrid : gridOf q = -1074 := by
    refine gridOf_eq hq le_rfl (lt_of_lt_of_le hsmall ?_) (Or.inl rfl)
    refine mul_le_mul_of_nonneg_right ?_ hu.le
    norm_num [fullMantissa]
  have hnear : |q / 2 ^ gridOf q - (0 : ℕ)| < 1 / 2 := by
    rw [hgrid, Nat.cast_zero, sub_zero, abs_of_pos (div_pos hq hu), div_lt_iff₀ hu]
    exact hsmall
  rw [nearest_eq negative hq hnear, hgrid]
  rfl

theorem nearest_of_huge (negative : Bool) {q : ℚ} (h : (10 : ℚ) ^ (400 : ℤ) ≤ q) :
    nearest negative q = infinite negative := by
  have hq : 0 < q := lt_of_lt_of_le (ten_zpow_pos 400) h
  have hpow : (2 : ℚ) ^ (1200 : ℤ) ≤ q := le_trans (two_pow_le_ten_pow 400) h
  have hlog := (Int.zpow_le_iff_le_log one_lt_two hq).mp (by rwa [Nat.cast_ofNat])
  have hgrid : 972 ≤ gridOf q := by
    unfold gridOf
    omega
  rw [nearest, if_neg hq.ne']
  dsimp only
  split <;> dsimp only <;> rw [if_pos (by omega)]

/-- A decimal text is read as the number nearest to its exact value. -/
theorem ofDecimal_eq_nearest (negative : Bool) (digits : ℕ) (exponent : ℤ) :
    ofDecimal negative digits exponent = nearest negative (digits * 10 ^ exponent) := by
  unfold ofDecimal
  rcases Nat.eq_zero_or_pos digits with rfl | hdigits
  · simp [nearest]
  have hten := ten_zpow_pos exponent
  have hpos : (0 : ℚ) < digits * 10 ^ exponent := mul_pos (Nat.cast_pos.mpr hdigits) hten
  obtain ⟨hlow, hhigh⟩ := length_toDigits_bounds hdigits
  generalize hplaces : (Nat.toDigits 10 digits).length = places at hlow hhigh ⊢
  have hplacesPos : 0 < places := hplaces ▸ Nat.length_toDigits_pos
  dsimp only
  split
  · next h =>
    have hsmall : (places : ℤ) + exponent < -400 := h.resolve_left hdigits.ne'
    symm
    refine nearest_of_tiny negative hpos ?_
    have hdigitsq : (digits : ℚ) < 10 ^ places := by exact_mod_cast hhigh
    calc (digits : ℚ) * 10 ^ exponent < 10 ^ places * 10 ^ exponent :=
          mul_lt_mul_of_pos_right hdigitsq hten
      _ = 10 ^ (places + exponent) := by rw [zpow_add₀ (by norm_num), zpow_natCast]
      _ ≤ 10 ^ (-400 : ℤ) := zpow_le_zpow_right₀ (by norm_num) hsmall.le
  · split
    · next hbig =>
      symm
      refine nearest_of_huge negative ?_
      have hdigitsq : (10 : ℚ) ^ (places - 1) ≤ digits := by exact_mod_cast hlow
      calc (10 : ℚ) ^ (400 : ℤ) ≤ 10 ^ (((places - 1 : ℕ) : ℤ) + exponent) :=
            zpow_le_zpow_right₀ (by norm_num) (by omega)
        _ = 10 ^ (places - 1) * 10 ^ exponent := by rw [zpow_add₀ (by norm_num), zpow_natCast]
        _ ≤ digits * 10 ^ exponent := mul_le_mul_of_nonneg_right hdigitsq hten.le
    · rw [ofRatio_eq_nearest negative _ (descale_den_pos (by decide) one_pos),
        descale_value (by decide) digits 1 (-exponent), zpow_neg, div_inv_eq_mul, Nat.cast_one,
        div_one, Nat.cast_ofNat]

theorem canonical_ofDecimal (negative : Bool) (digits : ℕ) (exponent : ℤ) :
    Canonical (ofDecimal negative digits exponent) := by
  rw [ofDecimal_eq_nearest]
  exact canonical_nearest negative (mul_nonneg (Nat.cast_nonneg _) (ten_zpow_pos _).le)

/-- Zeros at the end of the digits only move the exponent. -/
theorem ofDecimal_mul_pow (negative : Bool) (digits zeros : ℕ) (exponent : ℤ) :
    ofDecimal negative (digits * 10 ^ zeros) exponent =
      ofDecimal negative digits (exponent + zeros) := by
  rw [ofDecimal_eq_nearest, ofDecimal_eq_nearest, zpow_add₀ (by norm_num), zpow_natCast]
  push_cast
  congr 1
  ring

end EventCodegen.Binary64
