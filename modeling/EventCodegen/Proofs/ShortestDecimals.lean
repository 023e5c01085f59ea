import EventCodegen.Number.Shortest
import EventCodegen.Proofs.Rounding

/-! The decimal that a number is written as reads back as that number (`shortest_reads`). Of the two
neighbours of a number among the decimals of seventeen digits the nearer one is always close enough
to it, so the search through the lengths finds a decimal, and it only ever takes one that has been
read back. -/
namespace EventCodegen.Binary64

/-! ## The leading power of ten -/

theorem reaches_iff {num den : ℕ} {k : ℤ} (hden : 0 < den) :
    leadingPower.reaches num den k = true ↔ (10 : ℚ) ^ k ≤ (num : ℚ) / den := by
  have hpos : (0 : ℚ) < (descale 10 num den k).2 :=
    Nat.cast_pos.mpr (descale_den_pos (by decide) hden)
  unfold leadingPower.reaches
  rw [decide_eq_true_eq, ← @Nat.cast_le ℚ, ← one_le_div hpos,
    descale_value (by decide) num den k, Nat.cast_ofNat, one_le_div (ten_zpow_pos k)]

/-- Going up stays at powers that are reached. -/
theorem climb_reaches {num den : ℕ} (hden : 0 < den) (fuel : ℕ) {k : ℤ}
    (hk : (10 : ℚ) ^ k ≤ (num : ℚ) / den) :
    (10 : ℚ) ^ leadingPower.climb num den fuel k ≤ (num : ℚ) / den := by
  induction fuel generalizing k with
  | zero => exact hk
  | succ fuel ih =>
    rw [leadingPower.climb]
    split
    · next h => exact ih ((reaches_iff hden).mp h)
    · exact hk

theorem ten_pow_le_two_pow : ∀ n < 1101, 10 ^ (n * 30103 / 100000 - 1) ≤ 2 ^ n := by decide +kernel

theorem two_pow_le_ten_pow_succ : ∀ n < 1101, 2 ^ n ≤ 10 ^ (n * 30103 / 100000 + 1) := by
  decide +kernel

/-- Powers of two are estimated from below, as far as the exponents of numbers go. -/
theorem estimate_le {l : ℤ} (hlow : -1100 ≤ l) (hhigh : l ≤ 1100) :
    (10 : ℚ) ^ (l * 30103 / 100000 - 1) ≤ 2 ^ l := by
  obtain ⟨n, rfl | rfl⟩ := l.eq_nat_or_neg
  · have h := ten_pow_le_two_pow n (by omega)
    calc (10 : ℚ) ^ ((n : ℤ) * 30103 / 100000 - 1)
        ≤ 10 ^ ((n * 30103 / 100000 - 1 : ℕ) : ℤ) :=
          zpow_le_zpow_right₀ (by norm_num) (by omega)
      _ ≤ 2 ^ (n : ℤ) := by
        rw [zpow_natCast, zpow_natCast]
        exact_mod_cast h
  · have h := two_pow_le_ten_pow_succ n (by omega)
    calc (10 : ℚ) ^ (-(n : ℤ) * 30103 / 100000 - 1)
        ≤ 10 ^ (-((n * 30103 / 100000 + 1 : ℕ) : ℤ)) :=
          zpow_le_zpow_right₀ (by norm_num) (by omega)
      _ ≤ 2 ^ (-(n : ℤ)) := by
        rw [zpow_neg, zpow_neg, zpow_natCast, zpow_natCast]
        exact inv_anti₀ (by positivity) (by exact_mod_cast h)

theorem leadingPower_le {num den : ℕ} (hnum : 0 < num) (hden : 0 < den)
    (hnumBits : num.log2 ≤ 1098) (hdenBits : den.log2 ≤ 1098) :
    (10 : ℚ) ^ leadingPower num den ≤ (num : ℚ) / den := by
  refine climb_reaches hden 4 (le_trans (estimate_le (by omega) (by omega)) ?_)
  have hn : (2 : ℚ) ^ num.log2 ≤ num := by exact_mod_cast Nat.log2_self_le hnum.ne'
  have hd : (den : ℚ) ≤ 2 ^ (den.log2 + 1) := by exact_mod_cast Nat.lt_log2_self.le
  rw [le_div_iff₀ (Nat.cast_pos.mpr hden)]
  calc (2 : ℚ) ^ ((num.log2 : ℤ) - den.log2 - 1) * den
      ≤ 2 ^ ((num.log2 : ℤ) - den.log2 - 1) * 2 ^ (den.log2 + 1) :=
        mul_le_mul_of_nonneg_left hd (two_zpow_pos _).le
    _ = 2 ^ num.log2 := by
      rw [← zpow_natCast, ← zpow_add₀ two_ne_zero, ← zpow_natCast]
      congr 1
      push_cast
      ring
    _ ≤ num := hn

/-! ## Seventeen digits -/

/-- A decimal is only taken if it reads back. -/
theorem ofDigitCount_reads {x : Binary64} {num den count : ℕ} {k : ℤ} {d : Decimal}
    (h : ofDigitCount x num den k count = some d) : ofDecimal false d.digits d.exponent = x := by
  unfold ofDigitCount at h
  dsimp only at h
  split at h
  · next hlow hnext =>
    cases h
    dsimp only
    split
    · exact of_decide_eq_true hlow
    · exact of_decide_eq_true hnext
  · next hlow _ =>
    cases h
    exact of_decide_eq_true hlow
  · next _ hnext =>
    cases h
    exact of_decide_eq_true hnext
  · cases h

/-- One of the two natural numbers around a value is at most a half away from it. -/
theorem near_floor {x : ℚ} (hx : 0 ≤ x) :
    |(⌊x⌋₊ : ℚ) - x| ≤ 1 / 2 ∨ |((⌊x⌋₊ + 1 : ℕ) : ℚ) - x| ≤ 1 / 2 := by
  have hlow := Nat.floor_le hx
  have hhigh := Nat.lt_floor_add_one x
  push_cast
  rcases le_total (x - ⌊x⌋₊) (1 / 2) with h | h
  · exact Or.inl (abs_le.mpr ⟨by linarith, by linarith⟩)
  · exact Or.inr (abs_le.mpr ⟨by linarith, by linarith⟩)

/-- On a grid that is fine enough one of the neighbours of a number reads back. -/
theorem neighbour_reads {m : ℕ} {e g : ℤ} (hcanonical : Canonical (finite false m e)) (hm : 0 < m)
    (hg : (10 : ℚ) ^ 16 * 10 ^ g ≤ m * 2 ^ e) :
    ofDecimal false ⌊(m : ℚ) * 2 ^ e / 10 ^ g⌋₊ g = finite false m e ∨
      ofDecimal false (⌊(m : ℚ) * 2 ^ e / 10 ^ g⌋₊ + 1) g = finite false m e := by
  have hstep := ten_zpow_pos g
  have hreads : ∀ v : ℕ, |(v : ℚ) - m * 2 ^ e / 10 ^ g| ≤ 1 / 2 →
      ofDecimal false v g = finite false m e := by
    intro v hv
    have hdistance : |(v : ℚ) * 10 ^ g - m * 2 ^ e| ≤ 1 / 2 * 10 ^ g := by
      rw [← div_le_iff₀ hstep, ← abs_of_pos hstep, ← abs_div, abs_of_pos hstep, sub_div,
        mul_div_assoc, div_self hstep.ne', mul_one]
      exact hv
    rw [ofDecimal_eq_nearest]
    refine nearest_of_close false hcanonical hm ?_
    linarith
  have hx : 0 ≤ (m : ℚ) * 2 ^ e / 10 ^ g :=
    div_nonneg (mul_nonneg (Nat.cast_nonneg m) (two_zpow_pos e).le) hstep.le
  exact (near_floor hx).imp (hreads _) (hreads _)

theorem ofDigitCount_seventeen {m num den : ℕ} {e k : ℤ} (hcanonical : Canonical (finite false m e))
    (hm : 0 < m) (hvalue : (num : ℚ) / den = m * 2 ^ e) (hk : (10 : ℚ) ^ k ≤ m * 2 ^ e) :
    (ofDigitCount (finite false m e) num den k 17).isSome = true := by
  have hgrid : (10 : ℚ) ^ 16 * 10 ^ (k + 1 - (17 : ℕ)) ≤ m * 2 ^ e := by
    refine le_trans (le_of_eq ?_) hk
    rw [← zpow_natCast, ← zpow_add₀ (by norm_num)]
    congr 1
    push_cast
    ring
  unfold ofDigitCount
  generalize k + 1 - ((17 : ℕ) : ℤ) = g at hgrid
  have hscaled : ((descale 10 num den g).1 : ℚ) / (descale 10 num den g).2 =
      m * 2 ^ e / 10 ^ g := by
    rw [descale_value (by decide), hvalue, Nat.cast_ofNat]
  have hreads := neighbour_reads hcanonical hm hgrid
  rw [← hscaled, Nat.floor_div_eq_div] at hreads
  dsimp only
  rcases hreads with h | h
  · rw [decide_eq_true h]
    generalize decide (ofDecimal false _ g = finite false m e) = above
    cases above <;> rfl
  · rw [decide_eq_true h]
    generalize decide (ofDecimal false _ g = finite false m e) = below
    cases below <;> rfl

/-- The parts of a number's ratio are no longer than its exponents allow. -/
theorem ratio_bits {negative : Bool} {m : ℕ} {e : ℤ} (h : Canonical (finite negative m e)) :
    (ratio m e).1.log2 ≤ 1098 ∧ (ratio m e).2.log2 ≤ 1098 := by
  obtain ⟨hbits, hleast, hmost, _⟩ := h
  have hbits : m < 2 ^ 53 := hbits
  have hlog : ∀ {n k : ℕ}, n < 2 ^ k → k ≤ 1099 → n.log2 ≤ 1098 := by
    intro n k hn hk
    rcases Nat.eq_zero_or_pos n with rfl | hpos
    · exact Nat.zero_le _
    · have := (Nat.log2_lt hpos.ne').mpr hn
      omega
  unfold ratio descale
  split
  · have hden : 1 * Nat.pow 2 (-e).toNat < 2 ^ ((-e).toNat + 1) := by
      rw [one_mul, Nat.pow_eq]
      exact Nat.pow_lt_pow_succ one_lt_two
    exact ⟨hlog hbits (by decide), hlog hden (by omega)⟩
  · have hnum : m * Nat.pow 2 (- -e).toNat < 2 ^ (53 + (- -e).toNat) := by
      rw [Nat.pow_eq, Nat.pow_add]
      exact Nat.mul_lt_mul_of_pos_right hbits (Nat.pow_pos two_pos)
    have hone : (1 : ℕ).log2 = 0 := rfl
    exact ⟨hlog hnum (by omega), by rw [hone]; exact Nat.zero_le _⟩

/-- The decimal that is found for a positive number has been read back. -/
theorem shortest_reads_positive {m : ℕ} {e : ℤ} (hcanonical : Canonical (finite false m e))
    (hm : 0 < m) :
    ofDecimal false (shortest m e).digits (shortest m e).exponent = finite false m e := by
  have hden : 0 < (ratio m e).2 := descale_den_pos two_pos one_pos
  have hvalue := ratio_value m e
  have hnum : 0 < (ratio m e).1 := by
    have hpos : (0 : ℚ) < m * 2 ^ e := mul_pos (Nat.cast_pos.mpr hm) (two_zpow_pos e)
    rw [← hvalue, div_pos_iff_of_pos_right (Nat.cast_pos.mpr hden)] at hpos
    exact Nat.cast_pos.mp hpos
  have hpower := leadingPower_le hnum hden (ratio_bits hcanonical).1 (ratio_bits hcanonical).2
  rw [hvalue] at hpower
  have hlast := ofDigitCount_seventeen hcanonical hm hvalue hpower
  -- the search ends at seventeen digits if not before
  have hfound : ((List.range 17).findSome? fun n => ofDigitCount (finite false m e) (ratio m e).1
      (ratio m e).2 (leadingPower (ratio m e).1 (ratio m e).2) (n + 1)).isSome = true :=
    List.findSome?_isSome_iff.mpr ⟨16, by decide, hlast⟩
  obtain ⟨d, hd⟩ := Option.isSome_iff_exists.mp hfound
  obtain ⟨n, _, hn⟩ := List.exists_of_findSome?_eq_some hd
  have heq : shortest m e = d := by
    unfold shortest
    dsimp only
    rw [hd]
    rfl
  rw [heq]
  exact ofDigitCount_reads hn

theorem shortest_pos {negative : Bool} {m : ℕ} {e : ℤ} (h : Canonical (finite negative m e))
    (hm : 0 < m) : 0 < (shortest m e).digits := by
  rcases Nat.eq_zero_or_pos (shortest m e).digits with hzero | hpos
  · have hreads := shortest_reads_positive (e := e) h hm
    rw [hzero, ofDecimal_eq_nearest] at hreads
    simp only [nearest, Nat.cast_zero, zero_mul, if_true, finite.injEq, true_and] at hreads
    omega
  · exact hpos

/-- The sign has no influence on the rounding. -/
theorem nearest_sign {m : ℕ} {e : ℤ} {q : ℚ} (negative : Bool)
    (h : nearest false q = finite false m e) : nearest negative q = finite negative m e := by
  have hsized : ∀ p : ℕ × ℤ,
      (if p.2 > 971 then infinite false else finite false p.1 p.2) = finite false m e →
      (if p.2 > 971 then infinite negative else finite negative p.1 p.2) = finite negative m e := by
    intro p hp
    split at hp
    · cases hp
    · next hbig =>
      rw [if_neg hbig]
      cases hp
      rfl
  unfold nearest at h ⊢
  split at h
  · next hq =>
    cases h
    rw [if_pos hq]
  · next hq =>
    rw [if_neg hq]
    exact hsized _ h

/-- The decimal that a number is written as reads back as the number. -/
theorem shortest_reads {negative : Bool} {m : ℕ} {e : ℤ} (h : Canonical (finite negative m e))
    (hm : 0 < m) :
    ofDecimal negative (shortest m e).digits (shortest m e).exponent = finite negative m e := by
  have hreads := shortest_reads_positive (e := e) h hm
  rw [ofDecimal_eq_nearest] at hreads ⊢
  exact nearest_sign negative hreads

end EventCodegen.Binary64
