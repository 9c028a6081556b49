import BleCapture.Proofs.Decimal.Rounding

/-!
# The shortest decimal

The search for the shortest decimal compares whole numbers. It looks for a decimal in
the interval of the double, on finer and finer grids, and takes the first that it finds.
-/

namespace BleCapture.Decimal

theorem pow_toNat {b : ℚ} (hb : b ≠ 0) (n : ℤ) : b ^ n.toNat = b ^ n * b ^ (-n).toNat := by
  rw [← zpow_natCast, ← zpow_natCast, ← zpow_add₀ hb]
  exact congrArg (b ^ ·) (by omega)

namespace Binary64

variable {x : Binary64} {d : ℕ} {k : ℤ}

-- ---------------------------------------------------------------------------
-- Reading back
-- ---------------------------------------------------------------------------

theorem quarterScale_pos (x : Binary64) (k : ℤ) : 0 < x.quarterScale k :=
  Nat.mul_pos (Nat.two_pow_pos _) (Nat.pow_pos (by decide))

theorem tenScale_pos (x : Binary64) (k : ℤ) : 0 < x.tenScale k :=
  Nat.mul_pos (Nat.two_pow_pos _) (Nat.pow_pos (by decide))

/-- A decimal reads back as the double exactly when it lies in the interval of the
double. -/
theorem readsBack_iff : x.readsBack d k = true ↔ x.Covers (d * 10 ^ k) := by
  obtain ⟨c, hc⟩ : ∃ c : ℚ, c = 2 ^ (2 - x.exponent).toNat * 10 ^ (-k).toNat := ⟨_, rfl⟩
  have hpos : 0 < c := hc ▸ by positivity
  have hquarter : (x.quarterScale k : ℚ) = 2 ^ (x.exponent - 2) * c := by
    have h2 := pow_toNat (two_ne_zero (α := ℚ)) (x.exponent - 2)
    rw [neg_sub] at h2
    have hcast : (x.quarterScale k : ℚ) = 2 ^ (x.exponent - 2).toNat * 10 ^ (-k).toNat := by
      exact_mod_cast rfl
    rw [hcast, h2, hc, mul_assoc]
  have hten : (x.tenScale k : ℚ) = 10 ^ k * c := by
    have h10 := pow_toNat (by norm_num : (10 : ℚ) ≠ 0) k
    have hcast : (x.tenScale k : ℚ) = 2 ^ (2 - x.exponent).toNat * 10 ^ k.toNat := by
      exact_mod_cast rfl
    rw [hcast, h10, hc]
    ring
  have hle : ∀ a b : ℕ, a * x.quarterScale k ≤ b * x.tenScale k ↔
      (a * 2 ^ (x.exponent - 2) : ℚ) ≤ b * 10 ^ k := by
    intro a b
    rw [← Nat.cast_le (α := ℚ), Nat.cast_mul, Nat.cast_mul, hquarter, hten, ← mul_assoc,
      ← mul_assoc, mul_le_mul_iff_left₀ hpos]
  have hge : ∀ a b : ℕ, b * x.tenScale k ≤ a * x.quarterScale k ↔
      (b * 10 ^ k : ℚ) ≤ a * 2 ^ (x.exponent - 2) := by
    intro a b
    rw [← Nat.cast_le (α := ℚ), Nat.cast_mul, Nat.cast_mul, hquarter, hten, ← mul_assoc,
      ← mul_assoc, mul_le_mul_iff_left₀ hpos]
  rw [readsBack, Covers]
  split
  · simp only [Bool.and_eq_true, decide_eq_true_eq, hle, hge]
  · simp only [Bool.and_eq_true, decide_eq_true_eq, ← not_le, hle, hge]

theorem Covers.bounds {v : ℚ} (h : x.Covers v) :
    x.lowerEnd * 2 ^ (x.exponent - 2) ≤ v ∧ v ≤ x.upperEnd * 2 ^ (x.exponent - 2) := by
  rw [Covers] at h
  split at h
  · exact h
  · exact ⟨h.1.le, h.2.le⟩

theorem lowerEnd_le (x : Binary64) : x.lowerEnd ≤ 4 * x.significand := by
  rw [lowerEnd]
  split
  · exact Nat.sub_le _ _
  · exact Nat.sub_le _ _

theorem upperEnd_le (x : Binary64) : x.upperEnd ≤ x.lowerEnd + 4 := by
  rw [lowerEnd, upperEnd]
  split <;> omega

/-- The interval of a double is no wider than a unit of its last place. -/
theorem Covers.sub_le {v w : ℚ} (hv : x.Covers v) (hw : x.Covers w) : v - w ≤ 2 ^ x.exponent := by
  have hquarter : (2 : ℚ) ^ x.exponent = 4 * 2 ^ (x.exponent - 2) := two_zpow_eq_quarters _
  have hends : (x.upperEnd : ℚ) ≤ x.lowerEnd + 4 := by exact_mod_cast x.upperEnd_le
  have hscaled := mul_le_mul_of_nonneg_right hends (two_zpow_pos (x.exponent - 2)).le
  rw [add_mul] at hscaled
  linarith [hv.bounds.2, hw.bounds.1]

-- ---------------------------------------------------------------------------
-- One grid
-- ---------------------------------------------------------------------------

theorem readsBack_of_onGrid {s : Scientific} (h : x.onGrid k = some s) :
    s.exponent = k ∧ x.readsBack s.digits k = true := by
  simp only [onGrid] at h
  split at h
  · rename_i hlow hhigh
    split at h
    · obtain rfl := Option.some.inj h
      exact ⟨rfl, hlow⟩
    · obtain rfl := Option.some.inj h
      exact ⟨rfl, hhigh⟩
  · rename_i hlow hhigh
    obtain rfl := Option.some.inj h
    exact ⟨rfl, hlow⟩
  · rename_i hlow hhigh
    obtain rfl := Option.some.inj h
    exact ⟨rfl, hhigh⟩
  · cases h

/-- A decimal that reads back stays one when it moves towards the double. -/
theorem readsBack_towards {b : ℕ} (h : x.readsBack d k = true)
    (hb : d * x.tenScale k ≤ b * x.tenScale k ∧
        b * x.tenScale k ≤ 4 * x.significand * x.quarterScale k ∨
      4 * x.significand * x.quarterScale k ≤ b * x.tenScale k ∧
        b * x.tenScale k ≤ d * x.tenScale k) :
    x.readsBack b k = true := by
  have hlower : x.lowerEnd * x.quarterScale k ≤ 4 * x.significand * x.quarterScale k :=
    Nat.mul_le_mul_right _ x.lowerEnd_le
  have hupper : 4 * x.significand * x.quarterScale k < x.upperEnd * x.quarterScale k :=
    Nat.mul_lt_mul_of_pos_right (Nat.lt_add_of_pos_right two_pos) (x.quarterScale_pos k)
  have hlower' : x.significand % 2 ≠ 0 →
      x.lowerEnd * x.quarterScale k < 4 * x.significand * x.quarterScale k := by
    intro hodd
    refine Nat.mul_lt_mul_of_pos_right ?_ (x.quarterScale_pos k)
    rw [lowerEnd]
    split <;> omega
  by_cases heven : x.significand % 2 = 0
  · simp only [readsBack, if_pos heven, Bool.and_eq_true, decide_eq_true_eq] at h ⊢
    omega
  · have := hlower' heven
    simp only [readsBack, if_neg heven, Bool.and_eq_true, decide_eq_true_eq] at h ⊢
    omega

/-- A grid on which some decimal reads back gives one. -/
theorem exists_onGrid (h : x.readsBack d k = true) : ∃ s, x.onGrid k = some s := by
  have hparts := Nat.div_add_mod (4 * x.significand * x.quarterScale k) (x.tenScale k)
  have hrest := Nat.mod_lt (4 * x.significand * x.quarterScale k) (x.tenScale_pos k)
  have hsome : x.readsBack (4 * x.significand * x.quarterScale k / x.tenScale k) k = true ∨
      x.readsBack (4 * x.significand * x.quarterScale k / x.tenScale k + 1) k = true := by
    rcases le_or_gt d (4 * x.significand * x.quarterScale k / x.tenScale k) with hle | hlt
    · exact .inl (readsBack_towards h
        (.inl ⟨Nat.mul_le_mul_right _ hle, Nat.div_mul_le_self _ _⟩))
    · refine .inr (readsBack_towards h (.inr ⟨?_, Nat.mul_le_mul_right _ hlt⟩))
      rw [Nat.add_mul, Nat.one_mul, Nat.mul_comm _ (x.tenScale k)]
      omega
  simp only [onGrid]
  split
  · split
    · exact ⟨_, rfl⟩
    · exact ⟨_, rfl⟩
  · exact ⟨_, rfl⟩
  · exact ⟨_, rfl⟩
  · rename_i hlow hhigh
    rcases hsome with h | h
    · exact Bool.noConfusion (h.symm.trans hlow)
    · exact Bool.noConfusion (h.symm.trans hhigh)

-- ---------------------------------------------------------------------------
-- The search
-- ---------------------------------------------------------------------------

/-- The search does not pass a grid on which some decimal reads back. -/
theorem readsBack_shortest {i : ℕ} (hi : i < 17) (hk : x.leadingPlace - i = k)
    (h : x.readsBack d k = true) :
    k ≤ x.shortest.exponent ∧ x.readsBack x.shortest.digits x.shortest.exponent = true := by
  obtain ⟨s, hs⟩ := exists_onGrid h
  have hmem : i ∈ List.range 17 := List.mem_range.mpr hi
  rcases hfound : (List.range 17).findSome? fun (i : Nat) => x.onGrid (x.leadingPlace - i)
    with _ | found
  · rw [List.findSome?_eq_none_iff] at hfound
    have hnone := hfound i hmem
    rw [hk, hs] at hnone
    cases hnone
  · have hshortest : x.shortest = found := by
      rw [shortest, hfound]
      rfl
    obtain ⟨before, j, after, hrange, hj, hbefore⟩ := List.findSome?_eq_some_iff.mp hfound
    obtain ⟨hexp, hreads⟩ := readsBack_of_onGrid hj
    rw [hshortest, hexp]
    refine ⟨?_, hexp ▸ hreads⟩
    have hsorted : (before ++ j :: after).Pairwise (· < ·) := hrange ▸ List.pairwise_lt_range
    have hlater : ∀ l ∈ after, j < l :=
      (List.pairwise_cons.mp (List.pairwise_append.mp hsorted).2.1).1
    have hle : j ≤ i := by
      rw [hrange, List.mem_append, List.mem_cons] at hmem
      rcases hmem with hi | rfl | hi
      -- The grids before the one found have no decimal.
      · have hnone := hbefore i hi
        rw [hk, hs] at hnone
        cases hnone
      · exact le_rfl
      · exact (hlater i hi).le
    omega

/-- The whole number whose digits are counted. -/
theorem floor_scaled (x : Binary64) (shift : ℕ) :
    ((x.numerator * Nat.pow 10 shift / x.denominator : ℕ) : ℚ) ≤ x.magnitude * 10 ^ shift ∧
      x.magnitude * 10 ^ shift < (x.numerator * Nat.pow 10 shift / x.denominator : ℕ) + 1 := by
  obtain ⟨f, hf, hf0, hf1, -⟩ := exists_fraction (x.numerator * Nat.pow 10 shift) x.denominator_pos
  have hvalue : x.magnitude * 10 ^ shift = (x.numerator * Nat.pow 10 shift : ℕ) / x.denominator := by
    have hpow : ((Nat.pow 10 shift : ℕ) : ℚ) = 10 ^ shift := by exact_mod_cast rfl
    rw [x.magnitude_eq_div, Nat.cast_mul, hpow, mul_div_right_comm]
  rw [hvalue, hf]
  exact ⟨le_add_of_nonneg_right hf0, add_lt_add_right hf1 _⟩

theorem leadingPlace_lt {n : ℕ} (h : x.magnitude < 10 ^ n) (hn : 0 < n) : x.leadingPlace < n := by
  have hlength : (Text.decimal (x.numerator * Nat.pow 10 (-x.exponent).toNat / x.denominator)).length
      ≤ n + (-x.exponent).toNat := by
    refine (Nat.length_toDigits_le_iff (by decide) (Nat.add_pos_left hn _)).mpr ?_
    rw [← Nat.cast_lt (α := ℚ)]
    refine (x.floor_scaled _).1.trans_lt ?_
    push_cast
    rw [pow_add]
    exact mul_lt_mul_of_pos_right h (by positivity)
  rw [leadingPlace]
  omega

theorem neg_one_le_leadingPlace (h : 1 / 10 ≤ x.magnitude) (hexp : x.exponent < 0) :
    -1 ≤ x.leadingPlace := by
  obtain ⟨shift, hshift⟩ : ∃ n, (-x.exponent).toNat = n + 1 := ⟨(-x.exponent).toNat - 1, by omega⟩
  have hlength : ¬ (Text.decimal (x.numerator * Nat.pow 10 (shift + 1) / x.denominator)).length
      ≤ shift := by
    intro hle
    have hpos : 0 < shift := Nat.lt_of_lt_of_le Nat.length_toDigits_pos hle
    have hlt := (Nat.length_toDigits_le_iff (by decide) hpos).mp hle
    have hfloor := (x.floor_scaled (shift + 1)).2
    have hsucc : ((x.numerator * Nat.pow 10 (shift + 1) / x.denominator : ℕ) : ℚ) + 1 ≤
        10 ^ shift := by
      exact_mod_cast hlt
    have hscaled := mul_le_mul_of_nonneg_right h (by positivity : (0 : ℚ) ≤ 10 ^ (shift + 1))
    have hpow : (1 / 10 * 10 ^ (shift + 1) : ℚ) = 10 ^ shift := by ring
    linarith
  rw [leadingPlace, hshift]
  push_cast
  omega

end Binary64

end BleCapture.Decimal
