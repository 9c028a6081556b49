import BleCapture.Decimal.Fixed
import BleCapture.Proofs.Decimal.Rounding

/-!
# Rounding to whole numbers, in two ways

One way rounds the exact number, with halves to even. The other first puts a double
in its place and then rounds halves up. Both give the same whole number, unless the
double is a half that the exact number does not reach, or reaches with an even number
below it.
-/

namespace BleCapture.Decimal

/-- Where an exact half above `k` goes. -/
def Tie.ofHalf (k : ℕ) : Tie → ℕ
  | .toEven => k + k % 2
  | .up => k + 1

theorem Tie.ofHalf_bounds (tie : Tie) (k : ℕ) : k ≤ tie.ofHalf k ∧ tie.ofHalf k ≤ k + 1 := by
  cases tie with
  | toEven =>
    have hparity : k % 2 ≤ 1 := Nat.le_of_lt_succ (Nat.mod_lt k two_pos)
    exact ⟨Nat.le_add_right k _, Nat.add_le_add_left hparity k⟩
  | up => exact ⟨Nat.le_succ k, le_rfl⟩

/-- `n` is a whole number nearest to `v`, with the rule for exact halves. -/
structure Nearest (tie : Tie) (v : ℚ) (n : ℕ) : Prop where
  le : v - 1 / 2 ≤ n
  ge : (n : ℚ) ≤ v + 1 / 2
  of_half : ∀ k : ℕ, v = k + 1 / 2 → n = tie.ofHalf k

theorem not_between {k q : ℕ} (hlow : (k : ℚ) < q) (hhigh : (q : ℚ) < k + 1) : False :=
  hlow.ne (congrArg Nat.cast (eq_of_near (by linarith) hhigh))

theorem nearest_roundDiv (tie : Tie) (num : ℕ) {den : ℕ} (hden : 0 < den) :
    Nearest tie (num / den) (roundDiv tie num den) := by
  obtain ⟨f, hvalue, hf0, hf1, -, hlow_iff, hhalf_iff⟩ := exists_fraction num hden
  simp only [roundDiv, hvalue]
  generalize num / den = q
  rcases lt_trichotomy (2 * (num % den)) den with hlt | heq | hgt
  · have hlow := hlow_iff.mp hlt
    simp only [if_pos hlt]
    refine ⟨by linarith, by linarith, fun k hk => (not_between (k := k) (q := q) ?_ ?_).elim⟩
    · linarith
    · linarith
  · simp only [heq, lt_irrefl, if_false, hhalf_iff.mp heq]
    show Nearest tie (q + 1 / 2) (tie.ofHalf q)
    have hlow : (q : ℚ) ≤ tie.ofHalf q := by exact_mod_cast (tie.ofHalf_bounds q).1
    have hhigh : (tie.ofHalf q : ℚ) ≤ q + 1 := by exact_mod_cast (tie.ofHalf_bounds q).2
    refine ⟨by linarith, by linarith, fun k hk => ?_⟩
    rw [add_left_inj, Nat.cast_inj] at hk
    rw [hk]
  · have hhigh : 1 / 2 < f := lt_of_le_of_ne (not_lt.mp (mt hlow_iff.mpr hgt.not_gt))
      fun h => hgt.ne' (hhalf_iff.mpr h.symm)
    simp only [if_neg hgt.not_gt, if_pos hgt]
    refine ⟨?_, ?_, fun k hk => (not_between (k := q) (q := k) ?_ ?_).elim⟩
    · push_cast
      linarith
    · push_cast
      linarith
    · linarith
    · linarith

theorem Nearest.eq {tie : Tie} {v : ℚ} {n k : ℕ} (h : Nearest tie v n) (hlow : k - 1 / 2 < v)
    (hhigh : v < k + 1 / 2) : n = k := by
  have hle := h.le
  have hge := h.ge
  exact eq_of_near (by linarith) (by linarith)

theorem Representable.add_half {k : ℤ} (hlow : -1 ≤ k) (hhigh : k ≤ 2 ^ 41) :
    Representable (k + 1 / 2) := by
  have h := Representable.half (n := 2 * k + 1) (abs_lt.mpr ⟨by omega, by omega⟩)
  have hvalue : ((2 * k + 1 : ℤ) / 2 : ℚ) = k + 1 / 2 := by
    push_cast
    ring
  rwa [hvalue] at h

/-- Rounding `r` with halves up goes one further than rounding `w` with halves to even. -/
def RoundsUpEarly (w r : ℚ) : Prop :=
  ∃ k : ℕ, r = k + 1 / 2 ∧ (w < k + 1 / 2 ∨ w = k + 1 / 2 ∧ k % 2 = 0)

section
variable {w r : ℚ} {c j k : ℕ}

theorem roundsUpEarly_half :
    RoundsUpEarly w (k + 1 / 2) ↔ w < k + 1 / 2 ∨ w = k + 1 / 2 ∧ k % 2 = 0 := by
  constructor
  · rintro ⟨i, hi, hbelow⟩
    obtain rfl : k = i := by rwa [add_left_inj, Nat.cast_inj] at hi
    exact hbelow
  · exact fun hbelow => ⟨k, rfl, hbelow⟩

/-- The halves next to a half are representable too, so whatever is rounded to it lies
between them. -/
theorem RoundsTo.near_half (h : RoundsTo w (k + 1 / 2)) (hk : k ≤ 2 ^ 40) :
    k - 1 / 2 < w ∧ w < (k + 1 : ℕ) + 1 / 2 := by
  constructor
  · by_contra hle
    have hrep := Representable.add_half (k := (k : ℤ) - 1) (by omega) (by omega)
    push_cast at hrep
    have hround := h.ge_of_ge _ hrep (by linarith)
    linarith
  · by_contra hle
    have hrep := Representable.add_half (k := (k : ℤ) + 1) (by omega) (by omega)
    push_cast at hrep hle
    have hround := h.le_of_le _ hrep (not_lt.mp hle)
    linarith

theorem nearest_of_roundsTo_half (h : RoundsTo w (k + 1 / 2)) (hk : k ≤ 2 ^ 40)
    (hc : Nearest .toEven w c) (hj : Nearest .up (k + 1 / 2) j) :
    RoundsUpEarly w (k + 1 / 2) ∧ j = c + 1 ∨ ¬ RoundsUpEarly w (k + 1 / 2) ∧ j = c := by
  obtain ⟨hlow, hhigh⟩ := h.near_half hk
  have hj' : j = k + 1 := hj.of_half k rfl
  rw [roundsUpEarly_half, hj']
  rcases lt_trichotomy w (k + 1 / 2) with hlt | heq | hgt
  · exact .inl ⟨.inl hlt, by rw [hc.eq hlow hlt]⟩
  · have hc' : c = k + k % 2 := hc.of_half k heq
    rcases Nat.mod_two_eq_zero_or_one k with heven | hodd
    · exact .inl ⟨.inr ⟨heq, heven⟩, by rw [hc', heven]⟩
    · refine .inr ⟨?_, by rw [hc', hodd]⟩
      rintro (hlt | ⟨-, heven⟩)
      · exact absurd hlt heq.not_lt
      · exact absurd (heven.symm.trans hodd) zero_ne_one
  · have habove : ((k + 1 : ℕ) : ℚ) - 1 / 2 < w := by
      push_cast
      linarith
    refine .inr ⟨?_, (hc.eq habove hhigh).symm⟩
    rintro (hlt | ⟨heq, -⟩)
    · exact absurd hlt hgt.not_gt
    · exact absurd heq hgt.ne'

/-- Between halves the rules for ties do not matter, and rounding keeps to the side of
each half. -/
theorem nearest_of_roundsTo_of_not_half (h : RoundsTo w r) (hr : 0 ≤ r) (hcsmall : c ≤ 2 ^ 41)
    (hhalf : ∀ k : ℕ, r ≠ k + 1 / 2) (hc : Nearest .toEven w c) (hj : Nearest .up r j) :
    j = c := by
  have hlow : c - 1 / 2 < r := by
    have hrep := Representable.add_half (k := (c : ℤ) - 1) (by omega) (by omega)
    push_cast at hrep
    have hle := h.le_of_le _ hrep (by linarith [hc.ge])
    refine lt_of_le_of_ne (by linarith) fun heq => ?_
    cases c with
    | zero =>
      rw [Nat.cast_zero] at heq
      linarith
    | succ c =>
      push_cast at heq
      exact hhalf c (by linarith)
  have hhigh : r < c + 1 / 2 := by
    have hrep := Representable.add_half (k := (c : ℤ)) (by omega) (by omega)
    push_cast at hrep
    exact lt_of_le_of_ne (h.ge_of_ge _ hrep (by linarith [hc.le])) (hhalf c)
  exact hj.eq hlow hhigh

/-- Halves up from a faithful double, against halves to even from the number itself. -/
theorem nearest_of_roundsTo (h : RoundsTo w r) (hw : 0 ≤ w) (hsmall : w ≤ 2 ^ 40)
    (hc : Nearest .toEven w c) (hj : Nearest .up r j) :
    RoundsUpEarly w r ∧ j = c + 1 ∨ ¬ RoundsUpEarly w r ∧ j = c := by
  by_cases hhalf : ∃ k : ℕ, r = k + 1 / 2
  · obtain ⟨k, rfl⟩ := hhalf
    have hrep := Representable.intCast (n := 2 ^ 40) (by decide)
    have hrsmall : (k + 1 / 2 : ℚ) ≤ (2 ^ 40 : ℤ) :=
      h.ge_of_ge _ (by exact_mod_cast hrep) (by exact_mod_cast hsmall)
    have hk : (k : ℚ) ≤ (2 ^ 40 : ℕ) := by
      push_cast at hrsmall ⊢
      linarith
    exact nearest_of_roundsTo_half h (by exact_mod_cast hk) hc hj
  · have hcsmall : (c : ℚ) ≤ (2 ^ 41 : ℕ) := by
      have hge := hc.ge
      push_cast
      linarith
    refine .inr ⟨fun ⟨k, hk, _⟩ => hhalf ⟨k, hk⟩, ?_⟩
    exact nearest_of_roundsTo_of_not_half h (h.nonneg hw) (by exact_mod_cast hcsmall)
      (not_exists.mp hhalf) hc hj

end

end BleCapture.Decimal
