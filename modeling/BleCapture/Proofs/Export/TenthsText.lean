import BleCapture.Export.JsonReport
import BleCapture.Proofs.Decimal.Arithmetic
import BleCapture.Proofs.Decimal.Shortest

/-!
# The text of a tenth

A double nearest to a tenth of a whole number has that tenth as its shortest decimal, so
JSON prints it with one place, as fixed places do.
-/

namespace BleCapture

open Decimal

-- ---------------------------------------------------------------------------
-- Digits
-- ---------------------------------------------------------------------------

theorem decimal_append {q r : ℕ} (hq : 0 < q) (hr : r < 10) :
    Text.decimal (10 * q + r) = Text.decimal q ++ [r.digitChar] := by
  rw [Text.decimal, ← Nat.toDigits_append_toDigits (by decide) hq hr, Nat.toDigits_of_lt_base hr]
  rfl

theorem digitChar_inj {r s : ℕ} (hr : r < 10) (hs : s < 10) (h : r.digitChar = s.digitChar) :
    r = s := by
  have hdigits : ∀ r < 10, ∀ s < 10, r.digitChar = s.digitChar → r = s := by decide
  exact hdigits r hr s hs h

theorem decimal_inj {m n : ℕ} (h : Text.decimal m = Text.decimal n) : m = n := by
  rw [← Nat.ofDigitChars_ten_toDigits (n := m), ← Nat.ofDigitChars_ten_toDigits (n := n)]
  exact congrArg (Nat.ofDigitChars 10 · 0) h

theorem placed_one (q : ℕ) {r : ℕ} (hr : r < 10) :
    placed 1 (10 * q + r) = Text.decimal q ++ ['.', r.digitChar] := by
  rcases Nat.eq_zero_or_pos q with rfl | hq
  · rw [placed, Text.decimal, Nat.mul_zero, Nat.zero_add, Nat.toDigits_of_lt_base hr]
    rfl
  · have hpos : 0 < (Text.decimal q).length := Nat.length_toDigits_pos
    have hpadding : 2 - ((Text.decimal q).length + 1) = 0 := by omega
    simp only [placed, Text.padded, decimal_append hq hr, List.length_append, List.length_singleton,
      hpadding, List.replicate_zero, List.nil_append, one_ne_zero, if_false, Nat.add_sub_cancel,
      List.take_left, List.drop_left]

theorem placed_one_inj {m n : ℕ} (h : placed 1 m = placed 1 n) : m = n := by
  rw [← Nat.div_add_mod m 10, ← Nat.div_add_mod n 10] at h ⊢
  have hm := Nat.mod_lt m (show 0 < 10 by decide)
  have hn := Nat.mod_lt n (show 0 < 10 by decide)
  rw [placed_one _ hm, placed_one _ hn] at h
  obtain ⟨hwhole, hlast⟩ := List.append_inj' h rfl
  rw [decimal_inj hwhole, digitChar_inj hm hn (List.cons.inj (List.cons.inj hlast).2).1]

-- ---------------------------------------------------------------------------
-- Positional texts
-- ---------------------------------------------------------------------------

namespace Json

theorem withoutTrailingZeros_ten_mul {d : ℕ} (hd : 0 < d) (k : ℤ) :
    withoutTrailingZeros ⟨10 * d, k⟩ = withoutTrailingZeros ⟨d, k + 1⟩ := by
  have hdecimal : Text.decimal (10 * d) = Text.decimal d ++ ['0'] :=
    decimal_append (r := 0) hd (by decide)
  have hzeros : ((Text.decimal (10 * d)).reverse.takeWhile (· = '0')).length =
      ((Text.decimal d).reverse.takeWhile (· = '0')).length + 1 := by
    rw [hdecimal, List.reverse_append]
    rfl
  refine Prod.ext ?_ ?_
  · show (Text.decimal (10 * d)).take (_ - _) = (Text.decimal d).take _
    rw [hzeros, hdecimal, List.length_append, List.length_singleton, Nat.add_sub_add_right,
      List.take_append_of_le_length (Nat.sub_le _ _)]
  · show k + (((Text.decimal (10 * d)).reverse.takeWhile (· = '0')).length : ℤ) = k + 1 + _
    rw [hzeros]
    push_cast
    ring

/-- A power of ten may stand in the digits or in the exponent. -/
theorem magnitude_mul_pow {d : ℕ} (hd : 0 < d) (n : ℕ) (k : ℤ) :
    magnitude ⟨d * 10 ^ n, k⟩ = magnitude ⟨d, k + n⟩ := by
  have hzeros : withoutTrailingZeros ⟨d * 10 ^ n, k⟩ = withoutTrailingZeros ⟨d, k + n⟩ := by
    induction n generalizing k with
    | zero => rw [pow_zero, Nat.mul_one, Nat.cast_zero, add_zero]
    | succ n ih =>
      have hten : d * 10 ^ (n + 1) = 10 * (d * 10 ^ n) := by ring
      rw [hten, withoutTrailingZeros_ten_mul (Nat.mul_pos hd (Nat.pow_pos (by decide))), ih]
      congr 2
      push_cast
      ring
  rw [magnitude, magnitude, hzeros]

/-- Trailing zeros that are taken off are put back behind the other digits. -/
theorem take_append_zeros (ds : List Char) :
    ds.take (ds.length - (ds.reverse.takeWhile (· = '0')).length) ++
      List.replicate (ds.reverse.takeWhile (· = '0')).length '0' = ds := by
  have hsplit : ds.reverse.takeWhile (· = '0') ++ ds.reverse.dropWhile (· = '0') = ds.reverse :=
    List.takeWhile_append_dropWhile
  have hzero : ∀ c ∈ ds.reverse.takeWhile (· = '0'), c = '0' := by
    intro c hc
    exact of_decide_eq_true (List.all_eq_true.mp List.all_takeWhile c hc)
  generalize ds.reverse.takeWhile (· = '0') = zeros at hsplit hzero ⊢
  generalize ds.reverse.dropWhile (· = '0') = rest at hsplit
  obtain rfl : ds = rest.reverse ++ zeros.reverse := by
    rw [← List.reverse_append, hsplit, List.reverse_reverse]
  have hreplicate : List.replicate zeros.length '0' = zeros.reverse := by
    rw [← List.reverse_replicate, ← List.eq_replicate_of_mem hzero]
  rw [List.length_append, List.length_reverse, List.length_reverse, Nat.add_sub_cancel,
    List.take_left' List.length_reverse, hreplicate]

theorem magnitude_of_nonneg {s : Scientific} {ds : List Char} {zeros : ℕ}
    (h : withoutTrailingZeros s = (ds, (zeros : ℤ))) (hlength : ds.length + zeros ≤ 16) :
    magnitude s = ds ++ List.replicate zeros '0' ++ ['.', '0'] := by
  simp only [magnitude, h]
  exact if_pos ⟨Int.natCast_nonneg zeros, by omega⟩

/-- One place behind the point. -/
theorem magnitude_of_neg_one {s : Scientific} {front : List Char} {c : Char}
    (h : withoutTrailingZeros s = (front ++ [c], -1)) (hlength : front.length ≤ 16) :
    magnitude s = (if front = [] then ['0'] else front) ++ ['.', c] := by
  simp only [magnitude, h, List.length_append, List.length_singleton]
  cases front with
  | nil => rfl
  | cons d front =>
    have hpoint : (((d :: front).length + 1 : ℕ) : ℤ) + -1 = ((d :: front).length : ℕ) := by
      push_cast
      ring
    have hpos : 0 < (d :: front).length := Nat.succ_pos _
    rw [if_neg (by omega), if_pos (by omega), hpoint, Int.toNat_natCast, List.take_left,
      List.drop_left]
    rfl

theorem magnitude_whole {q : ℕ} (hlt : q < 10 ^ 16) :
    magnitude ⟨q, 0⟩ = Text.decimal q ++ ['.', '0'] := by
  have hlength : (Text.decimal q).length ≤ 16 :=
    (Nat.length_toDigits_le_iff (by decide) (by decide)).mpr hlt
  have hall := take_append_zeros (Text.decimal q)
  have hzeros : ((Text.decimal q).reverse.takeWhile (· = '0')).length ≤ (Text.decimal q).length :=
    (List.takeWhile_prefix _).length_le.trans_eq List.length_reverse
  have h : withoutTrailingZeros ⟨q, 0⟩ = ((Text.decimal q).take ((Text.decimal q).length -
      ((Text.decimal q).reverse.takeWhile (· = '0')).length),
      (((Text.decimal q).reverse.takeWhile (· = '0')).length : ℤ)) :=
    Prod.ext rfl (zero_add _)
  rw [magnitude_of_nonneg h, hall]
  rw [List.length_take]
  omega

theorem withoutTrailingZeros_of_last {n : ℕ} {front : List Char} {c : Char}
    (hdecimal : Text.decimal n = front ++ [c]) (hc : c ≠ '0') (k : ℤ) :
    withoutTrailingZeros ⟨n, k⟩ = (front ++ [c], k) := by
  have hzeros : (front ++ [c]).reverse.takeWhile (· = '0') = [] := by
    rw [List.reverse_append, List.reverse_singleton, List.singleton_append,
      List.takeWhile_cons_of_neg (by simpa using hc)]
  simp only [withoutTrailingZeros, hdecimal, hzeros, List.length_nil, Nat.sub_zero,
    List.take_length, Nat.cast_zero, add_zero]

theorem magnitude_tenths {q r : ℕ} (hr : r < 10) (hpos : 0 < 10 * q + r) (hlt : q < 10 ^ 15) :
    magnitude ⟨10 * q + r, -1⟩ = placed 1 (10 * q + r) := by
  rw [placed_one q hr]
  rcases Nat.eq_zero_or_pos r with rfl | hrpos
  · have hten : 10 * q + 0 = q * 10 ^ 1 := by ring
    rw [hten, magnitude_mul_pow (by omega) 1 (-1)]
    exact magnitude_whole (hlt.trans (by decide))
  · have hlast : r.digitChar ≠ '0' := fun h => hrpos.ne' (digitChar_inj hr (by decide) h)
    rcases Nat.eq_zero_or_pos q with rfl | hq
    · rw [Nat.mul_zero, Nat.zero_add]
      have hdecimal : Text.decimal r = [] ++ [r.digitChar] := Nat.toDigits_of_lt_base hr
      exact magnitude_of_neg_one (withoutTrailingZeros_of_last hdecimal hlast _) (by decide)
    · have hlength : (Text.decimal q).length ≤ 15 :=
        (Nat.length_toDigits_le_iff (by decide) (by decide)).mpr hlt
      have hne : Text.decimal q ≠ [] := Nat.toDigits_ne_nil
      rw [magnitude_of_neg_one (withoutTrailingZeros_of_last (decimal_append hq hr) hlast _)
        (by omega), if_neg hne]

end Json

-- ---------------------------------------------------------------------------
-- A tenth of a whole number
-- ---------------------------------------------------------------------------

theorem ofFloat?_ten : Binary64.ofFloat? 10 = some ⟨false, 5 * 2 ^ 50, -49⟩ := by
  decide +kernel

theorem value_ten : (Binary64.mk false (5 * 2 ^ 50) (-49)).value = 10 := by
  show ((5 * 2 ^ 50 : ℕ) : ℚ) * 2 ^ (-49 : ℤ) = 10
  norm_num

/-- The double in place of a tenth of a whole number. -/
theorem exists_tenth {n : ℕ} (hn : n ≤ 2 ^ 40) :
    ∃ z, Binary64.ofFloat? (n.toUInt64.toFloat / 10) = some z ∧ z.negative = false ∧
      Binary64.ofFloat? (-n.toUInt64.toFloat / 10) = some z.neg ∧
      RoundsTo (n / 10) z.magnitude ∧ z.Covers (n / 10) := by
  obtain ⟨x, hx, hxsign, hrounds⟩ := Binary64.ofFloat?_toFloat n.toUInt64
  have hword : n.toUInt64.toNat = n := Nat.mod_eq_of_lt (Nat.lt_of_le_of_lt hn (by decide))
  have hxvalue : x.value = n := by
    have hrep : Representable n := by
      have h := Representable.intCast (n := n) (by rw [Nat.abs_cast]; exact_mod_cast (by omega))
      rwa [Int.cast_natCast] at h
    rw [hword] at hrounds
    exact hrounds.eq_of_representable hrep
  have hpos : (Binary64.mk false (5 * 2 ^ 50) (-49)).value ≠ 0 := by
    rw [value_ten]
    decide
  have hle : (n / 10 : ℚ) ≤ 2 ^ 40 := by
    have : (n : ℚ) ≤ 2 ^ 40 := by exact_mod_cast hn
    linarith
  have hnonneg : (0 : ℚ) ≤ n / 10 := by positivity
  have hsmall : |x.value / (Binary64.mk false (5 * 2 ^ 50) (-49)).value| ≤ 2 ^ (1000 : ℤ) := by
    rw [value_ten, hxvalue, abs_of_nonneg hnonneg]
    exact le_two_zpow hle (by decide)
  obtain ⟨z, hz, hzsign, hzrounds, hcovers⟩ := Binary64.ofFloat?_div hx ofFloat?_ten hpos hsmall
  have hzneg := Binary64.ofFloat?_neg_div hx ofFloat?_ten hpos hsmall hz
  rw [value_ten, hxvalue] at hzrounds hcovers
  rw [abs_of_nonneg hnonneg] at hcovers
  refine ⟨z, hz, ?_, hzneg, ?_, hcovers⟩
  · rw [hzsign, hxsign]
    rfl
  · have h := hzrounds.abs
    rwa [abs_of_nonneg hnonneg, Binary64.abs_value] at h

theorem eighth_le {z : Binary64} {n : ℕ} (hlow : 2 ≤ n) (hrounds : RoundsTo (n / 10) z.magnitude) :
    1 / 8 ≤ z.magnitude := by
  have hlowq : (2 : ℚ) ≤ n := by exact_mod_cast hlow
  have h := hrounds.le_of_le (2 ^ (-3 : ℤ)) (.two_zpow (by decide) (by decide))
    (by norm_num; linarith)
  norm_num at h ⊢
  exact h

/-- The shortest decimal for a tenth of a whole number is that tenth, with the zeros at
the end of the number moved to the exponent. -/
theorem shortest_tenth {z : Binary64} {n : ℕ} (hz : z.Canonical) (hlow : 2 ≤ n)
    (hhigh : n ≤ 2 ^ 40) (hrounds : RoundsTo (n / 10) z.magnitude) (hcovers : z.Covers (n / 10)) :
    ∃ m : ℕ, z.shortest.exponent = -1 + m ∧ z.shortest.digits * 10 ^ m = n := by
  have hhighq : (n : ℚ) ≤ 2 ^ 40 := by exact_mod_cast hhigh
  have hleast : 1 / 10 ≤ z.magnitude := by
    linarith [eighth_le hlow hrounds]
  have hgreatest : z.magnitude ≤ 2 ^ 40 := by
    have h := hrounds.ge_of_ge (2 ^ (40 : ℤ)) (.two_zpow (by decide) (by decide))
      (by norm_num; linarith)
    exact_mod_cast h
  have hexp : z.exponent < -7 := by
    refine hz.exponent_lt (by decide) (hgreatest.trans_lt ?_)
    norm_num
  have hplace := z.neg_one_le_leadingPlace hleast (by omega)
  have hplace' := z.leadingPlace_lt (n := 13) (hgreatest.trans_lt (by norm_num)) (by decide)
  have htenth : (n * 10 ^ (-1 : ℤ) : ℚ) = n / 10 := by
    rw [zpow_neg_one, div_eq_mul_inv]
  obtain ⟨hfound, hreads⟩ := Binary64.readsBack_shortest (x := z) (d := n) (k := -1)
    (i := (z.leadingPlace + 1).toNat) (by omega) (by omega)
    (Binary64.readsBack_iff.mpr (htenth ▸ hcovers))
  obtain ⟨m, hm⟩ : ∃ m : ℕ, z.shortest.exponent = -1 + m :=
    ⟨(z.shortest.exponent + 1).toNat, by omega⟩
  refine ⟨m, hm, ?_⟩
  have hcovers' : z.Covers ((z.shortest.digits * 10 ^ m : ℕ) / 10) := by
    have h := Binary64.readsBack_iff.mp hreads
    have hvalue : (z.shortest.digits * 10 ^ (-1 + (m : ℤ)) : ℚ) =
        (z.shortest.digits * 10 ^ m : ℕ) / 10 := by
      rw [zpow_add₀ (by norm_num), zpow_neg_one, zpow_natCast]
      push_cast
      ring
    rwa [hm, hvalue] at h
  -- The interval is narrower than a tenth, so it has no room for another number of tenths.
  have hnarrow : (2 : ℚ) ^ z.exponent ≤ 1 / 256 := by
    calc (2 : ℚ) ^ z.exponent ≤ 2 ^ (-8 : ℤ) := zpow_le_zpow_right₀ one_le_two (by omega)
      _ = 1 / 256 := by norm_num
  have habove := hcovers'.sub_le hcovers
  have hbelow := hcovers.sub_le hcovers'
  generalize z.shortest.digits * 10 ^ m = a at habove hbelow ⊢
  exact eq_of_near (by linarith) (by linarith)

/-- JSON prints a tenth of a whole number with one place. -/
theorem number_tenth {n : ℕ} (hn : n ≤ 2 ^ 40) :
    Json.number (n.toUInt64.toFloat / 10) = placed 1 n := by
  rcases Nat.lt_or_ge n 2 with hsmall | hlow
  · have hcases : ∀ n < 2, Json.number (n.toUInt64.toFloat / 10) = placed 1 n := by
      decide +kernel
    exact hcases n hsmall
  · obtain ⟨z, hz, hzsign, -, hrounds, hcovers⟩ := exists_tenth hn
    obtain ⟨m, hexp, hdigits⟩ :=
      shortest_tenth (Binary64.canonical_of_ofFloat? hz) hlow hn hrounds hcovers
    have hpositive : 0 < z.shortest.digits := by
      refine Nat.pos_of_ne_zero fun h => ?_
      rw [h, Nat.zero_mul] at hdigits
      omega
    have hsome : z.significand ≠ 0 := by
      intro h
      have hleast := eighth_le hlow hrounds
      rw [← z.abs_value, Binary64.value_of_zero h, abs_zero] at hleast
      norm_num at hleast
    have hshortest : z.shortest = ⟨z.shortest.digits, -1 + m⟩ := by rw [← hexp]
    have htext : Json.magnitude z.shortest = placed 1 n := by
      have hparts : 10 * (n / 10) + n % 10 = n := Nat.div_add_mod n 10
      rw [hshortest, ← Json.magnitude_mul_pow hpositive, hdigits, ← hparts]
      exact Json.magnitude_tenths (Nat.mod_lt n (by decide)) (by omega) (by omega)
    rw [Json.number, hz]
    simp only [hzsign, if_neg hsome, htext]
    rfl

/-- The sign of a number stands in front of the text of its magnitude. -/
theorem number_of_neg {f g : Float} {x : Binary64} (hf : Binary64.ofFloat? f = some x)
    (hsign : x.negative = false) (hg : Binary64.ofFloat? g = some x.neg) :
    Json.number g = '-' :: Json.number f := by
  have hnegative : x.neg.negative = true := congrArg not hsign
  rw [Json.number, Json.number, hf, hg]
  simp only [hsign, hnegative]
  rfl

theorem number_neg_tenth {n : ℕ} (hn : n ≤ 2 ^ 40) :
    Json.number (-n.toUInt64.toFloat / 10) = '-' :: placed 1 n := by
  obtain ⟨z, hz, hzsign, hzneg, -⟩ := exists_tenth hn
  rw [number_of_neg hz hzsign hzneg, number_tenth hn]

end BleCapture
