import BleCapture.Text.LetterCase
import Mathlib.Data.List.Infix

/-!
# Lowercase of a text within another

Characters become lowercase one by one, except that a capital sigma looks at its
neighbours. So the lowercase of a text is found in that of a longer text if the sigmas
of the shorter text keep their form there. A text that decides this by itself is found
in every longer text, and any other is missed in some.
-/

namespace BleCapture.Text.LetterCase

-- ---------------------------------------------------------------------------
-- What decides about a sigma
-- ---------------------------------------------------------------------------

/-- The nearest character that is not case-ignorable. -/
def deciding? (s : List Char) : Option Char := s.find? fun c => !isCaseIgnorable c

theorem casedNext_eq (s : List Char) : casedNext s = (deciding? s).any isCased := by
  induction s with
  | nil => rfl
  | cons c s ih =>
    simp only [casedNext, deciding?] at ih ⊢
    cases hc : isCaseIgnorable c <;> simp [hc, ih]

theorem deciding?_append (s t : List Char) :
    deciding? (s ++ t) = (deciding? s).or (deciding? t) := List.find?_append

theorem isCaseIgnorable_sigma : isCaseIgnorable 'Σ' = false := by decide +kernel

theorem deciding?_cons_sigma (s : List Char) : deciding? ('Σ' :: s) = some 'Σ' :=
  List.find?_cons_of_pos (by rw [isCaseIgnorable_sigma]; rfl)

theorem sigma_not_mem_of_deciding? {s : List Char} (h : deciding? s = none) : 'Σ' ∉ s := by
  intro hmem
  have hignored := List.find?_eq_none.mp h 'Σ' hmem
  rw [isCaseIgnorable_sigma] at hignored
  exact hignored rfl

/-- What lies beyond a sigma does not matter. -/
theorem casedNext_append_sigma (s t t' : List Char) :
    casedNext (s ++ 'Σ' :: t) = casedNext (s ++ 'Σ' :: t') := by
  simp only [casedNext_eq, deciding?_append, deciding?_cons_sigma]

/-- A capital sigma between these characters, the nearest first on either side, has the
same form whatever lies beyond them. -/
def isSettled (before after : List Char) : Bool :=
  match deciding? before, deciding? after with
  | some _, some _ => true
  | some b, none => !isCased b
  | none, some a => isCased a
  | none, none => false

theorem lowerSigma_append_of_isSettled {before after : List Char} (h : isSettled before after)
    (before' after' : List Char) :
    lowerSigma (before ++ before') (after ++ after') = lowerSigma before after := by
  simp only [isSettled] at h
  simp only [lowerSigma, casedNext_eq, deciding?_append]
  cases hb : deciding? before <;> cases ha : deciding? after <;> simp_all

-- ---------------------------------------------------------------------------
-- A text among others
-- ---------------------------------------------------------------------------

/-- Lowercase of a text that stands between `before`, nearest character first, and
`after`. -/
def lowerWithin (before after : List Char) : List Char → List Char
  | [] => []
  | c :: s =>
    (if c.toNat = 0x3A3 then [lowerSigma before (s ++ after)] else lowerChar c) ++
      lowerWithin (c :: before) after s

theorem lowerAfter_eq (before s : List Char) : lowerAfter before s = lowerWithin before [] s := by
  induction s generalizing before with
  | nil => rfl
  | cons c s ih => simp only [lowerAfter, lowerWithin, List.append_nil, ih]

theorem lowercase_eq (s : List Char) : lowercase s = lowerWithin [] [] s := lowerAfter_eq [] s

theorem lowerWithin_append (before after s t : List Char) :
    lowerWithin before after (s ++ t) =
      lowerWithin before (t ++ after) s ++ lowerWithin (s.reverse ++ before) after t := by
  induction s generalizing before with
  | nil => rfl
  | cons c s ih =>
    simp only [List.cons_append, lowerWithin, ih, List.append_assoc, List.reverse_cons,
      List.nil_append]

theorem lowerWithin_sigma (before after s t : List Char) :
    lowerWithin before after (s ++ 'Σ' :: t) =
      lowerWithin before ('Σ' :: (t ++ after)) s ++
        lowerSigma (s.reverse ++ before) (t ++ after) ::
          lowerWithin ('Σ' :: (s.reverse ++ before)) after t := by
  rw [lowerWithin_append]
  rfl

/-- Only sigmas look at their neighbours. -/
theorem lowerWithin_congr {before after before' after' s : List Char}
    (h : ∀ u v, s = u ++ 'Σ' :: v →
      lowerSigma (u.reverse ++ before) (v ++ after) =
        lowerSigma (u.reverse ++ before') (v ++ after')) :
    lowerWithin before after s = lowerWithin before' after' s := by
  induction s generalizing before before' with
  | nil => rfl
  | cons c s ih =>
    have hrest : lowerWithin (c :: before) after s = lowerWithin (c :: before') after' s := by
      refine ih fun u v hs => ?_
      have hsigma := h (c :: u) v (by rw [hs]; rfl)
      simpa only [List.reverse_cons, List.append_assoc, List.singleton_append] using hsigma
    simp only [lowerWithin, hrest]
    split
    · rename_i hc
      obtain rfl : c = 'Σ' := Char.toNat_inj.mp hc
      rw [show lowerSigma before (s ++ after) = lowerSigma before' (s ++ after') from h [] s rfl]
    · rfl

theorem lowerWithin_of_not_mem {s : List Char} (h : 'Σ' ∉ s)
    (before after before' after' : List Char) :
    lowerWithin before after s = lowerWithin before' after' s :=
  lowerWithin_congr fun u v hs => absurd (by rw [hs]; simp) h

/-- The sigmas of `t` have the same form between `front` and `back` as in `t` alone. -/
def KeepsSigmas (front t back : List Char) : Prop :=
  ∀ u v, t = u ++ 'Σ' :: v →
    lowerSigma (u.reverse ++ front.reverse) (v ++ back) = lowerSigma u.reverse v

/-- The form of every sigma of `t` is settled by `t` itself. -/
def SettlesSigmas (t : List Char) : Prop :=
  ∀ u v, t = u ++ 'Σ' :: v → isSettled u.reverse v

theorem SettlesSigmas.keepsSigmas {t : List Char} (h : SettlesSigmas t) (front back : List Char) :
    KeepsSigmas front t back :=
  fun u v ht => lowerSigma_append_of_isSettled (h u v ht) front.reverse back

theorem KeepsSigmas.lowercase_infix {front t back : List Char} (h : KeepsSigmas front t back) :
    lowercase t <:+: lowercase (front ++ t ++ back) := by
  have hwithin : lowercase t = lowerWithin front.reverse back t := by
    rw [lowercase_eq]
    refine lowerWithin_congr fun u v ht => ?_
    rw [List.append_nil, List.append_nil]
    exact (h u v ht).symm
  refine ⟨lowerWithin [] (t ++ back) front, lowerWithin (t.reverse ++ front.reverse) [] back, ?_⟩
  rw [hwithin, lowercase_eq, lowerWithin_append, lowerWithin_append, List.reverse_append]
  simp only [List.append_nil]

-- ---------------------------------------------------------------------------
-- A sigma that changes
-- ---------------------------------------------------------------------------

theorem casedNext_letter {s : List Char} (h : deciding? s = none) :
    casedNext (s ++ ['a']) = true := by
  rw [casedNext_eq, deciding?_append, h]
  decide +kernel

theorem lowerWithin_letter (before after : List Char) : lowerWithin before after ['a'] = ['a'] := by
  have hletter : lowerChar 'a' = ['a'] := by decide +kernel
  simp [lowerWithin, hletter]

/-- With one `x` replaced, too few are left. -/
theorem not_infix_of_replaced {x y : Char} {front back : List Char} (hne : y ≠ x)
    (hfront : x ∉ front) (hback : x ∉ back) (s t : List Char) :
    ¬ s ++ x :: t <:+: front ++ (s ++ y :: t) ++ back := by
  intro h
  have hcount := h.sublist.count_le x
  simp only [List.count_append, List.count_cons_self, List.count_cons_of_ne hne,
    List.count_eq_zero_of_not_mem hfront, List.count_eq_zero_of_not_mem hback] at hcount
  omega

theorem lowercase_sigma (u v : List Char) :
    lowercase (u ++ 'Σ' :: v) =
      lowerWithin [] ('Σ' :: v) u ++
        lowerSigma u.reverse v :: lowerWithin ('Σ' :: u.reverse) [] v := by
  rw [lowercase_eq, lowerWithin_sigma, List.append_nil, List.append_nil]

/-- A letter behind the text can change its last sigma only. -/
theorem lowercase_sigma_letter (u : List Char) {v : List Char} (hv : 'Σ' ∉ v) :
    lowercase (u ++ 'Σ' :: v ++ ['a']) =
      lowerWithin [] ('Σ' :: v) u ++
        lowerSigma u.reverse (v ++ ['a']) :: lowerWithin ('Σ' :: u.reverse) [] v ++ ['a'] := by
  have hfront : lowerWithin [] ('Σ' :: (v ++ ['a'])) u = lowerWithin [] ('Σ' :: v) u :=
    lowerWithin_congr fun x y _ => by
      rw [lowerSigma, lowerSigma, casedNext_append_sigma y (v ++ ['a']) v]
  have hback := lowerWithin_of_not_mem hv ('Σ' :: u.reverse) ['a'] ('Σ' :: u.reverse) []
  rw [lowercase_eq, lowerWithin_append, lowerWithin_letter, List.append_nil, lowerWithin_sigma,
    List.append_nil, hfront, hback]

/-- A letter in front of the text can change its first sigma only. -/
theorem lowercase_letter_sigma {u : List Char} (hu : 'Σ' ∉ u) (v : List Char) :
    lowercase (['a'] ++ (u ++ 'Σ' :: v)) =
      ['a'] ++ (lowerWithin [] ('Σ' :: v) u ++
        lowerSigma (u.reverse ++ ['a']) v :: lowerWithin ('Σ' :: u.reverse) [] v) := by
  have hfront := lowerWithin_of_not_mem hu ['a'] ('Σ' :: v) [] ('Σ' :: v)
  have hback : lowerWithin ('Σ' :: (u.reverse ++ ['a'])) [] v =
      lowerWithin ('Σ' :: u.reverse) [] v :=
    lowerWithin_congr fun x y _ => by
      rw [lowerSigma, lowerSigma, casedNext_append_sigma _ (u.reverse ++ ['a']) u.reverse]
  rw [lowercase_eq, lowerWithin_append, lowerWithin_letter, List.reverse_singleton,
    List.append_nil, lowerWithin_sigma, List.append_nil, hfront, hback]

theorem exists_not_lowercase_infix {t : List Char} (h : ¬ SettlesSigmas t) :
    ∃ front back, ¬ lowercase t <:+: lowercase (front ++ t ++ back) := by
  simp only [SettlesSigmas, not_forall] at h
  obtain ⟨u, v, rfl, hopen⟩ := h
  simp only [isSettled] at hopen
  cases hb : deciding? u.reverse with
  | some b =>
    -- The sigma ends a word, until a letter follows.
    obtain ⟨ha, hcased⟩ : deciding? v = none ∧ isCased b = true := by
      cases ha : deciding? v <;> simp_all
    have hfinal : lowerSigma u.reverse v = 'ς' := by
      rw [lowerSigma, casedNext_eq, casedNext_eq, hb, ha, Option.any_some, hcased]
      rfl
    have hinner : lowerSigma u.reverse (v ++ ['a']) = 'σ' := by
      rw [lowerSigma, casedNext_letter ha, Bool.not_true, Bool.and_false]
      rfl
    have hnone : 'ς' ∉ ([] : List Char) := by decide
    refine ⟨[], ['a'], ?_⟩
    rw [List.nil_append, lowercase_sigma, lowercase_sigma_letter u (sigma_not_mem_of_deciding? ha),
      hfinal, hinner]
    exact not_infix_of_replaced (by decide) hnone (by decide) _ _
  | none =>
    -- The sigma has no letter before it, until there is one.
    have hlast : casedNext v = false := by
      rw [casedNext_eq]
      cases ha : deciding? v <;> simp_all
    have hinner : lowerSigma u.reverse v = 'σ' := by
      rw [lowerSigma, casedNext_eq, hb]
      rfl
    have hfinal : lowerSigma (u.reverse ++ ['a']) v = 'ς' := by
      rw [lowerSigma, casedNext_letter hb, hlast]
      rfl
    have hnot : 'Σ' ∉ u := fun hmem => sigma_not_mem_of_deciding? hb (List.mem_reverse.mpr hmem)
    have hnone : 'σ' ∉ ([] : List Char) := by decide
    refine ⟨['a'], [], ?_⟩
    rw [List.append_nil, lowercase_sigma, lowercase_letter_sigma hnot, hinner, hfinal,
      ← List.append_nil (['a'] ++ _)]
    exact not_infix_of_replaced (by decide) (by decide) hnone _ _

end BleCapture.Text.LetterCase
