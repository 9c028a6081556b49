import BleCapture.Text.Search

/-!
# Where a search stops

A search fails exactly on texts that do not contain what is searched for. One
that succeeds stops behind the first occurrence.
-/

namespace BleCapture.Text

theorem after?_append_self (needle s : List Char) : after? needle (needle ++ s) = some s := by
  have hprefix : needle.isPrefixOf (needle ++ s) = true :=
    List.isPrefixOf_iff_prefix.mpr (List.prefix_append needle s)
  rw [after?_of_isPrefixOf hprefix, List.drop_left]

theorem after?_eq_none_iff (needle s : List Char) : after? needle s = none ↔ ¬ needle <:+: s := by
  induction s with
  | nil =>
    rw [after?_nil, List.infix_nil]
    cases needle <;> simp
  | cons c rest ih =>
    rw [after?_cons, List.infix_cons_iff, ← List.isPrefixOf_iff_prefix]
    split
    · rename_i h
      simp [h]
    · rename_i h
      simp [h, ih]

/-- The first occurrence of `needle` in `s` stands between `before` and `rest`. -/
structure FirstAt (needle s before rest : List Char) : Prop where
  eq : s = before ++ needle ++ rest
  first : ∀ front back, s = front ++ needle ++ back → before.length ≤ front.length

theorem FirstAt.unique {needle s before rest before' rest' : List Char}
    (h : FirstAt needle s before rest) (h' : FirstAt needle s before' rest') :
    before = before' ∧ rest = rest' := by
  have hlen : before.length = before'.length :=
    Nat.le_antisymm (h.first _ _ h'.eq) (h'.first _ _ h.eq)
  have heq : before ++ (needle ++ rest) = before' ++ (needle ++ rest') := by
    rw [← List.append_assoc, ← List.append_assoc, ← h.eq, h'.eq]
  obtain ⟨hbefore, hrest⟩ := List.append_inj heq hlen
  exact ⟨hbefore, List.append_cancel_left hrest⟩

theorem exists_firstAt_of_after? {needle s rest : List Char} (h : after? needle s = some rest) :
    ∃ before, FirstAt needle s before rest := by
  induction s with
  | nil =>
    rw [after?_nil] at h
    split at h
    · rename_i hempty
      obtain rfl : needle = [] := List.isEmpty_iff.mp hempty
      obtain rfl : [] = rest := Option.some.inj h
      exact ⟨[], rfl, fun _ _ _ => Nat.zero_le _⟩
    · cases h
  | cons c s ih =>
    rw [after?_cons] at h
    split at h
    · rename_i hp
      obtain ⟨back, hback⟩ := List.isPrefixOf_iff_prefix.mp hp
      obtain rfl : back = rest := by
        rw [← hback, List.drop_left] at h
        exact Option.some.inj h
      exact ⟨[], hback.symm, fun _ _ _ => Nat.zero_le _⟩
    · rename_i hp
      obtain ⟨before, heq, hfirst⟩ := ih h
      refine ⟨c :: before, by rw [heq]; rfl, ?_⟩
      rintro front back hs
      cases front with
      | nil =>
        have hpre : needle <+: c :: s := ⟨back, by rw [hs]; rfl⟩
        exact absurd (List.isPrefixOf_iff_prefix.mpr hpre) hp
      | cons d front =>
        have htail : s = front ++ needle ++ back := (List.cons.inj hs).2
        exact Nat.succ_le_succ (hfirst front back htail)

theorem firstAt_of_after? {needle before rest : List Char}
    (h : after? needle (before ++ needle ++ rest) = some rest) :
    FirstAt needle (before ++ needle ++ rest) before rest := by
  obtain ⟨before', hat⟩ := exists_firstAt_of_after? h
  obtain rfl : before = before' := List.append_cancel_right (List.append_cancel_right hat.eq)
  exact hat

theorem after?_eq_some_iff {needle s rest : List Char} :
    after? needle s = some rest ↔ ∃ before, FirstAt needle s before rest := by
  constructor
  · exact exists_firstAt_of_after?
  · rintro ⟨before, hat⟩
    cases h : after? needle s with
    | none =>
      have hmem : needle <:+: s := ⟨before, rest, hat.eq.symm⟩
      exact absurd hmem ((after?_eq_none_iff needle s).mp h)
    | some rest' =>
      obtain ⟨before', hat'⟩ := exists_firstAt_of_after? h
      rw [(hat.unique hat').2]

theorem occursIn_iff (needle s : List Char) : occursIn needle s = true ↔ needle <:+: s := by
  unfold occursIn
  rw [Option.isSome_iff_ne_none, ne_eq, after?_eq_none_iff, Decidable.not_not]

/-- No occurrence reaches over a character that is not in the needle. -/
theorem not_prefix_append_cons {needle u : List Char} {b : Char} (hb : b ∉ needle)
    (hu : ¬ needle <:+: u) (s : List Char) : ¬ needle <+: u ++ b :: s := by
  intro h
  rcases Nat.lt_or_ge u.length needle.length with hlt | hle
  · have hwhole : u ++ [b] <+: u ++ b :: s := by simp
    have hlong : u ++ [b] <+: needle :=
      List.prefix_of_prefix_length_le hwhole h (by rw [List.length_append]; exact hlt)
    exact hb (hlong.subset (by simp))
  · have hshort : needle <+: u :=
      List.prefix_of_prefix_length_le h (List.prefix_append u (b :: s)) hle
    exact hu hshort.isInfix

theorem after?_append_cons {needle u : List Char} {b : Char} (hb : b ∉ needle)
    (hu : ¬ needle <:+: u) (s : List Char) :
    after? needle (u ++ b :: s) = after? needle s := by
  induction u with
  | nil =>
    have hnot := not_prefix_append_cons hb hu s
    rw [List.nil_append] at hnot ⊢
    rw [after?_cons, if_neg (by rwa [List.isPrefixOf_iff_prefix])]
  | cons c rest ih =>
    have hnot := not_prefix_append_cons hb hu s
    have hrest : ¬ needle <:+: rest := fun h => hu (List.infix_cons h)
    rw [List.cons_append] at hnot ⊢
    rw [after?_cons, if_neg (by rwa [List.isPrefixOf_iff_prefix]), ih hrest]

/-- Text made of other characters is passed over. -/
theorem after?_append_left {needle u : List Char} (hne : needle ≠ [])
    (hu : ∀ c ∈ u, c ∉ needle) (s : List Char) : after? needle (u ++ s) = after? needle s := by
  induction u with
  | nil => rfl
  | cons c u ih =>
    have hnil : ¬ needle <:+: [] := by rwa [List.infix_nil]
    have hc := after?_append_cons (hu c List.mem_cons_self) hnil (u ++ s)
    rw [List.cons_append, ← ih fun d hd => hu d (List.mem_cons_of_mem c hd)]
    exact hc

-- ---------------------------------------------------------------------------
-- The end of a text
-- ---------------------------------------------------------------------------

theorem dropTail?_append (front tail : List Char) : dropTail? tail (front ++ tail) = some front := by
  have hsuffix : tail.isSuffixOf (front ++ tail) = true :=
    List.isSuffixOf_iff_suffix.mpr (List.suffix_append front tail)
  rw [dropTail?, if_pos hsuffix, List.length_append, Nat.add_sub_cancel, List.take_left]

theorem dropTail?_eq_none_iff {tail s : List Char} : dropTail? tail s = none ↔ ¬ tail <:+ s := by
  rw [← List.isSuffixOf_iff_suffix]
  unfold dropTail?
  split <;> simp [*]

end BleCapture.Text
