import Mathlib.Data.List.Infix

/-!
# Counting occurrences

How many times a text occurs in another. Joining texts can only add occurrences, and
none begins in a text that neither holds one nor ends with the front of one.
-/

namespace BleCapture.Text

/-- The number of places at which `needle` stands in `s`. -/
def occurrences (needle s : List Char) : Nat := s.tails.countP needle.isPrefixOf

section
variable {needle : List Char}

theorem occurrences_cons (needle : List Char) (c : Char) (s : List Char) :
    occurrences needle (c :: s) =
      (if needle <+: c :: s then 1 else 0) + occurrences needle s := by
  rw [occurrences, occurrences, List.tails_cons, List.countP_cons, Nat.add_comm]
  simp only [List.isPrefixOf_iff_prefix]

theorem occurrences_nil (hne : needle ≠ []) : occurrences needle [] = 0 := by
  cases needle with
  | nil => exact absurd rfl hne
  | cons c needle => rfl

theorem occurrences_add_le (hne : needle ≠ []) (s t : List Char) :
    occurrences needle s + occurrences needle t ≤ occurrences needle (s ++ t) := by
  induction s with
  | nil => rw [occurrences_nil hne, Nat.zero_add, List.nil_append]
  | cons c s ih =>
    have hfirst : (if needle <+: c :: s then 1 else 0) ≤
        if needle <+: c :: (s ++ t) then 1 else 0 := by
      split
      · rename_i h
        have hlonger : needle <+: c :: (s ++ t) := h.trans (List.prefix_append (c :: s) t)
        rw [if_pos hlonger]
      · exact Nat.zero_le _
    rw [List.cons_append, occurrences_cons, occurrences_cons]
    omega

theorem occurrences_mono (hne : needle ≠ []) {s t : List Char} (h : s <:+: t) :
    occurrences needle s ≤ occurrences needle t := by
  obtain ⟨front, back, rfl⟩ := h
  have hfront := occurrences_add_le hne front s
  have hback := occurrences_add_le hne (front ++ s) back
  omega

theorem occurrences_pos (hne : needle ≠ []) {s : List Char} (h : needle <:+: s) :
    1 ≤ occurrences needle s := by
  have hself : 1 ≤ occurrences needle needle := by
    obtain ⟨c, rest, rfl⟩ := List.exists_cons_of_ne_nil hne
    rw [occurrences_cons, if_pos List.prefix_rfl]
    exact Nat.le_add_right _ _
  exact hself.trans (occurrences_mono hne h)

theorem length_le_occurrences_flatMap (hne : needle ≠ []) {l : List α} {f : α → List Char}
    (h : ∀ a ∈ l, needle <:+: f a) : l.length ≤ occurrences needle (l.flatMap f) := by
  induction l with
  | nil => exact Nat.zero_le _
  | cons a l ih =>
    obtain ⟨ha, hl⟩ := List.forall_mem_cons.mp h
    have hfirst := occurrences_pos hne ha
    have hjoint := occurrences_add_le hne (f a) (l.flatMap f)
    have hrest := ih hl
    rw [List.flatMap_cons, List.length_cons]
    omega

/-- A text occurs no more often than its end. -/
theorem occurrences_cons_le (hne : needle ≠ []) (x : Char) (s : List Char) :
    occurrences (x :: needle) s ≤ occurrences needle s := by
  -- Each occurrence is counted where its end begins, one place further on.
  suffices ∀ c s, occurrences (x :: needle) (c :: s) ≤ occurrences needle s by
    cases s with
    | nil =>
      rw [occurrences_nil (List.cons_ne_nil x needle)]
      exact Nat.zero_le _
    | cons c s =>
      rw [occurrences_cons needle]
      exact Nat.le_add_left_of_le (this c s)
  intro c s
  induction s generalizing c with
  | nil =>
    have hnot : ¬ x :: needle <+: [c] := fun h => by
      have hlength := h.length_le
      rw [List.length_cons, List.length_singleton] at hlength
      exact hne (List.length_eq_zero_iff.mp (by omega))
    rw [occurrences_cons, if_neg hnot, occurrences_nil (List.cons_ne_nil x needle)]
    exact Nat.zero_le _
  | cons d s ih =>
    have hfirst : (if x :: needle <+: c :: d :: s then 1 else 0) ≤
        if needle <+: d :: s then 1 else 0 := by
      split
      · rename_i h
        rw [if_pos (List.cons_prefix_cons.mp h).2]
      · exact Nat.zero_le _
    have hrest := ih d
    rw [occurrences_cons, occurrences_cons needle]
    omega

theorem occurrences_append_le (hne : needle ≠ []) (front s : List Char) :
    occurrences (front ++ needle) s ≤ occurrences needle s := by
  induction front with
  | nil => exact Nat.le_refl _
  | cons x front ih =>
    exact (occurrences_cons_le (List.append_ne_nil_of_right_ne_nil front hne) x s).trans ih

-- ---------------------------------------------------------------------------
-- Texts in which no occurrence begins
-- ---------------------------------------------------------------------------

/-- Whatever follows, no occurrence begins in this text. -/
def Free (needle s : List Char) : Prop :=
  ∀ t, occurrences needle (s ++ t) = occurrences needle t

theorem free_nil : Free needle [] := fun _ => rfl

theorem Free.append {s t : List Char} (hs : Free needle s) (ht : Free needle t) :
    Free needle (s ++ t) := fun u => by rw [List.append_assoc, hs, ht]

theorem free_flatMap {l : List α} {f : α → List Char} (h : ∀ a ∈ l, Free needle (f a)) :
    Free needle (l.flatMap f) := by
  induction l with
  | nil => exact free_nil
  | cons a l ih =>
    obtain ⟨ha, hl⟩ := List.forall_mem_cons.mp h
    exact ha.append (ih hl)

theorem Free.cons {c : Char} {s : List Char} (hc : ∀ t, ¬ needle <+: c :: (s ++ t))
    (hs : Free needle s) : Free needle (c :: s) := by
  intro t
  rw [List.cons_append, occurrences_cons, if_neg (hc t), Nat.zero_add, hs]

theorem free_of_not_mem {c : Char} {rest s : List Char} (h : c ∉ s) : Free (c :: rest) s := by
  induction s with
  | nil => exact free_nil
  | cons d s ih =>
    rw [List.mem_cons, not_or] at h
    exact .cons (fun t hprefix => h.1 (List.cons_prefix_cons.mp hprefix).1) (ih h.2)

/-- Of a fixed text it can be computed: at no place do the needle and the rest of the
text agree as far as both go. -/
def isFree (needle : List Char) : List Char → Bool
  | [] => true
  | c :: s =>
    !(needle.isPrefixOf (c :: s) || (c :: s).isPrefixOf needle) && isFree needle s

theorem free_of_isFree {s : List Char} (h : isFree needle s = true) : Free needle s := by
  induction s with
  | nil => exact free_nil
  | cons c s ih =>
    obtain ⟨hfirst, hs⟩ := Bool.and_eq_true_iff.mp h
    rw [Bool.not_eq_true', Bool.or_eq_false_iff] at hfirst
    refine .cons (fun t hprefix => ?_) (ih hs)
    rcases List.prefix_or_prefix_of_prefix hprefix (List.prefix_append (c :: s) t) with hle | hle
    · exact absurd (List.isPrefixOf_iff_prefix.mpr hle) (Bool.eq_false_iff.mp hfirst.1)
    · exact absurd (List.isPrefixOf_iff_prefix.mpr hle) (Bool.eq_false_iff.mp hfirst.2)

/-- A text whose first character does not come again occurs once more in front of
another. -/
theorem occurrences_self_append {c : Char} {rest : List Char} (h : c ∉ rest) (s : List Char) :
    occurrences (c :: rest) (c :: rest ++ s) = 1 + occurrences (c :: rest) s := by
  have hself : c :: rest <+: c :: (rest ++ s) := List.prefix_append (c :: rest) s
  rw [List.cons_append, occurrences_cons, if_pos hself, free_of_not_mem h]

/-- Pieces in each of which one occurrence begins. -/
theorem occurrences_flatMap_append {l : List α} {f : α → List Char}
    (h : ∀ a ∈ l, ∀ t, occurrences needle (f a ++ t) = 1 + occurrences needle t) (t : List Char) :
    occurrences needle (l.flatMap f ++ t) = l.length + occurrences needle t := by
  induction l with
  | nil => exact (Nat.zero_add _).symm
  | cons a l ih =>
    obtain ⟨ha, hl⟩ := List.forall_mem_cons.mp h
    rw [List.flatMap_cons, List.append_assoc, ha, ih hl, List.length_cons]
    omega

end

end BleCapture.Text
