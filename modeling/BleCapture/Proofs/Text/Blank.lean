import BleCapture.Text.Blank
import Mathlib.Data.List.DropRight

/-!
# Trimming

Text without blanks is not touched by trimming, and protects what stands
between blanks and its end. Trimming twice is trimming once.
-/

namespace BleCapture.Text

/-- No character of the text is blank. -/
def Visible (s : List Char) : Prop := ∀ c ∈ s, isBlank c = false

theorem trimStart_append_visible {t : List Char} (h : Visible t) (s : List Char) :
    trimStart (s ++ t) = trimStart s ++ t := by
  have ht : t.dropWhile isBlank = t := by
    cases t with
    | nil => rfl
    | cons c rest => simp [h c List.mem_cons_self]
  unfold trimStart
  rw [List.dropWhile_append]
  split
  · rename_i hs
    rw [ht, List.isEmpty_iff.mp hs, List.nil_append]
  · rfl

theorem trimEnd_append_visible {t : List Char} (hne : t ≠ []) (h : Visible t) (s : List Char) :
    trimEnd (s ++ t) = s ++ t := by
  obtain ⟨init, c, rfl⟩ : ∃ init c, t = init ++ [c] :=
    ⟨t.dropLast, t.getLast hne, (List.dropLast_concat_getLast hne).symm⟩
  have hc : isBlank c = false := h c (by simp)
  simp [trimEnd, dropEndWhile, hc]

theorem trim_append_visible {t : List Char} (hne : t ≠ []) (h : Visible t) (s : List Char) :
    trim (s ++ t) = trimStart s ++ t := by
  rw [trim, trimStart_append_visible h, trimEnd_append_visible hne h]

theorem trimStart_of_visible {s : List Char} (h : Visible s) : trimStart s = s := by
  have happ := trimStart_append_visible h []
  simpa [trimStart] using happ

theorem trimStart_of_head {s : List Char} (h : s.head?.any isBlank = false) :
    trimStart s = s := by
  cases s with
  | nil => rfl
  | cons c rest =>
    have hc : isBlank c = false := h
    simp [trimStart, hc]

-- ---------------------------------------------------------------------------
-- Blanks at the ends
-- ---------------------------------------------------------------------------

/-- Every character of the text is blank. -/
def Blank (s : List Char) : Prop := ∀ c ∈ s, isBlank c = true

instance : DecidablePred Blank := fun s =>
  decidable_of_iff (s.all isBlank = true) List.all_eq_true

theorem not_mem_of_blank {s : List Char} (h : Blank s) {c : Char} (hc : isBlank c = false) :
    c ∉ s := by
  intro hmem
  rw [h c hmem] at hc
  cases hc

theorem trimStart_append_blank {b : List Char} (h : Blank b) (s : List Char) :
    trimStart (b ++ s) = trimStart s :=
  List.dropWhile_append_of_pos h

theorem trimStart_append_cons {b : List Char} (h : Blank b) {c : Char} (hc : isBlank c = false)
    (s : List Char) : trimStart (b ++ c :: s) = c :: s := by
  rw [trimStart_append_blank h]
  exact trimStart_of_head (s := c :: s) hc

theorem exists_blank_append_trimStart (s : List Char) : ∃ b, Blank b ∧ s = b ++ trimStart s :=
  ⟨s.takeWhile isBlank, fun _ h => List.mem_takeWhile_imp h,
    List.takeWhile_append_dropWhile.symm⟩

theorem trimStart_eq_cons_iff {c : Char} (hc : isBlank c = false) {s rest : List Char} :
    trimStart s = c :: rest ↔ ∃ b, Blank b ∧ s = b ++ c :: rest := by
  constructor
  · intro h
    obtain ⟨b, hb, hs⟩ := exists_blank_append_trimStart s
    exact ⟨b, hb, h ▸ hs⟩
  · rintro ⟨b, hb, rfl⟩
    exact trimStart_append_cons hb hc rest

theorem trimStart_append (s t : List Char) : trimStart (s ++ t) = trimStart (trimStart s ++ t) := by
  obtain ⟨b, hb, hs⟩ := exists_blank_append_trimStart s
  calc trimStart (s ++ t) = trimStart (b ++ (trimStart s ++ t)) := by
        rw [← List.append_assoc, ← hs]
    _ = trimStart (trimStart s ++ t) := trimStart_append_blank hb _

theorem head_trimStart (s : List Char) : (trimStart s).head?.any isBlank = false := by
  have h := List.head?_dropWhile_not isBlank s
  unfold trimStart
  cases hd : (s.dropWhile isBlank).head? with
  | none => rfl
  | some c =>
    rw [hd] at h
    exact h

theorem trimEnd_eq_rdropWhile (s : List Char) : trimEnd s = s.rdropWhile isBlank := rfl

theorem exists_trimEnd_append_blank (s : List Char) : ∃ b, Blank b ∧ s = trimEnd s ++ b :=
  ⟨s.rtakeWhile isBlank, fun _ h => List.mem_rtakeWhile_imp h,
    List.rdropWhile_append_rtakeWhile.symm⟩

/-- Dropping from the end stops at the last member that is to be kept. -/
theorem dropEndWhile_append_cons {p : α → Bool} (s : List α) {a : α} (ha : p a = false)
    (t : List α) : dropEndWhile p (s ++ a :: t) = s ++ a :: dropEndWhile p t := by
  simp only [dropEndWhile, List.reverse_append, List.reverse_cons, List.append_assoc,
    List.singleton_append, List.dropWhile_append]
  split
  · rename_i h
    rw [List.isEmpty_iff.mp h, List.dropWhile_cons_of_neg (by simp [ha])]
    simp
  · simp

theorem dropEndWhile_of_forall {p : α → Bool} {s : List α} (h : ∀ a ∈ s, p a = true) :
    dropEndWhile p s = [] := by
  have hreverse : s.reverse.dropWhile p = [] :=
    List.dropWhile_eq_nil_iff.mpr fun a ha => h a (List.mem_reverse.mp ha)
  rw [dropEndWhile, hreverse, List.reverse_nil]

theorem dropEndWhile_congr {p q : α → Bool} {s : List α} (h : ∀ a ∈ s, p a = q a) :
    dropEndWhile p s = dropEndWhile q s := by
  have hreverse : ∀ a ∈ s.reverse, p a = q a := fun a ha => h a (List.mem_reverse.mp ha)
  unfold dropEndWhile
  congr 1
  generalize s.reverse = backwards at hreverse ⊢
  induction backwards with
  | nil => rfl
  | cons a rest ih =>
    obtain ⟨ha, hrest⟩ := List.forall_mem_cons.mp hreverse
    rw [List.dropWhile_cons, List.dropWhile_cons, ha, ih hrest]

/-- Trimming stops at the last character that is not blank. -/
theorem trimEnd_append_cons (s : List Char) {c : Char} (hc : isBlank c = false)
    (t : List Char) : trimEnd (s ++ c :: t) = s ++ c :: trimEnd t :=
  dropEndWhile_append_cons s hc t

theorem trimEnd_append {s : List Char} (h : ∃ c ∈ s, isBlank c = false) (u : List Char) :
    trimEnd (u ++ s) = u ++ trimEnd s := by
  obtain ⟨c, hmem, hc⟩ := h
  obtain ⟨front, back, rfl⟩ := List.append_of_mem hmem
  rw [← List.append_assoc, trimEnd_append_cons _ hc, trimEnd_append_cons _ hc, List.append_assoc]

theorem trimEnd_blank_append {b t : List Char} (h : Visible t) (hb : Blank b) :
    trimEnd (t ++ b) = t := by
  rw [trimEnd_eq_rdropWhile, List.rdropWhile, List.reverse_append,
    List.dropWhile_append_of_pos fun c hc => hb c (List.mem_reverse.mp hc)]
  exact List.rdropWhile_eq_self_iff.mpr fun hne hlast =>
    Bool.false_ne_true ((h _ (List.getLast_mem hne)).symm.trans hlast)

/-- What trimming leaves between blanks. -/
theorem trim_blank_visible {b₁ b₂ t : List Char} (h₁ : Blank b₁) (h : Visible t)
    (h₂ : Blank b₂) : trim (b₁ ++ t ++ b₂) = t := by
  rw [trim, List.append_assoc, trimStart_append_blank h₁]
  cases t with
  | nil =>
    have hnil : trimStart b₂ = [] := List.dropWhile_eq_nil_iff.mpr h₂
    rw [List.nil_append, hnil]
    rfl
  | cons c rest =>
    rw [trimStart_of_head (s := c :: rest ++ b₂) (h c List.mem_cons_self)]
    exact trimEnd_blank_append h h₂

theorem head_trim (s : List Char) : (trim s).head?.any isBlank = false := by
  have hstart := head_trimStart s
  obtain ⟨t, ht⟩ := List.rdropWhile_prefix isBlank (l := trimStart s)
  cases htrim : trim s with
  | nil => rfl
  | cons c rest =>
    have hfront : c :: rest ++ t = trimStart s := by rw [← htrim]; exact ht
    rw [← hfront] at hstart
    exact hstart

theorem trim_trim (s : List Char) : trim (trim s) = trim s := by
  rw [trim, trimStart_of_head (head_trim s)]
  exact List.rdropWhile_idempotent isBlank (trimStart s)

/-- Blanks in front are what `trimStart` drops. -/
theorem countP_isBlank_trimStart_lt {s : List Char} {c : Char} (hhead : s.head? = some c)
    (hc : isBlank c = true) : (trimStart s).countP isBlank < s.countP isBlank := by
  cases s with
  | nil => simp at hhead
  | cons d rest =>
    obtain rfl : d = c := by simpa using hhead
    have hle : (rest.dropWhile isBlank).countP isBlank ≤ rest.countP isBlank :=
      (List.dropWhile_sublist isBlank).countP_le
    simp only [trimStart, List.dropWhile_cons, hc, if_true, List.countP_cons]
    omega

end BleCapture.Text
