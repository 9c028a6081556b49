import BleCapture.Tally

/-!
# Counting with tallies

A tally whose keys ascend gives for every key how often it was bumped, and its
total is the number of bumps altogether.
-/

namespace BleCapture.Tally

variable {κ : Type u} [DecidableEq κ] {rank : κ → Nat}

/-- How often `k` was counted; zero for a key without an entry. -/
def count (k : κ) : Tally κ → Nat
  | [] => 0
  | (k', n) :: rest => if k = k' then n else count k rest

def Ascending (rank : κ → Nat) (t : Tally κ) : Prop :=
  t.Pairwise fun e f => rank e.1 < rank f.1

theorem total_bump (k : κ) (t : Tally κ) : (t.bump rank k).total = t.total + 1 := by
  induction t with
  | nil => rfl
  | cons e rest ih =>
    simp only [total] at ih
    simp only [bump, total]
    split
    · simp only [List.foldr_cons]
      omega
    · split
      · simp only [List.foldr_cons]
        omega
      · simp only [List.foldr_cons, ih]
        omega

theorem mem_keys_bump {k k' : κ} {t : Tally κ} (h : k' ∈ (t.bump rank k).map Prod.fst) :
    k' = k ∨ k' ∈ t.map Prod.fst := by
  induction t with
  | nil => simpa [bump] using h
  | cons e rest ih =>
    simp only [bump] at h
    split at h
    · exact .inr h
    · split at h
      · simpa using h
      · rcases List.mem_cons.mp h with rfl | h
        · exact .inr (by simp)
        · exact (ih h).imp id (List.mem_cons_of_mem _)

theorem Ascending.bump (hinj : ∀ {k k' : κ}, rank k = rank k' → k = k') {t : Tally κ}
    (h : t.Ascending rank) (k : κ) : (t.bump rank k).Ascending rank := by
  induction t with
  | nil => simp [Tally.bump, Ascending]
  | cons e rest ih =>
    obtain ⟨he, hrest⟩ := List.pairwise_cons.mp h
    simp only [Tally.bump]
    split
    · exact List.pairwise_cons.mpr ⟨he, hrest⟩
    · rename_i hne
      split
      · rename_i hlt
        refine List.pairwise_cons.mpr ⟨?_, h⟩
        intro f hf
        rcases List.mem_cons.mp hf with rfl | hf
        · exact hlt
        · exact Nat.lt_trans hlt (he f hf)
      · rename_i hge
        refine List.pairwise_cons.mpr ⟨?_, ih hrest⟩
        intro f hf
        rcases mem_keys_bump (List.mem_map_of_mem (f := Prod.fst) hf) with hk | hk
        · have hrank : rank k ≠ rank e.1 := fun heq => hne (hinj heq)
          rw [hk]
          exact Nat.lt_of_le_of_ne (Nat.not_lt.mp hge) hrank.symm
        · obtain ⟨g, hg, hgf⟩ := List.mem_map.mp hk
          rw [← hgf]
          exact he g hg

theorem count_eq_zero_of_lt {k : κ} {t : Tally κ} (h : ∀ e ∈ t, rank k < rank e.1) :
    t.count k = 0 := by
  induction t with
  | nil => rfl
  | cons e rest ih =>
    have hne : k ≠ e.1 := by
      rintro rfl
      exact Nat.lt_irrefl _ (h e List.mem_cons_self)
    simp only [count, if_neg hne]
    exact ih fun f hf => h f (List.mem_cons_of_mem _ hf)

theorem Ascending.count_bump {t : Tally κ} (h : t.Ascending rank) (k k' : κ) :
    (t.bump rank k).count k' = t.count k' + if k' = k then 1 else 0 := by
  induction t with
  | nil => simp [Tally.bump, count]
  | cons e rest ih =>
    obtain ⟨he, hrest⟩ := List.pairwise_cons.mp h
    simp only [Tally.bump]
    split
    · rename_i hk
      subst hk
      simp only [count]
      split <;> simp
    · rename_i hne
      split
      · rename_i hlt
        -- The new key sorts first, so no entry further on can hold it.
        have hlow : ∀ f ∈ e :: rest, rank k < rank f.1 := by
          intro f hf
          rcases List.mem_cons.mp hf with rfl | hf
          · exact hlt
          · exact Nat.lt_trans hlt (he f hf)
        have hzero : Tally.count k (e :: rest) = 0 := count_eq_zero_of_lt hlow
        by_cases hk : k' = k
        · subst hk
          simp only [count, if_true, if_neg hne] at hzero ⊢
          omega
        · simp [count, hk]
      · simp only [count, ih hrest]
        split
        · rename_i hk
          have : k' ≠ k := fun e' => hne (e'.symm.trans hk)
          simp [this]
        · rfl

end BleCapture.Tally
