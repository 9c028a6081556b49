import BleCapture.Line.Decode
import BleCapture.Proofs.Text.Blank
import BleCapture.Proofs.Text.Search

/-!
# Fields that are found

A field in front of a text is found with its value. It is passed over in the
search for another name, when neither its own name nor its value contains that
one. What is found is always the first field of its name: occurrences of the name
that no equals sign follows are left behind, and none of the others is.
-/

namespace BleCapture.Line

open Text (Blank FirstAt)

/-- A field without blanks. -/
def fieldText (name value : List Char) : List Char :=
  name ++ '=' :: '[' :: value ++ [']']

theorem takeWhile_ne_bracket {value : List Char} (h : ']' ∉ value) (rest : List Char) :
    (value ++ ']' :: rest).takeWhile (· ≠ ']') = value := by
  have hall : ∀ c ∈ value, decide (c ≠ ']') = true := by
    intro c hc
    rw [decide_eq_true_eq]
    rintro rfl
    exact h hc
  rw [List.takeWhile_append_of_pos hall, List.takeWhile_cons, if_neg (by simp), List.append_nil]

theorem bracketed?_append {value : List Char} (h : ']' ∉ value) (rest : List Char) :
    bracketed? ('[' :: value ++ ']' :: rest) = some (Text.trim value) := by
  have hmem : ']' ∈ value ++ ']' :: rest := by simp
  rw [List.cons_append, bracketed?, if_pos hmem, takeWhile_ne_bracket h]

theorem field?_eq (name : FieldName) (s : List Char) :
    field? name s = (Text.after? name.text.toList s).bind fun rest =>
      match Text.trimStart rest with
      | '=' :: value => bracketed? (Text.trimStart value)
      | _ => field? name rest := by
  rw [field?]
  split
  · rename_i hnone
    rw [hnone, Option.bind_none]
  · rename_i rest hsome
    rw [hsome]
    rfl

theorem text_ne_nil (name : FieldName) : name.text.toList ≠ [] :=
  List.ne_nil_of_length_pos name.text_length_pos

/-- Text made of other characters is passed over. -/
theorem field?_append_left {name : FieldName} {u : List Char}
    (h : ∀ c ∈ u, c ∉ name.text.toList) (s : List Char) :
    field? name (u ++ s) = field? name s := by
  rw [field?_eq, Text.after?_append_left (text_ne_nil name) h, ← field?_eq]

/-- A field is found whatever blanks it is written with. -/
theorem field?_spaced (name : FieldName) {b₁ b₂ raw : List Char} (h₁ : Blank b₁) (h₂ : Blank b₂)
    (h : ']' ∉ raw) (rest : List Char) :
    field? name (name.text.toList ++ (b₁ ++ '=' :: (b₂ ++ '[' :: (raw ++ ']' :: rest)))) =
      some (Text.trim raw) := by
  rw [field?_eq, Text.after?_append_self, Option.bind_some,
    Text.trimStart_append_cons h₁ (by decide)]
  have hvalue := Text.trimStart_append_cons h₂ (c := '[') (by decide) (raw ++ ']' :: rest)
  exact (congrArg bracketed? hvalue).trans (bracketed?_append h rest)

theorem mark_not_mem_text (name : FieldName) :
    ∀ c ∈ ['=', '[', ']', ','], c ∉ name.text.toList := by
  simp only [List.forall_mem_cons, List.not_mem_nil, false_implies, implies_true, and_true]
  cases name <;> decide

/-- What a search needs not to stop within a field. -/
structure Misses (needle name value : List Char) : Prop where
  marks : ∀ c ∈ ['=', '[', ']', ','], c ∉ needle
  name : ¬ needle <:+: name
  value : ¬ needle <:+: value

/-- What stands up to a closing bracket is passed over. -/
theorem field?_of_misses {name : FieldName} {u v : List Char}
    (h : Misses name.text.toList u v) (rest : List Char) :
    field? name (u ++ '=' :: (v ++ ']' :: rest)) = field? name rest := by
  rw [field?_eq, Text.after?_append_cons (h.marks _ (by simp)) h.name,
    Text.after?_append_cons (h.marks _ (by simp)) h.value, ← field?_eq]

-- ---------------------------------------------------------------------------
-- The first field of a name
-- ---------------------------------------------------------------------------

/-- The first place where an equals sign follows the name. In the brackets that
follow the sign stands `raw`. -/
def FirstField (name : FieldName) (s raw : List Char) : Prop :=
  ∃ before b₁ b₂ rest, Blank b₁ ∧ Blank b₂ ∧ ']' ∉ raw ∧
    s = before ++ name.text.toList ++ (b₁ ++ '=' :: (b₂ ++ '[' :: (raw ++ ']' :: rest))) ∧
    ∀ front b back, Blank b → s = front ++ name.text.toList ++ (b ++ '=' :: back) →
      before.length ≤ front.length

theorem exists_of_bracketed? {s value : List Char} (h : bracketed? s = some value) :
    ∃ raw rest, ']' ∉ raw ∧ s = '[' :: (raw ++ ']' :: rest) ∧ value = Text.trim raw := by
  unfold bracketed? at h
  split at h
  · rename_i rest
    split at h
    · rename_i hmem
      have hraw : ']' ∉ rest.takeWhile (· ≠ ']') := by
        intro hin
        have hne := List.mem_takeWhile_imp hin
        simp at hne
      obtain ⟨back, hback⟩ : ∃ back, rest.dropWhile (· ≠ ']') = ']' :: back := by
        have hstop := List.head?_dropWhile_not (fun c : Char => decide (c ≠ ']')) rest
        cases hdrop : rest.dropWhile (· ≠ ']') with
        | nil =>
          have hall := List.dropWhile_eq_nil_iff.mp hdrop ']' hmem
          simp at hall
        | cons c back =>
          rw [hdrop] at hstop
          obtain rfl : c = ']' := by simpa using hstop
          exact ⟨back, rfl⟩
      refine ⟨_, back, hraw, ?_, (Option.some.inj h).symm⟩
      rw [← hback, List.takeWhile_append_dropWhile]
    · cases h
  · cases h

/-- No name begins with an end of its own, so its occurrences are all apart. -/
theorem eq_nil_of_border {name : FieldName} {u w : List Char} (h : name.text.toList = u ++ w)
    (hu : u ≠ []) (hw : w <+: name.text.toList) : w = [] := by
  have hdrop : w = name.text.toList.drop u.length := by rw [h, List.drop_left]
  have hpos : 0 < u.length := List.length_pos_of_ne_nil hu
  have hlen : u.length ≤ name.text.toList.length := by
    rw [h, List.length_append]
    omega
  have key : ∀ k ≤ name.text.toList.length, 0 < k →
      name.text.toList.drop k <+: name.text.toList → k = name.text.toList.length := by
    cases name <;> decide
  rw [hdrop] at hw ⊢
  rw [key _ hlen hpos hw, List.drop_length]

/-- Behind one occurrence of a name the next one begins. -/
theorem exists_append_of_occurrence {name : FieldName} {before front rest back : List Char}
    (h : before ++ name.text.toList ++ rest = front ++ name.text.toList ++ back)
    (hle : before.length ≤ front.length) :
    (front = before ∧ back = rest) ∨
      ∃ more, front = before ++ name.text.toList ++ more ∧
        rest = more ++ name.text.toList ++ back := by
  rw [List.append_assoc, List.append_assoc] at h
  obtain ⟨u, rfl⟩ : ∃ u, front = before ++ u := by
    rcases List.append_eq_append_iff.mp h with ⟨u, hu, -⟩ | ⟨u, hu, -⟩
    · exact ⟨u, hu⟩
    · rw [hu, List.length_append] at hle
      have hnil : u = [] := List.eq_nil_of_length_eq_zero (by omega)
      exact ⟨[], by rw [hu, hnil, List.append_nil, List.append_nil]⟩
  rw [List.append_assoc, List.append_cancel_left_eq] at h
  rcases List.append_eq_append_iff.mp h with ⟨more, rfl, hrest⟩ | ⟨w, hname, hw⟩
  · exact .inr ⟨more, by rw [List.append_assoc], by rw [hrest, List.append_assoc]⟩
  · cases u with
    | nil =>
      rw [List.nil_append, List.append_cancel_left_eq] at h
      exact .inl ⟨List.append_nil before, h.symm⟩
    | cons c u =>
      have hborder : w <+: name.text.toList := by
        have hwide : w <+: name.text.toList ++ back := ⟨rest, hw.symm⟩
        refine List.prefix_of_prefix_length_le hwide (List.prefix_append _ back) ?_
        rw [hname, List.length_append]
        exact Nat.le_add_left ..
      have hnil := eq_nil_of_border hname (List.cons_ne_nil c u) hborder
      subst hnil
      rw [List.append_nil] at hname
      refine .inr ⟨[], ?_, ?_⟩
      · rw [hname, List.append_nil]
      · rw [List.nil_append]
        exact hw.symm

-- ---------------------------------------------------------------------------
-- The search for a field
-- ---------------------------------------------------------------------------

/-- In `s`, the name stands behind `before`, and the equals sign in front of `rest`
follows it with nothing but blanks between them. -/
def AssignedAt (name : FieldName) (s before rest : List Char) : Prop :=
  ∃ b, Blank b ∧ s = before ++ name.text.toList ++ (b ++ '=' :: rest)

/-- Of all occurrences of the name, the first that an equals sign follows. -/
structure FirstAssigned (name : FieldName) (s before rest : List Char) : Prop where
  assigned : AssignedAt name s before rest
  first : ∀ front back, AssignedAt name s front back → before.length ≤ front.length

/-- Behind blanks, `rest` begins with `raw` in brackets; the closing one is the first
that comes. -/
def Bracketed (rest raw : List Char) : Prop :=
  ∃ b back, Blank b ∧ ']' ∉ raw ∧ rest = b ++ '[' :: (raw ++ ']' :: back)

theorem bracketed?_trimStart_eq_some_iff {rest value : List Char} :
    bracketed? (Text.trimStart rest) = some value ↔
      ∃ raw, Bracketed rest raw ∧ value = Text.trim raw := by
  constructor
  · intro h
    obtain ⟨raw, back, hraw, htrim, rfl⟩ := exists_of_bracketed? h
    obtain ⟨b, hb, hrest⟩ := (Text.trimStart_eq_cons_iff (by decide)).mp htrim
    exact ⟨raw, ⟨b, back, hb, hraw, hrest⟩, rfl⟩
  · rintro ⟨raw, ⟨b, back, hb, hraw, rfl⟩, rfl⟩
    rw [Text.trimStart_append_cons hb (by decide)]
    exact bracketed?_append hraw back

theorem bracketed?_trimStart_eq_none_iff {rest : List Char} :
    bracketed? (Text.trimStart rest) = none ↔ ∀ raw, ¬ Bracketed rest raw := by
  simp only [Option.eq_none_iff_forall_ne_some, ne_eq, bracketed?_trimStart_eq_some_iff]
  constructor
  · intro h raw hraw
    exact h _ ⟨raw, hraw, rfl⟩
  · rintro h value ⟨raw, hraw, -⟩
    exact h raw hraw

section
variable {name : FieldName} {s before rest : List Char}

theorem FirstAssigned.unique {before' rest' : List Char} (h : FirstAssigned name s before rest)
    (h' : FirstAssigned name s before' rest') : before = before' ∧ rest = rest' := by
  obtain ⟨b, hb, hs⟩ := h.assigned
  obtain ⟨b', hb', hs'⟩ := h'.assigned
  have hlength : before.length = before'.length :=
    Nat.le_antisymm (h.first _ _ h'.assigned) (h'.first _ _ h.assigned)
  have hsame := hs.symm.trans hs'
  simp only [List.append_assoc] at hsame
  obtain ⟨hbefore, hbehind⟩ := List.append_inj hsame hlength
  have htrim : '=' :: rest = '=' :: rest' :=
    calc '=' :: rest
        = Text.trimStart (b ++ '=' :: rest) := (Text.trimStart_append_cons hb (by decide) _).symm
      _ = Text.trimStart (b' ++ '=' :: rest') := by rw [List.append_cancel_left hbehind]
      _ = '=' :: rest' := Text.trimStart_append_cons hb' (by decide) _
  exact ⟨hbefore, (List.cons.inj htrim).2⟩

/-- Behind an occurrence that no equals sign follows stand all those that one follows,
so that a search which goes on there skips none of them. -/
theorem assignedAt_restart (hat : FirstAt name.text.toList s before rest)
    (hnot : ∀ text, Text.trimStart rest ≠ '=' :: text) {front back : List Char} :
    AssignedAt name s front back ↔
      ∃ more, front = before ++ name.text.toList ++ more ∧ AssignedAt name rest more back := by
  constructor
  · rintro ⟨b, hb, hs⟩
    rcases exists_append_of_occurrence (hat.eq.symm.trans hs) (hat.first front _ hs) with
      ⟨-, hback⟩ | ⟨more, hfront, hmore⟩
    · have htrim := Text.trimStart_append_cons hb (c := '=') (by decide) back
      rw [hback] at htrim
      exact absurd htrim (hnot back)
    · exact ⟨more, hfront, b, hb, hmore⟩
  · rintro ⟨more, rfl, b, hb, rfl⟩
    exact ⟨b, hb, by simp only [hat.eq, List.append_assoc]⟩

theorem FirstAssigned.restart (hat : FirstAt name.text.toList s before rest)
    (hnot : ∀ text, Text.trimStart rest ≠ '=' :: text) {more back : List Char}
    (h : FirstAssigned name rest more back) :
    FirstAssigned name s (before ++ name.text.toList ++ more) back := by
  refine ⟨(assignedAt_restart hat hnot).mpr ⟨more, rfl, h.assigned⟩, ?_⟩
  intro front back' hfront
  obtain ⟨more', rfl, hmore'⟩ := (assignedAt_restart hat hnot).mp hfront
  have hle := h.first more' back' hmore'
  simp only [List.length_append] at hle ⊢
  omega

/-- The search ends at the first occurrence that an equals sign follows, if there is one. -/
theorem field?_cases (name : FieldName) (s : List Char) :
    (∀ before rest, ¬ AssignedAt name s before rest) ∧ field? name s = none ∨
      ∃ before rest, FirstAssigned name s before rest ∧
        field? name s = bracketed? (Text.trimStart rest) := by
  -- As the search goes: the name is not there, an equals sign follows it, or the search
  -- starts again behind it.
  induction s using field?.induct name with
  | case1 s hafter =>
    refine .inl ⟨?_, by rw [field?_eq, hafter, Option.bind_none]⟩
    rintro before rest ⟨b, -, hs⟩
    exact (Text.after?_eq_none_iff _ _).mp hafter ⟨before, _, hs.symm⟩
  | case2 s rest hafter text htext =>
    obtain ⟨before, hat⟩ := Text.exists_firstAt_of_after? hafter
    obtain ⟨b, hb, rfl⟩ := (Text.trimStart_eq_cons_iff (by decide)).mp htext
    refine .inr ⟨before, text, ⟨⟨b, hb, hat.eq⟩, ?_⟩, ?_⟩
    · rintro front back ⟨b', -, hs⟩
      exact hat.first front _ hs
    · rw [field?_eq, hafter]
      simp only [Option.bind_some, htext]
  | case3 s rest hafter hnot ih =>
    obtain ⟨before, hat⟩ := Text.exists_firstAt_of_after? hafter
    have hstep : field? name s = field? name rest := by
      rw [field?_eq, hafter, Option.bind_some]
      split
      · rename_i text htext
        exact absurd htext (hnot text)
      · rfl
    rw [hstep]
    rcases ih with ⟨hnone, hfield⟩ | ⟨more, back, hfirst, hfield⟩
    · refine .inl ⟨?_, hfield⟩
      intro front back h
      obtain ⟨more, -, hmore⟩ := (assignedAt_restart hat hnot).mp h
      exact hnone more back hmore
    · exact .inr ⟨_, back, hfirst.restart hat hnot, hfield⟩

theorem field?_of_firstAssigned (h : FirstAssigned name s before rest) :
    field? name s = bracketed? (Text.trimStart rest) := by
  rcases field?_cases name s with ⟨hnone, -⟩ | ⟨before', rest', h', hfield⟩
  · exact absurd h.assigned (hnone before rest)
  · obtain ⟨-, rfl⟩ := h.unique h'
    exact hfield

theorem field?_eq_some_iff {value : List Char} :
    field? name s = some value ↔
      ∃ before rest raw, FirstAssigned name s before rest ∧ Bracketed rest raw ∧
        value = Text.trim raw := by
  constructor
  · intro h
    rcases field?_cases name s with ⟨-, hnone⟩ | ⟨before, rest, hfirst, hfield⟩
    · rw [hnone] at h
      cases h
    · obtain ⟨raw, hraw, hvalue⟩ := bracketed?_trimStart_eq_some_iff.mp (hfield.symm.trans h)
      exact ⟨before, rest, raw, hfirst, hraw, hvalue⟩
  · rintro ⟨before, rest, raw, hfirst, hraw, hvalue⟩
    rw [field?_of_firstAssigned hfirst]
    exact bracketed?_trimStart_eq_some_iff.mpr ⟨raw, hraw, hvalue⟩

theorem field?_eq_none_iff :
    field? name s = none ↔
      (∀ before rest, ¬ AssignedAt name s before rest) ∨
        ∃ before rest, FirstAssigned name s before rest ∧ ∀ raw, ¬ Bracketed rest raw := by
  constructor
  · intro h
    rcases field?_cases name s with ⟨hnone, -⟩ | ⟨before, rest, hfirst, hfield⟩
    · exact .inl hnone
    · exact .inr ⟨before, rest, hfirst,
        bracketed?_trimStart_eq_none_iff.mp (hfield.symm.trans h)⟩
  · rintro (hnone | ⟨before, rest, hfirst, hraw⟩)
    · rcases field?_cases name s with ⟨-, hfield⟩ | ⟨before, rest, hfirst, -⟩
      · exact hfield
      · exact absurd hfirst.assigned (hnone before rest)
    · rw [field?_of_firstAssigned hfirst]
      exact bracketed?_trimStart_eq_none_iff.mpr hraw

theorem FirstAssigned.firstField {raw : List Char} (h : FirstAssigned name s before rest)
    (hraw : Bracketed rest raw) : FirstField name s raw := by
  obtain ⟨b₁, hb₁, hs⟩ := h.assigned
  obtain ⟨b₂, back, hb₂, hmem, rfl⟩ := hraw
  refine ⟨before, b₁, b₂, back, hb₁, hb₂, hmem, hs, ?_⟩
  intro front b more hb hfront
  exact h.first front more ⟨b, hb, hfront⟩

theorem exists_firstField_of_field? {value : List Char} (h : field? name s = some value) :
    ∃ raw, FirstField name s raw ∧ value = Text.trim raw := by
  obtain ⟨before, rest, raw, hfirst, hraw, hvalue⟩ := field?_eq_some_iff.mp h
  exact ⟨raw, hfirst.firstField hraw, hvalue⟩

end

/-- A field is read behind the first equals sign that follows its name, whatever other
occurrences of the name stand before that one. Its value is what the brackets there
hold, trimmed. It is missing if no equals sign follows the name, or no brackets follow
the first that does, and nothing else goes wrong. -/
theorem require_by_first_assignment (name : FieldName) (s : List Char) :
    (∀ value, require name s = .ok value ↔
      ∃ before rest raw, FirstAssigned name s before rest ∧ Bracketed rest raw ∧
        value = Text.trim raw) ∧
    ∀ e, require name s = .error e ↔
      e = .missingField name ∧
        ((∀ before rest, ¬ AssignedAt name s before rest) ∨
          ∃ before rest, FirstAssigned name s before rest ∧ ∀ raw, ¬ Bracketed rest raw) := by
  constructor
  · intro value
    rw [← field?_eq_some_iff, require]
    cases field? name s <;> simp
  · intro e
    rw [← field?_eq_none_iff, require]
    cases field? name s <;> simp [eq_comm]

/-- The name of the length, twice without an equals sign and then with two of them. -/
example : field? .length "len, length: [1], len = [ 2 ], len=[3]".toList = some ['2'] := by
  decide +kernel

end BleCapture.Line
