import BleCapture.Export.HtmlReport
import Mathlib.Data.List.Infix

/-!
# Escaped text

Escaping leaves no bracket and no quote, and an ampersand only where an entity begins.
Putting back the characters that the entities stand for gives the text, also where the
text looks like an entity itself.
-/

namespace BleCapture.HtmlReport

structure Entity where
  text : List Char
  meaning : Char

def entities : List Entity :=
  [⟨['&', 'a', 'm', 'p', ';'], '&'⟩, ⟨['&', 'l', 't', ';'], '<'⟩, ⟨['&', 'g', 't', ';'], '>'⟩,
   ⟨['&', 'q', 'u', 'o', 't', ';'], '"'⟩, ⟨['&', '#', '3', '9', ';'], '\''⟩]

/-- Puts the meanings of entities in their places, from left to right. -/
def unescape : List Char → List Char
  | [] => []
  | c :: rest =>
    match entities.find? fun e => e.text.isPrefixOf (c :: rest) with
    | some e => e.meaning :: unescape (rest.drop (e.text.length - 1))
    | none => c :: unescape rest
termination_by s => s.length

-- ---------------------------------------------------------------------------
-- One character
-- ---------------------------------------------------------------------------

/-- An entity is an ampersand and a name that has none. -/
theorem exists_name {e : Entity} (he : e ∈ entities) :
    ∃ name, e.text = '&' :: name ∧ '&' ∉ name := by
  have hall : ∀ e ∈ entities, e.text = '&' :: e.text.tail ∧ '&' ∉ e.text.tail := by decide
  exact ⟨_, hall e he⟩

/-- A marked character becomes its entity, and any other stands for itself. -/
theorem escapeChar_cases (c : Char) :
    (∃ e ∈ entities, e.meaning = c ∧ escapeChar c = e.text) ∨
      isMarked c = false ∧ escapeChar c = [c] := by
  unfold escapeChar
  split
  · exact .inl ⟨⟨_, '&'⟩, by simp [entities], by simp_all, String.toList_ofList⟩
  · rename_i hamp
    split
    · exact .inl ⟨⟨_, '<'⟩, by simp [entities], by simp_all, String.toList_ofList⟩
    · rename_i hless
      split
      · exact .inl ⟨⟨_, '>'⟩, by simp [entities], by simp_all, String.toList_ofList⟩
      · rename_i hgreater
        split
        · exact .inl ⟨⟨_, '"'⟩, by simp [entities], by simp_all, String.toList_ofList⟩
        · rename_i hquote
          split
          · exact .inl ⟨⟨_, '\''⟩, by simp [entities], by simp_all, String.toList_ofList⟩
          · rename_i hapostrophe
            refine .inr ⟨?_, rfl⟩
            simp [isMarked, hamp, hless, hgreater, hquote, hapostrophe]

/-- Taking a text over as it is makes no difference. -/
theorem escape_eq_flatMap (s : List Char) : escape s = s.flatMap escapeChar := by
  unfold escape
  split
  · rfl
  · rename_i hnone
    have hself : ∀ c ∈ s, escapeChar c = [c] := by
      intro c hc
      rcases escapeChar_cases c with ⟨e, he, rfl, -⟩ | ⟨-, hself⟩
      · have hmarked : ∀ e ∈ entities, isMarked e.meaning = true := by decide
        exact absurd (List.any_eq_true.mpr ⟨_, hc, hmarked e he⟩) hnone
      · exact hself
    rw [List.flatMap_congr hself, List.flatMap_singleton']

-- ---------------------------------------------------------------------------
-- Reading back
-- ---------------------------------------------------------------------------

theorem unescape_entity {e : Entity} (he : e ∈ entities) (rest : List Char) :
    unescape (e.text ++ rest) = e.meaning :: unescape rest := by
  simp only [entities, List.mem_cons, List.not_mem_nil, or_false] at he
  rcases he with rfl | rfl | rfl | rfl | rfl
  all_goals
    rw [List.cons_append, unescape]
    rfl

theorem unescape_cons {c : Char} (hc : c ≠ '&') (rest : List Char) :
    unescape (c :: rest) = c :: unescape rest := by
  have hfind : (entities.find? fun e => e.text.isPrefixOf (c :: rest)) = none := by
    refine List.find?_eq_none.mpr fun e he hprefix => ?_
    obtain ⟨name, hname, -⟩ := exists_name he
    rw [hname, List.isPrefixOf_iff_prefix, List.cons_prefix_cons] at hprefix
    exact hc hprefix.1.symm
  rw [unescape, hfind]

theorem unescape_escapeChar (c : Char) (rest : List Char) :
    unescape (escapeChar c ++ rest) = c :: unescape rest := by
  rcases escapeChar_cases c with ⟨e, he, rfl, htext⟩ | ⟨hplain, hself⟩
  · rw [htext, unescape_entity he]
  · have hc : c ≠ '&' := by
      rintro rfl
      exact absurd hplain (by decide)
    rw [hself, List.singleton_append, unescape_cons hc]

theorem unescape_escape (s : List Char) : unescape (escape s) = s := by
  rw [escape_eq_flatMap]
  induction s with
  | nil => rw [List.flatMap_nil, unescape]
  | cons c s ih => rw [List.flatMap_cons, unescape_escapeChar, ih]

-- ---------------------------------------------------------------------------
-- What cannot occur
-- ---------------------------------------------------------------------------

theorem ne_markup_of_mem_escape {s : List Char} {c : Char} (hc : c ∈ escape s) :
    c ≠ '<' ∧ c ≠ '>' ∧ c ≠ '"' ∧ c ≠ '\'' := by
  rw [escape_eq_flatMap] at hc
  obtain ⟨d, -, hd⟩ := List.mem_flatMap.mp hc
  rcases escapeChar_cases d with ⟨e, he, -, htext⟩ | ⟨hplain, hself⟩
  · have hentity : ∀ e ∈ entities,
        '<' ∉ e.text ∧ '>' ∉ e.text ∧ '"' ∉ e.text ∧ '\'' ∉ e.text := by decide
    obtain ⟨hless, hgreater, hquote, hapostrophe⟩ := hentity e he
    rw [htext] at hd
    exact ⟨ne_of_mem_of_not_mem hd hless, ne_of_mem_of_not_mem hd hgreater,
      ne_of_mem_of_not_mem hd hquote, ne_of_mem_of_not_mem hd hapostrophe⟩
  · obtain rfl := List.mem_singleton.mp (hself ▸ hd)
    refine ⟨?_, ?_, ?_, ?_⟩ <;> rintro rfl <;> exact absurd hplain (by decide)

theorem suffix_of_suffix_append {x : α} {a b t : List α} (hx : x ∉ a) (h : x :: t <:+ a ++ b) :
    x :: t <:+ b := by
  induction a with
  | nil => exact h
  | cons y a ih =>
    rw [List.mem_cons, not_or] at hx
    rcases List.suffix_cons_iff.mp h with heq | hsuffix
    · exact absurd (List.cons.inj heq).1 hx.1
    · exact ih hx.2 hsuffix

/-- Where an ampersand stands, an entity begins. -/
theorem exists_entity_of_suffix {s rest : List Char} (h : '&' :: rest <:+ escape s) :
    ∃ e ∈ entities, e.text <+: '&' :: rest := by
  rw [escape_eq_flatMap] at h
  induction s with
  | nil => exact absurd (List.suffix_nil.mp h) (List.cons_ne_nil _ _)
  | cons c s ih =>
    rw [List.flatMap_cons] at h
    rcases escapeChar_cases c with ⟨e, he, -, htext⟩ | ⟨hplain, hself⟩
    · obtain ⟨name, hname, hamp⟩ := exists_name he
      rw [htext, hname, List.cons_append] at h
      rcases List.suffix_cons_iff.mp h with heq | hsuffix
      · refine ⟨e, he, ?_⟩
        rw [heq, hname, ← List.cons_append]
        exact List.prefix_append _ _
      · exact ih (suffix_of_suffix_append hamp hsuffix)
    · rw [hself] at h
      refine ih (suffix_of_suffix_append (fun hmem => ?_) h)
      rw [← List.mem_singleton.mp hmem] at hplain
      exact absurd hplain (by decide)

/-- A text that can stand for another on a page. -/
structure Escapes (shown s : List Char) : Prop where
  no_markup : ∀ c ∈ shown, c ≠ '<' ∧ c ≠ '>' ∧ c ≠ '"' ∧ c ≠ '\''
  entity : ∀ rest, '&' :: rest <:+ shown → ∃ e ∈ entities, e.text <+: '&' :: rest
  reads_back : unescape shown = s

theorem escapes_escape (s : List Char) : Escapes (escape s) s where
  no_markup _ := ne_markup_of_mem_escape
  entity _ := exists_entity_of_suffix
  reads_back := unescape_escape s

end BleCapture.HtmlReport
