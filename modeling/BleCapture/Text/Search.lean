/-!
# Substring search

The first occurrence of a text decides where a search stops. The empty text
occurs at the very start of every text.

A window as long as the needle moves over the text, and its fingerprint moves
with it, so that the window is compared with the needle only where the
fingerprints agree. The equations `after?_nil` and `after?_cons` say that the
search finds what comparing at every place would find.
-/

namespace BleCapture.Text

/-- Fingerprints are polynomials in this base, modulo 2⁶⁴. -/
def fingerprintBase : UInt64 := 1099511628211

def extendFingerprint (h : UInt64) (c : Char) : UInt64 :=
  h * fingerprintBase + c.val.toUInt64

def fingerprint (s : List Char) : UInt64 :=
  s.foldl extendFingerprint 0

/-- Searches the text `s`. Its window has the fingerprint `h` and ends where
`ahead` begins; `target` is the fingerprint of the needle, and `weight` what
the first character of the window counts once another has come in. -/
def searchFrom (needle : List Char) (target weight h : UInt64) (s ahead : List Char) :
    Option (List Char) :=
  if h = target && needle.isPrefixOf s then some ahead
  else
    match s, ahead with
    | c :: s, a :: ahead =>
      searchFrom needle target weight (extendFingerprint h a - c.val.toUInt64 * weight) s ahead
    | _, _ => none

/-- What follows the first occurrence of `needle`, if there is one. -/
def after? (needle s : List Char) : Option (List Char) :=
  searchFrom needle (fingerprint needle) (fingerprintBase ^ needle.length)
    (fingerprint (s.take needle.length)) s (s.drop needle.length)

def occursIn (needle s : List Char) : Bool :=
  (after? needle s).isSome

/-- Removes `tail` from the end of a text that ends with it. -/
def dropTail? (tail s : List Char) : Option (List Char) :=
  if tail.isSuffixOf s then some (s.take (s.length - tail.length)) else none

theorem fingerprint_concat (s : List Char) (a : Char) :
    fingerprint (s ++ [a]) = extendFingerprint (fingerprint s) a := by
  simp [fingerprint]

theorem foldl_extendFingerprint (h : UInt64) (s : List Char) :
    s.foldl extendFingerprint h = h * fingerprintBase ^ s.length + fingerprint s := by
  induction s generalizing h with
  | nil => simp [fingerprint]
  | cons c s ih =>
    simp only [fingerprint, List.foldl_cons, List.length_cons] at ih ⊢
    rw [ih, ih (extendFingerprint 0 c)]
    simp only [extendFingerprint]
    grind

/-- The first character counts most. -/
theorem fingerprint_cons (c : Char) (s : List Char) :
    fingerprint (c :: s) = c.val.toUInt64 * fingerprintBase ^ s.length + fingerprint s := by
  have h := foldl_extendFingerprint (extendFingerprint 0 c) s
  simp only [extendFingerprint, UInt64.zero_mul, UInt64.zero_add] at h
  simpa [fingerprint, extendFingerprint] using h

/-- The window moves by one character. -/
theorem fingerprint_slide (c a : Char) (s : List Char) :
    extendFingerprint (fingerprint (c :: s)) a -
      c.val.toUInt64 * fingerprintBase ^ (s.length + 1) = fingerprint (s ++ [a]) := by
  rw [fingerprint_concat, fingerprint_cons]
  simp only [extendFingerprint]
  grind

theorem fingerprint_take_of_isPrefixOf {needle s : List Char} (h : needle.isPrefixOf s = true) :
    fingerprint (s.take needle.length) = fingerprint needle := by
  rw [← List.prefix_iff_eq_take.1 (List.isPrefixOf_iff_prefix.1 h)]

theorem after?_of_isPrefixOf {needle s : List Char} (h : needle.isPrefixOf s = true) :
    after? needle s = some (s.drop needle.length) := by
  rw [after?, searchFrom.eq_def]
  simp [fingerprint_take_of_isPrefixOf h, h]

theorem after?_nil (needle : List Char) :
    after? needle [] = if needle.isEmpty then some [] else none := by
  cases needle with
  | nil => exact after?_of_isPrefixOf (by simp)
  | cons => simp [after?, searchFrom.eq_def]

theorem after?_cons (needle s : List Char) (c : Char) :
    after? needle (c :: s) =
      if needle.isPrefixOf (c :: s) then some ((c :: s).drop needle.length)
      else after? needle s := by
  split
  · next h => exact after?_of_isPrefixOf h
  · next h =>
    match needle with
    | [] => simp at h
    | x :: needle =>
      have step (t : List Char) : after? (x :: needle) t =
          searchFrom (x :: needle) (fingerprint (x :: needle))
            (fingerprintBase ^ (needle.length + 1))
            (fingerprint (t.take (needle.length + 1))) t (t.drop (needle.length + 1)) := rfl
      rw [step, searchFrom.eq_def]
      simp only [h, Bool.and_false, Bool.false_eq_true, if_false, List.drop_succ_cons,
        List.take_succ_cons]
      match hd : s.drop needle.length with
      | [] =>
        have hl : s.length ≤ needle.length := List.drop_eq_nil_iff.1 hd
        have hp : (x :: needle).isPrefixOf s = false := by
          rw [Bool.eq_false_iff]
          intro hp
          have := (List.isPrefixOf_iff_prefix.1 hp).length_le
          simp only [List.length_cons] at this
          omega
        have hd' : s.drop (needle.length + 1) = [] := List.drop_eq_nil_iff.2 (by omega)
        rw [step, searchFrom.eq_def]
        simp only [hp, Bool.and_false, Bool.false_eq_true, if_false, hd']
      | a :: ahead =>
        have hl : needle.length < s.length := by
          apply Nat.lt_of_not_le
          intro hle
          rw [List.drop_eq_nil_iff.2 hle] at hd
          cases hd
        have ht : (s.take needle.length).length = needle.length := by
          simp only [List.length_take]
          omega
        have ha : s[needle.length] = a := by
          have := List.drop_eq_getElem_cons hl
          rw [hd] at this
          exact (List.cons.inj this).1.symm
        have hslide := fingerprint_slide c a (s.take needle.length)
        rw [ht] at hslide
        have htake : s.take needle.length ++ [a] = s.take (needle.length + 1) := by
          rw [← ha, List.take_append_getElem hl]
        have hdrop : s.drop (needle.length + 1) = ahead := by
          rw [← List.drop_drop, hd]
          rfl
        simp only [hslide, htake, step, hdrop]

theorem after?_length {needle s rest : List Char} (h : after? needle s = some rest) :
    rest.length + needle.length ≤ s.length := by
  induction s with
  | nil =>
    rw [after?_nil] at h
    cases needle with
    | nil => simp_all
    | cons => simp at h
  | cons c s ih =>
    rw [after?_cons] at h
    split at h
    · rename_i hp
      have hl := (List.isPrefixOf_iff_prefix.1 hp).length_le
      simp only [Option.some.injEq] at h
      subst h
      simp only [List.length_drop]
      omega
    · have := ih h
      simp only [List.length_cons]
      omega

end BleCapture.Text
