import BleCapture.Device.Filter
import BleCapture.Proofs.Text.LetterCase
import BleCapture.Proofs.Text.Search

/-!
# The name condition

A filter looks for the lowercase of its text in the lowercase of a name. A name that
contains the text passes as long as the capital sigmas of the text become the same
letter in both.
-/

namespace BleCapture.PacketFilter

open Text.LetterCase

theorem admits_make_name (text name : String) (address : Option Address) (rssi : Option Int8) :
    (make none (some text) none).admits address (some name) rssi = true ↔
      Text.lowercase text.toList <:+: Text.lowercase name.toList := by
  simp only [make, admits, admitsAddress, admitsName, admitsRssi, Option.map_some, Bool.true_and,
    Bool.and_true, Text.occursIn_iff]

/-- A name that contains the text passes if the sigmas of the text have the same form
in the name. This is so in all names exactly if the text settles the form of its sigmas
by itself. -/
theorem admits_containing_iff (text : String) :
    (∀ (name : String) (front back : List Char) (address : Option Address) (rssi : Option Int8),
      name.toList = front ++ text.toList ++ back → KeepsSigmas front text.toList back →
        (make none (some text) none).admits address (some name) rssi = true) ∧
      ((∀ (name : String) (address : Option Address) (rssi : Option Int8),
        text.toList <:+: name.toList →
          (make none (some text) none).admits address (some name) rssi = true) ↔
        SettlesSigmas text.toList) := by
  have hkeeps : ∀ (name : String) (front back : List Char) (address : Option Address)
      (rssi : Option Int8), name.toList = front ++ text.toList ++ back →
      KeepsSigmas front text.toList back →
      (make none (some text) none).admits address (some name) rssi = true := by
    intro name front back address rssi hname h
    rw [admits_make_name, hname]
    exact h.lowercase_infix
  refine ⟨hkeeps, fun h => ?_, fun h => ?_⟩
  · by_contra hopen
    obtain ⟨front, back, hnot⟩ := exists_not_lowercase_infix hopen
    have hinfix : text.toList <:+: (String.ofList (front ++ text.toList ++ back)).toList := by
      rw [String.toList_ofList]
      exact ⟨front, back, rfl⟩
    have hadmits := h _ none none hinfix
    rw [admits_make_name, String.toList_ofList] at hadmits
    exact hnot hadmits
  · rintro name address rssi ⟨front, back, hname⟩
    exact hkeeps name front back address rssi hname.symm (h.keepsSigmas front back)

/-- A text that ends with a sigma, and a name in which the word goes on. -/
theorem admits_make_name_word_goes_on :
    "ΟΔΟΣ".toList <:+: "ΟΔΟΣΑ".toList ∧
      ∀ (address : Option Address) (rssi : Option Int8),
        (make none (some "ΟΔΟΣ") none).admits address (some "ΟΔΟΣΑ") rssi = false := by
  refine ⟨⟨[], ['Α'], by decide⟩, fun address rssi => ?_⟩
  rw [← Bool.not_eq_true, admits_make_name, ← Text.occursIn_iff]
  decide +kernel

end BleCapture.PacketFilter
