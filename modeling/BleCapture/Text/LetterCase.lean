import BleCapture.Text.LetterCase.Tables

/-!
# Lowercase

Full lowercase mapping of a text. Two characters need more than a table of
single letters: capital I with a dot becomes two characters, and capital sigma
depends on its neighbours.
-/

namespace BleCapture.Text

namespace LetterCase

def Run.covers (r : Run) (n : Nat) : Bool :=
  r.first ≤ n && n ≤ r.last && (n - r.first) % r.step == 0

def isCased (c : Char) : Bool :=
  casedRanges.any (·.holds c.toNat)

def isCaseIgnorable (c : Char) : Bool :=
  caseIgnorableRanges.any (·.holds c.toNat)

def lowerChar (c : Char) : List Char :=
  if c.toNat = 0x130 then ['i', Char.ofNat 0x307]
  else
    match lowercaseRuns.find? (·.covers c.toNat) with
    | some r => [Char.ofNat ((c.toNat : Int) + r.shift).toNat]
    | none => [c]

/-- Whether the nearest character that is not case-ignorable is cased. -/
def casedNext (s : List Char) : Bool :=
  match s.dropWhile isCaseIgnorable with
  | c :: _ => isCased c
  | [] => false

/-- Capital sigma is final after a cased letter that no cased letter follows. -/
def lowerSigma (before after : List Char) : Char :=
  if casedNext before && !casedNext after then Char.ofNat 0x3C2 else Char.ofNat 0x3C3

/-- Lowercase of a text that follows `before`, nearest character first. -/
def lowerAfter (before : List Char) : List Char → List Char
  | [] => []
  | c :: s =>
    (if c.toNat = 0x3A3 then [lowerSigma before s] else lowerChar c) ++ lowerAfter (c :: before) s

end LetterCase

def lowercase (s : List Char) : List Char :=
  LetterCase.lowerAfter [] s

end BleCapture.Text
