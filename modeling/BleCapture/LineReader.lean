import BleCapture.Text.Blank
import BleCapture.Text.Utf8

/-!
# Reading lines

A byte stream arrives in reads of any size. A line ends at a newline; carriage
returns before it are dropped, and bytes that are no UTF-8 are replaced. The
end of the input ends a last line, an error loses it.
-/

namespace BleCapture.LineReader

def lineText (bytes : List UInt8) : List Char :=
  Text.dropEndWhile (fun c => c = '\r' ∨ c = '\n') (Text.Utf8.decode bytes)

/-- Takes one read: the lines it completes, and the unfinished bytes, latest
first. -/
def feed (unfinished : List UInt8) : List UInt8 → List (List Char) × List UInt8
  | [] => ([], unfinished)
  | b :: rest =>
    if b = 0x0A then
      let (lines, left) := feed [] rest
      (lineText unfinished.reverse :: lines, left)
    else feed (b :: unfinished) rest

def feedAll (unfinished : List UInt8) : List (List UInt8) → List (List Char) × List UInt8
  | [] => ([], unfinished)
  | read :: reads =>
    let (lines, left) := feed unfinished read
    let (more, last) := feedAll left reads
    (lines ++ more, last)

inductive Ending where
  | endOfInput
  | error
  deriving DecidableEq, Repr

/-- The line that an ending completes, if bytes were left. -/
def lastLine (unfinished : List UInt8) : Ending → List (List Char)
  | .endOfInput => if unfinished.isEmpty then [] else [lineText unfinished.reverse]
  | .error => []

def linesOf (reads : List (List UInt8)) (ending : Ending) : List (List Char) :=
  let (lines, unfinished) := feedAll [] reads
  lines ++ lastLine unfinished ending

/-- The lines of a stream, given as the reads it arrived in. -/
def lines (reads : List (List UInt8)) (ending : Ending) : List String :=
  (linesOf reads ending).map String.ofList

end BleCapture.LineReader
