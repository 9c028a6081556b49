import BleCapture.Text.Utf8

/-!
# CSV text

Cells separated by commas, records ended by a carriage return and a newline. A
cell with a comma, a quote or a line break stands in quotes, its own quotes
doubled. Reading is the grammar of RFC 4180 in the same form.
-/

namespace BleCapture.Csv

abbrev Cell := List Char

/-- Characters that cannot stand in a bare cell. -/
def isSpecial (c : Char) : Bool :=
  c = ',' || c = '"' || c = '\r' || c = '\n'

/-- The parts that a writer keeps together: bytes one by one, but a doubled
quote and a line end whole. -/
abbrev Segment := List UInt8

def bareSegments (s : List Char) : List Segment :=
  (Text.Utf8.encode s).map fun b => [b]

def quotedSegments (s : List Char) : List Segment :=
  s.flatMap fun c => if c = '"' then [Text.Utf8.encode ['"', '"']] else bareSegments [c]

def cellSegments (s : Cell) : List Segment :=
  if s.any isSpecial then bareSegments ['"'] ++ quotedSegments s ++ bareSegments ['"']
  else bareSegments s

def recordSegments (cells : List Cell) : List Segment :=
  List.intercalate (bareSegments [',']) (cells.map cellSegments) ++ [Text.Utf8.encode ['\r', '\n']]

def tableSegments (rows : List (List Cell)) : List Segment :=
  rows.flatMap recordSegments

def encode (rows : List (List Cell)) : List UInt8 :=
  (tableSegments rows).flatten

/-- Groups segments greedily into blocks of at most `capacity` bytes. `held` is
the block being filled, latest byte first. -/
def blocks (capacity : Nat) (held : List UInt8) (size : Nat) : List Segment → List (List UInt8)
  | [] => [held.reverse]
  | u :: rest =>
    if size + u.length ≤ capacity then
      blocks capacity (u.reverse ++ held) (size + u.length) rest
    else held.reverse :: blocks capacity u.reverse u.length rest

/-- Where a reader stands inside a record. -/
inductive State where
  | start
  | bare
  | quoted
  /-- After a quote inside a quoted cell, which ends it or is doubled. -/
  | quote
  /-- After a carriage return that must be followed by a newline. -/
  | lineEnd
  deriving DecidableEq, Repr

/-- Reads records from a state; cells and records read so far come latest
first. Bare cells hold no quote and no line break. -/
def read? (state : State) (cell : Cell) (cells : List Cell) (records : List (List Cell)) :
    List Char → Option (List (List Cell))
  | [] => if state = .start ∧ cells.isEmpty then some records.reverse else none
  | c :: rest =>
    match state with
    | .quoted =>
      if c = '"' then read? .quote cell cells records rest
      else read? .quoted (c :: cell) cells records rest
    | .lineEnd =>
      if c = '\n' then
        read? .start [] [] ((cell.reverse :: cells).reverse :: records) rest
      else none
    | .quote =>
      if c = '"' then read? .quoted ('"' :: cell) cells records rest
      else if c = ',' then read? .start [] (cell.reverse :: cells) records rest
      else if c = '\r' then read? .lineEnd cell cells records rest
      else none
    | .start =>
      if c = '"' then read? .quoted [] cells records rest
      else if c = ',' then read? .start [] ([] :: cells) records rest
      else if c = '\r' then read? .lineEnd [] cells records rest
      else if c = '\n' then none
      else read? .bare [c] cells records rest
    | .bare =>
      if c = ',' then read? .start [] (cell.reverse :: cells) records rest
      else if c = '\r' then read? .lineEnd cell cells records rest
      else if c = '"' ∨ c = '\n' then none
      else read? .bare (c :: cell) cells records rest

/-- The records of a table, if every one of them is complete. -/
def parse? (s : List Char) : Option (List (List Cell)) :=
  read? .start [] [] [] s

end BleCapture.Csv
