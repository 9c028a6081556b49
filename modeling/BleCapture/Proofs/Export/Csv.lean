import BleCapture.Export.Csv
import BleCapture.Proofs.Text.Utf8
import Mathlib.Data.List.Forall2

/-!
# Tables and their texts

The grammar of RFC 4180, with any character in a cell and a line end after every
record: a bare cell has no comma, quote or line break, and a quoted one has its quotes
doubled. The reader accepts exactly the texts of this grammar, so a text is the text of
one table at most; what is written for a table is one of its texts.
-/

namespace BleCapture.Csv

-- ---------------------------------------------------------------------------
-- The grammar
-- ---------------------------------------------------------------------------

/-- The text between the quotes of a cell. -/
def doubled (cell : Cell) : List Char :=
  cell.flatMap fun c => if c = '"' then ['"', '"'] else [c]

/-- The texts of a cell. -/
inductive CellText : List Char → Cell → Prop
  | bare {cell : Cell} (h : ∀ c ∈ cell, isSpecial c = false) : CellText cell cell
  | quoted (cell : Cell) : CellText ('"' :: (doubled cell ++ ['"'])) cell

/-- The texts of a record, without the line end. There is no record without cells. -/
def RecordText (text : List Char) (cells : List Cell) : Prop :=
  ∃ texts, List.Forall₂ CellText texts cells ∧ cells ≠ [] ∧ text = [','].intercalate texts

def lineEnd : List Char := ['\r', '\n']

/-- The texts of a table, every record with its line end. -/
def TableText (text : List Char) (records : List (List Cell)) : Prop :=
  ∃ lines, List.Forall₂ RecordText lines records ∧ text = lines.flatMap (· ++ lineEnd)

-- ---------------------------------------------------------------------------
-- Reading what the grammar allows
-- ---------------------------------------------------------------------------

theorem isSpecial_eq_false_iff (c : Char) :
    isSpecial c = false ↔ c ≠ ',' ∧ c ≠ '"' ∧ c ≠ '\r' ∧ c ≠ '\n' := by
  simp only [isSpecial, Bool.or_eq_false_iff, decide_eq_false_iff_not, and_assoc]

section
variable (cells : List Cell) (records : List (List Cell)) (rest : List Char)

theorem read?_bare {s : List Char} (h : ∀ c ∈ s, isSpecial c = false) (cell : Cell) :
    read? .bare cell cells records (s ++ rest) =
      read? .bare (s.reverse ++ cell) cells records rest := by
  induction s generalizing cell with
  | nil => rfl
  | cons c s ih =>
    obtain ⟨hc, hs⟩ := List.forall_mem_cons.mp h
    obtain ⟨hcomma, hquote, hreturn, hnewline⟩ := (isSpecial_eq_false_iff c).mp hc
    rw [List.cons_append, read?, if_neg hcomma, if_neg hreturn,
      if_neg (not_or.mpr ⟨hquote, hnewline⟩), ih hs, List.reverse_cons, List.append_assoc]
    rfl

theorem read?_doubled (s : List Char) (cell : Cell) :
    read? .quoted cell cells records (doubled s ++ rest) =
      read? .quoted (s.reverse ++ cell) cells records rest := by
  induction s generalizing cell with
  | nil => rfl
  | cons c s ih =>
    rw [doubled, List.flatMap_cons, List.append_assoc, List.reverse_cons, List.append_assoc]
    split
    · rename_i hc
      rw [hc]
      exact ih ('"' :: cell)
    · rename_i hc
      rw [List.singleton_append, read?, if_neg hc]
      exact ih (c :: cell)

/-- A cell is read to its end, whether a comma or a line end follows. -/
theorem read?_cellText {text : List Char} {cell : Cell} (h : CellText text cell) :
    read? .start [] cells records (text ++ ',' :: rest) =
        read? .start [] (cell :: cells) records rest ∧
      read? .start [] cells records (text ++ (lineEnd ++ rest)) =
        read? .start [] [] ((cell :: cells).reverse :: records) rest := by
  cases h with
  | bare h =>
    cases text with
    | nil => exact ⟨rfl, rfl⟩
    | cons c s =>
      obtain ⟨hc, hs⟩ := List.forall_mem_cons.mp h
      obtain ⟨hcomma, hquote, hreturn, hnewline⟩ := (isSpecial_eq_false_iff c).mp hc
      have hstart : ∀ more, read? .start [] cells records (c :: s ++ more) =
          read? .bare (s.reverse ++ [c]) cells records more := by
        intro more
        rw [List.cons_append, read?, if_neg hquote, if_neg hcomma, if_neg hreturn, if_neg hnewline,
          read?_bare cells records more hs]
      rw [hstart, hstart, ← List.reverse_cons]
      constructor
      · rw [read?, if_pos rfl, List.reverse_reverse]
      · change read? .start [] [] (((c :: s).reverse.reverse :: cells).reverse :: records) rest = _
        rw [List.reverse_reverse]
  | quoted =>
    have hstart : ∀ more, read? .start [] cells records ('"' :: (doubled cell ++ ['"']) ++ more) =
        read? .quote cell.reverse cells records more := by
      intro more
      rw [List.cons_append, List.append_assoc]
      change read? .quoted [] cells records (doubled cell ++ '"' :: more) = _
      rw [read?_doubled cells records ('"' :: more), List.append_nil]
      rfl
    rw [hstart, hstart]
    constructor
    · change read? .start [] (cell.reverse.reverse :: cells) records rest = _
      rw [List.reverse_reverse]
    · change read? .start [] [] ((cell.reverse.reverse :: cells).reverse :: records) rest = _
      rw [List.reverse_reverse]

end

theorem read?_recordText {text : List Char} {record : List Cell} (h : RecordText text record)
    (cells : List Cell) (records : List (List Cell)) (rest : List Char) :
    read? .start [] cells records (text ++ (lineEnd ++ rest)) =
      read? .start [] [] ((cells.reverse ++ record) :: records) rest := by
  obtain ⟨texts, htexts, hne, rfl⟩ := h
  induction htexts generalizing cells with
  | nil => exact absurd rfl hne
  | @cons text cell texts more hcell htexts ih =>
    cases htexts with
    | nil =>
      rw [List.intercalate_singleton, (read?_cellText cells records rest hcell).2,
        List.reverse_cons]
    | cons hnext htexts =>
      rw [List.intercalate_cons_cons, List.append_assoc, List.append_assoc, List.singleton_append,
        (read?_cellText cells records _ hcell).1, ih _ (List.cons_ne_nil _ _), List.reverse_cons,
        List.append_assoc, List.singleton_append]

/-- Every text of a table is read, as that table. -/
theorem parse?_of_tableText {text : List Char} {records : List (List Cell)}
    (h : TableText text records) : parse? text = some records := by
  obtain ⟨lines, hlines, rfl⟩ := h
  suffices ∀ past, read? .start [] [] past (lines.flatMap (· ++ lineEnd)) =
      some (past.reverse ++ records) from this []
  induction hlines with
  | nil =>
    intro past
    rw [List.append_nil]
    rfl
  | cons hline _ ih =>
    intro past
    rw [List.flatMap_cons, List.append_assoc, read?_recordText hline, ih, List.reverse_cons,
      List.append_assoc]
    rfl

-- ---------------------------------------------------------------------------
-- What is read belongs to the grammar
-- ---------------------------------------------------------------------------

/-- The part of a cell that a reader in some state has behind it, and the characters of
the cell up to there, the latest first. -/
inductive CellFront : State → List Char → Cell → Prop
  | start : CellFront .start [] []
  | bare {cell : Cell} (h : ∀ c ∈ cell.reverse, isSpecial c = false) :
    CellFront .bare cell.reverse cell
  | quoted (cell : Cell) : CellFront .quoted ('"' :: doubled cell.reverse) cell
  | quote (cell : Cell) : CellFront .quote ('"' :: (doubled cell.reverse ++ ['"'])) cell
  | lineEnd {text : List Char} {cell : Cell} (h : CellText text cell.reverse) :
    CellFront .lineEnd (text ++ ['\r']) cell

/-- Where a cell may end, what was read is a whole cell. -/
theorem CellFront.cellText {state : State} {text : List Char} {cell : Cell}
    (h : CellFront state text cell) (hquoted : state ≠ .quoted) (hend : state ≠ .lineEnd) :
    CellText text cell.reverse := by
  cases h with
  | start => exact .bare (List.forall_mem_nil _)
  | bare h => exact .bare h
  | quoted => exact absurd rfl hquoted
  | quote => exact .quoted cell.reverse
  | lineEnd => exact absurd rfl hend

section
variable {piece : List Char} {cell : Cell}

theorem CellFront.openQuote (h : CellFront .start piece cell) :
    CellFront .quoted (piece ++ ['"']) [] := by
  cases h
  exact .quoted []

theorem CellFront.bareChar {state : State} (h : CellFront state piece cell)
    (hstate : state = .start ∨ state = .bare) {c : Char} (hc : isSpecial c = false) :
    CellFront .bare (piece ++ [c]) (c :: cell) := by
  obtain ⟨rfl, hcell⟩ : piece = cell.reverse ∧ ∀ d ∈ cell.reverse, isSpecial d = false := by
    rcases hstate with rfl | rfl
    · cases h
      exact ⟨rfl, List.forall_mem_nil _⟩
    · cases h with
      | bare hcell => exact ⟨rfl, hcell⟩
  rw [← List.reverse_cons]
  refine .bare ?_
  rw [List.reverse_cons, List.forall_mem_append]
  exact ⟨hcell, List.forall_mem_singleton.mpr hc⟩

theorem CellFront.quotedChar (h : CellFront .quoted piece cell) {c : Char} (hc : c ≠ '"') :
    CellFront .quoted (piece ++ [c]) (c :: cell) := by
  cases h
  have hmore := CellFront.quoted (c :: cell)
  simpa [doubled, hc] using hmore

theorem CellFront.closeQuote (h : CellFront .quoted piece cell) :
    CellFront .quote (piece ++ ['"']) cell := by
  cases h
  exact .quote cell

theorem CellFront.doubleQuote (h : CellFront .quote piece cell) :
    CellFront .quoted (piece ++ ['"']) ('"' :: cell) := by
  cases h
  have hmore := CellFront.quoted ('"' :: cell)
  simpa [doubled] using hmore

end

/-- The text that a reader has behind it: whole records, whole cells of the record it
is in, and the front of a cell. -/
def Front (state : State) (cell : Cell) (cells : List Cell) (records : List (List Cell))
    (text : List Char) : Prop :=
  ∃ lines texts piece, List.Forall₂ RecordText lines records.reverse ∧
    List.Forall₂ CellText texts cells.reverse ∧ CellFront state piece cell ∧
    text = lines.flatMap (· ++ lineEnd) ++ (texts.flatMap (· ++ [',']) ++ piece)

section
variable {state : State} {cell : Cell} {cells : List Cell} {records : List (List Cell)}
  {text : List Char}

/-- A character that goes on with the same cell. -/
theorem Front.goOn (h : Front state cell cells records text) {next : State} {more : Cell}
    {c : Char} (hcell : ∀ piece, CellFront state piece cell → CellFront next (piece ++ [c]) more) :
    Front next more cells records (text ++ [c]) := by
  obtain ⟨lines, texts, piece, hlines, htexts, hpiece, rfl⟩ := h
  exact ⟨lines, texts, piece ++ [c], hlines, htexts, hcell piece hpiece, by
    simp only [List.append_assoc]⟩

/-- A comma ends the cell. -/
theorem Front.comma (h : Front state cell cells records text) (hquoted : state ≠ .quoted)
    (hend : state ≠ .lineEnd) : Front .start [] (cell.reverse :: cells) records (text ++ [',']) := by
  obtain ⟨lines, texts, piece, hlines, htexts, hpiece, rfl⟩ := h
  refine ⟨lines, texts ++ [piece], [], hlines, ?_, .start, ?_⟩
  · rw [List.reverse_cons]
    exact List.rel_append htexts (.cons (hpiece.cellText hquoted hend) .nil)
  · simp only [List.flatMap_append, List.flatMap_singleton, List.append_assoc, List.append_nil]

/-- So does a carriage return. -/
theorem Front.carriageReturn (h : Front state cell cells records text) (hquoted : state ≠ .quoted)
    (hend : state ≠ .lineEnd) : Front .lineEnd cell cells records (text ++ ['\r']) :=
  h.goOn fun _ hpiece => .lineEnd (hpiece.cellText hquoted hend)

theorem intercalate_concat (sep last : List Char) (texts : List (List Char)) :
    sep.intercalate (texts ++ [last]) = texts.flatMap (· ++ sep) ++ last := by
  induction texts with
  | nil => exact List.intercalate_singleton
  | cons text texts ih =>
    obtain ⟨next, more, hmore⟩ :=
      List.exists_cons_of_ne_nil (List.append_ne_nil_of_right_ne_nil texts (List.cons_ne_nil last []))
    rw [hmore] at ih
    rw [List.cons_append, hmore, List.intercalate_cons_cons, ih, List.flatMap_cons,
      ← List.append_assoc]

/-- A newline after it ends the record. -/
theorem Front.newline (h : Front .lineEnd cell cells records text) :
    Front .start [] [] ((cell.reverse :: cells).reverse :: records) (text ++ ['\n']) := by
  obtain ⟨lines, texts, piece, hlines, htexts, hpiece, rfl⟩ := h
  cases hpiece with
  | lineEnd hcell =>
    rename_i whole
    have hrecord : RecordText ([','].intercalate (texts ++ [whole])) (cell.reverse :: cells).reverse := by
      rw [List.reverse_cons]
      exact ⟨_, List.rel_append htexts (.cons hcell .nil), List.concat_ne_nil _ _, rfl⟩
    refine ⟨lines ++ [[','].intercalate (texts ++ [whole])], [], [], ?_, .nil, .start, ?_⟩
    · rw [List.reverse_cons]
      exact List.rel_append hlines (.cons hrecord .nil)
    · simp [intercalate_concat, lineEnd]

/-- A cell that has not begun is empty. -/
theorem Front.cell_start (h : Front .start cell cells records text) : cell = [] := by
  obtain ⟨lines, texts, piece, hlines, htexts, hpiece, rfl⟩ := h
  cases hpiece
  rfl

/-- The end of the text after a record. -/
theorem Front.tableText (h : Front .start cell [] records text) :
    TableText text records.reverse := by
  obtain ⟨lines, texts, piece, hlines, htexts, hpiece, rfl⟩ := h
  cases htexts
  cases hpiece
  exact ⟨lines, hlines, by simp only [List.flatMap_nil, List.append_nil]⟩

/-- A reader that has some text behind it reads the rest to the end. -/
def ReadsOn (text rest : List Char) (result : List (List Cell)) : Prop :=
  ∃ state cell cells records, Front state cell cells records text ∧
    read? state cell cells records rest = some result

section
variable {c : Char} {rest : List Char} {result : List (List Cell)}

/-- A comma or a carriage return, where it is not part of a quoted cell. -/
theorem Front.readsOn_separator (hfront : Front state cell cells records text)
    (hc : c = ',' ∨ c = '\r') (hquoted : state ≠ .quoted) (hend : state ≠ .lineEnd)
    (h : read? state cell cells records (c :: rest) = some result) :
    ReadsOn (text ++ [c]) rest result := by
  rcases hc with rfl | rfl
  · refine ⟨_, _, _, _, hfront.comma hquoted hend, ?_⟩
    cases state
    case start =>
      obtain rfl := hfront.cell_start
      exact h
    case bare | quote => exact h
    case quoted | lineEnd => contradiction
  · refine ⟨_, _, _, _, hfront.carriageReturn hquoted hend, ?_⟩
    cases state
    case start =>
      obtain rfl := hfront.cell_start
      exact h
    case bare | quote => exact h
    case quoted | lineEnd => contradiction

/-- What one character does, if the rest can be read. -/
theorem ReadsOn.step (h : ReadsOn text (c :: rest) result) : ReadsOn (text ++ [c]) rest result := by
  obtain ⟨state, cell, cells, records, hfront, h⟩ := h
  by_cases hseparator : (c = ',' ∨ c = '\r') ∧ state ≠ .quoted ∧ state ≠ .lineEnd
  · exact hfront.readsOn_separator hseparator.1 hseparator.2.1 hseparator.2.2 h
  cases state with
  | start =>
    obtain rfl := hfront.cell_start
    obtain ⟨hcomma, hreturn⟩ : c ≠ ',' ∧ c ≠ '\r' := by simpa using hseparator
    rw [read?, if_neg hcomma, if_neg hreturn] at h
    split at h
    · rename_i hc
      subst hc
      exact ⟨_, _, _, _, hfront.goOn fun _ hpiece => hpiece.openQuote, h⟩
    · rename_i hquote
      split at h
      · cases h
      · rename_i hnewline
        have hc := (isSpecial_eq_false_iff c).mpr ⟨hcomma, hquote, hreturn, hnewline⟩
        exact ⟨_, _, _, _, hfront.goOn fun _ hpiece => hpiece.bareChar (.inl rfl) hc, h⟩
  | bare =>
    obtain ⟨hcomma, hreturn⟩ : c ≠ ',' ∧ c ≠ '\r' := by simpa using hseparator
    rw [read?, if_neg hcomma, if_neg hreturn] at h
    split at h
    · cases h
    · rename_i hnone
      obtain ⟨hquote, hnewline⟩ := not_or.mp hnone
      have hc := (isSpecial_eq_false_iff c).mpr ⟨hcomma, hquote, hreturn, hnewline⟩
      exact ⟨_, _, _, _, hfront.goOn fun _ hpiece => hpiece.bareChar (.inr rfl) hc, h⟩
  | quoted =>
    rw [read?] at h
    split at h
    · rename_i hc
      subst hc
      exact ⟨_, _, _, _, hfront.goOn fun _ hpiece => hpiece.closeQuote, h⟩
    · rename_i hc
      exact ⟨_, _, _, _, hfront.goOn fun _ hpiece => hpiece.quotedChar hc, h⟩
  | quote =>
    obtain ⟨hcomma, hreturn⟩ : c ≠ ',' ∧ c ≠ '\r' := by simpa using hseparator
    rw [read?, if_neg hcomma, if_neg hreturn] at h
    split at h
    · rename_i hc
      subst hc
      exact ⟨_, _, _, _, hfront.goOn fun _ hpiece => hpiece.doubleQuote, h⟩
    · cases h
  | lineEnd =>
    rw [read?] at h
    split at h
    · rename_i hc
      subst hc
      exact ⟨_, _, _, _, hfront.newline, h⟩
    · cases h

theorem ReadsOn.tableText (h : ReadsOn text rest result) : TableText (text ++ rest) result := by
  induction rest generalizing text with
  | nil =>
    obtain ⟨state, cell, cells, records, hfront, h⟩ := h
    rw [read?] at h
    split at h
    · rename_i hend
      obtain ⟨rfl, hcells⟩ := hend
      obtain rfl := List.isEmpty_iff.mp hcells
      obtain rfl := Option.some.inj h
      rw [List.append_nil]
      exact hfront.tableText
    · cases h
  | cons c rest ih =>
    rw [List.append_cons]
    exact ih h.step

end

end

/-- The reader accepts exactly the texts of tables. -/
theorem parse?_eq_some_iff {text : List Char} {records : List (List Cell)} :
    parse? text = some records ↔ TableText text records := by
  constructor
  · have hfront : Front .start [] [] [] [] := ⟨[], [], [], .nil, .nil, .start, rfl⟩
    exact fun h => ReadsOn.tableText ⟨_, _, _, _, hfront, h⟩
  · exact parse?_of_tableText

-- ---------------------------------------------------------------------------
-- What is written
-- ---------------------------------------------------------------------------

/-- The text that is written for a cell. -/
def writtenCell (cell : Cell) : List Char :=
  if cell.any isSpecial then '"' :: (doubled cell ++ ['"']) else cell

def writtenRecord (cells : List Cell) : List Char :=
  [','].intercalate (cells.map writtenCell)

def writtenTable (records : List (List Cell)) : List Char :=
  records.flatMap fun record => writtenRecord record ++ lineEnd

theorem cellText_writtenCell (cell : Cell) : CellText (writtenCell cell) cell := by
  unfold writtenCell
  split
  · exact .quoted cell
  · rename_i h
    exact .bare fun c hc => Bool.eq_false_iff.mpr fun hspecial =>
      h (List.any_eq_true.mpr ⟨c, hc, hspecial⟩)

theorem recordText_writtenRecord {cells : List Cell} (hne : cells ≠ []) :
    RecordText (writtenRecord cells) cells :=
  ⟨_, List.forall₂_map_left_iff.mpr (List.forall₂_same.mpr fun cell _ => cellText_writtenCell cell),
    hne, rfl⟩

theorem tableText_writtenTable {records : List (List Cell)} (hne : ∀ record ∈ records, record ≠ []) :
    TableText (writtenTable records) records := by
  refine ⟨records.map writtenRecord, ?_, ?_⟩
  · exact List.forall₂_map_left_iff.mpr
      (List.forall₂_same.mpr fun record h => recordText_writtenRecord (hne record h))
  · rw [List.flatMap_map]
    rfl

-- Segments keep together what must not be parted, and together they are the text.

theorem flatten_bareSegments (s : List Char) : (bareSegments s).flatten = Text.Utf8.encode s := by
  rw [bareSegments, ← List.flatMap_def]
  exact List.flatMap_singleton' _

theorem flatten_quotedSegments (s : List Char) :
    (quotedSegments s).flatten = Text.Utf8.encode (doubled s) := by
  induction s with
  | nil => rfl
  | cons c s ih =>
    rw [quotedSegments, List.flatMap_cons, List.flatten_append, doubled, List.flatMap_cons,
      Text.Utf8.encode_append]
    refine congrArg₂ _ ?_ ih
    split
    · exact List.flatten_singleton
    · exact flatten_bareSegments [c]

theorem flatten_cellSegments (cell : Cell) :
    (cellSegments cell).flatten = Text.Utf8.encode (writtenCell cell) := by
  unfold cellSegments writtenCell
  split
  · rw [List.flatten_append, List.flatten_append, flatten_bareSegments, flatten_quotedSegments,
      ← Text.Utf8.encode_append, ← Text.Utf8.encode_append]
    rfl
  · exact flatten_bareSegments cell

theorem flatten_recordSegments (cells : List Cell) :
    (recordSegments cells).flatten = Text.Utf8.encode (writtenRecord cells ++ lineEnd) := by
  have hcells : (List.intercalate (bareSegments [',']) (cells.map cellSegments)).flatten =
      Text.Utf8.encode (writtenRecord cells) := by
    unfold writtenRecord
    induction cells with
    | nil => rfl
    | cons cell cells ih =>
      cases cells with
      | nil =>
        rw [List.map_singleton, List.map_singleton, List.intercalate_singleton,
          List.intercalate_singleton]
        exact flatten_cellSegments cell
      | cons next cells =>
        simp only [List.map_cons, List.intercalate_cons_cons, List.flatten_append,
          Text.Utf8.encode_append, flatten_cellSegments, flatten_bareSegments] at ih ⊢
        rw [ih]
  rw [recordSegments, List.flatten_append, hcells, List.flatten_singleton, Text.Utf8.encode_append]
  rfl

theorem flatten_tableSegments (records : List (List Cell)) :
    (tableSegments records).flatten = Text.Utf8.encode (writtenTable records) := by
  induction records with
  | nil => rfl
  | cons record records ih =>
    rw [tableSegments, List.flatMap_cons, List.flatten_append, writtenTable, List.flatMap_cons,
      Text.Utf8.encode_append, flatten_recordSegments]
    exact congrArg _ ih

/-- Blocks cut the bytes without losing any. -/
theorem flatten_blocks (capacity : Nat) (held : List UInt8) (size : Nat) (segments : List Segment) :
    (blocks capacity held size segments).flatten = held.reverse ++ segments.flatten := by
  induction segments generalizing held size with
  | nil =>
    rw [blocks, List.flatten_singleton, List.flatten_nil, List.append_nil]
  | cons segment segments ih =>
    rw [blocks]
    split
    · rw [ih, List.reverse_append, List.reverse_reverse, List.append_assoc, List.flatten_cons]
    · rw [List.flatten_cons, ih, List.reverse_reverse, List.flatten_cons]

end BleCapture.Csv
