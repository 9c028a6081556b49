/-!
# Reading the tables of a page

A page is read as tags and the text that follows them; tables, rows and cells are
then found by their tags alone. What stands in a cell is its text without the tags
in it. The reader knows nothing about how a report is written.
-/

namespace BleCapture.Markup

/-- A tag without its brackets, and the text from it up to the next tag. -/
structure Element where
  tag : List Char
  text : List Char
  deriving DecidableEq

/-- The element that an opening bracket starts, from what follows it up to the
next one. -/
def Element.ofChunk (s : List Char) : Element :=
  ⟨s.takeWhile (· ≠ '>'), (s.dropWhile (· ≠ '>')).drop 1⟩

/-- Puts a character in front of what has been read. -/
def step (c : Char) (p : List Char × List Element) : List Char × List Element :=
  if c = '<' then ([], Element.ofChunk p.1 :: p.2) else (c :: p.1, p.2)

/-- The text in front of the first tag, and the elements after it. -/
def parse (s : List Char) : List Char × List Element :=
  s.foldr step ([], [])

/-- What stands between a tag and the next one that closes it. -/
def between (opening closing : List Char) (es : List Element) : List (List Element) :=
  (es.splitOnP fun e => e.tag = opening).tail.map fun part =>
    part.takeWhile fun e => e.tag ≠ closing

def content (es : List Element) : List Char :=
  es.flatMap Element.text

def cellEnds : List (List Char) := ["/td".toList, "/th".toList]

/-- The texts of the cells that end in a row. -/
def cells (row : List Element) : List String :=
  (row.splitOnP fun e => e.tag ∈ cellEnds).dropLast.map fun cell => String.ofList (content cell)

/-- The tables of a page, row by row and cell by cell. -/
def tables (page : List Char) : List (List (List String)) :=
  (between "table".toList "/table".toList (parse page).2).map fun table =>
    (between "tr".toList "/tr".toList table).map cells

-- ---------------------------------------------------------------------------
-- Text and tags
-- ---------------------------------------------------------------------------

/-- Text that cannot be taken for a tag or a part of one. -/
def Plain (s : List Char) : Prop := ∀ c ∈ s, c ≠ '<' ∧ c ≠ '>'

instance : DecidablePred Plain := fun s => List.decidableBAll (fun c => c ≠ '<' ∧ c ≠ '>') s

theorem plain_nil : Plain [] := List.forall_mem_nil _

theorem Plain.append {s t : List Char} (hs : Plain s) (ht : Plain t) : Plain (s ++ t) :=
  fun c hc => (List.mem_append.mp hc).elim (hs c) (ht c)

theorem Plain.cons {c : Char} {s : List Char} (hc : c ≠ '<' ∧ c ≠ '>') (hs : Plain s) :
    Plain (c :: s) :=
  List.forall_mem_cons.mpr ⟨hc, hs⟩

def tag (name : List Char) : List Char := '<' :: (name ++ ['>'])

/-- The characters of a literal are known without decoding it. -/
theorem toList_literal {s : String} {cs : List Char} (h : s = String.ofList cs) : s.toList = cs := by
  rw [h, String.toList_ofList]

theorem plain_literal {s : String} {cs : List Char} (h : s = String.ofList cs) (hcs : Plain cs) :
    Plain s.toList := by
  rwa [toList_literal h]

theorem parse_plain {a : List Char} (h : Plain a) (s : List Char) :
    parse (a ++ s) = (a ++ (parse s).1, (parse s).2) := by
  induction a with
  | nil => rfl
  | cons c a ih =>
    obtain ⟨hc, ha⟩ := List.forall_mem_cons.mp h
    change step c (parse (a ++ s)) = _
    rw [ih ha, step, if_neg hc.1, List.cons_append]

theorem ofChunk_append {name : List Char} (h : Plain name) (text : List Char) :
    Element.ofChunk (name ++ '>' :: text) = ⟨name, text⟩ := by
  have hname : ∀ c ∈ name, decide (c ≠ '>') = true := fun c hc => decide_eq_true (h c hc).2
  rw [Element.ofChunk, List.takeWhile_append_of_pos hname, List.dropWhile_append_of_pos hname]
  simp

theorem parse_tag {name : List Char} (h : Plain name) (s : List Char) :
    parse (tag name ++ s) = ([], ⟨name, (parse s).1⟩ :: (parse s).2) := by
  have hrest : parse (name ++ '>' :: s) = (name ++ '>' :: (parse s).1, (parse s).2) :=
    parse_plain h ('>' :: s)
  rw [tag, List.cons_append, List.append_assoc, List.singleton_append]
  change step '<' (parse (name ++ '>' :: s)) = _
  rw [hrest, step, if_pos rfl, ofChunk_append h]

-- ---------------------------------------------------------------------------
-- Inside a cell
-- ---------------------------------------------------------------------------

def tableTags : List (List Char) := ["table".toList, "/table".toList]

def rowTags : List (List Char) := ["tr".toList, "/tr".toList]

/-- The tags that tables, rows and cells are found by. -/
def structural : List (List Char) := tableTags ++ (rowTags ++ cellEnds)

def Avoids (es : List Element) (names : List (List Char)) : Prop := ∀ e ∈ es, e.tag ∉ names

theorem avoids_cons {e : Element} {es : List Element} {names : List (List Char)} :
    Avoids (e :: es) names ↔ e.tag ∉ names ∧ Avoids es names :=
  List.forall_mem_cons

theorem avoids_append {es fs : List Element} {names : List (List Char)} :
    Avoids (es ++ fs) names ↔ Avoids es names ∧ Avoids fs names :=
  List.forall_mem_append

theorem Avoids.mono {es : List Element} {names fewer : List (List Char)} (h : Avoids es names)
    (hsub : fewer ⊆ names) : Avoids es fewer :=
  fun e he hmem => h e he (hsub hmem)

/-- Markup that shows a text and leaves tables, rows and cells as they are. -/
def Inline (markup shown : List Char) : Prop :=
  ∀ s, ∃ lead es, parse (markup ++ s) = (lead, es ++ (parse s).2) ∧
    lead ++ content es = shown ++ (parse s).1 ∧ Avoids es structural

theorem inline_plain {a : List Char} (h : Plain a) : Inline a a :=
  fun s => ⟨a ++ (parse s).1, [], parse_plain h s, List.append_nil _, fun _ he => nomatch he⟩

/-- Tags that do not structure a table. -/
def InlineName (name : List Char) : Prop := Plain name ∧ name ∉ structural

instance : DecidablePred InlineName := fun name => inferInstanceAs (Decidable (_ ∧ name ∉ structural))

theorem inline_tag {name : List Char} (h : InlineName name) : Inline (tag name) [] := by
  intro s
  refine ⟨[], [⟨name, (parse s).1⟩], parse_tag h.1 s, List.append_nil _, ?_⟩
  rintro e he
  rw [List.mem_singleton.mp he]
  exact h.2

theorem Inline.append {m n a b : List Char} (hm : Inline m a) (hn : Inline n b) :
    Inline (m ++ n) (a ++ b) := by
  intro s
  obtain ⟨middle, fs, hparse, hshown, hfs⟩ := hn s
  obtain ⟨lead, es, hparse', hshown', hes⟩ := hm (n ++ s)
  rw [hparse] at hparse' hshown'
  refine ⟨lead, es ++ fs, ?_, ?_, avoids_append.mpr ⟨hes, hfs⟩⟩
  · rw [List.append_assoc, hparse', List.append_assoc]
  · rw [content, List.flatMap_append, ← List.append_assoc]
    change lead ++ content es ++ content fs = _
    rw [hshown', List.append_assoc, hshown, List.append_assoc]

/-- The text of a piece of markup without its tags, if none of them is structural
and none is left open. After an opening bracket, the name read so far is kept. -/
def strip? : Option (List Char) → List Char → Option (List Char)
  | none, [] => some []
  | some _, [] => none
  | none, c :: m =>
    if c = '<' then strip? (some []) m
    else if c = '>' then none
    else (strip? none m).map (c :: ·)
  | some name, c :: m =>
    if c = '>' then if name ∈ structural then none else strip? none m
    else if c = '<' then none
    else strip? (some (name ++ [c])) m

theorem inline_of_strip? {m shown : List Char} (h : strip? none m = some shown) :
    Inline m shown := by
  -- Inside a tag, what is read continues the bracket and the name.
  suffices ∀ m, (∀ shown, strip? none m = some shown → Inline m shown) ∧
      ∀ name shown, Plain name → strip? (some name) m = some shown →
        Inline ('<' :: (name ++ m)) shown from (this m).1 shown h
  clear h m shown
  intro m
  induction m with
  | nil =>
    refine ⟨fun shown h => ?_, fun name shown _ h => nomatch h⟩
    obtain rfl := Option.some.inj h
    exact inline_plain plain_nil
  | cons c m ih =>
    obtain ⟨houtside, hinside⟩ := ih
    constructor
    · intro shown h
      rw [strip?] at h
      split at h
      · rename_i hc
        rw [hc]
        exact hinside [] shown plain_nil h
      · rename_i hopen
        split at h
        · cases h
        · rename_i hclose
          obtain ⟨rest, hrest, rfl⟩ := Option.map_eq_some_iff.mp h
          have hchar : Plain [c] := .cons ⟨hopen, hclose⟩ plain_nil
          exact (inline_plain hchar).append (houtside rest hrest)
    · intro name shown hname h
      rw [strip?] at h
      split at h
      · rename_i hc
        split at h
        · cases h
        · rename_i hstructural
          have htag := (inline_tag ⟨hname, hstructural⟩).append (houtside shown h)
          rw [tag, List.cons_append, List.append_assoc, List.nil_append] at htag
          rwa [hc]
      · rename_i hclose
        split at h
        · cases h
        · rename_i hopen
          have hmore := hinside (name ++ [c]) shown
            (hname.append (.cons ⟨hopen, hclose⟩ plain_nil)) h
          rwa [List.append_assoc] at hmore

theorem inline_literal {s : String} {cs shown : List Char} (h : s = String.ofList cs)
    (hcs : strip? none cs = some shown) : Inline s.toList shown := by
  rw [toList_literal h]
  exact inline_of_strip? hcs

theorem inline_within {name last m shown : List Char} (hname : InlineName name)
    (hlast : InlineName last) (h : Inline m shown) : Inline (tag name ++ m ++ tag last) shown := by
  have hwithin := ((inline_tag hname).append h).append (inline_tag hlast)
  rwa [List.nil_append, List.append_nil] at hwithin

/-- Markup in which no table, row or cell begins or ends. -/
def Quiet (markup : List Char) : Prop := ∃ shown, Inline markup shown

theorem quiet_plain {a : List Char} (h : Plain a) : Quiet a := ⟨a, inline_plain h⟩

theorem quiet_literal {s : String} {cs : List Char} (h : s = String.ofList cs)
    (hcs : (strip? none cs).isSome) : Quiet s.toList := by
  obtain ⟨shown, hshown⟩ := Option.isSome_iff_exists.mp hcs
  exact ⟨shown, inline_literal h hshown⟩

theorem Quiet.append {m n : List Char} : Quiet m → Quiet n → Quiet (m ++ n)
  | ⟨_, hm⟩, ⟨_, hn⟩ => ⟨_, hm.append hn⟩

theorem inline_flatMap {l : List α} {markup shown : α → List Char}
    (h : ∀ a ∈ l, Inline (markup a) (shown a)) : Inline (l.flatMap markup) (l.flatMap shown) := by
  induction l with
  | nil => exact inline_plain plain_nil
  | cons a l ih =>
    obtain ⟨ha, hl⟩ := List.forall_mem_cons.mp h
    exact ha.append (ih hl)

theorem quiet_flatMap {l : List α} {markup : α → List Char} (h : ∀ a ∈ l, Quiet (markup a)) :
    Quiet (l.flatMap markup) := by
  induction l with
  | nil => exact quiet_plain plain_nil
  | cons a l ih =>
    obtain ⟨ha, hl⟩ := List.forall_mem_cons.mp h
    exact ha.append (ih hl)

/-- A cell: its tag with attributes, the tag that ends it, what stands between
them and what that shows. -/
structure Cell where
  opening : List Char
  closing : List Char
  markup : List Char
  shown : List Char
  opening_inline : InlineName opening
  closing_mem : closing ∈ cellEnds
  inline : Inline markup shown

namespace Cell

def text (c : Cell) : List Char := tag c.opening ++ c.markup ++ tag c.closing

def label (c : Cell) : String := String.ofList c.shown

theorem closing_plain (c : Cell) : Plain c.closing := by
  have hall : ∀ name ∈ cellEnds, Plain name := by decide
  exact hall c.closing c.closing_mem

theorem closing_not_mem (c : Cell) : c.closing ∉ tableTags ++ rowTags := by
  have hall : ∀ name ∈ cellEnds, name ∉ tableTags ++ rowTags := by decide
  exact hall c.closing c.closing_mem

end Cell

theorem cells_cons {es : List Element} (hes : Avoids es cellEnds) {e : Element}
    (he : e.tag ∈ cellEnds) (rest : List Element) :
    cells (es ++ e :: rest) = String.ofList (content es) :: cells rest := by
  have hsplit := List.splitOnP_append_cons_of_forall_mem
    (fun e he => decide_eq_false (hes e he)) e (decide_eq_true he) rest
  rw [cells, hsplit, List.dropLast_cons_of_ne_nil (List.splitOnP_ne_nil _ _)]
  rfl

/-- Cells in front of another tag are read one by one. -/
theorem exists_parse_cells (cs : List Cell) {s : List Char} (hs : (parse s).1 = []) :
    ∃ es, parse (cs.flatMap Cell.text ++ s) = ([], es ++ (parse s).2) ∧
      cells es = cs.map Cell.label ∧ Avoids es (tableTags ++ rowTags) := by
  induction cs with
  | nil => exact ⟨[], Prod.ext hs rfl, rfl, fun _ he => nomatch he⟩
  | cons c cs ih =>
    obtain ⟨es, hparse, hcells, hes⟩ := ih
    -- What stands behind the cell begins with a tag, so the text of the cell is complete.
    obtain ⟨lead, fs, hinline, hshown, hfs⟩ := c.inline (tag c.closing ++ (cs.flatMap Cell.text ++ s))
    rw [parse_tag c.closing_plain, hparse] at hinline hshown
    let inside : List Element := ⟨c.opening, lead⟩ :: fs
    have hcontent : content inside = c.shown := by
      rw [content, List.flatMap_cons]
      exact hshown.trans (List.append_nil _)
    have hinside : Avoids inside structural := avoids_cons.mpr ⟨c.opening_inline.2, hfs⟩
    refine ⟨inside ++ ⟨c.closing, []⟩ :: es, ?_, ?_, ?_⟩
    · rw [List.flatMap_cons, Cell.text]
      simp only [List.append_assoc]
      rw [parse_tag c.opening_inline.1, hinline]
      simp [inside]
    · rw [cells_cons (hinside.mono (by decide)) c.closing_mem, hcontent, hcells]
      rfl
    · exact avoids_append.mpr
        ⟨hinside.mono (by decide), avoids_cons.mpr ⟨c.closing_not_mem, hes⟩⟩

-- ---------------------------------------------------------------------------
-- Rows and tables
-- ---------------------------------------------------------------------------

theorem splitOnP_append_left {p : α → Bool} {xs : List α} (h : ∀ x ∈ xs, p x = false)
    (ys : List α) : (xs ++ ys).splitOnP p = (ys.splitOnP p).modifyHead (xs ++ ·) := by
  obtain ⟨part, parts, hparts⟩ := List.exists_cons_of_ne_nil (List.splitOnP_ne_nil p ys)
  induction xs with
  | nil =>
    rw [List.nil_append, hparts]
    rfl
  | cons x xs ih =>
    obtain ⟨hx, hxs⟩ := List.forall_mem_cons.mp h
    have hne : ¬ p x = true := ne_true_of_eq_false hx
    rw [List.cons_append, List.splitOnP_cons_eq_if_modifyHead, if_neg hne, ih hxs, hparts]
    rfl

section
variable {opening closing : List Char} {es body : List Element}

theorem between_append (h : Avoids es [opening]) (rest : List Element) :
    between opening closing (es ++ rest) = between opening closing rest := by
  have hp : ∀ e ∈ es, decide (e.tag = opening) = false :=
    fun e he => decide_eq_false fun heq => h e he (List.mem_singleton.mpr heq)
  rw [between, splitOnP_append_left hp, List.tail_modifyHead, between]

theorem between_block (hbody : Avoids body [opening, closing]) (hne : closing ≠ opening)
    (s t : List Char) (rest : List Element) :
    between opening closing (⟨opening, s⟩ :: (body ++ ⟨closing, t⟩ :: rest)) =
      body :: between opening closing rest := by
  have hopening : ∀ e ∈ body ++ [⟨closing, t⟩], decide (e.tag = opening) = false := by
    intro e he
    rcases List.mem_append.mp he with he | he
    · exact decide_eq_false fun heq => hbody e he (by simp [heq])
    · rw [List.mem_singleton.mp he]
      exact decide_eq_false hne
  have hclosing : ∀ e ∈ body, decide (e.tag ≠ closing) = true :=
    fun e he => decide_eq_true fun heq => hbody e he (by simp [heq])
  obtain ⟨part, parts, hparts⟩ :=
    List.exists_cons_of_ne_nil (List.splitOnP_ne_nil (fun e : Element => e.tag = opening) rest)
  have htake : ((body ++ [(⟨closing, t⟩ : Element)]) ++ part).takeWhile (fun e => e.tag ≠ closing) =
      body := by
    rw [List.append_assoc, List.takeWhile_append_of_pos hclosing, List.singleton_append,
      List.takeWhile_cons_of_neg (by simp), List.append_nil]
  rw [between, between, List.append_cons, List.splitOnP_cons_eq_if_modifyHead,
    if_pos (decide_eq_true rfl), splitOnP_append_left hopening, hparts, List.modifyHead_cons,
    List.tail_cons, List.tail_cons, List.map_cons, htake]

end

/-- A row on a line of its own. -/
def rowLine (indent : List Char) (cs : List Cell) : List Char :=
  indent ++ tag "tr".toList ++ cs.flatMap Cell.text ++ tag "/tr".toList ++ ['\n']

theorem exists_parse_rows {indent : List Char} (hindent : Plain indent) (rows : List (List Cell))
    (s : List Char) :
    ∃ lead es, parse (rows.flatMap (rowLine indent) ++ s) = (lead, es ++ (parse s).2) ∧
      (between "tr".toList "/tr".toList es).map cells = rows.map (·.map Cell.label) ∧
      Avoids es tableTags := by
  induction rows with
  | nil => exact ⟨_, [], rfl, rfl, fun _ he => nomatch he⟩
  | cons cs rows ih =>
    obtain ⟨lead, es, hparse, hrows, hes⟩ := ih
    let behind := '\n' :: (rows.flatMap (rowLine indent) ++ s)
    have hbehind : parse behind = ('\n' :: lead, es ++ (parse s).2) := by
      have hline := parse_plain (a := ['\n']) (by decide) (rows.flatMap (rowLine indent) ++ s)
      rwa [hparse] at hline
    have hclose : parse (tag "/tr".toList ++ behind) =
        ([], ⟨"/tr".toList, (parse behind).1⟩ :: (parse behind).2) := parse_tag (by decide) behind
    obtain ⟨body, hbody, hcells, htags⟩ :=
      exists_parse_cells cs (s := tag "/tr".toList ++ behind) (by rw [hclose])
    refine ⟨indent, ⟨"tr".toList, []⟩ :: (body ++ ⟨"/tr".toList, '\n' :: lead⟩ :: es), ?_, ?_, ?_⟩
    · have hsplit : rowLine indent cs ++ (rows.flatMap (rowLine indent) ++ s) =
          indent ++ (tag "tr".toList ++
            (cs.flatMap Cell.text ++ (tag "/tr".toList ++ behind))) := by
        simp only [rowLine, behind, List.append_assoc, List.cons_append, List.nil_append]
      rw [List.flatMap_cons, List.append_assoc, hsplit, parse_plain hindent,
        parse_tag (by decide), hbody, hclose, hbehind]
      simp
    · have htr : Avoids body ["tr".toList, "/tr".toList] := htags.mono (by decide)
      rw [between_block htr (by decide), List.map_cons, hcells, hrows, List.map_cons]
    · have hrow : ∀ name ∈ rowTags, name ∉ tableTags := by decide
      exact avoids_cons.mpr ⟨hrow "tr".toList (by decide), avoids_append.mpr
        ⟨htags.mono (by decide), avoids_cons.mpr ⟨hrow "/tr".toList (by decide), hes⟩⟩⟩

/-- The first table of a page, after anything that has no table in it. -/
theorem head?_tables {front indent gap : List Char} (hfront : Quiet front)
    (hindent : Plain indent) (hgap : Plain gap) (rows : List (List Cell)) (rest : List Char) :
    (tables (front ++ (tag "table".toList ++ (['\n'] ++ (rows.flatMap (rowLine indent) ++
      (gap ++ (tag "/table".toList ++ rest))))))).head? = some (rows.map (·.map Cell.label)) := by
  let behind := gap ++ (tag "/table".toList ++ rest)
  have hbehind : parse behind =
      (gap, ⟨"/table".toList, (parse rest).1⟩ :: (parse rest).2) := by
    rw [parse_plain hgap, parse_tag (by decide), List.append_nil]
  obtain ⟨lead, es, hrows, hcells, hes⟩ := exists_parse_rows hindent rows behind
  obtain ⟨shown, hfront⟩ := hfront
  obtain ⟨start, fs, hparse, -, hfs⟩ := hfront (tag "table".toList ++ (['\n'] ++
    (rows.flatMap (rowLine indent) ++ behind)))
  have hline := parse_plain (a := ['\n']) (by decide) (rows.flatMap (rowLine indent) ++ behind)
  rw [parse_tag (by decide), hline, hrows, hbehind] at hparse
  have htable : Avoids es ["table".toList, "/table".toList] := hes
  rw [tables, hparse, between_append (hfs.mono (by decide)),
    between_block htable (by decide), List.map_cons, List.head?_cons, hcells]

end BleCapture.Markup
