import BleCapture.FileSystem
import BleCapture.Proofs.Except

/-!
# What files operations touch

A path is resolved over directories alone, and no operation here creates or
removes one: paths lead to the same places before and after. Creating a file and
writing to it change no entry but a regular file under that path. Only `makePipe`
creates pipes, and only it and `remove` take them away.
-/

namespace BleCapture.FileSystem

variable {fs fs' : FileSystem} {path : String} {location : List String}

-- ---------------------------------------------------------------------------
-- Entries
-- ---------------------------------------------------------------------------

@[simp] theorem find?_nil (fs : FileSystem) : fs.find? [] = some .directory := rfl

theorem ne_nil_of_find? (h : fs.find? location ≠ some .directory) : location ≠ [] := by
  rintro rfl
  exact h rfl

theorem find?_of_ne_nil (h : location ≠ []) : fs.find? location = fs.nodes.lookup location := by
  simp [find?, h]

theorem lookup_cons_eq (entry : List String × Node) (rest : List (List String × Node))
    (location : List String) : (entry :: rest).lookup location =
      if location = entry.1 then some entry.2 else rest.lookup location := by
  rw [List.lookup_cons]
  by_cases h : location = entry.1
  · simp [h]
  · simp [h, beq_false_of_ne h]

theorem lookup_filter_ne (nodes : List (List String × Node)) (location other : List String) :
    (nodes.filter (·.1 ≠ location)).lookup other =
      if other = location then none else nodes.lookup other := by
  induction nodes with
  | nil => simp
  | cons entry rest ih =>
    by_cases hentry : entry.1 = location
    · rw [List.filter_cons_of_neg (by simpa using hentry), ih, lookup_cons_eq, hentry]
      split <;> rfl
    · rw [List.filter_cons_of_pos (by simpa using hentry), lookup_cons_eq, lookup_cons_eq, ih]
      split <;> simp_all

theorem find?_insert (h : location ≠ []) (n : Node) (other : List String) :
    (fs.insert location n).find? other = if other = location then some n else fs.find? other := by
  by_cases hroot : other = []
  · subst hroot
    rw [if_neg (Ne.symm h), find?_nil, find?_nil]
  · rw [find?_of_ne_nil hroot, find?_of_ne_nil hroot, insert, lookup_cons_eq, lookup_filter_ne]
    split <;> rfl

theorem find?_erase (h : location ≠ []) (other : List String) :
    (fs.erase location).find? other = if other = location then none else fs.find? other := by
  by_cases hroot : other = []
  · subst hroot
    rw [if_neg (Ne.symm h), find?_nil, find?_nil]
  · rw [find?_of_ne_nil hroot, find?_of_ne_nil hroot, erase, lookup_filter_ne]

/-- Bytes that are written at the location are kept: a regular file is there, or
nothing so far. -/
def Keeps (fs : FileSystem) (location : List String) : Prop :=
  fs.find? location = none ∨ ∃ content, fs.find? location = some (.file content)

theorem Keeps.ne_directory (h : fs.Keeps location) : fs.find? location ≠ some .directory := by
  obtain h | ⟨content, h⟩ := h <;> rw [h] <;> simp

theorem Keeps.ne_pipe (h : fs.Keeps location) : fs.find? location ≠ some .pipe := by
  obtain h | ⟨content, h⟩ := h <;> rw [h] <;> simp

-- ---------------------------------------------------------------------------
-- Paths
-- ---------------------------------------------------------------------------

/-- Both hold the same directories, and relative paths start at the same one. -/
structure SameDirectories (fs fs' : FileSystem) : Prop where
  workingDirectory : fs'.workingDirectory = fs.workingDirectory
  directory_iff : ∀ location,
    fs'.find? location = some .directory ↔ fs.find? location = some .directory

namespace SameDirectories

theorem refl (fs : FileSystem) : SameDirectories fs fs := ⟨rfl, fun _ => Iff.rfl⟩

theorem symm (h : SameDirectories fs fs') : SameDirectories fs' fs :=
  ⟨h.workingDirectory.symm, fun l => (h.directory_iff l).symm⟩

theorem trans {fs'' : FileSystem} (h : SameDirectories fs fs') (h' : SameDirectories fs' fs'') :
    SameDirectories fs fs'' :=
  ⟨h'.workingDirectory.trans h.workingDirectory,
    fun l => (h'.directory_iff l).trans (h.directory_iff l)⟩

/-- One entry may differ that is no directory in either. -/
theorem of_entry {entry : Option Node} (hstart : fs'.workingDirectory = fs.workingDirectory)
    (hold : fs.find? location ≠ some .directory) (hnew : entry ≠ some .directory)
    (hfind : ∀ other, fs'.find? other = if other = location then entry else fs.find? other) :
    SameDirectories fs fs' where
  workingDirectory := hstart
  directory_iff := by
    intro other
    rw [hfind]
    split
    · rename_i hother
      subst hother
      exact ⟨fun h => absurd h hnew, fun h => absurd h hold⟩
    · rfl

end SameDirectories

theorem lookup_eq_ok_iff {node : Option Node} :
    fs.lookup location = .ok node ↔
      (location.getLastD "").utf8ByteSize ≤ maxNameSize ∧ fs.find? location = node := by
  unfold lookup
  split
  · exact ⟨fun h => ⟨‹_›, Except.ok.inj h⟩, fun h => congrArg _ h.2⟩
  · exact ⟨fun h => (nomatch h), fun h => absurd h.1 ‹_›⟩

theorem enter_eq_ok_iff :
    fs.enter location = .ok () ↔
      (location.getLastD "").utf8ByteSize ≤ maxNameSize ∧ fs.find? location = some .directory := by
  simp only [enter, bind_eq_ok, lookup_eq_ok_iff]
  constructor
  · rintro ⟨node, ⟨hsize, rfl⟩, h⟩
    refine ⟨hsize, ?_⟩
    split at h
    · assumption
    · cases h
    · cases h
  · rintro ⟨hsize, hfind⟩
    exact ⟨_, ⟨hsize, hfind⟩, rfl⟩

theorem SameDirectories.walk (h : SameDirectories fs fs') {slash : Bool} {here : List String}
    {names : List String} {target : Target} (hwalk : fs.walk slash here names = .ok target) :
    fs'.walk slash here names = .ok target := by
  induction names generalizing here with
  | nil => exact hwalk
  | cons name rest ih =>
    rw [FileSystem.walk] at hwalk ⊢
    split at hwalk
    · rw [if_pos ‹_›]
      exact ih hwalk
    split at hwalk
    · rw [if_neg ‹_›, if_pos ‹_›]
      exact ih hwalk
    split at hwalk
    · rw [if_neg ‹_›, if_neg ‹_›, if_pos ‹_›]
      exact hwalk
    split at hwalk
    · rename_i henter
      obtain ⟨hsize, hfind⟩ := enter_eq_ok_iff.mp henter
      have henter' : fs'.enter (here ++ [name]) = .ok () :=
        enter_eq_ok_iff.mpr ⟨hsize, (h.directory_iff _).mpr hfind⟩
      rw [if_neg ‹_›, if_neg ‹_›, if_neg ‹_›, henter']
      exact ih hwalk
    · cases hwalk

theorem SameDirectories.locate (h : SameDirectories fs fs') {target : Target}
    (hlocate : fs.locate path = .ok target) : fs'.locate path = .ok target := by
  unfold FileSystem.locate at hlocate ⊢
  rw [h.workingDirectory]
  split at hlocate
  · cases hlocate
  split at hlocate
  · cases hlocate
  split at hlocate
  · cases hlocate
  rw [if_neg ‹_›, if_neg ‹_›, if_neg ‹_›]
  exact h.walk hlocate

/-- The location of the entry that a path leads to, whether or not it is there. -/
def location? (fs : FileSystem) (path : String) : Option (List String) :=
  (fs.locate path).toOption.map Target.location

theorem location?_eq_some_iff :
    fs.location? path = some location ↔
      ∃ named slash, fs.locate path = .ok ⟨location, named, slash⟩ := by
  unfold location?
  rcases fs.locate path with e | ⟨l, named, slash⟩ <;> simp [Except.toOption]

theorem SameDirectories.location?_eq (h : SameDirectories fs fs') (path : String) :
    fs'.location? path = fs.location? path := by
  refine Option.ext fun location => ?_
  rw [location?_eq_some_iff, location?_eq_some_iff]
  exact ⟨fun ⟨named, slash, hlocate⟩ => ⟨named, slash, h.symm.locate hlocate⟩,
    fun ⟨named, slash, hlocate⟩ => ⟨named, slash, h.locate hlocate⟩⟩

/-- The path leads to the entry, as the path of a file does. -/
structure LeadsTo (fs : FileSystem) (path : String) (location : List String) : Prop where
  locate : fs.locate path = .ok ⟨location, true, false⟩
  size : (location.getLastD "").utf8ByteSize ≤ maxNameSize

namespace LeadsTo

theorem location?_eq (h : fs.LeadsTo path location) : fs.location? path = some location :=
  location?_eq_some_iff.mpr ⟨_, _, h.locate⟩

theorem congr (h : fs.LeadsTo path location) (hsame : SameDirectories fs fs') :
    fs'.LeadsTo path location :=
  ⟨hsame.locate h.locate, h.size⟩

theorem lookup (h : fs.LeadsTo path location) : fs.lookup location = .ok (fs.find? location) :=
  if_pos h.size

/-- A file that is there is read as a whole. -/
theorem openFile_eq (h : fs.LeadsTo path location) {content : Sink}
    (hfile : fs.find? location = some (.file content)) :
    fs.openFile path = .ok content.bytes := by
  simp [openFile, h.locate, h.lookup, hfile, bind, Except.bind, pure, Except.pure]

end LeadsTo

-- ---------------------------------------------------------------------------
-- Writing
-- ---------------------------------------------------------------------------

/-- What writing files under the paths can do, in any order and any number of
times: regular files at the ends of the paths change, and nothing else. -/
inductive Rewrites (paths : List String) (fs : FileSystem) : FileSystem → Prop where
  | refl : Rewrites paths fs fs
  | file {fs' : FileSystem} {path : String} {location : List String} (content : Sink) :
      Rewrites paths fs fs' → path ∈ paths → fs'.location? path = some location →
      fs'.Keeps location → Rewrites paths fs (fs'.insert location (.file content))

namespace Rewrites

variable {paths : List String}

theorem single (hpath : fs.location? path = some location) (hkeeps : fs.Keeps location)
    (content : Sink) : Rewrites [path] fs (fs.insert location (.file content)) :=
  .file content .refl List.mem_cons_self hpath hkeeps

theorem trans {fs'' : FileSystem} (h : Rewrites paths fs fs') (h' : Rewrites paths fs' fs'') :
    Rewrites paths fs fs'' := by
  induction h' with
  | refl => exact h
  | file content _ hmem hpath hkeeps ih => exact .file content ih hmem hpath hkeeps

theorem mono {more : List String} (h : Rewrites paths fs fs') (hsub : paths ⊆ more) :
    Rewrites more fs fs' := by
  induction h with
  | refl => exact .refl
  | file content _ hmem hpath hkeeps ih => exact .file content ih (hsub hmem) hpath hkeeps

theorem sameDirectories (h : Rewrites paths fs fs') : SameDirectories fs fs' := by
  induction h with
  | refl => exact .refl fs
  | file content _ _ _ hkeeps ih =>
    have hdirectory := hkeeps.ne_directory
    exact ih.trans (.of_entry rfl hdirectory (by simp) (find?_insert (ne_nil_of_find? hdirectory) _))

theorem pipe_iff (h : Rewrites paths fs fs') (other : List String) :
    fs'.find? other = some .pipe ↔ fs.find? other = some .pipe := by
  induction h with
  | refl => rfl
  | file content _ _ _ hkeeps ih =>
    have hpipe := hkeeps.ne_pipe
    rw [find?_insert (ne_nil_of_find? hkeeps.ne_directory), ← ih]
    split <;> simp_all

theorem find?_of_ne (h : Rewrites paths fs fs')
    (hapart : ∀ path ∈ paths, fs.location? path ≠ some location) :
    fs'.find? location = fs.find? location := by
  induction h with
  | refl => rfl
  | file content hbefore hmem hpath hkeeps ih =>
    rw [find?_insert (ne_nil_of_find? hkeeps.ne_directory), if_neg, ih]
    rintro rfl
    rw [hbefore.sameDirectories.location?_eq] at hpath
    exact hapart _ hmem hpath

end Rewrites

theorem rewrites_update (fs : FileSystem) (path : String) (content : Sink) :
    Rewrites [path] fs (fs.update path content) := by
  unfold update
  split
  · exact .refl
  · rename_i target hlocate
    split
    · rename_i old hfile
      exact .single (location?_eq_some_iff.mpr ⟨_, _, hlocate⟩) (.inr ⟨old, hfile⟩) content
    · exact .refl

theorem update_of_file (hpath : fs.location? path = some location) {old : Sink}
    (hfile : fs.find? location = some (.file old)) (content : Sink) :
    fs.update path content = fs.insert location (.file content) := by
  obtain ⟨named, slash, hlocate⟩ := location?_eq_some_iff.mp hpath
  simp [update, hlocate, hfile]

theorem find?_update_of_file (hpath : fs.location? path = some location) {old : Sink}
    (hfile : fs.find? location = some (.file old)) (content : Sink) :
    (fs.update path content).find? location = some (.file content) := by
  have hdirectory : fs.find? location ≠ some .directory := by simp [hfile]
  rw [update_of_file hpath hfile, find?_insert (ne_nil_of_find? hdirectory), if_pos rfl]

/-- Everything that `create` does when it succeeds: an empty file is at the end of
the path, unless what is there takes bytes without keeping them. -/
theorem create_cases {sink : Sink} (h : fs.create path = .ok (fs', sink)) :
    ∃ location, fs.LeadsTo path location ∧
      ((fs.Keeps location ∧ sink.bytes = [] ∧ fs' = fs.insert location (.file sink)) ∨
      (¬ fs.Keeps location ∧ fs' = fs)) := by
  simp only [create, bind_eq_ok] at h
  obtain ⟨⟨location, named, slash⟩, hlocate, h⟩ := h
  dsimp only at h
  split at h
  · cases h
  rename_i hnamed
  obtain ⟨rfl, rfl⟩ : slash = false ∧ named = true := by simpa using hnamed
  simp only [bind_eq_ok, lookup_eq_ok_iff] at h
  obtain ⟨node, ⟨hsize, rfl⟩, h⟩ := h
  refine ⟨location, ⟨hlocate, hsize⟩, ?_⟩
  split at h
  · cases h
  · cases h
    exact .inl ⟨.inr ⟨_, ‹_›⟩, rfl, rfl⟩
  · cases h
    exact .inr ⟨by simp [Keeps, *], rfl⟩
  · cases h
    exact .inr ⟨by simp [Keeps, *], rfl⟩
  · cases h
    exact .inl ⟨.inl ‹_›, rfl, rfl⟩

theorem rewrites_create {sink : Sink} (h : fs.create path = .ok (fs', sink)) :
    Rewrites [path] fs fs' := by
  obtain ⟨location, hleads, ⟨hkeeps, -, rfl⟩ | ⟨-, rfl⟩⟩ := create_cases h
  · exact .single hleads.location?_eq hkeeps sink
  · exact .refl

/-- What is written to a file that was created is found at the end of its path. -/
theorem find?_update_of_create {sink : Sink} (h : fs.create path = .ok (fs', sink))
    (hleads : fs.LeadsTo path location) (hkeeps : fs.Keeps location) (content : Sink) :
    sink.bytes = [] ∧ (fs'.update path content).find? location = some (.file content) := by
  have hsame := (rewrites_create h).sameDirectories
  obtain ⟨location', hleads', ⟨-, hempty, rfl⟩ | ⟨hnot, -⟩⟩ := create_cases h
  · cases hleads'.locate.symm.trans hleads.locate
    have hfile : (fs.insert location (.file sink)).find? location = some (.file sink) := by
      rw [find?_insert (ne_nil_of_find? hkeeps.ne_directory), if_pos rfl]
    exact ⟨hempty, find?_update_of_file (hleads.congr hsame).location?_eq hfile content⟩
  · cases hleads'.locate.symm.trans hleads.locate
    exact absurd hkeeps hnot

-- ---------------------------------------------------------------------------
-- Pipes
-- ---------------------------------------------------------------------------

theorem remove_cases (h : fs.remove path = .ok fs') :
    ∃ location, fs.LeadsTo path location ∧ fs.find? location ≠ some .directory ∧
      fs' = fs.erase location := by
  simp only [remove, bind_eq_ok] at h
  obtain ⟨⟨location, named, slash⟩, hlocate, h⟩ := h
  dsimp only at h
  split at h
  · cases h
  simp only [bind_eq_ok, lookup_eq_ok_iff] at h
  obtain ⟨node, ⟨hsize, rfl⟩, h⟩ := h
  split at h
  · cases h
  · cases h
  · rename_i hnamed _ _ hdirectory hfind
    split at h
    · cases h
    · cases h
      obtain ⟨rfl, rfl⟩ : slash = false ∧ named = true := by simp_all
      exact ⟨location, ⟨hlocate, hsize⟩, by simpa [hfind] using hdirectory, rfl⟩

theorem LeadsTo.remove_pipe (h : fs.LeadsTo path location) (hpipe : fs.find? location = some .pipe) :
    fs.remove path = .ok (fs.erase location) := by
  simp [remove, h.locate, h.lookup, hpipe, bind, Except.bind, pure, Except.pure]

/-- Where nothing is found to remove, the directory is there and the entry is not. -/
theorem missing_of_remove_notFound {named slash : Bool}
    (hlocate : fs.locate path = .ok ⟨location, named, slash⟩)
    (h : fs.remove path = .error notFound) :
    named = true ∧ (location.getLastD "").utf8ByteSize ≤ maxNameSize ∧
      fs.find? location = none := by
  have hdirectory : isADirectory ≠ notFound := by decide
  have hlong : nameTooLong ≠ notFound := by decide
  have hslash : notADirectory ≠ notFound := by decide
  simp only [remove, hlocate, lookup, bind, Except.bind, throw, throwThe, MonadExceptOf.throw,
    pure, Except.pure] at h
  grind

theorem insertPipe_cases (h : makePipe.insertPipe path fs = .ok fs') :
    ∃ location named, fs.locate path = .ok ⟨location, named, false⟩ ∧
      fs' = fs.insert location .pipe := by
  simp only [makePipe.insertPipe, bind_eq_ok] at h
  obtain ⟨⟨location, named, slash⟩, hlocate, h⟩ := h
  split at h
  · cases h
  · cases h
    obtain rfl : slash = false := by simpa using ‹¬ slash = true›
    exact ⟨location, named, hlocate, rfl⟩

/-- Everything that `makePipe` does when it succeeds. -/
theorem makePipe_cases (h : fs.makePipe path = .ok fs') :
    ∃ location, fs.LeadsTo path location ∧ fs.find? location ≠ some .directory ∧
      fs'.workingDirectory = fs.workingDirectory ∧
      ∀ other, fs'.find? other = if other = location then some .pipe else fs.find? other := by
  unfold makePipe at h
  split at h
  · rename_i erased hremove
    obtain ⟨location, hleads, hdirectory, rfl⟩ := remove_cases hremove
    have hne := ne_nil_of_find? hdirectory
    have hsame : SameDirectories fs (fs.erase location) :=
      .of_entry rfl hdirectory (by simp) (find?_erase hne)
    obtain ⟨location', named, hlocate, rfl⟩ := insertPipe_cases h
    have htarget := (hleads.congr hsame).locate.symm.trans hlocate
    cases htarget
    refine ⟨location, hleads, hdirectory, rfl, fun other => ?_⟩
    rw [find?_insert hne, find?_erase hne]
    split <;> rfl
  · split at h
    · rename_i hremove hnotFound
      subst hnotFound
      obtain ⟨location, named, hlocate, rfl⟩ := insertPipe_cases h
      obtain ⟨rfl, hsize, hfind⟩ := missing_of_remove_notFound hlocate hremove
      have hdirectory : fs.find? location ≠ some .directory := by simp [hfind]
      exact ⟨location, ⟨hlocate, hsize⟩, hdirectory, rfl, find?_insert (ne_nil_of_find? hdirectory) _⟩
    · cases h

end BleCapture.FileSystem
