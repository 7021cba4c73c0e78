import LslScript.Files.FileSystem
import LslScript.Proofs.Headers

/-!
# Places and changes

A path leads to the same place as long as the directories on its way stay (`Extends.locate`). Making
directories changes no file (`AddsDirectories`), and a written file is read back as it was written
(`read_of_write`).
-/

namespace LslScript.FileSystem

variable {fs fs' fs'' : FileSystem} {place other here next : Location} {entry : Entry} {path t : Text}

theorem lookup_filter_of_ne {l : List (Location × Entry)} (h : other ≠ place) :
    (l.filter (·.1 != place)).lookup other = l.lookup other := by
  induction l with
  | nil => rfl
  | cons e l ih =>
    by_cases he : e.1 = place
    · have : (other == e.1) = false := by rw [beq_eq_false_iff_ne, he]; exact h
      rw [List.filter_cons_of_neg (by simp [he]), ih, List.lookup_cons, this]
    · rw [List.filter_cons_of_pos (by simp [he]), List.lookup_cons, List.lookup_cons, ih]

theorem lookup_filter_self {l : List (Location × Entry)} : (l.filter (·.1 != place)).lookup place = none := by
  induction l with
  | nil => rfl
  | cons e l ih =>
    by_cases he : e.1 = place
    · rw [List.filter_cons_of_neg (by simp [he]), ih]
    · have : (place == e.1) = false := beq_eq_false_iff_ne.mpr fun h => he h.symm
      rw [List.filter_cons_of_pos (by simp [he]), List.lookup_cons, this, ih]

theorem entry?_set_of_ne (h : other ≠ place) : entry? (fs.set place entry) other = fs.entry? other := by
  have : (other == place) = false := beq_eq_false_iff_ne.mpr h
  unfold entry? set
  rw [List.lookup_append, lookup_filter_of_ne h, List.lookup_cons, this]
  simp

theorem entry?_set_self (h : place ≠ []) : entry? (fs.set place entry) place = some entry := by
  unfold entry? set
  rw [List.lookup_append, lookup_filter_self, List.lookup_cons, beq_self_eq_true]
  simp [h]

theorem look_eq_ok_iff {found : Option Entry} : fs.look place = .ok found ↔
    Text.utf8Length (place.getLastD []) ≤ Path.nameLimit ∧ fs.entry? place = found := by
  unfold look
  by_cases h : Path.nameLimit < Text.utf8Length (place.getLastD [])
  · rw [if_pos h]
    exact ⟨nofun, fun ⟨hn, _⟩ => absurd h (Nat.not_lt.mpr hn)⟩
  · rw [if_neg h, Except.ok.injEq]
    exact ⟨fun he => ⟨Nat.not_lt.mp h, he⟩, fun ⟨_, he⟩ => he⟩

structure Extends (fs fs' : FileSystem) : Prop where
  current : fs'.current = fs.current
  directory : ∀ {place}, fs.entry? place = some .directory → fs'.entry? place = some .directory

theorem extends_set (h : fs.entry? place ≠ some .directory) : Extends fs (fs.set place entry) :=
  ⟨rfl, fun {other} hd => by
    by_cases he : other = place
    · exact absurd (he ▸ hd) h
    · rw [entry?_set_of_ne he, hd]⟩

theorem enter_directory {name : Text} (h : fs.enter here name = .ok next) :
    fs.look here = .ok (some .directory) := by
  unfold enter at h
  split at h
  · cases h
  · cases h
  · cases h
  · assumption

theorem enter_name {name : Text} (h : fs.enter here name = .ok next) (hd : name ≠ ['.'])
    (hdd : name ≠ ['.', '.']) : next = here ++ [name] := by
  unfold enter at h
  rw [enter_directory h, if_neg hd, if_neg hdd] at h
  cases h
  rfl

theorem Extends.enter {name : Text} (h : Extends fs fs') (he : fs.enter here name = .ok next) :
    fs'.enter here name = .ok next := by
  have hd := enter_directory he
  obtain ⟨hl, hf⟩ := look_eq_ok_iff.mp hd
  have hd' : fs'.look here = .ok (some .directory) := look_eq_ok_iff.mpr ⟨hl, h.directory hf⟩
  unfold FileSystem.enter at he ⊢
  rw [hd] at he
  rw [hd']
  exact he

theorem Extends.foldlM_enter (h : Extends fs fs') : ∀ {names : List Text} {here : Location},
    names.foldlM fs.enter here = .ok place → names.foldlM fs'.enter here = .ok place
  | [], _, hf => hf
  | name :: names, here, hf => by
    rw [List.foldlM_cons] at hf ⊢
    obtain ⟨next, he, hf⟩ := bind_ok_iff.mp hf
    exact bind_ok_iff.mpr ⟨next, h.enter he, h.foldlM_enter hf⟩

def IsPath (path : Text) : Prop :=
  path.contains '\x00' = false ∧ path.isEmpty = false ∧ Text.utf8Length path ≤ Path.limit

theorem locate_eq_ok_iff : fs.locate path = .ok place ↔ IsPath path ∧
    (Path.names path).foldlM fs.enter (if Path.isAbsolute path then [] else fs.current) = .ok place := by
  unfold locate IsPath
  by_cases hn : path.contains '\x00' = true
  · rw [if_pos hn, hn]
    simp
  · by_cases he : path.isEmpty = true
    · rw [if_neg hn, if_pos he, he]
      simp
    · by_cases hl : Path.limit < Text.utf8Length path
      · rw [if_neg hn, if_neg he, if_pos hl]
        simp [Nat.not_le.mpr hl]
      · rw [if_neg hn, if_neg he, if_neg hl, Bool.eq_false_iff.mpr hn, Bool.eq_false_iff.mpr he]
        simp [Nat.not_lt.mp hl]

theorem Extends.locate (h : Extends fs fs') (hl : fs.locate path = .ok place) : fs'.locate path = .ok place := by
  rw [locate_eq_ok_iff] at hl ⊢
  rw [h.current]
  exact ⟨hl.1, h.foldlM_enter hl.2⟩

/-! ## Reading and writing -/

theorem read_eq_ok_iff : fs.read path = .ok t ↔ ∃ place, fs.locate path = .ok place ∧
    fs.look place = .ok (some (.file (.text t))) ∧ Path.endsInSlash path = false := by
  constructor
  · intro h
    unfold read find at h
    cases hl : fs.locate path with
    | error e => rw [hl] at h; cases h
    | ok place =>
      simp only [hl] at h
      refine ⟨place, rfl, ?_⟩
      split at h
      · cases h
      · cases h
      · cases h
      · rename_i hf
        split at h
        · cases h
        · rename_i hs
          split at h
          · cases h
            exact ⟨hf, Bool.eq_false_iff.mpr hs⟩
          · cases h
  · rintro ⟨place, hl, hf, hs⟩
    simp [read, find, hl, hf, hs]

theorem write_eq_ok_iff : fs.write path t = .ok fs' ↔ ∃ place found, fs.locate path = .ok place ∧
    Path.endsInSlash path = false ∧ fs.look place = .ok found ∧ found ≠ some .directory ∧
    fs' = fs.set place (.file (.text t)) := by
  constructor
  · intro h
    unfold write at h
    cases hl : fs.locate path with
    | error e => rw [hl] at h; cases h
    | ok place =>
      simp only [hl] at h
      split at h
      · cases h
      · rename_i hs
        split at h
        · cases h
        · cases h
        · rename_i found hd hf
          cases h
          exact ⟨place, found, rfl, Bool.eq_false_iff.mpr hs, hf, hd, rfl⟩
  · rintro ⟨place, found, hl, hs, hf, hd, rfl⟩
    simp [write, hl, hf, hs]

theorem read_of_write (h : fs.write path t = .ok fs') : fs'.read path = .ok t := by
  obtain ⟨place, found, hl, hp, hf, hd, rfl⟩ := write_eq_ok_iff.mp h
  obtain ⟨hn, hf⟩ := look_eq_ok_iff.mp hf
  have root : place ≠ [] := by
    intro he
    subst he
    exact hd hf.symm
  have stays : Extends fs (fs.set place (.file (.text t))) := extends_set (hf ▸ hd)
  exact read_eq_ok_iff.mpr ⟨place, stays.locate hl, look_eq_ok_iff.mpr ⟨hn, entry?_set_self root⟩, hp⟩

/-! ## Making directories -/

/-- Nothing is changed but that there may be more directories. -/
structure AddsDirectories (fs fs' : FileSystem) : Prop where
  current : fs'.current = fs.current
  kept : ∀ {place entry}, fs.entry? place = some entry → fs'.entry? place = some entry
  file : ∀ {place contents}, fs'.entry? place = some (.file contents) → fs.entry? place = some (.file contents)

namespace AddsDirectories

theorem refl (fs : FileSystem) : AddsDirectories fs fs := ⟨rfl, fun h => h, fun h => h⟩

theorem trans (h : AddsDirectories fs fs') (h' : AddsDirectories fs' fs'') : AddsDirectories fs fs'' :=
  ⟨h'.current.trans h.current, fun he => h'.kept (h.kept he), fun he => h.file (h'.file he)⟩

theorem toExtends (h : AddsDirectories fs fs') : Extends fs fs' := ⟨h.current, h.kept⟩

theorem set (h : fs.entry? place = none) : AddsDirectories fs (fs.set place .directory) := by
  have root : place ≠ [] := by
    intro he
    rw [he] at h
    cases h
  refine ⟨rfl, fun {other _} he => ?_, fun {other _} he => ?_⟩
  · by_cases ho : other = place
    · rw [ho, h] at he
      cases he
    · rw [entry?_set_of_ne ho, he]
  · by_cases ho : other = place
    · rw [ho, entry?_set_self root] at he
      cases he
    · rwa [entry?_set_of_ne ho] at he

theorem read (h : AddsDirectories fs fs') (hr : fs.read path = .ok t) : fs'.read path = .ok t := by
  obtain ⟨place, hl, hf, hs⟩ := read_eq_ok_iff.mp hr
  obtain ⟨hn, hf⟩ := look_eq_ok_iff.mp hf
  exact read_eq_ok_iff.mpr ⟨place, h.toExtends.locate hl, look_eq_ok_iff.mpr ⟨hn, h.kept hf⟩, hs⟩

end AddsDirectories

theorem addsDirectories_makeDirectory (h : fs.makeDirectory path = .ok fs') : AddsDirectories fs fs' := by
  unfold makeDirectory at h
  split at h
  · cases h
  · split at h
    · cases h
    · cases h
    · rename_i hf
      cases h
      exact .set (look_eq_ok_iff.mp hf).2

theorem addsDirectories_ensureDirectory : AddsDirectories fs (fs.ensureDirectory path).1 := by
  unfold ensureDirectory
  split
  · rename_i h
    exact addsDirectories_makeDirectory h
  · exact .refl fs

theorem addsDirectories_makeDirectories : ∀ {paths : List Text} {fs : FileSystem},
    AddsDirectories fs (fs.makeDirectories paths).1
  | [], fs => .refl fs
  | path :: above, fs => by
    have made : AddsDirectories fs (fs.makeDirectories above).1 := addsDirectories_makeDirectories
    unfold makeDirectories
    split
    · split
      · rename_i h
        rw [h] at made
        exact made.trans addsDirectories_ensureDirectory
      · exact made
    · exact addsDirectories_ensureDirectory

def SameFiles (fs fs' : FileSystem) : Prop :=
  ∀ place contents, fs'.entry? place = some (.file contents) ↔ fs.entry? place = some (.file contents)

theorem AddsDirectories.sameFiles (h : AddsDirectories fs fs') : SameFiles fs fs' := fun _ _ => ⟨h.file, h.kept⟩

/-- What stands behind a path without a slash goes to the last piece. -/
theorem exists_pieces_append : ∀ path : Text, ∃ before last, ∀ behind : Text, '/' ∉ behind →
    Path.pieces (path ++ behind) = before ++ [last ++ behind]
  | [] => ⟨[], [], fun behind h => Text.splitOn_of_not_mem h⟩
  | c :: path => by
    obtain ⟨before, last, h⟩ := exists_pieces_append path
    unfold Path.pieces at h ⊢
    by_cases hc : c = '/'
    · refine ⟨[] :: before, last, fun behind hb => ?_⟩
      rw [List.cons_append, hc, List.splitOn, List.splitOnP_cons_eq_if_modifyHead, if_pos (by simp)]
      exact congrArg ([] :: ·) (h behind hb)
    · simp only [List.splitOn] at h
      have front : ∀ behind : Text, '/' ∉ behind → List.splitOn '/' (c :: path ++ behind) =
          (before ++ [last ++ behind]).modifyHead (c :: ·) := fun behind hb => by
        rw [List.cons_append, List.splitOn, List.splitOnP_cons_eq_if_modifyHead, if_neg (by simp [hc]), h behind hb]
      cases before with
      | nil => exact ⟨[], c :: last, front⟩
      | cons first rest => exact ⟨(c :: first) :: rest, last, front⟩

theorem locate_last {c : Char} (hl : fs.locate path = .ok place) (hc : path.getLast? = some c) (hs : c ≠ '/')
    (hd : c ≠ '.') : ∃ here name, place = here ++ [name ++ [c]] := by
  obtain ⟨front, rfl⟩ := List.getLast?_eq_some_iff.mp hc
  obtain ⟨before, name, hp⟩ := exists_pieces_append front
  replace hp := hp [c] (by simpa using hs.symm)
  have names : Path.names (front ++ [c]) = before.filter (!·.isEmpty) ++ [name ++ [c]] := by
    rw [Path.names, hp, List.filter_append, List.filter_cons_of_pos (by simp), List.filter_nil]
  have walk := (locate_eq_ok_iff.mp hl).2
  rw [names, List.foldlM_append] at walk
  obtain ⟨here, -, walk⟩ := bind_ok_iff.mp walk
  obtain ⟨next, he, walk⟩ := bind_ok_iff.mp walk
  cases walk
  have noDots : ∀ dots : Text, dots.getLast? = some '.' → name ++ [c] ≠ dots := by
    intro dots hdots h
    rw [← h, List.getLast?_concat] at hdots
    exact hd (Option.some_inj.mp hdots)
  exact ⟨here, name, enter_name he (noDots _ rfl) (noDots _ rfl)⟩

/-- A file that is called otherwise is not written to. -/
theorem read_of_write_other {other u : Text} {c d : Char} (hw : fs.write path t = .ok fs')
    (hr : fs.read other = .ok u) (hp : path.getLast? = some c) (ho : other.getLast? = some d) (hne : c ≠ d)
    (hc : c ≠ '/' ∧ c ≠ '.') (hd : d ≠ '/' ∧ d ≠ '.') : fs'.read other = .ok u := by
  obtain ⟨place, found, hl, -, hf, hn, rfl⟩ := write_eq_ok_iff.mp hw
  obtain ⟨place', hl', hf', hs'⟩ := read_eq_ok_iff.mp hr
  obtain ⟨hn', hf'⟩ := look_eq_ok_iff.mp hf'
  -- the last names of both places end in different characters
  have apart : place' ≠ place := by
    intro he
    obtain ⟨here, name, rfl⟩ := locate_last hl hp hc.1 hc.2
    obtain ⟨here', name', rfl⟩ := locate_last hl' ho hd.1 hd.2
    have := (List.append_inj' he rfl).2
    simp [hne.symm] at this
  have stays : Extends fs (fs.set place (.file (.text t))) := extends_set ((look_eq_ok_iff.mp hf).2 ▸ hn)
  refine read_eq_ok_iff.mpr ⟨place', stays.locate hl', look_eq_ok_iff.mpr ⟨hn', ?_⟩, hs'⟩
  rw [entry?_set_of_ne apart, hf']

theorem persist_ok {script : Text} (h : fs.persist path script = (fs', .ok ())) :
    ∃ made, AddsDirectories fs made ∧ made.write path (Placeholder.expand script) = .ok fs' := by
  have made : AddsDirectories fs (fs.makeDirectories (Path.upwards (Path.directoryOf path))).1 :=
    addsDirectories_makeDirectories
  unfold persist at h
  simp only at h
  split at h
  · cases h
  · rename_i hm
    rw [hm] at made
    split at h
    · cases h
    · rename_i hw
      cases h
      exact ⟨_, made, hw⟩

theorem persist_error {script : Text} {failure : Failure} (h : fs.persist path script = (fs', .error failure)) :
    AddsDirectories fs fs' ∧ failure.code = "API_WRITE_FILE" := by
  have made : AddsDirectories fs (fs.makeDirectories (Path.upwards (Path.directoryOf path))).1 :=
    addsDirectories_makeDirectories
  unfold persist at h
  simp only at h
  split at h
  · rename_i hm
    rw [hm] at made
    cases h
    exact ⟨made, rfl⟩
  · rename_i hm
    rw [hm] at made
    split at h
    · cases h
      exact ⟨made, rfl⟩
    · cases h

end LslScript.FileSystem
