import LslScript.Proofs.Places

/-!
# Effects of writing a script

Every place is as it was before, or it holds a directory that was made on the way to the script, or the script
(`FileSystem.persist_effects`). If the script is not written, the directories are all that was added.
-/

namespace LslScript.FileSystem

variable {fs fs' fs'' : FileSystem} {place other : Location} {path : Text} {paths paths' : List Text}

/-- A place holds what it held before, or it was free and holds a directory now, which one of the paths leads to. -/
def KeptOrMade (paths : List Text) (fs fs' : FileSystem) (place : Location) : Prop :=
  fs'.entry? place = fs.entry? place ∨
    fs.entry? place = none ∧ fs'.entry? place = some .directory ∧ ∃ path ∈ paths, fs'.locate path = .ok place

structure Makes (paths : List Text) (fs fs' : FileSystem) : Prop where
  current : fs'.current = fs.current
  places : ∀ place, KeptOrMade paths fs fs' place

theorem KeptOrMade.mono (h : KeptOrMade paths fs fs' place) (hp : ∀ path ∈ paths, path ∈ paths') :
    KeptOrMade paths' fs fs' place := by
  rcases h with same | ⟨free, made, path, hm, hl⟩
  · exact .inl same
  · exact .inr ⟨free, made, path, hp path hm, hl⟩

theorem KeptOrMade.directory (h : KeptOrMade paths fs fs' place) (hd : fs.entry? place = some .directory) :
    fs'.entry? place = some .directory := by
  rcases h with same | ⟨free, -, -⟩
  · rw [same, hd]
  · rw [free] at hd
    cases hd

namespace Makes

theorem refl (paths : List Text) (fs : FileSystem) : Makes paths fs fs := ⟨rfl, fun _ => .inl rfl⟩

theorem mono (h : Makes paths fs fs') (hp : ∀ path ∈ paths, path ∈ paths') : Makes paths' fs fs' :=
  ⟨h.current, fun place => (h.places place).mono hp⟩

theorem toExtends (h : Makes paths fs fs') : Extends fs fs' := ⟨h.current, (h.places _).directory⟩

theorem trans (h : Makes paths fs fs') (h' : Makes paths fs' fs'') : Makes paths fs fs'' := by
  refine ⟨h'.current.trans h.current, fun place => ?_⟩
  rcases h'.places place with same | ⟨free, made, path, hp, hl⟩
  · rcases h.places place with first | ⟨free, made, path, hp, hl⟩
    · exact .inl (same.trans first)
    · -- the second file system still has what leads to the directory
      exact .inr ⟨free, same.trans made, path, hp, h'.toExtends.locate hl⟩
  · rcases h.places place with first | ⟨-, there, -⟩
    · exact .inr ⟨first.symm.trans free, made, path, hp, hl⟩
    · rw [free] at there
      cases there

end Makes

theorem makes_makeDirectory (h : fs.makeDirectory path = .ok fs') : Makes [path] fs fs' := by
  unfold makeDirectory at h
  split at h
  · cases h
  · rename_i place hl
    split at h
    · cases h
    · cases h
    · rename_i hf
      cases h
      have free := (look_eq_ok_iff.mp hf).2
      have root : place ≠ [] := by
        intro he
        rw [he] at free
        cases free
      have stays : Extends fs (fs.set place .directory) := extends_set (by simp [free])
      refine ⟨rfl, fun other => ?_⟩
      by_cases he : other = place
      · subst he
        exact .inr ⟨free, entry?_set_self root, path, by simp, stays.locate hl⟩
      · exact .inl (entry?_set_of_ne he)

theorem makes_ensureDirectory : Makes [path] fs (fs.ensureDirectory path).1 := by
  unfold ensureDirectory
  split
  · rename_i h
    exact makes_makeDirectory h
  · exact .refl _ fs

theorem makes_makeDirectories : ∀ {paths : List Text} {fs : FileSystem}, Makes paths fs (fs.makeDirectories paths).1
  | [], fs => .refl _ fs
  | path :: above, fs => by
    have first : ∀ fs : FileSystem, Makes (path :: above) fs (fs.ensureDirectory path).1 := fun fs =>
      makes_ensureDirectory.mono (by simp)
    have rest : Makes (path :: above) fs (fs.makeDirectories above).1 := by
      apply makes_makeDirectories.mono
      intro other hm
      exact List.mem_cons_of_mem _ hm
    unfold makeDirectories
    split
    · split
      · rename_i h
        rw [h] at rest
        exact rest.trans (first _)
      · exact rest
    · exact first fs

/-! ## Scripts -/

theorem exists_made (fs : FileSystem) (path script : Text) :
    ∃ made, Makes (Path.upwards (Path.directoryOf path)) fs made ∧
      ((∃ failure, fs.persist path script = (made, .error failure)) ∨
        ∃ fs', made.write path (Placeholder.expand script) = .ok fs' ∧ fs.persist path script = (fs', .ok ())) := by
  refine ⟨_, makes_makeDirectories, ?_⟩
  unfold persist
  simp only
  split
  · rename_i h
    rw [h]
    exact .inl ⟨_, rfl⟩
  · rename_i made h
    rw [h]
    cases hw : made.write path (Placeholder.expand script) with
    | error error => exact .inl ⟨_, rfl⟩
    | ok fs' => exact .inr ⟨fs', rfl, rfl⟩

/-- A script that is written stands where its path leads, and it took the place of no directory. Elsewhere only
directories on the way to it are new, and they are all that is new if it is not written. -/
theorem persist_effects (fs : FileSystem) (path script : Text) :
    let above := Path.upwards (Path.directoryOf path)
    match fs.persist path script with
    | (fs', .ok ()) => ∃ place, fs'.locate path = .ok place ∧ fs'.read path = .ok (Placeholder.expand script) ∧
        fs.entry? place ≠ some .directory ∧ ∀ other, other ≠ place → KeptOrMade above fs fs' other
    | (fs', .error _) => ∀ place, KeptOrMade above fs fs' place := by
  intro above
  obtain ⟨made, makes, ⟨failure, h⟩ | ⟨fs', hw, h⟩⟩ := exists_made fs path script
  · rw [h]
    exact makes.places
  · rw [h]
    have read := read_of_write hw
    obtain ⟨place, found, hl, -, hf, hd, rfl⟩ := write_eq_ok_iff.mp hw
    have free : made.entry? place ≠ some .directory := (look_eq_ok_iff.mp hf).2 ▸ hd
    have stays : Extends made (made.set place (.file (.text (Placeholder.expand script)))) := extends_set free
    refine ⟨place, stays.locate hl, read, fun he => free ((makes.places place).directory he), fun other ho => ?_⟩
    have same : entry? (made.set place (.file (.text (Placeholder.expand script)))) other = made.entry? other :=
      entry?_set_of_ne ho
    rcases makes.places other with before | ⟨none, new, directory, hm, leads⟩
    · exact .inl (same.trans before)
    · exact .inr ⟨none, same.trans new, directory, hm, stays.locate leads⟩

example : let fs : FileSystem := ⟨[(["a".toList], .file (.binary [255]))], []⟩
    (fs.persist "b/../c/x.lsl" "f(__dquote__)").1.entries =
      [(["a".toList], .file (.binary [255])), (["b".toList], .directory), (["c".toList], .directory),
        (["c".toList, "x.lsl".toList], .file (.text "f(\")"))] := by decide +kernel

end LslScript.FileSystem
