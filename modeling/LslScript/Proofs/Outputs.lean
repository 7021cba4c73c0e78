import LslScript.Proofs.CommandLines
import LslScript.Proofs.Commands

/-!
# Where scripts come out

A recipe gives the same script on every way: printed, printed with its placeholders, and written to a file.
A batch writes what builds of its recipes write, one after the other, although it reads all recipes first: no
script can take the place of a recipe that is still to be read (`Command.outputs_agree`).
-/

namespace LslScript

namespace Command

variable {fs fs' : FileSystem} {args : List Text} {recipesDir outDir stem script : Text}
  {recipes : List (Text × Recipe)}

def recipePath (recipesDir stem : Text) : Text := Path.join recipesDir (stem ++ ".recipe.json".toList)

theorem getLast?_join {directory path : Text} {c : Char} (h : path.getLast? = some c) :
    (Path.join directory path).getLast? = some c := by
  unfold Path.join
  split
  · exact h
  · split
    · rw [List.getLast?_append, h]
      rfl
    · rw [List.getLast?_append, h]
      rfl

theorem getLast?_scriptPath (outDir stem : Text) : (scriptPath outDir stem).getLast? = some 'l' :=
  getLast?_join (List.getLast?_append.trans rfl)

theorem getLast?_recipePath (recipesDir stem : Text) : (recipePath recipesDir stem).getLast? = some 'n' :=
  getLast?_join (List.getLast?_append.trans rfl)

theorem ofFile_persist {other : Text} {r : Recipe} (h : fs.persist (scriptPath outDir stem) script = (fs', .ok ()))
    (hr : Recipe.ofFile fs (recipePath recipesDir other) = .ok r) :
    Recipe.ofFile fs' (recipePath recipesDir other) = .ok r := by
  obtain ⟨made, adds, hw⟩ := FileSystem.persist_ok h
  unfold Recipe.ofFile at hr ⊢
  cases ht : fs.read (recipePath recipesDir other) with
  | error e =>
    rw [ht] at hr
    cases hr
  | ok t =>
    rw [ht] at hr
    rw [FileSystem.read_of_write_other hw (adds.read ht) (getLast?_scriptPath ..) (getLast?_recipePath ..)
      (by decide) (by decide) (by decide)]
    exact hr

/-! ## One build after the other -/

inductive Builds (recipesDir outDir : Text) : FileSystem → List Text → FileSystem → Prop
  | nil (fs : FileSystem) : Builds recipesDir outDir fs [] fs
  | cons {fs fs' : FileSystem} {stem : Text} {stems : List Text} {result : Result} :
    run fs (arguments (.build (recipePath recipesDir stem) (some (scriptPath outDir stem)) false)) = result →
    result.exit = 0 → Builds recipesDir outDir result.files stems fs' →
    Builds recipesDir outDir fs (stem :: stems) fs'

theorem builds_of_persists (h : Persists outDir fs recipes fs')
    (hr : ∀ m ∈ recipes, Recipe.ofFile fs (recipePath recipesDir m.1) = .ok m.2) :
    Builds recipesDir outDir fs (recipes.map (·.1)) fs' := by
  induction h with
  | nil fs => exact .nil fs
  | @cons fs fs₁ fs' stem script r rest hs hp _ ih =>
    obtain ⟨hr, hrest⟩ := List.forall_mem_cons.mp hr
    have rendered : scriptOf fs (recipePath recipesDir stem) = .ok script := bind_ok_iff.mpr ⟨r, hr, hs⟩
    obtain ⟨result, files⟩ := runBuild_write (scriptPath outDir stem) false rendered
    rw [hp] at result files
    let c : Command := .build (recipePath recipesDir stem) (some (scriptPath outDir stem)) false
    have done : (c.perform fs).result = .ok _ := result
    have after : (c.perform fs).files = fs₁ := files
    obtain ⟨exit, -, final⟩ := run_of_ok (ofArguments?_arguments c) done
    refine .cons rfl exit ?_
    rw [final, after]
    -- the recipes that are left are read from the changed files as they were read before
    exact ih fun m hm => ofFile_persist hp (hrest m hm)

/-! ## All ways -/

theorem scriptOf_of_printed {recipe : Text} {out : Option Text} {keep : Bool}
    (ha : ofArguments? args = some (.build recipe out keep)) (h : (run fs args).exit = 0) :
    ∃ script, scriptOf fs recipe = .ok script := by
  obtain ⟨printed, hr⟩ := ok_of_exit ha h
  cases hs : scriptOf fs recipe with
  | ok script => exact ⟨script, rfl⟩
  | error failure =>
    have failed : (perform fs (.build recipe out keep)).result = .error failure := (runBuild_of_error hs).1
    rw [failed] at hr
    cases hr

theorem stdout_print {recipe : Text} {keep : Bool} (ha : ofArguments? args = some (.build recipe none keep))
    (h : scriptOf fs recipe = .ok script) : (run fs args).exit = 0 ∧
      (run fs args).stdout = "RESULT:OK\n".toList ++ if keep then script else Placeholder.expand script := by
  have done : (perform fs (.build recipe none keep)).result = _ := (runBuild_print h).1
  obtain ⟨exit, stdout, -⟩ := run_of_ok ha done
  exact ⟨exit, stdout⟩

/-- A script is written as it is printed, or the failure to write it is reported. -/
theorem read_written {recipe path : Text} {keep : Bool}
    (ha : ofArguments? args = some (.build recipe (some path) keep)) (h : scriptOf fs recipe = .ok script) :
    (run fs args).FailsWith "API_WRITE_FILE" ∨
      (run fs args).exit = 0 ∧ (run fs args).files.read path = .ok (Placeholder.expand script) := by
  obtain ⟨result, files⟩ := runBuild_write path keep h
  rcases hp : fs.persist path script with ⟨fs', failure | ⟨⟩⟩
  · rw [hp] at result
    have failed : (perform fs (.build recipe (some path) keep)).result = .error failure := result
    exact .inl ((FileSystem.persist_error hp).2 ▸ failsWith_code ha failed)
  · rw [hp] at result files
    have done : (perform fs (.build recipe (some path) keep)).result = .ok _ := result
    have after : (perform fs (.build recipe (some path) keep)).files = fs' := files
    obtain ⟨made, -, hw⟩ := FileSystem.persist_ok hp
    obtain ⟨exit, -, final⟩ := run_of_ok ha done
    rw [final, after]
    exact .inr ⟨exit, FileSystem.read_of_write hw⟩

/-- The recipes of a directory without backslashes are the files whose names end as those of recipes do, and
each is found at the path that its name gives. -/
theorem recipes_of_directory {found : List (Text × Entry)} (hb : fs.below recipesDir = .ok found)
    (hn : ∀ e ∈ found, '\\' ∉ e.1) (h : Recipe.ofDirectory fs recipesDir = .ok recipes) :
    (∀ stem, stem ∈ recipes.map (·.1) ↔
      ∃ contents, (stem ++ ".recipe.json".toList, Entry.file contents) ∈ found) ∧
      ∀ m ∈ recipes, Recipe.ofFile fs (recipePath recipesDir m.1) = .ok m.2 := by
  obtain ⟨found', hb', collected⟩ := Recipe.ofDirectory_ok h
  cases hb.symm.trans hb'
  refine ⟨fun stem => ?_, fun m hm => ?_⟩
  · rw [collected.names stem]
    constructor
    · rintro (hk | ⟨path, contents, hf, hs⟩)
      · cases hk
      · obtain rfl : path = stem ++ Recipe.suffix := (Recipe.stem?_eq_some_iff (hn _ hf)).mp hs
        exact ⟨contents, hf⟩
    · intro ⟨contents, hf⟩
      exact .inr ⟨_, contents, hf, (Recipe.stem?_eq_some_iff (hn _ hf)).mpr rfl⟩
  · rcases collected.read m hm with hk | ⟨path, contents, hf, hs, hr⟩
    · cases hk
    · obtain rfl : path = m.1 ++ Recipe.suffix := (Recipe.stem?_eq_some_iff (hn _ hf)).mp hs
      exact hr

/-- All ways a script may take agree. What a build prints it also prints with its placeholders and writes; what
a batch leaves is what builds of its recipes leave, in the order of their names. -/
theorem outputs_agree (fs : FileSystem) (args : List Text) :
    (∀ recipe text, ofArguments? args = some (.build recipe none false) → (run fs args).exit = 0 →
      (run fs args).stdout = "RESULT:OK\n".toList ++ text →
      (∀ kept, ofArguments? kept = some (.build recipe none true) → ∃ draft, (run fs kept).exit = 0 ∧
        (run fs kept).stdout = "RESULT:OK\n".toList ++ draft ∧ Placeholder.expand draft = text) ∧
      ∀ writing path keep, ofArguments? writing = some (.build recipe (some path) keep) →
        (run fs writing).FailsWith "API_WRITE_FILE" ∨
          (run fs writing).exit = 0 ∧ (run fs writing).files.read path = .ok text) ∧
    (∀ recipesDir outDir, ofArguments? args = some (.batch recipesDir outDir) → (run fs args).exit = 0 →
      (∀ found, fs.below recipesDir = .ok found → ∀ e ∈ found, '\\' ∉ e.1) →
      ∃ found stems, fs.below recipesDir = .ok found ∧
        (∀ stem, stem ∈ stems ↔ ∃ contents, (stem ++ ".recipe.json".toList, Entry.file contents) ∈ found) ∧
        (stems.Pairwise fun a b => a.bytes < b.bytes) ∧
        Builds recipesDir outDir fs stems (run fs args).files ∧
        (run fs args).stdout = report outDir stems) := by
  refine ⟨fun recipe text ha exit stdout => ?_, fun recipesDir outDir ha exit hn => ?_⟩
  · obtain ⟨script, hs⟩ := scriptOf_of_printed ha exit
    have expanded : Placeholder.expand script = text :=
      List.append_cancel_left ((stdout_print ha hs).2.symm.trans stdout)
    refine ⟨fun kept hk => ?_, fun writing path keep hw => ?_⟩
    · obtain ⟨exit, stdout⟩ := stdout_print hk hs
      exact ⟨script, exit, stdout, expanded⟩
    · exact expanded ▸ read_written hw hs
  · obtain ⟨printed, hr⟩ := ok_of_exit ha exit
    obtain ⟨recipes, hd, persists, hp⟩ := runBatch_ok hr
    obtain ⟨found, hb, -⟩ := Recipe.ofDirectory_ok hd
    obtain ⟨names, read⟩ := recipes_of_directory hb (hn found hb) hd
    obtain ⟨-, stdout, files⟩ := run_of_ok ha hr
    refine ⟨found, recipes.map (·.1), hb, names, ?_, ?_, ?_⟩
    · exact List.pairwise_map.mpr (Recipe.ordered_ofDirectory hd).bytes
    · rw [files]
      exact builds_of_persists persists read
    · rw [stdout, hp]

/-- A line with a brace, printed and written over its recipe, and a batch into the directory of its recipes. -/
theorem outputs_agree_over_recipes :
    let recipe : Text := "\x7b\"schemaVersion\":\"lslgen-recipe.v1\",".toList ++
      "\"operations\":[[\"function\",\"f\"],[\"functionLine\",\"f\",\"\x7b\"]]\x7d".toList
    let fs : FileSystem := ⟨[(["d"], .directory), (["d", "b.recipe.json"], .file (.text recipe)),
      (["d", "a.recipe.json"], .file (.text recipe))], []⟩
    let printing : List Text := ["build", "--recipe=d/a.recipe.json"]
    let kept : List Text := ["build", "--recipe=d/a.recipe.json", "--keep-placeholders"]
    let writing : List Text := ["build", "--recipe=d/a.recipe.json", "--out=d/a.recipe.json"]
    let batch : List Text := ["batch", "--recipes-dir=d", "--out-dir=d"]
    let text : Text := "f()\n\x7b\n    \x7b\n\x7d  // End of 'f' function\n\n"
    (run fs printing).stdout = "RESULT:OK\n".toList ++ text ∧
    (∃ draft, (run fs kept).stdout = "RESULT:OK\n".toList ++ draft ∧ Placeholder.expand draft = text) ∧
    ((run fs writing).FailsWith "API_WRITE_FILE" ∨
      (run fs writing).exit = 0 ∧ (run fs writing).files.read "d/a.recipe.json" = .ok text) ∧
    (run fs batch).exit = 0 ∧
    (run fs batch).stdout =
      "RESULT:OK\nSCRIPT_OUT:d/a.lsl\nSCRIPT_OUT:d/b.lsl\nSCRIPT_COUNT:2\n".toList ∧
    ∃ stems, Builds "d" "d" fs stems (run fs batch).files ∧ (run fs batch).stdout = report "d" stems := by
  intro recipe fs printing kept writing batch text
  have exit : (run fs printing).exit = 0 := by decide +kernel
  have stdout : (run fs printing).stdout = "RESULT:OK\n".toList ++ text := by decide +kernel
  have batchExit : (run fs batch).exit = 0 := by decide +kernel
  have names : ∀ found, fs.below "d" = .ok found → ∀ e ∈ found, '\\' ∉ e.1 := by
    intro found h
    cases h
    decide +kernel
  obtain ⟨keeps, writes⟩ := (outputs_agree fs printing).1 "d/a.recipe.json" text (by decide +kernel) exit stdout
  obtain ⟨draft, -, printed, expanded⟩ := keeps kept (by decide +kernel)
  obtain ⟨found, stems, -, -, -, builds, report⟩ :=
    (outputs_agree fs batch).2 "d" "d" (by decide +kernel) batchExit names
  refine ⟨stdout, ⟨draft, printed, expanded⟩, ?_, batchExit, by decide +kernel, stems, builds, report⟩
  exact writes writing "d/a.recipe.json" false (by decide +kernel)

end Command

end LslScript
