import LslScript.Command.Run
import LslScript.Proofs.CommandLines
import LslScript.Proofs.Resuming
import LslScript.Proofs.Sources

/-!
# Commands and files

What a command does to the files, by its outcome. A command that fails leaves them as they are, but for the
scripts that a batch wrote before the one that it could not write (`run_failed_files`).
-/

namespace LslScript

namespace Failure

def IsOtherCode (code : Text) : Prop := '\n' ∉ code ∧ code ≠ "API_WRITE_FILE".toList

instance (code : Text) : Decidable (IsOtherCode code) := inferInstanceAs (Decidable (_ ∧ _))

theorem isOtherCode_fault (fault : Fault) : IsOtherCode fault.report.code := by
  cases fault with
  | param cause => cases cause <;> exact of_decide_eq_true rfl
  | notBracketed literal raw => cases literal <;> exact of_decide_eq_true rfl
  | notFloat literal part => cases literal <;> exact of_decide_eq_true rfl
  | _ => exact of_decide_eq_true rfl

def IsWrite : Failure → Prop
  | write _ _ => True
  | _ => False

theorem isOtherCode_code {failure : Failure} (h : ¬ failure.IsWrite) : IsOtherCode failure.code := by
  cases failure with
  | write path error => exact absurd trivial h
  | operation index name fault => exact isOtherCode_fault fault
  | _ => exact of_decide_eq_true rfl

theorem newline_not_mem_code (failure : Failure) : '\n' ∉ failure.code := by
  cases failure with
  | write path error => exact of_decide_eq_true rfl
  | operation index name fault => exact (isOtherCode_fault fault).1
  | _ => exact of_decide_eq_true rfl

end Failure

namespace Command

variable {fs fs' : FileSystem} {args : List Text} {c : Command} {recipe path outDir : Text}
  {recipes : List (Text × Recipe)} {scripts : List (Text × Text)} {failure : Failure} {script printed : Text}

def Result.FailsWith (result : Result) (code : Text) : Prop :=
  result.exit = 1 ∧ ∃ rest, result.stdout = "RESULT:ERROR\nERROR_CODE:".toList ++ (code ++ '\n' :: rest)

theorem exists_failureReport (failure : Failure) :
    ∃ rest, failureReport failure = "RESULT:ERROR\nERROR_CODE:".toList ++ (failure.code ++ '\n' :: rest) := by
  have line (rest : Text) : "\n".toList ++ rest = '\n' :: rest := rfl
  unfold failureReport
  rw [List.append_assoc, List.append_assoc, line]
  exact ⟨_, rfl⟩

theorem run_of_ok (ha : ofArguments? args = some c) (h : (c.perform fs).result = .ok printed) :
    (run fs args).exit = 0 ∧ (run fs args).stdout = printed ∧ (run fs args).files = (c.perform fs).files := by
  unfold run
  simp [ha, h]

theorem run_of_error (ha : ofArguments? args = some c) (h : (c.perform fs).result = .error failure) :
    (run fs args).exit = 1 ∧ (run fs args).stdout = failureReport failure ∧
      (run fs args).files = (c.perform fs).files := by
  unfold run
  simp [ha, h]

theorem ok_of_exit (ha : ofArguments? args = some c) (h : (run fs args).exit = 0) :
    ∃ printed, (c.perform fs).result = .ok printed := by
  cases hr : (c.perform fs).result with
  | ok printed => exact ⟨printed, rfl⟩
  | error failure =>
    rw [(run_of_error ha hr).1] at h
    cases h

theorem failsWith_code (ha : ofArguments? args = some c) (h : (c.perform fs).result = .error failure) :
    (run fs args).FailsWith failure.code := by
  obtain ⟨exit, stdout, -⟩ := run_of_error ha h
  obtain ⟨rest, report⟩ := exists_failureReport failure
  exact ⟨exit, rest, stdout.trans report⟩

theorem error_of_failsWith {code : Text} (hc : '\n' ∉ code) (ha : ofArguments? args = some c)
    (h : (run fs args).FailsWith code) :
    ∃ failure, (c.perform fs).result = .error failure ∧ failure.code = code := by
  obtain ⟨exit, rest, stdout⟩ := h
  cases hr : (c.perform fs).result with
  | ok printed =>
    rw [(run_of_ok ha hr).1] at exit
    cases exit
  | error failure =>
    refine ⟨failure, rfl, ?_⟩
    obtain ⟨rest', report⟩ := exists_failureReport failure
    have lines := List.append_cancel_left ((report.symm.trans (run_of_error ha hr).2.1.symm).trans stdout)
    -- the code ends at the first newline on both sides
    have split := congrArg (List.splitOn '\n') lines
    rw [List.splitOn_append_cons_self_of_not_mem failure.newline_not_mem_code,
      List.splitOn_append_cons_self_of_not_mem hc] at split
    exact (List.cons.inj split).1

theorem success_eq : success = "RESULT:OK\n".toList := rfl

theorem written_eq (path : Text) : written path = "SCRIPT_OUT:".toList ++ path ++ "\n".toList := rfl

/-! ## One recipe -/

def scriptOf (fs : FileSystem) (recipe : Text) : Except Failure Text := do (← Recipe.ofFile fs recipe).render.2

theorem runBuild_of_error {out : Option Text} {keep : Bool} (h : scriptOf fs recipe = .error failure) :
    (runBuild fs recipe out keep).result = .error failure ∧ (runBuild fs recipe out keep).files = fs := by
  unfold scriptOf at h
  unfold runBuild
  cases hr : Recipe.ofFile fs recipe with
  | error e =>
    rw [hr] at h
    cases h
    exact ⟨rfl, rfl⟩
  | ok r =>
    rw [hr] at h
    obtain ⟨log, rendered⟩ : ∃ log, r.render = (log, .error failure) := ⟨r.render.1, Prod.ext rfl h⟩
    simp only [rendered, and_self]

theorem rendered_of_scriptOf (h : scriptOf fs recipe = .ok script) :
    ∃ r log, Recipe.ofFile fs recipe = .ok r ∧ r.render = (log, .ok script) :=
  let ⟨r, hr, hs⟩ := bind_ok_iff.mp h
  ⟨r, r.render.1, hr, Prod.ext rfl hs⟩

theorem runBuild_print {keep : Bool} (h : scriptOf fs recipe = .ok script) :
    (runBuild fs recipe none keep).result =
        .ok ("RESULT:OK\n".toList ++ if keep then script else Placeholder.expand script) ∧
      (runBuild fs recipe none keep).files = fs := by
  obtain ⟨r, log, hr, rendered⟩ := rendered_of_scriptOf h
  unfold runBuild
  rw [hr]
  simp only [rendered, success_eq, and_self]

theorem persist_eq (fs : FileSystem) (path script : Text) :
    (persist fs path script).1 = (fs.persist path script).1 ∧
      (persist fs path script).2.2 = (fs.persist path script).2 := by
  unfold persist
  split <;> rename_i h <;> rw [h] <;> exact ⟨rfl, rfl⟩

theorem runBuild_write (path : Text) (keep : Bool) (h : scriptOf fs recipe = .ok script) :
    (runBuild fs recipe (some path) keep).result =
        (fs.persist path script).2.map
          (fun _ => "RESULT:OK\n".toList ++ ("SCRIPT_OUT:".toList ++ path ++ "\n".toList)) ∧
      (runBuild fs recipe (some path) keep).files = (fs.persist path script).1 := by
  obtain ⟨r, log, hr, rendered⟩ := rendered_of_scriptOf h
  obtain ⟨files, result⟩ := persist_eq fs path script
  unfold runBuild
  rw [hr]
  simp only [rendered, success_eq, written_eq]
  exact ⟨congrArg _ result, files⟩

/-! ## All recipes of a directory -/

def scriptPath (outDir stem : Text) : Text := Path.join outDir (stem ++ ".lsl".toList)

abbrev Renders (outDir : Text) : List (Text × Recipe) → List (Text × Text) → Prop :=
  List.Forall₂ fun m s => s.1 = scriptPath outDir m.1 ∧ m.2.render.2 = .ok s.2

theorem renders_renderAll : ∀ {recipes : List (Text × Recipe)} {scripts : List (Text × Text)},
    (renderAll outDir recipes).2 = .ok scripts → Renders outDir recipes scripts
  | [], _, h => by
    cases h
    exact .nil
  | (stem, r) :: rest, scripts, h => by
    unfold renderAll at h
    split at h
    · cases h
    · rename_i log script hr
      simp only at h
      cases hs : (renderAll outDir rest).2 with
      | error failure =>
        rw [hs] at h
        cases h
      | ok others =>
        rw [hs] at h
        cases h
        exact .cons ⟨rfl, congrArg Prod.snd hr⟩ (renders_renderAll hs)

theorem not_isWrite_render {r : Recipe} (h : r.render.2 = .error failure) : ¬ failure.IsWrite := by
  have built : r.build.2.map Draft.document = .error failure := h
  cases hb : r.build.2 with
  | ok d =>
    rw [hb] at built
    cases built
  | error e =>
    rw [hb] at built
    cases built
    obtain ⟨before, op, after, d, fault, -, -, -, rfl⟩ := Operation.exists_refused hb
    exact fun h => h

theorem not_isWrite_renderAll : ∀ {recipes : List (Text × Recipe)},
    (renderAll outDir recipes).2 = .error failure → ¬ failure.IsWrite
  | [], h => by cases h
  | (stem, r) :: rest, h => by
    unfold renderAll at h
    split at h
    · rename_i log failure' hr
      cases h
      exact not_isWrite_render (congrArg Prod.snd hr)
    · simp only at h
      cases hs : (renderAll outDir rest).2 with
      | error failure =>
        rw [hs] at h
        cases h
        exact not_isWrite_renderAll hs
      | ok others =>
        rw [hs] at h
        cases h

theorem not_isWrite_ofFile (h : Recipe.ofFile fs path = .error failure) : ¬ failure.IsWrite := by
  unfold Recipe.ofFile Recipe.parse at h
  split at h
  · cases h
    exact fun h => h
  · split at h
    · cases h
      exact fun h => h
    · split at h
      · cases h
      · cases h
        exact fun h => h

theorem not_isWrite_collect {directory : Text} : ∀ {found : List (Text × Entry)} {known : List (Text × Recipe)},
    Recipe.collect fs directory found known = .error failure → ¬ failure.IsWrite
  | [], known, h => by cases h
  | (path, entry) :: rest, known, h => by
    unfold Recipe.collect at h
    simp only at h
    split at h
    · split at h
      · cases h
        exact fun h => h
      · exact not_isWrite_collect h
    · exact not_isWrite_collect h
    · split at h
      · rename_i hr
        cases h
        exact not_isWrite_ofFile hr
      · exact not_isWrite_collect h

theorem not_isWrite_ofDirectory {directory : Text} (h : Recipe.ofDirectory fs directory = .error failure) :
    ¬ failure.IsWrite := by
  unfold Recipe.ofDirectory at h
  split at h
  · cases h
    exact fun h => h
  · split at h
    · rename_i hc
      cases h
      exact not_isWrite_collect hc
    · cases h
      exact fun h => h
    · cases h

inductive Persists (outDir : Text) : FileSystem → List (Text × Recipe) → FileSystem → Prop
  | nil (fs : FileSystem) : Persists outDir fs [] fs
  | cons {fs fs₁ fs' : FileSystem} {stem script : Text} {r : Recipe} {rest : List (Text × Recipe)} :
    r.render.2 = .ok script → fs.persist (scriptPath outDir stem) script = (fs₁, .ok ()) →
    Persists outDir fs₁ rest fs' → Persists outDir fs ((stem, r) :: rest) fs'

theorem persistAll_cons (fs : FileSystem) (path script : Text) (rest : List (Text × Text)) :
    (persistAll fs ((path, script) :: rest)).1 = (match fs.persist path script with
      | (fs', .ok ()) => (persistAll fs' rest).1
      | (fs', .error _) => fs') ∧
    (persistAll fs ((path, script) :: rest)).2.2 = (match fs.persist path script with
      | (fs', .ok ()) => (persistAll fs' rest).2.2
      | (_, .error failure) => .error failure) := by
  rw [persistAll, persist]
  rcases fs.persist path script with ⟨fs', failure | ⟨⟩⟩
  · exact ⟨rfl, rfl⟩
  · exact ⟨rfl, rfl⟩

theorem persists_persistAll (h : Renders outDir recipes scripts) : ∀ {fs : FileSystem},
    (persistAll fs scripts).2.2 = .ok () → Persists outDir fs recipes (persistAll fs scripts).1 := by
  -- on the scripts, from whatever files the ones before have left
  induction h with
  | nil => exact fun _ => .nil _
  | @cons m s recipes scripts hm _ ih =>
    intro fs h
    obtain ⟨stem, r⟩ := m
    obtain ⟨path, script⟩ := s
    obtain ⟨rfl, hr⟩ := hm
    obtain ⟨files, result⟩ := persistAll_cons fs (scriptPath outDir stem) script scripts
    rcases hp : fs.persist (scriptPath outDir stem) script with ⟨fs₁, failure | ⟨⟩⟩
    · rw [result, hp] at h
      cases h
    · rw [result, hp] at h
      rw [files, hp]
      exact .cons hr hp (ih h)

/-- Where writing the scripts of some recipes fails, those before were written. -/
theorem refused_persistAll (h : Renders outDir recipes scripts) : ∀ {fs : FileSystem},
    (persistAll fs scripts).2.2 = .error failure →
      ∃ before stem r after fs₁ script, recipes = before ++ (stem, r) :: after ∧ Persists outDir fs before fs₁ ∧
        r.render.2 = .ok script ∧
        fs₁.persist (scriptPath outDir stem) script = ((persistAll fs scripts).1, .error failure) := by
  induction h with
  | nil => exact nofun
  | @cons m s recipes scripts hm _ ih =>
    intro fs h
    obtain ⟨stem, r⟩ := m
    obtain ⟨path, script⟩ := s
    obtain ⟨rfl, hr⟩ := hm
    obtain ⟨files, result⟩ := persistAll_cons fs (scriptPath outDir stem) script scripts
    rcases hp : fs.persist (scriptPath outDir stem) script with ⟨fs₁, failure' | ⟨⟩⟩
    · rw [result, hp] at h
      cases h
      refine ⟨[], stem, r, recipes, fs, script, rfl, .nil fs, hr, ?_⟩
      rw [files, hp]
    · rw [result, hp] at h
      obtain ⟨before, stem', r', after, fs₂, script', rfl, hb, hr', hp'⟩ := ih h
      refine ⟨(stem, r) :: before, stem', r', after, fs₂, script', rfl, .cons hr hp hb, hr', ?_⟩
      rw [files, hp, hp']

/-- What a batch prints of the scripts it wrote: a line for each of them between the first and the last. -/
def report (outDir : Text) (stems : List Text) : Text :=
  "RESULT:OK\n".toList ++
    stems.flatMap (fun stem => "SCRIPT_OUT:".toList ++ scriptPath outDir stem ++ "\n".toList) ++
    "SCRIPT_COUNT:".toList ++ Nat.toDigits 10 stems.length ++ "\n".toList

theorem Renders.batchReport_eq (h : Renders outDir recipes scripts) :
    batchReport scripts = report outDir (recipes.map (·.1)) := by
  have lines : scripts.flatMap (fun s => written s.1) = (recipes.map (·.1)).flatMap
      fun stem => "SCRIPT_OUT:".toList ++ scriptPath outDir stem ++ "\n".toList := by
    induction h with
    | nil => rfl
    | cons hm _ ih => rw [List.flatMap_cons, List.map_cons, List.flatMap_cons, ih, hm.1, written_eq]
  unfold batchReport report
  rw [lines, success_eq, List.length_map, h.length_eq, Text.ofNat]

theorem runBatch_ok {recipesDir : Text} (h : (runBatch fs recipesDir outDir).result = .ok printed) :
    ∃ recipes, Recipe.ofDirectory fs recipesDir = .ok recipes ∧
      Persists outDir fs recipes (runBatch fs recipesDir outDir).files ∧
      printed = report outDir (recipes.map (·.1)) := by
  unfold runBatch at h ⊢
  split at h
  · cases h
  · rename_i recipes hd
    split at h
    · cases h
    · rename_i log scripts hs
      have renders : Renders outDir recipes scripts := renders_renderAll (congrArg Prod.snd hs)
      simp only at h
      cases hp : (persistAll fs scripts).2.2 with
      | error failure =>
        rw [hp] at h
        cases h
      | ok =>
        rw [hp] at h
        cases h
        exact ⟨recipes, hd, persists_persistAll renders hp, renders.batchReport_eq⟩

theorem runBatch_error {recipesDir : Text} (h : (runBatch fs recipesDir outDir).result = .error failure) :
    ¬ failure.IsWrite ∧ (runBatch fs recipesDir outDir).files = fs ∨
    ∃ before stem r after fs₁ script, Recipe.ofDirectory fs recipesDir = .ok (before ++ (stem, r) :: after) ∧
      Persists outDir fs before fs₁ ∧ r.render.2 = .ok script ∧
      fs₁.persist (scriptPath outDir stem) script = ((runBatch fs recipesDir outDir).files, .error failure) := by
  unfold runBatch at h ⊢
  split at h
  · rename_i hd
    cases h
    exact .inl ⟨not_isWrite_ofDirectory hd, rfl⟩
  · rename_i recipes hd
    split at h
    · rename_i log failure' hs
      cases h
      exact .inl ⟨not_isWrite_renderAll (congrArg Prod.snd hs), rfl⟩
    · rename_i log scripts hs
      have renders : Renders outDir recipes scripts := renders_renderAll (congrArg Prod.snd hs)
      simp only at h
      -- all recipes are rendered by now, so what fails is the writing of one of the scripts
      cases hp : (persistAll fs scripts).2.2 with
      | error failure' =>
        rw [hp] at h
        cases h
        obtain ⟨before, stem, r, after, fs₁, script, rfl, hb, hr, hf⟩ := refused_persistAll renders hp
        exact .inr ⟨before, stem, r, after, fs₁, script, hd, hb, hr, hf⟩
      | ok =>
        rw [hp] at h
        cases h

/-! ## Failures -/

theorem runBuild_failed {out : Option Text} {keep : Bool}
    (h : (runBuild fs recipe out keep).result = .error failure) :
    (runBuild fs recipe out keep).files = fs ∨
      failure.code = "API_WRITE_FILE".toList ∧ fs.AddsDirectories (runBuild fs recipe out keep).files := by
  cases hs : scriptOf fs recipe with
  | error e => exact .inl (runBuild_of_error hs).2
  | ok script =>
    cases out with
    | none =>
      rw [(runBuild_print hs).1] at h
      cases h
    | some path =>
      obtain ⟨result, files⟩ := runBuild_write path keep hs
      rw [result] at h
      rcases hp : fs.persist path script with ⟨fs', failure' | ⟨⟩⟩
      · rw [hp] at h
        cases h
        obtain ⟨adds, code⟩ := FileSystem.persist_error hp
        rw [files, hp]
        exact .inr ⟨code, adds⟩
      · rw [hp] at h
        cases h

theorem files_of_failed (hexit : (run fs args).exit ≠ 0) (hother : ¬ (run fs args).FailsWith "API_WRITE_FILE") :
    (run fs args).files = fs := by
  cases ha : ofArguments? args with
  | none =>
    unfold run
    rw [ha]
  | some c =>
    cases hr : (c.perform fs).result with
    | ok printed => exact absurd (run_of_ok ha hr).1 hexit
    | error failure =>
      have code : failure.code ≠ "API_WRITE_FILE".toList := by
        intro hc
        exact hother (hc ▸ failsWith_code ha hr)
      rw [(run_of_error ha hr).2.2]
      cases c with
      | build recipe out keep => exact (runBuild_failed hr).resolve_right fun h => code h.1
      | batch recipesDir outDir =>
        rcases runBatch_error hr with ⟨-, files⟩ | ⟨before, stem, r, after, fs₁, script, -, -, -, hp⟩
        · exact files
        · exact absurd (FileSystem.persist_error hp).2 code
      | events json => cases hr

/-- A run that fails leaves the files as they are, unless it fails at writing. If it does, then of a build no
file is changed, and of a batch there are the scripts of the recipes in front of the one it failed at. -/
theorem run_failed_files (fs : FileSystem) (args : List Text) :
    ((run fs args).exit ≠ 0 → ¬ (run fs args).FailsWith "API_WRITE_FILE" → (run fs args).files = fs) ∧
    ((run fs args).FailsWith "API_WRITE_FILE" →
      (∀ recipe out keep, ofArguments? args = some (.build recipe out keep) → fs.SameFiles (run fs args).files) ∧
      ∀ recipesDir outDir, ofArguments? args = some (.batch recipesDir outDir) →
        ∃ before stem r after fs₁ script, Recipe.ofDirectory fs recipesDir = .ok (before ++ (stem, r) :: after) ∧
          ((before ++ (stem, r) :: after).Pairwise fun m n => m.1.bytes < n.1.bytes) ∧
          Persists outDir fs before fs₁ ∧ r.render.2 = .ok script ∧
          (∃ failure, (fs₁.persist (scriptPath outDir stem) script).2 = .error failure) ∧
          fs₁.SameFiles (run fs args).files) := by
  refine ⟨files_of_failed, fun hwrite => ⟨?_, ?_⟩⟩
  · intro recipe out keep ha
    obtain ⟨failure, hr, -⟩ := error_of_failsWith (by decide) ha hwrite
    rw [(run_of_error ha hr).2.2]
    rcases runBuild_failed hr with files | ⟨-, adds⟩
    · rw [show (perform fs (.build recipe out keep)).files = fs from files]
      exact fun _ _ => Iff.rfl
    · exact adds.sameFiles
  · intro recipesDir outDir ha
    obtain ⟨failure, hr, code⟩ := error_of_failsWith (by decide) ha hwrite
    rw [(run_of_error ha hr).2.2]
    rcases runBatch_error hr with ⟨other, -⟩ | ⟨before, stem, r, after, fs₁, script, hd, hb, hs, hp⟩
    · exact absurd code (Failure.isOtherCode_code other).2
    · refine ⟨before, stem, r, after, fs₁, script, hd, (Recipe.ordered_ofDirectory hd).bytes, hb, hs, ?_, ?_⟩
      · exact ⟨failure, by rw [hp]⟩
      · exact (FileSystem.persist_error hp).1.sameFiles

/-- At a second recipe whose script has a directory in its place, and at a recipe that is not there. -/
theorem run_failed_files_second :
    let empty : Text := "\x7b\"schemaVersion\":\"lslgen-recipe.v1\"\x7d"
    let fs : FileSystem := ⟨[(["a.recipe.json"], .file (.text empty)), (["b.recipe.json"], .file (.text empty)),
      (["b.lsl"], .directory)], []⟩
    let batch : List Text := ["batch", "--recipes-dir=.", "--out-dir=."]
    let build : List Text := ["build", "--recipe=a.recipe.json", "--out=b.lsl"]
    let missing : List Text := ["build", "--recipe=c.recipe.json"]
    ((run fs batch).FailsWith "API_WRITE_FILE" ∧ ∃ before stem r after fs₁ script,
      Recipe.ofDirectory fs "." = .ok (before ++ (stem, r) :: after) ∧ Persists "." fs before fs₁ ∧
      r.render.2 = .ok script ∧ fs₁.SameFiles (run fs batch).files) ∧
    ((run fs build).FailsWith "API_WRITE_FILE" ∧ fs.SameFiles (run fs build).files) ∧
    (run fs missing).exit ≠ 0 ∧ (run fs missing).files = fs := by
  intro empty fs batch build missing
  have batchFails : (run fs batch).FailsWith "API_WRITE_FILE" :=
    ⟨by decide +kernel, "ERROR_MSG_JSON:\"Failed to write file ./b.lsl: Is a directory (os error 21)\"\n",
      by decide +kernel⟩
  have buildFails : (run fs build).FailsWith "API_WRITE_FILE" :=
    ⟨by decide +kernel, "ERROR_MSG_JSON:\"Failed to write file b.lsl: Is a directory (os error 21)\"\n",
      by decide +kernel⟩
  have missingFails : ¬ (run fs missing).FailsWith "API_WRITE_FILE" := by
    intro ⟨_, rest, h⟩
    have : "RESULT:ERROR\nERROR_CODE:".toList ++ "API_WRITE_FILE".toList <+: (run fs missing).stdout :=
      ⟨'\n' :: rest, by rw [h, List.append_assoc]⟩
    exact absurd this (by decide +kernel)
  refine ⟨⟨batchFails, ?_⟩, ⟨buildFails, ?_⟩, by decide +kernel, ?_⟩
  · obtain ⟨before, stem, r, after, fs₁, script, hd, -, hb, hs, -, same⟩ :=
      ((run_failed_files fs batch).2 batchFails).2 "." "." (by decide +kernel)
    exact ⟨before, stem, r, after, fs₁, script, hd, hb, hs, same⟩
  · exact ((run_failed_files fs build).2 buildFails).1 "a.recipe.json" (some "b.lsl") false (by decide +kernel)
  · exact (run_failed_files fs missing).1 (by decide +kernel) missingFails

end Command

end LslScript
