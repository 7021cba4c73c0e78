import LslScript.Proofs.Outputs
import Mathlib.Data.List.Dedup
import Mathlib.Data.List.Nodup

/-!
# Where the scripts of a batch stand

Names that are found below a directory lead further down, and so do the names of the scripts that are made of
them. So a batch writes as many scripts as there are recipes, all of them below the directory for scripts, if
no recipe has a backslash in its path (`Command.batch_places`). A backslash becomes a slash in the path of the
script, which may then be that of another script, or lead out of the directory.
-/

namespace LslScript

namespace Path
variable {path directory : Text}

def IsName (name : Text) : Prop := name ≠ [] ∧ '/' ∉ name ∧ name ≠ ['.'] ∧ name ≠ ['.', '.']

instance (name : Text) : Decidable (IsName name) := inferInstanceAs (Decidable (_ ∧ _))

def IsInner (path : Text) : Prop := ∀ name ∈ pieces path, IsName name

theorem IsInner.names_eq (h : IsInner path) : names path = pieces path :=
  List.filter_eq_self.mpr fun name hn => by simp [(h name hn).1]

theorem IsInner.names_ne_nil (h : IsInner path) : names path ≠ [] := by
  rw [h.names_eq]
  exact List.splitOn_ne_nil '/' path

theorem IsInner.isAbsolute_eq (h : IsInner path) : isAbsolute path = false := by
  rw [isAbsolute, Text.startsWith, Bool.eq_false_iff]
  intro absolute
  obtain ⟨rest, rfl⟩ := List.isPrefixOf_iff_prefix.mp absolute
  have first : pieces ("/".toList ++ rest) = [] :: pieces rest := List.splitOn_append_cons_self [] rest
  exact (h [] (first ▸ List.mem_cons_self ..)).1 rfl

/-- Of a path of names, what is put behind the last one makes another name, unless it ends in a dot. -/
theorem IsInner.append {stem u v : Text} {c : Char} (h : IsInner (stem ++ u)) (hu : '/' ∉ u) (hv : '/' ∉ v)
    (hc : v.getLast? = some c) (hd : c ≠ '.') : IsInner (stem ++ v) := by
  obtain ⟨before, last, hp⟩ := FileSystem.exists_pieces_append stem
  have slashless : '/' ∉ last := by
    have := (h _ (hp u hu ▸ List.mem_append_right _ (List.mem_singleton_self _))).2.1
    exact fun hs => this (List.mem_append_left _ hs)
  have ends : (last ++ v).getLast? = some c := by rw [List.getLast?_append, hc]; rfl
  intro name hn
  rw [hp v hv] at hn
  rcases List.mem_append.mp hn with hn | hn
  · exact h name (hp u hu ▸ List.mem_append_left _ hn)
  · rw [List.mem_singleton.mp hn]
    refine ⟨fun he => ?_, by simp [slashless, hv], fun he => ?_, fun he => ?_⟩
    · rw [he] at ends
      cases ends
    · rw [he] at ends
      exact hd (Option.some_inj.mp ends).symm
    · rw [he] at ends
      exact hd (Option.some_inj.mp ends).symm

theorem names_slash (a b : Text) : names (a ++ '/' :: b) = names a ++ names b := by
  rw [names, names, names, pieces, List.splitOn_append_cons_self, List.filter_append]
  rfl

theorem endsInSlash_iff : endsInSlash path = true ↔ ∃ front, path = front ++ ['/'] := by
  rw [endsInSlash, Option.isSome_iff_exists]
  refine exists_congr fun front => ?_
  rw [Text.before?, List.isSuffixOf?_eq_some_iff_append_eq]
  exact eq_comm

theorem names_join (h : isAbsolute path = false) : names (join directory path) = names directory ++ names path := by
  unfold join
  rw [h, Bool.false_or]
  by_cases hd : directory = []
  · subst hd
    rfl
  rw [if_neg (by simpa using hd)]
  by_cases slash : endsInSlash directory = true
  · obtain ⟨front, rfl⟩ := endsInSlash_iff.mp slash
    rw [if_pos slash, List.append_assoc, List.singleton_append, names_slash, names_slash]
    simp [names, pieces]
  · rw [if_neg slash, List.append_assoc]
    exact names_slash directory path

theorem exists_join (h : isAbsolute path = false) (hd : directory ≠ []) :
    ∃ behind, join directory path = directory ++ behind := by
  unfold join
  rw [h, Bool.false_or, if_neg (by simpa using hd)]
  split
  · exact ⟨path, rfl⟩
  · exact ⟨"/".toList ++ path, List.append_assoc ..⟩

theorem isAbsolute_append (hd : directory ≠ []) (behind : Text) :
    isAbsolute (directory ++ behind) = isAbsolute directory := by
  obtain ⟨c, directory, rfl⟩ := List.exists_cons_of_ne_nil hd
  simp [isAbsolute, Text.startsWith, List.isPrefixOf]

end Path

/-! ## Walking down -/

theorem Text.utf8Length_le_append (t u : Text) : utf8Length t ≤ utf8Length (t ++ u) := by
  have grows : ∀ (u : Text) (n : Nat), n ≤ u.foldl (fun n c => n + c.utf8Size) n := by
    intro u
    induction u with
    | nil => exact fun n => le_rfl
    | cons c u ih => exact fun n => le_trans (Nat.le_add_right ..) (ih _)
  rw [utf8Length, utf8Length, List.foldl_append]
  exact grows u _

namespace FileSystem
variable {fs fs' : FileSystem} {here place base : Location} {path directory script : Text}

theorem foldlM_enter_names : ∀ {names : List Text} {here : Location}, (∀ name ∈ names, Path.IsName name) →
    names.foldlM fs.enter here = .ok place → place = here ++ names
  | [], here, _, h => by
    cases h
    simp
  | name :: names, here, hn, h => by
    obtain ⟨⟨-, -, dot, dots⟩, rest⟩ := List.forall_mem_cons.mp hn
    rw [List.foldlM_cons] at h
    obtain ⟨next, he, h⟩ := bind_ok_iff.mp h
    rw [foldlM_enter_names rest h, enter_name he dot dots, List.append_assoc, List.singleton_append]

/-- The directory that paths are joined to: the current one if nothing is in front of them. -/
def directoryPath (directory : Text) : Text := if directory.isEmpty then ['.'] else directory

theorem locate_current (h : fs.look fs.current = .ok (some .directory)) : fs.locate ['.'] = .ok fs.current := by
  refine locate_eq_ok_iff.mpr ⟨⟨by decide, by decide, by decide⟩, ?_⟩
  have names : Path.names ['.'] = [['.']] := by decide
  have relative : Path.isAbsolute ['.'] = false := by decide
  rw [names, relative, if_neg Bool.false_ne_true, List.foldlM_cons]
  exact bind_ok_iff.mpr ⟨fs.current, by rw [enter, h]; rfl, rfl⟩

/-- A path that leads further down stays below the directory it is joined to. -/
theorem locate_join (hp : Path.IsInner path) (h : fs.locate (Path.join directory path) = .ok place) :
    ∃ base, fs.locate (directoryPath directory) = .ok base ∧ place = base ++ Path.names path := by
  obtain ⟨isPath, walk⟩ := locate_eq_ok_iff.mp h
  have inner : ∀ name ∈ Path.names path, Path.IsName name := by
    rw [hp.names_eq]
    exact hp
  rw [Path.names_join hp.isAbsolute_eq, List.foldlM_append] at walk
  obtain ⟨base, front, walk⟩ := bind_ok_iff.mp walk
  refine ⟨base, ?_, foldlM_enter_names inner walk⟩
  -- without a directory the walk starts where the path itself starts
  by_cases hd : directory = []
  · subst hd
    have relative : Path.isAbsolute (Path.join [] path) = false := by
      rw [Path.join, hp.isAbsolute_eq]
      exact hp.isAbsolute_eq
    rw [relative] at front
    cases front
    obtain ⟨name, names, hn⟩ := List.exists_cons_of_ne_nil hp.names_ne_nil
    rw [hn, List.foldlM_cons] at walk
    obtain ⟨next, he, -⟩ := bind_ok_iff.mp walk
    exact locate_current (enter_directory he)
  · obtain ⟨behind, joined⟩ := Path.exists_join hp.isAbsolute_eq hd
    rw [joined] at isPath front
    rw [Path.isAbsolute_append hd] at front
    have whole : directoryPath directory = directory := if_neg (by simpa using hd)
    obtain ⟨nul, -, short⟩ := isPath
    rw [whole]
    refine locate_eq_ok_iff.mpr ⟨⟨?_, by simpa using hd, le_trans (Text.utf8Length_le_append ..) short⟩, front⟩
    simp only [List.contains_eq_mem, List.mem_append, decide_eq_false_iff_not, not_or] at nul ⊢
    exact nul.1

structure Listed (fs : FileSystem) : Prop where
  nodup : (fs.entries.map (·.1)).Nodup
  names : ∀ e ∈ fs.entries, ∀ name ∈ e.1, Path.IsName name

theorem mem_under {e : Text × Entry} : e ∈ fs.under place ↔ ∃ name names,
    (place ++ name :: names, e.2) ∈ fs.entries ∧ e.1 = List.intercalate "/".toList (name :: names) := by
  rw [under, List.mem_filterMap]
  constructor
  · intro ⟨⟨found, entry⟩, hm, h⟩
    simp only at h
    split at h
    · rename_i name names hp
      cases h
      exact ⟨name, names, (List.isPrefixOf?_eq_some_iff_append_eq.mp hp).symm ▸ hm, rfl⟩
    · cases h
  · intro ⟨name, names, hm, hp⟩
    have front : place.isPrefixOf? (place ++ name :: names) = some (name :: names) :=
      List.isPrefixOf?_eq_some_iff_append_eq.mpr rfl
    refine ⟨_, hm, ?_⟩
    simp only [front, ← hp]

theorem Listed.pieces_intercalate (h : fs.Listed) {name : Text} {names : List Text} {entry : Entry}
    (he : (place ++ name :: names, entry) ∈ fs.entries) :
    Path.pieces (List.intercalate "/".toList (name :: names)) = name :: names := by
  refine List.splitOn_intercalate '/' (fun n hn => ?_) (List.cons_ne_nil name names)
  exact (h.names _ he n (List.mem_append_right _ hn)).2.1

theorem Listed.isInner (h : fs.Listed) {e : Text × Entry} (he : e ∈ fs.under place) : Path.IsInner e.1 := by
  obtain ⟨name, names, hm, hp⟩ := mem_under.mp he
  intro n hn
  rw [hp, h.pieces_intercalate hm] at hn
  exact h.names _ hm n (List.mem_append_right _ hn)

/-- Paths from one place tell apart what they lead to. -/
theorem Listed.pairwise_under (h : fs.Listed) (place : Location) : (fs.under place).Pairwise (·.1 ≠ ·.1) := by
  have apart := List.pairwise_map.mp h.nodup
  rw [under, List.pairwise_filterMap]
  refine apart.imp_of_mem fun {a b} ha hb hne e he e' he' hp => hne ?_
  obtain ⟨place₁, entry⟩ := a
  obtain ⟨place₂, entry'⟩ := b
  simp only at he he'
  split at he
  · rename_i name names hf
    split at he'
    · rename_i name' names' hf'
      cases he
      cases he'
      -- entries with one path below `place` stand at one location, which is listed once
      rw [List.isPrefixOf?_eq_some_iff_append_eq] at hf hf'
      subst hf
      subst hf'
      have same := congrArg Path.pieces hp
      rw [h.pieces_intercalate ha, h.pieces_intercalate hb] at same
      exact congrArg (place ++ ·) same
    · cases he'
  · cases he

theorem Listed.below {found : List (Text × Entry)} (h : fs.Listed) (hb : fs.below path = .ok found) :
    (∀ e ∈ found, Path.IsInner e.1) ∧ found.Pairwise (·.1 ≠ ·.1) := by
  unfold FileSystem.below at hb
  split at hb
  · cases hb
  · split at hb
    · cases hb
    · cases hb
    · split at hb
      · cases hb
      · cases hb
        exact ⟨nofun, .nil⟩
    · cases hb
      exact ⟨fun e he => h.isInner he, h.pairwise_under _⟩

/-! ## What writing keeps -/

def HoldsText (fs : FileSystem) (place : Location) : Prop := ∃ t, fs.entry? place = some (.file (.text t))

/-- Directories stay, and so do files with a text, though perhaps with another text. -/
structure Keeps (fs fs' : FileSystem) : Prop extends Extends fs fs' where
  text : ∀ {place}, fs.HoldsText place → fs'.HoldsText place

theorem Keeps.refl (fs : FileSystem) : Keeps fs fs := ⟨⟨rfl, fun h => h⟩, fun h => h⟩

theorem Keeps.trans {fs'' : FileSystem} (h : Keeps fs fs') (h' : Keeps fs' fs'') : Keeps fs fs'' :=
  ⟨⟨h'.current.trans h.current, fun hd => h'.directory (h.directory hd)⟩, fun ht => h'.text (h.text ht)⟩

theorem AddsDirectories.keeps (h : AddsDirectories fs fs') : Keeps fs fs' :=
  ⟨h.toExtends, fun ⟨t, ht⟩ => ⟨t, h.kept ht⟩⟩

structure WritesAt (place : Location) (fs fs' : FileSystem) : Prop where
  keeps : Keeps fs fs'
  text : fs'.HoldsText place
  other : ∀ {other contents}, fs'.entry? other = some (.file contents) →
    other = place ∨ fs.entry? other = some (.file contents)

theorem writesAt_write {t : Text} (h : fs.write path t = .ok fs') :
    ∃ place, fs'.locate path = .ok place ∧ WritesAt place fs fs' := by
  obtain ⟨place, found, hl, -, hf, hd, rfl⟩ := write_eq_ok_iff.mp h
  have free : fs.entry? place ≠ some .directory := (look_eq_ok_iff.mp hf).2 ▸ hd
  have root : place ≠ [] := by
    intro he
    rw [he] at free
    exact free rfl
  have stays : Extends fs (fs.set place (.file (.text t))) := extends_set free
  have new : (fs.set place (.file (.text t))).HoldsText place := ⟨t, entry?_set_self root⟩
  refine ⟨place, stays.locate hl, ⟨stays, fun {other} ho => ?_⟩, new, fun {other contents} ho => ?_⟩
  · by_cases he : other = place
    · exact he ▸ new
    · obtain ⟨u, hu⟩ := ho
      exact ⟨u, by rw [entry?_set_of_ne he, hu]⟩
  · by_cases he : other = place
    · exact .inl he
    · rw [entry?_set_of_ne he] at ho
      exact .inr ho

theorem writesAt_persist (h : fs.persist path script = (fs', .ok ())) :
    ∃ place, fs'.locate path = .ok place ∧ WritesAt place fs fs' := by
  obtain ⟨made, adds, hw⟩ := persist_ok h
  obtain ⟨place, hl, writes⟩ := writesAt_write hw
  exact ⟨place, hl, adds.keeps.trans writes.keeps, writes.text, fun ho => (writes.other ho).imp_right adds.file⟩

end FileSystem

/-! ## Recipes below a directory -/

namespace Recipe
variable {fs : FileSystem} {directory path stem : Text} {recipes : List (Text × Recipe)}
  {found : List (Text × Entry)}

def paths (found : List (Text × Entry)) : List Text :=
  found.filterMap fun (path, entry) =>
    match entry with
    | .directory => none
    | .file _ => if suffix <:+ path then some path else none

theorem mem_paths : path ∈ paths found ↔ suffix <:+ path ∧ ∃ contents, (path, Entry.file contents) ∈ found := by
  rw [paths, List.mem_filterMap]
  constructor
  · intro ⟨⟨other, entry⟩, hm, h⟩
    cases entry with
    | directory => cases h
    | file contents =>
      simp only [Option.ite_none_right_eq_some, Option.some.injEq] at h
      obtain ⟨hs, rfl⟩ := h
      exact ⟨hs, contents, hm⟩
  · intro ⟨hs, contents, hm⟩
    exact ⟨_, hm, if_pos hs⟩

theorem nodup_paths (h : found.Pairwise (·.1 ≠ ·.1)) : (paths found).Nodup := by
  rw [List.Nodup, paths, List.pairwise_filterMap]
  refine h.imp fun {a b} hne path ha path' hb => ?_
  obtain ⟨path₁, entry⟩ := a
  obtain ⟨path₂, entry'⟩ := b
  cases entry with
  | directory => cases ha
  | file contents =>
    cases entry' with
    | directory => cases hb
    | file contents' =>
      simp only [Option.ite_none_right_eq_some, Option.some.injEq] at ha hb
      rw [← ha.2, ← hb.2]
      exact hne

theorem suffix_of_stem? (h : stem? path = some stem) : suffix <:+ path := by
  rw [stem?, Text.before?, List.isSuffixOf?_eq_some_iff_append_eq] at h
  obtain ⟨front, last, rfl, -, hl⟩ := List.map_eq_append_iff.mp h.symm
  have noSlash : '/' ∉ suffix := by decide
  have kept : ∀ c ∈ last, (if c = '\\' then '/' else c) = c := by
    intro c hc
    refine if_neg fun he => noSlash ?_
    rw [← hl, List.mem_map]
    exact ⟨c, hc, if_pos he⟩
  rw [List.map_congr_left kept, List.map_id'] at hl
  exact ⟨front, hl ▸ rfl⟩

/-- Without backslashes each recipe that is found has a name of its own. -/
theorem Collected.perm_paths (h : Collected fs directory found [] recipes) (hf : found.Pairwise (·.1 ≠ ·.1))
    (hn : ∀ path ∈ paths found, '\\' ∉ path) : (recipes.map fun m => m.1 ++ suffix).Perm (paths found) := by
  have names : (recipes.map (·.1)).Nodup :=
    List.pairwise_map.mpr ((h.ordered .nil).imp fun lt => ne_of_lt lt)
  have left : (recipes.map fun m => m.1 ++ suffix).Nodup := by
    have := names.map (f := (· ++ suffix)) fun a b hab => List.append_cancel_right hab
    rwa [List.map_map] at this
  refine (List.perm_ext_iff_of_nodup left (nodup_paths hf)).mpr fun path => ?_
  rw [List.mem_map]
  constructor
  · intro ⟨m, hm, hp⟩
    rcases (h.names m.1).mp (List.mem_map_of_mem hm) with hk | ⟨path', contents, hf, hs⟩
    · cases hk
    · have among : path' ∈ paths found := mem_paths.mpr ⟨suffix_of_stem? hs, contents, hf⟩
      rw [← hp, ← (stem?_eq_some_iff (hn path' among)).mp hs]
      exact among
  · intro hp
    obtain ⟨⟨stem, rfl⟩, contents, hf⟩ := mem_paths.mp hp
    have hs := (stem?_eq_some_iff (hn _ hp)).mpr rfl
    obtain ⟨m, hm, rfl⟩ := List.mem_map.mp ((h.names stem).mpr (.inr ⟨_, contents, hf, hs⟩))
    exact ⟨m, hm, rfl⟩

theorem ofDirectory_ne_nil (h : ofDirectory fs directory = .ok recipes) : recipes ≠ [] := by
  unfold ofDirectory at h
  split at h
  · cases h
  · split at h
    · cases h
    · cases h
    · rename_i hne hc
      cases h
      exact hne

end Recipe

def LogRecord.script? : LogRecord → Option Text
  | wrote path => some path
  | _ => none

theorem Operation.script?_apply {op : Operation} {d d' : Draft} {log : List LogRecord}
    (h : op.apply d = .ok (log, d')) : ∀ r ∈ log, r.script? = none := by
  have empty : ∀ {α : Type} {x : Except Fault α} {f : α → Draft},
      (do return ([], f (← x)) : Except Fault (List LogRecord × Draft)) = .ok (log, d') → log = [] := by
    intro α x f h
    obtain ⟨y, -, h⟩ := bind_ok_iff.mp h
    cases h
    rfl
  cases op with
  | event state e params =>
    obtain ⟨name, ps, written, -, -, -, hlog⟩ := Draft.registerEvent_ok h
    rw [hlog]
    split
    · decide
    · exact nofun
  | eventLine state e line =>
    rw [empty h]
    exact nofun
  | call state e spec =>
    obtain ⟨c, -, h⟩ := bind_ok_iff.mp h
    rw [empty h]
    exact nofun
  | function name groups =>
    rw [empty h]
    exact nofun
  | functionLine name line =>
    rw [empty h]
    exact nofun
  | functionBlankLine name =>
    rw [empty h]
    exact nofun

theorem Operation.script?_applyFrom : ∀ {ops : List Operation} {i : Nat} {d : Draft},
    ∀ r ∈ (applyFrom i d ops).1, r.script? = none
  | [], _, _, _, h => absurd h List.not_mem_nil
  | op :: ops, i, d, r, h => by
    unfold applyFrom at h
    split at h
    · cases h
    · rename_i ha
      rcases List.mem_append.mp h with h | h
      · exact script?_apply ha r h
      · rcases List.mem_cons.mp h with rfl | h
        · rfl
        · exact script?_applyFrom r h

namespace Command
variable {fs fs' : FileSystem} {args : List Text} {recipesDir outDir printed : Text}
  {recipes : List (Text × Recipe)} {scripts : List (Text × Text)}

def Result.scriptPaths (result : Result) : List Text := result.log.filterMap LogRecord.script?

theorem log_of_ok {c : Command} (ha : ofArguments? args = some c) (h : (c.perform fs).result = .ok printed) :
    (run fs args).log = (c.perform fs).log := by
  unfold run
  simp [ha, h]

theorem script?_renderAll : ∀ {recipes : List (Text × Recipe)}, ∀ r ∈ (renderAll outDir recipes).1, r.script? = none
  | [], _, h => absurd h List.not_mem_nil
  | (stem, recipe) :: rest, r, h => by
    have built : ∀ r ∈ recipe.render.1, r.script? = none := fun _ hr => Operation.script?_applyFrom _ hr
    unfold renderAll at h
    split at h
    · rename_i hr
      exact built r (by rw [hr]; exact h)
    · rename_i hr
      rcases List.mem_append.mp h with h | h
      · exact built r (by rw [hr]; exact h)
      · exact script?_renderAll r h

theorem log_persistAll : ∀ {scripts : List (Text × Text)} {fs : FileSystem},
    (persistAll fs scripts).2.2 = .ok () → (persistAll fs scripts).2.1 = scripts.map (.wrote ·.1)
  | [], _, _ => rfl
  | (path, script) :: rest, fs, h => by
    unfold persistAll persist at h ⊢
    rcases hp : fs.persist path script with ⟨fs', failure | ⟨⟩⟩
    · rw [hp] at h
      cases h
    · rw [hp] at h
      simp only at h ⊢
      rw [log_persistAll h]
      rfl

theorem Renders.paths_eq (h : Renders outDir recipes scripts) :
    scripts.map (·.1) = recipes.map fun m => scriptPath outDir m.1 := by
  induction h with
  | nil => rfl
  | cons hm _ ih => rw [List.map_cons, List.map_cons, ih, hm.1]

/-- A batch that succeeds writes one script after the other, one for each recipe. -/
theorem runBatch_scripts (h : (runBatch fs recipesDir outDir).result = .ok printed)
    (hd : Recipe.ofDirectory fs recipesDir = .ok recipes) :
    (runBatch fs recipesDir outDir).log.filterMap LogRecord.script? =
      recipes.map fun m => scriptPath outDir m.1 := by
  unfold runBatch at h ⊢
  rw [hd] at h ⊢
  simp only at h ⊢
  split at h
  · cases h
  · rename_i log scripts hs
    have renders : Renders outDir recipes scripts := renders_renderAll (congrArg Prod.snd hs)
    have silent : ∀ r ∈ log, r.script? = none := fun r hr => script?_renderAll r (by rw [hs]; exact hr)
    simp only at h
    cases hp : (persistAll fs scripts).2.2 with
    | error failure =>
      rw [hp] at h
      cases h
    | ok =>
      simp only
      rw [log_persistAll hp, List.filterMap_append, List.filterMap_eq_nil_iff.mpr silent, List.nil_append,
        List.filterMap_map, ← renders.paths_eq]
      exact congrFun (List.filterMap_eq_map (f := Prod.fst)) scripts

theorem Persists.keeps (h : Persists outDir fs recipes fs') : fs.Keeps fs' := by
  induction h with
  | nil fs => exact .refl fs
  | cons _ hp _ ih =>
    obtain ⟨place, -, writes⟩ := FileSystem.writesAt_persist hp
    exact writes.keeps.trans ih

theorem Persists.located (h : Persists outDir fs recipes fs') : ∀ m ∈ recipes, ∃ place,
    fs'.locate (scriptPath outDir m.1) = .ok place ∧ fs'.HoldsText place := by
  induction h with
  | nil fs => exact nofun
  | @cons fs fs₁ fs' stem script r rest hs hp hrest ih =>
    obtain ⟨place, hl, writes⟩ := FileSystem.writesAt_persist hp
    have here := hrest.keeps.toExtends.locate hl
    exact List.forall_mem_cons.mpr ⟨⟨place, here, hrest.keeps.text writes.text⟩, ih⟩

/-- Every file is one of the scripts or was there before. -/
theorem Persists.script_or_old {place : Location} {contents : Contents} (h : Persists outDir fs recipes fs')
    (hf : fs'.entry? place = some (.file contents)) :
    (∃ m ∈ recipes, fs'.locate (scriptPath outDir m.1) = .ok place) ∨ fs.entry? place = some (.file contents) := by
  induction h with
  | nil fs => exact .inr hf
  | @cons fs fs₁ fs' stem script r rest hs hp hrest ih =>
    obtain ⟨place', hl, writes⟩ := FileSystem.writesAt_persist hp
    rcases ih hf with ⟨m, hm, hl'⟩ | before
    · exact .inl ⟨m, List.mem_cons_of_mem _ hm, hl'⟩
    · rcases writes.other before with rfl | old
      · exact .inl ⟨(stem, r), List.mem_cons_self .., hrest.keeps.toExtends.locate hl⟩
      · exact .inr old

def scriptNames (stem : Text) : List Text := Path.names (stem ++ ".lsl".toList)

theorem isInner_script {stem : Text} (h : Path.IsInner (stem ++ Recipe.suffix)) :
    Path.IsInner (stem ++ ".lsl".toList) :=
  h.append (by decide) (by decide) (c := 'l') (by decide) (by decide)

theorem scriptNames_inj {stem stem' : Text} (h : Path.IsInner (stem ++ Recipe.suffix))
    (h' : Path.IsInner (stem' ++ Recipe.suffix)) (he : scriptNames stem = scriptNames stem') : stem = stem' := by
  rw [scriptNames, scriptNames, (isInner_script h).names_eq, (isInner_script h').names_eq] at he
  have same := congrArg (List.intercalate ['/']) he
  rw [Path.pieces, Path.pieces, List.intercalate_splitOn, List.intercalate_splitOn] at same
  exact List.append_cancel_right same

theorem Persists.located_below (h : Persists outDir fs recipes fs') (hne : recipes ≠ [])
    (hi : ∀ m ∈ recipes, Path.IsInner (m.1 ++ Recipe.suffix)) :
    ∃ base, fs'.locate (FileSystem.directoryPath outDir) = .ok base ∧ ∀ m ∈ recipes,
      fs'.locate (scriptPath outDir m.1) = .ok (base ++ scriptNames m.1) ∧
        fs'.HoldsText (base ++ scriptNames m.1) := by
  have each : ∀ m ∈ recipes, ∃ base, fs'.locate (FileSystem.directoryPath outDir) = .ok base ∧
      fs'.locate (scriptPath outDir m.1) = .ok (base ++ scriptNames m.1) ∧
        fs'.HoldsText (base ++ scriptNames m.1) := by
    intro m hm
    obtain ⟨place, hl, ht⟩ := h.located m hm
    obtain ⟨base, hb, rfl⟩ := FileSystem.locate_join (isInner_script (hi m hm)) hl
    exact ⟨base, hb, hl, ht⟩
  obtain ⟨m, hm⟩ := List.exists_mem_of_ne_nil recipes hne
  obtain ⟨base, hb, -⟩ := each m hm
  refine ⟨base, hb, fun m hm => ?_⟩
  obtain ⟨base', hb', located⟩ := each m hm
  cases hb.symm.trans hb'
  exact located

/-! ## Batches -/

/-- The files that were written are as many as the recipes below a directory. -/
def Result.OneScriptEach (result : Result) (fs : FileSystem) (recipesDir : Text) : Prop :=
  ∃ found places, fs.below recipesDir = .ok found ∧
    List.Forall₂ (fun path place => result.files.locate path = .ok place ∧ result.files.HoldsText place)
      result.scriptPaths places ∧
    places.dedup.length = (Recipe.paths found).length

/-- The files that were written are all below a directory, and no file elsewhere is new or changed. -/
def Result.ScriptsBelow (result : Result) (fs : FileSystem) (outDir : Text) : Prop :=
  ∃ base, result.files.locate (FileSystem.directoryPath outDir) = .ok base ∧
    (∀ path ∈ result.scriptPaths, ∃ name names, result.files.locate path = .ok (base ++ name :: names)) ∧
    ∀ place contents, result.files.entry? place = some (.file contents) →
      (∃ name names, place = base ++ name :: names) ∨ fs.entry? place = some (.file contents)

/-- Without backslashes in the paths of recipes a batch writes a script for each of them, and no script
elsewhere than below the directory for scripts. -/
theorem batch_places (hl : fs.Listed) (ha : ofArguments? args = some (.batch recipesDir outDir))
    (exit : (run fs args).exit = 0)
    (hn : ∀ found, fs.below recipesDir = .ok found → ∀ path ∈ Recipe.paths found, '\\' ∉ path) :
    (run fs args).OneScriptEach fs recipesDir ∧ (run fs args).ScriptsBelow fs outDir := by
  obtain ⟨printed, hr⟩ := ok_of_exit ha exit
  obtain ⟨recipes, hd, persists, -⟩ := runBatch_ok hr
  obtain ⟨found, hb, collected⟩ := Recipe.ofDirectory_ok hd
  obtain ⟨inner, apart⟩ := hl.below hb
  have perm := collected.perm_paths apart (hn found hb)
  have stems : ∀ m ∈ recipes, Path.IsInner (m.1 ++ Recipe.suffix) := by
    intro m hm
    obtain ⟨-, contents, hf⟩ := Recipe.mem_paths.mp (perm.subset (List.mem_map_of_mem hm))
    exact inner _ hf
  have files : (run fs args).files = (runBatch fs recipesDir outDir).files := (run_of_ok ha hr).2.2
  have scripts : (run fs args).scriptPaths = recipes.map fun m => scriptPath outDir m.1 := by
    rw [← runBatch_scripts hr hd, Result.scriptPaths, log_of_ok ha hr]
    rfl
  rw [← files] at persists
  obtain ⟨base, hbase, located⟩ := persists.located_below (Recipe.ofDirectory_ne_nil hd) stems
  constructor
  -- recipes at different paths have different names for their scripts, because no path has a backslash
  · have distinct : (recipes.map fun m => base ++ scriptNames m.1).Nodup := by
      have recipePaths := perm.symm.nodup (Recipe.nodup_paths apart)
      refine recipePaths.of_map.map_on fun m hm m' hm' he => ?_
      have same := scriptNames_inj (stems m hm) (stems m' hm') (List.append_cancel_left he)
      exact List.inj_on_of_nodup_map recipePaths hm hm' (congrArg (· ++ Recipe.suffix) same)
    refine ⟨found, recipes.map fun m => base ++ scriptNames m.1, hb, ?_, ?_⟩
    · rw [scripts, List.forall₂_map_left_iff, List.forall₂_map_right_iff]
      exact List.forall₂_same.mpr located
    · rw [distinct.dedup, List.length_map, ← perm.length_eq, List.length_map]
  · have below : ∀ m ∈ recipes, ∃ name names, base ++ scriptNames m.1 = base ++ name :: names := by
      intro m hm
      obtain ⟨name, names, he⟩ := List.exists_cons_of_ne_nil (isInner_script (stems m hm)).names_ne_nil
      exact ⟨name, names, congrArg (base ++ ·) he⟩
    refine ⟨base, hbase, fun path hp => ?_, fun place contents hf => ?_⟩
    · rw [scripts] at hp
      obtain ⟨m, hm, rfl⟩ := List.mem_map.mp hp
      obtain ⟨name, names, he⟩ := below m hm
      exact ⟨name, names, he ▸ (located m hm).1⟩
    · refine (persists.script_or_old hf).imp_left ?_
      intro ⟨m, hm, hlocate⟩
      cases (located m hm).1.symm.trans hlocate
      exact below m hm

/-- Names with dots and spaces, on two levels. -/
theorem batch_places_levels :
    let empty : Text := "\x7b\"schemaVersion\":\"lslgen-recipe.v1\"\x7d"
    let fs : FileSystem := ⟨[(["d"], .directory), (["d", "...recipe.json"], .file (.text empty)),
      (["d", "x y"], .directory), (["d", "x y", "a.lsl.recipe.json"], .file (.text empty)),
      (["d", "x y", "a.txt"], .file (.text empty))], []⟩
    let args : List Text := ["batch", "--recipes-dir=./d", "--out-dir", "o/p"]
    (run fs args).exit = 0 ∧ (run fs args).OneScriptEach fs "./d" ∧ (run fs args).ScriptsBelow fs "o/p" := by
  intro empty fs args
  have listed : fs.Listed := ⟨by decide +kernel, by decide +kernel⟩
  have exit : (run fs args).exit = 0 := by decide +kernel
  refine ⟨exit, batch_places listed (by decide +kernel) exit fun found h => ?_⟩
  cases h
  decide +kernel

/-- Two recipes with backslashes in their names: the script of one is also that of a third recipe, and the
script of the other stands beside the directory for scripts. -/
theorem batch_places_backslashes :
    let empty : Text := "\x7b\"schemaVersion\":\"lslgen-recipe.v1\"\x7d"
    let fs : FileSystem := ⟨[(["d"], .directory), (["d", "..\\a.recipe.json"], .file (.text empty)),
      (["d", "x\\y.recipe.json"], .file (.text empty)), (["d", "x"], .directory),
      (["d", "x", "y.recipe.json"], .file (.text empty))], []⟩
    let args : List Text := ["batch", "--recipes-dir=d", "--out-dir=o"]
    fs.Listed ∧ ofArguments? args = some (.batch "d" "o") ∧ (run fs args).exit = 0 ∧
      ¬ (run fs args).OneScriptEach fs "d" ∧ ¬ (run fs args).ScriptsBelow fs "o" := by
  intro empty fs args
  have scripts : (run fs args).scriptPaths = ["o/../a.lsl".toList, "o/x/y.lsl".toList] := by decide +kernel
  refine ⟨⟨by decide +kernel, by decide +kernel⟩, by decide +kernel, by decide +kernel, ?_, ?_⟩
  · intro ⟨found, places, hb, located, count⟩
    have three : (Recipe.paths found).length = 3 := by
      cases hb
      decide +kernel
    -- three recipes, and two of them give one path
    have two : places.length = 2 := by rw [← located.length_eq, scripts]; rfl
    have distinct := (List.dedup_sublist places).length_le
    omega
  · intro ⟨base, hbase, below, _⟩
    have directory : (run fs args).files.locate (FileSystem.directoryPath "o") = .ok ["o".toList] := by
      decide +kernel
    have beside : (run fs args).files.locate "o/../a.lsl" = .ok ["a.lsl".toList] := by decide +kernel
    obtain ⟨name, names, hl⟩ := below "o/../a.lsl".toList (scripts ▸ List.mem_cons_self ..)
    cases directory.symm.trans hbase
    have := beside.symm.trans hl
    simp at this

end Command

end LslScript
