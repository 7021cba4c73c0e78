import LslScript.Command.Arguments
import Mathlib.Data.List.TakeWhile
import Mathlib.Data.List.Infix

/-!
# Command lines that say a command

Every command is said by a command line that gives each of its options in one argument
(`ofArguments?_arguments`).
-/

namespace LslScript.Command

def valued (name value : Text) : Text := "--".toList ++ (name ++ '=' :: value)

def flag (name : Text) : Text := "--".toList ++ name

theorem splitOption_valued {name : Text} (h : '=' ∉ name) (value : Text) :
    splitOption (name ++ '=' :: value) = (name, some value) := by
  have kept : ∀ c ∈ name, (c != '=') = true := fun c hc => by simpa using ne_of_mem_of_not_mem hc h
  unfold splitOption
  rw [List.dropWhile_append_of_pos kept, List.takeWhile_append_of_pos kept]
  simp

theorem splitOption_flag {name : Text} (h : '=' ∉ name) : splitOption name = (name, none) := by
  have kept : ∀ c ∈ name, (c != '=') = true := fun c hc => by simpa using ne_of_mem_of_not_mem hc h
  unfold splitOption
  rw [List.dropWhile_eq_nil_iff.mpr kept]

def Given.IsOf (options : Options) (g : Given) : Prop :=
  g.name ≠ [] ∧ '=' ∉ g.name ∧
    (if g.value.isSome then options.valued else options.flags).contains g.name = true

def Given.text : Given → Text
  | ⟨name, some value⟩ => valued name value
  | ⟨name, none⟩ => flag name

theorem given?_texts {options : Options} : ∀ {given : List Given}, (∀ g ∈ given, g.IsOf options) →
    given? options (given.map Given.text) = some given
  | [], _ => rfl
  | ⟨name, some value⟩ :: rest, h => by
    obtain ⟨⟨hne, hn, ho⟩, hrest⟩ := List.forall_mem_cons.mp h
    have after : Text.after? "--" (valued name value) = some (name ++ '=' :: value) :=
      List.isPrefixOf?_eq_some_iff_append_eq.mpr rfl
    rw [List.map_cons, Given.text, given?, after]
    simp only [splitOption_valued hn]
    rw [if_pos (show options.valued.contains name = true from ho), given?_texts hrest]
    rfl
  | ⟨name, none⟩ :: rest, h => by
    obtain ⟨⟨hne, hn, ho⟩, hrest⟩ := List.forall_mem_cons.mp h
    have after : Text.after? "--" (flag name) = some name := List.isPrefixOf?_eq_some_iff_append_eq.mpr rfl
    rw [List.map_cons, Given.text, given?, after]
    simp only [splitOption_flag hn]
    rw [if_pos (show options.flags.contains name = true from ho), given?_texts hrest]
    rfl

theorem options?_texts {options : Options} {given : List Given} (h : ∀ g ∈ given, g.IsOf options)
    (hn : (given.map (·.name)).Nodup) : options? options (given.map Given.text) = some given := by
  unfold options?
  rw [given?_texts h, Option.bind_eq_bind, Option.bind_some, if_pos hn]
  rfl

/-! ## Commands -/

def given : Command → List Given
  | build recipe out keepPlaceholders =>
    ⟨"recipe", some recipe⟩ :: (out.toList.map fun path => ⟨"out", some path⟩) ++
      if keepPlaceholders then [⟨"keep-placeholders", none⟩] else []
  | batch recipesDir outDir => [⟨"recipes-dir", some recipesDir⟩, ⟨"out-dir", some outDir⟩]
  | events json => if json then [⟨"json", none⟩] else []

def name : Command → Text
  | build _ _ _ => "build"
  | batch _ _ => "batch"
  | events _ => "events"

/-- A command line that says a command. -/
def arguments (c : Command) : List Text := c.name :: c.given.map Given.text

theorem head?_of_ofArguments? {args : List Text} {c : Command} (h : ofArguments? args = some c) :
    args.head? = some c.name := by
  cases args with
  | nil => cases h
  | cons first rest =>
    rw [ofArguments?] at h
    split at h
    · rename_i build
      obtain ⟨given, -, h⟩ := Option.bind_eq_some_iff.mp h
      obtain ⟨recipe, -, h⟩ := Option.bind_eq_some_iff.mp h
      cases h
      rw [build]
      rfl
    · split at h
      · rename_i batch
        obtain ⟨given, -, h⟩ := Option.bind_eq_some_iff.mp h
        obtain ⟨recipesDir, -, h⟩ := Option.bind_eq_some_iff.mp h
        obtain ⟨outDir, -, h⟩ := Option.bind_eq_some_iff.mp h
        cases h
        rw [batch]
        rfl
      · split at h
        · rename_i events
          obtain ⟨given, -, h⟩ := Option.bind_eq_some_iff.mp h
          cases h
          rw [events]
          rfl
        · cases h

theorem ofArguments?_arguments (c : Command) : ofArguments? c.arguments = some c := by
  cases c with
  | build recipe out keep =>
    have names : ["recipe".toList, "out".toList, "keep-placeholders".toList].Nodup := by decide
    -- options that are different and allowed are read as given, in any number
    have options : options? ⟨["recipe", "out"], ["keep-placeholders"]⟩
        ((build recipe out keep).given.map Given.text) = some (build recipe out keep).given := by
      refine options?_texts (List.forall_mem_append.mpr ⟨List.forall_mem_cons.mpr ⟨?_, ?_⟩, ?_⟩) (names.sublist ?_)
      · exact ⟨nofun, of_decide_eq_true rfl, rfl⟩
      · exact List.forall_mem_map.mpr fun path _ => ⟨nofun, of_decide_eq_true rfl, rfl⟩
      · cases keep
        · exact nofun
        · exact List.forall_mem_singleton.mpr ⟨nofun, of_decide_eq_true rfl, rfl⟩
      · cases out <;> cases keep <;> simp [given]
    show ofArguments? ("build".toList :: (build recipe out keep).given.map Given.text) = _
    rw [ofArguments?, if_pos rfl, options]
    cases out <;> cases keep <;> rfl
  | batch d o =>
    have names : ["recipes-dir".toList, "out-dir".toList].Nodup := by decide
    have options : options? ⟨["recipes-dir", "out-dir"], []⟩ ((batch d o).given.map Given.text) =
        some (batch d o).given := by
      refine options?_texts (List.forall_mem_cons.mpr ⟨?_, List.forall_mem_singleton.mpr ?_⟩) names
      · exact ⟨nofun, of_decide_eq_true rfl, rfl⟩
      · exact ⟨nofun, of_decide_eq_true rfl, rfl⟩
    show ofArguments? ("batch".toList :: (batch d o).given.map Given.text) = _
    rw [ofArguments?, if_neg (by decide), if_pos rfl, options]
    rfl
  | events json => cases json <;> rfl

end LslScript.Command
