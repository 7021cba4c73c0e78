import LslScript.Command.Sources
import LslScript.Proofs.Places
import Mathlib.Data.Char
import Mathlib.Data.List.Lex

/-!
# The recipes of a directory

A directory gives each recipe that is below it once, by its name, in the order of the bytes that names are
stored as (`ofDirectory_ok`, `Text.bytes_lt`).
-/

namespace LslScript

/-! ## The order of bytes -/

namespace Text

def bytes (t : Text) : List UInt8 := t.flatMap String.utf8EncodeChar

theorem byte_lt_iff {n m : Nat} (hn : n < 256) (hm : m < 256) : UInt8.ofNat n < UInt8.ofNat m ↔ n < m := by
  rw [UInt8.lt_iff_toNat_lt, UInt8.toNat_ofNat', UInt8.toNat_ofNat', Nat.mod_eq_of_lt hn, Nat.mod_eq_of_lt hm]

theorem byte_eq_iff {n m : Nat} (hn : n < 256) (hm : m < 256) : UInt8.ofNat n = UInt8.ofNat m ↔ n = m := by
  rw [← UInt8.toNat_inj, UInt8.toNat_ofNat', UInt8.toNat_ofNat', Nat.mod_eq_of_lt hn, Nat.mod_eq_of_lt hm]

/-- Of two characters the lesser has the lesser bytes, whatever follows. -/
theorem utf8EncodeChar_append_lt {c d : Char} (h : c < d) (t u : List UInt8) :
    String.utf8EncodeChar c ++ t < String.utf8EncodeChar d ++ u := by
  have lt : c.val.toNat < d.val.toNat := h
  have most : d.val.toNat < 0x110000 := by
    rcases d.valid with h | ⟨_, h⟩
    · exact Nat.lt_trans h (by decide)
    · exact h
  unfold String.utf8EncodeChar
  simp only
  generalize c.val.toNat = n at *
  generalize d.val.toNat = m at *
  have digits (k : Nat) : k / 64 / 64 = k / 4096 ∧ k / 4096 / 64 = k / 262144 :=
    ⟨Nat.div_div_eq_div_mul .., Nat.div_div_eq_div_mul ..⟩
  have hn := digits n
  have hm := digits m
  -- as many cases as there are lengths; a longer encoding begins with a greater byte
  split_ifs
  all_goals
    simp (disch := omega) only [List.cons_append, List.cons_lt_cons_iff, byte_lt_iff, byte_eq_iff,
      Nat.mod_eq_of_lt]
    omega

/-- The order of texts is the order of their bytes. -/
theorem bytes_lt : ∀ {t u : Text}, t < u → bytes t < bytes u
  | [], [], h => absurd h (lt_irrefl _)
  | [], d :: u, _ => by
    have : String.utf8EncodeChar d ≠ [] := by
      unfold String.utf8EncodeChar
      simp only
      split_ifs <;> simp
    obtain ⟨b, bs, hb⟩ := List.exists_cons_of_ne_nil this
    rw [bytes, bytes, List.flatMap_cons, hb]
    exact List.nil_lt_cons b _
  | c :: t, [], h => absurd h (List.not_lt_nil _)
  | c :: t, d :: u, h => by
    rw [bytes, bytes, List.flatMap_cons, List.flatMap_cons]
    rcases List.cons_lt_cons_iff.mp h with hc | ⟨rfl, ht⟩
    · exact utf8EncodeChar_append_lt hc _ _
    · exact List.append_left_lt (bytes_lt ht)

end Text

namespace Recipe

variable {fs : FileSystem} {directory path stem : Text} {r : Recipe} {known recipes : List (Text × Recipe)}
  {found : List (Text × Entry)}

def Ordered (recipes : List (Text × Recipe)) : Prop := recipes.Pairwise (·.1 < ·.1)

theorem eq_or_mem_of_mem_insert {m : Text × Recipe} (h : m ∈ insert stem r known) : m = (stem, r) ∨ m ∈ known := by
  induction known with
  | nil => exact .inl (List.mem_singleton.mp h)
  | cons other rest ih =>
    unfold insert at h
    split at h
    · exact (List.mem_cons.mp h).imp_right (List.mem_cons_of_mem _)
    · split at h
      · exact List.mem_cons.mp h
      · rcases List.mem_cons.mp h with h | h
        · exact .inr (h ▸ List.mem_cons_self ..)
        · exact (ih h).imp_right (List.mem_cons_of_mem _)

theorem mem_names_insert {name : Text} :
    name ∈ (insert stem r known).map (·.1) ↔ name = stem ∨ name ∈ known.map (·.1) := by
  induction known with
  | nil => simp [insert]
  | cons other rest ih =>
    unfold insert
    split
    · rename_i h
      simp [h]
    · split
      · simp
      · rw [List.map_cons, List.mem_cons, ih, List.map_cons, List.mem_cons]
        exact or_left_comm

theorem Ordered.insert (h : Ordered known) : Ordered (insert stem r known) := by
  induction known with
  | nil => exact List.pairwise_singleton ..
  | cons other rest ih =>
    obtain ⟨hother, hrest⟩ := List.pairwise_cons.mp h
    unfold Recipe.insert
    -- a name that is known takes the new recipe and keeps its place
    split
    · rename_i he
      exact List.pairwise_cons.mpr ⟨fun m hm => he ▸ hother m hm, hrest⟩
    · rename_i hne
      split
      · rename_i hlt
        refine List.pairwise_cons.mpr ⟨fun m hm => ?_, h⟩
        rcases List.mem_cons.mp hm with rfl | hm
        · exact hlt
        · exact hlt.trans (hother m hm)
      · rename_i hge
        have greater : other.1 < stem := lt_of_le_of_ne (not_lt.mp hge) (Ne.symm hne)
        refine List.pairwise_cons.mpr ⟨fun m hm => ?_, ih hrest⟩
        rcases eq_or_mem_of_mem_insert hm with rfl | hm
        · exact greater
        · exact hother m hm

/-! ## Collection -/

/-- What is known of recipes that were collected from what was found, beside those that were known before. -/
structure Collected (fs : FileSystem) (directory : Text) (found : List (Text × Entry))
    (known recipes : List (Text × Recipe)) : Prop where
  ordered : Ordered known → Ordered recipes
  names : ∀ stem, stem ∈ recipes.map (·.1) ↔
    stem ∈ known.map (·.1) ∨ ∃ path contents, (path, Entry.file contents) ∈ found ∧ stem? path = some stem
  read : ∀ m ∈ recipes, m ∈ known ∨ ∃ path contents, (path, Entry.file contents) ∈ found ∧
    stem? path = some m.1 ∧ ofFile fs (Path.join directory path) = .ok m.2

namespace Collected

theorem nil : Collected fs directory [] known known :=
  ⟨fun h => h, fun _ => by simp, fun _ hm => .inl hm⟩

theorem skip {e : Text × Entry} (h : Collected fs directory found known recipes)
    (he : ∀ contents, e.2 = .file contents → stem? e.1 = none) :
    Collected fs directory (e :: found) known recipes where
  ordered := h.ordered
  names stem := by
    rw [h.names stem]
    refine or_congr_right ⟨fun ⟨path, contents, hm, hs⟩ => ⟨path, contents, List.mem_cons_of_mem _ hm, hs⟩, ?_⟩
    rintro ⟨path, contents, hm, hs⟩
    rcases List.mem_cons.mp hm with rfl | hm
    · rw [he contents rfl] at hs
      cases hs
    · exact ⟨path, contents, hm, hs⟩
  read m hm := by
    refine (h.read m hm).imp_right ?_
    rintro ⟨path, contents, hm, hs, hr⟩
    exact ⟨path, contents, List.mem_cons_of_mem _ hm, hs, hr⟩

theorem put {contents : Contents} (h : Collected fs directory found (insert stem r known) recipes)
    (hs : stem? path = some stem) (hr : ofFile fs (Path.join directory path) = .ok r) :
    Collected fs directory ((path, .file contents) :: found) known recipes where
  ordered ho := h.ordered ho.insert
  names other := by
    rw [h.names other, mem_names_insert]
    constructor
    · rintro ((rfl | hk) | ⟨path', contents', hm, hs'⟩)
      · exact .inr ⟨path, contents, List.mem_cons_self .., hs⟩
      · exact .inl hk
      · exact .inr ⟨path', contents', List.mem_cons_of_mem _ hm, hs'⟩
    · rintro (hk | ⟨path', contents', hm, hs'⟩)
      · exact .inl (.inr hk)
      · rcases List.mem_cons.mp hm with he | hm
        · cases he
          exact .inl (.inl (Option.some_inj.mp (hs'.symm.trans hs)))
        · exact .inr ⟨path', contents', hm, hs'⟩
  read m hm := by
    rcases h.read m hm with hk | ⟨path', contents', hf, hs', hr'⟩
    · rcases eq_or_mem_of_mem_insert hk with rfl | hk
      · exact .inr ⟨path, contents, List.mem_cons_self .., hs, hr⟩
      · exact .inl hk
    · exact .inr ⟨path', contents', List.mem_cons_of_mem _ hf, hs', hr'⟩

end Collected

theorem collect_ok : ∀ {found : List (Text × Entry)} {known : List (Text × Recipe)},
    collect fs directory found known = .ok recipes → Collected fs directory found known recipes
  | [], known, h => by
    cases h
    exact .nil
  | (path, entry) :: rest, known, h => by
    unfold collect at h
    simp only at h
    split at h
    · split at h
      · cases h
      · exact (collect_ok h).skip nofun
    · rename_i hs
      exact (collect_ok h).skip fun _ _ => hs
    · rename_i hs
      split at h
      · cases h
      · rename_i hr
        exact (collect_ok h).put hs hr

theorem ofDirectory_ok (h : ofDirectory fs directory = .ok recipes) :
    ∃ found, fs.below directory = .ok found ∧ Collected fs directory found [] recipes := by
  unfold ofDirectory at h
  split at h
  · cases h
  · rename_i found hb
    split at h
    · cases h
    · cases h
    · rename_i hc
      cases h
      exact ⟨found, hb, collect_ok hc⟩

theorem ordered_ofDirectory (h : ofDirectory fs directory = .ok recipes) : Ordered recipes :=
  let ⟨_, _, hc⟩ := ofDirectory_ok h
  hc.ordered .nil

theorem Ordered.bytes (h : Ordered recipes) : recipes.Pairwise fun m n => m.1.bytes < n.1.bytes :=
  h.imp Text.bytes_lt

/-- Without backslashes a name is the path without its ending. -/
theorem stem?_eq_some_iff (h : '\\' ∉ path) : stem? path = some stem ↔ path = stem ++ suffix := by
  have slashes : path.map (fun c => if c = '\\' then '/' else c) = path := by
    have kept : ∀ c ∈ path, (if c = '\\' then '/' else c) = c := fun c hc => if_neg (ne_of_mem_of_not_mem hc h)
    rw [List.map_congr_left kept, List.map_id']
  rw [stem?, slashes, Text.before?, List.isSuffixOf?_eq_some_iff_append_eq]
  exact eq_comm

end Recipe

end LslScript
