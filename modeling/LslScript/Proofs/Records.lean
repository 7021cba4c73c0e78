import LslScript.Json.Printer
import LslScript.Json.Record
import Mathlib.Data.List.Forall2
import Mathlib.Data.List.Perm.Basic

/-!
# Records in any form

How the fields of a record may be given: as members of an object in any order and among others, or as the
items of an array, and not at all where a field may be left out. Whatever the form, a value is found for each
field that fits it (`Records.record?`). A name that is given twice is never read.
-/

namespace LslScript.Json

/-- A field of a record: its name, the values that fit it, and whether it may be left out. -/
structure Field where
  name : Text
  Fits : Json → Prop
  MayLack : Prop

def Field.names (fields : List Field) : List Text := fields.map (·.name)

inductive GivenBy : List Field → List (Text × Json) → Prop
  | nil : GivenBy [] []
  | given {f : Field} {fs : List Field} {j : Json} {members : List (Text × Json)} :
    f.Fits j → GivenBy fs members → GivenBy (f :: fs) ((f.name, j) :: members)
  | lacking {f : Field} {fs : List Field} {members : List (Text × Json)} :
    f.MayLack → GivenBy fs members → GivenBy (f :: fs) members

/-- The items by which fields are given, of which the last may be lacking. -/
inductive ListedBy : List Field → List Json → Prop
  | given {f : Field} {fs : List Field} {j : Json} {items : List Json} :
    f.Fits j → ListedBy fs items → ListedBy (f :: fs) (j :: items)
  | lacking {fs : List Field} : (∀ f ∈ fs, f.MayLack) → ListedBy fs []

def IsSimple : Json → Prop
  | null | bool _ => True
  | string text => text.isSome
  | number _ | array _ | object _ => False

inductive Records (fields : List Field) : Json → Prop
  | object {given further members : List (Text × Json)} : GivenBy fields given →
    (∀ m ∈ further, m.1 ∉ Field.names fields ∧ m.2.IsSimple) → members.Perm (given ++ further) →
    Records fields (ofMembers members)
  | array {items : List Json} : ListedBy fields items → Records fields (array items)

def Repeats (names : List Text) (members : List (Text × Json)) : Prop :=
  ∃ name ∈ names, 2 ≤ (members.map (·.1)).count name

def named (members : List (Text × Json)) : List (Option Text × Json) :=
  members.map fun (name, j) => (some name, j)

section
variable {members : List (Text × Json)} {name : Text}

theorem filter_named (members : List (Text × Json)) (name : Text) :
    (named members).filter (·.1 == some name) = named (members.filter (·.1 == name)) := by
  rw [named, List.filter_map]
  rfl

theorem member?_of_none (h : members.filter (·.1 == name) = []) : member? (named members) name = some none := by
  rw [member?, filter_named, h]
  rfl

theorem member?_of_one {m : Text × Json} (h : members.filter (·.1 == name) = [m]) :
    member? (named members) name = some (some m.2) := by
  rw [member?, filter_named, h]
  rfl

theorem member?_of_more {m m' : Text × Json} {rest : List (Text × Json)}
    (h : members.filter (·.1 == name) = m :: m' :: rest) : member? (named members) name = none := by
  rw [member?, filter_named, h]
  rfl

theorem member?_of_repeated (h : 2 ≤ (members.map (·.1)).count name) : member? (named members) name = none := by
  have length : (members.filter (·.1 == name)).length = (members.map (·.1)).count name := by
    rw [List.count, List.countP_map, List.countP_eq_length_filter]
    rfl
  rcases hf : members.filter (·.1 == name) with _ | ⟨m, _ | ⟨m', rest⟩⟩
  · rw [hf] at length; simp only [List.length_nil] at length; omega
  · rw [hf] at length; simp only [List.length_singleton] at length; omega
  · exact member?_of_more hf

theorem member?_of_mem {j : Json} (h : (name, j) ∈ members) :
    member? (named members) name = none ∨ member? (named members) name = some (some j) := by
  have found : (name, j) ∈ members.filter (·.1 == name) := by simp [h]
  rcases hf : members.filter (·.1 == name) with _ | ⟨m, _ | ⟨m', rest⟩⟩
  · rw [hf] at found; cases found
  · rw [hf] at found
    rw [member?_of_one hf, ← List.mem_singleton.mp found]
    exact Or.inr rfl
  · exact Or.inl (member?_of_more hf)

end

/-! ## Fields -/

def Field.Holds (f : Field) : Option Json → Prop
  | none => f.MayLack
  | some j => f.Fits j

section
variable {α : Type} {f : Field} {v : Option Json} {read : Json → Option α} {a : α}

theorem Field.Holds.required (h : f.Holds v) (hf : ¬ f.MayLack) (hr : ∀ j, f.Fits j → read j = some a) :
    required read v = some a := by
  cases v with
  | none => exact absurd h hf
  | some j => exact hr j h

theorem Field.Holds.orElse {default : α} (h : f.Holds v) (hf : f.MayLack → a = default)
    (hr : ∀ j, f.Fits j → read j = some a) : orElse read default v = some a := by
  cases v with
  | none => rw [hf h]; rfl
  | some j => exact hr j h

end

variable {fields : List Field} {members : List (Text × Json)} {items : List Json} {j : Json}

theorem GivenBy.name_mem (h : GivenBy fields members) : ∀ m ∈ members, m.1 ∈ Field.names fields := by
  induction h with
  | nil => nofun
  | given _ _ ih =>
    rintro m (_ | ⟨_, hm⟩)
    · exact List.mem_cons_self ..
    · exact List.mem_cons_of_mem _ (ih m hm)
  | lacking _ _ ih => exact fun m hm => List.mem_cons_of_mem _ (ih m hm)

theorem GivenBy.filter_eq_nil {name : Text} (h : GivenBy fields members) (hn : name ∉ Field.names fields) :
    members.filter (·.1 == name) = [] := by
  rw [List.filter_eq_nil_iff]
  intro m hm he
  exact hn (eq_of_beq he ▸ h.name_mem m hm)

/-- Among any members, those of a record are found if no other has a name of a field. -/
theorem GivenBy.mapM {given : List (Text × Json)} (h : GivenBy fields given) (members : List (Text × Json))
    (hn : (Field.names fields).Nodup)
    (hm : ∀ name ∈ Field.names fields, (members.filter (·.1 == name)).Perm (given.filter (·.1 == name))) :
    ∃ values, (Field.names fields).mapM (member? (named members)) = some values ∧
      List.Forall₂ Field.Holds fields values := by
  induction h with
  | nil => exact ⟨[], rfl, .nil⟩
  | @given f fs j given hf hg ih =>
    -- no later field has this name, so the first member does not count for them
    obtain ⟨hfs, hn⟩ := List.nodup_cons.mp hn
    obtain ⟨hhead, htail⟩ := List.forall_mem_cons.mp hm
    obtain ⟨values, hv, holds⟩ := ih hn fun name hname => by
      have other : (f.name == name) = false := by
        rw [beq_eq_false_iff_ne]
        rintro rfl
        exact hfs hname
      simpa [List.filter_cons, other] using htail name hname
    have head : members.filter (·.1 == f.name) = [(f.name, j)] := by
      rw [← List.perm_singleton]
      simpa [List.filter_cons, hg.filter_eq_nil hfs] using hhead
    refine ⟨some j :: values, ?_, .cons hf holds⟩
    rw [Field.names] at hv ⊢
    rw [List.map_cons, List.mapM_cons, member?_of_one head, hv]
    rfl
  | @lacking f fs given hf hg ih =>
    obtain ⟨hfs, hn⟩ := List.nodup_cons.mp hn
    obtain ⟨hhead, htail⟩ := List.forall_mem_cons.mp hm
    obtain ⟨values, hv, holds⟩ := ih hn htail
    have head : members.filter (·.1 == f.name) = [] := by
      rw [← List.perm_nil]
      rwa [hg.filter_eq_nil hfs] at hhead
    refine ⟨none :: values, ?_, .cons hf holds⟩
    rw [Field.names] at hv ⊢
    rw [List.map_cons, List.mapM_cons, member?_of_none head, hv]
    rfl

theorem ListedBy.values (h : ListedBy fields items) : items.length ≤ fields.length ∧
    List.Forall₂ Field.Holds fields (items.map some ++ List.replicate (fields.length - items.length) none) := by
  induction h with
  | given hf _ ih =>
    refine ⟨Nat.succ_le_succ ih.1, ?_⟩
    rw [List.length_cons, List.length_cons, Nat.add_sub_add_right]
    exact .cons hf ih.2
  | @lacking fs h =>
    refine ⟨Nat.zero_le _, ?_⟩
    induction fs with
    | nil => exact .nil
    | cons f fs ih =>
      obtain ⟨hf, hfs⟩ := List.forall_mem_cons.mp h
      exact .cons hf (ih hfs)

theorem Records.record? (h : Records fields j) (hn : (Field.names fields).Nodup) :
    ∃ values, record? (Field.names fields) j = some values ∧ List.Forall₂ Field.Holds fields values := by
  cases h with
  | @object given further members hg hf hp =>
    obtain ⟨values, hv, holds⟩ := hg.mapM members hn fun name hname => by
      have none : further.filter (·.1 == name) = [] := by
        rw [List.filter_eq_nil_iff]
        intro m hm he
        exact (hf m hm).1 (eq_of_beq he ▸ hname)
      have := hp.filter (·.1 == name)
      rwa [List.filter_append, none, List.append_nil] at this
    refine ⟨values, ?_, holds⟩
    rw [ofMembers, Json.record?, if_pos (by simp)]
    exact hv
  | @array items hl =>
    obtain ⟨enough, holds⟩ := hl.values
    have length : (Field.names fields).length = fields.length := List.length_map ..
    refine ⟨_, ?_, holds⟩
    rw [Json.record?, length, if_pos enough]

theorem tag?_of_record? {name : Text} {names : List Text} {tag : Json} {values : List (Option Json)}
    (h : Json.record? (name :: names) j = some (some tag :: values)) : tag? name j = some tag := by
  cases j with
  | object members =>
    rw [Json.record?] at h
    split at h
    · rw [List.mapM_cons] at h
      obtain ⟨v, hm, h⟩ := Option.bind_eq_some_iff.mp h
      obtain ⟨others, -, h⟩ := Option.bind_eq_some_iff.mp h
      cases h
      rw [tag?, hm]
      rfl
    · cases h
  | array items =>
    rw [Json.record?] at h
    split at h
    · cases items with
      | nil => cases h
      | cons j items => cases h; rfl
    · cases h
  | _ => cases h

/-! ## Names that are given twice -/

theorem mapM_eq_none {α β : Type} {f : α → Option β} {a : α} (ha : f a = none) :
    ∀ {as : List α}, a ∈ as → as.mapM f = none
  | _, .head _ => by rw [List.mapM_cons, ha]; rfl
  | _, .tail b h => by
    rw [List.mapM_cons, mapM_eq_none ha h]
    cases f b <;> rfl

theorem record?_of_repeats {names : List Text} (h : Repeats names members) :
    Json.record? names (ofMembers members) = none := by
  obtain ⟨name, hn, hr⟩ := h
  have none : names.mapM (member? (named members)) = none := mapM_eq_none (member?_of_repeated hr) hn
  rw [ofMembers, Json.record?, if_pos (by simp)]
  exact none

theorem tag?_of_repeats {name : Text} (h : Repeats [name] members) : tag? name (ofMembers members) = none := by
  obtain ⟨_, hn, hr⟩ := h
  rw [List.mem_singleton.mp hn] at hr
  have none : member? (named members) name = none := member?_of_repeated hr
  rw [ofMembers, tag?]
  exact congrArg Option.join none

theorem Repeats.cons {name : Text} {names : List Text} (h : Repeats names members) :
    Repeats (name :: names) members :=
  let ⟨other, ho, hr⟩ := h
  ⟨other, List.mem_cons_of_mem name ho, hr⟩

/-- Whether the tag of a record is given twice, or once, with a field of the kind that it names given twice. -/
def RepeatsTagged {Kind : Type} (name : Text) (IsTag : Kind → Json → Prop) (fieldsOf : Kind → List Text)
    (members : List (Text × Json)) : Prop :=
  Repeats [name] members ∨
    ∃ kind tag, IsTag kind tag ∧ (name, tag) ∈ members ∧ Repeats (fieldsOf kind) members

theorem forall₂_of_mapM {α β : Type} {f : α → Option β} : ∀ {as : List α} {bs : List β}, as.mapM f = some bs →
    List.Forall₂ (fun a b => f a = some b) as bs
  | [], bs, h => by cases h; exact .nil
  | a :: as, bs, h => by
    rw [List.mapM_cons] at h
    obtain ⟨b, hb, h⟩ := Option.bind_eq_some_iff.mp h
    obtain ⟨cs, hcs, h⟩ := Option.bind_eq_some_iff.mp h
    cases h
    exact .cons hb (forall₂_of_mapM hcs)

theorem members_of_record? {names : List Text} {values : List (Option Json)}
    (h : Json.record? names (ofMembers members) = some values) :
    List.Forall₂ (fun name v => member? (named members) name = some v) names values := by
  rw [ofMembers, Json.record?] at h
  split at h
  · exact forall₂_of_mapM h
  · cases h

theorem eq_some_of_member? {name : Text} {v : Option Json} (hm : (name, j) ∈ members)
    (hv : member? (named members) name = some v) : v = some j := by
  rcases member?_of_mem hm with h | h
  · rw [h] at hv; cases hv
  · rw [h] at hv; cases hv; rfl

theorem eq_of_tag? {name : Text} {tag : Json} (hm : (name, j) ∈ members)
    (ht : tag? name (ofMembers members) = some tag) : tag = j := by
  rw [ofMembers, tag?] at ht
  cases eq_some_of_member? hm (Option.join_eq_some_iff.mp ht)
  rfl

theorem RepeatsTagged.record?_eq_none {Kind : Type} {name : Text} {IsTag : Kind → Json → Prop}
    {fieldsOf : Kind → List Text} {kind? : Json → Option Kind} {tag : Json} {kind : Kind}
    (h : RepeatsTagged name IsTag fieldsOf members) (hk : ∀ k j, IsTag k j → kind? j = some k)
    (ht : tag? name (ofMembers members) = some tag) (hkind : kind? tag = some kind) :
    Json.record? (name :: fieldsOf kind) (ofMembers members) = none := by
  rcases h with h | ⟨kind', tag', htag, hm, h⟩
  · rw [tag?_of_repeats h] at ht
    cases ht
  · cases eq_of_tag? hm ht
    cases (hk kind' tag htag).symm.trans hkind
    exact record?_of_repeats h.cons

def Within (bound : Nat) (j : Json) : Prop := j.isSound = true ∧ j.depth ≤ bound

section
variable {bound : Nat}

theorem Within.mono {other : Nat} (h : Within bound j) (hb : bound ≤ other) : Within other j :=
  ⟨h.1, Nat.le_trans h.2 hb⟩

theorem IsSimple.within (h : j.IsSimple) : Within 0 j := by
  cases j with
  | null | bool => exact ⟨rfl, Nat.le_refl 0⟩
  | string => exact ⟨h, Nat.le_refl 0⟩
  | number | array | object => exact h.elim

theorem within_array (h : ∀ j ∈ items, Within bound j) : Within (bound + 1) (array items) := by
  rw [Within, isSound, depth, Nat.add_le_add_iff_right]
  induction items with
  | nil => exact ⟨rfl, Nat.zero_le _⟩
  | cons j items ih =>
    obtain ⟨hj, hitems⟩ := List.forall_mem_cons.mp h
    rw [areSoundItems, depthOfItems, Bool.and_eq_true]
    exact ⟨⟨hj.1, (ih hitems).1⟩, Nat.max_le.mpr ⟨hj.2, (ih hitems).2⟩⟩

theorem within_ofMembers (h : ∀ m ∈ members, Within bound m.2) : Within (bound + 1) (ofMembers members) := by
  rw [Within, ofMembers, isSound, depth, Nat.add_le_add_iff_right]
  induction members with
  | nil => exact ⟨rfl, Nat.zero_le _⟩
  | cons m members ih =>
    obtain ⟨hm, hmembers⟩ := List.forall_mem_cons.mp h
    rw [List.map_cons, areSoundMembers, depthOfMembers, Bool.and_eq_true, Bool.and_eq_true]
    exact ⟨⟨⟨rfl, hm.1⟩, (ih hmembers).1⟩, Nat.max_le.mpr ⟨hm.2, (ih hmembers).2⟩⟩

theorem GivenBy.within (h : GivenBy fields members) (hf : ∀ f ∈ fields, ∀ j, f.Fits j → Within bound j) :
    ∀ m ∈ members, Within bound m.2 := by
  induction h with
  | nil => nofun
  | given hj _ ih =>
    obtain ⟨hf, hfs⟩ := List.forall_mem_cons.mp hf
    exact List.forall_mem_cons.mpr ⟨hf _ hj, ih hfs⟩
  | lacking _ _ ih => exact ih (List.forall_mem_cons.mp hf).2

theorem ListedBy.within (h : ListedBy fields items) (hf : ∀ f ∈ fields, ∀ j, f.Fits j → Within bound j) :
    ∀ j ∈ items, Within bound j := by
  induction h with
  | given hj _ ih =>
    obtain ⟨hf, hfs⟩ := List.forall_mem_cons.mp hf
    exact List.forall_mem_cons.mpr ⟨hf _ hj, ih hfs⟩
  | lacking => nofun

theorem Records.within (h : Records fields j) (hf : ∀ f ∈ fields, ∀ j, f.Fits j → Within bound j) :
    Within (bound + 1) j := by
  cases h with
  | object hg hs hp =>
    refine within_ofMembers fun m hm => ?_
    rcases List.mem_append.mp (hp.mem_iff.mp hm) with hm | hm
    · exact hg.within hf m hm
    · exact (hs m hm).2.within.mono (Nat.zero_le _)
  | array hl => exact within_array (hl.within hf)

end

end LslScript.Json
