import LslScript.Proofs.Text
import LslScript.Script.Header
import Mathlib.Data.List.Forall2

/-!
# Headers

Which lines head a block, said by how they are spelled: a state's label, or a name with a list of
parameters in parentheses. What the readers of headers accept is exactly what is spelled so.
-/

namespace LslScript

theorem bind_ok_iff {ε α β : Type} {x : Except ε α} {f : α → Except ε β} {b : β} :
    (x >>= f) = .ok b ↔ ∃ a, x = .ok a ∧ f a = .ok b := by
  cases x with
  | ok a => simp [bind, Except.bind]
  | error e => simp [bind, Except.bind]

theorem mapM_eq_ok_iff {ε α β} {f : α → Except ε β} : ∀ {as : List α} {bs : List β},
    as.mapM f = .ok bs ↔ List.Forall₂ (fun a b => f a = .ok b) as bs
  | [], bs => by
    rw [List.mapM_nil, List.forall₂_nil_left_iff]
    constructor
    · intro h; cases h; rfl
    · rintro rfl; rfl
  | a :: as, bs => by
    rw [List.mapM_cons, List.forall₂_cons_left_iff]
    constructor
    · intro h
      cases ha : f a with
      | error e => rw [ha] at h; cases h
      | ok b =>
        cases has : as.mapM f with
        | error e => rw [ha, has] at h; cases h
        | ok cs =>
          rw [ha, has] at h
          cases h
          exact ⟨b, cs, rfl, mapM_eq_ok_iff.mp has, rfl⟩
    · rintro ⟨b, cs, hb, hcs, rfl⟩
      rw [hb, mapM_eq_ok_iff.mpr hcs]
      rfl

theorem isIdentifierStart_imp {c : Char} (h : isIdentifierStart c = true) :
    isIdentifierChar c = true := by
  unfold isIdentifierStart at h
  unfold isIdentifierChar Char.isAlphanum
  simp only [Bool.or_eq_true] at h ⊢
  exact h.imp_left Or.inl

theorem isBlankChar_of_isIdentifierChar {c : Char} (h : isIdentifierChar c = true) :
    isBlankChar c = false := by
  have hc : 48 ≤ c.toNat ∧ c.toNat ≤ 122 := by
    unfold isIdentifierChar Char.isAlphanum Char.isAlpha Char.isUpper Char.isLower Char.isDigit at h
    simp only [Bool.or_eq_true, Bool.and_eq_true, decide_eq_true_eq, beq_iff_eq, ge_iff_le,
      UInt32.le_iff_toNat_le] at h
    rcases h with ((h | h) | h) | rfl
    · exact ⟨Nat.le_trans (by decide) h.1, Nat.le_trans h.2 (by decide)⟩
    · exact ⟨Nat.le_trans (by decide) h.1, Nat.le_trans h.2 (by decide)⟩
    · exact ⟨Nat.le_trans (by decide) h.1, Nat.le_trans h.2 (by decide)⟩
    · decide
  simp only [isBlankChar, blankRanges, List.any_cons, List.any_nil, Bool.or_false, Bool.or_eq_false_iff,
    Bool.and_eq_false_iff, decide_eq_false_iff_not]
  omega

theorem isIdentifierChar_of_mem {t : Text} (h : isIdentifier t = true) :
    ∀ c ∈ t, isIdentifierChar c = true := by
  cases t with
  | nil => simp
  | cons c t =>
    simp only [isIdentifier, Bool.and_eq_true, List.all_eq_true] at h
    intro d hd
    rcases List.mem_cons.mp hd with rfl | hd
    · exact isIdentifierStart_imp h.1
    · exact h.2 d hd

theorem ne_nil_of_isIdentifier {t : Text} (h : isIdentifier t = true) : t ≠ [] := by
  rintro rfl; cases h

theorem solid_of_isIdentifier {t : Text} (h : isIdentifier t = true) :
    ∀ c ∈ t, isBlankChar c = false :=
  fun c hc => isBlankChar_of_isIdentifierChar (isIdentifierChar_of_mem h c hc)

theorem not_mem_of_isIdentifier {t : Text} (h : isIdentifier t = true) {c : Char}
    (hc : isIdentifierChar c = false) : c ∉ t := fun hm => by
  rw [isIdentifierChar_of_mem h c hm] at hc; cases hc

theorem Text.trim_of_isIdentifier {t : Text} (h : isIdentifier t = true) : t.trim = t := by
  have solid := solid_of_isIdentifier h
  have whole : trim ([] ++ (t ++ [])) = t :=
    trim_append rfl rfl (ne_nil_of_isIdentifier h) (fun c hc => solid c (List.mem_of_mem_head? hc))
      fun c hc => solid c (List.mem_of_mem_getLast? hc)
  simpa using whole

theorem ValueType.isIdentifier_name (ty : ValueType) : isIdentifier ty.name = true := by
  cases ty <;> decide

theorem ValueType.ofName?_eq_some_iff {n : Text} {ty : ValueType} :
    ValueType.ofName? n = some ty ↔ ty.name = n := by
  constructor
  · intro h
    simpa using List.find?_some h
  · rintro rfl
    cases ty <;> decide

theorem Event.mem_all (e : Event) : e ∈ Event.all := by
  unfold Event.all
  cases e <;> simp

theorem Event.isIdentifier_name (e : Event) : isIdentifier e.name = true := by
  have h : Event.all.all (fun e => isIdentifier e.name) = true := by decide +kernel
  exact List.all_eq_true.mp h e e.mem_all

theorem Event.ofName?_name (e : Event) : Event.ofName? e.name = some e := by
  have h : Event.all.all (fun e => Event.ofName? e.name == some e) = true := by decide +kernel
  simpa using List.all_eq_true.mp h e e.mem_all

theorem Event.ofName?_eq_some_iff {n : Text} {e : Event} :
    Event.ofName? n = some e ↔ e.name = n := by
  constructor
  · intro h
    simpa using List.find?_some h
  · rintro rfl
    exact e.ofName?_name

/-! ## Lists of parameters -/

namespace Param

def SpelledBy (p : Param) (t : Text) : Prop :=
  isIdentifier p.ident = true ∧ ∃ before between after : Text,
    before.isBlank = true ∧ between.isBlank = true ∧ between ≠ [] ∧ after.isBlank = true ∧
      t = before ++ (p.type.name ++ (between ++ (p.ident ++ after)))

theorem ofPair_eq_ok_iff_words {p : Param} {t : Text} :
    ofPair t = .ok p ↔ t.words = [p.type.name, p.ident] ∧ isIdentifier p.ident = true := by
  unfold ofPair
  constructor
  · intro h
    split at h
    · cases h
    · rename_i first others hw
      cases ht : ValueType.ofName? first with
      | none => rw [ht] at h; cases h
      | some ty =>
        rw [ht] at h
        match others, h with
        | [ident], h =>
          simp only [named] at h
          split at h
          · rename_i hi
            cases h
            exact ⟨by rw [hw, ValueType.ofName?_eq_some_iff.mp ht], hi⟩
          · cases h
  · rintro ⟨hw, hi⟩
    rw [hw]
    simp only [ValueType.ofName?_eq_some_iff.mpr rfl, named, hi, if_true]

theorem words_of_spelledBy {p : Param} {t : Text} (h : p.SpelledBy t) :
    t.words = [p.type.name, p.ident] := by
  obtain ⟨hi, before, between, after, hb, hbt, hne, ha, rfl⟩ := h
  have ends : ∀ {u v : Text}, u.isBlank = true → u ≠ [] → ∀ c ∈ (u ++ v).head?, isBlankChar c = true := by
    intro u v hu hne c hc
    cases u with
    | nil => exact absurd rfl hne
    | cons d u =>
      cases hc
      simp only [Text.isBlank_cons, Bool.and_eq_true] at hu
      exact hu.1
  have second : Text.FirstWord (between ++ (p.ident ++ after)) p.ident after := by
    refine ⟨⟨between, hbt, rfl⟩, ne_nil_of_isIdentifier hi, solid_of_isIdentifier hi, fun c hc => ?_⟩
    exact List.all_eq_true.mp ha c (List.mem_of_mem_head? hc)
  have hty := p.type.isIdentifier_name
  rw [Text.words_firstWord ⟨⟨before, hb, rfl⟩, ne_nil_of_isIdentifier hty, solid_of_isIdentifier hty,
    ends hbt hne⟩, Text.words_firstWord second, Text.words_eq_nil_iff.mpr ha]

theorem spelledBy_of_words {p : Param} {t : Text} (hw : t.words = [p.type.name, p.ident])
    (hi : isIdentifier p.ident = true) : p.SpelledBy t := by
  obtain ⟨rest, hfirst, hrest⟩ := Text.words_eq_cons_iff.mp hw
  obtain ⟨after, hsecond, hafter⟩ := Text.words_eq_cons_iff.mp hrest
  obtain ⟨before, hb, rfl⟩ := hfirst.split
  obtain ⟨between, hbt, rfl⟩ := hsecond.split
  refine ⟨hi, before, between, after, hb, hbt, ?_, Text.words_eq_nil_iff.mp hafter, rfl⟩
  rintro rfl
  obtain ⟨c, u, hu⟩ := List.exists_cons_of_ne_nil hsecond.nonempty
  have hblank := hfirst.ends c (by rw [hu]; rfl)
  rw [hsecond.solid c (by rw [hu]; exact List.mem_cons_self ..)] at hblank
  cases hblank

theorem ofPair_eq_ok_iff {p : Param} {t : Text} : ofPair t = .ok p ↔ p.SpelledBy t := by
  rw [ofPair_eq_ok_iff_words]
  exact ⟨fun h => spelledBy_of_words h.1 h.2, fun h => ⟨words_of_spelledBy h, h.1⟩⟩

theorem not_comma_of_spelledBy {p : Param} {t : Text} (h : p.SpelledBy t) : ',' ∉ t := by
  obtain ⟨hi, before, between, after, hb, hbt, _, ha, rfl⟩ := h
  have blank : ∀ {u : Text}, u.isBlank = true → ',' ∉ u := Text.not_mem_of_isBlank (by decide)
  have name := not_mem_of_isIdentifier p.type.isIdentifier_name (show isIdentifierChar ',' = false by decide)
  have ident := not_mem_of_isIdentifier hi (show isIdentifierChar ',' = false by decide)
  simp only [List.mem_append, not_or]
  exact ⟨blank hb, name, blank hbt, ident, blank ha⟩

/-- Nothing but blanks, or pairs of a type and an identifier with commas between them. -/
def ListingSpelledBy (ps : List Param) (t : Text) : Prop :=
  (t.isBlank = true ∧ ps = []) ∨
    ∃ pairs, pairs ≠ [] ∧ t = [','].intercalate pairs ∧ List.Forall₂ (fun u p => SpelledBy p u) pairs ps

theorem not_comma_of_pairs {pairs : List Text} {ps : List Param}
    (h : List.Forall₂ (fun u p => SpelledBy p u) pairs ps) : ∀ u ∈ pairs, ',' ∉ u := by
  induction h with
  | nil => simp
  | cons hp _ ih =>
    intro u hu
    rcases List.mem_cons.mp hu with rfl | hu
    · exact not_comma_of_spelledBy hp
    · exact ih u hu

theorem isBlank_pairs {p : Param} {u : Text} {us : List Text} (h : p.SpelledBy u) :
    Text.isBlank ([','].intercalate (u :: us)) = false := by
  have hu : u.isBlank = false := by
    refine Bool.eq_false_iff.mpr fun hb => ?_
    have := words_of_spelledBy h
    rw [Text.words_eq_nil_iff.mpr hb] at this
    cases this
  cases us with
  | nil => rw [List.intercalate_singleton, hu]
  | cons v us => rw [List.intercalate_cons_cons, Text.isBlank_append, Text.isBlank_append, hu]; rfl

theorem ofListing_eq_ok_iff {ps : List Param} {t : Text} :
    ofListing t = .ok ps ↔ ListingSpelledBy ps t := by
  unfold ofListing ListingSpelledBy
  by_cases ht : t.isBlank = true
  · rw [if_pos ht]
    constructor
    · intro h; cases h; exact Or.inl ⟨ht, rfl⟩
    · rintro (⟨_, rfl⟩ | ⟨pairs, hne, rfl, hp⟩)
      · rfl
      · cases hp with
        | nil => exact absurd rfl hne
        | cons hu _ => rw [isBlank_pairs hu] at ht; cases ht
  · rw [if_neg ht, mapM_eq_ok_iff]
    simp only [ofPair_eq_ok_iff]
    constructor
    · intro h
      exact Or.inr ⟨t.splitOn ',', by simp, (List.intercalate_splitOn ',').symm, h⟩
    · rintro (⟨hb, _⟩ | ⟨pairs, hne, rfl, hp⟩)
      · exact absurd hb ht
      · rwa [List.splitOn_intercalate ',' (not_comma_of_pairs hp) hne]

theorem spelledBy_text {p : Param} (h : isIdentifier p.ident = true) : p.SpelledBy p.text :=
  ⟨h, [], [' '], [], rfl, by decide, by simp, rfl, by simp [text]⟩

theorem spelledBy_blank_text {p : Param} (h : isIdentifier p.ident = true) :
    p.SpelledBy (' ' :: p.text) :=
  ⟨h, [' '], [' '], [], by decide, by decide, by simp, rfl, by simp [text]⟩

theorem listing_cons_cons (p q : Param) (ps : List Param) :
    listing (p :: q :: ps) = p.text ++ ',' :: ' ' :: listing (q :: ps) :=
  Text.listing_cons_cons ..

/-- The blank behind a comma belongs to the pair that follows. -/
theorem listing_cons : ∀ (p : Param) (ps : List Param),
    listing (p :: ps) = [','].intercalate (p.text :: ps.map fun q => ' ' :: q.text)
  | _, [] => rfl
  | p, q :: ps => by
    rw [listing_cons_cons, listing_cons q ps, List.map_cons, List.intercalate_cons_cons,
      List.intercalate_cons_cons_left, List.append_assoc, List.singleton_append]

theorem listingSpelledBy_listing {ps : List Param} (h : ∀ p ∈ ps, isIdentifier p.ident = true) :
    ListingSpelledBy ps (listing ps) := by
  cases ps with
  | nil => exact Or.inl ⟨rfl, rfl⟩
  | cons p ps =>
    refine Or.inr ⟨_, by simp, listing_cons p ps, ?_⟩
    refine List.Forall₂.cons (spelledBy_text (h p (by simp))) ?_
    rw [List.forall₂_map_left_iff, List.forall₂_same]
    exact fun q hq => spelledBy_blank_text (h q (List.mem_cons_of_mem _ hq))

theorem isIdentifier_of_pairs {pairs : List Text} {ps : List Param}
    (h : List.Forall₂ (fun u p => SpelledBy p u) pairs ps) : ∀ p ∈ ps, isIdentifier p.ident = true := by
  induction h with
  | nil => simp
  | cons hp _ ih => exact List.forall_mem_cons.mpr ⟨hp.1, ih⟩

theorem isIdentifier_of_listingSpelledBy {ps : List Param} {t : Text} (h : ListingSpelledBy ps t) :
    ∀ p ∈ ps, isIdentifier p.ident = true := by
  rcases h with ⟨_, rfl⟩ | ⟨pairs, _, _, hp⟩
  · simp
  · exact isIdentifier_of_pairs hp

end Param

/-! ## Lines that head a block -/

theorem Param.header_eq (name : Text) (ps : List Param) :
    header name ps = name ++ '(' :: (listing ps ++ ')' :: []) := by
  simp [header]

def HeaderSpelledBy (name : Text) (ps : List Param) (line : Text) : Prop :=
  ∃ inner tail, Param.ListingSpelledBy ps inner ∧ Text.isBlank tail = true ∧
    line = name ++ '(' :: (inner ++ ')' :: tail)

theorem headerSpelledBy_header {name : Text} {ps : List Param}
    (h : ∀ p ∈ ps, isIdentifier p.ident = true) :
    HeaderSpelledBy name ps (Param.header name ps) :=
  ⟨_, [], Param.listingSpelledBy_listing h, rfl, Param.header_eq name ps⟩

namespace Header

theorem between?_eq_some_iff {t inner : Text} :
    between? t = some inner ↔ ∃ tail, Text.isBlank tail = true ∧ t = '(' :: (inner ++ ')' :: tail) := by
  constructor
  · intro h
    unfold between? at h
    split at h
    · rename_i rest
      rw [Text.before?, List.isSuffixOf?_eq_some_iff_append_eq] at h
      obtain ⟨tail, hb, ht⟩ := Text.trimEnd_append_tail rest
      refine ⟨tail, hb, ?_⟩
      rw [ht, ← h]
      simp
    · cases h
  · rintro ⟨tail, hb, rfl⟩
    rw [between?, Text.trimEnd_of_blank_tail (by decide) inner tail hb, Text.before?,
      List.isSuffixOf?_eq_some_iff_append_eq]
    rfl

theorem function?_eq_some_iff {line name inner : Text} :
    function? line = some (name, inner) ↔ isIdentifier name = true ∧
      ∃ tail, Text.isBlank tail = true ∧ line = name ++ '(' :: (inner ++ ')' :: tail) := by
  constructor
  · intro h
    simp only [function?] at h
    split at h
    · rename_i hi
      obtain ⟨u, hu, he⟩ := Option.map_eq_some_iff.mp h
      cases he
      obtain ⟨tail, hb, ht⟩ := between?_eq_some_iff.mp hu
      refine ⟨hi, tail, hb, ?_⟩
      rw [← ht, List.takeWhile_append_dropWhile]
    · cases h
  · rintro ⟨hi, tail, hb, rfl⟩
    have ends : ∀ c ∈ ('(' :: (inner ++ ')' :: tail)).head?, isIdentifierChar c = false := by
      rintro c ⟨⟩
      decide
    obtain ⟨h1, h2⟩ := Text.span_append (isIdentifierChar_of_mem hi) ends
    simp only [function?, h1, h2, hi, if_true, between?_eq_some_iff.mpr ⟨tail, hb, rfl⟩, Option.map_some]

theorem event?_eq_some_iff {line name inner : Text} :
    event? line = some (name, inner) ↔ (name ≠ [] ∧ ∀ c ∈ name, isEventNameChar c = true) ∧
      ∃ tail, Text.isBlank tail = true ∧ line = indentUnit ++ (name ++ '(' :: (inner ++ ')' :: tail)) := by
  constructor
  · intro h
    unfold event? at h
    split at h
    · cases h
    · rename_i rest hr
      rw [Text.after?, List.isPrefixOf?_eq_some_iff_append_eq] at hr
      simp only at h
      split at h
      · cases h
      · rename_i hne
        obtain ⟨u, hu, he⟩ := Option.map_eq_some_iff.mp h
        cases he
        obtain ⟨tail, hb, ht⟩ := between?_eq_some_iff.mp hu
        refine ⟨⟨by simpa using hne, fun c hc => List.mem_takeWhile_imp hc⟩, tail, hb, ?_⟩
        rw [← ht, List.takeWhile_append_dropWhile, hr]
  · rintro ⟨⟨hne, hn⟩, tail, hb, rfl⟩
    have ends : ∀ c ∈ ('(' :: (inner ++ ')' :: tail)).head?, isEventNameChar c = false := by
      rintro c ⟨⟩
      decide
    obtain ⟨h1, h2⟩ := Text.span_append hn ends
    have hr := List.isPrefixOf?_eq_some_iff_append_eq.mpr
      (rfl : indentUnit ++ (name ++ '(' :: (inner ++ ')' :: tail)) = _)
    simp only [event?, Text.after?, hr, h1, h2, between?_eq_some_iff.mpr ⟨tail, hb, rfl⟩, Option.map_some]
    simp [hne]

end Header

theorem Event.isEventNameChar_of_mem (e : Event) :
    ∀ c ∈ e.name, Header.isEventNameChar c = true := by
  have h : Event.all.all (fun e => e.name.all Header.isEventNameChar) = true := by decide +kernel
  exact List.all_eq_true.mp (List.all_eq_true.mp h e e.mem_all)

theorem Event.event?_header (e : Event) (inner : Text) {tail : Text} (ht : tail.isBlank = true) :
    Header.event? (indentUnit ++ (e.name ++ '(' :: (inner ++ ')' :: tail))) = some (e.name, inner) :=
  Header.event?_eq_some_iff.mpr
    ⟨⟨ne_nil_of_isIdentifier e.isIdentifier_name, e.isEventNameChar_of_mem⟩, tail, ht, rfl⟩

/-! ## Labels -/

namespace StateName

theorem label_default : label default = default.text := if_pos rfl

theorem label_of_ne {n : StateName} (h : n ≠ default) :
    n.label = "state ".toList ++ n.text := if_neg h

theorem text_ne_of_ne {n : StateName} (h : n ≠ default) : n.text ≠ default.text := fun he => h (by
  cases n; cases he; rfl)

theorem state_append_ne_default (t : Text) : "state ".toList ++ t ≠ default.text := by
  intro h
  have : 's' = 'd' := (List.cons.inj h).1
  cases this

/-- A state's label is read back, and no other line is taken for it. -/
theorem ofLabel?_eq_some_iff {line : Text} {n : StateName} :
    ofLabel? line = some n ↔ isIdentifier n.text = true ∧ line = n.label := by
  unfold ofLabel?
  constructor
  · intro h
    split at h
    · rename_i hl
      cases h
      exact ⟨by decide, by rw [label_default, hl]⟩
    · split at h
      · rename_i name hname
        rw [Text.after?, List.isPrefixOf?_eq_some_iff_append_eq] at hname
        -- a state called default is not written this way
        split at h
        · rename_i hn
          cases h
          have hne : (⟨name⟩ : StateName) ≠ default := fun he => hn.1 (congrArg StateName.text he)
          exact ⟨hn.2, by rw [label_of_ne hne, ← hname]⟩
        · cases h
      · cases h
  · rintro ⟨hi, rfl⟩
    by_cases hd : n = default
    · subst hd; rw [if_pos label_default]
    · rw [label_of_ne hd, if_neg (state_append_ne_default n.text), Text.after?,
        List.isPrefixOf?_eq_some_iff_append_eq.mpr rfl]
      exact if_pos ⟨text_ne_of_ne hd, hi⟩

theorem mem_label {n : StateName} (h : isIdentifier n.text = true) {c : Char} (hc : c ∈ n.label) :
    isIdentifierChar c = true ∨ c = ' ' := by
  unfold label at hc
  split at hc
  · exact Or.inl (isIdentifierChar_of_mem h c hc)
  · rcases List.mem_append.mp hc with hc | hc
    · have lead : ("state ".toList.all fun d => isIdentifierChar d || d == ' ') = true := by decide
      simpa using List.all_eq_true.mp lead c hc
    · exact Or.inl (isIdentifierChar_of_mem h c hc)

end StateName

theorem isBlank_of_solid_head {c : Char} (hc : isBlankChar c = false) (t : Text) :
    Text.isBlank (c :: t) = false := by
  rw [Text.isBlank_cons, hc]; rfl

theorem isBlank_name_append {name : Text} (h : isIdentifier name = true) (t : Text) :
    Text.isBlank (name ++ t) = false := by
  obtain ⟨c, u, rfl⟩ := List.exists_cons_of_ne_nil (ne_nil_of_isIdentifier h)
  exact isBlank_of_solid_head (solid_of_isIdentifier h c (List.mem_cons_self ..)) _

theorem isBlank_label (n : StateName) (h : isIdentifier n.text = true) :
    Text.isBlank n.label = false := by
  by_cases hd : n = .default
  · subst hd; decide
  · rw [StateName.label_of_ne hd]
    exact isBlank_of_solid_head (by decide : isBlankChar 's' = false) _

theorem ofLabel?_header {name inner : Text} {tail : Text} :
    StateName.ofLabel? (name ++ '(' :: (inner ++ ')' :: tail)) = none := by
  rw [Option.eq_none_iff_forall_ne_some]
  intro n hn
  obtain ⟨hi, hl⟩ := StateName.ofLabel?_eq_some_iff.mp hn
  have hm : '(' ∈ n.label := by rw [← hl]; simp
  rcases StateName.mem_label hi hm with h | h
  · cases h
  · cases h

end LslScript
