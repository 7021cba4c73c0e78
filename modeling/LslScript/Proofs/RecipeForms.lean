import LslScript.Proofs.Headers
import LslScript.Proofs.JsonTexts
import LslScript.Proofs.Records
import LslScript.Recipe.Reading

/-!
# Recipes in any form

The values that a recipe, an operation, a call or a parameter may be given by, with the fields of its record
and what fits each of them. Each of these values is read as what it gives (`Operation.ofJson?_of_records` and
the like), as it is neither unsound nor nested too deep.
-/

namespace LslScript

open Json (Field Records ofText ofTexts ofInt32 ofMembers required orElse toText? toInt32? toBool? toList?)

/-! ## Forms -/

namespace Json.Field

def must (name : Text) (j : Json) : Field := ⟨name, (· = j), False⟩

/-- A field that has one value, and may be left out where that is the default. -/
def may (name : Text) (j : Json) (isDefault : Prop) : Field := ⟨name, (· = j), isDefault⟩

@[simp] theorem must_fits {name : Text} {j k : Json} : (must name j).Fits k ↔ k = j := Iff.rfl

@[simp] theorem may_fits {name : Text} {j k : Json} {isDefault : Prop} :
    (may name j isDefault).Fits k ↔ k = j := Iff.rfl

end Json.Field

def ValueType.WrittenAs (type : ValueType) (j : Json) : Prop :=
  j = ofText type.name ∨ j = ofMembers [(type.name, .null)]

def Event.WrittenAs (e : Event) (j : Json) : Prop :=
  j = ofText e.name ∨ j = ofMembers [(e.name, .null)] ∨ j = ofMembers [(e.name, .object [])]

def Param.fields (p : Param) : List Field :=
  [⟨"ty", p.type.WrittenAs, False⟩, .must "ident" (ofText p.ident)]

namespace WrittenCall

def Kind.IsNamed (k : Kind) (j : Json) : Prop := j = ofText k.name

/-- In an operation the place of a kind stands for its name too. -/
def Kind.IsNamedOrCounted (k : Kind) (j : Json) : Prop :=
  k.IsNamed j ∨ ∃ i : Nat, all[i]? = some k ∧ j = .number (.ofInt i)

def fields (IsTag : Kind → Json → Prop) : WrittenCall → List Field
  | say channel message =>
    [⟨"fn", IsTag .say, False⟩, .must "channel" (ofInt32 channel), .must "message" (ofText message)]
  | listen channel name id message embed =>
    [⟨"fn", IsTag .listen, False⟩, .must "channel" (ofInt32 channel), .may "name" (ofText name) (name = []),
      .may "id" (ofText id) (id = []), .may "message" (ofText message) (message = []),
      .may "embed" (.bool embed) (embed = false)]
  | setColor color face =>
    [⟨"fn", IsTag .setColor, False⟩, .must "color" (ofText color), .must "face" (ofInt32 face)]
  | raw text => [⟨"fn", IsTag .raw, False⟩, .must "text" (ofText text)]

end WrittenCall

namespace Operation

def fields (op : Operation) : List Field :=
  .must "op" (ofText op.name) ::
    match op with
    | event state e params =>
      [.may "state" (ofText state) (state = []), ⟨"event", e.WrittenAs, False⟩,
        .may "params" ((params.map ofTexts).getD .null) (params = none)]
    | eventLine state e line =>
      [.may "state" (ofText state) (state = []), ⟨"event", e.WrittenAs, False⟩, .must "line" (ofText line)]
    | call state e c =>
      [.may "state" (ofText state) (state = []), ⟨"event", e.WrittenAs, False⟩,
        ⟨"call", Records (c.fields WrittenCall.Kind.IsNamedOrCounted), False⟩]
    | function name params =>
      [.must "name" (ofText name), .may "params" (.array (params.map ofTexts)) (params = [])]
    | functionLine name line => [.must "name" (ofText name), .must "line" (ofText line)]
    | functionBlankLine name => [.must "name" (ofText name)]

end Operation

def Recipe.fields (r : Recipe) : List Field :=
  [.must "schemaVersion" (ofText r.schemaVersion),
    ⟨"operations", fun j => ∃ items, j = .array items ∧
      List.Forall₂ (fun op j => Records op.fields j) r.operations items, r.operations = []⟩]

theorem toInt32?_ofInt32 (n : Int32) : toInt32? (ofInt32 n) = some n := by
  have range : Int32.minValue.toInt ≤ n.toInt ∧ n.toInt ≤ Int32.maxValue.toInt := ⟨n.le_toInt, n.toInt_le⟩
  rw [ofInt32, toInt32?, JsonNumber.toInt?_ofInt]
  simp only
  rw [if_pos range, Int32.ofInt_toInt]

theorem toList?_of_forall₂ {α : Type} {read : Json → Option α} {as : List α} {items : List Json}
    (h : List.Forall₂ (fun a j => read j = some a) as items) : toList? read (.array items) = some as := by
  rw [toList?]
  induction h with
  | nil => rfl
  | cons ha _ ih => rw [List.mapM_cons, ha, ih]; rfl

theorem toList?_map {α : Type} {read : Json → Option α} (write : α → Json) (h : ∀ a, read (write a) = some a)
    (as : List α) : toList? read (.array (as.map write)) = some as :=
  toList?_of_forall₂ (List.forall₂_map_right_iff.mpr (List.forall₂_same.mpr fun a _ => h a))

theorem toList?_ofTexts (ts : List Text) : toList? toText? (ofTexts ts) = some ts :=
  toList?_map ofText (fun _ => rfl) ts

theorem Event.WrittenAs.read {e : Event} {j : Json} (h : e.WrittenAs j) : Event.ofJson? j = some e := by
  rcases h with rfl | rfl | rfl <;> exact e.ofName?_name

theorem ValueType.WrittenAs.read {type : ValueType} {j : Json} (h : type.WrittenAs j) :
    ValueType.ofJson? j = some type := by
  rcases h with rfl | rfl <;> exact ValueType.ofName?_eq_some_iff.mpr rfl

/-! ## Reading records -/

namespace Json

theorem Field.holds_must {name : Text} {j : Json} {v : Option Json} :
    (Field.must name j).Holds v ↔ v = some j := by
  cases v with
  | none => exact ⟨False.elim, nofun⟩
  | some k => exact Option.some_inj.symm

theorem orElse_of_may {name : Text} {j : Json} {isDefault : Prop} {v : Option Json} {α : Type}
    {read : Json → Option α} {a default : α} (h : (Field.may name j isDefault).Holds v) (hr : read j = some a)
    (hd : isDefault → a = default) : orElse read default v = some a :=
  Field.Holds.orElse h hd fun _ he => he ▸ hr

/-- The first field of a record is its tag. -/
theorem Records.first {f : Field} {fs : List Field} {j : Json} (h : Records (f :: fs) j) (hf : ¬ f.MayLack)
    (hn : (Field.names (f :: fs)).Nodup) :
    ∃ tag values, f.Fits tag ∧ List.Forall₂ Field.Holds fs values ∧ tag? f.name j = some tag ∧
      Json.record? (Field.names (f :: fs)) j = some (some tag :: values) := by
  obtain ⟨values, hr, holds⟩ := h.record? hn
  obtain ⟨v, rest, hv, hrest, rfl⟩ := List.forall₂_cons_left_iff.mp holds
  cases v with
  | none => exact absurd hv hf
  | some tag => exact ⟨tag, rest, hv, hrest, tag?_of_record? hr, hr⟩

end Json

theorem bind_eq_some_of {α β : Type} {o : Option α} {f : α → Option β} {a : α} {b : β} (ho : o = some a)
    (hf : f a = some b) : o.bind f = some b :=
  Option.bind_eq_some_iff.mpr ⟨a, ho, hf⟩

namespace WrittenCall

variable {IsTag : Kind → Json → Prop} {kind? : Json → Option Kind}

theorem nodup_fields (k : Kind) : ("fn".toList :: k.fields).Nodup := by cases k <;> decide

theorem ofRecord?_of_records {c : WrittenCall} {j : Json} (hk : ∀ k j, IsTag k j → kind? j = some k)
    (h : Records (c.fields IsTag) j) : ofRecord? kind? j = some c := by
  cases c with
  | say channel message =>
    obtain ⟨tag, values, ht, hv, htag, hr⟩ := h.first (fun h => h) (nodup_fields .say)
    simp only [List.forall₂_cons_left_iff, List.forall₂_nil_left_iff, Field.holds_must] at hv
    obtain ⟨_, _, rfl, ⟨_, _, rfl, rfl, rfl⟩, rfl⟩ := hv
    refine bind_eq_some_of htag (bind_eq_some_of (hk _ _ ht) (bind_eq_some_of hr ?_))
    exact bind_eq_some_of (toInt32?_ofInt32 channel) rfl
  | listen channel name id message embed =>
    obtain ⟨tag, values, ht, hv, htag, hr⟩ := h.first (fun h => h) (nodup_fields .listen)
    simp only [List.forall₂_cons_left_iff, List.forall₂_nil_left_iff, Field.holds_must] at hv
    obtain ⟨_, _, rfl, ⟨_, _, hname, ⟨_, _, hid, ⟨_, _, hmessage, ⟨_, _, hembed, rfl, rfl⟩, rfl⟩, rfl⟩,
      rfl⟩, rfl⟩ := hv
    refine bind_eq_some_of htag (bind_eq_some_of (hk _ _ ht) (bind_eq_some_of hr ?_))
    refine bind_eq_some_of (toInt32?_ofInt32 channel) ?_
    refine bind_eq_some_of (Json.orElse_of_may hname rfl fun h => h) ?_
    refine bind_eq_some_of (Json.orElse_of_may hid rfl fun h => h) ?_
    refine bind_eq_some_of (Json.orElse_of_may hmessage rfl fun h => h) ?_
    exact bind_eq_some_of (Json.orElse_of_may hembed rfl fun h => h) rfl
  | setColor color face =>
    obtain ⟨tag, values, ht, hv, htag, hr⟩ := h.first (fun h => h) (nodup_fields .setColor)
    simp only [List.forall₂_cons_left_iff, List.forall₂_nil_left_iff, Field.holds_must] at hv
    obtain ⟨_, _, rfl, ⟨_, _, rfl, rfl, rfl⟩, rfl⟩ := hv
    refine bind_eq_some_of htag (bind_eq_some_of (hk _ _ ht) (bind_eq_some_of hr ?_))
    exact bind_eq_some_of (a := color) rfl (bind_eq_some_of (toInt32?_ofInt32 face) rfl)
  | raw text =>
    obtain ⟨tag, values, ht, hv, htag, hr⟩ := h.first (fun h => h) (nodup_fields .raw)
    simp only [List.forall₂_cons_left_iff, List.forall₂_nil_left_iff, Field.holds_must] at hv
    obtain ⟨_, _, rfl, rfl, rfl⟩ := hv
    exact bind_eq_some_of htag (bind_eq_some_of (hk _ _ ht) (bind_eq_some_of hr rfl))

theorem Kind.IsNamed.read {k : Kind} {j : Json} (h : k.IsNamed j) : Kind.ofName? j = some k := by
  subst h
  cases k <;> rfl

theorem Kind.IsNamedOrCounted.read {k : Kind} {j : Json} (h : k.IsNamedOrCounted j) :
    Kind.ofNameOrIndex? j = some k := by
  rcases h with h | ⟨i, hi, rfl⟩
  · have named := h.read
    rwa [show j = ofText k.name from h] at named ⊢
  · rw [Kind.ofNameOrIndex?, JsonNumber.toInt?_ofInt]
    have : (JsonNumber.ofInt i).negative = false := decide_eq_false (Int.not_lt.mpr (Int.natCast_nonneg i))
    rw [this]
    exact hi

end WrittenCall

namespace Operation
open Json (orElse_of_may)

theorem nodup_fields (k : Kind) : ("op".toList :: k.fields).Nodup := by cases k <;> decide

theorem Kind.ofName?_name (k : Kind) : Kind.ofName? (ofText k.name) = some k := by cases k <;> rfl

theorem params?_of_default (params : Option (List Text)) :
    params? ((params.map ofTexts).getD .null) = some params := by
  cases params with
  | none => rfl
  | some ts => exact congrArg (Option.map some) (toList?_ofTexts ts)

theorem ofRecord?_of_records {op : Operation} {j : Json} (h : Records op.fields j) : ofRecord? j = some op := by
  have hk : ∀ k : Kind, ∀ j, j = ofText k.name → Kind.ofName? j = some k := fun k _ he => he ▸ k.ofName?_name
  -- the fields in their order, each by its own form; the tag is read first
  cases op with
  | event state e params =>
    obtain ⟨tag, values, ht, hv, htag, hr⟩ := h.first (fun h => h) (nodup_fields .event)
    simp only [List.forall₂_cons_left_iff, List.forall₂_nil_left_iff] at hv
    obtain ⟨_, _, hstate, ⟨_, _, he, ⟨_, _, hparams, rfl, rfl⟩, rfl⟩, rfl⟩ := hv
    refine bind_eq_some_of htag (bind_eq_some_of (hk .event _ ht) (bind_eq_some_of hr ?_))
    refine bind_eq_some_of (orElse_of_may hstate rfl fun h => h) ?_
    refine bind_eq_some_of (he.required (fun h => h) fun _ => Event.WrittenAs.read) ?_
    exact bind_eq_some_of (orElse_of_may hparams (params?_of_default params) fun h => h) rfl
  | eventLine state e line =>
    obtain ⟨tag, values, ht, hv, htag, hr⟩ := h.first (fun h => h) (nodup_fields .eventLine)
    simp only [List.forall₂_cons_left_iff, List.forall₂_nil_left_iff, Field.holds_must] at hv
    obtain ⟨_, _, hstate, ⟨_, _, he, ⟨_, _, rfl, rfl, rfl⟩, rfl⟩, rfl⟩ := hv
    refine bind_eq_some_of htag (bind_eq_some_of (hk .eventLine _ ht) (bind_eq_some_of hr ?_))
    refine bind_eq_some_of (orElse_of_may hstate rfl fun h => h) ?_
    exact bind_eq_some_of (he.required (fun h => h) fun _ => Event.WrittenAs.read) rfl
  | call state e spec =>
    obtain ⟨tag, values, ht, hv, htag, hr⟩ := h.first (fun h => h) (nodup_fields .call)
    simp only [List.forall₂_cons_left_iff, List.forall₂_nil_left_iff] at hv
    obtain ⟨_, _, hstate, ⟨_, _, he, ⟨_, _, hspec, rfl, rfl⟩, rfl⟩, rfl⟩ := hv
    refine bind_eq_some_of htag (bind_eq_some_of (hk .call _ ht) (bind_eq_some_of hr ?_))
    refine bind_eq_some_of (orElse_of_may hstate rfl fun h => h) ?_
    refine bind_eq_some_of (he.required (fun h => h) fun _ => Event.WrittenAs.read) ?_
    exact bind_eq_some_of (hspec.required (fun h => h) fun _ =>
      WrittenCall.ofRecord?_of_records fun _ _ => WrittenCall.Kind.IsNamedOrCounted.read) rfl
  | function name params =>
    obtain ⟨tag, values, ht, hv, htag, hr⟩ := h.first (fun h => h) (nodup_fields .function)
    simp only [List.forall₂_cons_left_iff, List.forall₂_nil_left_iff] at hv
    obtain ⟨_, _, hname, ⟨_, _, hparams, rfl, rfl⟩, rfl⟩ := hv
    rw [Field.holds_must] at hname
    subst hname
    refine bind_eq_some_of htag (bind_eq_some_of (hk .function _ ht) (bind_eq_some_of hr ?_))
    refine bind_eq_some_of (a := name) rfl ?_
    exact bind_eq_some_of (orElse_of_may hparams (toList?_map ofTexts toList?_ofTexts params) fun h => h) rfl
  | functionLine name line =>
    obtain ⟨tag, values, ht, hv, htag, hr⟩ := h.first (fun h => h) (nodup_fields .functionLine)
    simp only [List.forall₂_cons_left_iff, List.forall₂_nil_left_iff, Field.holds_must] at hv
    obtain ⟨_, _, rfl, ⟨_, _, rfl, rfl, rfl⟩, rfl⟩ := hv
    exact bind_eq_some_of htag (bind_eq_some_of (hk .functionLine _ ht) (bind_eq_some_of hr rfl))
  | functionBlankLine name =>
    obtain ⟨tag, values, ht, hv, htag, hr⟩ := h.first (fun h => h) (nodup_fields .functionBlankLine)
    simp only [List.forall₂_cons_left_iff, List.forall₂_nil_left_iff, Field.holds_must] at hv
    obtain ⟨_, _, rfl, rfl, rfl⟩ := hv
    exact bind_eq_some_of htag (bind_eq_some_of (hk .functionBlankLine _ ht) (bind_eq_some_of hr rfl))

end Operation

/-! ## Depth and soundness -/

namespace Json

theorem within_ofText (t : Text) : Within 0 (ofText t) := IsSimple.within rfl

theorem within_null : Within 0 .null := IsSimple.within (j := .null) trivial

theorem within_bool (b : Bool) : Within 0 (.bool b) := IsSimple.within trivial

theorem within_ofInt {i : Int} (h : i.natAbs < Nat.pow 2 64) : Within 0 (.number (.ofInt i)) :=
  ⟨JsonNumber.isFinite_ofInt h, Nat.le_refl 0⟩

theorem within_ofInt32 (n : Int32) : Within 0 (ofInt32 n) := by
  have least := n.le_toInt
  have most := n.toInt_lt
  have small : n.toInt.natAbs < 18446744073709551616 := by omega
  exact within_ofInt small

theorem within_ofTexts (ts : List Text) : Within 1 (ofTexts ts) :=
  within_array (List.forall_mem_map.mpr fun t _ => within_ofText t)

end Json

open Json (within_null within_ofText within_ofInt32 within_bool within_ofTexts within_array)

theorem Event.WrittenAs.within {e : Event} {j : Json} (h : e.WrittenAs j) : Json.Within 2 j := by
  have empty : Json.Within 1 (ofMembers []) := Json.within_ofMembers nofun
  rcases h with rfl | rfl | rfl
  · exact (Json.within_ofText e.name).mono (by omega)
  · exact (Json.within_ofMembers (List.forall_mem_singleton.mpr within_null)).mono (by omega)
  · exact Json.within_ofMembers (List.forall_mem_singleton.mpr empty)

theorem WrittenCall.Kind.IsNamedOrCounted.within {k : Kind} {j : Json} (h : k.IsNamedOrCounted j) :
    Json.Within 0 j := by
  rcases h with rfl | ⟨i, hi, rfl⟩
  · exact Json.within_ofText k.name
  · obtain ⟨few, -⟩ := List.getElem?_eq_some_iff.mp hi
    exact Json.within_ofInt (Nat.lt_trans few (by decide))

theorem WrittenCall.within_of_records {c : WrittenCall} {IsTag : Kind → Json → Prop} {j : Json}
    (hk : ∀ k j, IsTag k j → Json.Within 0 j) (h : Records (c.fields IsTag) j) : Json.Within 1 j := by
  refine h.within ?_
  cases c with
  | say channel message => simpa [fields] using ⟨hk .say, within_ofInt32 channel, within_ofText message⟩
  | listen channel name id message embed =>
    simpa [fields] using ⟨hk .listen, within_ofInt32 channel, within_ofText name, within_ofText id,
      within_ofText message, within_bool embed⟩
  | setColor color face => simpa [fields] using ⟨hk .setColor, within_ofText color, within_ofInt32 face⟩
  | raw text => simpa [fields] using ⟨hk .raw, within_ofText text⟩

namespace Operation

theorem within_fields (op : Operation) : ∀ f ∈ op.fields, ∀ j, f.Fits j → Json.Within 2 j := by
  have text (t : Text) : Json.Within 2 (ofText t) := (within_ofText t).mono (by omega)
  cases op with
  | event state e params =>
    have names : Json.Within 2 ((params.map ofTexts).getD .null) := by
      cases params with
      | none => exact within_null.mono (by omega)
      | some ts => exact (within_ofTexts ts).mono (by omega)
    simpa [fields, text] using ⟨fun j => Event.WrittenAs.within, names⟩
  | eventLine state e line => simpa [fields, text] using fun j => Event.WrittenAs.within
  | call state e spec =>
    have nested (j : Json) (h : Records (spec.fields WrittenCall.Kind.IsNamedOrCounted) j) : Json.Within 2 j :=
      (WrittenCall.within_of_records (fun _ _ => WrittenCall.Kind.IsNamedOrCounted.within) h).mono (by omega)
    simpa [fields, text] using ⟨fun j => Event.WrittenAs.within, nested⟩
  | function name params =>
    have lists : Json.Within 2 (.array (params.map ofTexts)) :=
      within_array (List.forall_mem_map.mpr fun ts _ => within_ofTexts ts)
    simpa [fields, text] using lists
  | functionLine name line => simp [fields, text]
  | functionBlankLine name => simp [fields, text]

theorem within_of_records {op : Operation} {j : Json} (h : Records op.fields j) : Json.Within 3 j :=
  h.within op.within_fields

end Operation

theorem Json.Within.isAcceptable {bound outer : Nat} {j : Json} (h : j.Within bound)
    (hb : outer + bound ≤ maxDepth) : j.isAcceptable outer = true := by
  have shallow : outer + j.depth ≤ maxDepth := Nat.le_trans (Nat.add_le_add_left h.2 outer) hb
  rw [Json.isAcceptable, h.1, decide_eq_true shallow, Bool.and_self]

theorem WrittenCall.ofJson?_of_records {c : WrittenCall} {j : Json} (h : Records (c.fields Kind.IsNamed) j) :
    ofJson? j = some c := by
  have within := within_of_records (fun k _ (hk : k.IsNamed _) => Kind.IsNamedOrCounted.within (.inl hk)) h
  rw [ofJson?, if_pos (within.isAcceptable (by decide))]
  exact ofRecord?_of_records (fun _ _ => Kind.IsNamed.read) h

theorem Operation.ofJson?_of_records {op : Operation} {j : Json} {outer : Nat} (h : Records op.fields j)
    (ho : outer + 3 ≤ maxDepth) : ofJson? outer j = some op := by
  rw [ofJson?, if_pos ((within_of_records h).isAcceptable ho)]
  exact ofRecord?_of_records h

theorem Recipe.ofJson?_of_records {r : Recipe} {j : Json} (h : Records r.fields j) : ofJson? j = some r := by
  have names : (Field.names r.fields).Nodup := (by decide : ["schemaVersion".toList, "operations".toList].Nodup)
  obtain ⟨values, hr, hv⟩ := h.record? names
  simp only [fields, List.forall₂_cons_left_iff, List.forall₂_nil_left_iff, Field.holds_must] at hv
  obtain ⟨_, _, rfl, ⟨_, _, ho, rfl, rfl⟩, rfl⟩ := hv
  have read (j : Json) : (∃ items, j = .array items ∧
      List.Forall₂ (fun op j => Records op.fields j) r.operations items) →
      toList? (Operation.ofJson? 2) j = some r.operations := by
    rintro ⟨items, rfl, hi⟩
    exact toList?_of_forall₂ (hi.imp fun op j hj => Operation.ofJson?_of_records hj (by decide))
  refine bind_eq_some_of hr (bind_eq_some_of (a := r.schemaVersion) rfl ?_)
  exact bind_eq_some_of (ho.orElse (fun h => h) read) rfl

theorem Param.ofJson?_of_records {p : Param} {j : Json} (h : Records p.fields j) : ofJson? j = some p := by
  have names : (Field.names p.fields).Nodup := (by decide : ["ty".toList, "ident".toList].Nodup)
  obtain ⟨values, hr, hv⟩ := h.record? names
  simp only [fields, List.forall₂_cons_left_iff, List.forall₂_nil_left_iff, Field.holds_must] at hv
  obtain ⟨_, _, ht, ⟨_, _, rfl, rfl, rfl⟩, rfl⟩ := hv
  refine bind_eq_some_of hr (bind_eq_some_of (ht.required (fun h => h) fun _ => ValueType.WrittenAs.read) rfl)

end LslScript
