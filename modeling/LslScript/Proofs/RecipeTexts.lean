import LslScript.Proofs.JsonTexts
import LslScript.Proofs.RecipeForms
import LslScript.Recipe.Writing

/-!
# Recipes as texts

A recipe and its parts are read back from the texts that are printed of them (`ofText?_text`), and from every
other text that gives them; a text that gives the kind or a field of an operation or of a call twice is
refused (`ofText?_of_spells`).
-/

namespace LslScript

open Json (Field Records Repeats Spells GivenBy ofText ofTexts ofInt32 ofMembers)

namespace Json

theorem records_of_given {fields : List Field} {given : List (Text × Json)} (h : GivenBy fields given) :
    Records fields (ofMembers given) :=
  @Records.object fields given [] given h nofun (by rw [List.append_nil])

end Json

open Json (records_of_given spelledBy_quoted spelledBy_integer spelledBy_bool spelledBy_array spelledBy_ofMembers)

theorem WrittenCall.records_toJson (c : WrittenCall) (IsTag : Kind → Json → Prop)
    (h : ∀ k, IsTag k (ofText k.name)) : Records (c.fields IsTag) c.toJson := by
  cases c with
  | say => exact records_of_given (.given (h .say) (.given rfl (.given rfl .nil)))
  | listen =>
    exact records_of_given (.given (h .listen)
      (.given rfl (.given rfl (.given rfl (.given rfl (.given rfl .nil))))))
  | setColor => exact records_of_given (.given (h .setColor) (.given rfl (.given rfl .nil)))
  | raw => exact records_of_given (.given (h .raw) (.given rfl .nil))

theorem WrittenCall.spelledBy_toJson (c : WrittenCall) : c.toJson.SpelledBy c.toJson.text := by
  cases c
  all_goals
    refine spelledBy_ofMembers ?_
    simp [spelledBy_quoted, spelledBy_integer, spelledBy_bool]

theorem Json.spelledBy_ofTexts (ts : List Text) : (ofTexts ts).SpelledBy (ofTexts ts).text :=
  spelledBy_array (List.forall_mem_map.mpr fun t _ => spelledBy_quoted t)

theorem Operation.records_toJson (op : Operation) : Records op.fields op.toJson := by
  cases op with
  | event => exact records_of_given (.given rfl (.given rfl (.given (.inl rfl) (.given rfl .nil))))
  | eventLine => exact records_of_given (.given rfl (.given rfl (.given (.inl rfl) (.given rfl .nil))))
  | call state e spec =>
    have nested := spec.records_toJson WrittenCall.Kind.IsNamedOrCounted fun _ => .inl rfl
    exact records_of_given (.given rfl (.given rfl (.given (.inl rfl) (.given nested .nil))))
  | function => exact records_of_given (.given rfl (.given rfl (.given rfl .nil)))
  | functionLine => exact records_of_given (.given rfl (.given rfl (.given rfl .nil)))
  | functionBlankLine => exact records_of_given (.given rfl (.given rfl .nil))

theorem Operation.spelledBy_toJson (op : Operation) : op.toJson.SpelledBy op.toJson.text := by
  refine spelledBy_ofMembers (List.forall_mem_cons.mpr ⟨spelledBy_quoted _, ?_⟩)
  cases op with
  | event state e params =>
    have names : ((params.map ofTexts).getD .null).SpelledBy ((params.map ofTexts).getD .null).text := by
      cases params with
      | none => exact .null
      | some ts => exact Json.spelledBy_ofTexts ts
    simp [members, spelledBy_quoted, names]
  | call state e spec => simp [members, spelledBy_quoted, spec.spelledBy_toJson]
  | function name params =>
    have lists := spelledBy_array (List.forall_mem_map.mpr fun ts (_ : ts ∈ params) => Json.spelledBy_ofTexts ts)
    simp [members, spelledBy_quoted, lists]
  | eventLine | functionLine | functionBlankLine => simp [members, spelledBy_quoted]

theorem Recipe.records_toJson (r : Recipe) : Records r.fields r.toJson := by
  have operations : List.Forall₂ (fun op j => Records (Operation.fields op) j) r.operations
      (r.operations.map Operation.toJson) :=
    List.forall₂_map_right_iff.mpr (List.forall₂_same.mpr fun op _ => op.records_toJson)
  exact records_of_given (.given rfl (.given ⟨_, rfl, operations⟩ .nil))

theorem Recipe.spelledBy_toJson (r : Recipe) : r.toJson.SpelledBy r.toJson.text := by
  have operations := spelledBy_array (List.forall_mem_map.mpr
    fun op (_ : op ∈ r.operations) => op.spelledBy_toJson)
  refine spelledBy_ofMembers ?_
  simp [spelledBy_quoted, operations]

theorem Param.records_toJson (p : Param) : Records p.fields p.toJson :=
  records_of_given (.given (.inl rfl) (.given rfl .nil))

theorem Param.spelledBy_toJson (p : Param) : p.toJson.SpelledBy p.toJson.text := by
  refine spelledBy_ofMembers ?_
  simp [spelledBy_quoted]

/-! ## Reading texts -/

variable {t : Text} {j : Json}

theorem Recipe.ofText?_of_records {r : Recipe} (h : Records r.fields j) (ht : Spells t j) : ofText? t = some r :=
  bind_eq_some_of ht.ofText? (ofJson?_of_records h)

theorem Operation.ofText?_of_records {op : Operation} (h : Records op.fields j) (ht : Spells t j) :
    ofText? t = some op :=
  bind_eq_some_of ht.ofText? (ofJson?_of_records h (by decide))

theorem WrittenCall.ofText?_of_records {c : WrittenCall} (h : Records (c.fields Kind.IsNamed) j)
    (ht : Spells t j) : ofText? t = some c :=
  bind_eq_some_of ht.ofText? (ofJson?_of_records h)

theorem Param.ofText?_of_records {p : Param} (h : Records p.fields j) (ht : Spells t j) : ofText? t = some p :=
  bind_eq_some_of ht.ofText? (ofJson?_of_records h)

/-- What is printed is read back. -/
theorem ofText?_text (r : Recipe) (op : Operation) (c : WrittenCall) (p : Param) :
    Recipe.ofText? r.toJson.text = some r ∧ Operation.ofText? op.toJson.text = some op ∧
      WrittenCall.ofText? c.toJson.text = some c ∧ Param.ofText? p.toJson.text = some p := by
  refine ⟨?_, ?_, ?_, ?_⟩
  · exact Recipe.ofText?_of_records r.records_toJson r.spelledBy_toJson.spells
  · exact Operation.ofText?_of_records op.records_toJson op.spelledBy_toJson.spells
  · exact WrittenCall.ofText?_of_records (c.records_toJson _ fun _ => rfl) c.spelledBy_toJson.spells
  · exact Param.ofText?_of_records p.records_toJson p.spelledBy_toJson.spells

open Json (RepeatsTagged members_of_record? eq_some_of_member? eq_of_tag?)

variable {members : List (Text × Json)}

namespace WrittenCall

def Repeated (IsTag : Kind → Json → Prop) (members : List (Text × Json)) : Prop :=
  RepeatsTagged "fn" IsTag Kind.fields members

theorem ofRecord?_of_repeated {IsTag : Kind → Json → Prop} {kind? : Json → Option Kind}
    (hk : ∀ k j, IsTag k j → kind? j = some k) (h : Repeated IsTag members) :
    ofRecord? kind? (ofMembers members) = none := by
  refine Option.bind_eq_none_iff.mpr fun tag ht => Option.bind_eq_none_iff.mpr fun kind hkind =>
    Option.bind_eq_none_iff.mpr fun values hr => ?_
  exact absurd ((h.record?_eq_none hk ht hkind).symm.trans hr) nofun

end WrittenCall

namespace Operation

def Repeated (members : List (Text × Json)) : Prop :=
  RepeatsTagged "op" (fun k j => j = ofText k.name) Kind.fields members

theorem ofRecord?_of_repeated (h : Repeated members) : ofRecord? (ofMembers members) = none := by
  refine Option.bind_eq_none_iff.mpr fun tag ht => Option.bind_eq_none_iff.mpr fun kind hkind =>
    Option.bind_eq_none_iff.mpr fun values hr => ?_
  have none := h.record?_eq_none (fun k _ he => he ▸ k.ofName?_name) ht hkind
  exact absurd (none.symm.trans hr) nofun

inductive HoldsCall (spec : Json) : Json → Prop
  | object {members : List (Text × Json)} : ("op".toList, ofText Kind.call.name) ∈ members →
    ("call".toList, spec) ∈ members → HoldsCall spec (ofMembers members)
  | array (state event : Json) : HoldsCall spec (.array [ofText Kind.call.name, state, event, spec])

theorem ofRecord?_of_holdsCall {spec : Json} (h : HoldsCall spec j)
    (hs : WrittenCall.ofRecord? WrittenCall.Kind.ofNameOrIndex? spec = none) : ofRecord? j = none := by
  refine Option.bind_eq_none_iff.mpr fun tag ht => Option.bind_eq_none_iff.mpr fun kind hkind =>
    Option.bind_eq_none_iff.mpr fun values hr => ?_
  obtain ⟨state, e, rfl, hv⟩ : ∃ state e, kind = .call ∧ ∃ tag, values = [tag, state, e, some spec] := by
    cases h with
    | object hop hcall =>
      cases eq_of_tag? hop ht
      cases Kind.call.ofName?_name.symm.trans hkind
      have found := members_of_record? hr
      simp only [Kind.fields, List.forall₂_cons_left_iff, List.forall₂_nil_left_iff] at found
      obtain ⟨tag, _, -, ⟨state, _, -, ⟨e, _, -, ⟨call, _, hv, rfl, rfl⟩, rfl⟩, rfl⟩, rfl⟩ := found
      cases eq_some_of_member? hcall hv
      exact ⟨state, e, rfl, tag, rfl⟩
    | array state e =>
      cases ht
      cases Kind.call.ofName?_name.symm.trans hkind
      cases hr
      exact ⟨_, _, rfl, _, rfl⟩
  obtain ⟨tag, rfl⟩ := hv
  refine Option.bind_eq_none_iff.mpr fun _ _ => Option.bind_eq_none_iff.mpr fun _ _ => ?_
  exact Option.bind_eq_none_iff.mpr fun c hc => absurd (hs.symm.trans hc) nofun

end Operation

theorem Operation.ofText?_eq_none (ht : Spells t j) (h : ofRecord? j = none) : ofText? t = none := by
  rw [Operation.ofText?, ht.ofText?]
  show ofJson? 0 j = none
  rw [ofJson?, h, ite_self]

theorem WrittenCall.ofText?_eq_none (ht : Spells t j) (h : ofRecord? Kind.ofName? j = none) :
    ofText? t = none := by
  rw [WrittenCall.ofText?, ht.ofText?]
  show ofJson? j = none
  rw [ofJson?, h, ite_self]

/-- What a text gives by any record is read, and what gives a kind or a field twice is refused. -/
theorem ofText?_of_spells (h : Spells t j) :
    (∀ op : Operation, Records op.fields j → Operation.ofText? t = some op) ∧
    (∀ c : WrittenCall, Records (c.fields WrittenCall.Kind.IsNamed) j → WrittenCall.ofText? t = some c) ∧
    (∀ members, j = ofMembers members → Operation.Repeated members → Operation.ofText? t = none) ∧
    (∀ members, j = ofMembers members → WrittenCall.Repeated WrittenCall.Kind.IsNamed members →
      WrittenCall.ofText? t = none) ∧
    (∀ members, Operation.HoldsCall (ofMembers members) j →
      WrittenCall.Repeated WrittenCall.Kind.IsNamedOrCounted members → Operation.ofText? t = none) := by
  refine ⟨fun op ho => ?_, fun c hc => ?_, ?_, ?_, fun members hj hm => ?_⟩
  · exact Operation.ofText?_of_records ho h
  · exact WrittenCall.ofText?_of_records hc h
  · rintro members rfl hm
    exact Operation.ofText?_eq_none h (Operation.ofRecord?_of_repeated hm)
  · rintro members rfl hm
    exact WrittenCall.ofText?_eq_none h
      (WrittenCall.ofRecord?_of_repeated (fun _ _ => WrittenCall.Kind.IsNamed.read) hm)
  · refine Operation.ofText?_eq_none h (Operation.ofRecord?_of_holdsCall hj ?_)
    exact WrittenCall.ofRecord?_of_repeated (fun _ _ => WrittenCall.Kind.IsNamedOrCounted.read) hm

/-- Members in another order with one more and spaces, a call as an array, and names given twice. -/
theorem ofText?_of_spells_forms :
    Operation.ofText? "\x7b \"name\":\"f\", \"x\":null,\"op\":\"functionBlankLine\"\x7d" =
        some (.functionBlankLine "f") ∧
      WrittenCall.ofText? "[\"llListen\",5]" = some (.listen 5 [] [] [] false) ∧
      Operation.ofText? "\x7b\"op\":\"functionBlankLine\",\"name\":\"f\",\"name\":\"f\"\x7d" = none ∧
      WrittenCall.ofText? "\x7b\"fn\":\"raw\",\"text\":\"a\",\"fn\":\"raw\"\x7d" = none ∧
      Operation.ofText? "[\"call\",\"\",\"timer\",\x7b\"fn\":\"raw\",\"text\":\"a\",\"text\":\"b\"\x7d]" =
        none := by
  have text (s : Text) := Json.spelledBy_quoted s
  have space : JsonToken.IsGap [' '] := List.forall_mem_singleton.mpr rfl
  have none := JsonToken.isGap_nil
  have word (s : Text) := Spelling.spelledBy_flatMap_write s
  refine ⟨?_, ?_, ?_, ?_, ?_⟩
  · have members := Json.MembersSpelledBy.cons space (word "name") none none (text "f") none
      (.cons space (word "x") none none .null none
        (.last none (word "op") none none (text "functionBlankLine") none))
    refine (ofText?_of_spells (Json.SpelledBy.object members).spells).1 _ ?_
    have further : ∀ m ∈ [("x".toList, Json.null)],
        m.1 ∉ Field.names (Operation.fields (.functionBlankLine "f")) ∧ m.2.IsSimple :=
      List.forall_mem_singleton.mpr ⟨by decide, trivial⟩
    exact .object (.given rfl (.given rfl .nil)) further (List.perm_append_singleton _ [_, _])
  · have items : ∀ j ∈ [ofText "llListen", ofInt32 5], j.SpelledBy j.text := by
      simp [spelledBy_quoted, spelledBy_integer]
    refine (ofText?_of_spells (spelledBy_array items).spells).2.1 _ ?_
    exact .array (.given rfl (.given rfl (.lacking (by simp [Field.may]))))
  · have members : ∀ m ∈ [("op".toList, ofText "functionBlankLine"), ("name".toList, ofText "f"),
        ("name".toList, ofText "f")], m.2.SpelledBy m.2.text := by
      simp [spelledBy_quoted]
    refine (ofText?_of_spells (spelledBy_ofMembers members).spells).2.2.1 _ rfl ?_
    exact .inr ⟨.functionBlankLine, _, rfl, List.mem_cons_self .., "name", by decide, by decide⟩
  · have members : ∀ m ∈ [("fn".toList, ofText "raw"), ("text".toList, ofText "a"), ("fn".toList, ofText "raw")],
        m.2.SpelledBy m.2.text := by
      simp [spelledBy_quoted]
    refine (ofText?_of_spells (spelledBy_ofMembers members).spells).2.2.2.1 _ rfl ?_
    exact .inl ⟨"fn", List.mem_singleton.mpr rfl, by decide⟩
  · have members : ∀ m ∈ [("fn".toList, ofText "raw"), ("text".toList, ofText "a"), ("text".toList, ofText "b")],
        m.2.SpelledBy m.2.text := by
      simp [spelledBy_quoted]
    have items : ∀ j ∈ [ofText "call", ofText [], ofText "timer", ofMembers _], j.SpelledBy j.text :=
      List.forall_mem_cons.mpr ⟨text _, List.forall_mem_cons.mpr ⟨text _, List.forall_mem_cons.mpr ⟨text _,
        List.forall_mem_singleton.mpr (spelledBy_ofMembers members)⟩⟩⟩
    refine (ofText?_of_spells (spelledBy_array items).spells).2.2.2.2 _ (.array _ _) ?_
    exact .inr ⟨.raw, _, .inl rfl, List.mem_cons_self .., "text", by decide, by decide⟩

end LslScript
