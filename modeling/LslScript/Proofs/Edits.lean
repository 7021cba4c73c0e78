import LslScript.Proofs.WellFormed
import LslScript.Draft.Edit

/-!
# What edits do

For each edit, what is known when it succeeds: the checks that passed and the script and the registry
that it leaves (`appendHandler_ok`, `addEventLine_ok`, ...). The script operations behind them keep
scripts well-formed.
-/

namespace LslScript

section
variable {α β : Type} {p : α → Bool} {f : α → α}

theorem map_modifyFirst {key : α → β} (h : ∀ a, key (f a) = key a) :
    ∀ l : List α, (modifyFirst p f l).map key = l.map key
  | [] => rfl
  | a :: l => by
    unfold modifyFirst
    split
    · simp [h]
    · rw [List.map_cons, List.map_cons, map_modifyFirst h l]

theorem mem_modifyFirst {b : α} : ∀ {l : List α},
    b ∈ modifyFirst p f l → b ∈ l ∨ ∃ a ∈ l, p a = true ∧ b = f a
  | a :: l, hb => by
    unfold modifyFirst at hb
    split at hb
    · rename_i hp
      rcases List.mem_cons.mp hb with rfl | hb
      · exact Or.inr ⟨a, List.mem_cons_self .., hp, rfl⟩
      · exact Or.inl (List.mem_cons_of_mem _ hb)
    · rcases List.mem_cons.mp hb with rfl | hb
      · exact Or.inl (List.mem_cons_self ..)
      · rcases mem_modifyFirst hb with h | ⟨c, hc, h⟩
        · exact Or.inl (List.mem_cons_of_mem _ h)
        · exact Or.inr ⟨c, List.mem_cons_of_mem _ hc, h⟩

/-- The item that is found is the one that is changed, and what is around it stays. -/
theorem exists_split_of_find? {a : α} : ∀ {l : List α}, l.find? p = some a →
    ∃ before after, l = before ++ a :: after ∧ p a = true ∧
      ∀ f, modifyFirst p f l = before ++ f a :: after
  | b :: l, h => by
    by_cases hb : p b = true
    · rw [List.find?_cons_of_pos hb] at h
      cases h
      exact ⟨[], l, rfl, hb, fun f => if_pos hb⟩
    · rw [List.find?_cons_of_neg hb] at h
      obtain ⟨before, after, rfl, ha, modify⟩ := exists_split_of_find? h
      refine ⟨b :: before, after, rfl, ha, fun f => ?_⟩
      rw [modifyFirst, if_neg hb, modify, List.cons_append]

/-- The item with a key is found by it when no two items have the same. -/
theorem find?_of_mem [BEq β] [LawfulBEq β] {key : α → β} {a : α} :
    ∀ {l : List α}, (l.map key).Nodup → a ∈ l →
    l.find? (key · == key a) = some a
  | b :: l, hn, ha => by
    rw [List.map_cons, List.nodup_cons] at hn
    rcases List.mem_cons.mp ha with rfl | ha
    · rw [List.find?_cons_of_pos (by simp)]
    · have hne : key b ≠ key a := fun he => hn.1 (he ▸ List.mem_map_of_mem ha)
      rw [List.find?_cons_of_neg (by simpa using hne), find?_of_mem hn.2 ha]

end

theorem Script.state?_of_mem {s : Script} (hn : (s.states.map (·.name)).Nodup) {b : StateDef}
    (hb : b ∈ s.states) : s.state? b.name = some b := find?_of_mem hn hb

namespace Registry

theorem isWritten_cons (r : Registry) (n m : StateName) (w : Bool) :
    isWritten ((n, w) :: r) m = if m = n then w else r.isWritten m := by
  unfold isWritten
  rw [List.lookup_cons]
  by_cases h : m = n
  · simp [h]
  · rw [beq_eq_false_iff_ne.mpr h, if_neg h]

theorem isWritten_declare (r : Registry) (n m : StateName) :
    (r.declare n).isWritten m = r.isWritten m := by
  unfold declare
  split
  · rfl
  · rename_i h
    rw [isWritten_cons]
    split
    · rename_i hm
      subst hm
      simp only [Bool.not_eq_true, Option.isSome_eq_false_iff, Option.isNone_iff_eq_none] at h
      rw [isWritten, h]
      rfl
    · rfl

theorem isWritten_markWritten (r : Registry) (n m : StateName) :
    (r.markWritten n).isWritten m = true ↔ m = n ∨ r.isWritten m = true := by
  rw [markWritten, isWritten_cons]
  by_cases h : m = n
  · simp [h]
  · simp [h]

theorem isWritten_ofScript (s : Script) (m : StateName) :
    (ofScript s).isWritten m = true ↔ m ∈ s.states.map (·.name) := by
  have run : ∀ (bs : List StateDef) (r : Registry),
      isWritten (bs.foldl (fun r b => r.markWritten b.name) r) m = true ↔
        m ∈ bs.map (·.name) ∨ r.isWritten m = true := by
    intro bs
    induction bs with
    | nil => intro r; simp
    | cons b bs ih =>
      intro r
      rw [List.foldl_cons, ih, isWritten_markWritten, List.map_cons, List.mem_cons]
      tauto
  rw [ofScript, run]
  simp [isWritten]

end Registry

/-! ## Content of bodies -/

theorem not_mem_of_firstDelimiter? {t : Text} (h : Placeholder.firstDelimiter? t = none)
    (d : Delimiter) : d.char ∉ t := fun hm => by
  rw [Placeholder.firstDelimiter?, List.findSome?_eq_none_iff] at h
  have := h d.char hm
  cases d <;> revert this <;> decide

theorem not_mem_indent {c : Char} (hc : c ≠ ' ') (depth : Nat) : c ∉ indent depth := by
  intro hm
  simp only [indent, List.mem_flatten, List.mem_replicate] at hm
  obtain ⟨u, ⟨_, rfl⟩, hu⟩ := hm
  revert hu
  simp [indentUnit, hc]

theorem bodyLines_eq_ok_iff {depth : Nat} {content : Text} {ls : List Text} :
    bodyLines depth content = .ok ls ↔ (content.isBlank = true ∧ ls = []) ∨
      (content.isBlank = false ∧ Placeholder.firstDelimiter? content = none ∧
        ls = Text.lines (indent depth ++ content)) := by
  unfold bodyLines
  cases hb : content.isBlank with
  | true => simp [eq_comm]
  | false =>
    cases hd : Placeholder.firstDelimiter? content with
    | some d => simp
    | none => simp [eq_comm]

/-- What is put into a body has no newline in a line and no delimiter at all. -/
theorem not_mem_of_bodyLines {depth : Nat} {content : Text} {ls : List Text}
    (h : bodyLines depth content = .ok ls) : ∀ l ∈ ls, '\n' ∉ l ∧ ∀ d : Delimiter, d.char ∉ l := by
  rcases bodyLines_eq_ok_iff.mp h with ⟨_, rfl⟩ | ⟨_, hd, rfl⟩
  · simp
  · intro l hl
    refine ⟨Text.newline_not_mem_of_mem_lines hl, fun d hm => ?_⟩
    rcases List.mem_append.mp (Text.mem_of_mem_lines hl hm) with hi | hc
    · exact not_mem_indent (by cases d <;> decide) depth hi
    · exact not_mem_of_firstDelimiter? hd d hc

theorem startsWith_eq_false {c : Char} {start l : Text} (hs : c ∈ start) (hl : c ∉ l) :
    Text.startsWith start l = false := by
  refine Bool.eq_false_iff.mpr fun h => hl ?_
  obtain ⟨rest, rfl⟩ := List.isPrefixOf_iff_prefix.mp h
  exact List.mem_append_left _ hs

/-! ## Operations on scripts -/

theorem FunctionDef.WellFormed.addLines {b : FunctionDef} (h : b.WellFormed) {ls : List Text}
    (hl : ∀ l ∈ ls, '\n' ∉ l ∧ ∀ d : Delimiter, d.char ∉ l) :
    FunctionDef.WellFormed { b with body := b.body ++ ls } := by
  refine ⟨h.name, h.params, fun l hm => ?_, h.ending⟩
  rcases List.mem_append.mp hm with hm | hm
  · exact h.body l hm
  · exact ⟨startsWith_eq_false (by decide) ((hl l hm).2 .closeBrace), (hl l hm).1⟩

theorem Handler.WellFormed.addLines {b : Handler} (h : b.WellFormed) {ls : List Text}
    (hl : ∀ l ∈ ls, '\n' ∉ l ∧ ∀ d : Delimiter, d.char ∉ l) :
    Handler.WellFormed { b with body := b.body ++ ls } := by
  refine ⟨h.params, h.types, fun l hm => ?_, h.ending⟩
  rcases List.mem_append.mp hm with hm | hm
  · exact h.body l hm
  · have brace := (hl l hm).2 .closeBrace
    exact ⟨⟨startsWith_eq_false (by decide) brace, startsWith_eq_false (by decide) brace⟩, (hl l hm).1⟩

namespace Script.WellFormed
variable {s : Script}

theorem addFunction (h : s.WellFormed) {b : FunctionDef} (hb : b.WellFormed)
    (hn : b.name ∉ s.functions.map (·.name)) : (s.addFunction b).WellFormed := by
  refine ⟨List.nodup_cons.mpr ⟨hn, h.functionNames⟩, h.stateNames, fun c hc => ?_, h.states⟩
  rcases List.mem_cons.mp hc with rfl | hc
  · exact hb
  · exact h.functions c hc

theorem addState (h : s.WellFormed) {b : StateDef} (hb : b.WellFormed)
    (hn : b.name ∉ s.states.map (·.name)) : (s.addState b).WellFormed := by
  refine ⟨h.functionNames, ?_, h.functions, fun c hc => ?_⟩
  · simpa [Script.addState] using List.Nodup.concat hn h.stateNames
  · rcases List.mem_append.mp hc with hc | hc
    · exact h.states c hc
    · rw [List.mem_singleton.mp hc]; exact hb

/-- A change of one state that keeps its name and leaves it well-formed. -/
theorem modifyState (h : s.WellFormed) {p : StateDef → Bool} {f : StateDef → StateDef}
    (hname : ∀ b, (f b).name = b.name) (hf : ∀ b ∈ s.states, p b = true → (f b).WellFormed) :
    Script.WellFormed { s with states := modifyFirst p f s.states } := by
  refine ⟨h.functionNames, ?_, h.functions, fun c hc => ?_⟩
  · rw [map_modifyFirst hname]; exact h.stateNames
  · rcases mem_modifyFirst hc with hc | ⟨b, hb, hp, rfl⟩
    · exact h.states c hc
    · exact hf b hb hp

theorem addHandler (h : s.WellFormed) {name : StateName} {b : Handler} (hb : b.WellFormed)
    (hn : ∀ state ∈ s.states, state.name = name → b.event ∉ state.handlers.map (·.event)) :
    (s.addHandler name b).WellFormed := by
  refine h.modifyState (fun _ => rfl) fun state hm hp => ?_
  have hs := h.states state hm
  refine ⟨hs.name, ?_, fun c hc => ?_, hs.ending⟩
  · simpa using List.Nodup.concat (hn state hm (by simpa using hp)) hs.events
  · rcases List.mem_append.mp hc with hc | hc
    · exact hs.handlers c hc
    · rw [List.mem_singleton.mp hc]; exact hb

theorem addEventLines (h : s.WellFormed) (name : StateName) (e : Event) {ls : List Text}
    (hl : ∀ l ∈ ls, '\n' ∉ l ∧ ∀ d : Delimiter, d.char ∉ l) : (s.addEventLines name e ls).WellFormed := by
  refine h.modifyState (fun _ => rfl) fun state hm _ => ?_
  have hs := h.states state hm
  refine ⟨hs.name, ?_, fun c hc => ?_, hs.ending⟩
  · rw [map_modifyFirst (by intro; rfl)]; exact hs.events
  · rcases mem_modifyFirst hc with hc | ⟨b, hb, _, rfl⟩
    · exact hs.handlers c hc
    · exact (hs.handlers b hb).addLines hl

theorem addFunctionLines (h : s.WellFormed) (name : Text) {ls : List Text}
    (hl : ∀ l ∈ ls, '\n' ∉ l ∧ ∀ d : Delimiter, d.char ∉ l) : (s.addFunctionLines name ls).WellFormed := by
  refine ⟨?_, h.stateNames, fun c hc => ?_, h.states⟩
  · simp only [Script.addFunctionLines]
    rw [map_modifyFirst (by intro; rfl)]
    exact h.functionNames
  · rcases mem_modifyFirst hc with hc | ⟨b, hb, _, rfl⟩
    · exact h.functions c hc
    · exact (h.functions b hb).addLines hl

end Script.WellFormed

theorem mapError_eq_ok_iff {ε ε' α : Type} {f : ε → ε'} {x : Except ε α} {a : α} :
    x.mapError f = .ok a ↔ x = .ok a := by
  cases x with
  | ok b => simp [Except.mapError]
  | error e => simp [Except.mapError]

theorem Param.named_eq_ok_iff {ty : ValueType} {ident : Text} {p : Param} :
    Param.named ty ident = .ok p ↔ isIdentifier ident = true ∧ p = ⟨ty, ident⟩ := by
  unfold Param.named
  split
  · rename_i h; simp [h, eq_comm]
  · rename_i h; simp [h]

namespace Event

theorem canonicalParams_types (e : Event) : e.canonicalParams.map (·.type) = e.types := by
  simp [canonicalParams, types, List.map_map, Function.comp_def]

theorem isIdentifier_canonicalParams (e : Event) :
    ∀ p ∈ e.canonicalParams, isIdentifier p.ident = true := by
  cases e <;> decide

theorem bind_ok {e : Event} {idents : List Text} {ps : List Param} (h : e.bind idents = .ok ps) :
    ps.map (·.type) = e.types ∧ ∀ p ∈ ps, isIdentifier p.ident = true := by
  unfold bind at h
  split at h
  · rename_i hlen
    have hlen : e.types.length = idents.length := by simp [types, hlen, arity]
    rw [mapM_eq_ok_iff] at h
    simp only [mapError_eq_ok_iff, Param.named_eq_ok_iff] at h
    generalize e.types = tys at h hlen
    clear * - h hlen
    induction tys generalizing idents ps with
    | nil => rw [List.zip_nil_left, List.forall₂_nil_left_iff] at h; simp [h]
    | cons ty tys ih =>
      cases idents with
      | nil => cases hlen
      | cons ident idents =>
        rw [List.zip_cons_cons, List.forall₂_cons_left_iff] at h
        obtain ⟨p, qs, ⟨hi, rfl⟩, hqs, rfl⟩ := h
        obtain ⟨ht, hq⟩ := ih hqs (by simpa using hlen)
        exact ⟨by rw [List.map_cons, ht], List.forall_mem_cons.mpr ⟨hi, hq⟩⟩
  · cases h

def paramsFor (e : Event) : Option (List Text) → Except Fault (List Param)
  | some idents => e.bind idents
  | none => .ok e.canonicalParams

theorem paramsFor_ok {e : Event} {idents : Option (List Text)} {ps : List Param}
    (h : e.paramsFor idents = .ok ps) :
    ps.map (·.type) = e.types ∧ ∀ p ∈ ps, isIdentifier p.ident = true := by
  cases idents with
  | none => cases h; exact ⟨e.canonicalParams_types, e.isIdentifier_canonicalParams⟩
  | some idents => exact bind_ok h

end Event

/-! ## Edits of drafts -/

theorem StateName.isIdentifier_of_ofText {raw : Text} {n : StateName}
    (h : StateName.ofText raw = .ok n) : isIdentifier n.text = true := by
  unfold StateName.ofText at h
  simp only at h
  split at h
  · cases h; decide
  · split at h
    · cases h
    · split at h
      · rename_i hi; cases h; exact hi
      · cases h

namespace Draft
variable {d d' : Draft}

theorem declareState_ok {raw : Text} {name : StateName} (h : d.declareState raw = .ok (name, d')) :
    StateName.ofText raw = .ok name ∧ d' = { d with registry := d.registry.declare name } := by
  obtain ⟨n, hn, h⟩ := bind_ok_iff.mp h
  cases h
  exact ⟨hn, rfl⟩

/-- A handler is appended to a state that has none for its event: with the block of the state, or to
the block that is there. -/
theorem appendHandler_ok {name : StateName} {e : Event} {ps : List Param} {written : Bool}
    (h : d.appendHandler name e ps = .ok (written, d')) :
    (∀ b, d.script.state? name = some b → e ∉ b.handlers.map (·.event)) ∧
      ((written = true ∧ (d.script.states = [] ∨ d.registry.isWritten name = false) ∧
          d' = ⟨d.registry.markWritten name, d.script.addState ⟨name, [⟨e, ps, [], .sentinel⟩], .sentinel⟩⟩) ∨
        (written = false ∧ d.registry.isWritten name = true ∧ (d.script.state? name).isSome = true ∧
          d' = { d with script := d.script.addHandler name ⟨e, ps, [], .sentinel⟩ })) := by
  simp only [appendHandler] at h
  split at h
  · cases h
  · rename_i hany
    refine ⟨fun b hb hm => hany ?_, ?_⟩
    · rw [hb]
      exact any_event_iff.mpr hm
    · split at h
      · rename_i hw
        cases h
        exact Or.inl ⟨rfl, by simpa using hw, rfl⟩
      · rename_i hw
        split at h
        · rename_i hs
          cases h
          simp only [Bool.or_eq_true, Bool.not_eq_true', not_or, Bool.not_eq_false] at hw
          exact Or.inr ⟨rfl, hw.2, hs, rfl⟩
        · cases h

theorem registerEvent_ok {raw : Text} {e : Event} {idents : Option (List Text)}
    {log : List LogRecord}
    (h : d.registerEvent raw e idents = .ok (log, d')) :
    ∃ name ps written, StateName.ofText raw = .ok name ∧ e.paramsFor idents = .ok ps ∧
      d.appendHandler name e ps = .ok (written, d') ∧
      log = if written && raw.isBlank then [.stateNotNamed] else [] := by
  obtain ⟨name, hn, h⟩ := bind_ok_iff.mp h
  cases idents with
  | none =>
    obtain ⟨ps, hps, h⟩ := bind_ok_iff.mp h
    obtain ⟨⟨written, d₁⟩, ha, h⟩ := bind_ok_iff.mp h
    cases h
    exact ⟨name, ps, written, hn, hps, ha, rfl⟩
  | some idents =>
    obtain ⟨ps, hps, h⟩ := bind_ok_iff.mp h
    obtain ⟨⟨written, d₁⟩, ha, h⟩ := bind_ok_iff.mp h
    cases h
    exact ⟨name, ps, written, hn, hps, ha, rfl⟩

theorem addEventLine_ok {raw content : Text} {e : Event}
    (h : d.addEventLine raw e content = .ok d') :
    ∃ ls, bodyLines 2 content = .ok ls ∧ ((ls = [] ∧ d' = d) ∨
      (ls ≠ [] ∧ ∃ name state block, StateName.ofText raw = .ok name ∧ d.script.state? name = some state ∧
        state.handler? e = some block ∧ block.ending = .sentinel ∧
        d' = { d with script := d.script.addEventLines name e ls })) := by
  obtain ⟨ls, hls, h⟩ := bind_ok_iff.mp h
  refine ⟨ls, hls, ?_⟩
  cases ls with
  | nil => cases h; exact Or.inl ⟨rfl, rfl⟩
  | cons l ls =>
    obtain ⟨name, hn, h⟩ := bind_ok_iff.mp h
    split at h
    · cases h
    · rename_i state hs
      split at h
      · cases h
      · rename_i block hb
        split at h
        · rename_i he
          cases h
          exact Or.inr ⟨by simp, name, state, block, hn, hs, hb, he, rfl⟩
        · cases h

theorem defineFunction_ok {raw name : Text} {ps : List Param}
    (h : d.defineFunction raw ps = .ok (name, d')) :
    name = raw.trim ∧ isIdentifier name = true ∧ name ∉ d.script.functions.map (·.name) ∧
      d' = { d with script := d.script.addFunction ⟨name, ps, [], .sentinel⟩ } := by
  simp only [defineFunction] at h
  split at h
  · cases h
  · rename_i hi
    split at h
    · cases h
    · rename_i hm
      cases h
      exact ⟨rfl, by simpa using hi, fun hn => hm (Script.function?_isSome_iff.mpr hn), rfl⟩

theorem defineFunctionOfPairs_ok {raw name : Text} {groups : List (List Text)}
    (h : d.defineFunctionOfPairs raw groups = .ok (name, d')) :
    ∃ ps, List.Forall₂ (fun u p => Param.SpelledBy p u) groups.flatten ps ∧
      d.defineFunction raw ps = .ok (name, d') := by
  obtain ⟨ps, hps, h⟩ := bind_ok_iff.mp h
  rw [mapError_eq_ok_iff, mapM_eq_ok_iff] at hps
  simp only [Param.ofPair_eq_ok_iff] at hps
  exact ⟨ps, hps, h⟩

theorem appendToFunction_ok {name : Text} {ls : List Text}
    (h : d.appendToFunction name ls = .ok d') :
    ∃ block, d.script.function? name = some block ∧ block.ending = .sentinel ∧
      d' = { d with script := d.script.addFunctionLines name ls } := by
  unfold appendToFunction at h
  split at h
  · cases h
  · rename_i block hb
    split at h
    · rename_i he; cases h; exact ⟨block, hb, he, rfl⟩
    · cases h

theorem addFunctionLine_ok {name content : Text} (h : d.addFunctionLine name content = .ok d') :
    ∃ ls, bodyLines 1 content = .ok ls ∧
      ((ls = [] ∧ d' = d) ∨ (ls ≠ [] ∧ d.appendToFunction name ls = .ok d')) := by
  obtain ⟨ls, hls, h⟩ := bind_ok_iff.mp h
  refine ⟨ls, hls, ?_⟩
  cases ls with
  | nil => cases h; exact Or.inl ⟨rfl, rfl⟩
  | cons l ls => exact Or.inr ⟨by simp, h⟩

theorem ofDocument_eq_ok_iff {t : Text} : Draft.ofDocument t = .ok d ↔
    Script.ofText t = .ok d.script ∧ d.registry = .ofScript d.script := by
  unfold ofDocument
  cases hs : Script.ofText t with
  | error fault => simp [bind, Except.bind]
  | ok s =>
    obtain ⟨r, s'⟩ := d
    simp only [bind, Except.bind, pure, Except.pure, Except.ok.injEq, mk.injEq]
    exact ⟨fun ⟨hr, hs⟩ => ⟨hs, by rw [← hr, hs]⟩, fun ⟨hs, hr⟩ => ⟨by rw [hr, hs], hs⟩⟩

end Draft

end LslScript
