import LslScript.Proofs.Blocks
import LslScript.Proofs.Running

/-!
# What a recipe means

The document of a recipe, said without running it: which blocks it has and in which order is read off the
operations that make blocks, and the body of a block is what the operations that name it put there, one
after the other (`Recipe.meaning`). A recipe that runs to its end has this document
(`Recipe.render_eq_meaning`).
-/

namespace LslScript

/-! ## Operations by themselves -/

/-- What content becomes in a body: nothing if it is blank, else one piece of text that ends a line. -/
def contentText (depth : Nat) (content : Text) : Text :=
  if content.isBlank then [] else Text.terminated (indent depth ++ content)

def StateName.meant (raw : Text) : StateName := if raw.trim.isEmpty then .default else ⟨raw.trim⟩

def Event.paramsWith (e : Event) : Option (List Text) → List Param
  | some idents => (e.types.zip idents).map fun (type, ident) => ⟨type, ident.trim⟩
  | none => e.signature.map fun (type, ident) => ⟨type, ident⟩

namespace Operation

def function? : Operation → Option (Text × List Param)
  | function name groups =>
    some (name.trim, groups.flatten.filterMap fun pair => (Param.ofPair pair).toOption)
  | _ => none

def handler? : Operation → Option (StateName × Event × List Param)
  | event state e idents => some (.meant state, e, e.paramsWith idents)
  | _ => none

def functionContent (name : Text) : Operation → Text
  | functionLine target line => if target = name then contentText 1 (Placeholder.encode line) else []
  | functionBlankLine target => if target = name then "\n" else []
  | _ => []

def handlerContent (name : StateName) (e : Event) : Operation → Text
  | eventLine state target line =>
    if .meant state = name ∧ target = e then contentText 2 (Placeholder.encode line) else []
  | call state target spec =>
    match spec.toCall with
    | .ok c => if .meant state = name ∧ target = e then contentText 2 c.render else []
    | .error _ => []
  | _ => []

end Operation

namespace Recipe

def functionsMeant (ops : List Operation) : Text :=
  (ops.filterMap Operation.function?).reverse.flatMap fun (name, ps) =>
    Sealed.function name ps (ops.flatMap (Operation.functionContent name))

def stateMeant (ops : List Operation) (name : StateName) : Text :=
  Sealed.state name (((ops.filterMap Operation.handler?).filter (·.1 = name)).flatMap fun (_, e, ps) =>
    Sealed.event e ps (ops.flatMap (Operation.handlerContent name e)))

def statesMeant (ops : List Operation) : Text :=
  ((ops.filterMap Operation.handler?).map (·.1)).eraseDups.flatMap (stateMeant ops)

def meaning (r : Recipe) : Text := functionsMeant r.operations ++ statesMeant r.operations

end Recipe

def contentLines (depth : Nat) (content : Text) : List Text :=
  if content.isBlank then [] else Text.lines (indent depth ++ content)

theorem bodyLines_ok {depth : Nat} {content : Text} {ls : List Text}
    (h : bodyLines depth content = .ok ls) : ls = contentLines depth content := by
  unfold contentLines
  rcases bodyLines_eq_ok_iff.mp h with ⟨hb, rfl⟩ | ⟨hb, -, rfl⟩
  · rw [if_pos hb]
  · rw [if_neg (by simp [hb])]

theorem unlines_contentLines (depth : Nat) (content : Text) :
    Text.unlines (contentLines depth content) = contentText depth content := by
  unfold contentLines contentText
  split
  · rfl
  · exact Text.unlines_lines _

theorem StateName.ofText_ok {raw : Text} {n : StateName} (h : StateName.ofText raw = .ok n) :
    n = .meant raw := by
  unfold StateName.ofText at h
  unfold meant
  simp only at h
  split at h
  · rename_i he
    cases h
    rw [if_pos he]
  · rename_i he
    rw [if_neg he]
    split at h
    · cases h
    · split at h
      · exact (Except.ok.inj h).symm
      · cases h

theorem Event.paramsFor_eq {e : Event} {idents : Option (List Text)} {ps : List Param}
    (h : e.paramsFor idents = .ok ps) : ps = e.paramsWith idents := by
  cases idents with
  | none => exact (Except.ok.inj h).symm
  | some idents =>
    unfold paramsFor bind at h
    simp only at h
    split at h
    · rw [mapM_eq_ok_iff] at h
      simp only [mapError_eq_ok_iff, Param.named_eq_ok_iff] at h
      unfold paramsWith
      simp only
      generalize e.types.zip idents = pairs at h
      clear * - h
      induction h with
      | nil => rfl
      | cons hp _ ih => rw [List.map_cons, ← ih, hp.2]
    · cases h

theorem Param.filterMap_of_mapM {pairs : List Text} {ps : List Param}
    (h : pairs.mapM Param.ofPair = .ok ps) :
    (pairs.filterMap fun pair => (Param.ofPair pair).toOption) = ps := by
  rw [mapM_eq_ok_iff] at h
  induction h with
  | nil => rfl
  | cons hp _ ih => rw [List.filterMap_cons, hp, ← ih]; rfl

/-! ## Laying blocks out -/

section
variable {α β : Type}

theorem modifyFirst_eq_map [BEq β] [LawfulBEq β] {key : α → β} (k : β) (f : α → α) : ∀ {l : List α},
    (l.map key).Nodup → modifyFirst (key · == k) f l = l.map fun a => if key a == k then f a else a
  | [], _ => rfl
  | a :: l, hn => by
    rw [List.map_cons, List.nodup_cons] at hn
    rw [modifyFirst, List.map_cons]
    by_cases ha : key a == k
    · have others : ∀ b ∈ l, ¬(key b == k) = true := by
        intro b hb he
        rw [eq_of_beq ha, ← eq_of_beq he] at hn
        exact hn.1 (List.mem_map_of_mem hb)
      rw [if_pos ha, if_pos ha, List.map_congr_left fun b hb => if_neg (others b hb), List.map_id']
    · rw [if_neg ha, if_neg ha, modifyFirst_eq_map k f hn.2]

theorem eraseDups_snoc [DecidableEq α] (l : List α) (a : α) :
    (l ++ [a]).eraseDups = if a ∈ l then l.eraseDups else l.eraseDups ++ [a] := by
  rw [List.eraseDups_append, List.removeAll]
  split
  · rename_i h
    simp [h]
  · rename_i h
    simp [h, List.eraseDups_cons]

end

/-- A script with the given functions, the last one first, and the given handlers, whose states stand in
the order of their first handlers. -/
def Script.layOut (fs : List (Text × List Param)) (hs : List (StateName × Event × List Param))
    (functionBody : Text → List Text) (handlerBody : StateName → Event → List Text) : Script where
  functions := fs.reverse.map fun (name, ps) => ⟨name, ps, functionBody name, .sentinel⟩
  states := (hs.map (·.1)).eraseDups.map fun name =>
    ⟨name, (hs.filter (·.1 = name)).map fun (_, e, ps) => ⟨e, ps, handlerBody name e, .sentinel⟩, .sentinel⟩

namespace Script
variable {fs : List (Text × List Param)} {hs : List (StateName × Event × List Param)}
  {functionBody : Text → List Text} {handlerBody : StateName → Event → List Text}

theorem text_layOut : (layOut fs hs functionBody handlerBody).text =
    (fs.reverse.flatMap fun (name, ps) => Sealed.function name ps (Text.unlines (functionBody name))) ++
      (hs.map (·.1)).eraseDups.flatMap fun name =>
        Sealed.state name ((hs.filter (·.1 = name)).flatMap fun (_, e, ps) =>
          Sealed.event e ps (Text.unlines (handlerBody name e))) := by
  rw [text, lines, Text.unlines_append, Text.unlines_flatMap, Text.unlines_flatMap]
  simp only [layOut, List.flatMap_map]
  congr 1
  · exact List.flatMap_congr fun f _ => FunctionDef.unlines_lines rfl
  · refine List.flatMap_congr fun name _ => ?_
    rw [StateDef.unlines_lines rfl, Text.unlines_flatMap, List.flatMap_map]
    exact congrArg _ (List.flatMap_congr fun h _ => Handler.unlines_lines rfl)

theorem layOut_addFunction {name : Text} {ps : List Param} (h : functionBody name = []) :
    layOut (fs ++ [(name, ps)]) hs functionBody handlerBody =
      (layOut fs hs functionBody handlerBody).addFunction ⟨name, ps, [], .sentinel⟩ := by
  simp [layOut, addFunction, h]

theorem layOut_addFunctionLines {name : Text} {ls : List Text}
    (hn : ((layOut fs hs functionBody handlerBody).functions.map (·.name)).Nodup) :
    layOut fs hs (fun n => functionBody n ++ if name = n then ls else []) handlerBody =
      (layOut fs hs functionBody handlerBody).addFunctionLines name ls := by
  rw [addFunctionLines, modifyFirst_eq_map name _ hn]
  simp only [layOut, List.map_map]
  congr 1
  refine List.map_congr_left fun f _ => ?_
  by_cases hf : f.1 = name
  · simp [hf]
  · simp [hf, Ne.symm hf]

theorem layOut_addState {name : StateName} {e : Event} {ps : List Param} (hm : name ∉ hs.map (·.1))
    (h : handlerBody name e = []) :
    layOut fs (hs ++ [(name, e, ps)]) functionBody handlerBody =
      (layOut fs hs functionBody handlerBody).addState ⟨name, [⟨e, ps, [], .sentinel⟩], .sentinel⟩ := by
  have none : hs.filter (·.1 = name) = [] := by
    rw [List.filter_eq_nil_iff]
    intro a ha he
    exact hm (List.mem_map.mpr ⟨a, ha, by simpa using he⟩)
  simp only [layOut, addState, List.map_append, List.map_cons, List.map_nil, eraseDups_snoc, if_neg hm]
  congr 2
  · refine List.map_congr_left fun n hn => ?_
    have : name ≠ n := fun he => hm (he ▸ List.mem_eraseDups.mp hn)
    simp [this]
  · simp [none, h]

theorem layOut_addHandler {name : StateName} {e : Event} {ps : List Param} (hm : name ∈ hs.map (·.1))
    (h : handlerBody name e = [])
    (hn : ((layOut fs hs functionBody handlerBody).states.map (·.name)).Nodup) :
    layOut fs (hs ++ [(name, e, ps)]) functionBody handlerBody =
      (layOut fs hs functionBody handlerBody).addHandler name ⟨e, ps, [], .sentinel⟩ := by
  rw [addHandler, modifyFirst_eq_map name _ hn]
  simp only [layOut, List.map_append, List.map_cons, List.map_nil, eraseDups_snoc, if_pos hm, List.map_map]
  congr 1
  refine List.map_congr_left fun n _ => ?_
  by_cases hne : n = name
  · simp [hne, h]
  · simp [hne, Ne.symm hne]

theorem layOut_addEventLines {name : StateName} {e : Event} {ls : List Text}
    (hw : (layOut fs hs functionBody handlerBody).WellFormed) :
    layOut fs hs functionBody (fun n e' => handlerBody n e' ++ if name = n ∧ e = e' then ls else []) =
      (layOut fs hs functionBody handlerBody).addEventLines name e ls := by
  -- each state as it is built, with what is known of its handlers
  have events : ∀ n ∈ (hs.map (·.1)).eraseDups,
      (((hs.filter (·.1 = n)).map fun h : StateName × Event × List Param =>
        (⟨h.2.1, h.2.2, handlerBody n h.2.1, .sentinel⟩ : Handler)).map (·.event)).Nodup :=
    fun n hn => (hw.states _ (List.mem_map_of_mem hn)).events
  rw [addEventLines, modifyFirst_eq_map name _ hw.stateNames]
  simp only [layOut, List.map_map]
  congr 1
  refine List.map_congr_left fun n hn => ?_
  by_cases hne : n = name
  · subst hne
    simp only [Function.comp_apply, beq_self_eq_true, if_true, true_and]
    rw [modifyFirst_eq_map e _ (events n hn)]
    simp only [List.map_map]
    congr 1
    refine List.map_congr_left fun h _ => ?_
    by_cases he : h.2.1 = e
    · simp [he]
    · simp [he, Ne.symm he]
  · simp [hne, Ne.symm hne]

theorem functionNames_layOut :
    (layOut fs hs functionBody handlerBody).functions.map (·.name) = (fs.map (·.1)).reverse := by
  simp [layOut, Function.comp_def]

theorem stateNames_layOut :
    (layOut fs hs functionBody handlerBody).states.map (·.name) = (hs.map (·.1)).eraseDups := by
  simp [layOut, Function.comp_def]

theorem mem_events_layOut {name : StateName} {state : StateDef} {e : Event}
    (hs' : (layOut fs hs functionBody handlerBody).state? name = some state) :
    e ∈ state.handlers.map (·.event) ↔ ∃ ps, (name, e, ps) ∈ hs := by
  have hn : state.name = name := by simpa using List.find?_some hs'
  obtain ⟨n, -, rfl⟩ := List.mem_map.mp (List.mem_of_find?_eq_some hs')
  subst hn
  simp

end Script

/-! ## Operations in order -/

namespace Operation

def functionLines (name : Text) : Operation → List Text
  | functionLine target line => if target = name then contentLines 1 (Placeholder.encode line) else []
  | functionBlankLine target => if target = name then [[]] else []
  | _ => []

def handlerLines (name : StateName) (e : Event) : Operation → List Text
  | eventLine state target line =>
    if .meant state = name ∧ target = e then contentLines 2 (Placeholder.encode line) else []
  | call state target spec =>
    match spec.toCall with
    | .ok c => if .meant state = name ∧ target = e then contentLines 2 c.render else []
    | .error _ => []
  | _ => []

theorem unlines_functionLines (name : Text) (op : Operation) :
    Text.unlines (op.functionLines name) = op.functionContent name := by
  cases op with
  | functionLine target line =>
    simp only [functionLines, functionContent]
    split
    · exact unlines_contentLines ..
    · rfl
  | functionBlankLine target =>
    simp only [functionLines, functionContent]
    split <;> rfl
  | _ => rfl

theorem unlines_handlerLines (name : StateName) (e : Event) (op : Operation) :
    Text.unlines (op.handlerLines name e) = op.handlerContent name e := by
  cases op with
  | eventLine state target line =>
    simp only [handlerLines, handlerContent]
    split
    · exact unlines_contentLines ..
    · rfl
  | call state target spec =>
    simp only [handlerLines, handlerContent]
    cases spec.toCall with
    | error fault => rfl
    | ok c =>
      simp only
      split
      · exact unlines_contentLines ..
      · rfl
  | _ => rfl

def script (ops : List Operation) : Script :=
  .layOut (ops.filterMap function?) (ops.filterMap handler?) (fun name => ops.flatMap (functionLines name))
    fun name e => ops.flatMap (handlerLines name e)

theorem text_script (r : Recipe) : (script r.operations).text = r.meaning := by
  simp only [script, Script.text_layOut, Text.unlines_flatMap, unlines_functionLines, unlines_handlerLines]
  rfl

theorem script_snoc (ops : List Operation) (op : Operation) : script (ops ++ [op]) =
    .layOut (ops.filterMap function? ++ op.function?.toList) (ops.filterMap handler? ++ op.handler?.toList)
      (fun name => ops.flatMap (functionLines name) ++ op.functionLines name)
      fun name e => ops.flatMap (handlerLines name e) ++ op.handlerLines name e := by
  have toList : ∀ {α : Type} (f : Operation → Option α), [op].filterMap f = (f op).toList := by
    intro α f
    cases h : f op <;> simp [h]
  simp only [script, List.filterMap_append, List.flatMap_append, List.flatMap_singleton, toList]

/-- The draft that operations lead to: its script is the one that they mean, and nothing was put into
blocks that were not made. -/
structure Reflects (ops : List Operation) (d : Draft) : Prop where
  script : d.script = Operation.script ops
  wellFormed : d.WellFormed
  functionLines : ∀ name, name ∉ (ops.filterMap function?).map (·.1) →
    ops.flatMap (Operation.functionLines name) = []
  handlerLines : ∀ name e, (∀ ps, (name, e, ps) ∉ ops.filterMap handler?) →
    ops.flatMap (Operation.handlerLines name e) = []

namespace Reflects
variable {ops : List Operation} {op : Operation} {d d' : Draft} {log : List LogRecord}

theorem empty : Reflects [] .empty := ⟨rfl, Draft.wellFormed_empty, fun _ _ => rfl, fun _ _ _ => rfl⟩

theorem snoc (h : Reflects ops d) (ha : op.apply d = .ok (log, d'))
    (hs : d'.script = Operation.script (ops ++ [op]))
    (hf : ∀ name, op.functionLines name ≠ [] → name ∈ (ops.filterMap function?).map (·.1))
    (hh : ∀ name e, op.handlerLines name e ≠ [] → ∃ ps, (name, e, ps) ∈ ops.filterMap handler?) :
    Reflects (ops ++ [op]) d' := by
  refine ⟨hs, wellFormed_apply h.wellFormed ha, fun name hn => ?_, fun name e hn => ?_⟩
  · rw [List.filterMap_append, List.map_append, List.mem_append, not_or] at hn
    rw [List.flatMap_append, h.functionLines name hn.1, List.flatMap_singleton, List.nil_append]
    by_contra hne
    exact hn.1 (hf name hne)
  · have hn : ∀ ps, (name, e, ps) ∉ ops.filterMap handler? := by
      intro ps hm
      exact hn ps (by rw [List.filterMap_append]; exact List.mem_append_left _ hm)
    rw [List.flatMap_append, h.handlerLines name e hn, List.flatMap_singleton, List.nil_append]
    by_contra hne
    obtain ⟨ps, hm⟩ := hh name e hne
    exact hn ps hm

theorem function_mem (h : Reflects ops d) {name : Text} : name ∈ d.script.functions.map (·.name) ↔
    name ∈ (ops.filterMap function?).map (·.1) := by
  rw [h.script, Operation.script, Script.functionNames_layOut, List.mem_reverse]

theorem state_mem (h : Reflects ops d) {name : StateName} : name ∈ d.script.states.map (·.name) ↔
    name ∈ (ops.filterMap handler?).map (·.1) := by
  rw [h.script, Operation.script, Script.stateNames_layOut, List.mem_eraseDups]

theorem event_mem (h : Reflects ops d) {name : StateName} {state : StateDef} {e : Event}
    (hs : d.script.state? name = some state) : e ∈ state.handlers.map (·.event) ↔
      ∃ ps, (name, e, ps) ∈ ops.filterMap handler? := by
  rw [h.script] at hs
  exact Script.mem_events_layOut hs

theorem apply_function {raw : Text} {groups : List (List Text)} (h : Reflects ops d)
    (ha : (function raw groups).apply d = .ok (log, d')) : Reflects (ops ++ [function raw groups]) d' := by
  obtain ⟨n, ps, hps, hd⟩ := function_ok ha
  obtain ⟨rfl, -, hn, rfl⟩ := Draft.defineFunction_ok hd
  -- the function is new, so no operation so far could put lines into it
  have nothing := h.functionLines _ (h.function_mem.not.mp hn)
  refine h.snoc ha ?_ (fun _ hne => absurd rfl hne) (fun _ _ hne => absurd rfl hne)
  rw [script_snoc]
  simp only [function?, handler?, Operation.functionLines, Operation.handlerLines, List.append_nil,
    Option.toList, Param.filterMap_of_mapM hps]
  rw [Script.layOut_addFunction nothing, h.script]
  rfl

/-- Lines put behind the body of a function. -/
theorem snoc_functionLines {name : Text} {ls : List Text} (h : Reflects ops d)
    (ha : op.apply d = .ok (log, d')) (hop : op.function? = none ∧ op.handler? = none)
    (hh : ∀ n e, op.handlerLines n e = []) (hl : ∀ n, op.functionLines n = if name = n then ls else [])
    (hd : d.appendToFunction name ls = .ok d') : Reflects (ops ++ [op]) d' := by
  obtain ⟨b, hb, -, rfl⟩ := Draft.appendToFunction_ok hd
  have hm : name ∈ d.script.functions.map (·.name) :=
    Script.function?_isSome_iff.mp (Option.isSome_of_mem hb)
  refine h.snoc ha ?_ (fun n hne => ?_) (fun n e hne => absurd (hh n e) hne)
  · rw [script_snoc, hop.1, hop.2]
    simp only [hh, hl, List.append_nil, Option.toList]
    rw [h.script, Operation.script, Script.layOut_addFunctionLines]
    have names := h.wellFormed.script.functionNames
    rwa [h.script] at names
  · rw [hl] at hne
    split at hne
    · rename_i he
      exact he ▸ h.function_mem.mp hm
    · exact absurd rfl hne

/-- An operation that makes no block and puts nothing into one. -/
theorem snoc_nothing (h : Reflects ops d) (ha : op.apply d = .ok (log, d))
    (hop : op.function? = none ∧ op.handler? = none) (hf : ∀ n, op.functionLines n = [])
    (hh : ∀ n e, op.handlerLines n e = []) : Reflects (ops ++ [op]) d := by
  refine h.snoc ha ?_ (fun n hne => absurd (hf n) hne) (fun n e hne => absurd (hh n e) hne)
  rw [script_snoc, hop.1, hop.2]
  simp only [hh, hf, List.append_nil, Option.toList]
  exact h.script

theorem apply_functionLine {name line : Text} (h : Reflects ops d)
    (ha : (functionLine name line).apply d = .ok (log, d')) :
    Reflects (ops ++ [functionLine name line]) d' := by
  obtain ⟨ls, hls, ⟨rfl, rfl⟩ | ⟨-, hd⟩⟩ := Draft.addFunctionLine_ok (functionLine_ok ha)
  · have nothing := bodyLines_ok hls
    refine h.snoc_nothing ha ⟨rfl, rfl⟩ (fun n => ?_) fun _ _ => rfl
    simp only [Operation.functionLines, ← nothing, ite_self]
  · refine h.snoc_functionLines ha ⟨rfl, rfl⟩ (fun _ _ => rfl) (fun n => ?_) hd
    rw [Operation.functionLines, bodyLines_ok hls]

theorem apply_functionBlankLine {name : Text} (h : Reflects ops d)
    (ha : (functionBlankLine name).apply d = .ok (log, d')) :
    Reflects (ops ++ [functionBlankLine name]) d' :=
  h.snoc_functionLines ha ⟨rfl, rfl⟩ (fun _ _ => rfl) (fun _ => rfl) (functionBlankLine_ok ha)

/-- Content put behind the body of a handler, or no content. -/
theorem snoc_handlerLines {raw content : Text} {e : Event} (h : Reflects ops d)
    (ha : op.apply d = .ok (log, d')) (hop : op.function? = none ∧ op.handler? = none)
    (hf : ∀ n, op.functionLines n = [])
    (hl : ∀ n e', op.handlerLines n e' = if .meant raw = n ∧ e = e' then contentLines 2 content else [])
    (hd : d.addEventLine raw e content = .ok d') : Reflects (ops ++ [op]) d' := by
  obtain ⟨ls, hls, ⟨rfl, rfl⟩ | ⟨-, name, state, b, hn, hs, hb, -, rfl⟩⟩ := Draft.addEventLine_ok hd
  · refine h.snoc_nothing ha hop hf fun n e' => ?_
    rw [hl, ← bodyLines_ok hls, ite_self]
  -- the handler is there, so an operation before has made it and the line has a place
  · have hbe : b.event = e := by simpa using List.find?_some hb
    have made := (h.event_mem hs).mp (List.mem_map.mpr ⟨b, List.mem_of_find?_eq_some hb, hbe⟩)
    rw [StateName.ofText_ok hn] at made
    refine h.snoc ha ?_ (fun n hne => absurd (hf n) hne) (fun n e' hne => ?_)
    · rw [script_snoc, hop.1, hop.2]
      simp only [hf, hl, List.append_nil, Option.toList]
      have wellFormed := h.wellFormed.script
      rw [h.script] at wellFormed
      rw [h.script, Operation.script, Script.layOut_addEventLines wellFormed, ← bodyLines_ok hls,
        ← StateName.ofText_ok hn]
    · rw [hl] at hne
      split at hne
      · rename_i he
        exact he.1 ▸ he.2 ▸ made
      · exact absurd rfl hne

theorem apply_eventLine {raw line : Text} {e : Event} (h : Reflects ops d)
    (ha : (eventLine raw e line).apply d = .ok (log, d')) : Reflects (ops ++ [eventLine raw e line]) d' :=
  h.snoc_handlerLines ha ⟨rfl, rfl⟩ (fun _ => rfl) (fun _ _ => rfl) (eventLine_ok ha)

theorem apply_call {raw : Text} {e : Event} {spec : WrittenCall} (h : Reflects ops d)
    (ha : (call raw e spec).apply d = .ok (log, d')) : Reflects (ops ++ [call raw e spec]) d' := by
  obtain ⟨c, hc, hd⟩ := call_ok ha
  refine h.snoc_handlerLines ha ⟨rfl, rfl⟩ (fun _ => rfl) (fun n e' => ?_) hd
  simp only [Operation.handlerLines, hc]

theorem apply_event {raw : Text} {e : Event} {idents : Option (List Text)} (h : Reflects ops d)
    (ha : (event raw e idents).apply d = .ok (log, d')) : Reflects (ops ++ [event raw e idents]) d' := by
  obtain ⟨name, ps, written, hn, hps, hd, -⟩ := Draft.registerEvent_ok ha
  refine h.snoc ha ?_ (fun _ hne => absurd rfl hne) (fun _ _ hne => absurd rfl hne)
  rw [script_snoc]
  simp only [function?, handler?, Operation.functionLines, Operation.handlerLines, List.append_nil,
    Option.toList, ← StateName.ofText_ok hn, ← Event.paramsFor_eq hps]
  obtain ⟨hfresh, ⟨-, hw, rfl⟩ | ⟨-, -, hs, rfl⟩⟩ := Draft.appendHandler_ok hd
  -- the first event of its state opens the block; a later one is appended to it
  · have hm : name ∉ (ops.filterMap handler?).map (·.1) :=
      h.state_mem.not.mp (h.wellFormed.not_mem_stateNames hw)
    have nothing : ops.flatMap (Operation.handlerLines name e) = [] :=
      h.handlerLines name e fun ps hp => hm (List.mem_map_of_mem hp)
    rw [Script.layOut_addState hm nothing, h.script]
    rfl
  · have hm : name ∈ (ops.filterMap handler?).map (·.1) :=
      h.state_mem.mp (Script.state?_isSome_iff.mp hs)
    have nothing : ops.flatMap (Operation.handlerLines name e) = [] := by
      refine h.handlerLines name e fun ps hp => ?_
      obtain ⟨state, hstate⟩ := Option.isSome_iff_exists.mp hs
      exact hfresh state hstate ((h.event_mem hstate).mpr ⟨ps, hp⟩)
    have names := h.wellFormed.script.stateNames
    rw [h.script] at names
    rw [Script.layOut_addHandler hm nothing names, h.script]
    rfl

theorem apply (h : Reflects ops d) (ha : op.apply d = .ok (log, d')) : Reflects (ops ++ [op]) d' := by
  cases op with
  | event => exact h.apply_event ha
  | eventLine => exact h.apply_eventLine ha
  | call => exact h.apply_call ha
  | function => exact h.apply_function ha
  | functionLine => exact h.apply_functionLine ha
  | functionBlankLine => exact h.apply_functionBlankLine ha

theorem applyFrom : ∀ {rest ops : List Operation} {i : Nat} {d : Draft}, Reflects ops d →
    (Operation.applyFrom i d rest).2 = .ok d' → Reflects (ops ++ rest) d'
  | [], ops, i, d, h, ha => by
    cases ha
    rwa [List.append_nil]
  | op :: rest, ops, i, d, h, ha => by
    cases hop : op.apply d with
    | error fault =>
      rw [applyFrom_cons_error hop] at ha
      cases ha
    | ok r =>
      obtain ⟨log, d₁⟩ := r
      rw [applyFrom_cons_ok hop] at ha
      rw [List.append_cons]
      exact (h.apply hop).applyFrom ha

end Reflects

end Operation

theorem Recipe.render_eq_meaning (r : Recipe) {doc : Text} (h : r.render.2 = .ok doc) :
    doc = r.meaning := by
  unfold render build at h
  simp only at h
  cases hd : (Operation.applyFrom 0 .empty r.operations).2 with
  | error failure =>
    rw [hd] at h
    cases h
  | ok d =>
    rw [hd] at h
    cases h
    have reflects : Operation.Reflects r.operations d := Operation.Reflects.empty.applyFrom hd
    rw [Draft.document, reflects.script, Operation.text_script]

/-- Operations on different blocks take turns, and the later function stands in front. The parameters of a listener
are those of the catalogue. -/
theorem Recipe.render_eq_meaning_in_turns :
    let r : Recipe := ⟨schema, [.function "f" [["integer a"], ["key b"]], .event "two" .timer none,
      .functionLine "f" "a();", .event " " .touch (some ["n"]), .eventLine "two" .timer "x();\n",
      .call "default" .touch (.say 0 "hi"), .function "g" [], .functionBlankLine "f", .event "two" .listen none,
      .eventLine " two" .timer "y();", .functionLine "f" " "]⟩
    let doc : Text := "g()\n\x7b\n\x7d  // End of 'g' function\n\n" ++
      ("f(integer a, key b)\n\x7b\n    a();\n\n\x7d  // End of 'f' function\n\n" ++
      ("state two\n\x7b\n    timer()\n    \x7b\n        x();\n        y();\n" ++
      ("    \x7d  // End of 'timer' event\n\n" ++
      ("    listen(integer channel, string name, key id, string message)\n    \x7b\n" ++
      ("    \x7d  // End of 'listen' event\n\n\x7d  // End of 'state two' state\n\n" ++
      ("default\n\x7b\n    touch(integer n)\n    \x7b\n        llSay(0, __dquote__hi__dquote__);\n" ++
      "    \x7d  // End of 'touch' event\n\n\x7d  // End of 'default' state\n\n".toList))))))
    r.render.2 = .ok doc ∧ doc = r.meaning := by
  intro r doc
  have h : r.render.2 = .ok doc := by decide +kernel
  exact ⟨h, render_eq_meaning r h⟩

end LslScript
