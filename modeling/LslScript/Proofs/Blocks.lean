import LslScript.Proofs.Edits

/-!
# Blocks in the text

Where a block stands among the lines of its script: behind the lines of all blocks before it, with its
own lines up to the closing one, and then that line and the rest (`Script.BlockAt`). Reading the text up
to a closing line leaves the block of that line open (`BlockAt.readAll`), so blocks do not share one.
-/

namespace LslScript

inductive Block
  | function (name : Text)
  | state (name : StateName)
  | handler (state : StateName) (event : Event)
deriving DecidableEq

section
variable {α β : Type} {key : α → β} {a b : α} {l l' r r' : List α}

theorem key_not_mem_after (h : ((l ++ a :: r).map key).Nodup) : key a ∉ r.map key := by
  rw [List.map_append, List.map_cons] at h
  exact (List.nodup_cons.mp (List.nodup_append.mp h).2.1).1

/-- A list is split in one way only at the item with a given key. -/
theorem split_unique (hn : ((l ++ a :: r).map key).Nodup) (hk : key a = key b)
    (h : l ++ a :: r = l' ++ b :: r') : l = l' ∧ a = b ∧ r = r' := by
  have before : key b ∉ l'.map key := key_not_mem_before (h ▸ hn)
  rcases List.append_eq_append_iff.mp h with ⟨m, rfl, hm⟩ | ⟨m, rfl, hm⟩
  · cases m with
    | nil => simpa using hm
    | cons c m =>
      obtain ⟨rfl, -⟩ := List.cons.inj hm
      exact absurd (by simp [hk]) before
  · cases m with
    | nil => simpa [eq_comm] using hm
    | cons c m =>
      obtain ⟨rfl, -⟩ := List.cons.inj hm
      exact absurd (by simp [hk]) (key_not_mem_before hn)

end

/-! ## Open blocks -/

namespace FunctionDef

def opened (b : FunctionDef) : List Text := b.header :: opening :: b.body

def closing (b : FunctionDef) : Text := b.ending.line (Sentinel.function b.name)

theorem closing_of_sentinel {s : Script} {name : Text} {b : FunctionDef} (h : s.function? name = some b)
    (he : b.ending = .sentinel) : b.closing = Sentinel.function name := by
  have found : b.name = name := by simpa using List.find?_some h
  rw [closing, he, found]
  rfl

theorem lines_eq (b : FunctionDef) : b.lines = b.opened ++ [b.closing, []] := rfl

end FunctionDef

namespace Handler

def opened (b : Handler) : List Text := b.header :: (indentUnit ++ opening) :: b.body

def closing (b : Handler) : Text := b.ending.line (Sentinel.event b.event)

theorem closing_of_sentinel {state : StateDef} {e : Event} {b : Handler} (h : state.handler? e = some b)
    (he : b.ending = .sentinel) : b.closing = Sentinel.event e := by
  have found : b.event = e := by simpa using List.find?_some h
  rw [closing, he, found]
  rfl

theorem lines_eq (b : Handler) : b.lines = b.opened ++ [b.closing, []] := rfl

end Handler

namespace StateDef

def openedWith (b : StateDef) (hs : List Handler) : List Text :=
  b.name.label :: opening :: hs.flatMap Handler.lines

def opened (b : StateDef) : List Text := b.openedWith b.handlers

def closing (b : StateDef) : Text := b.ending.line (Sentinel.state b.name)

theorem lines_eq (b : StateDef) : b.lines = b.opened ++ [b.closing, []] := rfl

end StateDef

namespace Sealed

def function (name : Text) (ps : List Param) (body : Text) : Text :=
  Param.header name ps ++ "\n\x7b\n" ++ body ++ Sentinel.function name ++ "\n\n"

def event (e : Event) (ps : List Param) (body : Text) : Text :=
  indentUnit ++ Param.header e.name ps ++ "\n    \x7b\n" ++ body ++ Sentinel.event e ++ "\n\n"

def state (name : StateName) (inner : Text) : Text :=
  name.label ++ "\n\x7b\n" ++ inner ++ Sentinel.state name ++ "\n\n"

end Sealed

theorem FunctionDef.unlines_lines {b : FunctionDef} (h : b.ending = .sentinel) :
    Text.unlines b.lines = Sealed.function b.name b.params (Text.unlines b.body) := by
  simp [lines, header, opening, Ending.line, h, Sealed.function]

theorem Handler.unlines_lines {b : Handler} (h : b.ending = .sentinel) :
    Text.unlines b.lines = Sealed.event b.event b.params (Text.unlines b.body) := by
  simp [lines, header, opening, indentUnit, Ending.line, h, Sealed.event]

theorem StateDef.unlines_lines {b : StateDef} (h : b.ending = .sentinel) :
    Text.unlines b.lines = Sealed.state b.name (Text.unlines (b.handlers.flatMap Handler.lines)) := by
  simp [lines, opening, Ending.line, h, Sealed.state]

/-! ## Places of blocks -/

namespace Script

def functionLines (fs : List FunctionDef) : List Text := fs.flatMap FunctionDef.lines

def stateLines (ss : List StateDef) : List Text := ss.flatMap StateDef.lines

/-- The lines of a script are `before`, those of a block up to its closing line, and that line with
all that follows it. -/
inductive BlockAt (s : Script) : Block → (before opened after : List Text) → Prop
  | function {name : Text} {fs gs : List FunctionDef} {b : FunctionDef} :
    s.functions = fs ++ b :: gs → b.name = name →
      BlockAt s (.function name) (functionLines fs) b.opened
        (b.closing :: [] :: (functionLines gs ++ stateLines s.states))
  | state {name : StateName} {ss ts : List StateDef} {b : StateDef} :
    s.states = ss ++ b :: ts → b.name = name →
      BlockAt s (.state name) (functionLines s.functions ++ stateLines ss) b.opened
        (b.closing :: [] :: stateLines ts)
  | handler {name : StateName} {e : Event} {ss ts : List StateDef} {state : StateDef}
    {hs ks : List Handler} {b : Handler} :
    s.states = ss ++ state :: ts → state.name = name → state.handlers = hs ++ b :: ks → b.event = e →
      BlockAt s (.handler name e) (functionLines s.functions ++ stateLines ss ++ state.openedWith hs)
        b.opened (b.closing :: [] :: (ks.flatMap Handler.lines ++ state.closing :: [] :: stateLines ts))

variable {s : Script} {block other : Block} {before opened after before' opened' after' : List Text}

theorem BlockAt.lines (h : s.BlockAt block before opened after) :
    s.lines = before ++ opened ++ after := by
  cases h with
  | function hf hn => simp [Script.lines, hf, functionLines, stateLines, FunctionDef.lines_eq]
  | state hs hn => simp [Script.lines, hs, functionLines, stateLines, StateDef.lines_eq]
  | handler hs hn hh he =>
    simp [Script.lines, hs, functionLines, stateLines, StateDef.lines_eq, StateDef.opened,
      StateDef.openedWith, hh, Handler.lines_eq]

theorem BlockAt.unique (hs : s.WellFormed) (h : s.BlockAt block before opened after)
    (h' : s.BlockAt block before' opened' after') :
    before = before' ∧ opened = opened' ∧ after = after' := by
  cases h with
  | function hf hn =>
    cases h' with
    | function hf' hn' =>
      obtain ⟨rfl, rfl, rfl⟩ := split_unique (hf ▸ hs.functionNames) (hn.trans hn'.symm) (hf.symm.trans hf')
      exact ⟨rfl, rfl, rfl⟩
  | state hf hn =>
    cases h' with
    | state hf' hn' =>
      obtain ⟨rfl, rfl, rfl⟩ := split_unique (hf ▸ hs.stateNames) (hn.trans hn'.symm) (hf.symm.trans hf')
      exact ⟨rfl, rfl, rfl⟩
  | @handler _ _ _ _ state _ _ _ hf hn hh he =>
    cases h' with
    | handler hf' hn' hh' he' =>
      obtain ⟨rfl, rfl, rfl⟩ := split_unique (hf ▸ hs.stateNames) (hn.trans hn'.symm) (hf.symm.trans hf')
      have events := (hs.states state (by simp [hf])).events
      obtain ⟨rfl, rfl, rfl⟩ := split_unique (hh ▸ events) (he.trans he'.symm) (hh.symm.trans hh')
      exact ⟨rfl, rfl, rfl⟩

theorem WellFormed.sublist (h : s.WellFormed) {fs : List FunctionDef} {ss : List StateDef}
    (hf : fs.Sublist s.functions) (hs : ss.Sublist s.states) : WellFormed ⟨fs, ss⟩ :=
  ⟨h.functionNames.sublist (hf.map _), h.stateNames.sublist (hs.map _),
    fun b hb => h.functions b (hf.subset hb), fun b hb => h.states b (hs.subset hb)⟩

/-- The lines of some handlers of a well-formed state, read behind the header of the state. -/
theorem readAll_openedWith {t : Script} {state : StateDef} (hw : state.WellFormed)
    (hm : state.name ∉ t.states.map (·.name)) {hs : List Handler} (hh : hs.Sublist state.handlers) :
    Reading.readAll ⟨t, .outside⟩ (state.openedWith hs) = .ok ⟨t, .stateBody state.name hs⟩ :=
  Reading.readAll_openState hm hw.name (hw.events.sublist (hh.map _))
    (Spaced.of_blocks fun a ha => (hw.handlers a (hh.subset ha)).spelledBy)

end Script

def Place.block? : Place → Option Block
  | .functionBody name _ _ => some (.function name)
  | .stateBody name _ => some (.state name)
  | .eventBody name _ event _ _ => some (.handler name event)
  | _ => none

namespace Script
variable {s : Script} {block other : Block} {before opened after before' opened' after' : List Text}

/-- Who reads a script up to a closing line stands in the block that the line closes. -/
theorem BlockAt.readAll (hs : s.WellFormed) (h : s.BlockAt block before opened after) :
    ∃ r, Reading.start.readAll (before ++ opened) = .ok r ∧ r.place.block? = some block := by
  have read : ∀ {fs ss}, fs.Sublist s.functions → ss.Sublist s.states →
      Reading.start.readAll (functionLines fs ++ stateLines ss) = .ok ⟨⟨fs, ss⟩, .outside⟩ :=
    fun hf hss => Reading.readAll_script (hs.sublist hf hss).spelledBy
  -- the blocks in front of the open one are read as a script of their own
  cases h with
  | @function _ fs gs b hf hn =>
    subst hn
    have hb := hs.functions b (by simp [hf])
    have before := read (hf ▸ List.sublist_append_left fs _) (List.nil_sublist _)
    rw [stateLines, List.flatMap_nil, List.append_nil] at before
    have body := Reading.readAll_openFunction (s := ⟨fs, []⟩) rfl (key_not_mem_before (hf ▸ hs.functionNames))
      hb.name (headerSpelledBy_header hb.params) fun l hl => (hb.body l hl).1
    exact ⟨_, (Reading.readAll_append _ before).trans body, rfl⟩
  | @state _ ss ts b hf hn =>
    subst hn
    have hb := hs.states b (by simp [hf])
    have before := read (List.Sublist.refl _) (hf ▸ List.sublist_append_left ss _)
    have body := readAll_openedWith (t := ⟨s.functions, ss⟩) hb (key_not_mem_before (hf ▸ hs.stateNames))
      (List.Sublist.refl _)
    exact ⟨_, (Reading.readAll_append _ before).trans body, rfl⟩
  | @handler _ _ ss ts state hs' ks b hf hn hh he =>
    subst hn he
    have hstate := hs.states state (by simp [hf])
    have hb := hstate.handlers b (by simp [hh])
    have before := read (List.Sublist.refl _) (hf ▸ List.sublist_append_left ss _)
    have around := readAll_openedWith (t := ⟨s.functions, ss⟩) hstate
      (key_not_mem_before (hf ▸ hs.stateNames)) (hh ▸ List.sublist_append_left hs' _)
    have body := @Reading.readAll_openEvent ⟨s.functions, ss⟩ state.name _ _ _ _ _
      (key_not_mem_before (hh ▸ hstate.events)) hb.types (headerSpelledBy_header hb.params)
      fun l hl => (hb.body l hl).1
    refine ⟨_, (Reading.readAll_append _ ?_).trans body, rfl⟩
    exact (Reading.readAll_append _ before).trans around

/-- Blocks that end at the same place are one. -/
theorem BlockAt.block_eq (hs : s.WellFormed) (h : s.BlockAt block before opened after)
    (h' : s.BlockAt other before' opened' after') (he : before ++ opened = before' ++ opened') :
    block = other := by
  obtain ⟨r, hr, hb⟩ := h.readAll hs
  obtain ⟨r', hr', hb'⟩ := h'.readAll hs
  rw [he, hr'] at hr
  cases hr
  exact Option.some.inj (hb.symm.trans hb')

theorem blockAt_addFunctionLines {name : Text} {b : FunctionDef} (h : s.function? name = some b) :
    ∃ before after, s.BlockAt (.function name) before b.opened (b.closing :: after) ∧ ∀ ls,
      (s.addFunctionLines name ls).BlockAt (.function name) before (b.opened ++ ls) (b.closing :: after) := by
  obtain ⟨fs, gs, hf, hn, modify⟩ := exists_split_of_find? h
  rw [beq_iff_eq] at hn
  refine ⟨_, _, .function hf hn, fun ls => ?_⟩
  have changed : (s.addFunctionLines name ls).functions = fs ++ { b with body := b.body ++ ls } :: gs := modify _
  exact .function changed hn

theorem blockAt_addEventLines {name : StateName} {e : Event} {state : StateDef} {b : Handler}
    (h : s.state? name = some state) (hb : state.handler? e = some b) :
    ∃ before after, s.BlockAt (.handler name e) before b.opened (b.closing :: after) ∧ ∀ ls,
      (s.addEventLines name e ls).BlockAt (.handler name e) before (b.opened ++ ls) (b.closing :: after) := by
  obtain ⟨ss, ts, hs, hn, modify⟩ := exists_split_of_find? h
  obtain ⟨hs', ks, hh, he, modify'⟩ := exists_split_of_find? hb
  rw [beq_iff_eq] at hn he
  refine ⟨_, _, .handler hs hn hh he, fun ls => ?_⟩
  have changed : (s.addEventLines name e ls).states =
      ss ++ { state with handlers := hs' ++ { b with body := b.body ++ ls } :: ks } :: ts := by
    rw [← modify' fun b => { b with body := b.body ++ ls }]
    exact modify _
  exact .handler changed hn rfl he

theorem blockAt_addHandler {name : StateName} {state : StateDef} (h : s.state? name = some state) :
    ∃ before after, s.BlockAt (.state name) before state.opened (state.closing :: after) ∧ ∀ b,
      (s.addHandler name b).BlockAt (.state name) before (state.opened ++ b.lines) (state.closing :: after) := by
  obtain ⟨ss, ts, hs, hn, modify⟩ := exists_split_of_find? h
  rw [beq_iff_eq] at hn
  refine ⟨_, _, .state hs hn, fun b => ?_⟩
  have opened : StateDef.opened { state with handlers := state.handlers ++ [b] } = state.opened ++ b.lines := by
    simp [StateDef.opened, StateDef.openedWith]
  rw [← opened]
  exact .state (modify _) hn

end Script

end LslScript
