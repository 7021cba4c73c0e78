import LslScript.Proofs.Generated

/-!
# Insertions

Steps put content into bodies as lines. Apart from empty lines, every line in a body is one of those that an
insertion has become: a step keeps this (`Step.bodies_run`), and so do steps that load no document
(`Draft.bodies_after`).
-/

namespace LslScript

structure Script.Bodies (P : Nat → Text → Prop) (s : Script) : Prop where
  functions : ∀ b ∈ s.functions, ∀ l ∈ b.body, P 1 l
  handlers : ∀ state ∈ s.states, ∀ b ∈ state.handlers, ∀ l ∈ b.body, P 2 l

namespace Script.Bodies
variable {P Q : Nat → Text → Prop} {s : Script}

theorem empty : Bodies P .empty := ⟨by simp [Script.empty], by simp [Script.empty]⟩

theorem mono (h : s.Bodies P) (hPQ : ∀ depth l, P depth l → Q depth l) : s.Bodies Q :=
  ⟨fun b hb l hl => hPQ 1 l (h.functions b hb l hl),
    fun state hs b hb l hl => hPQ 2 l (h.handlers state hs b hb l hl)⟩

theorem addFunction (h : s.Bodies P) (name : Text) (ps : List Param) :
    (s.addFunction ⟨name, ps, [], .sentinel⟩).Bodies P :=
  ⟨List.forall_mem_cons.mpr ⟨by simp, h.functions⟩, h.handlers⟩

theorem addFunctionLines (h : s.Bodies P) (name : Text) {ls : List Text} (hl : ∀ l ∈ ls, P 1 l) :
    (s.addFunctionLines name ls).Bodies P :=
  ⟨forall_mem_modifyFirst h.functions fun _ hb => forall_mem_append_of hb hl, h.handlers⟩

theorem addState (h : s.Bodies P) (name : StateName) (e : Event) (ps : List Param) :
    (s.addState ⟨name, [⟨e, ps, [], .sentinel⟩], .sentinel⟩).Bodies P :=
  ⟨h.functions, forall_mem_append_of h.handlers (by simp)⟩

theorem addHandler (h : s.Bodies P) (name : StateName) (e : Event) (ps : List Param) :
    (s.addHandler name ⟨e, ps, [], .sentinel⟩).Bodies P :=
  ⟨h.functions, forall_mem_modifyFirst h.handlers fun _ hs => forall_mem_append_of hs (by simp)⟩

theorem addEventLines (h : s.Bodies P) (name : StateName) (e : Event) {ls : List Text} (hl : ∀ l ∈ ls, P 2 l) :
    (s.addEventLines name e ls).Bodies P := by
  refine ⟨h.functions, forall_mem_modifyFirst h.handlers fun state hs => ?_⟩
  exact forall_mem_modifyFirst hs fun _ hb => forall_mem_append_of hb hl

end Script.Bodies

namespace Draft
variable {P : Nat → Text → Prop} {d d' : Draft} {log : List LogRecord}

theorem bodies_registerEvent (hb : d.script.Bodies P) {raw : Text} {e : Event} {idents : Option (List Text)}
    (h : d.registerEvent raw e idents = .ok (log, d')) : d'.script.Bodies P := by
  obtain ⟨name, ps, written, -, -, ha, -⟩ := registerEvent_ok h
  obtain ⟨-, ⟨-, -, rfl⟩ | ⟨-, -, -, rfl⟩⟩ := appendHandler_ok ha
  · exact hb.addState name e ps
  · exact hb.addHandler name e ps

theorem lines_of_bodyLines {depth : Nat} {content : Text} {ls : List Text} (h : bodyLines depth content = .ok ls)
    (hne : ls ≠ []) : ls = Text.lines (indent depth ++ content) := by
  obtain ⟨-, rfl⟩ | ⟨-, -, rfl⟩ := bodyLines_eq_ok_iff.mp h
  · exact absurd rfl hne
  · rfl

theorem bodies_addEventLine (hb : d.script.Bodies P) {raw content : Text} {e : Event}
    (hP : ∀ l ∈ Text.lines (indent 2 ++ content), P 2 l) (h : d.addEventLine raw e content = .ok d') :
    d'.script.Bodies P := by
  obtain ⟨ls, hls, ⟨-, rfl⟩ | ⟨hne, name, _, _, -, -, -, -, rfl⟩⟩ := addEventLine_ok h
  · exact hb
  · rw [← lines_of_bodyLines hls hne] at hP
    exact hb.addEventLines name e hP

theorem bodies_defineFunction (hb : d.script.Bodies P) {raw name : Text} {ps : List Param}
    (h : d.defineFunction raw ps = .ok (name, d')) : d'.script.Bodies P := by
  obtain ⟨-, -, -, rfl⟩ := defineFunction_ok h
  exact hb.addFunction name ps

theorem bodies_appendToFunction (hb : d.script.Bodies P) {name : Text} {ls : List Text} (hP : ∀ l ∈ ls, P 1 l)
    (h : d.appendToFunction name ls = .ok d') : d'.script.Bodies P := by
  obtain ⟨_, -, -, rfl⟩ := appendToFunction_ok h
  exact hb.addFunctionLines name hP

theorem bodies_addFunctionLine (hb : d.script.Bodies P) {name content : Text}
    (hP : ∀ l ∈ Text.lines (indent 1 ++ content), P 1 l) (h : d.addFunctionLine name content = .ok d') :
    d'.script.Bodies P := by
  obtain ⟨ls, hls, ⟨-, rfl⟩ | ⟨hne, ha⟩⟩ := addFunctionLine_ok h
  · exact hb
  · rw [← lines_of_bodyLines hls hne] at hP
    exact bodies_appendToFunction hb hP ha

end Draft

/-! ## Insertions -/

structure Insertion where
  depth : Nat
  content : Text
deriving DecidableEq

/-- An empty line, or one of the lines that an insertion becomes. -/
def Insertion.IsLineOf (insertions : List Insertion) (depth : Nat) (l : Text) : Prop :=
  l = [] ∨ ∃ i ∈ insertions, i.depth = depth ∧ l ∈ Text.lines (indent depth ++ i.content)

namespace Step

def insertion? : Step → Option Insertion
  | addEventLine _ _ content => some ⟨2, content⟩
  | addCall _ _ call => some ⟨2, call.render⟩
  | addFunctionLine _ content => some ⟨1, content⟩
  | _ => none

/-- What was inserted up to the end of a step: a step that is refused inserts nothing, and nothing is left of
what was inserted before a reset. -/
def insertionsAfter (d : Draft) (insertions : List Insertion) (step : Step) : List Insertion :=
  if step = .reset then []
  else
    match (step.run d).answer with
    | .ok _ => insertions ++ step.insertion?.toList
    | .error _ => insertions

end Step

namespace Draft

def insertionsFrom (d : Draft) (insertions : List Insertion) : List Step → List Insertion
  | [] => insertions
  | step :: steps => (step.run d).draft.insertionsFrom (step.insertionsAfter d insertions) steps

def insertions (steps : List Step) : List Insertion := empty.insertionsFrom [] steps

end Draft

/-! ## Where lines come from -/

namespace Insertion

theorem IsLineOf.append {insertions : List Insertion} {depth : Nat} {l : Text} (h : IsLineOf insertions depth l)
    (more : List Insertion) : IsLineOf (insertions ++ more) depth l := by
  rcases h with rfl | ⟨i, hi, hd, hl⟩
  · exact Or.inl rfl
  · exact Or.inr ⟨i, List.mem_append_left more hi, hd, hl⟩

theorem isLineOf_last (insertions : List Insertion) (i : Insertion) :
    ∀ l ∈ Text.lines (indent i.depth ++ i.content), IsLineOf (insertions ++ [i]) i.depth l :=
  fun _ hl => Or.inr ⟨i, List.mem_append_right insertions (List.mem_singleton_self i), rfl, hl⟩

end Insertion

open Insertion (IsLineOf)

namespace Step
variable {d : Draft} {insertions : List Insertion}

theorem bodies_ofEdit {step : Step} {x : Except Fault (Answer × List LogRecord × Draft)} (hn : step ≠ .reset)
    (hr : step.run d = .ofEdit d x) (hb : d.script.Bodies (IsLineOf insertions))
    (hx : ∀ answer log d', x = .ok (answer, log, d') →
      d'.script.Bodies (IsLineOf (insertions ++ step.insertion?.toList))) :
    (step.run d).draft.script.Bodies (IsLineOf (step.insertionsAfter d insertions)) := by
  rw [insertionsAfter, if_neg hn, hr]
  cases x with
  | error fault => exact hb
  | ok r => exact hx _ _ _ rfl

theorem bodies_map {α : Type} {step : Step} {x : Except Fault α} {f : α → Answer × List LogRecord × Draft}
    (hn : step ≠ .reset) (hr : step.run d = .ofEdit d (x.map f)) (hb : d.script.Bodies (IsLineOf insertions))
    (hx : ∀ a, x = .ok a → (f a).2.2.script.Bodies (IsLineOf (insertions ++ step.insertion?.toList))) :
    (step.run d).draft.script.Bodies (IsLineOf (step.insertionsAfter d insertions)) := by
  refine bodies_ofEdit hn hr hb fun answer log d' h => ?_
  obtain ⟨a, ha, hf⟩ := map_eq_ok_iff.mp h
  have := hx a ha
  rwa [hf] at this

/-- The lines in bodies are lines of what was inserted, if no document is loaded. -/
theorem bodies_run (hb : d.script.Bodies (IsLineOf insertions)) {step : Step}
    (hs : ∀ t, step ≠ .setDocument t) :
    (step.run d).draft.script.Bodies (IsLineOf (step.insertionsAfter d insertions)) := by
  have kept : ∀ more, d.script.Bodies (IsLineOf (insertions ++ more)) := fun more =>
    hb.mono fun _ _ hl => hl.append more
  have last := Insertion.isLineOf_last insertions
  have question : ∀ {answer : Answer}, step ≠ .reset → step.run d = .answered d answer →
      (step.run d).draft.script.Bodies (IsLineOf (step.insertionsAfter d insertions)) := by
    intro answer hn hr
    refine bodies_ofEdit (x := .ok (answer, [], d)) hn hr hb fun _ _ _ h => ?_
    cases h
    exact kept _
  -- lines are only added, so what a refused step leaves also comes from the longer list
  cases step with
  | declareState state =>
    refine bodies_map nofun rfl hb fun ⟨name, d'⟩ h => ?_
    obtain ⟨-, rfl⟩ := Draft.declareState_ok h
    exact kept _
  | registerEvent state event idents =>
    exact bodies_map nofun rfl hb fun r h => Draft.bodies_registerEvent (kept _) h
  | addEventLine state event content =>
    exact bodies_map nofun rfl hb fun d' h => Draft.bodies_addEventLine (kept _) (last ⟨2, content⟩) h
  | addCall state event call =>
    exact bodies_map nofun rfl hb fun d' h => Draft.bodies_addEventLine (kept _) (last ⟨2, call.render⟩) h
  | defineFunction name params =>
    refine bodies_ofEdit nofun rfl hb fun _ _ _ h => ?_
    obtain ⟨ps, -, h⟩ := bind_ok_iff.mp h
    obtain ⟨r, hd, he⟩ := bind_ok_iff.mp h
    cases he
    exact Draft.bodies_defineFunction (kept _) hd
  | defineFunctionOfPairs name groups =>
    refine bodies_map nofun rfl hb fun r h => ?_
    obtain ⟨ps, -, hd⟩ := Draft.defineFunctionOfPairs_ok h
    exact Draft.bodies_defineFunction (kept _) hd
  | addFunctionLine name content =>
    exact bodies_map nofun rfl hb fun d' h => Draft.bodies_addFunctionLine (kept _) (last ⟨1, content⟩) h
  | addBlankLine name =>
    exact bodies_map nofun rfl hb fun d' h => Draft.bodies_appendToFunction (kept _) (by simp [IsLineOf]) h
  | setDocument text => exact absurd rfl (hs text)
  | reset => exact Script.Bodies.empty
  | _ => exact question nofun rfl

end Step

theorem Draft.bodies_after {steps : List Step} (hs : ∀ t, Step.setDocument t ∉ steps) {d : Draft}
    {insertions : List Insertion} (hb : d.script.Bodies (IsLineOf insertions)) :
    (d.after steps).script.Bodies (IsLineOf (d.insertionsFrom insertions steps)) := by
  induction steps generalizing d insertions with
  | nil => exact hb
  | cons step steps ih =>
    refine ih (fun t ht => hs t (List.mem_cons_of_mem _ ht)) (Step.bodies_run hb fun t ht => hs t ?_)
    rw [ht]
    exact List.mem_cons_self ..

end LslScript
