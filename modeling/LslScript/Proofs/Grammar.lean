import LslScript.Proofs.Headers
import LslScript.Script.Layout
import Mathlib.Data.List.Nodup

/-!
# The lines of a script

Which lines spell a script, said block by block and without the machine that reads them: functions
first and then states, with blank lines around the blocks of a script and of a state. Bodies and
closing lines are in the script as they are in the text, so two lists of lines that spell the same
script differ in blank lines between blocks and in how headers are written.
-/

namespace LslScript

inductive Spaced {α : Type} (Spells : α → List Text → Prop) : List α → List Text → Prop
  | nil : Spaced Spells [] []
  | blank {as : List α} {line : Text} {ls : List Text} :
    line.isBlank = true → Spaced Spells as ls → Spaced Spells as (line :: ls)
  | item {a : α} {as : List α} {block ls : List Text} :
    Spells a block → Spaced Spells as ls → Spaced Spells (a :: as) (block ++ ls)

def FunctionDef.SpelledBy (b : FunctionDef) (ls : List Text) : Prop :=
  isIdentifier b.name = true ∧ (∀ l ∈ b.body, Text.startsWith "\x7d" l = false) ∧
    ∃ header closing, HeaderSpelledBy b.name b.params header ∧ Text.startsWith "\x7d" closing = true ∧
      b.ending = .ofLine (Sentinel.function b.name) closing ∧
      ls = header :: opening :: (b.body ++ [closing])

/-- A line of an event's body closes neither the event nor the state around it. -/
def Handler.SpelledBy (b : Handler) (ls : List Text) : Prop :=
  b.params.map (·.type) = b.event.types ∧
    (∀ l ∈ b.body, Text.startsWith (indentUnit ++ "\x7d") l = false ∧ Text.startsWith "\x7d" l = false) ∧
    ∃ header closing, HeaderSpelledBy b.event.name b.params header ∧
      Text.startsWith (indentUnit ++ "\x7d") closing = true ∧
      b.ending = .ofLine (Sentinel.event b.event) closing ∧
      ls = (indentUnit ++ header) :: (indentUnit ++ opening) :: (b.body ++ [closing])

def StateDef.SpelledBy (b : StateDef) (ls : List Text) : Prop :=
  isIdentifier b.name.text = true ∧ (b.handlers.map (·.event)).Nodup ∧
    ∃ inner closing, Spaced Handler.SpelledBy b.handlers inner ∧ Text.startsWith "\x7d" closing = true ∧
      b.ending = .ofLine (Sentinel.state b.name) closing ∧
      ls = b.name.label :: opening :: (inner ++ [closing])

def Script.SpelledBy (s : Script) (ls : List Text) : Prop :=
  (s.functions.map (·.name)).Nodup ∧ (s.states.map (·.name)).Nodup ∧
    ∃ front back, Spaced FunctionDef.SpelledBy s.functions front ∧ Spaced StateDef.SpelledBy s.states back ∧
      ls = front ++ back

namespace Spaced
variable {α : Type} {Spells : α → List Text → Prop}

theorem append {as bs : List α} {ls ms : List Text} (ha : Spaced Spells as ls)
    (hb : Spaced Spells bs ms) : Spaced Spells (as ++ bs) (ls ++ ms) := by
  induction ha with
  | nil => exact hb
  | blank hl _ ih => exact blank hl ih
  | item h _ ih => rw [List.append_assoc]; exact item h ih

theorem snoc_blank {as : List α} {ls : List Text} {line : Text} (h : Spaced Spells as ls)
    (hl : line.isBlank = true) : Spaced Spells as (ls ++ [line]) := by
  have := h.append (blank hl nil)
  rwa [List.append_nil] at this

theorem single {a : α} {block : List Text} (h : Spells a block) : Spaced Spells [a] block := by
  have := item h nil
  rwa [List.append_nil] at this

theorem snoc {a : α} {as : List α} {ls block : List Text} (h : Spaced Spells as ls)
    (ha : Spells a block) : Spaced Spells (as ++ [a]) (ls ++ block) := h.append (single ha)

/-- Blocks with one blank line behind each of them. -/
theorem of_blocks {f : α → List Text} : ∀ {as : List α},
    (∀ a ∈ as, ∃ block, Spells a block ∧ f a = block ++ [[]]) →
    Spaced Spells as (as.flatMap f)
  | [], _ => nil
  | a :: as, h => by
    obtain ⟨block, hb, hf⟩ := h a (List.mem_cons_self ..)
    rw [List.flatMap_cons, hf, List.append_assoc]
    exact item hb (blank rfl (of_blocks fun b hm => h b (List.mem_cons_of_mem _ hm)))

end Spaced

namespace Script

theorem spelledBy_empty : empty.SpelledBy [] :=
  ⟨List.nodup_nil, List.nodup_nil, [], [], .nil, .nil, rfl⟩

theorem SpelledBy.blank {s : Script} {ls : List Text} {line : Text} (h : s.SpelledBy ls)
    (hl : line.isBlank = true) : s.SpelledBy (ls ++ [line]) := by
  obtain ⟨hf, hs, front, back, h1, h2, rfl⟩ := h
  exact ⟨hf, hs, front, back ++ [line], h1, h2.snoc_blank hl, List.append_assoc ..⟩

theorem SpelledBy.snocFunction {s : Script} {ls block : List Text} {b : FunctionDef}
    (h : s.SpelledBy ls)
    (hs : s.states = []) (hn : b.name ∉ s.functions.map (·.name)) (hb : b.SpelledBy block) :
    SpelledBy { s with functions := s.functions ++ [b] } (ls ++ block) := by
  obtain ⟨functions, states⟩ := s
  cases hs
  obtain ⟨hf, hs, front, back, h1, h2, rfl⟩ := h
  -- no state: what follows the functions is blank and can be read as standing between them
  have blanks : ∀ {ms}, Spaced StateDef.SpelledBy [] ms → Spaced FunctionDef.SpelledBy [] ms := by
    intro ms hm
    generalize hss : ([] : List StateDef) = ss at hm
    induction hm with
    | nil => exact .nil
    | blank hl _ ih => exact .blank hl (ih hss)
    | item => cases hss
  refine ⟨?_, hs, front ++ back ++ block, [], ?_, .nil, by simp⟩
  · simpa using List.Nodup.concat hn hf
  · have := (h1.append (blanks h2)).snoc hb
    rwa [List.append_nil] at this

theorem SpelledBy.snocState {s : Script} {ls block : List Text} {b : StateDef} (h : s.SpelledBy ls)
    (hn : b.name ∉ s.states.map (·.name)) (hb : b.SpelledBy block) :
    (s.addState b).SpelledBy (ls ++ block) := by
  obtain ⟨hf, hs, front, back, h1, h2, rfl⟩ := h
  refine ⟨hf, ?_, front, back ++ block, h1, h2.snoc hb, List.append_assoc ..⟩
  simpa [addState] using List.Nodup.concat hn hs

end Script

end LslScript
