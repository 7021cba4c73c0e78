import LslScript.Proofs.Braces

/-!
# Sentinels

A sentinel is a closing brace with plain text behind it. Sentinels of different blocks differ, except that
those of two handlers are the same if their events are.
-/

namespace LslScript

theorem plain_identifier {t : Text} (h : isIdentifier t = true) : Text.Plain t := fun c =>
  not_mem_of_isIdentifier h (by cases c <;> decide)

theorem plain_header {name : Text} {ps : List Param} (hn : isIdentifier name = true)
    (hp : ∀ p ∈ ps, isIdentifier p.ident = true) : Text.Plain (Param.header name ps) := by
  intro c hc
  rcases Param.mem_header hn hp hc with h | h
  · cases c <;> cases h
  · revert h
    cases c <;> decide

theorem plain_label {n : StateName} (h : isIdentifier n.text = true) : Text.Plain n.label := by
  intro c hc
  rcases StateName.mem_label h hc with h | h
  · cases c <;> cases h
  · cases c <;> cases h

theorem plain_indentUnit : Text.Plain indentUnit := by
  intro c
  cases c <;> decide

theorem plain_blank_line : Text.Plain ['\n', '\n'] := by
  intro c
  cases c <;> decide

theorem brace_not_mem_opening : '}' ∉ opening := by decide

theorem brace_not_mem_event_opening : '}' ∉ indentUnit ++ opening := by decide

theorem plain_handler_header {b : Handler} (h : b.WellFormed) : Text.Plain b.header :=
  Text.plain_append.mpr ⟨plain_indentUnit, plain_header b.event.isIdentifier_name h.params⟩

/-! ## Sentinels -/

namespace Sentinel

def tail (owner ending : Text) : Text := "  // End of '" ++ owner ++ ending

theorem function_eq (name : Text) : function name = '}' :: tail name "' function" := rfl

theorem event_eq (e : Event) : event e = indentUnit ++ '}' :: tail e.name "' event" := rfl

theorem state_eq (name : StateName) : state name = '}' :: tail name.label "' state" := rfl

theorem brace_mem_function (name : Text) : '}' ∈ function name := by
  rw [function_eq]
  exact List.mem_cons_self ..

theorem brace_mem_event (e : Event) : '}' ∈ event e := by
  rw [event_eq]
  exact List.mem_append_right _ (List.mem_cons_self ..)

theorem brace_mem_state (name : StateName) : '}' ∈ state name := by
  rw [state_eq]
  exact List.mem_cons_self ..

theorem plain_tail {owner ending : Text} (ho : Text.Plain owner) (he : Text.Plain ending) :
    Text.Plain (tail owner ending) := by
  have start : Text.Plain "  // End of '".toList := by intro c; cases c <;> decide
  exact Text.plain_append.mpr ⟨Text.plain_append.mpr ⟨start, ho⟩, he⟩

theorem plain_function_tail {name : Text} (h : isIdentifier name = true) :
    Text.Plain (tail name "' function") :=
  plain_tail (plain_identifier h) (by intro c; cases c <;> decide)

theorem plain_event_tail (e : Event) : Text.Plain (tail e.name "' event") :=
  plain_tail (plain_identifier e.isIdentifier_name) (by intro c; cases c <;> decide)

theorem plain_state_tail {name : StateName} (h : isIdentifier name.text = true) :
    Text.Plain (tail name.label "' state") :=
  plain_tail (plain_label h) (by intro c; cases c <;> decide)

theorem tail_inj {n m ending : Text} (h : tail n ending = tail m ending) : n = m :=
  List.append_cancel_left (List.append_cancel_right h)

theorem function_inj {n m : Text} (h : function n = function m) : n = m := by
  rw [function_eq, function_eq] at h
  exact tail_inj (List.cons.inj h).2

theorem event_inj {e f : Event} (h : event e = event f) : e = f := by
  rw [event_eq, event_eq] at h
  have hn : e.name = f.name := tail_inj (List.cons.inj (List.append_cancel_left h)).2
  have := Event.ofName?_name e
  rw [hn, Event.ofName?_name] at this
  exact (Option.some.inj this).symm

theorem getLast?_tail {owner ending : Text} {c : Char} (h : ending.getLast? = some c) :
    (tail owner ending).getLast? = some c := by
  unfold tail
  rw [List.getLast?_append, h]
  rfl

theorem function_ne_state (n : Text) (m : StateName) : function n ≠ state m := by
  intro h
  rw [function_eq, state_eq] at h
  have hn : (tail n "' function").getLast? = some 'n' := getLast?_tail (by decide)
  have hm : (tail m.label "' state").getLast? = some 'e' := getLast?_tail (by decide)
  rw [(List.cons.inj h).2, hm] at hn
  cases hn

theorem head?_event (e : Event) : (event e).head? = some ' ' := rfl

theorem head?_function (n : Text) : (function n).head? = some '}' := rfl

theorem head?_state (n : StateName) : (state n).head? = some '}' := rfl

theorem event_ne_function (e : Event) (n : Text) : event e ≠ function n := by
  intro h
  have := head?_event e
  rw [h, head?_function] at this
  cases this

theorem event_ne_state (e : Event) (n : StateName) : event e ≠ state n := by
  intro h
  have := head?_event e
  rw [h, head?_state] at this
  cases this

end Sentinel

theorem StateName.label_inj {n m : StateName} (h : n.label = m.label) : n = m := by
  obtain ⟨t⟩ := n
  obtain ⟨u⟩ := m
  unfold label at h
  split at h
  · rename_i hn
    split at h
    · rename_i hm
      rw [hn, hm]
    · cases hn
      exact absurd h.symm (state_append_ne_default u)
  · split at h
    · rename_i hm
      cases hm
      exact absurd h (state_append_ne_default t)
    · exact congrArg StateName.mk (List.append_cancel_left h)

theorem Sentinel.state_inj {n m : StateName} (h : state n = state m) : n = m := by
  rw [state_eq, state_eq] at h
  exact StateName.label_inj (tail_inj (List.cons.inj h).2)

end LslScript
