import LslScript.Proofs.Blocks

/-!
# Nesting of braces

Text without delimiters is plain. `Nested k` says of a text that it closes what it opens and that no
part of it from the left opens more than `k` braces or closes one too many; a block of plain text around
nested text is nested one deeper (`Nested.block`).
-/

namespace LslScript.Text

def Plain (t : Text) : Prop := ∀ c : Delimiter, c.char ∉ t

theorem plain_nil : Plain [] := fun _ => by simp

theorem plain_append {t u : Text} : Plain (t ++ u) ↔ Plain t ∧ Plain u := by
  simp only [Plain, List.mem_append, not_or, forall_and]

theorem plain_newline : Plain ['\n'] := by
  intro c
  cases c <;> decide

theorem plain_unlines {ls : List Text} : Plain (unlines ls) ↔ ∀ l ∈ ls, Plain l := by
  induction ls with
  | nil => simp [plain_nil]
  | cons l ls ih =>
    rw [unlines_cons, ← List.singleton_append, plain_append, plain_append, ih, List.forall_mem_cons]
    simp [plain_newline]

/-! ## Depth -/

def depth (t : Text) : Int := t.count '{' - t.count '}'

@[simp] theorem depth_nil : depth [] = 0 := rfl

@[simp] theorem depth_append (t u : Text) : depth (t ++ u) = depth t + depth u := by
  simp only [depth, List.count_append]
  omega

theorem depth_plain {t : Text} (h : Plain t) : depth t = 0 := by
  have hopen : t.count '{' = 0 := List.count_eq_zero_of_not_mem (h .openBrace)
  have hclose : t.count '}' = 0 := List.count_eq_zero_of_not_mem (h .closeBrace)
  simp [depth, hopen, hclose]

structure Nested (k : Nat) (t : Text) : Prop where
  closed : depth t = 0
  bounded : ∀ front, front <+: t → 0 ≤ depth front ∧ depth front ≤ k

namespace Nested
variable {k m : Nat} {t u : Text}

theorem plain (k : Nat) (h : Plain t) : Nested k t := by
  refine ⟨depth_plain h, fun front hf => ?_⟩
  rw [depth_plain fun c hc => h c (hf.subset hc)]
  omega

theorem mono (h : Nested k t) (hk : k ≤ m) : Nested m t := by
  refine ⟨h.closed, fun front hf => ?_⟩
  have := h.bounded front hf
  omega

theorem append (ht : Nested k t) (hu : Nested k u) : Nested k (t ++ u) := by
  refine ⟨by rw [depth_append, ht.closed, hu.closed]; rfl, fun front hf => ?_⟩
  rcases prefix_append_cases hf with hf | ⟨w, rfl, hw⟩
  · exact ht.bounded front hf
  · rw [depth_append, ht.closed, Int.zero_add]
    exact hu.bounded w hw

theorem flatMap {α : Type} {f : α → Text} : ∀ {as : List α}, (∀ a ∈ as, Nested k (f a)) →
    Nested k (as.flatMap f)
  | [], _ => plain k plain_nil
  | a :: as, h => by
    rw [List.flatMap_cons]
    exact (h a (List.mem_cons_self ..)).append (flatMap fun b hb => h b (List.mem_cons_of_mem _ hb))

theorem braces (h : Nested k t) : Nested (k + 1) ('{' :: (t ++ ['}'])) := by
  have hopen : ∀ u : Text, depth ('{' :: u) = 1 + depth u := depth_append ['{']
  have hclose : depth (t ++ ['}']) = -1 := by
    rw [depth_append, h.closed]
    rfl
  refine ⟨by rw [hopen, hclose]; rfl, fun front hf => ?_⟩
  rcases List.prefix_cons_iff.mp hf with rfl | ⟨w, rfl, hw⟩
  · rw [depth_nil]
    omega
  · rw [hopen]
    rcases List.prefix_concat_iff.mp hw with rfl | hw
    · rw [hclose]
      omega
    · have := h.bounded w hw
      omega

/-- Nested text in braces, with plain text in front and behind. -/
theorem block {front back : Text} (hf : Plain front) (h : Nested k t) (hb : Plain back) :
    Nested (k + 1) (front ++ '{' :: (t ++ '}' :: back)) := by
  have split : front ++ '{' :: (t ++ '}' :: back) = front ++ ('{' :: (t ++ ['}']) ++ back) := by simp
  rw [split]
  exact (plain (k + 1) hf).append (h.braces.append (plain (k + 1) hb))

end Nested

end LslScript.Text
