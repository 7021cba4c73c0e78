import LslScript.Proofs.Grammar
import LslScript.Script.Reader

/-!
# The reader and the grammar

A text is read as a script exactly when its lines spell that script (`ofText_eq_ok_iff`). Sound: what
the lines read so far spell is known at every place (`Place.SpelledBy`), and each line keeps it.
Complete: a block of lines leads the reader from behind one block to behind the next.
-/

namespace LslScript

namespace Script

theorem function?_isSome_iff {s : Script} {name : Text} :
    (s.function? name).isSome = true ↔ name ∈ s.functions.map (·.name) := by
  simp [function?, List.find?_isSome]

theorem state?_isSome_iff {s : Script} {name : StateName} :
    (s.state? name).isSome = true ↔ name ∈ s.states.map (·.name) := by
  simp [state?, List.find?_isSome]

end Script

theorem any_event_iff {hs : List Handler} {e : Event} :
    (hs.any (·.event == e)) = true ↔ e ∈ hs.map (·.event) := by
  simp

theorem key_not_mem_before {α β : Type} {key : α → β} {a : α} {l r : List α}
    (h : ((l ++ a :: r).map key).Nodup) : key a ∉ l.map key := by
  rw [List.map_append, List.map_cons] at h
  exact fun hm => (List.nodup_append.mp h).2.2 _ hm _ (List.mem_cons_self ..) rfl

namespace Reading

/-! ## What heads a block -/

theorem heading_eq_ok_iff {r : Reading} {line : Text} {place : Place} :
    r.heading line = .ok place ↔
      (line.isBlank = true ∧ place = .outside) ∨
      (∃ name, isIdentifier name.text = true ∧ line = name.label ∧ name ∉ r.script.states.map (·.name) ∧
        place = .stateOpening name) ∨
      (∃ name ps, isIdentifier name = true ∧ HeaderSpelledBy name ps line ∧ r.script.states = [] ∧
        name ∉ r.script.functions.map (·.name) ∧ place = .functionOpening name ps) := by
  constructor
  · intro h
    unfold heading at h
    split at h
    · rename_i hb; cases h; exact Or.inl ⟨hb, rfl⟩
    · split at h
      · rename_i name hl
        obtain ⟨hi, rfl⟩ := StateName.ofLabel?_eq_some_iff.mp hl
        split at h
        · cases h
        · rename_i hn
          cases h
          exact Or.inr (Or.inl ⟨name, hi, rfl, fun hm => hn (Script.state?_isSome_iff.mpr hm), rfl⟩)
      · split at h
        · cases h
        · rename_i name inner hf
          obtain ⟨hi, tail, hb, rfl⟩ := Header.function?_eq_some_iff.mp hf
          split at h
          · cases h
          · rename_i hs
            split at h
            · cases h
            · rename_i hn
              split at h
              · cases h
              · rename_i ps hps
                cases h
                have header : HeaderSpelledBy name ps (name ++ '(' :: (inner ++ ')' :: tail)) :=
                  ⟨inner, tail, Param.ofListing_eq_ok_iff.mp hps, hb, rfl⟩
                refine Or.inr (Or.inr ⟨name, ps, hi, header, ?_, ?_, rfl⟩)
                · simpa using hs
                · exact fun hm => hn (Script.function?_isSome_iff.mpr hm)
  -- a shape comes to its own test because those in front of it fail on what has this shape
  · rintro (⟨hb, rfl⟩ | ⟨name, hi, rfl, hn, rfl⟩ | ⟨name, ps, hi, ⟨inner, tail, hps, hb, rfl⟩, hs, hn, rfl⟩)
    · rw [heading, if_pos hb]
    · rw [heading, if_neg (by simp [isBlank_label name hi]), StateName.ofLabel?_eq_some_iff.mpr ⟨hi, rfl⟩]
      exact if_neg fun h => hn (Script.state?_isSome_iff.mp h)
    · have hf : Header.function? (name ++ '(' :: (inner ++ ')' :: tail)) = some (name, inner) :=
        Header.function?_eq_some_iff.mpr ⟨hi, tail, hb, rfl⟩
      rw [heading, if_neg (by simp [isBlank_name_append hi]), ofLabel?_header]
      simp only [hf, hs, Param.ofListing_eq_ok_iff.mpr hps]
      rw [if_neg (by simp), if_neg fun h => hn (Script.function?_isSome_iff.mp h)]

theorem eventHeading_eq_ok_iff {name : StateName} {hs : List Handler} {line : Text}
    {place : Place} :
    eventHeading name hs line = .ok place ↔ ∃ e ps header, HeaderSpelledBy e.name ps header ∧
      line = indentUnit ++ header ∧ e ∉ hs.map (·.event) ∧ ps.map (·.type) = e.types ∧
      place = .eventOpening name hs e ps := by
  constructor
  · intro h
    unfold eventHeading at h
    split at h
    · cases h
    · rename_i word inner he
      obtain ⟨_, tail, hb, rfl⟩ := Header.event?_eq_some_iff.mp he
      split at h
      · cases h
      · rename_i e hword
        obtain rfl := Event.ofName?_eq_some_iff.mp hword
        split at h
        · cases h
        · rename_i hn
          split at h
          · cases h
          · rename_i ps hps
            split at h
            · rename_i ht
              cases h
              exact ⟨e, ps, _, ⟨inner, tail, Param.ofListing_eq_ok_iff.mp hps, hb, rfl⟩, rfl,
                fun hm => hn (any_event_iff.mpr hm), ht, rfl⟩
            · cases h
  · rintro ⟨e, ps, _, ⟨inner, tail, hps, hb, rfl⟩, rfl, hn, ht, rfl⟩
    rw [eventHeading, e.event?_header inner hb]
    simp only [Event.ofName?_eq_some_iff.mpr rfl, Param.ofListing_eq_ok_iff.mpr hps, if_pos ht]
    exact if_neg fun h => hn (any_event_iff.mp h)

end Reading

/-! ## Sound -/

/-- The lines read so far spell the blocks that are complete and the part of a block that is open. -/
inductive Place.SpelledBy (s : Script) : Place → List Text → Prop
  | outside {ls : List Text} : s.SpelledBy ls → SpelledBy s .outside ls
  | functionOpening {ls : List Text} {name header : Text} {ps : List Param} :
    s.SpelledBy ls → s.states = [] → name ∉ s.functions.map (·.name) → isIdentifier name = true →
      HeaderSpelledBy name ps header → SpelledBy s (.functionOpening name ps) (ls ++ [header])
  | functionBody {ls body : List Text} {name : Text} {ps : List Param} :
    SpelledBy s (.functionOpening name ps) ls → (∀ l ∈ body, Text.startsWith "\x7d" l = false) →
      SpelledBy s (.functionBody name ps body) (ls ++ opening :: body)
  | stateOpening {ls : List Text} {name : StateName} :
    s.SpelledBy ls → name ∉ s.states.map (·.name) → isIdentifier name.text = true →
      SpelledBy s (.stateOpening name) (ls ++ [name.label])
  | stateBody {ls inner : List Text} {name : StateName} {hs : List Handler} :
    SpelledBy s (.stateOpening name) ls → Spaced Handler.SpelledBy hs inner → (hs.map (·.event)).Nodup →
      SpelledBy s (.stateBody name hs) (ls ++ opening :: inner)
  | eventOpening {ls : List Text} {name : StateName} {hs : List Handler} {e : Event} {ps : List Param}
      {header : Text} :
    SpelledBy s (.stateBody name hs) ls → e ∉ hs.map (·.event) → ps.map (·.type) = e.types →
      HeaderSpelledBy e.name ps header →
        SpelledBy s (.eventOpening name hs e ps) (ls ++ [indentUnit ++ header])
  | eventBody {ls body : List Text} {name : StateName} {hs : List Handler} {e : Event} {ps : List Param} :
    SpelledBy s (.eventOpening name hs e ps) ls →
      (∀ l ∈ body, Text.startsWith (indentUnit ++ "\x7d") l = false ∧ Text.startsWith "\x7d" l = false) →
      SpelledBy s (.eventBody name hs e ps body) (ls ++ (indentUnit ++ opening) :: body)

namespace Place.SpelledBy
variable {s : Script} {ls body : List Text} {line : Text}

theorem closeFunction {name : Text} {ps : List Param}
    (h : SpelledBy s (.functionBody name ps body) ls)
    (hl : Text.startsWith "\x7d" line = true) :
    Script.SpelledBy
      { s with functions := s.functions ++ [⟨name, ps, body, .ofLine (Sentinel.function name) line⟩] }
      (ls ++ [line]) := by
  cases h with
  | functionBody ho hbody =>
    cases ho with
    | @functionOpening ls _ header _ hs he hm hi hh =>
      have block := hs.snocFunction he hm (b := ⟨name, ps, body, .ofLine (Sentinel.function name) line⟩)
        ⟨hi, hbody, header, line, hh, hl, rfl, rfl⟩
      have assoc : ls ++ [header] ++ opening :: body ++ [line] =
          ls ++ header :: opening :: (body ++ [line]) := by simp
      rwa [assoc]

theorem closeState {name : StateName} {hs : List Handler} (h : SpelledBy s (.stateBody name hs) ls)
    (hl : Text.startsWith "\x7d" line = true) :
    (s.addState ⟨name, hs, .ofLine (Sentinel.state name) line⟩).SpelledBy (ls ++ [line]) := by
  cases h with
  | @stateBody _ inner _ _ ho hspaced hnodup =>
    cases ho with
    | @stateOpening ls _ hss hm hi =>
      have block := hss.snocState (b := ⟨name, hs, .ofLine (Sentinel.state name) line⟩) hm
        ⟨hi, hnodup, inner, line, hspaced, hl, rfl, rfl⟩
      have assoc : ls ++ [name.label] ++ opening :: inner ++ [line] =
          ls ++ name.label :: opening :: (inner ++ [line]) := by simp
      rwa [assoc]

theorem closeEvent {name : StateName} {hs : List Handler} {e : Event} {ps : List Param}
    (h : SpelledBy s (.eventBody name hs e ps body) ls)
    (hl : Text.startsWith (indentUnit ++ "\x7d") line = true) :
    SpelledBy s (.stateBody name (hs ++ [⟨e, ps, body, .ofLine (Sentinel.event e) line⟩]))
      (ls ++ [line]) := by
  cases h with
  | eventBody ho hbody =>
    cases ho with
    | @eventOpening _ _ _ _ _ header ho hm ht hh =>
      cases ho with
      | @stateBody ls inner _ _ ho hspaced hnodup =>
        have block := hspaced.snoc (a := ⟨e, ps, body, .ofLine (Sentinel.event e) line⟩)
          ⟨ht, hbody, header, line, hh, hl, rfl, rfl⟩
        have assoc : ls ++ opening :: inner ++ [indentUnit ++ header] ++
            (indentUnit ++ opening) :: body ++ [line] = ls ++ opening :: (inner ++
              (indentUnit ++ header) :: (indentUnit ++ opening) :: (body ++ [line])) := by simp
        rw [assoc]
        exact .stateBody ho block (by simpa using List.Nodup.concat hm hnodup)

end Place.SpelledBy

namespace Reading

theorem spelledBy_heading {s : Script} {ls : List Text} {line : Text} {place : Place}
    (hs : s.SpelledBy ls)
    (h : heading ⟨s, .outside⟩ line = .ok place) : place.SpelledBy s (ls ++ [line]) := by
  rcases heading_eq_ok_iff.mp h with ⟨hb, rfl⟩ | ⟨name, hi, rfl, hn, rfl⟩ | ⟨name, ps, hi, hh, he, hn, rfl⟩
  · exact .outside (hs.blank hb)
  · exact .stateOpening hs hn hi
  · exact .functionOpening hs he hn hi hh

theorem forall_snoc {p : Text → Prop} {body : List Text} {line : Text} (h : ∀ l ∈ body, p l)
    (hl : p line) : ∀ l ∈ body ++ [line], p l := by
  intro l hm
  rcases List.mem_append.mp hm with hm | hm
  · exact h l hm
  · rw [List.mem_singleton.mp hm]; exact hl

/-- What a line leads to is spelled by the lines read so far and this line. -/
theorem spelledBy_next {r r' : Reading} {ls : List Text} {line : Text}
    (h : r.place.SpelledBy r.script ls)
    (hn : r.next line = .ok r') : r'.place.SpelledBy r'.script (ls ++ [line]) := by
  obtain ⟨s, place⟩ := r
  simp only at h
  -- by place; a line either heads, opens, fills or closes what the place says is open
  cases place with
  | outside =>
    cases h with
    | outside hs =>
      simp only [next] at hn
      split at hn
      · rename_i place hp; cases hn; exact spelledBy_heading hs hp
      · cases hn
  | functionOpening name ps =>
    simp only [next] at hn
    split at hn
    · rename_i hl
      cases hn; subst hl
      exact .functionBody h (by simp)
    · cases hn
  | functionBody name ps body =>
    simp only [next] at hn
    split at hn
    · rename_i hl
      cases hn
      exact .outside (h.closeFunction hl)
    · rename_i hl
      cases hn
      cases h with
      | functionBody ho hbody =>
        rw [List.append_assoc, List.cons_append]
        exact .functionBody ho (forall_snoc hbody (Bool.eq_false_iff.mpr hl))
  | stateOpening name =>
    simp only [next] at hn
    split at hn
    · rename_i hl
      cases hn; subst hl
      exact .stateBody h .nil List.nodup_nil
    · cases hn
  | stateBody name hs =>
    simp only [next] at hn
    split at hn
    · rename_i hl
      cases hn
      cases h with
      | stateBody ho hspaced hnodup =>
        rw [List.append_assoc, List.cons_append]
        exact .stateBody ho (hspaced.snoc_blank hl) hnodup
    · split at hn
      · rename_i hl
        cases hn
        exact .outside (h.closeState hl)
      · split at hn
        · rename_i place hp
          cases hn
          obtain ⟨e, ps, header, hh, rfl, hm, ht, rfl⟩ := eventHeading_eq_ok_iff.mp hp
          exact .eventOpening h hm ht hh
        · cases hn
  | eventOpening name hs e ps =>
    simp only [next] at hn
    split at hn
    · rename_i hl
      cases hn; subst hl
      exact .eventBody h (by simp)
    · cases hn
  | eventBody name hs e ps body =>
    simp only [next] at hn
    split at hn
    · rename_i hl
      cases hn
      exact h.closeEvent hl
    · rename_i hl
      split at hn
      · cases hn
      · rename_i hl'
        cases hn
        cases h with
        | eventBody ho hbody =>
          rw [List.append_assoc, List.cons_append]
          exact .eventBody ho (forall_snoc hbody ⟨Bool.eq_false_iff.mpr hl, Bool.eq_false_iff.mpr hl'⟩)

def readAll (r : Reading) : List Text → Except Defect Reading
  | [] => .ok r
  | line :: ls =>
    match r.next line with
    | .ok r => readAll r ls
    | .error defect => .error defect

theorem readAll_cons {r r' : Reading} {line : Text} (h : r.next line = .ok r') (ls : List Text) :
    r.readAll (line :: ls) = r'.readAll ls := by
  rw [readAll, h]

theorem readAll_append {r' : Reading} (ms : List Text) :
    ∀ {ls : List Text} {r : Reading}, r.readAll ls = .ok r' → r.readAll (ls ++ ms) = r'.readAll ms
  | [], r, h => by cases h; rfl
  | line :: ls, r, h => by
    rw [readAll] at h
    split at h
    · rename_i r₁ hn
      rw [List.cons_append, readAll_cons hn, readAll_append ms h]
    · cases h

theorem spelledBy_readAll : ∀ {ls ms : List Text} {r r' : Reading}, r.place.SpelledBy r.script ls →
    r.readAll ms = .ok r' → r'.place.SpelledBy r'.script (ls ++ ms)
  | ls, [], r, r', h, hr => by cases hr; rwa [List.append_nil]
  | ls, line :: ms, r, r', h, hr => by
    rw [readAll] at hr
    split at hr
    · rename_i r₁ hn
      have := spelledBy_readAll (spelledBy_next h hn) hr
      rwa [List.append_assoc] at this
    · cases hr

theorem finish_eq_ok_iff {r : Reading} {s : Script} : r.finish = .ok s ↔ r = ⟨s, .outside⟩ := by
  obtain ⟨s', place⟩ := r
  cases place with
  | outside => simp [finish]
  | _ => simp [finish]

theorem readFrom_eq_ok_iff {s : Script} : ∀ {ls : List Text} {number : Nat} {r : Reading},
    r.readFrom number ls = .ok s ↔ r.readAll ls = .ok ⟨s, .outside⟩
  | [], number, r => by
    rw [readFrom, readAll, Except.ok.injEq, ← finish_eq_ok_iff]
    cases r.finish with
    | ok s' => simp [Except.mapError]
    | error d => simp [Except.mapError]
  | line :: ls, number, r => by
    rw [readFrom, readAll]
    cases r.next line with
    | ok r' => exact readFrom_eq_ok_iff
    | error d => simp

/-! ## Complete -/

theorem isBlank_eventHeader {e : Event} {ps : List Param} {header : Text}
    (h : HeaderSpelledBy e.name ps header) : Text.isBlank (indentUnit ++ header) = false := by
  obtain ⟨inner, tail, _, _, rfl⟩ := h
  rw [Text.isBlank_append, isBlank_name_append e.isIdentifier_name, Bool.and_false]

theorem isBlank_closing {line : Text} (h : Text.startsWith "\x7d" line = true) :
    Text.isBlank line = false := by
  obtain ⟨rest, rfl⟩ := List.isPrefixOf_iff_prefix.mp h
  exact isBlank_of_solid_head (by decide : isBlankChar '\x7d' = false) rest

theorem readAll_body {P : Text → Prop} (put : List Text → Reading)
    (hstep : ∀ body line, P line → (put body).next line = .ok (put (body ++ [line]))) :
    ∀ {ls : List Text} (body : List Text), (∀ l ∈ ls, P l) → (put body).readAll ls = .ok (put (body ++ ls))
  | [], body, _ => by rw [List.append_nil]; rfl
  | line :: ls, body, h => by
    rw [readAll_cons (hstep body line (h line (List.mem_cons_self ..))),
      readAll_body put hstep (body ++ [line]) fun l hl => h l (List.mem_cons_of_mem _ hl), List.append_assoc]
    rfl

/-- Blocks are read one after the other if each can be read behind those before it. -/
theorem readAll_spaced {α β : Type} {Spells : α → List Text → Prop} (put : List α → Reading)
    (key : α → β)
    (hblank : ∀ as line, Text.isBlank line = true → (put as).next line = .ok (put as))
    (hitem : ∀ as a block, key a ∉ as.map key → Spells a block →
      (put as).readAll block = .ok (put (as ++ [a])))
    {bs : List α} {ls : List Text} (h : Spaced Spells bs ls) :
    ∀ as, ((as ++ bs).map key).Nodup → (put as).readAll ls = .ok (put (as ++ bs)) := by
  -- `as` grows block by block: the reader checks a block against those before it only
  induction h with
  | nil => intro as _; rw [List.append_nil]; rfl
  | blank hl _ ih =>
    intro as hn
    rw [readAll_cons (hblank as _ hl), ih as hn]
  | @item a bs block ls ha _ ih =>
    intro as hn
    have e : as ++ a :: bs = (as ++ [a]) ++ bs := by simp
    rw [readAll_append ls (hitem as a block (key_not_mem_before hn) ha), ih (as ++ [a]) (e ▸ hn), ← e]

theorem readAll_openFunction {s : Script} {name header : Text} {ps : List Param} {body : List Text}
    (hs : s.states = []) (hm : name ∉ s.functions.map (·.name)) (hi : isIdentifier name = true)
    (hh : HeaderSpelledBy name ps header) (hbody : ∀ l ∈ body, Text.startsWith "\x7d" l = false) :
    readAll ⟨s, .outside⟩ (header :: opening :: body) = .ok ⟨s, .functionBody name ps body⟩ := by
  have h1 : next ⟨s, .outside⟩ header = .ok ⟨s, .functionOpening name ps⟩ := by
    have heading : heading ⟨s, .outside⟩ header = .ok (.functionOpening name ps) :=
      heading_eq_ok_iff.mpr (Or.inr (Or.inr ⟨name, ps, hi, hh, hs, hm, rfl⟩))
    simp only [next, heading]
  have h2 : next ⟨s, .functionOpening name ps⟩ opening = .ok ⟨s, .functionBody name ps []⟩ := by simp [next]
  rw [readAll_cons h1, readAll_cons h2]
  exact readAll_body (fun body => ⟨s, .functionBody name ps body⟩)
    (fun body line hl => by simp only [next, hl, Bool.false_eq_true, if_false]) [] hbody

theorem readAll_function {s : Script} {b : FunctionDef} {ls : List Text} (hs : s.states = [])
    (hm : b.name ∉ s.functions.map (·.name)) (hb : b.SpelledBy ls) :
    readAll ⟨s, .outside⟩ ls = .ok ⟨{ s with functions := s.functions ++ [b] }, .outside⟩ := by
  obtain ⟨name, ps, body, ending⟩ := b
  simp only [FunctionDef.SpelledBy] at hb hm ⊢
  obtain ⟨hi, hbody, header, closing, hh, hc, rfl, rfl⟩ := hb
  rw [← List.cons_append, ← List.cons_append, readAll_append _ (readAll_openFunction hs hm hi hh hbody)]
  simp only [readAll, next, hc, if_true]

theorem readAll_openEvent {s : Script} {name : StateName} {hs : List Handler} {e : Event}
    {ps : List Param} {header : Text} {body : List Text} (hm : e ∉ hs.map (·.event))
    (ht : ps.map (·.type) = e.types) (hh : HeaderSpelledBy e.name ps header)
    (hbody : ∀ l ∈ body, Text.startsWith (indentUnit ++ "\x7d") l = false ∧ Text.startsWith "\x7d" l = false) :
    readAll ⟨s, .stateBody name hs⟩ ((indentUnit ++ header) :: (indentUnit ++ opening) :: body) =
      .ok ⟨s, .eventBody name hs e ps body⟩ := by
  have h1 : next ⟨s, .stateBody name hs⟩ (indentUnit ++ header) = .ok ⟨s, .eventOpening name hs e ps⟩ := by
    have heading : eventHeading name hs (indentUnit ++ header) = .ok (.eventOpening name hs e ps) :=
      eventHeading_eq_ok_iff.mpr ⟨e, ps, header, hh, rfl, hm, ht, rfl⟩
    have blank := isBlank_eventHeader hh
    have brace : Text.startsWith "\x7d" (indentUnit ++ header) = false := rfl
    simp only [next, blank, brace, heading, Bool.false_eq_true, if_false]
  have h2 : next ⟨s, .eventOpening name hs e ps⟩ (indentUnit ++ opening) =
      .ok ⟨s, .eventBody name hs e ps []⟩ := by simp [next]
  rw [readAll_cons h1, readAll_cons h2]
  exact readAll_body (fun body => ⟨s, .eventBody name hs e ps body⟩)
    (fun body line hl => by simp only [next, hl.1, hl.2, Bool.false_eq_true, if_false]) [] hbody

theorem readAll_event {s : Script} {name : StateName} {hs : List Handler} {b : Handler}
    {ls : List Text}
    (hm : b.event ∉ hs.map (·.event)) (hb : b.SpelledBy ls) :
    readAll ⟨s, .stateBody name hs⟩ ls = .ok ⟨s, .stateBody name (hs ++ [b])⟩ := by
  obtain ⟨e, ps, body, ending⟩ := b
  simp only [Handler.SpelledBy] at hb hm ⊢
  obtain ⟨ht, hbody, header, closing, hh, hc, rfl, rfl⟩ := hb
  rw [← List.cons_append, ← List.cons_append, readAll_append _ (readAll_openEvent hm ht hh hbody)]
  simp only [readAll, next, hc, if_true]

theorem readAll_openState {s : Script} {name : StateName} {hs : List Handler} {inner : List Text}
    (hm : name ∉ s.states.map (·.name)) (hi : isIdentifier name.text = true)
    (hnodup : (hs.map (·.event)).Nodup) (hinner : Spaced Handler.SpelledBy hs inner) :
    readAll ⟨s, .outside⟩ (name.label :: opening :: inner) = .ok ⟨s, .stateBody name hs⟩ := by
  have h1 : next ⟨s, .outside⟩ name.label = .ok ⟨s, .stateOpening name⟩ := by
    have heading : heading ⟨s, .outside⟩ name.label = .ok (.stateOpening name) :=
      heading_eq_ok_iff.mpr (Or.inr (Or.inl ⟨name, hi, rfl, hm, rfl⟩))
    simp only [next, heading]
  have h2 : next ⟨s, .stateOpening name⟩ opening = .ok ⟨s, .stateBody name []⟩ := by simp [next]
  rw [readAll_cons h1, readAll_cons h2]
  exact readAll_spaced (fun hs => ⟨s, .stateBody name hs⟩) (·.event)
    (fun hs line hl => by simp only [next, hl, if_true])
    (fun hs b block hm hb => readAll_event hm hb) hinner [] hnodup

theorem readAll_state {s : Script} {b : StateDef} {ls : List Text}
    (hm : b.name ∉ s.states.map (·.name)) (hb : b.SpelledBy ls) :
    readAll ⟨s, .outside⟩ ls = .ok ⟨s.addState b, .outside⟩ := by
  obtain ⟨name, hs, ending⟩ := b
  simp only [StateDef.SpelledBy] at hb hm ⊢
  obtain ⟨hi, hnodup, inner, closing, hinner, hc, rfl, rfl⟩ := hb
  rw [← List.cons_append, ← List.cons_append, readAll_append _ (readAll_openState hm hi hnodup hinner)]
  simp only [readAll, next, isBlank_closing hc, hc, Bool.false_eq_true, if_false, if_true]

theorem readAll_script {s : Script} {ls : List Text} (h : s.SpelledBy ls) :
    start.readAll ls = .ok ⟨s, .outside⟩ := by
  obtain ⟨functions, states⟩ := s
  obtain ⟨hf, hs, front, back, h1, h2, rfl⟩ := h
  have blank : ∀ (s : Script) line, Text.isBlank line = true →
      next ⟨s, .outside⟩ line = .ok ⟨s, .outside⟩ := by
    intro s line hl
    have heading : heading ⟨s, .outside⟩ line = .ok .outside := heading_eq_ok_iff.mpr (Or.inl ⟨hl, rfl⟩)
    simp only [next, heading]
  have r1 := readAll_spaced (fun fs => ⟨⟨fs, []⟩, .outside⟩) (·.name) (fun fs => blank ⟨fs, []⟩)
    (fun fs b block hm hb => readAll_function rfl hm hb) h1 [] hf
  have r2 := readAll_spaced (fun ss => ⟨⟨functions, ss⟩, .outside⟩) (·.name) (fun ss => blank ⟨functions, ss⟩)
    (fun ss b block hm hb => readAll_state hm hb) h2 [] hs
  exact (readAll_append back r1).trans r2

end Reading

theorem Script.ofText_eq_ok_iff {t : Text} {s : Script} :
    Script.ofText t = .ok s ↔ s.SpelledBy (Text.lines t) := by
  rw [Script.ofText, Reading.readFrom_eq_ok_iff]
  constructor
  · intro h
    have nothing : Reading.start.place.SpelledBy Reading.start.script [] := .outside Script.spelledBy_empty
    have read := Reading.spelledBy_readAll nothing h
    rw [List.nil_append] at read
    cases read with
    | outside hs => exact hs
  · exact Reading.readAll_script

end LslScript
