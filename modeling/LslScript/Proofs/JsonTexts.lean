import LslScript.Json.Printer
import LslScript.Json.Reader
import LslScript.Proofs.Numerals
import LslScript.Proofs.Strings

/-!
# JSON texts

Which texts spell a JSON value, said by the grammar of JSON: spaces may stand around every token and nowhere
else, and strings and numbers may be written in any way. Every such text is read back as its value
(`Json.Spells.ofText?`). It is cut into the tokens of the value first, and these lead the reader's machine
from where the value begins to where it is complete.
-/

namespace LslScript

def JsonToken.IsGap (t : Text) : Prop := ∀ c ∈ t, isSpace c = true

theorem JsonToken.isGap_nil : IsGap [] := nofun

namespace Json
open JsonToken (IsGap)

mutual

inductive SpelledBy : Json → Text → Prop
  | null : SpelledBy null "null"
  | true : SpelledBy (bool true) "true"
  | false : SpelledBy (bool false) "false"
  | number {n : JsonNumber} {t : Text} : n.SpelledBy t → SpelledBy (number n) t
  | string {s w : Text} : Spelling.SpelledBy s w → SpelledBy (string (some s)) ('"' :: (w ++ ['"']))
  | noItems {gap : Text} : IsGap gap → SpelledBy (array []) ('[' :: (gap ++ [']']))
  | array {items : List Json} {t : Text} : ItemsSpelledBy items t → SpelledBy (array items) ('[' :: (t ++ [']']))
  | noMembers {gap : Text} : IsGap gap → SpelledBy (object []) ('\x7b' :: (gap ++ ['\x7d']))
  | object {members : List (Text × Json)} {t : Text} : MembersSpelledBy members t →
    SpelledBy (ofMembers members) ('\x7b' :: (t ++ ['\x7d']))

inductive ItemsSpelledBy : List Json → Text → Prop
  | last {j : Json} {before t after : Text} : IsGap before → SpelledBy j t → IsGap after →
    ItemsSpelledBy [j] (before ++ (t ++ after))
  | cons {j : Json} {js : List Json} {before t after u : Text} : IsGap before → SpelledBy j t → IsGap after →
    ItemsSpelledBy js u → ItemsSpelledBy (j :: js) (before ++ (t ++ (after ++ ',' :: u)))

inductive MembersSpelledBy : List (Text × Json) → Text → Prop
  | last {name w : Text} {j : Json} {before between behind t after : Text} :
    IsGap before → Spelling.SpelledBy name w → IsGap between → IsGap behind → SpelledBy j t → IsGap after →
    MembersSpelledBy [(name, j)]
      (before ++ '"' :: (w ++ '"' :: (between ++ ':' :: (behind ++ (t ++ after)))))
  | cons {name w : Text} {j : Json} {members : List (Text × Json)} {before between behind t after u : Text} :
    IsGap before → Spelling.SpelledBy name w → IsGap between → IsGap behind → SpelledBy j t → IsGap after →
    MembersSpelledBy members u → MembersSpelledBy ((name, j) :: members)
      (before ++ '"' :: (w ++ '"' :: (between ++ ':' :: (behind ++ (t ++ (after ++ ',' :: u))))))

end

def Spells (t : Text) (j : Json) : Prop :=
  ∃ before value after, IsGap before ∧ j.SpelledBy value ∧ IsGap after ∧ t = before ++ (value ++ after)

mutual

def tokens : Json → List JsonToken
  | null => [.null]
  | bool b => [.bool b]
  | number n => [.number n]
  | string s => [.string s]
  | array items => .openBracket :: (tokensOfItems items ++ [.closeBracket])
  | object members => .openBrace :: (tokensOfMembers members ++ [.closeBrace])

def tokensOfItems : List Json → List JsonToken
  | [] => []
  | [j] => j.tokens
  | j :: rest => j.tokens ++ .comma :: tokensOfItems rest

def tokensOfMembers : List (Option Text × Json) → List JsonToken
  | [] => []
  | [(name, j)] => .string name :: .colon :: j.tokens
  | (name, j) :: rest => .string name :: .colon :: (j.tokens ++ .comma :: tokensOfMembers rest)

end

end Json

/-! ## From text to tokens -/

namespace JsonToken

/-- With enough fuel, whatever is left of it, a text is cut into the given tokens. -/
def Scanned (t : Text) (ts : List JsonToken) : Prop := ∀ fuel, t.length ≤ fuel → scan fuel t = some ts

variable {t rest : Text} {ts : List JsonToken}

theorem scanned_nil : Scanned [] [] := fun fuel _ => by cases fuel <;> rfl

theorem Scanned.gap (h : Scanned t ts) : ∀ {gap : Text}, IsGap gap → Scanned (gap ++ t) ts
  | [], _ => h
  | c :: gap, hg => fun fuel hf => by
    obtain ⟨hc, hg⟩ := List.forall_mem_cons.mp hg
    cases fuel with
    | zero => cases hf
    | succ fuel =>
      rw [List.cons_append, scan, if_pos hc]
      exact h.gap hg fuel (Nat.le_of_succ_le_succ hf)

theorem Scanned.next {c : Char} {w : Text} {token : JsonToken} (h : Scanned t ts) (hc : isSpace c = false)
    (hw : first? (c :: (w ++ t)) = some (token, t)) : Scanned (c :: (w ++ t)) (token :: ts) := fun fuel hf => by
  cases fuel with
  | zero => cases hf
  | succ fuel =>
    have enough : t.length ≤ fuel := by
      simp only [List.length_cons, List.length_append] at hf
      omega
    rw [scan, if_neg (by simp [hc]), hw]
    simp [h fuel enough]

theorem Scanned.mark {c : Char} {token : JsonToken} (h : Scanned t ts) (hc : isSpace c = false)
    (ht : first? (c :: t) = some (token, t)) : Scanned (c :: t) (token :: ts) := h.next (w := []) hc ht

theorem Scanned.string {s w : Text} (h : Scanned t ts) (hs : Spelling.SpelledBy s w) :
    Scanned ('"' :: (w ++ '"' :: t)) (.string (some s) :: ts) := by
  obtain ⟨ps, hp, hs⟩ := hs.read t
  have found : first? ('"' :: (w ++ '"' :: t)) = some (.string (some s), t) := by
    rw [first?, hp, ← hs]
    rfl
  have := h.next (w := w ++ ['"']) rfl (by simpa using found)
  simpa using this

theorem first?_number {c : Char} (h : c = '-' ∨ c.isDigit = true) :
    first? (c :: t) = (JsonNumber.read? (c :: t)).map fun (n, rest) => (.number n, rest) := by
  rw [first?]
  -- no other token begins as a number does
  all_goals
    intros
    simp_all

theorem isSpace_number {c : Char} (h : c = '-' ∨ c.isDigit = true) : isSpace c = false := by
  rw [Bool.eq_false_iff]
  intro hs
  simp only [isSpace, Bool.or_eq_true, beq_iff_eq] at hs
  rcases hs with ((rfl | rfl) | rfl) | rfl <;> simp_all

theorem Scanned.number {n : JsonNumber} {w : Text} (h : Scanned t ts) (hn : n.SpelledBy w)
    (ht : JsonNumber.Stops t) : Scanned (w ++ t) (.number n :: ts) := by
  have found := hn.read ht
  obtain ⟨c, w, rfl, hc⟩ := hn.exists_cons
  rw [List.cons_append] at found
  exact h.next (isSpace_number hc) (by rw [first?_number hc, found]; rfl)

end JsonToken

/-! ## From tokens to the value -/

namespace JsonReader
open Json (tokens tokensOfItems tokensOfMembers)

variable {stack : List Frame} {ts : List JsonToken}

/-- Behind its bracket an array goes on as it does behind a comma, unless it ends. -/
theorem run_firstItem {items : List Json} (h : items ≠ []) :
    run (.firstItem stack) (tokensOfItems items ++ ts) =
      run (.value (.array [] :: stack)) (tokensOfItems items ++ ts) := by
  match items with
  | [j] => cases j <;> rfl
  | j :: k :: rest => cases j <;> rfl

theorem run_firstName {members : List (Option Text × Json)} (h : members ≠ []) :
    run (.firstName stack) (tokensOfMembers members ++ ts) =
      run (.name [] stack) (tokensOfMembers members ++ ts) := by
  match members with
  | [(name, j)] => rfl
  | (name, j) :: m :: rest => rfl

mutual

theorem run_tokens : ∀ (j : Json) (stack : List Frame) (ts : List JsonToken),
    run (.value stack) (j.tokens ++ ts) = run (push j stack) ts
  | .null, _, _ => rfl
  | .bool _, _, _ => rfl
  | .number _, _, _ => rfl
  | .string _, _, _ => rfl
  | .array [], _, _ => rfl
  | .array (j :: rest), stack, ts => by
    have opened : run (.value stack) ((Json.array (j :: rest)).tokens ++ ts) =
        run (.firstItem stack) (tokensOfItems (j :: rest) ++ .closeBracket :: ts) := by
      rw [tokens, List.cons_append, List.append_assoc]
      rfl
    rw [opened, run_firstItem (List.cons_ne_nil j rest), run_items [] _ (List.cons_ne_nil j rest), List.nil_append]
  | .object [], _, _ => rfl
  | .object (m :: rest), stack, ts => by
    have opened : run (.value stack) ((Json.object (m :: rest)).tokens ++ ts) =
        run (.firstName stack) (tokensOfMembers (m :: rest) ++ .closeBrace :: ts) := by
      rw [tokens, List.cons_append, List.append_assoc]
      rfl
    rw [opened, run_firstName (List.cons_ne_nil m rest), run_members [] _ (List.cons_ne_nil m rest),
      List.nil_append]

theorem run_items : ∀ (done items : List Json), items ≠ [] → ∀ {stack : List Frame} {ts : List JsonToken},
    run (.value (.array done :: stack)) (tokensOfItems items ++ .closeBracket :: ts) =
      run (push (.array (done ++ items)) stack) ts
  | _, [j], _, _, _ => run_tokens j _ _
  | done, j :: k :: rest, _, stack, ts => by
    have comma : run (.value (.array done :: stack)) (tokensOfItems (j :: k :: rest) ++ .closeBracket :: ts) =
        run (.value (.array (done ++ [j]) :: stack)) (tokensOfItems (k :: rest) ++ .closeBracket :: ts) := by
      rw [tokensOfItems, List.append_assoc, run_tokens j]
      · rfl
      · exact List.cons_ne_nil k rest
    rw [comma, run_items _ _ (List.cons_ne_nil k rest), List.append_assoc, List.singleton_append]

theorem run_members : ∀ (done members : List (Option Text × Json)), members ≠ [] →
    ∀ {stack : List Frame} {ts : List JsonToken},
    run (.name done stack) (tokensOfMembers members ++ .closeBrace :: ts) =
      run (push (.object (done ++ members)) stack) ts
  | done, [(name, j)], _, stack, _ => run_tokens j (.object done name :: stack) _
  | done, (name, j) :: m :: rest, _, stack, ts => by
    have comma : run (.name done stack) (tokensOfMembers ((name, j) :: m :: rest) ++ .closeBrace :: ts) =
        run (.name (done ++ [(name, j)]) stack) (tokensOfMembers (m :: rest) ++ .closeBrace :: ts) := by
      rw [tokensOfMembers, List.cons_append, List.cons_append, List.append_assoc]
      · exact run_tokens j (.object done name :: stack) _
      · exact List.cons_ne_nil m rest
    rw [comma, run_members _ _ (List.cons_ne_nil m rest), List.append_assoc, List.singleton_append]

end

end JsonReader

namespace Json
open JsonToken (IsGap Scanned)
open JsonNumber (Stops)

theorem stops_gap {gap t : Text} (hg : IsGap gap) (ht : Stops t) : Stops (gap ++ t) := by
  cases gap with
  | nil => exact ht
  | cons c gap =>
    rintro d ⟨⟩
    have hs := hg c (List.mem_cons_self ..)
    simp only [JsonToken.isSpace, Bool.or_eq_true, beq_iff_eq] at hs
    rcases hs with ((rfl | rfl) | rfl) | rfl <;> decide

theorem ItemsSpelledBy.ne_nil {items : List Json} {t : Text} (h : ItemsSpelledBy items t) : items ≠ [] := by
  cases h <;> exact List.cons_ne_nil _ _

theorem MembersSpelledBy.ne_nil {members : List (Text × Json)} {t : Text} (h : MembersSpelledBy members t) :
    members ≠ [] := by
  cases h <;> exact List.cons_ne_nil _ _

mutual

theorem SpelledBy.scanned {j : Json} {t rest : Text} {ts : List JsonToken} (h : j.SpelledBy t)
    (hr : Stops rest) (hs : Scanned rest ts) : Scanned (t ++ rest) (j.tokens ++ ts) := by
  -- on the spelling, from the left; `ts` are the tokens of what follows
  match h with
  | .null => exact hs.next (w := ['u', 'l', 'l']) rfl rfl
  | .true => exact hs.next (w := ['r', 'u', 'e']) rfl rfl
  | .false => exact hs.next (w := ['a', 'l', 's', 'e']) rfl rfl
  | .number hn => exact hs.number hn hr
  | .string hw =>
    rw [List.cons_append, List.append_assoc]
    exact hs.string hw
  | .noItems hg =>
    rw [List.cons_append, List.append_assoc]
    exact ((hs.mark rfl rfl).gap hg).mark rfl rfl
  | .array hi =>
    simp only [tokens, List.cons_append, List.append_assoc]
    exact (hi.scanned (by rintro c ⟨⟩; decide) (hs.mark rfl rfl)).mark rfl rfl
  | .noMembers hg =>
    rw [List.cons_append, List.append_assoc]
    exact ((hs.mark rfl rfl).gap hg).mark rfl rfl
  | .object hm =>
    simp only [ofMembers, tokens, List.cons_append, List.append_assoc]
    exact (hm.scanned (by rintro c ⟨⟩; decide) (hs.mark rfl rfl)).mark rfl rfl

theorem ItemsSpelledBy.scanned {items : List Json} {t rest : Text} {ts : List JsonToken}
    (h : ItemsSpelledBy items t) (hr : Stops rest) (hs : Scanned rest ts) :
    Scanned (t ++ rest) (tokensOfItems items ++ ts) := by
  match h with
  | .last hb hj ha =>
    simp only [List.append_assoc]
    exact (hj.scanned (stops_gap ha hr) (hs.gap ha)).gap hb
  | .cons hb hj ha hi =>
    rw [tokensOfItems]
    · simp only [List.append_assoc, List.cons_append]
      have others : Scanned (',' :: _) (.comma :: _) := (hi.scanned hr hs).mark rfl rfl
      exact (hj.scanned (stops_gap ha (by rintro c ⟨⟩; decide)) (others.gap ha)).gap hb
    · exact hi.ne_nil

theorem MembersSpelledBy.scanned {members : List (Text × Json)} {t rest : Text} {ts : List JsonToken}
    (h : MembersSpelledBy members t) (hr : Stops rest) (hs : Scanned rest ts) :
    Scanned (t ++ rest) (tokensOfMembers (members.map fun (name, j) => (some name, j)) ++ ts) := by
  match h with
  | .last hb hn hm hv hj ha =>
    simp only [List.append_assoc, List.cons_append]
    have value := (hj.scanned (stops_gap ha hr) (hs.gap ha)).gap hv
    exact (((value.mark rfl rfl).gap hm).string hn).gap hb
  | .cons hb hn hm hv hj ha hi =>
    rw [List.map_cons, tokensOfMembers]
    · simp only [List.append_assoc, List.cons_append]
      have others : Scanned (',' :: _) (.comma :: _) := (hi.scanned hr hs).mark rfl rfl
      have value := (hj.scanned (stops_gap ha (by rintro c ⟨⟩; decide)) (others.gap ha)).gap hv
      exact (((value.mark rfl rfl).gap hm).string hn).gap hb
    · simpa using hi.ne_nil

end

/-- A text is read as the value that it spells. -/
theorem Spells.ofText? {t : Text} {j : Json} (h : Spells t j) : ofText? t = some j := by
  obtain ⟨before, value, after, hb, hj, ha, rfl⟩ := h
  have behind : Scanned after [] := by simpa using JsonToken.scanned_nil.gap ha
  have stops : Stops after := by simpa using stops_gap ha JsonNumber.stops_nil
  have scanned := (hj.scanned stops behind).gap hb
  rw [Json.ofText?, JsonToken.ofText?, scanned _ (Nat.le_refl _)]
  exact JsonReader.run_tokens j [] []

theorem SpelledBy.spells {j : Json} {t : Text} (h : j.SpelledBy t) : Spells t j :=
  ⟨[], t, [], JsonToken.isGap_nil, h, JsonToken.isGap_nil, (List.append_nil t).symm⟩

/-! ## Printing -/

theorem spelledBy_quoted (t : Text) : (ofText t).SpelledBy (ofText t).text := by
  have : (ofText t).text = '"' :: (t.flatMap Spelling.write ++ ['"']) := rfl
  rw [this]
  exact .string (Spelling.spelledBy_flatMap_write t)

theorem spelledBy_integer (n : Int32) : (ofInt32 n).SpelledBy (ofInt32 n).text :=
  .number (JsonNumber.spelledBy_ofInt n.toInt)

theorem spelledBy_bool (b : Bool) : (bool b).SpelledBy (bool b).text := by
  cases b
  · exact .false
  · exact .true

theorem itemsSpelledBy_text : ∀ {items : List Json}, items ≠ [] → (∀ j ∈ items, j.SpelledBy j.text) →
    ItemsSpelledBy items (textOfItems items)
  | [j], _, h => by
    have := ItemsSpelledBy.last JsonToken.isGap_nil (h j (List.mem_cons_self ..)) JsonToken.isGap_nil
    rwa [List.nil_append, List.append_nil] at this
  | j :: k :: rest, _, h => by
    obtain ⟨hj, others⟩ := List.forall_mem_cons.mp h
    have tail := itemsSpelledBy_text (List.cons_ne_nil k rest) others
    have := ItemsSpelledBy.cons JsonToken.isGap_nil hj JsonToken.isGap_nil tail
    simpa [textOfItems] using this

theorem stringText_append (name : Text) (t : Text) :
    stringText (some name) ++ t = '"' :: (name.flatMap Spelling.write ++ '"' :: t) := by
  have quoted : stringText (some name) = '"' :: (name.flatMap Spelling.write ++ ['"']) := rfl
  rw [quoted, List.cons_append, List.append_assoc, List.singleton_append]

theorem membersSpelledBy_text : ∀ {members : List (Text × Json)}, members ≠ [] →
    (∀ m ∈ members, m.2.SpelledBy m.2.text) →
    MembersSpelledBy members (textOfMembers (members.map fun (name, j) => (some name, j)))
  | [m], _, h => by
    have := MembersSpelledBy.last JsonToken.isGap_nil (Spelling.spelledBy_flatMap_write m.1)
      JsonToken.isGap_nil JsonToken.isGap_nil (h m (List.mem_cons_self ..)) JsonToken.isGap_nil
    rw [List.map_cons, List.map_nil, textOfMembers, List.append_assoc, stringText_append]
    simpa using this
  | m :: m' :: rest, _, h => by
    obtain ⟨hj, others⟩ := List.forall_mem_cons.mp h
    have tail := membersSpelledBy_text (List.cons_ne_nil m' rest) others
    have := MembersSpelledBy.cons JsonToken.isGap_nil (Spelling.spelledBy_flatMap_write m.1)
      JsonToken.isGap_nil JsonToken.isGap_nil hj JsonToken.isGap_nil tail
    rw [List.map_cons, textOfMembers]
    · simp only [List.append_assoc]
      rw [stringText_append]
      exact this
    · simp

theorem spelledBy_array {items : List Json} (h : ∀ j ∈ items, j.SpelledBy j.text) :
    (array items).SpelledBy (array items).text := by
  cases items with
  | nil => exact .noItems JsonToken.isGap_nil
  | cons j rest =>
    have := SpelledBy.array (itemsSpelledBy_text (List.cons_ne_nil j rest) h)
    simpa [text] using this

theorem spelledBy_ofMembers {members : List (Text × Json)} (h : ∀ m ∈ members, m.2.SpelledBy m.2.text) :
    (ofMembers members).SpelledBy (ofMembers members).text := by
  cases members with
  | nil => exact .noMembers JsonToken.isGap_nil
  | cons m rest =>
    have := SpelledBy.object (membersSpelledBy_text (List.cons_ne_nil m rest) h)
    rw [ofMembers, text, List.append_assoc]
    exact this

end Json

end LslScript
