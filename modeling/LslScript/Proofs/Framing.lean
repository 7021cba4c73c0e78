import LslScript.Proofs.Commands
import LslScript.Proofs.JsonTexts

/-!
# Framing of the output

A run is one of three: it is refused for its arguments, it succeeds or it fails. Each part of a failure is
printed on one line, whatever its texts are, and its message is read back from its line
(`Command.run_framing`).
-/

namespace LslScript

def Text.ConsistsOf (t : Text) (ls : List Text) : Prop := t = unlines ls ∧ lines t = ls

theorem Spelling.newline_not_mem_write (c : Char) : '\n' ∉ write c := by
  unfold write
  -- the characters with a short escape come first
  iterate 7
    split
    · decide
  split
  · have digits : ∀ k < 16, '\n' ≠ Nat.digitChar k := by decide
    have high := digits (c.toNat / 16) (by omega)
    have low := digits (c.toNat % 16) (by omega)
    simp [high, low]
  · simp_all [eq_comm]

theorem Spelling.newline_not_mem_quoted (t : Text) : '\n' ∉ quoted t := by
  have inner : '\n' ∉ t.flatMap write := by
    intro hn
    obtain ⟨c, -, hc⟩ := List.mem_flatMap.mp hn
    exact newline_not_mem_write c hc
  simp [quoted, inner]

theorem Json.ofText?_quoted (t : Text) : Json.ofText? (Spelling.quoted t) = some (.string (some t)) :=
  (spelledBy_quoted t).spells.ofText?

namespace Command
variable {fs : FileSystem} {args : List Text} {c : Command} {recipe code printed : Text} {failure : Failure}

/-! ## What is printed -/

def messageLine (message : Text) : Text := "ERROR_MSG_JSON:" ++ Spelling.quoted message

def reportLines (code : Text) (messages : List Text) : List Text :=
  "RESULT:ERROR".toList :: ("ERROR_CODE:" ++ code) :: messages.map messageLine

theorem newline_not_mem_messageLine (message : Text) : '\n' ∉ messageLine message := by
  unfold messageLine
  rw [List.mem_append, not_or]
  exact ⟨by decide, Spelling.newline_not_mem_quoted message⟩

theorem newline_not_mem_reportLines (hc : '\n' ∉ code) (messages : List Text) :
    ∀ l ∈ reportLines code messages, '\n' ∉ l := by
  unfold reportLines
  rw [List.forall_mem_cons, List.forall_mem_cons, List.forall_mem_map, List.mem_append, not_or]
  exact ⟨by decide, ⟨by decide, hc⟩, fun message _ => newline_not_mem_messageLine message⟩

theorem success_not_mem_reportLines (code : Text) (messages : List Text) :
    "RESULT:OK".toList ∉ reportLines code messages := by
  unfold reportLines
  rw [List.mem_cons, List.mem_cons, List.mem_map]
  rintro (h | h | ⟨message, -, h⟩)
  · exact absurd h (by decide)
  · exact absurd (List.cons.inj h).1 (by decide)
  · exact absurd (List.cons.inj h).1 (by decide)

theorem unlines_reportLines (code : Text) (messages : List Text) : Text.unlines (reportLines code messages) =
    "RESULT:ERROR\nERROR_CODE:".toList ++ code ++ "\n".toList ++ Text.unlines (messages.map messageLine) := rfl

theorem failureReport_eq (failure : Failure) :
    failureReport failure = Text.unlines (reportLines failure.code failure.message?.toList) := by
  have line (l : Text) : l ++ "\n".toList = Text.unlines [l] := by simp
  refine Eq.trans ?_ (unlines_reportLines failure.code failure.message?.toList).symm
  unfold failureReport
  cases failure.message? with
  | none => rfl
  | some message => exact congrArg _ (line (messageLine message))

theorem consistsOf_reportLines (hc : '\n' ∉ code) (messages : List Text) :
    (Text.unlines (reportLines code messages)).ConsistsOf (reportLines code messages) :=
  ⟨rfl, Text.lines_unlines (newline_not_mem_reportLines hc messages) (List.cons_ne_nil _ _)⟩

/-- What is printed of a failure has no line of success, and would have none with any message behind it. It is
three lines with the message on the last, unless it is about a text that is no recipe. -/
structure ReportedBy (failure : Failure) (stdout : Text) : Prop where
  no_success : "RESULT:OK".toList ∉ Text.lines stdout
  no_success_message : ∀ message, "RESULT:OK".toList ∉ Text.lines (stdout ++ (messageLine message ++ "\n"))
  three_lines : failure.code ≠ "API_RECIPE_PARSE".toList → ∃ message json,
    failure.message? = some message ∧ Json.ofText? json = some (.string (some message)) ∧
      stdout.ConsistsOf
        ["RESULT:ERROR".toList, "ERROR_CODE:".toList ++ failure.code, "ERROR_MSG_JSON:".toList ++ json]

theorem exists_message_of_code (h : failure.code ≠ "API_RECIPE_PARSE".toList) :
    ∃ message, failure.message? = some message := by
  cases failure with
  | recipe path => exact absurd rfl h
  | read path error => cases error <;> exact ⟨_, rfl⟩
  | _ => exact ⟨_, rfl⟩

theorem reportedBy_failureReport (failure : Failure) : ReportedBy failure (failureReport failure) := by
  have newline := failure.newline_not_mem_code
  rw [failureReport_eq]
  refine ⟨?_, fun message => ?_, fun code => ?_⟩
  · rw [(consistsOf_reportLines newline _).2]
    exact success_not_mem_reportLines _ _
  · have more : Text.unlines (reportLines failure.code failure.message?.toList) ++
          (messageLine message ++ "\n".toList) =
        Text.unlines (reportLines failure.code (failure.message?.toList ++ [message])) := by
      simp [reportLines]
    rw [more, (consistsOf_reportLines newline _).2]
    exact success_not_mem_reportLines _ _
  · obtain ⟨message, hm⟩ := exists_message_of_code code
    rw [hm]
    exact ⟨message, Spelling.quoted message, rfl, Json.ofText?_quoted message,
      consistsOf_reportLines newline [message]⟩

theorem success_prefix_runBuild {out : Option Text} {keep : Bool}
    (h : (runBuild fs recipe out keep).result = .ok printed) : "RESULT:OK\n".toList <+: printed := by
  cases hs : scriptOf fs recipe with
  | error failure =>
    rw [(runBuild_of_error hs).1] at h
    cases h
  | ok script =>
    cases out with
    | none =>
      rw [(runBuild_print hs).1] at h
      cases h
      exact List.prefix_append ..
    | some path =>
      rw [(runBuild_write path keep hs).1] at h
      cases hp : (fs.persist path script).2 with
      | error failure =>
        rw [hp] at h
        cases h
      | ok done =>
        rw [hp] at h
        cases h
        exact List.prefix_append ..

theorem success_prefix_report (outDir : Text) (stems : List Text) :
    "RESULT:OK\n".toList <+: report outDir stems := by
  unfold report
  simp only [List.append_assoc]
  exact List.prefix_append ..

/-! ## Runs -/

inductive Framing
  | refused | succeeded | failed

namespace Framing

def exit : Framing → Nat
  | refused => 2
  | succeeded => 0
  | failed => 1

theorem exit_inj {f g : Framing} (h : f.exit = g.exit) : f = g := by
  cases f <;> cases g <;> first | rfl | cases h

def Holds (fs : FileSystem) (args : List Text) (f : Framing) : Prop :=
  (run fs args).exit = f.exit ∧
    match f with
    | refused => (run fs args).stdout = []
    | succeeded => args.head? = some "build".toList ∨ args.head? = some "batch".toList →
        "RESULT:OK\n".toList <+: (run fs args).stdout
    | failed => ∃ c failure, ofArguments? args = some c ∧ (c.perform fs).result = .error failure ∧
        ReportedBy failure (run fs args).stdout

theorem holds_refused (ha : ofArguments? args = none) : refused.Holds fs args := by
  unfold Holds run
  rw [ha]
  exact ⟨rfl, rfl⟩

theorem holds_succeeded (ha : ofArguments? args = some c) (hr : (c.perform fs).result = .ok printed) :
    succeeded.Holds fs args := by
  obtain ⟨exit, stdout, -⟩ := run_of_ok ha hr
  refine ⟨exit, fun named => ?_⟩
  rw [stdout]
  rw [head?_of_ofArguments? ha] at named
  cases c with
  | build recipe out keep => exact success_prefix_runBuild hr
  | batch recipesDir outDir =>
    obtain ⟨recipes, -, -, rfl⟩ := runBatch_ok hr
    exact success_prefix_report ..
  | events json =>
    have other : ¬ (some "events".toList = some "build".toList ∨ some "events".toList = some "batch".toList) := by
      decide
    exact absurd named other

theorem holds_failed (ha : ofArguments? args = some c) (hr : (c.perform fs).result = .error failure) :
    failed.Holds fs args := by
  obtain ⟨exit, stdout, -⟩ := run_of_error ha hr
  refine ⟨exit, c, failure, ha, hr, ?_⟩
  rw [stdout]
  exact reportedBy_failureReport failure

end Framing

/-- Every run is framed in one way. -/
theorem run_framing (fs : FileSystem) (args : List Text) : ∃! f : Framing, f.Holds fs args := by
  have framed : ∃ f : Framing, f.Holds fs args := by
    cases ha : ofArguments? args with
    | none => exact ⟨_, Framing.holds_refused ha⟩
    | some c =>
      cases hr : (c.perform fs).result with
      | ok printed => exact ⟨_, Framing.holds_succeeded ha hr⟩
      | error failure => exact ⟨_, Framing.holds_failed ha hr⟩
  obtain ⟨f, hf⟩ := framed
  exact ⟨f, hf, fun g hg => Framing.exit_inj (hg.1.symm.trans hf.1)⟩

example : (run ⟨[], []⟩ ["build", "--recipe=a\nRESULT:OK\n\""]).stdout =
    Text.unlines ["RESULT:ERROR", "ERROR_CODE:API_READ_FILE",
      "ERROR_MSG_JSON:\"Failed to read file a\\nRESULT:OK\\n\\\": No such file or directory (os error 2)\""] := by
  decide +kernel

end Command

end LslScript
