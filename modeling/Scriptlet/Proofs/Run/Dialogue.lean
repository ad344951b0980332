/-
# A dialogue runs its lines on one machine

A dialogue without options does nothing to the lines of a text but run them, one
after another, each on the machine that the one before it has left, be it that
this one failed or not (`executeLines`).  What it shows is a prompt before the
output of each line, and a report of every failure.

That the prompts are written to the sink of that machine makes no difference,
since a run does not look at what has been printed (`appends_execute`).

If the lines are programs by themselves, the text is their programs one below
the other.  Running it runs the lines, but for the line numbers, which nothing
printed depends on.  So if the text runs to its end, so does every line, and the
same is printed.
-/
import Scriptlet.Proofs.Run.Appends
import Scriptlet.Proofs.Run.Joined
import Scriptlet.Proofs.Run.Truncated
import Scriptlet.Proofs.Text.Lines

namespace Scriptlet

namespace CommandLine

/-! ## Lines run one after another -/

/-- What a line has printed, and what stopped it, if anything did. -/
structure Answer where
  printed : ByteArray
  stop : Option (Stop Failure)

namespace Answer

/-- The line came to an end, though it may have failed. -/
def ended (answer : Answer) : Bool := answer.stop != some .outOfFuel

def failure? (answer : Answer) : Option Failure :=
  match answer.stop with
  | some (.failed failure) => some failure
  | _ => none

/-- How a line that failed is reported. -/
def report? (answer : Answer) : Option String := answer.failure?.map report

end Answer

/-- What has been printed on the way from one machine to another. -/
def printedSince (m m' : Machine) : ByteArray :=
  m'.sink.written.extract m.sink.written.size m'.sink.written.size

/-- Runs a line.  The machine that it leaves is there also if it failed. -/
def executeLine (fuel : Nat) (line : String) (m : Machine) : Answer × Machine :=
  match execute fuel line m with
  | .ok _ m' => (⟨printedSince m m', none⟩, m')
  | .error stop m' => (⟨printedSince m m', some stop⟩, m')

/-- Runs lines one after another, each on the machine that the one before it has
left, as long as they come to an end. -/
def executeLines (fuel : Nat) : List String → Machine → List Answer
  | [], _ => []
  | line :: rest, m =>
    let step := executeLine fuel line m
    step.1 :: if step.1.ended then executeLines fuel rest step.2 else []

/-- Bytes one behind the other. -/
def joinBytes : List ByteArray → ByteArray
  | [] => .empty
  | bytes :: rest => bytes ++ joinBytes rest

/-- What a dialogue shows behind its greeting: a prompt and then what a line
prints, for each line, and a prompt for the next one if it is waited for. -/
def shown (answers : List Answer) : ByteArray :=
  joinBytes (answers.map fun answer => Dialogue.sign.toUTF8 ++ answer.printed) ++
    if answers.all (·.ended) then Dialogue.sign.toUTF8 else .empty

/-! ## One line -/

theorem runSource_plain (fuel : Nat) (source : String) :
    runSource fuel ⟨false, false⟩ source = execute fuel source := by
  unfold runSource execute Program.ofSource
  cases Token.scan source with
  | error errors => rfl
  | ok tokens =>
    dsimp only
    cases Program.parse tokens <;> rfl

variable {fuel : Nat} {line : String} {m m' : Machine}

theorem room_execute (fuel : Nat) (line : String) (unlimited : m.sink.room = none) :
    (executeLine fuel line m).2.sink.room = none := by
  unfold executeLine
  cases read : Program.ofSource line with
  | error failure =>
    have rejected : execute fuel line m = .error (.failed failure) m := by
      unfold execute
      rw [read]
      rfl
    rw [rejected]
    exact unlimited
  | ok program =>
    have sink := (truncated_interpretAll (some maxFrames) fuel program m unlimited).sink
    have room := congrArg Sink.room sink
    rw [Told.interpretAll_run] at room
    unfold Run.after at room
    rw [execute_of_ofSource read, Session.ofRun]
    generalize interpretAll (some maxFrames) fuel program m = result at room
    rcases result with ⟨_, _⟩ | ⟨_ | _, _⟩ <;> exact room

/-- Whatever has been printed before, a line does the same, and what it prints
comes behind. -/
theorem execute_withWritten (fuel : Nat) (line : String) (m : Machine) (before : ByteArray) :
    execute fuel line (m.withWritten before) =
      resultWritten (before ++ (executeLine fuel line m).1.printed) (execute fuel line m) := by
  obtain ⟨bytes, appends⟩ := appends_execute fuel line m
  have here := appends m.sink.written
  rw [Machine.withWritten_written] at here
  have since : ∀ m' : Machine, m' = m'.withWritten (m.sink.written ++ bytes) →
      printedSince m m' = bytes := by
    intro m' same
    have written : m'.sink.written = m.sink.written ++ bytes := by
      rw [same]
      rfl
    rw [printedSince, written]
    exact ByteArray.extract_append_eq_right rfl ByteArray.size_append
  have printed : (executeLine fuel line m).1.printed = bytes := by
    unfold executeLine
    cases ran : execute fuel line m with
    | ok _ m' =>
      rw [ran] at here
      injection here with _ same
      exact since m' same
    | error stop m' =>
      rw [ran] at here
      injection here with _ same
      exact since m' same
  rw [printed]
  exact appends before

theorem written_executeLine (fuel : Nat) (line : String) (m : Machine) :
    (executeLine fuel line m).2.sink.written =
      m.sink.written ++ (executeLine fuel line m).1.printed := by
  have runs := execute_withWritten fuel line m m.sink.written
  rw [Machine.withWritten_written] at runs
  generalize printed : (executeLine fuel line m).1.printed = bytes at runs
  unfold executeLine
  cases ran : execute fuel line m with
  | ok _ m' =>
    rw [ran] at runs
    injection runs with _ same
    exact congrArg (·.sink.written) same
  | error stop m' =>
    rw [ran] at runs
    injection runs with _ same
    exact congrArg (·.sink.written) same

/-! ## The dialogue -/

/-- A dialogue waits for a line, having shown some bytes and some reports, and its
machine is the one that the lines before have left. -/
def waiting (shown : ByteArray) (stderr : String) (m : Machine) : Dialogue :=
  ⟨m.withWritten shown, stderr, .waiting⟩

theorem say_withWritten (unlimited : m.sink.room = none) (text : String) (shown : ByteArray)
    (stderr : String) (status : Dialogue.Status) :
    Dialogue.say text ⟨m.withWritten shown, stderr, status⟩ =
      ⟨m.withWritten (shown ++ text.toUTF8), stderr, status⟩ := by
  obtain ⟨scopes, functions, depth, ⟨written, room⟩, clock⟩ := m
  cases unlimited
  rfl

theorem start_eq (clock : Clock) : Dialogue.start clock =
    waiting (Dialogue.greeting.toUTF8 ++ Dialogue.sign.toUTF8) "" (.initial clock) := by
  have greeting : Dialogue.say Dialogue.greeting ⟨.initial clock, "", .waiting⟩ =
      ⟨(Machine.initial clock).withWritten Dialogue.greeting.toUTF8, "", .waiting⟩ := by
    have said :=
      say_withWritten (m := .initial clock) rfl Dialogue.greeting .empty "" .waiting
    rw [ByteArray.empty_append] at said
    exact said
  rw [Dialogue.start, greeting]
  exact say_withWritten rfl Dialogue.sign _ "" .waiting

theorem answer_of_ended (unlimited : m.sink.room = none) (shown : ByteArray) (stderr : String)
    (ended : (executeLine fuel line m).1.ended) :
    Dialogue.answer fuel ⟨false, false⟩ (waiting shown stderr m) (.ok line) =
      waiting (shown ++ (executeLine fuel line m).1.printed ++ Dialogue.sign.toUTF8)
        (stderr ++ ((executeLine fuel line m).1.report?).getD "") (executeLine fuel line m).2 := by
  have room := room_execute fuel line unlimited
  have runs := execute_withWritten fuel line m shown
  unfold waiting Dialogue.answer
  dsimp only
  rw [runSource_plain, runs]
  generalize printed : (executeLine fuel line m).1.printed = bytes
  unfold executeLine at ended room ⊢
  cases ran : execute fuel line m with
  | ok _ m' =>
    rw [ran] at room
    have text : stderr ++ "" = stderr := String.append_empty
    dsimp only [resultWritten, Answer.report?, Answer.failure?, Option.map_none, Option.getD_none]
    rw [say_withWritten room, text]
  | error stop m' =>
    rw [ran] at room ended
    cases stop with
    | failed failure => exact say_withWritten room Dialogue.sign _ _ _
    | outOfFuel => cases ended

theorem answer_of_not_ended (shown : ByteArray) (stderr : String)
    (endless : (executeLine fuel line m).1.ended = false) :
    Dialogue.answer fuel ⟨false, false⟩ (waiting shown stderr m) (.ok line) =
      ⟨(executeLine fuel line m).2.withWritten (shown ++ (executeLine fuel line m).1.printed),
        stderr, .outOfFuel⟩ := by
  have runs := execute_withWritten fuel line m shown
  unfold waiting Dialogue.answer
  dsimp only
  rw [runSource_plain, runs]
  generalize printed : (executeLine fuel line m).1.printed = bytes
  unfold executeLine at endless ⊢
  cases ran : execute fuel line m with
  | ok _ m' =>
    rw [ran] at endless
    cases endless
  | error stop m' =>
    rw [ran] at endless
    cases stop with
    | failed failure => cases endless
    | outOfFuel => rfl

theorem foldl_outOfFuel (m : Machine) (stderr : String) (lines : List (Except String String)) :
    lines.foldl (Dialogue.answer fuel ⟨false, false⟩) ⟨m, stderr, .outOfFuel⟩ =
      ⟨m, stderr, .outOfFuel⟩ := by
  induction lines with
  | nil => rfl
  | cons line rest ih => exact ih

/-- The reports of the lines that failed. -/
def reports (answers : List Answer) : String := String.join (answers.filterMap (·.report?))

theorem reports_cons (answer : Answer) (rest : List Answer) :
    reports (answer :: rest) = answer.report?.getD "" ++ reports rest := by
  unfold reports
  cases h : answer.report? with
  | none =>
    rw [List.filterMap_cons_none h]
    exact String.empty_append.symm
  | some text =>
    rw [List.filterMap_cons_some h, String.join_cons]
    rfl

theorem close_waiting (fuel : Nat) (lines : List String) : ∀ {m : Machine},
    m.sink.room = none → ∀ (before : ByteArray) (stderr : String),
      ((lines.map .ok).foldl (Dialogue.answer fuel ⟨false, false⟩)
        (waiting (before ++ Dialogue.sign.toUTF8) stderr m)).close =
      ⟨if (executeLines fuel lines m).all (·.ended) then some .success else none,
        before ++ shown (executeLines fuel lines m),
        stderr ++ reports (executeLines fuel lines m)⟩ := by
  induction lines with
  | nil =>
    intro m _ before stderr
    have bytes : shown [] = Dialogue.sign.toUTF8 := ByteArray.empty_append
    have text : stderr ++ reports [] = stderr := String.append_empty
    rw [executeLines, bytes, text]
    rfl
  | cons line rest ih =>
    intro m unlimited before stderr
    rw [List.map_cons, List.foldl_cons, executeLines]
    cases ended : (executeLine fuel line m).1.ended with
    | true =>
      rw [answer_of_ended unlimited _ _ ended, if_pos rfl, ih (room_execute fuel line unlimited),
        List.all_cons, ended, Bool.true_and, reports_cons, String.append_assoc]
      have bytes : ∀ answers, shown ((executeLine fuel line m).1 :: answers) =
          Dialogue.sign.toUTF8 ++ (executeLine fuel line m).1.printed ++ shown answers := by
        intro answers
        unfold shown
        rw [List.map_cons, joinBytes, List.all_cons, ended, Bool.true_and, ByteArray.append_assoc]
      rw [bytes, ByteArray.append_assoc, ByteArray.append_assoc, ByteArray.append_assoc]
    | false =>
      have unreported : (executeLine fuel line m).1.report? = none := by
        have stop : (executeLine fuel line m).1.stop = some .outOfFuel := by
          simpa [Answer.ended] using ended
        rw [Answer.report?, Answer.failure?, stop]
        rfl
      have bytes : shown [(executeLine fuel line m).1] =
          Dialogue.sign.toUTF8 ++ (executeLine fuel line m).1.printed := by
        unfold shown
        rw [List.all_cons, ended]
        exact ByteArray.append_empty.trans ByteArray.append_empty
      have text : reports [(executeLine fuel line m).1] = "" := by
        rw [reports_cons, unreported]
        rfl
      rw [answer_of_not_ended _ _ ended, foldl_outOfFuel, if_neg Bool.false_ne_true, bytes, text,
        List.all_cons, ended, Bool.false_and, if_neg Bool.false_ne_true, ByteArray.append_assoc,
        String.append_empty]
      rfl

theorem converse_plain (clock : Clock) (fuel : Nat) (text : String) :
    converse clock fuel ⟨false, false⟩ (inputLines text.toUTF8) =
      ⟨if (executeLines fuel (textLines text) (.initial clock)).all (·.ended) then some .success
        else none,
        Dialogue.greeting.toUTF8 ++ shown (executeLines fuel (textLines text) (.initial clock)),
        reports (executeLines fuel (textLines text) (.initial clock))⟩ := by
  rw [converse, inputLines_toUTF8, start_eq, close_waiting fuel (textLines text) rfl,
    String.empty_append]

/-! ## A script read line by line -/

/-- Programs in lines are a program, one below the other. -/
theorem ofSource_of_newline {front : String} {program : Program}
    (h : Program.ofSource (front ++ "\n") = .ok program) :
    Program.ofSource front = .ok program := by
  obtain ⟨tokens, scans, spells⟩ := Program.ofSource_iff.1 h
  obtain ⟨tokens', scans', read⟩ := Token.scan_of_newline scans
  refine Program.ofSource_iff.2 ⟨tokens', scans', ?_⟩
  unfold Grammar.Spells at spells ⊢
  rwa [read]

theorem ofSource_line {line below : String} {program program' : Program}
    (ends : ∃ front, line = front ++ "\n") (h : Program.ofSource line = .ok program)
    (h' : Program.ofSource below = .ok program') :
    ∃ k, Program.ofSource (line ++ below) = .ok (program ++ program'.relined (· + k)) := by
  obtain ⟨front, rfl⟩ := ends
  exact ⟨_, Program.ofSource_joined (ofSource_of_newline h) h'⟩

theorem ofSource_join {lines : List String}
    (each : ∀ line ∈ lines, ∃ program, Program.ofSource line = .ok program)
    (ends : ∀ line ∈ lines.dropLast, ∃ front, line = front ++ "\n") :
    ∃ program, Program.ofSource (String.join lines) = .ok program := by
  induction lines with
  | nil => exact ⟨[], rfl⟩
  | cons line rest ih =>
    obtain ⟨⟨program, here⟩, later⟩ := List.forall_mem_cons.1 each
    cases rest with
    | nil =>
      rw [String.join_cons, String.join_nil, String.append_empty]
      exact ⟨program, here⟩
    | cons next rest =>
      obtain ⟨ends', endsLater⟩ := List.forall_mem_cons.1 ends
      obtain ⟨program', below⟩ := ih later endsLater
      obtain ⟨k, joined⟩ := ofSource_line ends' here below
      rw [String.join_cons]
      exact ⟨_, joined⟩

/-- A program that runs to its end does so on other lines as well, and prints the
same. -/
theorem run_of_relined {program : Program} {k : Nat}
    (runs : Session.ofRun (interpretAll (some maxFrames) fuel (program.relined (· + k))) m =
      .ok () m') :
    ∃ m₂, Session.ofRun (interpretAll (some maxFrames) fuel program) m = .ok () m₂ ∧
      m₂.sink = m'.sink := by
  have still : (fun line => line + 0) = id := rfl
  have unmoved := unmarked 0 fuel program m
  rw [← unmarked k] at runs
  rw [still, Program.relined_id] at unmoved
  rw [← unmoved]
  generalize Session.ofRun (interpretAll (some maxFrames) fuel (program.relined Mark.below))
    (m.relined Mark.other) = marked at runs
  cases marked with
  | ok _ marked =>
    injection runs with _ same
    exact ⟨_, rfl, by rw [← same]; rfl⟩
  | error stop marked => cases runs

/-- A text that runs to its end is run to its end line by line, if the lines are
programs, and prints the same. -/
theorem lines_of_script {lines : List String}
    (each : ∀ line ∈ lines, ∃ program, Program.ofSource line = .ok program)
    (ends : ∀ line ∈ lines.dropLast, ∃ front, line = front ++ "\n") : ∀ {m m' : Machine},
      m.sink.room = none → execute fuel (String.join lines) m = .ok () m' →
        (executeLines fuel lines m).map (·.stop) = lines.map (fun _ => none) ∧
          m'.sink.written =
            m.sink.written ++ joinBytes ((executeLines fuel lines m).map (·.printed)) := by
  induction lines with
  | nil =>
    intro m m' _ runs
    have same : m = m' := by
      injection runs
    rw [← same]
    exact ⟨rfl, ByteArray.append_empty.symm⟩
  | cons line rest ih =>
    obtain ⟨⟨program, here⟩, later⟩ := List.forall_mem_cons.1 each
    intro m m' unlimited runs
    -- what the line does by itself, and what is left to do then
    have split : ∃ m₁ m₂, execute fuel line m = .ok () m₁ ∧
        execute fuel (String.join rest) m₁ = .ok () m₂ ∧ m₂.sink = m'.sink := by
      cases rest with
      | nil =>
        rw [String.join_cons, String.join_nil, String.append_empty] at runs
        exact ⟨m', m', runs, rfl, rfl⟩
      | cons next rest =>
        obtain ⟨ends', endsLater⟩ := List.forall_mem_cons.1 ends
        obtain ⟨program', below⟩ := ofSource_join later endsLater
        obtain ⟨k, joined⟩ := ofSource_line ends' here below
        rw [String.join_cons, execute_of_ofSource joined, interpretAll_append,
          Session.ofRun_bind, ← execute_of_ofSource here] at runs
        obtain ⟨_, m₁, ran, onward⟩ := ok_of_bind runs
        obtain ⟨m₂, alone, sink⟩ := run_of_relined onward
        exact ⟨m₁, m₂, ran, (congrFun (execute_of_ofSource below fuel) m₁).trans alone, sink⟩
    obtain ⟨m₁, m₂, ran, onward, sink⟩ := split
    have step : executeLine fuel line m = (⟨printedSince m m₁, none⟩, m₁) := by
      rw [executeLine, ran]
    have written : m₁.sink.written = m.sink.written ++ printedSince m m₁ := by
      have line_written := written_executeLine fuel line m
      rwa [step] at line_written
    have room : m₁.sink.room = none := by
      have line_room := room_execute fuel line unlimited
      rwa [step] at line_room
    have endsLater : ∀ line ∈ rest.dropLast, ∃ front, line = front ++ "\n" := by
      cases rest with
      | nil => exact fun _ none => nomatch none
      | cons next rest => exact (List.forall_mem_cons.1 ends).2
    obtain ⟨stops, bytes⟩ := ih later endsLater room onward
    have answers : executeLines fuel (line :: rest) m =
        ⟨printedSince m m₁, none⟩ :: executeLines fuel rest m₁ := by
      rw [executeLines, step]
      rfl
    rw [answers, List.map_cons, List.map_cons, List.map_cons, joinBytes]
    refine ⟨congrArg _ stops, ?_⟩
    rw [← sink, bytes, written, ByteArray.append_assoc]

/-! ## A script and a dialogue -/

theorem length_executeLines {lines : List String} : ∀ {m : Machine},
    (executeLines fuel lines m).all (·.ended) →
      (executeLines fuel lines m).length = lines.length := by
  induction lines with
  | nil => exact fun _ => rfl
  | cons line rest ih =>
    intro m all
    rw [executeLines] at all ⊢
    obtain ⟨here, later⟩ := Bool.and_eq_true_iff.1 all
    rw [if_pos here] at later ⊢
    rw [List.length_cons, List.length_cons, ih later]

theorem decode_toUTF8 (text : String) : decode text.toUTF8 = .ok text := by
  unfold decode String.fromUTF8?
  have valid : text.toUTF8.IsValidUTF8 := text.isValidUTF8
  rw [dif_pos valid]
  rfl

/-- A script that succeeds has run to its end and shows what it has printed. -/
theorem execute_of_runScript {clock : Clock} {source path : String}
    (succeeds : (runScript clock fuel ⟨false, false⟩ path (.ok source)).exit = some .success) :
    ∃ m, execute fuel source (.initial clock) = .ok () m ∧
      (runScript clock fuel ⟨false, false⟩ path (.ok source)).stdout = m.sink.written := by
  unfold runScript at succeeds ⊢
  dsimp only at succeeds ⊢
  rw [runSource_plain] at succeeds ⊢
  cases ran : execute fuel source (.initial clock) with
  | ok _ m => exact ⟨m, rfl, rfl⟩
  | error stop m =>
    rw [ran] at succeeds
    cases stop with
    | failed failure => cases failure <;> cases succeeds
    | outOfFuel => cases succeeds

theorem all_ended {answers : List Answer} (h : ∀ answer ∈ answers, answer.stop = none) :
    answers.all (·.ended) = true := by
  rw [List.all_eq_true]
  intro answer member
  rw [Answer.ended, h answer member]
  rfl

theorem no_reports {answers : List Answer} (h : ∀ answer ∈ answers, answer.stop = none) :
    reports answers = "" := by
  have none : answers.filterMap (·.report?) = [] := by
    rw [List.filterMap_eq_nil_iff]
    intro answer member
    rw [Answer.report?, Answer.failure?, h answer member]
    rfl
  rw [reports, none, String.join_nil]

/-- For every text a dialogue without options executes the lines of the text one
after another on one machine: it shows the greeting, a prompt and its output for
each line, and a last prompt, and reports each failure.  All lines are answered
if all come to an end, and the dialogue succeeds then.

If the lines are programs by themselves and the text succeeds as a script, the
dialogue has nothing to report, and what is printed between the prompts is what
the script prints, if the clock shows both the same. -/
theorem dialogue_executes (clock : Clock) (fuel : Nat) (text : String) :
    let lines := textLines text
    let answers := executeLines fuel lines (.initial clock)
    let dialogue := converse clock fuel ⟨false, false⟩ (inputLines text.toUTF8)
    dialogue = ⟨if answers.all (·.ended) then some .success else none,
        Dialogue.greeting.toUTF8 ++ shown answers, reports answers⟩ ∧
      (answers.all (·.ended) → answers.length = lines.length) ∧
      ∀ path, (∀ line ∈ lines, ∃ program, Program.ofSource line = .ok program) →
        let script := runScript clock fuel ⟨false, false⟩ path (decode text.toUTF8)
        script.exit = some .success →
          dialogue.exit = some .success ∧ dialogue.stderr = "" ∧
            joinBytes (answers.map (·.printed)) = script.stdout := by
  intro lines answers dialogue
  have told : dialogue = ⟨if answers.all (·.ended) then some .success else none,
      Dialogue.greeting.toUTF8 ++ shown answers, reports answers⟩ := converse_plain clock fuel text
  refine ⟨told, length_executeLines, ?_⟩
  intro path each script succeeds
  have file : script = runScript clock fuel ⟨false, false⟩ path (.ok text) := by
    show runScript _ _ _ _ (decode text.toUTF8) = _
    rw [decode_toUTF8]
  rw [file] at succeeds ⊢
  obtain ⟨m, runs, stdout⟩ := execute_of_runScript succeeds
  rw [← join_textLines text] at runs
  obtain ⟨stops, bytes⟩ := lines_of_script each (textLines_ends text) rfl runs
  have none : ∀ answer ∈ answers, answer.stop = none := by
    intro answer member
    have listed : answer.stop ∈ answers.map (·.stop) := List.mem_map_of_mem member
    rw [stops] at listed
    obtain ⟨_, -, same⟩ := List.mem_map.1 listed
    exact same.symm
  rw [told, stdout, bytes, all_ended none, no_reports none]
  exact ⟨rfl, rfl, ByteArray.empty_append.symm⟩

/-- Three lines, the last of them without a newline: a function made by the first
is called in the others, and looks at a clock that shows `0` and then `1`. -/
theorem dialogue_executes_calls :
    let text := "fun f(x) \x7b print clock(); return x; \x7d\nprint f(\"a\");\nprint f(\"b\");"
    let script := runScript id 12 ⟨false, false⟩ "calls" (decode text.toUTF8)
    let dialogue := converse id 12 ⟨false, false⟩ (inputLines text.toUTF8)
    (∀ line ∈ textLines text, ∃ program, Program.ofSource line = .ok program) ∧
      script.exit = some .success ∧ dialogue.exit = some .success ∧ dialogue.stderr = "" ∧
        joinBytes ((executeLines 12 (textLines text) (.initial id)).map (·.printed)) =
          script.stdout ∧
        script.stdout = "0\na\n1\nb\n".toUTF8 := by
  intro text script dialogue
  have programs : ∀ line ∈ textLines text, (Program.ofSource line).toOption.isSome := by
    decide +kernel
  have each : ∀ line ∈ textLines text, ∃ program, Program.ofSource line = .ok program :=
    fun line member => ⟨_, Seam.ofSource_programOf (programs line member)⟩
  have succeeds : script.exit = some .success := by decide +kernel
  have printed : script.stdout = "0\na\n1\nb\n".toUTF8 := by decide +kernel
  obtain ⟨-, -, agrees⟩ := dialogue_executes id 12 text
  obtain ⟨exit, stderr, stdout⟩ := agrees "calls" each succeeds
  exact ⟨each, succeeds, exit, stderr, stdout, printed⟩

end CommandLine

end Scriptlet
