/-
# A sink that fails only cuts output off

A run whose sink has room for a number of bytes does what the run with an
unlimited sink does, up to the first print whose line does not fit any more.
There the run stops, whatever calls and loops are around it, and nothing else is
written on the way out.  `Run.Truncated` says this of a run that tells
of itself, and so of the lines that it prints, and is a property that evaluation
keeps.

It carries along what an unlimited run writes, which is what it tells, and
that the run leaves the number of active calls as it was: the rest of a run has
room for what the first part left over, and is cut off with as many calls active
as there were at its start.
-/
import Scriptlet.Eval.Fuel
import Scriptlet.Proofs.Run.Reachable
import Scriptlet.Proofs.Run.Compositional

namespace Scriptlet

/-! ## Output in a trace -/

/-- The bytes that the event writes. -/
def Event.bytes (e : Event) : ByteArray :=
  match e.act with
  | .prints _ text => (text ++ "\n").toUTF8
  | _ => .empty

theorem Event.prints_of_bytes {e : Event} (h : 0 < e.bytes.size) :
    ∃ scope text, e.act = .prints scope text ∧ e.bytes = (text ++ "\n").toUTF8 := by
  obtain ⟨act, active, m⟩ := e
  cases act with
  | prints scope text => exact ⟨scope, text, rfl, rfl⟩
  | _ => cases h

theorem Event.bytes_deeper (e : Event) : e.deeper.bytes = e.bytes := rfl

/-- All that the events write. -/
def printed : List Event → ByteArray
  | [] => .empty
  | e :: events => e.bytes ++ printed events

/-- The first event that writes more than there is room left for. -/
def overrun? (room : Nat) : List Event → Option Event
  | [] => none
  | e :: events =>
    if e.bytes.size ≤ room then overrun? (room - e.bytes.size) events else some e

section

variable {room : Nat}

theorem printed_append (events rest : List Event) :
    printed (events ++ rest) = printed events ++ printed rest := by
  induction events with
  | nil => exact ByteArray.empty_append.symm
  | cons e events ih => rw [List.cons_append, printed, printed, ih, ByteArray.append_assoc]

theorem printed_deeper (events : List Event) :
    printed (events.map Event.deeper) = printed events := by
  induction events with
  | nil => rfl
  | cons e events ih => rw [List.map_cons, printed, printed, ih, Event.bytes_deeper]

theorem overrun?_append (events rest : List Event) :
    overrun? room (events ++ rest) =
      (overrun? room events).or (overrun? (room - (printed events).size) rest) := by
  induction events generalizing room with
  | nil => rfl
  | cons e events ih =>
    rw [List.cons_append, overrun?, overrun?, printed]
    split
    · rw [ih, ByteArray.size_append, Nat.sub_sub]
    · rfl

theorem overrun?_deeper (events : List Event) :
    overrun? room (events.map Event.deeper) = (overrun? room events).map Event.deeper := by
  induction events generalizing room with
  | nil => rfl
  | cons e events ih =>
    rw [List.map_cons, overrun?, overrun?, Event.bytes_deeper]
    split
    · exact ih
    · rfl

theorem overrun?_eq_none_iff {events : List Event} :
    overrun? room events = none ↔ (printed events).size ≤ room := by
  induction events generalizing room with
  | nil => exact iff_of_true rfl (Nat.zero_le _)
  | cons e events ih =>
    rw [overrun?, printed, ByteArray.size_append]
    split
    case isTrue fits =>
      rw [ih]
      omega
    case isFalse fails =>
      exact iff_of_false nofun (by omega)

theorem lt_size_of_overrun? {events : List Event} {e : Event} (h : overrun? room events = some e) :
    room < (printed events).size := by
  refine Nat.lt_of_not_le fun fits => ?_
  rw [overrun?_eq_none_iff.2 fits] at h
  cases h

/-- What comes before the event fits, and what the event writes does not. -/
theorem overrun?_eq_some {events : List Event} {e : Event} (h : overrun? room events = some e) :
    ∃ before rest, events = before ++ e :: rest ∧ (printed before).size ≤ room ∧
      room < (printed before).size + e.bytes.size := by
  induction events generalizing room with
  | nil => cases h
  | cons first events ih =>
    rw [overrun?] at h
    split at h
    case isTrue fits =>
      obtain ⟨before, rest, rfl, within, beyond⟩ := ih h
      refine ⟨first :: before, rest, rfl, ?_, ?_⟩
      · rw [printed, ByteArray.size_append]
        omega
      · rw [printed, ByteArray.size_append]
        omega
    case isFalse fails =>
      cases h
      exact ⟨[], events, rfl, Nat.zero_le _, by simpa [printed] using fails⟩

end

/-! ## Sinks with room -/

/-- What fits is all of it. -/
theorem extract_of_size_le {bytes : ByteArray} {n : Nat} (fits : bytes.size ≤ n) :
    bytes.extract 0 n = bytes := by
  rw [← Nat.max_eq_left fits]
  exact ByteArray.extract_zero_max_size

/-- The machine with room for `n` more bytes of output. -/
def Machine.withRoom (n : Nat) (m : Machine) : Machine :=
  { m with sink := { m.sink with room := some n } }

namespace Run

variable {α β : Type}

/-- The result with room for `n` more bytes. -/
def leaving (n : Nat) :
    EStateM.Result (Stop RuntimeError) Machine α → EStateM.Result (Stop RuntimeError) Machine α
  | .ok a m => .ok a (m.withRoom n)
  | .error e m => .error e (m.withRoom n)

theorem outcome_after_of_leaving {run : Run α} {m m' : Machine} {n : Nat}
    (h : run m' = leaving n (run m)) :
    outcome run m' = outcome run m ∧ after run m' = (after run m).withRoom n := by
  unfold outcome after
  rw [h]
  cases run m with
  | ok a m => exact ⟨rfl, rfl⟩
  | error e m => exact ⟨rfl, rfl⟩

/-- How a run from `m` ends when the output stops after some bytes, at a print:
what was done until then stays, but no call is active that was not before. -/
def cutOff (print : Event) (bytes : ByteArray) (m : Machine) :
    EStateM.Result (Stop RuntimeError) Machine α :=
  .error (.failed (.output Sink.fullText))
    { print.machine with callDepth := m.callDepth, sink := ⟨m.sink.written ++ bytes, some 0⟩ }

/-- From `m`, which has an unlimited sink, the run writes what it tells; with
room for `n` bytes it does the same up to the first print for which there is no
room. -/
structure TruncatedAt (told : Told α) (m : Machine) : Prop where
  sink : (after told.run m).sink = ⟨m.sink.written ++ printed (told.events m), none⟩
  callDepth : (after told.run m).callDepth = m.callDepth
  result : ∀ n, told.run (m.withRoom n) =
    match overrun? n (told.events m) with
    | none => leaving (n - (printed (told.events m)).size) (told.run m)
    | some e => cutOff e ((printed (told.events m)).extract 0 n) m

/-- Only what the runs do from the machine matters, with each room. -/
theorem TruncatedAt.congr {told told' : Told α} {m : Machine} (h : TruncatedAt told m)
    (unlimited : told'.run m = told.run m)
    (limited : ∀ n, told'.run (m.withRoom n) = told.run (m.withRoom n))
    (events : told'.events m = told.events m) : TruncatedAt told' m := by
  obtain ⟨sink, callDepth, result⟩ := h
  constructor
  · unfold after at sink ⊢
    rwa [unlimited, events]
  · unfold after at callDepth ⊢
    rwa [unlimited]
  · intro n
    rw [limited, events, unlimited]
    exact result n

/-- An act that prints nothing counts for nothing. -/
theorem TruncatedAt.first {told : Told α} {m : Machine} (h : TruncatedAt told m) {act : Act}
    (mute : ∀ active m, (⟨act, active, m⟩ : Event).bytes = .empty) :
    TruncatedAt (told.first act) m := by
  obtain ⟨sink, callDepth, result⟩ := h
  have same : printed ((told.first act).events m) = printed (told.events m) := by
    unfold Told.first
    rw [printed, mute, ByteArray.empty_append]
  have passed : ∀ n, overrun? n ((told.first act).events m) = overrun? n (told.events m) := by
    intro n
    unfold Told.first
    rw [overrun?, mute, ByteArray.size_empty, if_pos (Nat.zero_le n), Nat.sub_zero]
  refine ⟨?_, callDepth, fun n => ?_⟩
  · rwa [same]
  · rw [passed, same]
    exact result n

/-- The bytes that fit are written, be they all or not. -/
theorem TruncatedAt.written {told : Told α} {m : Machine} (h : TruncatedAt told m) (n : Nat) :
    (after told.run (m.withRoom n)).sink.written =
      m.sink.written ++ (printed (told.events m)).extract 0 n := by
  have limited := h.result n
  cases found : overrun? n (told.events m) with
  | none =>
    rw [found] at limited
    rw [(outcome_after_of_leaving limited).2, extract_of_size_le (overrun?_eq_none_iff.1 found)]
    exact congrArg Sink.written h.sink
  | some e =>
    rw [found] at limited
    unfold after
    rw [limited]
    rfl

def Truncated (told : Told α) : Prop :=
  ∀ m : Machine, m.sink.room = none → TruncatedAt told m

namespace Truncated

/-! ## Runs without output -/

/-- A run that neither looks at the sink nor changes it. -/
theorem silent {run : Run α} (sink : ∀ m, (after run m).sink = m.sink)
    (callDepth : ∀ m, (after run m).callDepth = m.callDepth)
    (result : ∀ m n, run (Machine.withRoom n m) = leaving n (run m)) :
    Truncated (.silent run) := by
  intro m unlimited
  refine ⟨(sink m).trans ?_, callDepth m, result m⟩
  rw [← unlimited]
  exact congrArg (Sink.mk · m.sink.room) ByteArray.append_empty.symm

theorem fail (e : RuntimeError) : Truncated (.silent (Run.fail e : Run α)) :=
  silent (fun _ => rfl) (fun _ => rfl) fun _ _ => rfl

theorem lookup (id : ScopeId) (name : Token) : Truncated (.silent (Run.lookup id name)) := by
  refine silent (fun m => ?_) (fun m => ?_) fun m n => ?_
  · rw [after_lookup]
  · rw [after_lookup]
  · unfold Run.lookup Machine.withRoom
    dsimp only
    cases m.scopes.get? id name.lexeme <;> rfl

theorem assign (id : ScopeId) (name : Token) (value : Value) :
    Truncated (.silent (Run.assign id name value)) := by
  refine silent (fun m => ?_) (fun m => ?_) fun m n => ?_
  · rw [after_assign]
    cases m.scopes.resolve id name.lexeme <;> rfl
  · rw [after_assign]
    cases m.scopes.resolve id name.lexeme <;> rfl
  · unfold Run.assign Machine.withRoom
    dsimp only
    cases m.scopes.resolve id name.lexeme <;> rfl

theorem newFunction (name : Token) (params : List Token) (body : List Stmt) (scope : ScopeId) :
    Truncated (.newFunction name params body scope) := by
  intro m unlimited
  have made : Truncated (.silent (Run.newFunction name params body scope)) :=
    silent (fun _ => rfl) (fun _ => rfl) fun _ _ => rfl
  have mute : ∀ active m',
      (⟨.creates ⟨m.functions, name, params, body, scope⟩, active, m'⟩ : Event).bytes = .empty :=
    fun _ _ => rfl
  exact ((made m unlimited).first mute).congr rfl (fun _ => rfl) rfl

theorem native (f : Native) (arguments : List Value) (line : Nat) :
    Truncated (.silent (Run.native f arguments line)) := by
  refine silent (fun m => ?_) (fun m => ?_) fun m n => ?_
  · obtain ⟨clock, left⟩ := after_native f arguments line m
    rw [left]
  · obtain ⟨clock, left⟩ := after_native f arguments line m
    rw [left]
  · unfold Run.native Machine.withRoom
    dsimp only
    cases f.apply arguments m.clock <;> rfl

/-! ## Printing -/

theorem print (scope : ScopeId) (text : String) : Truncated (.print scope text) := by
  intro m unlimited
  obtain ⟨scopes, functions, depth, ⟨written, room⟩, clock⟩ := m
  cases unlimited
  let m : Machine := ⟨scopes, functions, depth, ⟨written, none⟩, clock⟩
  have all : printed ((Told.print scope text).events m) = (text ++ "\n").toUTF8 :=
    ByteArray.append_empty
  refine ⟨?_, ?_, fun n => ?_⟩
  · rw [all]
    exact congrArg Machine.sink (after_print text m)
  · show (after (Run.print text) m).callDepth = depth
    rw [after_print]
  · rw [all]
    show Run.print text (m.withRoom n) = _
    by_cases fits : (text ++ "\n").toUTF8.size ≤ n
    · have none : overrun? n ((Told.print scope text).events m) = none :=
        overrun?_eq_none_iff.2 (all ▸ fits)
      rw [none]
      show _ = leaving _ (Run.print text m)
      unfold Run.print
      simp only [m, Machine.withRoom, Sink.fits, Sink.write, fits, decide_true, if_true, leaving,
        extract_of_size_le fits]
    · have here : overrun? n ((Told.print scope text).events m) = some ⟨.prints scope text, 0, m⟩ :=
        if_neg fits
      have left : n - (text ++ "\n").toUTF8.size = 0 := by omega
      rw [here]
      unfold Run.print
      simp only [m, Machine.withRoom, Sink.fits, Sink.write, fits, decide_false, left]
      rfl

/-! ## Runs one after another -/

theorem bind {told : Told α} (h : Truncated told) {k : α → Told β}
    (hk : ∀ a, Truncated (k a)) : Truncated (told >>= k) := by
  intro m unlimited
  obtain ⟨sink, callDepth, result⟩ := h m unlimited
  cases ran : told.run m with
  | error e m' =>
    -- the rest is not reached, with or without the limit
    have run : (told >>= k).run m = .error e m' := bind_of_error ran _
    have left : after told.run m = m' := by simp only [after, ran]
    have left' : after (told >>= k).run m = m' := by simp only [after, run]
    have same : (told >>= k).events m = told.events m := Trace.next_error ran
    rw [left] at sink callDepth
    refine ⟨?_, ?_, fun n => ?_⟩
    · rwa [left', same]
    · rwa [left']
    · rw [same, run, Told.bind_run, bind_apply, result, ran]
      cases overrun? n (told.events m) <;> rfl
  | ok a m' =>
    -- the rest has the room that is left over
    have run : (told >>= k).run m = (k a).run m' := bind_of_ok ran _
    have left : after told.run m = m' := by simp only [after, ran]
    have left' : after (told >>= k).run m = after (k a).run m' := by simp only [after, run]
    have both : (told >>= k).events m = told.events m ++ (k a).events m' := Trace.next_ok ran
    rw [left] at sink callDepth
    have unlimited' : m'.sink.room = none := by rw [sink]
    have written' : m'.sink.written = m.sink.written ++ printed (told.events m) := by rw [sink]
    obtain ⟨sink', callDepth', result'⟩ := hk a m' unlimited'
    refine ⟨?_, ?_, fun n => ?_⟩
    · rw [left', both, printed_append, ← ByteArray.append_assoc, ← written']
      exact sink'
    · rw [left', callDepth', callDepth]
    · rw [both, overrun?_append, printed_append, run, Told.bind_run, bind_apply, result, ran]
      cases found : overrun? n (told.events m) with
      | some e =>
        have spent : n - (printed (told.events m)).size = 0 :=
          Nat.sub_eq_zero_of_le (Nat.le_of_lt (lt_size_of_overrun? found))
        dsimp only [Option.some_or, cutOff]
        rw [ByteArray.extract_append, spent, Nat.zero_sub, ByteArray.extract_same,
          ByteArray.append_empty]
      | none =>
        have fits := overrun?_eq_none_iff.1 found
        dsimp only [Option.none_or]
        rw [leaving]
        dsimp only
        rw [result']
        cases overrun? (n - (printed (told.events m)).size) ((k a).events m') with
        | none =>
          dsimp only
          rw [ByteArray.size_append, Nat.sub_sub]
        | some e =>
          dsimp only [cutOff]
          rw [callDepth, written', ByteArray.append_assoc, ByteArray.extract_append,
            extract_of_size_le fits, Nat.zero_sub]

/-! ## Calls -/

/-- The call is no longer active when the output has stopped inside of it. -/
theorem inFrame {body : Told α} (h : Truncated body) (frames : Option Nat) (f : Closure)
    (line : Nat) : Truncated (body.inFrame frames f line) := by
  intro m unlimited
  have mute : ∀ active m, (⟨.calls f line, active, m⟩ : Event).bytes = .empty := fun _ _ => rfl
  by_cases full : frames.any (· ≤ m.callDepth)
  · refine ((fail (.stackOverflow line) m unlimited).first mute).congr ?_ (fun n => ?_) ?_
    · exact if_pos full
    · exact if_pos full
    · rw [Told.inFrame_events, if_pos full]
      rfl
  · obtain ⟨sink, callDepth, result⟩ := h { m with callDepth := m.callDepth + 1 } unlimited
    have inside : TruncatedAt ⟨Run.inFrame frames line body.run, fun m =>
        (body.events { m with callDepth := m.callDepth + 1 }).map Event.deeper⟩ m := by
      refine ⟨?_, ?_, fun n => ?_⟩
      · dsimp only
        rw [after_inFrame, if_neg full, printed_deeper]
        exact sink
      · dsimp only
        rw [after_inFrame, if_neg full]
      · dsimp only
        rw [overrun?_deeper, printed_deeper]
        have framed : Run.inFrame frames line body.run m =
            match body.run { m with callDepth := m.callDepth + 1 } with
            | .ok a m' => .ok a { m' with callDepth := m.callDepth }
            | .error e m' => .error e { m' with callDepth := m.callDepth } := if_neg full
        have framed' : Run.inFrame frames line body.run (m.withRoom n) =
            match body.run (Machine.withRoom n { m with callDepth := m.callDepth + 1 }) with
            | .ok a m' => .ok a { m' with callDepth := m.callDepth }
            | .error e m' => .error e { m' with callDepth := m.callDepth } := if_neg full
        rw [framed, framed', result n]
        cases overrun? n (body.events { m with callDepth := m.callDepth + 1 }) with
        | none => cases body.run { m with callDepth := m.callDepth + 1 } <;> rfl
        | some e => rfl
    refine (inside.first mute).congr rfl (fun _ => rfl) ?_
    rw [Told.inFrame_events, if_neg full]
    rfl

end Truncated

/-- Evaluation is cut off where the output is. -/
theorem truncated_compositional (frames : Option Nat) :
    Compositional frames frames fun _ _ told => Truncated told where
  pure _ := .silent (fun _ => rfl) (fun _ => rfl) fun _ _ => rfl
  outOfFuel := .silent (fun _ => rfl) (fun _ => rfl) fun _ _ => rfl
  fail := .fail
  openScope _ _ := .silent (fun _ => rfl) (fun _ => rfl) fun _ _ => rfl
  define _ _ _ := .silent (fun _ => rfl) (fun _ => rfl) fun _ _ => rfl
  lookup := .lookup
  assign := .assign
  newFunction := .newFunction
  native := .native
  print := .print
  first {_ _ _ act} quiet h := by
    refine fun m unlimited => (h m unlimited).first fun _ _ => ?_
    cases act with
    | prints => cases quiet
    | _ => rfl
  bind h hk := h.bind hk
  inFrame f line h := h.inFrame frames f line

end Run

open Run

theorem truncated_interpretAll (frames : Option Nat) (fuel : Nat) (program : Program) :
    Truncated (Told.interpretAll frames fuel program) :=
  (truncated_compositional frames).interpretAll fuel program

/-- A sink that fails only cuts output off.  An unlimited sink takes all that the
prints of a run write.  If that is no more than `n` bytes, a sink with room for
`n` makes no difference.  Otherwise the run with that sink stops at the first
print whose line does not fit, with what was bound right before it and the calls
active that were at the start; it has written the first `n` bytes of what the
unlimited run writes, no matter how much longer that goes on. -/
theorem output_truncated (frames : Option Nat) (fuel : Nat) (program : Program) {m : Machine}
    (unlimited : m.sink.room = none) (n : Nat) :
    let run := interpretAll frames fuel program
    let events := programEvents frames fuel program m
    (after run m).sink = ⟨m.sink.written ++ printed events, none⟩ ∧
    ((printed events).size ≤ n → outcome run (m.withRoom n) = outcome run m ∧
      after run (m.withRoom n) = (after run m).withRoom (n - (printed events).size)) ∧
    (n < (printed events).size → ∃ before print rest scope text,
      events = before ++ print :: rest ∧ print.act = .prints scope text ∧
      (printed before).size ≤ n ∧ n < (printed before).size + (text ++ "\n").toUTF8.size ∧
      ∀ fuel' ≥ fuel,
        interpretAll frames fuel' program (m.withRoom n) =
          .error (.failed (.output Sink.fullText))
            { print.machine with
              callDepth := m.callDepth
              sink := ⟨m.sink.written ++ (printed events).extract 0 n, some 0⟩ } ∧
        (printed (programEvents frames fuel' program m)).extract 0 n =
          (printed events).extract 0 n) := by
  intro run events
  obtain ⟨sink, -, limited⟩ := truncated_interpretAll frames fuel program m unlimited
  have told : (Told.interpretAll frames fuel program).events m = events := rfl
  rw [Told.interpretAll_run, told] at sink limited
  specialize limited n
  refine ⟨sink, fun fits => ?_, fun exceeds => ?_⟩
  · rw [overrun?_eq_none_iff.2 fits] at limited
    exact outcome_after_of_leaving limited
  · cases found : overrun? n events with
    | none => exact absurd (overrun?_eq_none_iff.1 found) (Nat.not_le_of_lt exceeds)
    | some print =>
      obtain ⟨before, rest, split, within, beyond⟩ := overrun?_eq_some found
      obtain ⟨scope, text, act, bytes⟩ := Event.prints_of_bytes (e := print) (by omega)
      rw [found] at limited
      refine ⟨before, print, rest, scope, text, split, act, within, bytes ▸ beyond, ?_⟩
      intro fuel' more
      have stopped : interpretAll frames fuel' program (m.withRoom n) =
          cutOff print ((printed events).extract 0 n) m := by
        rcases extends_interpretAll more program (m.withRoom n) with out | same
        · rw [limited] at out
          exact out.elim
        · exact same.trans limited
      -- with more fuel, too, the limited run writes what fits of the unlimited one
      have written := (truncated_interpretAll frames fuel' program m unlimited).written n
      rw [Told.interpretAll_run] at written
      unfold after at written
      rw [stopped] at written
      exact ⟨stopped, (ByteArray.append_right_inj _).1 written.symm⟩

/-! ## A loop that never ends -/

namespace Endless

/-- The text `fun f() { while (true) print "ab"; } f();`. -/
def program : Program :=
  [.function (.ofName "f") []
    [.whileLoop (.literal (.boolean true)) (.print (.literal (.string "ab")))],
   .expression (.callOf "f" 1)]

end Endless

open Endless

/-- With room for four bytes the loop is stopped in its second line, and the
call around it is gone. -/
theorem endless_output_stopped :
    (Machine.initial (.still 0)).sink.room = none ∧
    ∃ m, interpretAll (some maxFrames) 12 program ((Machine.initial (.still 0)).withRoom 4) =
      .error (.failed (.output Sink.fullText)) m ∧
      m.sink.written = "ab\na".toUTF8 ∧ m.callDepth = 0 := by
  have unlimited : (Machine.initial (.still 0)).sink.room = none := rfl
  obtain ⟨-, -, exceeds⟩ := output_truncated (some maxFrames) 12 program unlimited 4
  have more :
      4 < (printed (programEvents (some maxFrames) 12 program (.initial (.still 0)))).size := by
    decide +kernel
  have first :
      (printed (programEvents (some maxFrames) 12 program (.initial (.still 0)))).extract 0 4 =
        "ab\na".toUTF8 := by decide +kernel
  obtain ⟨before, print, rest, scope, text, -, -, -, -, stops⟩ := exceeds more
  obtain ⟨stopped, -⟩ := stops 12 (Nat.le_refl _)
  refine ⟨unlimited, _, stopped, ?_, rfl⟩
  rw [first]
  exact ByteArray.empty_append

end Scriptlet
