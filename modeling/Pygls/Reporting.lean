import Pygls.MessageLoop

/-!
# Reporting errors

A server may override `report_server_error`, and the override may raise. What
`handle_message` reports goes through `_report_server_error`, which catches that.
The loops are started with `error_handler=self.report_server_error`, so what they
report in their own `except` block is not guarded.
-/

namespace Pygls.Reporting

open MessageLoop

set_option autoImplicit false

universe u v

variable {σ : Type u} {ε : Type v}

/-- A `JsonRPCServer` with its protocol. `attempt` decodes and handles a body; it is given
the reporter to use and returns the exception that left it, if any. The flag of
`reportServerError` says that it raised. -/
structure Server (σ : Type u) (ε : Type v) where
  stopEvent : σ → Bool
  reportServerError : σ → ε → σ × Bool
  attempt : (σ → ε → σ) → σ → Bytes → σ × Option ε

namespace Server

/-- `_report_server_error` -/
def guardedReport (server : Server σ ε) (state : σ) (error : ε) : σ :=
  (server.reportServerError state error).1

/-- The same server with a reporter that does the same and never raises. -/
def quiet (server : Server σ ε) : Server σ ε :=
  { server with reportServerError := fun state error => (server.guardedReport state error, false) }

/-- The attempt as a loop makes it: the exception is kept for the handler. -/
def loopAttempt (server : Server σ ε) (p : σ × Option ε) (body : Bytes) : (σ × Option ε) × Bool :=
  let r := server.attempt server.guardedReport p.1 body
  (r, r.2.isSome)

/-- `error_handler=self.report_server_error` -/
def errorHandler (server : Server σ ε) (p : σ × Option ε) : (σ × Option ε) × Bool :=
  match p.2 with
  | none => (p, false)
  | some error =>
    let r := server.reportServerError p.1 error
    ((r.1, none), r.2)

def stopped (server : Server σ ε) (p : σ × Option ε) : Bool := server.stopEvent p.1

/-- The loops as `_start_io_sync`, `_start_io_async`, `start_tcp` and `start_ws` start them. -/
def run (server : Server σ ε) (state : σ) (stream : Bytes) : MessageLoop.Ended (σ × Option ε) :=
  MessageLoop.run server.stopped server.loopAttempt (some server.errorHandler) (state, none) stream

def runAsync (server : Server σ ε) (readexactly : Nat → Bytes → Option Bytes) (state : σ)
    (stream : Bytes) : MessageLoop.Ended (σ × Option ε) :=
  MessageLoop.runAsync readexactly server.stopped server.loopAttempt (some server.errorHandler)
    (state, none) stream

def handleFrom (server : Server σ ε) (p : σ × Option ε) (messages : List Bytes) :
    (σ × Option ε) × List MessageLoop.Call × Bool :=
  MessageLoop.handleMessages server.stopped server.loopAttempt (some server.errorHandler) p messages

/-- Until the connection is closed; the stop event is set only after that. -/
def runWebsocket (server : Server σ ε) (state : σ) (messages : List Bytes) :
    (σ × Option ε) × List MessageLoop.Call × Bool :=
  server.handleFrom (state, none) messages

/-- Where the reporter raises on an error that the loop reports, the loop had nothing more
to do: no message follows, or the server has been stopped. -/
def RaisesAtEnd (server : Server σ ε) : σ → List Bytes → Prop
  | _, [] => True
  | state, body :: rest =>
    server.stopEvent state = true ∨
      match server.attempt server.guardedReport state body with
      | (state, none) => server.RaisesAtEnd state rest
      | (state, some error) =>
        ((server.reportServerError state error).2 = true →
          rest = [] ∨ server.stopEvent (server.guardedReport state error) = true) ∧
        server.RaisesAtEnd (server.guardedReport state error) rest

/-- What a loop did: the state it leaves and the calls it made. -/
def done (r : (σ × Option ε) × List MessageLoop.Call × Bool) : σ × List MessageLoop.Call := (r.1.1, r.2.1)

variable (server : Server σ ε)

theorem handleFrom_stopped {p : σ × Option ε} (hstop : server.stopEvent p.1 = true)
    (messages : List Bytes) : server.handleFrom p messages = (p, [], false) :=
  handleMessages_stopped (show server.stopped p = true from hstop) _ _ messages

/-- Nothing is left to do: there is no message, or the server has been stopped. -/
theorem handleFrom_of_end {p : σ × Option ε} {messages : List Bytes}
    (h : messages = [] ∨ server.stopEvent p.1 = true) :
    server.handleFrom p messages = (p, [], false) := by
  rcases h with rfl | hstop
  · rfl
  · exact server.handleFrom_stopped hstop messages

theorem raisesAtEnd_of_end {state : σ} {messages : List Bytes}
    (h : messages = [] ∨ server.stopEvent state = true) : server.RaisesAtEnd state messages := by
  cases messages with
  | nil => trivial
  | cons body rest => exact Or.inl (h.resolve_left (List.cons_ne_nil body rest))

section Cons

variable {p : σ × Option ε} (hstop : server.stopEvent p.1 = false) {body : Bytes} (rest : List Bytes)
include hstop

theorem handleFrom_returned {next : σ}
    (h : server.attempt server.guardedReport p.1 body = (next, none)) :
    server.handleFrom p (body :: rest) =
      ((server.handleFrom (next, none) rest).1,
        .attempt body :: (server.handleFrom (next, none) rest).2.1,
        (server.handleFrom (next, none) rest).2.2) := by
  unfold handleFrom
  rw [MessageLoop.handleMessages, if_neg (by simp [stopped, hstop])]
  simp [handleBody, loopAttempt, h]

theorem handleFrom_raised {next : σ} {error : ε}
    (h : server.attempt server.guardedReport p.1 body = (next, some error)) :
    server.handleFrom p (body :: rest) =
      if (server.reportServerError next error).2 then
        ((server.guardedReport next error, none), [.attempt body, .errorHandler], true)
      else
        ((server.handleFrom (server.guardedReport next error, none) rest).1,
          .attempt body :: .errorHandler ::
            (server.handleFrom (server.guardedReport next error, none) rest).2.1,
          (server.handleFrom (server.guardedReport next error, none) rest).2.2) := by
  unfold handleFrom
  rw [MessageLoop.handleMessages, if_neg (by simp [stopped, hstop])]
  simp [handleBody, loopAttempt, errorHandler, guardedReport, h]

end Cons

/-- Once the server is stopped, or when nothing is left to read, no call is made. -/
theorem handleFrom_calls_eq_nil {p : σ × Option ε} {messages : List Bytes} :
    (server.handleFrom p messages).2.1 = [] ↔ messages = [] ∨ server.stopEvent p.1 = true := by
  cases messages with
  | nil => exact ⟨fun _ => Or.inl rfl, fun _ => rfl⟩
  | cons body rest =>
    cases hstop : server.stopEvent p.1 with
    | true =>
      rw [server.handleFrom_stopped hstop]
      simp
    | false =>
      cases h : server.attempt server.guardedReport p.1 body with
      | mk next raised =>
        cases raised with
        | none =>
          rw [handleFrom_returned server hstop rest h]
          simp
        | some error =>
          rw [handleFrom_raised server hstop rest h]
          split <;> simp

/-- The loop does what it would do with a reporter that never raises, if and only if it
had nothing more to do where the reporter raises. -/
theorem done_quiet_iff (state : σ) (kept : Option ε) (messages : List Bytes) :
    done (server.handleFrom (state, kept) messages) =
      done (server.quiet.handleFrom (state, kept) messages) ↔ server.RaisesAtEnd state messages := by
  induction messages generalizing state kept with
  | nil => exact ⟨fun _ => trivial, fun _ => rfl⟩
  | cons body rest ih =>
    rw [RaisesAtEnd]
    cases hstop : server.stopEvent state with
    | true =>
      have hquiet : server.quiet.stopEvent state = true := hstop
      rw [server.handleFrom_stopped hstop, server.quiet.handleFrom_stopped hquiet]
      simp
    | false =>
      have hquiet : server.quiet.stopEvent state = false := hstop
      cases h : server.attempt server.guardedReport state body with
      | mk next raised =>
        -- the quiet server attempts with the same guarded reporter
        have h' : server.quiet.attempt server.quiet.guardedReport state body = (next, raised) := h
        cases raised with
        | none =>
          rw [server.handleFrom_returned hstop rest h, server.quiet.handleFrom_returned hquiet rest h']
          have hrest := ih next none
          simp only [done, Prod.mk.injEq, List.cons.injEq, true_and] at hrest ⊢
          simpa using hrest
        | some error =>
          rw [server.handleFrom_raised hstop rest h, server.quiet.handleFrom_raised hquiet rest h']
          have hrest := ih (server.guardedReport next error) none
          cases hreport : (server.reportServerError next error).2 with
          | false =>
            simpa [done, quiet, guardedReport, hreport] using hrest
          | true =>
            rw [if_pos rfl]
            simp only [done, quiet, guardedReport, Bool.false_eq_true, if_false, Prod.mk.injEq,
              List.cons.injEq, true_and, false_or]
            constructor
            · rintro ⟨-, hcalls⟩
              have hend := server.quiet.handleFrom_calls_eq_nil.mp hcalls.symm
              exact ⟨fun _ => hend, server.raisesAtEnd_of_end hend⟩
            · rintro ⟨hend, -⟩
              have hstays := server.quiet.handleFrom_of_end (p := (_, none)) (hend hreport)
              simp only [quiet, guardedReport] at hstays
              rw [hstays]
              exact ⟨rfl, rfl⟩

/-- The framed loops treat the bodies of a stream as `run_websocket` treats its messages. -/
theorem runAsync_done (read : Nat → Bytes → Option Bytes)
    (hread : ∀ body rest, read body.length (body ++ rest) = some body) (state : σ)
    {blocks : List Block} (hblocks : ∀ block ∈ blocks, block.WellFormed) :
    let ended := server.runAsync read state (blocks.flatMap Block.bytes)
    (ended.state.1, ended.calls) = done (server.runWebsocket state (bodies blocks)) := by
  intro ended
  have heq := @messageLoop_eq_handleMessages _
    ⟨server.stopped, read, refusesNone, server.loopAttempt, some server.errorHandler⟩ hread
    (state, none) blocks hblocks fun block _ => takes_refusesNone 0 block.lines
  exact congrArg done heq

end Server

/-- A reporter that raises makes no difference to what a loop reads and attempts, if and
only if the loop had nothing more to do where it raised. -/
theorem failing_reporter_stops_the_loops (server : Server σ ε) (state : σ) {blocks : List Block}
    (hblocks : ∀ block ∈ blocks, block.WellFormed) (messages : List Bytes) :
    let stream := blocks.flatMap Block.bytes
    let seen := fun ended : MessageLoop.Ended (σ × Option ε) => (ended.state.1, ended.calls)
    (seen (server.run state stream) = seen (server.quiet.run state stream) ↔
      server.RaisesAtEnd state (bodies blocks)) ∧
    (seen (server.runAsync readFile state stream) = seen (server.quiet.runAsync readFile state stream) ↔
      server.RaisesAtEnd state (bodies blocks)) ∧
    (seen (server.runAsync readExactly state stream) =
        seen (server.quiet.runAsync readExactly state stream) ↔
      server.RaisesAtEnd state (bodies blocks)) ∧
    (Server.done (server.runWebsocket state messages) =
        Server.done (server.quiet.runWebsocket state messages) ↔
      server.RaisesAtEnd state messages) := by
  intro stream seen
  have hfile : ∀ body rest : Bytes, readFile body.length (body ++ rest) = some body := by
    simp [readFile]
  have hexact : ∀ body rest : Bytes, readExactly body.length (body ++ rest) = some body := by
    simp [readExactly]
  have framed : ∀ read : Nat → Bytes → Option Bytes,
      (∀ body rest, read body.length (body ++ rest) = some body) →
      (seen (server.runAsync read state stream) = seen (server.quiet.runAsync read state stream) ↔
        server.RaisesAtEnd state (bodies blocks)) := by
    intro read hread
    have hserver := server.runAsync_done read hread state hblocks
    have hquiet := server.quiet.runAsync_done read hread state hblocks
    simp only [seen, stream, hserver, hquiet]
    exact server.done_quiet_iff state none (bodies blocks)
  exact ⟨framed readFile hfile, framed readFile hfile, framed readExactly hexact,
    server.done_quiet_iff state none messages⟩

/-- No message can be handled. The reporter counts the errors and raises at the given one. -/
def sampleServer (raisesAt : Nat) : Server Nat Unit where
  stopEvent := fun _ => false
  reportServerError := fun n _ => (n + 1, n = raisesAt)
  attempt := fun _ n _ => (n, some ())

theorem twoFrames_wellFormed : ∀ block ∈ [sampleFrame, sampleFrame], block.WellFormed := by
  intro block hblock
  obtain rfl : block = sampleFrame := by simpa using hblock
  exact sampleFrame_wellFormed

/-- The second of two frames is the last one, so a reporter that raises there stops nothing. -/
theorem failing_reporter_stops_the_loops_last :
    ((sampleServer 1).runAsync readFile 0 ([sampleFrame, sampleFrame].flatMap Block.bytes)).calls =
      ((sampleServer 1).quiet.runAsync readFile 0 ([sampleFrame, sampleFrame].flatMap Block.bytes)).calls := by
  obtain ⟨-, hasync, -⟩ := failing_reporter_stops_the_loops (sampleServer 1) 0 twoFrames_wellFormed []
  dsimp only at hasync
  exact (Prod.mk.inj (hasync.mpr (by simp [Server.RaisesAtEnd, sampleServer, Server.guardedReport,
    bodies, sampleFrame, Block.body?]))).2

/-- Raising on the first of two frames, or websocket messages, loses the second. -/
theorem failing_reporter_loses_messages :
    ((sampleServer 0).runAsync readFile 0 ([sampleFrame, sampleFrame].flatMap Block.bytes)).calls =
        [.attempt [0x7B, 0x7D], .errorHandler] ∧
      ((sampleServer 0).quiet.runAsync readFile 0 ([sampleFrame, sampleFrame].flatMap Block.bytes)).calls =
        [.attempt [0x7B, 0x7D], .errorHandler, .attempt [0x7B, 0x7D], .errorHandler] ∧
      ((sampleServer 0).runWebsocket 0 [[0x7B], [0x7D]]).2.1 = [.attempt [0x7B], .errorHandler] ∧
      ((sampleServer 0).quiet.runWebsocket 0 [[0x7B], [0x7D]]).2.1 =
        [.attempt [0x7B], .errorHandler, .attempt [0x7D], .errorHandler] := by
  have hread : ∀ body rest : Bytes, readFile body.length (body ++ rest) = some body := by
    simp [readFile]
  have hloud := (sampleServer 0).runAsync_done readFile hread 0 twoFrames_wellFormed
  have hquiet := (sampleServer 0).quiet.runAsync_done readFile hread 0 twoFrames_wellFormed
  dsimp only [Server.done] at hloud hquiet
  exact ⟨(Prod.mk.inj hloud).2, (Prod.mk.inj hquiet).2, rfl, rfl⟩

end Pygls.Reporting
