import Pygls.Exceptions
import Pygls.Lib.Dict
import Pygls.Lib.Run

/-!
# The JSON-RPC protocol

`JsonRPCProtocol` of `json_rpc.py` as a labelled transition system. The code
between two points where a handler's own code runs is one step; what a handler
does (how it starts, what it yields, how and when it ends) is the label.

A future is an index into `futures`. Each future of the protocol has exactly one
done-callback, so it is a field of the future; `called` says that it has run.
`active` says that the handler's code is on a thread's stack. The message loop,
the tasks and the callbacks of tasks run on the main thread; a generator may
also be resumed on the worker that finished the handler it yielded to.

`received` lists the requests handed to `_handle_request`. A callback and an answer
carry the number of their request in that list, since ids may be reused.
-/

namespace Pygls

set_option autoImplicit false

inductive MsgId where
  | str (s : Str)
  | int (n : Int)
deriving DecidableEq

abbrev Method := Str

def exitMethod : Method := text "exit"

abbrev Ref := Nat

inductive HandlerKind where
  | coroutine
  | thread
  | generator
  | sync
deriving DecidableEq

inductive Outcome where
  | returned (value : PyValue)
  | raised (e : PyExc)

/-- `running` is the state of a future whose worker has picked it up. -/
inductive FutureState where
  | pending
  | running
  | cancelled
  | finished (outcome : Outcome)

theorem FutureState.cancelled_ne_pending : FutureState.cancelled ≠ .pending := by
  intro heq
  cases heq

theorem FutureState.finished_ne_pending (outcome : Outcome) :
    FutureState.finished outcome ≠ .pending := by
  intro heq
  cases heq

/-- What a done-callback finds in the future it is given. The `CancelledError` of a
task is no `Exception`, that of another future is one. -/
inductive Completion where
  | finished (outcome : Outcome)
  | cancelled
  | taskCancelled

inductive Thread where
  | main
  | worker
deriving DecidableEq

/-- `client` is the optional wrapper around the callback given to `send_request`. -/
inductive Callback where
  | sendHandlerResult (msgId : MsgId) (request : Nat)
  | checkHandlerResult
  | runGenerator (resultFuture : Ref) (resultCallback : Callback)
  | client

/-- `handler` is `none` for a future made by `send_request`. `resumed`: the generator has
been sent the result of a handler it yielded to, `value` is the last one sent. -/
structure Future where
  handler : Option HandlerKind
  callback : Callback
  state : FutureState
  called : Bool
  active : Option Thread
  resumed : Bool
  value : PyValue
  cancelRequested : Bool

structure Request where
  id : MsgId
  method : Method
  params : Json

/-- `cls` is the class the response was built with. -/
inductive Answer (T : Type) where
  | result (cls : Option T) (value : Json)
  | error (code : Int) (message : Str) (data : Json)

inductive Message (T : Type) where
  | request (request : Request)
  | response (request : Nat) (id : MsgId) (answer : Answer T)

inductive WriteResult where
  | accepted
  | refused
  | brokenPipe

structure FeatureManager where
  builtinFeatures : Method → Option HandlerKind
  features : Method → Option HandlerKind

/-- What the protocol is given: the registered handlers, the converter's hooks for the
response classes, and the writer, which answers the `n`-th write with `write n`. -/
structure Env (T : Type) where
  fm : FeatureManager
  getResultType : Method → Option T
  unstructure : T → PyValue → Option Json
  structureResult : Option T → Json → Option PyValue
  traceback : Traceback
  write : Nat → WriteResult

/-- What calling a coroutine function or `submit` raises, if anything. -/
abbrev Start := Option PyExc

structure State (T : Type) where
  futures : List Future
  requestFutures : Lib.Dict MsgId Ref
  resultTypes : Lib.Dict MsgId (Option T)
  shutdown : Bool
  received : List (Request × Start)
  sent : List (Message T)
  writes : Nat

/-- `uuid` is what `uuid.uuid4()` returned, `id` in `sendRequest` the caller's `msg_id` or
such a `uuid`. The outcome of `taskEnd` is `none` when the task ends cancelled. `deliver`
runs the callback of a done task or pool future; the latter's runs on the main thread when
the future was done before the callback was added. -/
inductive Event where
  | request (request : Request) (start : Start)
  | notification (method : Method) (uuid : Str) (start : Start)
  | cancelRequest (id : MsgId)
  | response (id : MsgId) (result : Json)
  | errorResponse (id : MsgId) (error : Option ResponseError)
  | sendRequest (id : MsgId) (method : Method) (params : PyValue)
  | cancelOutgoing (future : Ref)
  | syncEnd (future : Ref) (outcome : Outcome)
  | genYield (future : Ref) (uuid : Str) (kind : HandlerKind) (start : Start)
  | genEnd (future : Ref) (outcome : Outcome)
  | taskEnd (future : Ref) (outcome : Option Outcome)
  | poolStart (future : Ref)
  | poolEnd (future : Ref) (outcome : Outcome)
  | deliver (future : Ref) (thread : Thread)

def MsgId.toStr : MsgId → Str
  | .str s => s
  | .int n => Json.intText n

def FeatureManager.getHandler (fm : FeatureManager) (method : Method) : Option HandlerKind :=
  (fm.builtinFeatures method).or (fm.features method)

def requestCancelled (id : MsgId) : JsonRpcException :=
  .init .requestCancelled (text "Request with id \"" ++ id.toStr ++ text "\" is canceled") 0 .none

/-- What `except StopIteration` and `except Exception` of `_run_generator` make of an
exception. -/
def PyExc.outcome : PyExc → Outcome
  | .stopIteration v => .returned v
  | e => .raised e

/-- What `future.result()` does in a callback; `none` is the `CancelledError` of a task. -/
def Completion.result : Completion → Option Outcome
  | .finished o => some o
  | .cancelled => some (.raised .cancelledError)
  | .taskCancelled => none

/-- The exception with which `gen.send` ends: a generator that returns raises `StopIteration`. -/
def Outcome.sendExc : Outcome → PyExc
  | .returned v => .stopIteration v
  | .raised e => e

def Outcome.noStop : Outcome → Bool
  | .raised (.stopIteration _) => false
  | _ => true

namespace Future

def completion (f : Future) : Option Completion :=
  match f.state with
  | .pending => none
  | .running => none
  | .finished o => some (.finished o)
  | .cancelled => some (if f.handler = some .coroutine then .taskCancelled else .cancelled)

def isPending (f : Future) : Bool :=
  match f.state with
  | .pending => true
  | _ => false

/-- Not yet done, so that `set_result` of a concurrent future does not raise. -/
def isOpen (f : Future) : Bool :=
  match f.state with
  | .pending => true
  | .running => true
  | _ => false

def isCancelled (f : Future) : Bool :=
  match f.state with
  | .cancelled => true
  | _ => false

def isTask (f : Future) : Bool := f.handler = some .coroutine

def settle (st : FutureState) (f : Future) : Future := { f with state := st, called := true }

def pending (kind : Option HandlerKind) (callback : Callback) : Future where
  handler := kind
  callback := callback
  state := .pending
  called := false
  active := none
  resumed := false
  value := .none
  cancelRequested := false

end Future

def Env.encode {T : Type} (env : Env T) : Option T → PyValue → Option Json
  | none, v => Json.toJson v
  | some t, v => env.unstructure t v

/-- The response message as `json.dumps` writes it; `none` where it raises. -/
def Env.answer {T : Type} (env : Env T) (cls : Option T) (v : PyValue) : Option (Answer T) :=
  (env.encode cls v).map (.result cls)

def ResponseError.answer {T : Type} (error : ResponseError) : Option (Answer T) :=
  (Json.toJson error.data).map (.error error.code error.message)

namespace State

variable {T : Type}

def init : State T where
  futures := []
  requestFutures := .empty
  resultTypes := .empty
  shutdown := false
  received := []
  sent := []
  writes := 0

def modify (s : State T) (r : Ref) (g : Future → Future) : State T :=
  { s with futures := s.futures.modify r g }

def alloc (s : State T) (f : Future) : State T := { s with futures := s.futures ++ [f] }

/-- The next future's index. -/
def fresh (s : State T) : Ref := s.futures.length

def register (s : State T) (id : MsgId) (r : Ref) : State T :=
  { s with requestFutures := s.requestFutures.set id r }

def popFuture (s : State T) (id : MsgId) : State T :=
  { s with requestFutures := s.requestFutures.pop id }

def popType (s : State T) (id : MsgId) : State T :=
  { s with resultTypes := s.resultTypes.pop id }

def mainIdle (s : State T) : Bool := s.futures.all fun f => f.active ≠ some .main

/-- After `shutdown`, `handle_message` only lets `exit` pass. -/
def refuses (s : State T) (method : Method) : Bool := s.shutdown && method ≠ exitMethod

def cancelled (s : State T) (r : Ref) : Bool := s.futures[r]?.any Future.isCancelled

def wasResumed (s : State T) (r : Ref) : Bool := s.futures[r]?.any Future.resumed

/-- `set_result` and `set_exception` of a plain future, `none` for `InvalidStateError`. -/
def setOutcome (s : State T) (r : Ref) (o : Outcome) : Option (State T) :=
  if s.futures[r]?.any Future.isPending then some (s.modify r (Future.settle (.finished o)))
  else none

/-- `gen.send`: the generator's code is on the stack of the thread. -/
def resume (s : State T) (r : Ref) (th : Thread) (v : PyValue) : State T :=
  s.modify r fun f => { f with active := some th, resumed := true, value := v }

def leave (s : State T) (r : Ref) : State T := s.modify r fun f => { f with active := none }

/-- `_send_data`; `none` is data `json.dumps` raises on. Only `BrokenPipeError` leaves it. -/
def sendData (env : Env T) (s : State T) : Option (Message T) → State T × Option PyExc
  | none => (s, none)
  | some m =>
    match env.write s.writes with
    | .accepted => ({ s with sent := s.sent ++ [m], writes := s.writes + 1 }, none)
    | .refused => ({ s with writes := s.writes + 1 }, none)
    | .brokenPipe => ({ s with writes := s.writes + 1 }, some .brokenPipeError)

def sendError (env : Env T) (s : State T) (n : Nat) (id : MsgId) (error : ResponseError) :
    State T × Option PyExc :=
  s.sendData env (error.answer.map (.response n id))

/-- `_send_response` with a result. The class registered for the id is popped; `None` is
registered for a method without one, and calling it is a `TypeError`. -/
def sendResult (env : Env T) (s : State T) (n : Nat) (id : MsgId) (v : PyValue) :
    State T × Option PyExc :=
  match s.resultTypes.get? id with
  | some none => (s.popType id, some .typeError)
  | some (some t) => (s.popType id).sendData env ((env.answer (some t) v).map (.response n id))
  | none => (s.popType id).sendData env ((env.answer none v).map (.response n id))

/-- The two `except` branches of `_send_handler_result`. -/
def sendException (env : Env T) (s : State T) (n : Nat) (id : MsgId) (e : PyExc) : State T :=
  (s.sendError env n id (e.toResponseError env.traceback)).1

def orSendException (env : Env T) (n : Nat) (id : MsgId) (r : State T × Option PyExc) : State T :=
  match r.2 with
  | none => r.1
  | some e => r.1.sendException env n id e

def sendHandlerResult (env : Env T) (s : State T) (id : MsgId) (n : Nat) : Completion → State T
  | .finished (.returned v) => orSendException env n id ((s.popFuture id).sendResult env n id v)
  | .finished (.raised e) => (s.popFuture id).sendException env n id e
  | .cancelled =>
    orSendException env n id
      ((s.popFuture id).sendError env n id (requestCancelled id).toResponseError)
  | .taskCancelled =>
    orSendException env n id
      ((s.popFuture id).sendError env n id (requestCancelled id).toResponseError)

/-- A done-callback on the given thread. An exception that leaves it is swallowed by the
future that calls it. -/
def runCallback (env : Env T) (th : Thread) : Callback → Completion → State T → State T
  | .sendHandlerResult id n, c, s => s.sendHandlerResult env id n c
  | .checkHandlerResult, _, s => s
  | .client, _, s => s
  | .runGenerator r up, c, s =>
    if s.cancelled r then s
    else
      match c.result with
      | some (.returned v) => s.resume r th v
      | some (.raised e) =>
        match s.setOutcome r e.outcome with
        | some s' => runCallback env th up (.finished e.outcome) s'
        | none => s
      | none => s

/-- An exception that leaves `_execute_handler`, in its caller. For a generator that is
`_run_generator`; if the result future is done already, `InvalidStateError` leaves that too,
and on the generator's first segment the `_execute_handler` that started it. -/
def executeRaised (env : Env T) (th : Thread) : Callback → PyExc → State T → State T
  | .sendHandlerResult id n, e, s => s.sendException env n id e
  | .checkHandlerResult, _, s => s
  | .client, _, s => s
  | .runGenerator r up, e, s =>
    match s.setOutcome r e.outcome with
    | some s' => runCallback env th up (.finished e.outcome) s'
    | none => if s.wasResumed r then s else executeRaised env th up .invalidStateError s

/-- `_execute_handler`, and its caller if it raises. A worker has no event loop, so
`ensure_future` is a `RuntimeError` there. -/
def executeHandler (env : Env T) (th : Thread) (id : MsgId) (kind : HandlerKind) (cb : Callback)
    (start : Start) (s : State T) : State T :=
  match kind with
  | .coroutine =>
    match start, th with
    | some e, _ => executeRaised env th cb e s
    | none, .main => (s.alloc (.pending (some .coroutine) cb)).register id s.fresh
    | none, .worker => executeRaised env th cb .runtimeError s
  | .thread =>
    match start with
    | some e => executeRaised env th cb e s
    | none => (s.alloc (.pending (some .thread) cb)).register id s.fresh
  | .generator =>
    (s.alloc { Future.pending (some .generator) cb with active := some th }).register id s.fresh
  | .sync => s.alloc { Future.pending (some .sync) cb with active := some th }

def handleRequest (env : Env T) (s : State T) (request : Request) (start : Start) : State T :=
  let n := s.received.length
  let s := { s with received := s.received ++ [(request, start)] }
  match env.fm.getHandler request.method with
  | none => s.sendException env n request.id (.jsonRpc (methodNotFound request.method))
  | some kind =>
    executeHandler env .main request.id kind (.sendHandlerResult request.id n) start s

def handleNotification (env : Env T) (s : State T) (method : Method) (uuid : Str) (start : Start) :
    State T :=
  match env.fm.getHandler method with
  | none => s
  | some kind => executeHandler env .main (.str uuid) kind .checkHandlerResult start s

/-- `future.cancel()`. A task is only asked to cancel itself. -/
def cancel (env : Env T) (th : Thread) (s : State T) (r : Ref) : State T :=
  match s.futures[r]? with
  | none => s
  | some f =>
    if f.isTask then
      if f.isOpen then s.modify r fun f => { f with cancelRequested := true } else s
    else if f.isPending then
      runCallback env th f.callback .cancelled (s.modify r (Future.settle .cancelled))
    else s

def handleCancelNotification (env : Env T) (s : State T) (id : MsgId) : State T :=
  match s.requestFutures.get? id with
  | none => s
  | some r => cancel env .main (s.popFuture id) r

/-- `_handle_response`. A task refuses `set_result` with a `RuntimeError`. -/
def handleResponse (env : Env T) (s : State T) (id : MsgId) (o : Outcome) : State T :=
  match s.requestFutures.get? id with
  | none => s
  | some r =>
    let s := s.popFuture id
    match s.futures[r]? with
    | none => s
    | some f =>
      if f.isTask then s
      else if f.isOpen then
        runCallback env .main f.callback (.finished o) (s.modify r (Future.settle (.finished o)))
      else s

/-- `structure_message` of a result frame, then `handle_message`. -/
def receiveResult (env : Env T) (s : State T) (id : MsgId) (result : Json) : State T :=
  let t := (s.resultTypes.get? id).join
  let s := s.popType id
  match env.structureResult t result with
  | none => s
  | some v => if s.shutdown then s else s.handleResponse env id (.returned v)

def receiveError (env : Env T) (s : State T) (id : MsgId) (error : Option ResponseError) : State T :=
  if s.shutdown then s
  else
    match error with
    | some e => s.handleResponse env id (.raised (.jsonRpc (.fromError e)))
    | none => s.handleResponse env id (.returned .none)

def sendRequest (env : Env T) (s : State T) (id : MsgId) (method : Method) (params : PyValue) :
    State T :=
  let s := (s.alloc (.pending none .client)).register id s.fresh
  let s := { s with resultTypes := s.resultTypes.set id (env.getResultType method) }
  (s.sendData env ((Json.toJson params).map fun p => .request ⟨id, method, p⟩)).1

/-- The code of a sync handler has ended. -/
def syncEnd (env : Env T) (s : State T) (r : Ref) (cb : Callback) (th : Thread) (o : Outcome) :
    State T :=
  match (s.leave r).setOutcome r o with
  | some s' => runCallback env th cb (.finished o) s'
  | none => executeRaised env th cb .invalidStateError (s.leave r)

/-- A handler of the given kind whose code is on a stack: its callback and the thread. -/
def running (s : State T) (r : Ref) (kind : HandlerKind) : Option (Callback × Thread) :=
  s.futures[r]?.bind fun f =>
    if f.handler = some kind then f.active.map fun th => (f.callback, th) else none

end State

open State

/-- A handler's future that is done, and whose callback `th` may run now. -/
def Future.deliverable (f : Future) (mainIdle : Bool) : Thread → Option Completion
  | .main =>
    if (f.handler = some .coroutine || f.handler = some .thread) && !f.called && mainIdle then
      f.completion
    else none
  | .worker => if f.handler = some .thread && !f.called then f.completion else none

def step {T : Type} (env : Env T) (s : State T) : Event → Option (State T)
  | .request request start =>
    if s.mainIdle then
      if s.refuses request.method then some s else some (s.handleRequest env request start)
    else none
  | .notification method uuid start =>
    if s.mainIdle then
      if s.refuses method then some s else some (s.handleNotification env method uuid start)
    else none
  | .cancelRequest id =>
    if s.mainIdle then
      if s.shutdown then some s else some (s.handleCancelNotification env id)
    else none
  | .response id result => if s.mainIdle then some (s.receiveResult env id result) else none
  | .errorResponse id error => if s.mainIdle then some (s.receiveError env id error) else none
  | .sendRequest id method params => some (s.sendRequest env id method params)
  | .cancelOutgoing r =>
    if s.futures[r]?.any fun f => f.handler.isNone then some (cancel env .main s r) else none
  | .syncEnd r o => (s.running r .sync).map fun p => syncEnd env s r p.1 p.2 o
  | .genYield r uuid kind start =>
    (s.running r .generator).map fun p =>
      executeHandler env p.2 (.str uuid) kind (.runGenerator r p.1) start (s.leave r)
  | .genEnd r o =>
    if o.noStop then
      (s.running r .generator).map fun p =>
        executeRaised env p.2 (.runGenerator r p.1) o.sendExc (s.leave r)
    else none
  | .taskEnd r o =>
    if s.mainIdle && o.all Outcome.noStop && s.futures[r]?.any fun f => f.isTask && f.isPending then
      some (s.modify r fun f => { f with state := o.elim .cancelled .finished })
    else none
  | .poolStart r =>
    if s.futures[r]?.any fun f => f.handler = some .thread && f.isPending then
      some (s.modify r fun f => { f with state := .running, active := some .worker })
    else none
  | .poolEnd r o =>
    (s.running r .thread).map fun _ =>
      s.modify r fun f =>
        { f with active := none, state := if f.isOpen then .finished o else f.state }
  | .deliver r th =>
    s.futures[r]?.bind fun f =>
      (f.deliverable s.mainIdle th).map fun c =>
        runCallback env th f.callback c (s.modify r fun f => { f with called := true })

/-- A message that `handle_message` drops after `shutdown`, before anything is done for it. -/
def Event.refusable : Event → Bool
  | .request _ _ => true
  | .notification _ _ _ => true
  | .cancelRequest _ => true
  | _ => false

/-- What a step can do, event by event, with what is known where it happens. -/
inductive Step {T : Type} (env : Env T) (s : State T) : Event → State T → Prop where
  | ignored {e : Event} : s.shutdown = true → e.refusable = true → Step env s e s
  | request {q : Request} {start : Start} : s.mainIdle = true → s.refuses q.method = false →
      Step env s (.request q start) (s.handleRequest env q start)
  | notification {method : Method} {uuid : Str} {start : Start} : s.mainIdle = true →
      s.refuses method = false →
      Step env s (.notification method uuid start) (s.handleNotification env method uuid start)
  | cancelRequest {id : MsgId} : s.mainIdle = true → s.shutdown = false →
      Step env s (.cancelRequest id) (s.handleCancelNotification env id)
  | response {id : MsgId} {result : Json} : s.mainIdle = true →
      Step env s (.response id result) (s.receiveResult env id result)
  | errorResponse {id : MsgId} {error : Option ResponseError} : s.mainIdle = true →
      Step env s (.errorResponse id error) (s.receiveError env id error)
  | sendRequest {id : MsgId} {method : Method} {params : PyValue} :
      Step env s (.sendRequest id method params) (s.sendRequest env id method params)
  | cancelOutgoing {r : Ref} {f : Future} : s.futures[r]? = some f → f.handler = none →
      Step env s (.cancelOutgoing r) (cancel env .main s r)
  | syncEnd {r : Ref} {f : Future} {th : Thread} {o : Outcome} : s.futures[r]? = some f →
      f.handler = some .sync → f.active = some th →
      Step env s (.syncEnd r o) (syncEnd env s r f.callback th o)
  | genYield {r : Ref} {f : Future} {th : Thread} {uuid : Str} {kind : HandlerKind} {start : Start} :
      s.futures[r]? = some f → f.handler = some .generator → f.active = some th →
      Step env s (.genYield r uuid kind start)
        (executeHandler env th (.str uuid) kind (.runGenerator r f.callback) start (s.leave r))
  | genEnd {r : Ref} {f : Future} {th : Thread} {o : Outcome} : s.futures[r]? = some f →
      f.handler = some .generator → f.active = some th → o.noStop = true →
      Step env s (.genEnd r o)
        (executeRaised env th (.runGenerator r f.callback) o.sendExc (s.leave r))
  | taskEnd {r : Ref} {f : Future} {o : Option Outcome} : s.mainIdle = true →
      o.all Outcome.noStop = true → s.futures[r]? = some f → f.handler = some .coroutine →
      f.isPending = true →
      Step env s (.taskEnd r o)
        (s.modify r fun f => { f with state := o.elim .cancelled .finished })
  | poolStart {r : Ref} {f : Future} : s.futures[r]? = some f → f.handler = some .thread →
      f.isPending = true →
      Step env s (.poolStart r)
        (s.modify r fun f => { f with state := .running, active := some .worker })
  | poolEnd {r : Ref} {f : Future} {th : Thread} {o : Outcome} : s.futures[r]? = some f →
      f.handler = some .thread → f.active = some th →
      Step env s (.poolEnd r o) (s.modify r fun f =>
        { f with active := none, state := if f.isOpen then .finished o else f.state })
  | deliver {r : Ref} {f : Future} {th : Thread} {c : Completion} : s.futures[r]? = some f →
      f.handler = some .coroutine ∨ f.handler = some .thread → f.called = false →
      f.completion = some c → (th = .main → s.mainIdle = true) →
      Step env s (.deliver r th)
        (runCallback env th f.callback c (s.modify r fun f => { f with called := true }))

theorem running_eq_some {T : Type} {s : State T} {r : Ref} {kind : HandlerKind}
    {p : Callback × Thread} (h : s.running r kind = some p) :
    ∃ f, s.futures[r]? = some f ∧ f.handler = some kind ∧ f.active = some p.2 ∧
      f.callback = p.1 := by
  obtain ⟨f, hf, h⟩ := Option.bind_eq_some_iff.mp h
  split at h
  · rename_i hk
    obtain ⟨th, hth, rfl⟩ := Option.map_eq_some_iff.mp h
    exact ⟨f, hf, hk, hth, rfl⟩
  · cases h

theorem deliverable_eq_some {f : Future} {idle : Bool} {th : Thread} {c : Completion}
    (h : f.deliverable idle th = some c) :
    (f.handler = some .coroutine ∨ f.handler = some .thread) ∧ f.called = false ∧
      f.completion = some c ∧ (th = .main → idle = true) := by
  cases th with
  | main =>
    simp only [Future.deliverable] at h
    split at h
    · rename_i hg
      simp only [Bool.and_eq_true, Bool.or_eq_true, decide_eq_true_eq, Bool.not_eq_true'] at hg
      exact ⟨hg.1.1, hg.1.2, h, fun _ => hg.2⟩
    · cases h
  | worker =>
    simp only [Future.deliverable] at h
    split at h
    · rename_i hg
      simp only [Bool.and_eq_true, decide_eq_true_eq, Bool.not_eq_true'] at hg
      exact ⟨Or.inr hg.1, hg.2, h, nofun⟩
    · cases h

theorem step_cases {T : Type} {env : Env T} {s t : State T} {e : Event}
    (h : step env s e = some t) : Step env s e t := by
  cases e with
  | request q start =>
    simp only [step] at h
    split at h
    · rename_i hidle
      split at h
      · rename_i hdown
        cases h
        exact .ignored (Bool.and_eq_true_iff.mp hdown).1 rfl
      · rename_i hdown
        cases h
        exact .request hidle (by simpa using hdown)
    · cases h
  | notification method uuid start =>
    simp only [step] at h
    split at h
    · rename_i hidle
      split at h
      · rename_i hdown
        cases h
        exact .ignored (Bool.and_eq_true_iff.mp hdown).1 rfl
      · rename_i hdown
        cases h
        exact .notification hidle (by simpa using hdown)
    · cases h
  | cancelRequest id =>
    simp only [step] at h
    split at h
    · rename_i hidle
      split at h
      · rename_i hdown
        cases h
        exact .ignored hdown rfl
      · rename_i hdown
        cases h
        exact .cancelRequest hidle (by simpa using hdown)
    · cases h
  | response id result =>
    simp only [step] at h
    split at h
    · rename_i hidle
      cases h
      exact .response hidle
    · cases h
  | errorResponse id error =>
    simp only [step] at h
    split at h
    · rename_i hidle
      cases h
      exact .errorResponse hidle
    · cases h
  | sendRequest id method params =>
    cases h
    exact .sendRequest
  | cancelOutgoing r =>
    simp only [step] at h
    split at h
    · rename_i hr
      obtain ⟨f, hf, hnone⟩ := (Option.any_eq_true _ _).mp hr
      cases h
      exact .cancelOutgoing hf (by simpa using hnone)
    · cases h
  | syncEnd r o =>
    obtain ⟨p, hp, rfl⟩ := Option.map_eq_some_iff.mp h
    obtain ⟨f, hf, hk, hact, hcb⟩ := running_eq_some hp
    exact hcb ▸ .syncEnd hf hk hact
  | genYield r uuid kind start =>
    obtain ⟨p, hp, rfl⟩ := Option.map_eq_some_iff.mp h
    obtain ⟨f, hf, hk, hact, hcb⟩ := running_eq_some hp
    exact hcb ▸ .genYield hf hk hact
  | genEnd r o =>
    simp only [step] at h
    split at h
    · rename_i hstop
      obtain ⟨p, hp, rfl⟩ := Option.map_eq_some_iff.mp h
      obtain ⟨f, hf, hk, hact, hcb⟩ := running_eq_some hp
      exact hcb ▸ .genEnd hf hk hact hstop
    · cases h
  | taskEnd r o =>
    simp only [step] at h
    split at h
    · rename_i hg
      simp only [Bool.and_eq_true] at hg
      obtain ⟨⟨hidle, hstop⟩, hr⟩ := hg
      obtain ⟨f, hf, hfg⟩ := (Option.any_eq_true _ _).mp hr
      simp only [Bool.and_eq_true, Future.isTask, decide_eq_true_eq] at hfg
      cases h
      exact .taskEnd hidle hstop hf hfg.1 hfg.2
    · cases h
  | poolStart r =>
    simp only [step] at h
    split at h
    · rename_i hr
      obtain ⟨f, hf, hfg⟩ := (Option.any_eq_true _ _).mp hr
      simp only [Bool.and_eq_true, decide_eq_true_eq] at hfg
      cases h
      exact .poolStart hf hfg.1 hfg.2
    · cases h
  | poolEnd r o =>
    obtain ⟨p, hp, rfl⟩ := Option.map_eq_some_iff.mp h
    obtain ⟨f, hf, hk, hact, -⟩ := running_eq_some hp
    exact .poolEnd hf hk hact
  | deliver r th =>
    obtain ⟨f, hf, h⟩ := Option.bind_eq_some_iff.mp h
    obtain ⟨c, hc, rfl⟩ := Option.map_eq_some_iff.mp h
    obtain ⟨hk, hcalled, hcomp, hidle⟩ := deliverable_eq_some hc
    exact .deliver hf hk hcalled hcomp hidle

/-- A server with one generator handler, for the empty method name. -/
def sampleEnv : Env Unit where
  fm := ⟨fun _ => none, fun method => if method = [] then some .generator else none⟩
  getResultType := fun _ => none
  unstructure := fun _ v => Json.toJson v
  structureResult := fun _ j =>
    match j with
    | .null => some .none
    | .bool b => some (.bool b)
    | .int n => some (.int n)
    | _ => none
  traceback := fun _ => ([], [])
  write := fun _ => .accepted

end Pygls
