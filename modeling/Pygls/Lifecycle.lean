import Pygls.Answers
import Pygls.Received
import Pygls.Shutdown

/-!
# The end of the server process

`lsp_shutdown` sets the flag and `lsp_exit` makes the code of it that the process ends with.
Both are generators that may yield to a handler of the user first, and what comes in between
is up to the peer. A `SystemExit` passes every `except Exception` of the protocol; on the main
thread it ends the event loop, on a worker it ends the worker. The only one here is that of
`lsp_exit`: the user's handlers raise instances of `Exception` and do not call `sys.exit`.

An `exit` message is structured as a notification, a `shutdown` without an id is no message.
-/

namespace Pygls.Lifecycle

open Lib

set_option autoImplicit false

variable {T : Type}

/-- How the server was started: over stdio, TCP or a WebSocket. -/
inductive Transport where
  | io
  | tcp
  | ws

/-- What `writer.close()` returns is awaitable. -/
def Transport.closesLater : Transport → Bool
  | .io => false
  | .tcp => false
  | .ws => true

/-- `start_io` catches the `SystemExit` and returns. -/
inductive Ended where
  | returned
  | exited (code : Nat)

def Transport.ends : Transport → Nat → Ended
  | .io, _ => .returned
  | .tcp, code => .exited code
  | .ws, code => .exited code

theorem shutdown_ne_exit : shutdownMethod ≠ exitMethod := by
  with_unfolding_all decide

def builtin (env : Env T) : Env T :=
  { env with
    fm := { env.fm with
      builtinFeatures := fun method =>
        if method = shutdownMethod ∨ method = exitMethod then some .generator
        else env.fm.builtinFeatures method } }

/-- `exits` are the futures of `lsp_exit`, `closing` the codes for `sys.exit` that wait for
the writer to be closed. -/
structure Process (T : Type) where
  protocol : State T
  exits : List Ref
  closing : List Nat
  ended : Option Ended

/-- `exitEnd` is the last segment of `lsp_exit`, with what `writer.close()` raises, if anything;
`closed` is the end of a task that closes the writer. -/
inductive Event where
  | server (event : LanguageServer.Event)
  | exitEnd (future : Ref) (start : Start)
  | closed (task : Nat)

namespace Process

def init : Process T := ⟨State.init, [], [], none⟩

def returncode (p : Process T) : Nat := if p.protocol.shutdown then 0 else 1

/-- The method whose built-in generator the future belongs to. -/
def method? (p : Process T) (r : Ref) : Option Method :=
  if p.protocol.isShutdown r then some shutdownMethod
  else if r ∈ p.exits then some exitMethod
  else none

/-- The generator has not found a handler of the user, or has been resumed. -/
def pastUser (env : Env T) (p : Process T) (method : Method) (r : Ref) : Bool :=
  (env.fm.features method).isNone || p.protocol.wasResumed r

/-- The two generators yield once, to the user's handler, and end in events of their own. -/
def allows (env : Env T) (p : Process T) : LanguageServer.Event → Bool
  | .shutdown r => p.pastUser env shutdownMethod r
  | .protocol (.request request _) => request.method ≠ exitMethod
  | .protocol (.notification method _ _) => method ≠ shutdownMethod
  | .protocol (.genYield r _ kind _) =>
    match p.method? r with
    | none => true
    | some method => !p.protocol.wasResumed r && env.fm.features method = some kind
  | .protocol (.genEnd r _) => (p.method? r).isNone
  | _ => true

/-- The future that the message makes for `lsp_exit`. -/
def newExit (p : Process T) : LanguageServer.Event → List Ref
  | .protocol (.notification method _ _) =>
    if method = exitMethod then [p.protocol.fresh] else []
  | _ => []

def genEnd (env : Env T) (p : Process T) (r : Ref) (cb : Callback) (th : Thread) (e : PyExc) :
    Process T :=
  { p with
    protocol := State.executeRaised env th (.runGenerator r cb) e (p.protocol.leave r) }

/-- `lsp_exit` from where the user's handler is done. A worker has no event loop for
`ensure_future`, and a `SystemExit` there ends the worker alone. -/
def exitEnd (env : Env T) (transport : Transport) (p : Process T) (r : Ref) (cb : Callback)
    (th : Thread) : Start → Process T
  | some e => p.genEnd env r cb th e
  | none =>
    match transport.closesLater, th with
    | true, .main =>
      { p.genEnd env r cb .main (.stopIteration .none) with
        closing := p.closing ++ [p.returncode] }
    | true, .worker => p.genEnd env r cb .worker .runtimeError
    | false, .main =>
      { p with protocol := p.protocol.leave r, ended := some (transport.ends p.returncode) }
    | false, .worker => { p with protocol := p.protocol.leave r }

end Process

def step (env : Env T) (transport : Transport) (p : Process T) (e : Event) :
    Option (Process T) :=
  if p.ended.isSome then none
  else
    match e with
    | .server e =>
      if p.allows env e then
        (LanguageServer.step (builtin env) p.protocol e).map fun s =>
          { p with protocol := s, exits := p.exits ++ p.newExit e }
      else none
    | .exitEnd r start =>
      if p.method? r = some exitMethod ∧ p.pastUser env exitMethod r = true ∧
          start.noStop = true then
        (p.protocol.running r .generator).map fun c =>
          p.exitEnd (builtin env) transport r c.1 c.2 start
      else none
    | .closed k =>
      if p.protocol.mainIdle then
        p.closing[k]?.map fun code => { p with ended := some (transport.ends code) }
      else none

/-- The request is one for `shutdown`. -/
def AsksShutdown (s : State T) (n : Nat) : Prop :=
  ∃ q, s.received[n]? = some q ∧ q.1.method = shutdownMethod

/-- The request that the callback leads to. -/
def requestOf : Callback → Option Nat
  | .sendHandlerResult _ n => some n
  | .checkHandlerResult => none
  | .client => none
  | .runGenerator _ up => requestOf up

theorem noStop_outcome (e : PyExc) : e.outcome.noStop = true := by
  cases e <;> rfl

theorem isShutdown_of_asks {s : State T} {r : Ref} {f : Future} {id : MsgId} {n : Nat}
    (hf : s.futures[r]? = some f) (hcb : f.callback = .sendHandlerResult id n)
    (h : AsksShutdown s n) : s.isShutdown r = true := by
  obtain ⟨q, hq, hmethod⟩ := h
  simp [State.isShutdown, hf, hcb, hq, hmethod]

theorem asks_of_isShutdown {s : State T} {r : Ref} (h : s.isShutdown r = true) :
    ∃ n, AsksShutdown s n := by
  obtain ⟨f, -, hf⟩ := (Option.any_eq_true _ _).mp h
  split at hf
  · rename_i n _
    obtain ⟨q, hq, hmethod⟩ := (Option.any_eq_true _ _).mp hf
    exact ⟨n, q, hq, of_decide_eq_true hmethod⟩
  · cases hf

/-- No shutdown request has been answered with a result, and none can be before `lsp_shutdown`
ends: nothing else settles its future, except with an error. -/
structure Unconfirmed (s : State T) : Prop where
  bound : ∀ (r : Ref) (f : Future) (n : Nat), s.futures[r]? = some f →
    requestOf f.callback = some n → n < s.received.length
  generator : ∀ (r : Ref) (f : Future) (id : MsgId) (n : Nat), s.futures[r]? = some f →
    f.callback = .sendHandlerResult id n → AsksShutdown s n → f.handler = some .generator
  noStop : ∀ (r : Ref) (f : Future) (o : Outcome), s.futures[r]? = some f →
    f.state = .finished o → o.noStop = true
  sent : ∀ (n : Nat) (id : MsgId) (cls : Option T) (v : Json),
    .response n id (.result cls v) ∈ s.sent → n < s.received.length ∧ ¬ AsksShutdown s n

/-- The completion is no result of a shutdown request. -/
structure Denies (s : State T) (cb : Callback) (c : Completion) : Prop where
  bound : ∀ n, requestOf cb = some n → n < s.received.length
  noStop : ∀ o, c.result = some o → o.noStop = true
  result : ∀ (v : PyValue) (id : MsgId) (n : Nat), c = .finished (.returned v) →
    cb = .sendHandlerResult id n → ¬ AsksShutdown s n

structure DeniesRaised (s : State T) (cb : Callback) (e : PyExc) : Prop where
  bound : ∀ n, requestOf cb = some n → n < s.received.length
  result : e.outcome = .raised e ∨ ∃ (r : Ref) (up : Callback), cb = .runGenerator r up ∧
    ∀ (id : MsgId) (n : Nat), up = .sendHandlerResult id n → ¬ AsksShutdown s n

/-- Only what a handler returned goes out as a result. -/
theorem sendHandlerResult_denies (env : Env T) (s : State T) (id : MsgId) (n : Nat)
    {c : Completion} (hc : ∀ v, c ≠ .finished (.returned v)) :
    Sends s (s.sendHandlerResult env id n c) n id (fun a => ∀ cls v, a ≠ .result cls v) := by
  have herror : ∀ (error : ResponseError) (a : Answer T), error.answer = some a →
      ∀ cls v, a ≠ .result cls v := by
    intro error a ha cls v heq
    obtain ⟨d, -, rfl⟩ := answer_error ha
    cases heq
  have hexc : ∀ (t : State T) (e : PyExc),
      Sends t (t.sendException env n id e) n id (fun a => ∀ cls v, a ≠ .result cls v) :=
    fun t e => (State.sendException_sends env t n id e).mono (herror _)
  have hcancelled : ∀ (t : State T) (error : ResponseError), t.futures = s.futures →
      t.received = s.received → t.sent = s.sent →
      Sends s (State.orSendException env n id (t.sendError env n id error)) n id
        (fun a => ∀ cls v, a ≠ .result cls v) := by
    intro t error hf hr hs
    unfold State.orSendException State.sendError
    rcases State.sendData_cases env t n id error.answer with ⟨he, h⟩ | ⟨he, -, h⟩
    · rw [he]
      have hsent := h.mono (herror error)
      exact ⟨hsent.futures.trans hf, hsent.received.trans hr, hs ▸ hsent.sent⟩
    · rw [he, h]
      have hsent := hexc { t with writes := t.writes + 1 } .brokenPipeError
      exact ⟨hsent.futures.trans hf, hsent.received.trans hr, hs ▸ hsent.sent⟩
  cases c with
  | cancelled => exact hcancelled (s.popFuture id) _ rfl rfl rfl
  | taskCancelled => exact hcancelled (s.popFuture id) _ rfl rfl rfl
  | finished o =>
    cases o with
    | returned v => exact absurd rfl (hc v)
    | raised e =>
      have hsent := hexc (s.popFuture id) e
      exact ⟨hsent.futures, hsent.received, hsent.sent⟩

theorem cancelOthers_raises {env : Env T} {th : Thread} {current : Option MsgId} {size : Nat}
    {entries : List (MsgId × Ref)} {s : State T} {e : PyExc}
    (h : (State.cancelOthers env th current size entries s).2 = some e) : e = .runtimeError := by
  induction entries generalizing s with
  | nil =>
    rw [State.cancelOthers] at h
    split at h
    · cases h
    · exact (Option.some.inj h).symm
  | cons entry rest ih =>
    rw [State.cancelOthers] at h
    split at h
    · exact ih h
    · exact (Option.some.inj h).symm

namespace Unconfirmed

variable {env : Env T} {s t : State T}

theorem congr (h : Unconfirmed s) (hf : t.futures = s.futures) (hr : t.received = s.received)
    (hs : t.sent = s.sent) : Unconfirmed t := by
  constructor
  · rw [hf, hr]
    exact h.bound
  · unfold AsksShutdown
    rw [hf, hr]
    exact h.generator
  · rw [hf]
    exact h.noStop
  · unfold AsksShutdown
    rw [hs, hr]
    exact h.sent

theorem modify (h : Unconfirmed s) (r : Ref) {g : Future → Future}
    (hk : ∀ f, (g f).handler = f.handler) (hcb : ∀ f, (g f).callback = f.callback)
    (ho : ∀ f o, (g f).state = .finished o → f.state = .finished o ∨ o.noStop = true) :
    Unconfirmed (s.modify r g) := by
  constructor
  · intro i f n hf hn
    obtain ⟨f₀, hf₀, ⟨-, rfl⟩ | ⟨-, rfl⟩⟩ := modify_cases hf
    · exact h.bound i f₀ n hf₀ (hcb f₀ ▸ hn)
    · exact h.bound i _ n hf₀ hn
  · intro i f id n hf hcallback hask
    obtain ⟨f₀, hf₀, ⟨-, rfl⟩ | ⟨-, rfl⟩⟩ := modify_cases hf
    · rw [hk f₀]
      exact h.generator i f₀ id n hf₀ (hcb f₀ ▸ hcallback) hask
    · exact h.generator i _ id n hf₀ hcallback hask
  · intro i f o hf hstate
    obtain ⟨f₀, hf₀, ⟨-, rfl⟩ | ⟨-, rfl⟩⟩ := modify_cases hf
    · rcases ho f₀ o hstate with hold | hnew
      · exact h.noStop i f₀ o hf₀ hold
      · exact hnew
    · exact h.noStop i _ o hf₀ hstate
  · exact h.sent

theorem leave (h : Unconfirmed s) (r : Ref) : Unconfirmed (s.leave r) :=
  h.modify r (fun _ => rfl) (fun _ => rfl) (fun _ _ hs => Or.inl hs)

theorem settle (h : Unconfirmed s) (r : Ref) {st : FutureState}
    (hst : ∀ o, st = .finished o → o.noStop = true) :
    Unconfirmed (s.modify r (Future.settle st)) :=
  h.modify r (fun _ => rfl) (fun _ => rfl) (fun _ o hs => Or.inr (hst o hs))

theorem sends (h : Unconfirmed s) {n : Nat} {id : MsgId} {P : Answer T → Prop}
    (hsend : Sends s t n id P)
    (hP : ∀ cls v, P (.result cls v) → n < s.received.length ∧ ¬ AsksShutdown s n) :
    Unconfirmed t := by
  have hcongr : Unconfirmed { t with sent := s.sent } :=
    h.congr hsend.futures hsend.received rfl
  refine ⟨hcongr.bound, hcongr.generator, hcongr.noStop, ?_⟩
  unfold AsksShutdown
  rw [hsend.received]
  intro m k cls v hm
  rcases hsend.sent with heq | ⟨a, ha, heq⟩
  · rw [heq] at hm
    exact h.sent m k cls v hm
  · rw [heq] at hm
    rcases List.mem_append.mp hm with hold | hnew
    · exact h.sent m k cls v hold
    · cases List.mem_singleton.mp hnew
      exact hP cls v ha

theorem answer (h : Unconfirmed s) {id : MsgId} {n : Nat} {c : Completion}
    (hc : Denies s (.sendHandlerResult id n) c) : Unconfirmed (s.sendHandlerResult env id n c) := by
  by_cases hres : ∃ v, c = .finished (.returned v)
  · obtain ⟨v, rfl⟩ := hres
    apply h.sends (State.sendHandlerResult_sends env s id n _)
    intro _ _ _
    exact ⟨hc.bound n rfl, hc.result v id n rfl rfl⟩
  · apply h.sends (sendHandlerResult_denies env s id n (fun v hv => hres ⟨v, hv⟩))
    intro cls v hv
    exact absurd rfl (hv cls v)

theorem setOutcome (h : Unconfirmed s) {r : Ref} {o : Outcome} (ho : o.noStop = true)
    (hs : s.setOutcome r o = some t) : Unconfirmed t ∧ t.received = s.received := by
  obtain ⟨f, -, -, rfl⟩ := setOutcome_eq_some hs
  refine ⟨h.settle r ?_, rfl⟩
  intro o' heq
  cases heq
  exact ho

theorem runCallback (h : Unconfirmed s) (th : Thread) {cb : Callback} {c : Completion}
    (hc : Denies s cb c) : Unconfirmed (State.runCallback env th cb c s) := by
  refine runCallback_rule (I := Unconfirmed) (R := Denies) ?_ ?_ ?_ cb c s h hc
  · intro s id n c h hc
    exact h.answer hc
  · intro s r up c v h _
    exact h.modify r (fun _ => rfl) (fun _ => rfl) (fun _ _ hs => Or.inl hs)
  · intro s t r up c e h hc hres hs
    obtain ⟨ht, hreceived⟩ := h.setOutcome (noStop_outcome e) hs
    refine ⟨ht, ?_, ?_, ?_⟩
    · rw [hreceived]
      exact hc.bound
    · intro o ho
      cases ho
      exact noStop_outcome e
    · intro v id n heq
      have hstop := hc.noStop _ hres
      cases e <;> cases heq
      cases hstop

theorem executeRaised (h : Unconfirmed s) (th : Thread) {cb : Callback} {e : PyExc}
    (he : DeniesRaised s cb e) : Unconfirmed (State.executeRaised env th cb e s) := by
  refine executeRaised_rule (I := Unconfirmed) (R := Denies) (P := DeniesRaised)
    ?_ ?_ ?_ ?_ cb e s h he
  · intro cb c s h hc
    exact h.runCallback th hc
  · intro s id n e h he
    apply h.sends (State.sendException_sends env s n id e)
    intro cls v hv
    obtain ⟨d, -, heq⟩ := answer_error hv
    cases heq
  · intro s t r up e h he hs
    obtain ⟨ht, hreceived⟩ := h.setOutcome (noStop_outcome e) hs
    refine ⟨ht, ?_, ?_, ?_⟩
    · rw [hreceived]
      exact he.bound
    · intro o ho
      cases ho
      exact noStop_outcome e
    · intro v id n heq hup
      have hreturned : e.outcome = .returned v := Completion.finished.inj heq
      unfold AsksShutdown
      rw [hreceived]
      rcases he.result with hraised | ⟨r', up', hcb, hdeny⟩
      · rw [hraised] at hreturned
        cases hreturned
      · cases hcb
        exact hdeny id n hup
  · intro s r up e h he hs hres
    exact ⟨he.bound, Or.inl rfl⟩

theorem alloc (h : Unconfirmed s) {f : Future}
    (hbound : ∀ n, requestOf f.callback = some n → n < s.received.length)
    (hgen : ∀ id n, f.callback = .sendHandlerResult id n → AsksShutdown s n →
      f.handler = some .generator)
    (hopen : ∀ o, f.state ≠ .finished o) : Unconfirmed (s.alloc f) := by
  constructor
  · intro r g n hg hn
    rcases State.getElem?_alloc hg with hold | ⟨-, rfl⟩
    · exact h.bound r g n hold hn
    · exact hbound n hn
  · intro r g id n hg hcb hask
    rcases State.getElem?_alloc hg with hold | ⟨-, rfl⟩
    · exact h.generator r g id n hold hcb hask
    · exact hgen id n hcb hask
  · intro r g o hg hstate
    rcases State.getElem?_alloc hg with hold | ⟨-, rfl⟩
    · exact h.noStop r g o hold hstate
    · exact absurd hstate (hopen o)
  · exact h.sent

theorem executeHandler (h : Unconfirmed s) (th : Thread) (id : MsgId) {kind : HandlerKind}
    {cb : Callback} {start : Start} (hstop : start.noStop = true)
    (hbound : ∀ n, requestOf cb = some n → n < s.received.length)
    (hgen : ∀ id n, cb = .sendHandlerResult id n → AsksShutdown s n → kind = .generator) :
    Unconfirmed (State.executeHandler env th id kind cb start s) := by
  have hraised : ∀ e, start = some e → DeniesRaised s cb e := by
    intro e he
    refine ⟨hbound, Or.inl ?_⟩
    cases e with
    | stopIteration v =>
      rw [he] at hstop
      cases hstop
    | _ => rfl
  have hnew : ∀ f : Future, f.callback = cb → f.handler = some kind →
      (∀ o, f.state ≠ .finished o) → Unconfirmed (s.alloc f) := by
    intro f hcb hk hopen
    apply h.alloc _ _ hopen
    · rw [hcb]
      exact hbound
    · rw [hcb, hk]
      intro id n heq hask
      exact congrArg some (hgen id n heq hask)
  have hpending : ∀ o, FutureState.pending ≠ .finished o :=
    fun o heq => FutureState.finished_ne_pending o heq.symm
  cases kind with
  | coroutine =>
    cases start with
    | some e => exact h.executeRaised th (hraised e rfl)
    | none =>
      cases th with
      | main => exact (hnew _ rfl rfl hpending).congr rfl rfl rfl
      | worker => exact h.executeRaised .worker ⟨hbound, Or.inl rfl⟩
  | thread =>
    cases start with
    | some e => exact h.executeRaised th (hraised e rfl)
    | none => exact (hnew _ rfl rfl hpending).congr rfl rfl rfl
  | generator => exact (hnew _ rfl rfl hpending).congr rfl rfl rfl
  | sync => exact hnew _ rfl rfl hpending

/-- A request that is handed over is not asked for by anything yet. -/
theorem receive (h : Unconfirmed s) (q : Request) (start : Start) :
    Unconfirmed { s with received := s.received ++ [(q, start)] } := by
  have hold : ∀ n, n < s.received.length →
      AsksShutdown { s with received := s.received ++ [(q, start)] } n → AsksShutdown s n := by
    rintro n hn ⟨q', hq', hmethod⟩
    dsimp only at hq'
    rw [List.getElem?_append_left hn] at hq'
    exact ⟨q', hq', hmethod⟩
  have hlength : ∀ n, n < s.received.length → n < (s.received ++ [(q, start)]).length := by
    intro n hn
    rw [List.length_append]
    omega
  constructor
  · intro r f n hf hn
    exact hlength n (h.bound r f n hf hn)
  · intro r f id n hf hcb hask
    have hn := h.bound r f n hf (by rw [hcb]; rfl)
    exact h.generator r f id n hf hcb (hold n hn hask)
  · exact h.noStop
  · intro n id cls v hm
    obtain ⟨hn, hno⟩ := h.sent n id cls v hm
    exact ⟨hlength n hn, fun hask => hno (hold n hn hask)⟩

theorem handleRequest (h : Unconfirmed s) (q : Request) {start : Start}
    (hstop : start.noStop = true) :
    Unconfirmed (s.handleRequest (builtin env) q start) := by
  have hr := h.receive q start
  simp only [State.handleRequest]
  split
  · apply hr.sends (State.sendException_sends _ _ _ _ _)
    intro cls v hv
    obtain ⟨d, -, heq⟩ := answer_error hv
    cases heq
  · rename_i kind hkind
    apply hr.executeHandler .main q.id hstop
    · intro n hn
      cases hn
      simp
    · intro id n hcb hask
      cases hcb
      obtain ⟨q', hq', hmethod⟩ := hask
      have hq : q = q'.1 := by
        rw [List.getElem?_concat_length] at hq'
        exact congrArg Prod.fst (Option.some.inj hq')
      rw [FeatureManager.getHandler, builtin, hq] at hkind
      simp only [hmethod, true_or, if_true, Option.some_or] at hkind
      exact (Option.some.inj hkind).symm

theorem cancel (h : Unconfirmed s) (th : Thread) (r : Ref) :
    Unconfirmed (State.cancel env th s r) := by
  unfold State.cancel
  split
  · exact h
  · rename_i f hf
    split
    · split
      · exact h.modify r (fun _ => rfl) (fun _ => rfl) (fun _ _ hs => Or.inl hs)
      · exact h
    · split
      · apply Unconfirmed.runCallback _ th
        · refine ⟨fun n hn => h.bound r f n hf hn, ?_, ?_⟩
          · intro o ho
            cases ho
            rfl
          · intro v id n heq
            cases heq
        · apply h.settle r
          intro o heq
          cases heq
      · exact h

theorem cancelOthers (h : Unconfirmed s) (th : Thread) (current : Option MsgId) (size : Nat)
    (entries : List (MsgId × Ref)) :
    Unconfirmed (State.cancelOthers env th current size entries s).1 := by
  induction entries generalizing s with
  | nil => exact h
  | cons entry rest ih =>
    rw [State.cancelOthers]
    split
    · apply ih
      split
      · exact h.cancel th entry.2
      · exact h
    · exact h

theorem handleResponse (h : Unconfirmed s) {id : MsgId} {o : Outcome} (ho : o.noStop = true)
    (hsep : ∀ r, s.requestFutures.get? id = some r → s.isShutdown r = false) :
    Unconfirmed (s.handleResponse env id o) := by
  simp only [State.handleResponse]
  split
  · exact h
  · rename_i r hr
    have hpop : Unconfirmed (s.popFuture id) := h.congr rfl rfl rfl
    split
    · exact hpop
    · rename_i f hf
      split
      · exact hpop
      · split
        · apply Unconfirmed.runCallback _ .main
          · refine ⟨fun n hn => h.bound r f n hf hn, ?_, ?_⟩
            · intro o' heq
              cases heq
              exact ho
            · intro v k n _ hcb hask
              have hshut : s.isShutdown r = true := isShutdown_of_asks hf hcb hask
              rw [hsep r hr] at hshut
              cases hshut
          · apply hpop.settle r
            intro o' heq
            cases heq
            exact ho
        · exact hpop

/-- A loop of `lsp_shutdown` that raises answers with an error. -/
theorem shutdownEnd (h : Unconfirmed s) {r : Ref} {f : Future} (th : Thread)
    (hf : s.futures[r]? = some f) (hflag : (s.shutdownEnd env r f.callback th).shutdown = false) :
    Unconfirmed (s.shutdownEnd env r f.callback th) := by
  have hloop : Unconfirmed (State.cancelOthers env th (f.callback.msgId th) s.requestFutures.size
      s.requestFutures.entries s).1 := h.cancelOthers th _ _ _
  have hskeleton := State.skeleton_cancelOthers env th (f.callback.msgId th) s.requestFutures.size
    s.requestFutures.entries s
  simp only [State.shutdownEnd] at hflag ⊢
  split
  · rename_i hnone
    rw [hnone] at hflag
    dsimp only at hflag
    rw [executeRaised_shutdown] at hflag
    cases hflag
  · rename_i e hraised
    apply (hloop.leave r).executeRaised th
    refine ⟨?_, Or.inl ?_⟩
    · intro n hn
      have hold : s.skeleton[r]? = some (f.handler, f.callback) := by
        rw [State.getElem?_skeleton, hf]
        rfl
      rw [← hskeleton, State.getElem?_skeleton] at hold
      obtain ⟨g, hg, heq⟩ := Option.map_eq_some_iff.mp hold
      exact hloop.bound r g n hg ((Prod.mk.inj heq).2 ▸ hn)
    · rw [cancelOthers_raises hraised]
      rfl

end Unconfirmed

/-- The peer does not answer its own shutdown request, and no handler raises `StopIteration`. -/
def Orderly (s : State T) : LanguageServer.Event → Prop
  | .shutdown _ => True
  | .protocol e => e.noStop = true ∧
    match e with
    | .response id _ => ∀ r, s.requestFutures.get? id = some r → s.isShutdown r = false
    | .errorResponse id _ => ∀ r, s.requestFutures.get? id = some r → s.isShutdown r = false
    | _ => True

namespace Unconfirmed

variable {env : Env T} {s t : State T}

theorem genEnd (h : Unconfirmed s) {r : Ref} {f : Future} (th : Thread) {e : PyExc}
    (hf : s.futures[r]? = some f) (he : e.outcome = .raised e ∨ s.isShutdown r = false) :
    Unconfirmed (State.executeRaised env th (.runGenerator r f.callback) e (s.leave r)) := by
  apply (h.leave r).executeRaised th
  refine ⟨fun n hn => h.bound r f n hf hn, ?_⟩
  rcases he with he | hown
  · exact Or.inl he
  · refine Or.inr ⟨r, f.callback, rfl, ?_⟩
    intro id n hcb hask
    have hshut : s.isShutdown r = true := isShutdown_of_asks hf hcb hask
    rw [hown] at hshut
    cases hshut

theorem deliver (h : Unconfirmed s) {r : Ref} {f : Future} (th : Thread) {c : Completion}
    (hf : s.futures[r]? = some f) (hk : f.handler = some .coroutine ∨ f.handler = some .thread)
    (hc : f.completion = some c) :
    Unconfirmed (State.runCallback env th f.callback c
      (s.modify r fun f => { f with called := true })) := by
  have hcalled : Unconfirmed (s.modify r fun f => { f with called := true }) :=
    h.modify r (fun _ => rfl) (fun _ => rfl) (fun _ _ hs => Or.inl hs)
  apply hcalled.runCallback th
  refine ⟨fun n hn => h.bound r f n hf hn, ?_, ?_⟩
  · intro o ho
    unfold Future.completion at hc
    split at hc
    · cases hc
    · cases hc
    · rename_i o' hstate
      cases hc
      cases ho
      exact h.noStop r f _ hf hstate
    · split at hc
      · cases hc
        cases ho
      · cases hc
        cases ho
        rfl
  · intro v id n _ hcb hask
    -- a shutdown request has a generator, whose future is not delivered
    have hgen := h.generator r f id n hf hcb hask
    rcases hk with hk | hk
    · rw [hk] at hgen
      cases hgen
    · rw [hk] at hgen
      cases hgen

theorem syncEnd (h : Unconfirmed s) {r : Ref} {f : Future} (th : Thread) {o : Outcome}
    (hf : s.futures[r]? = some f) (hk : f.handler = some .sync) (ho : o.noStop = true) :
    Unconfirmed (State.syncEnd env s r f.callback th o) := by
  have hl := h.leave r
  unfold State.syncEnd
  split
  · rename_i s' hs
    obtain ⟨ht, hreceived⟩ := hl.setOutcome ho hs
    apply ht.runCallback th
    refine ⟨?_, ?_, ?_⟩
    · rw [hreceived]
      exact fun n hn => h.bound r f n hf hn
    · intro o' heq
      cases heq
      exact ho
    · unfold AsksShutdown
      rw [hreceived]
      intro v id n _ hcb hask
      have hgen := h.generator r f id n hf hcb hask
      rw [hk] at hgen
      cases hgen
  · apply hl.executeRaised th
    exact ⟨fun n hn => h.bound r f n hf hn, Or.inl rfl⟩

theorem step (h : Unconfirmed s) {e : LanguageServer.Event} (ho : Orderly s e)
    (hend : ∀ r o, e = .protocol (.genEnd r o) → s.isShutdown r = false)
    (hs : LanguageServer.step (builtin env) s e = some t) (hflag : t.shutdown = false) :
    Unconfirmed t := by
  cases e with
  | shutdown r =>
    obtain ⟨f, id, n, th, hf, -, -, hcb, rfl⟩ := LanguageServer.shutdown_cases hs
    rw [← hcb] at hflag ⊢
    exact h.shutdownEnd th hf hflag
  | protocol e =>
    obtain ⟨hstop, hsep⟩ := ho
    cases step_cases hs with
    | ignored => exact h
    | request => exact h.handleRequest _ hstop
    | notification =>
      unfold State.handleNotification
      split
      · exact h
      · apply h.executeHandler .main _ hstop
        · intro n hn
          cases hn
        · intro id n hcb
          cases hcb
    | cancelRequest =>
      unfold State.handleCancelNotification
      split
      · exact h
      · apply Unconfirmed.cancel
        exact h.congr rfl rfl rfl
    | @response id result =>
      have hpop : Unconfirmed (s.popType id) := h.congr rfl rfl rfl
      simp only [State.receiveResult]
      split
      · exact hpop
      · split
        · exact hpop
        · exact hpop.handleResponse rfl hsep
    | errorResponse =>
      unfold State.receiveError
      split
      · exact h
      · split
        · exact h.handleResponse rfl hsep
        · exact h.handleResponse rfl hsep
    | @sendRequest id method params =>
      have halloc : Unconfirmed (s.alloc (.pending none .client)) := by
        apply h.alloc
        · intro n hn
          cases hn
        · intro id n hcb
          cases hcb
        · intro o heq
          cases heq
      have hfutures := State.sendRequest_futures (builtin env) s id method params
      have hreceived := State.sendRequest_received (builtin env) s id method params
      have hcongr : Unconfirmed { s.sendRequest (builtin env) id method params with
          sent := s.sent } := halloc.congr hfutures hreceived rfl
      refine ⟨hcongr.bound, hcongr.generator, hcongr.noStop, ?_⟩
      unfold AsksShutdown
      rw [hreceived]
      intro n k cls v hm
      exact h.sent n k cls v (State.mem_sent_sendRequest.mp hm)
    | cancelOutgoing => exact h.cancel .main _
    | syncEnd hf hk => exact h.syncEnd _ hf hk hstop
    | @genYield r f th uuid kind start hf hk hact =>
      apply (h.leave r).executeHandler th _ hstop
      · intro n hn
        exact h.bound r f n hf hn
      · intro id n hcb
        cases hcb
    | @genEnd r f th o hf hk hact =>
      exact h.genEnd th hf (Or.inr (hend r o rfl))
    | @taskEnd r f o hidle hall hf hk =>
      refine h.modify r (fun _ => rfl) (fun _ => rfl) ?_
      intro f o' hstate
      right
      cases o with
      | none => cases hstate
      | some o =>
        cases hstate
        exact hall
    | poolStart =>
      refine h.modify _ (fun _ => rfl) (fun _ => rfl) ?_
      intro f o heq
      cases heq
    | poolEnd =>
      refine h.modify _ (fun _ => rfl) (fun _ => rfl) ?_
      intro f o heq
      dsimp only at heq
      split at heq
      · cases heq
        exact Or.inr hstop
      · exact Or.inl heq
    | deliver hf hk _ hc => exact h.deliver _ hf hk hc

theorem init : Unconfirmed (State.init : State T) := by
  constructor
  · intro r f n hf
    simp [State.init] at hf
  · intro r f id n hf
    simp [State.init] at hf
  · intro r f o hf
    simp [State.init] at hf
  · intro n id cls v hm
    cases hm

end Unconfirmed

/-- What a step of the process can do to the protocol, the codes that wait and the end. -/
inductive Step (env : Env T) (transport : Transport) (p : Process T) :
    Event → Process T → Prop where
  | server {e : LanguageServer.Event} {s : State T} : p.ended = none → p.allows env e = true →
      LanguageServer.step (builtin env) p.protocol e = some s →
      Step env transport p (.server e) { p with protocol := s, exits := p.exits ++ p.newExit e }
  | exitEnd {r : Ref} {f : Future} {th : Thread} {start : Start} : p.ended = none →
      p.protocol.isShutdown r = false → start.noStop = true → p.protocol.futures[r]? = some f →
      Step env transport p (.exitEnd r start)
        (p.exitEnd (builtin env) transport r f.callback th start)
  | closed {k code : Nat} : p.ended = none → code ∈ p.closing →
      Step env transport p (.closed k) { p with ended := some (transport.ends code) }

theorem step_cases {env : Env T} {transport : Transport} {p q : Process T} {e : Event}
    (h : step env transport p e = some q) : Step env transport p e q := by
  unfold step at h
  split at h
  · cases h
  · rename_i hended
    have hnone : p.ended = none := by simpa using hended
    cases e with
    | server e =>
      dsimp only at h
      split at h
      · rename_i hallows
        obtain ⟨s, hs, rfl⟩ := Option.map_eq_some_iff.mp h
        exact .server hnone hallows hs
      · cases h
    | exitEnd r start =>
      dsimp only at h
      split at h
      · rename_i hexit
        obtain ⟨c, hc, rfl⟩ := Option.map_eq_some_iff.mp h
        obtain ⟨f, hf, -, -, hcb⟩ := running_eq_some hc
        have hown : p.protocol.isShutdown r = false := by
          cases hshut : p.protocol.isShutdown r with
          | false => rfl
          | true =>
            have hmethod := hexit.1
            rw [Process.method?, if_pos hshut] at hmethod
            exact absurd (Option.some.inj hmethod) shutdown_ne_exit
        rw [← hcb]
        exact .exitEnd hnone hown hexit.2.2 hf
      · cases h
    | closed k =>
      dsimp only at h
      split at h
      · obtain ⟨code, hcode, rfl⟩ := Option.map_eq_some_iff.mp h
        exact .closed hnone (List.mem_of_getElem? hcode)
      · cases h

/-- The end of `lsp_exit` hands nothing over, leaves the flag and takes its code from it. -/
structure Leaves (transport : Transport) (p q : Process T) : Prop where
  received : q.protocol.received = p.protocol.received
  shutdown : q.protocol.shutdown = p.protocol.shutdown
  closing : ∀ code ∈ q.closing, code ∈ p.closing ∨ code = p.returncode
  ended : q.ended = p.ended ∨ q.ended = some (transport.ends p.returncode)

theorem exitEnd_leaves (env : Env T) (transport : Transport) (p : Process T) (r : Ref)
    (cb : Callback) (th : Thread) (start : Start) :
    Leaves transport p (p.exitEnd env transport r cb th start) := by
  have hgen : ∀ e, Leaves transport p (p.genEnd env r cb th e) := by
    intro e
    refine ⟨?_, ?_, fun code hcode => Or.inl hcode, Or.inl rfl⟩
    · rw [Process.genEnd, executeRaised_received]
      rfl
    · rw [Process.genEnd, executeRaised_shutdown]
      rfl
  cases start with
  | some e => exact hgen e
  | none =>
    cases hlater : transport.closesLater with
    | true =>
      cases th with
      | main =>
        have h := hgen (.stopIteration .none)
        simp only [Process.exitEnd, hlater]
        refine ⟨h.received, h.shutdown, ?_, h.ended⟩
        intro code hcode
        rcases List.mem_append.mp hcode with hold | hnew
        · exact Or.inl hold
        · exact Or.inr (List.mem_singleton.mp hnew)
      | worker =>
        simp only [Process.exitEnd, hlater]
        exact hgen .runtimeError
    | false =>
      cases th with
      | main =>
        simp only [Process.exitEnd, hlater]
        exact ⟨rfl, rfl, fun code hcode => Or.inl hcode, Or.inr rfl⟩
      | worker =>
        simp only [Process.exitEnd, hlater]
        exact ⟨rfl, rfl, fun code hcode => Or.inl hcode, Or.inl rfl⟩

theorem exitEnd_unconfirmed {env : Env T} {transport : Transport} {p : Process T} {r : Ref}
    {f : Future} (h : Unconfirmed p.protocol) (hf : p.protocol.futures[r]? = some f)
    (hown : p.protocol.isShutdown r = false) (th : Thread) (start : Start) :
    Unconfirmed (p.exitEnd env transport r f.callback th start).protocol := by
  have hgen : ∀ th e, Unconfirmed (p.genEnd env r f.callback th e).protocol :=
    fun th e => h.genEnd th hf (Or.inr hown)
  cases start with
  | some e => exact hgen th e
  | none =>
    simp only [Process.exitEnd]
    split
    · exact hgen .main _
    · exact hgen .worker _
    · exact h.leave r
    · exact h.leave r

theorem cancelOthers_shutdown (env : Env T) (th : Thread) (current : Option MsgId) (size : Nat)
    (entries : List (MsgId × Ref)) (s : State T) :
    (State.cancelOthers env th current size entries s).1.shutdown = s.shutdown := by
  induction entries generalizing s with
  | nil => rfl
  | cons entry rest ih =>
    rw [State.cancelOthers]
    split
    · rw [ih]
      split
      · exact cancel_shutdown env th s entry.2
      · rfl
    · rfl

/-- The flag is set by the end of `lsp_shutdown`, and never reset. -/
theorem step_flag {env : Env T} {s t : State T} {e : LanguageServer.Event}
    (hs : LanguageServer.step env s e = some t) :
    t.shutdown = s.shutdown ∨ t.shutdown = true ∧ ∃ r, s.isShutdown r = true := by
  cases e with
  | protocol e => exact Or.inl (step_shutdown hs)
  | shutdown r =>
    have hown : s.isShutdown r = true := by
      by_contra hnot
      rw [LanguageServer.step, if_neg hnot] at hs
      cases hs
    obtain ⟨f, id, n, th, -, -, -, -, rfl⟩ := LanguageServer.shutdown_cases hs
    simp only [State.shutdownEnd]
    split
    · right
      rw [executeRaised_shutdown]
      exact ⟨rfl, r, hown⟩
    · left
      rw [executeRaised_shutdown]
      exact cancelOthers_shutdown env th _ _ _ s

theorem asks_mono {s t : State T} (h : s.received <+: t.received) {n : Nat}
    (hask : AsksShutdown s n) : AsksShutdown t n := by
  obtain ⟨q, hq, hmethod⟩ := hask
  obtain ⟨rest, hrest⟩ := h
  refine ⟨q, ?_, hmethod⟩
  obtain ⟨hn, -⟩ := List.getElem?_eq_some_iff.mp hq
  rw [← hrest, List.getElem?_append_left hn]
  exact hq

/-- What the peer and the handlers may do. -/
def Allowed (p : Process T) : Event → Prop
  | .server e => Orderly p.protocol e
  | .exitEnd _ _ => True
  | .closed _ => True

/-- A code other than 1 tells of a shutdown request. -/
def Explained (p : Process T) (code : Nat) : Prop := code = 1 ∨ ∃ n, AsksShutdown p.protocol n

/-- The flag says that a shutdown request has been served, and every code says what the flag
said. -/
structure Coded (p : Process T) : Prop where
  asked : p.protocol.shutdown = true → ∃ n, AsksShutdown p.protocol n
  closing : ∀ code ∈ p.closing, Explained p code
  ended : ∀ code, p.ended = some (.exited code) → Explained p code

theorem ends_exited {transport : Transport} {code n : Nat}
    (h : transport.ends code = .exited n) : n = code := by
  cases transport <;> cases h <;> rfl

namespace Coded

variable {env : Env T} {transport : Transport} {p q : Process T} {e : Event}

theorem init : Coded (Process.init : Process T) := by
  refine ⟨?_, ?_, ?_⟩
  · intro hflag
    cases hflag
  · intro code hcode
    cases hcode
  · intro code hcode
    cases hcode

theorem returncode (h : Coded p) : Explained p p.returncode := by
  unfold Process.returncode
  split
  · rename_i hflag
    exact Or.inr (h.asked hflag)
  · exact Or.inl rfl

theorem step (h : Coded p) (hs : Lifecycle.step env transport p e = some q) : Coded q := by
  cases step_cases hs with
  | @server e s hnone hallows hnext =>
    have hmono := received_mono hnext
    have hexplained : ∀ code, Explained p code →
        Explained { p with protocol := s, exits := p.exits ++ p.newExit e } code := by
      rintro code (hone | ⟨n, hask⟩)
      · exact Or.inl hone
      · exact Or.inr ⟨n, asks_mono hmono hask⟩
    refine ⟨?_, fun code hcode => hexplained code (h.closing code hcode), ?_⟩
    · intro hflag
      rcases step_flag hnext with heq | ⟨-, r, hown⟩
      · obtain ⟨n, hask⟩ := h.asked (heq.symm.trans hflag)
        exact ⟨n, asks_mono hmono hask⟩
      · obtain ⟨n, hask⟩ := asks_of_isShutdown hown
        exact ⟨n, asks_mono hmono hask⟩
    · intro code hcode
      exact hexplained code (h.ended code hcode)
  | @exitEnd r f th start hnone hown hstop hf =>
    obtain ⟨hreceived, hshutdown, hclosing, hended⟩ :=
      exitEnd_leaves (builtin env) transport p r f.callback th start
    have hasks : ∀ n, AsksShutdown p.protocol n → AsksShutdown
        (p.exitEnd (builtin env) transport r f.callback th start).protocol n := by
      intro n hask
      exact asks_mono ⟨[], by rw [List.append_nil, hreceived]⟩ hask
    have hexplained : ∀ code, Explained p code →
        Explained (p.exitEnd (builtin env) transport r f.callback th start) code := by
      rintro code (hone | ⟨n, hask⟩)
      · exact Or.inl hone
      · exact Or.inr ⟨n, hasks n hask⟩
    refine ⟨?_, ?_, ?_⟩
    · intro hflag
      rw [hshutdown] at hflag
      obtain ⟨n, hask⟩ := h.asked hflag
      exact ⟨n, hasks n hask⟩
    · intro code hcode
      rcases hclosing code hcode with hold | rfl
      · exact hexplained code (h.closing code hold)
      · exact hexplained _ h.returncode
    · intro code hcode
      rcases hended with heq | heq
      · rw [heq] at hcode
        exact hexplained code (h.ended code hcode)
      · rw [heq] at hcode
        rw [ends_exited (Option.some.inj hcode)]
        exact hexplained _ h.returncode
  | @closed k code hnone hmem =>
    refine ⟨h.asked, h.closing, ?_⟩
    intro n hn
    rw [ends_exited (Option.some.inj hn)]
    exact h.closing code hmem

end Coded

/-- Before `lsp_shutdown` has come to its end no shutdown request is answered with a result. -/
def Unserved (p : Process T) : Prop := p.protocol.shutdown = false → Unconfirmed p.protocol

theorem Unserved.step {env : Env T} {transport : Transport} {p q : Process T} {e : Event}
    (h : Unserved p) (hok : Allowed p e) (hs : Lifecycle.step env transport p e = some q) :
    Unserved q := by
  cases step_cases hs with
  | @server e s hnone hallows hnext =>
    intro hflag
    have hold : p.protocol.shutdown = false := by
      rcases step_flag hnext with heq | ⟨hset, -⟩
      · exact heq.symm.trans hflag
      · rw [hset] at hflag
        cases hflag
    apply (h hold).step hok _ hnext hflag
    rintro r o rfl
    have hmethod : p.method? r = none := Option.isNone_iff_eq_none.mp hallows
    cases hshut : p.protocol.isShutdown r with
    | false => rfl
    | true =>
      rw [Process.method?, if_pos hshut] at hmethod
      cases hmethod
  | @exitEnd r f th start hnone hown hstop hf =>
    obtain ⟨-, hshutdown, -, -⟩ :=
      exitEnd_leaves (builtin env) transport p r f.callback th start
    intro hflag
    rw [hshutdown] at hflag
    exact exitEnd_unconfirmed (h hflag) hf hown th start
  | closed => exact h

theorem unserved_of_run {env : Env T} {transport : Transport} {events : List Event}
    {p : Process T} (hok : Meets (step env transport) Allowed Process.init events)
    (hrun : run (step env transport) Process.init events = some p) : Unserved p := by
  refine run_invariant (I := Unserved) ?_ (fun _ => Unconfirmed.init) hok hrun
  intro p e q h hok hs
  exact h.step hok hs

/-- A shutdown request has been answered with a result. -/
def Process.Confirmed (p : Process T) : Prop :=
  ∃ (n : Nat) (id : MsgId) (cls : Option T) (v : Json),
    .response n id (.result cls v) ∈ p.protocol.sent ∧ AsksShutdown p.protocol n

/-- Nothing is handed over any more, and a code that was not there before is 0. -/
structure Final (p q : Process T) : Prop where
  shutdown : q.protocol.shutdown = true
  received : q.protocol.received = p.protocol.received
  closing : ∀ code ∈ q.closing, code ∈ p.closing ∨ code = 0
  ended : ∀ code, q.ended = some (.exited code) → code ∈ p.closing ∨ code = 0

theorem Final.step {env : Env T} {transport : Transport} {p₀ p q : Process T} {e : Event}
    (h : Final p₀ p) (hs : Lifecycle.step env transport p e = some q) : Final p₀ q := by
  have hcode : p.returncode = 0 := if_pos h.shutdown
  cases step_cases hs with
  | @server e s hnone hallows hnext =>
    refine ⟨?_, ?_, h.closing, h.ended⟩
    · rcases step_flag hnext with heq | ⟨hset, -⟩
      · exact heq.trans h.shutdown
      · exact hset
    · rcases step_received hnext with heq | ⟨r, start, rfl, hup, -⟩
      · exact heq.trans h.received
      · have hmethod : r.method ≠ exitMethod := of_decide_eq_true hallows
        simp [State.refuses, h.shutdown, hmethod] at hup
  | @exitEnd r f th start =>
    obtain ⟨hreceived, hshutdown, hclosing, hended⟩ :=
      exitEnd_leaves (builtin env) transport p r f.callback th start
    refine ⟨hshutdown.trans h.shutdown, hreceived.trans h.received, ?_, ?_⟩
    · intro code hmem
      rcases hclosing code hmem with hold | rfl
      · exact h.closing code hold
      · exact Or.inr hcode
    · intro code hexit
      rcases hended with heq | heq
      · rw [heq] at hexit
        exact h.ended code hexit
      · rw [heq] at hexit
        exact Or.inr ((ends_exited (Option.some.inj hexit)).trans hcode)
  | @closed k code _ hmem =>
    refine ⟨h.shutdown, h.received, h.closing, ?_⟩
    intro n hn
    rw [ends_exited (Option.some.inj hn)]
    exact h.closing code hmem

/-- Once a shutdown request has been answered with a result, no request reaches a handler any
more, and the process exits with 0, unless an earlier exit still waits for the writer. -/
theorem confirmed_shutdown_is_final {env : Env T} {transport : Transport}
    {before after : List Event} {p q : Process T}
    (hok : Meets (step env transport) Allowed Process.init before)
    (hbefore : run (step env transport) Process.init before = some p)
    (hconfirmed : p.Confirmed) (hrunning : p.ended = none)
    (hafter : run (step env transport) p after = some q) :
    q.protocol.received = p.protocol.received ∧
      ∀ code, q.ended = some (.exited code) → code ∈ p.closing ∨ code = 0 := by
  have hunserved := unserved_of_run hok hbefore
  have hflag : p.protocol.shutdown = true := by
    by_contra hnot
    obtain ⟨n, id, cls, v, hsent, hask⟩ := hconfirmed
    have hun := hunserved (eq_false_of_ne_true hnot)
    exact (hun.sent n id cls v hsent).2 hask
  have hfirst : Final p p := by
    refine ⟨hflag, rfl, fun code hcode => Or.inl hcode, ?_⟩
    intro code hexit
    rw [hrunning] at hexit
    cases hexit
  have hfinal : Final p q := by
    refine run_invariant (I := Final p) ?_ hfirst (meets_true _ p after) hafter
    intro r e t h _ hs
    exact h.step hs
  exact ⟨hfinal.received, hfinal.ended⟩

/-- The session as it should be, over TCP. -/
theorem confirmed_shutdown_is_final_tcp :
    ∃ p q : Process Unit,
      run (step sampleEnv .tcp) Process.init
        [.server (.protocol (.request ⟨.int 1, shutdownMethod, .null⟩ none)),
          .server (.shutdown 0)] = some p ∧
      run (step sampleEnv .tcp) p
        [.server (.protocol (.request ⟨.int 2, [], .null⟩ none)),
          .server (.protocol (.notification exitMethod [] none)), .exitEnd 1 none] = some q ∧
      q.ended = some (.exited 0) ∧ q.protocol.received.length = 1 := by
  obtain ⟨p, hbefore, hclosing, hrunning, hreceived, hconfirmed, q, hafter, code, hexit⟩ :
      ∃ p : Process Unit,
        run (step sampleEnv .tcp) Process.init
          [.server (.protocol (.request ⟨.int 1, shutdownMethod, .null⟩ none)),
            .server (.shutdown 0)] = some p ∧
        p.closing = [] ∧ p.ended = none ∧
        p.protocol.received = [(⟨.int 1, shutdownMethod, .null⟩, none)] ∧
        Message.response 0 (.int 1) (.result none .null) ∈ p.protocol.sent ∧
        ∃ q, run (step sampleEnv .tcp) p
          [.server (.protocol (.request ⟨.int 2, [], .null⟩ none)),
            .server (.protocol (.notification exitMethod [] none)), .exitEnd 1 none] = some q ∧
        ∃ code, q.ended = some (.exited code) := by
    with_unfolding_all
      exact ⟨_, rfl, rfl, rfl, rfl, List.mem_singleton_self _, _, rfl, _, rfl⟩
  have hok : Meets (step sampleEnv .tcp) Allowed Process.init
      [.server (.protocol (.request ⟨.int 1, shutdownMethod, .null⟩ none)),
        .server (.shutdown 0)] :=
    ⟨⟨rfl, trivial⟩, fun _ _ => ⟨trivial, fun _ _ => trivial⟩⟩
  have hasked : AsksShutdown p.protocol 0 :=
    ⟨_, by rw [hreceived]; rfl, rfl⟩
  obtain ⟨hsame, hcode⟩ := confirmed_shutdown_is_final hok hbefore
    ⟨0, _, _, _, hconfirmed, hasked⟩ hrunning hafter
  refine ⟨p, q, hbefore, hafter, ?_, ?_⟩
  · rcases hcode code hexit with hmem | hzero
    · rw [hclosing] at hmem
      cases hmem
    · rw [hexit, hzero]
  · rw [hsame, hreceived]
    rfl

section Exiting

variable (env : Env T) (transport : Transport) {p : Process T} (uuid : Str)

end Exiting

end Pygls.Lifecycle
