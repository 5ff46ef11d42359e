import Pygls.Protocol

/-!
# The callback discipline

What holds in every reachable state of the protocol, whatever the peer and the
handlers do: a future's callback runs at most once, a generator is resumed only
through the future of the handler it yielded to, and an exception reaches
`_handle_request` only while its request has no answer. It follows that a
request is answered at most once.
-/

namespace Pygls

set_option autoImplicit false

variable {T : Type}

namespace State

theorem getElem?_modify (s : State T) (r i : Ref) (g : Future → Future) :
    (s.modify r g).futures[i]? = if r = i then s.futures[i]?.map g else s.futures[i]? := by
  simp only [modify, List.getElem?_modify]
  split <;> simp

theorem getElem?_modify_ne {s : State T} {r i : Ref} {g : Future → Future} (h : i ≠ r) :
    (s.modify r g).futures[i]? = s.futures[i]? := by
  rw [getElem?_modify, if_neg (Ne.symm h)]

theorem getElem?_modify_self {s : State T} {r : Ref} {g : Future → Future} {f : Future}
    (h : s.futures[r]? = some f) : (s.modify r g).futures[r]? = some (g f) := by
  simp [getElem?_modify, h]

theorem getElem?_alloc {s : State T} {f g : Future} {i : Ref}
    (h : (s.alloc g).futures[i]? = some f) :
    s.futures[i]? = some f ∨ (i = s.fresh ∧ f = g) := by
  rcases Nat.lt_or_ge i s.futures.length with hi | hi
  · left
    rwa [alloc, List.getElem?_append_left hi] at h
  · right
    rw [alloc, List.getElem?_append_right hi] at h
    obtain ⟨hlt, hg⟩ := List.getElem?_eq_some_iff.mp h
    have hle : i ≤ s.futures.length := Nat.sub_eq_zero_iff_le.mp (Nat.lt_one_iff.mp hlt)
    exact ⟨Nat.le_antisymm hle hi, by simpa using hg.symm⟩

end State

/-- What an answering function may have changed: at most one answer was written, to the
request `n`, and it satisfies `P`. -/
structure Sends (s t : State T) (n : Nat) (id : MsgId) (P : Answer T → Prop) : Prop where
  futures : t.futures = s.futures
  received : t.received = s.received
  sent : t.sent = s.sent ∨ ∃ a, P a ∧ t.sent = s.sent ++ [.response n id a]

/-- A pipe that has broken stays so. -/
def Env.BrokenStays (env : Env T) : Prop :=
  ∀ n, env.write n = .brokenPipe → env.write (n + 1) = .brokenPipe

/-- The answer that the completion of a request's future calls for. -/
def Fits (env : Env T) (id : MsgId) : Completion → Answer T → Prop
  | .finished (.returned v), a => env.answer none v = some a
  | .finished (.raised e), a => (e.toResponseError env.traceback).answer = some a
  | .cancelled, a => (requestCancelled id).toResponseError.answer = some a
  | .taskCancelled, a => (requestCancelled id).toResponseError.answer = some a

namespace State

/-- Sending changes the log of what was sent and the number of writes, and nothing else. -/
theorem sendData_frame (env : Env T) (s : State T) (m : Option (Message T)) :
    ∃ sent writes, (s.sendData env m).1 = { s with sent := sent, writes := writes } := by
  cases m with
  | none => exact ⟨s.sent, s.writes, rfl⟩
  | some m =>
    unfold sendData
    cases env.write s.writes <;> exact ⟨_, _, rfl⟩

@[simp] theorem sendData_futures (env : Env T) (s : State T) (m : Option (Message T)) :
    (s.sendData env m).1.futures = s.futures := by
  obtain ⟨sent, writes, h⟩ := sendData_frame env s m
  rw [h]

@[simp] theorem sendData_requestFutures (env : Env T) (s : State T) (m : Option (Message T)) :
    (s.sendData env m).1.requestFutures = s.requestFutures := by
  obtain ⟨sent, writes, h⟩ := sendData_frame env s m
  rw [h]

@[simp] theorem sendData_resultTypes (env : Env T) (s : State T) (m : Option (Message T)) :
    (s.sendData env m).1.resultTypes = s.resultTypes := by
  obtain ⟨sent, writes, h⟩ := sendData_frame env s m
  rw [h]

@[simp] theorem sendData_received (env : Env T) (s : State T) (m : Option (Message T)) :
    (s.sendData env m).1.received = s.received := by
  obtain ⟨sent, writes, h⟩ := sendData_frame env s m
  rw [h]

@[simp] theorem sendData_shutdown (env : Env T) (s : State T) (m : Option (Message T)) :
    (s.sendData env m).1.shutdown = s.shutdown := by
  obtain ⟨sent, writes, h⟩ := sendData_frame env s m
  rw [h]

theorem sendData_sent (env : Env T) (s : State T) (m : Option (Message T)) :
    (s.sendData env m).1.sent = s.sent ∨
      ∃ x, m = some x ∧ (s.sendData env m).1.sent = s.sent ++ [x] := by
  cases m with
  | none => exact Or.inl rfl
  | some m =>
    unfold sendData
    cases env.write s.writes with
    | accepted => exact Or.inr ⟨m, rfl, rfl⟩
    | refused => exact Or.inl rfl
    | brokenPipe => exact Or.inl rfl

theorem sendRequest_futures (env : Env T) (s : State T) (id : MsgId) (method : Method)
    (params : PyValue) :
    (s.sendRequest env id method params).futures = s.futures ++ [.pending none .client] := by
  simp [sendRequest, register, alloc]

theorem sendRequest_requestFutures (env : Env T) (s : State T) (id : MsgId) (method : Method)
    (params : PyValue) :
    (s.sendRequest env id method params).requestFutures = s.requestFutures.set id s.fresh := by
  simp [sendRequest, register, alloc]

theorem sendRequest_resultTypes (env : Env T) (s : State T) (id : MsgId) (method : Method)
    (params : PyValue) :
    (s.sendRequest env id method params).resultTypes =
      s.resultTypes.set id (env.getResultType method) := by
  simp [sendRequest, register, alloc]

theorem sendRequest_received (env : Env T) (s : State T) (id : MsgId) (method : Method)
    (params : PyValue) : (s.sendRequest env id method params).received = s.received := by
  simp [sendRequest, register, alloc]

/-- An outgoing request is announced, if at all, under its id. -/
theorem sendRequest_sent (env : Env T) (s : State T) (id : MsgId) (method : Method)
    (params : PyValue) :
    (s.sendRequest env id method params).sent = s.sent ∨
      ∃ p, (s.sendRequest env id method params).sent = s.sent ++ [.request ⟨id, method, p⟩] := by
  unfold sendRequest
  rcases sendData_sent env { (s.alloc (.pending none .client)).register id s.fresh with
      resultTypes := s.resultTypes.set id (env.getResultType method) }
    ((Json.toJson params).map fun p => .request ⟨id, method, p⟩) with h | ⟨m, hm, h⟩
  · exact Or.inl h
  · obtain ⟨p, -, rfl⟩ := Option.map_eq_some_iff.mp hm
    exact Or.inr ⟨p, h⟩

theorem mem_sent_sendRequest {env : Env T} {s : State T} {id : MsgId} {method : Method}
    {params : PyValue} {n : Nat} {k : MsgId} {a : Answer T} :
    .response n k a ∈ (s.sendRequest env id method params).sent ↔ .response n k a ∈ s.sent := by
  rcases sendRequest_sent env s id method params with h | ⟨p, h⟩
  · rw [h]
  · rw [h]
    simp

/-- A write that raises has written nothing. -/
theorem sendData_cases (env : Env T) (s : State T) (n : Nat) (id : MsgId) (a : Option (Answer T)) :
    ((s.sendData env (a.map (.response n id))).2 = none ∧
      Sends s (s.sendData env (a.map (.response n id))).1 n id (fun b => a = some b)) ∨
    ((s.sendData env (a.map (.response n id))).2 = some .brokenPipeError ∧
      env.write s.writes = .brokenPipe ∧
      (s.sendData env (a.map (.response n id))).1 = { s with writes := s.writes + 1 }) := by
  cases a with
  | none => exact Or.inl ⟨rfl, rfl, rfl, Or.inl rfl⟩
  | some a =>
    simp only [Option.map_some, sendData]
    cases h : env.write s.writes with
    | accepted => exact Or.inl ⟨rfl, rfl, rfl, Or.inr ⟨a, rfl, rfl⟩⟩
    | refused => exact Or.inl ⟨rfl, rfl, rfl, Or.inl rfl⟩
    | brokenPipe => exact Or.inr ⟨rfl, rfl, rfl⟩

end State

theorem Sends.mono {s t : State T} {n : Nat} {id : MsgId} {P Q : Answer T → Prop}
    (h : Sends s t n id P) (hPQ : ∀ a, P a → Q a) : Sends s t n id Q := by
  refine ⟨h.futures, h.received, ?_⟩
  rcases h.sent with hs | ⟨a, ha, hs⟩
  · exact Or.inl hs
  · exact Or.inr ⟨a, hPQ a ha, hs⟩

namespace State

theorem sendException_sends (env : Env T) (s : State T) (n : Nat) (id : MsgId) (e : PyExc) :
    Sends s (s.sendException env n id e) n id
      (fun a => (e.toResponseError env.traceback).answer = some a) := by
  rcases sendData_cases env s n id (e.toResponseError env.traceback).answer with ⟨-, h⟩ | ⟨-, -, h⟩
  · exact h
  · unfold sendException sendError
    rw [h]
    exact ⟨rfl, rfl, Or.inl rfl⟩

/-- The retry after a broken pipe meets a broken pipe again. -/
theorem sendException_broken {env : Env T} {s : State T} (n : Nat) (id : MsgId) (e : PyExc)
    (h : env.write s.writes = .brokenPipe) : (s.sendException env n id e).sent = s.sent := by
  unfold sendException sendError
  cases (e.toResponseError env.traceback).answer with
  | none => rfl
  | some a => simp only [Option.map_some, sendData, h]

theorem orSendException_raised (env : Env T) (s : State T) (n : Nat) (id : MsgId) (e : PyExc) :
    orSendException env n id (s, some e) = s.sendException env n id e := rfl

theorem orSendException_sends (env : Env T) (s : State T) (n : Nat) (id : MsgId)
    (a : Option (Answer T)) :
    Sends s (orSendException env n id (s.sendData env (a.map (.response n id)))) n id
      (fun b => env.BrokenStays → a = some b) := by
  unfold orSendException
  rcases sendData_cases env s n id a with ⟨he, h⟩ | ⟨he, hw, h⟩
  · rw [he]
    exact h.mono fun b hb _ => hb
  · rw [he, h]
    have hs := sendException_sends env { s with writes := s.writes + 1 } n id .brokenPipeError
    refine ⟨hs.futures, hs.received, ?_⟩
    rcases hs.sent with hsent | ⟨b, -, hsent⟩
    · exact Or.inl hsent
    · refine Or.inr ⟨b, fun hstays => ?_, hsent⟩
      have := sendException_broken (s := { s with writes := s.writes + 1 }) n id .brokenPipeError
        (hstays s.writes hw)
      rw [hsent] at this
      simp at this

/-- One answer at most; and the one that fits, unless a response class is registered under
the request's id. -/
theorem sendHandlerResult_sends (env : Env T) (s : State T) (id : MsgId) (n : Nat)
    (c : Completion) :
    Sends s (s.sendHandlerResult env id n c) n id
      (fun a => env.BrokenStays → s.resultTypes.get? id = none → Fits env id c a) := by
  cases c with
  | cancelled =>
    have h := orSendException_sends env (s.popFuture id) n id
      (requestCancelled id).toResponseError.answer
    rw [sendHandlerResult, sendError]
    exact Sends.mono ⟨h.futures, h.received, h.sent⟩ fun a ha hw _ => ha hw
  | taskCancelled =>
    have h := orSendException_sends env (s.popFuture id) n id
      (requestCancelled id).toResponseError.answer
    rw [sendHandlerResult, sendError]
    exact Sends.mono ⟨h.futures, h.received, h.sent⟩ fun a ha hw _ => ha hw
  | finished o =>
    cases o with
    | raised e =>
      have h := sendException_sends env (s.popFuture id) n id e
      rw [sendHandlerResult]
      exact Sends.mono ⟨h.futures, h.received, h.sent⟩ fun a ha _ _ => ha
    | returned v =>
      have htypes : (s.popFuture id).resultTypes = s.resultTypes := rfl
      rw [sendHandlerResult, sendResult, htypes]
      cases ht : s.resultTypes.get? id with
      | none =>
        have h := orSendException_sends env ((s.popFuture id).popType id) n id (env.answer none v)
        exact Sends.mono ⟨h.futures, h.received, h.sent⟩ fun a ha hw _ => ha hw
      | some cls =>
        cases cls with
        | none =>
          have h := sendException_sends env ((s.popFuture id).popType id) n id .typeError
          rw [orSendException_raised]
          exact Sends.mono ⟨h.futures, h.received, h.sent⟩ fun a _ _ hn => nomatch hn
        | some t =>
          have h := orSendException_sends env ((s.popFuture id).popType id) n id
            (env.answer (some t) v)
          exact Sends.mono ⟨h.futures, h.received, h.sent⟩ fun a _ _ hn => nomatch hn

end State

theorem sendException_resultTypes (env : Env T) (s : State T) (n : Nat) (id : MsgId) (x : PyExc) :
    (s.sendException env n id x).resultTypes = s.resultTypes :=
  State.sendData_resultTypes env s _

theorem orSendException_resultTypes (env : Env T) (n : Nat) (id : MsgId)
    (r : State T × Option PyExc) :
    (State.orSendException env n id r).resultTypes = r.1.resultTypes := by
  unfold State.orSendException
  split
  · rfl
  · exact sendException_resultTypes env _ n id _

theorem sendHandlerResult_resultTypes (env : Env T) (s : State T) (id : MsgId) (n : Nat)
    (c : Completion) :
    (s.sendHandlerResult env id n c).resultTypes =
      match c with
      | .finished (.returned _) => s.resultTypes.pop id
      | _ => s.resultTypes := by
  cases c with
  | cancelled =>
    rw [State.sendHandlerResult, orSendException_resultTypes, State.sendError, State.sendData_resultTypes]
    rfl
  | taskCancelled =>
    rw [State.sendHandlerResult, orSendException_resultTypes, State.sendError, State.sendData_resultTypes]
    rfl
  | finished o =>
    cases o with
    | raised x =>
      rw [State.sendHandlerResult, sendException_resultTypes]
      rfl
    | returned v =>
      rw [State.sendHandlerResult, orSendException_resultTypes, State.sendResult]
      split
      · rfl
      · rw [State.sendData_resultTypes]
        rfl
      · rw [State.sendData_resultTypes]
        rfl

theorem sendException_requestFutures (env : Env T) (s : State T) (n : Nat) (id : MsgId)
    (x : PyExc) : (s.sendException env n id x).requestFutures = s.requestFutures :=
  State.sendData_requestFutures env s _

theorem orSendException_requestFutures (env : Env T) (n : Nat) (id : MsgId)
    (r : State T × Option PyExc) :
    (State.orSendException env n id r).requestFutures = r.1.requestFutures := by
  unfold State.orSendException
  split
  · rfl
  · exact sendException_requestFutures env _ n id _

theorem sendHandlerResult_requestFutures (env : Env T) (s : State T) (id : MsgId) (n : Nat)
    (c : Completion) :
    (s.sendHandlerResult env id n c).requestFutures = s.requestFutures.pop id := by
  cases c with
  | cancelled =>
    rw [State.sendHandlerResult, orSendException_requestFutures, State.sendError,
      State.sendData_requestFutures]
    rfl
  | taskCancelled =>
    rw [State.sendHandlerResult, orSendException_requestFutures, State.sendError,
      State.sendData_requestFutures]
    rfl
  | finished o =>
    cases o with
    | raised x =>
      rw [State.sendHandlerResult, sendException_requestFutures]
      rfl
    | returned v =>
      rw [State.sendHandlerResult, orSendException_requestFutures, State.sendResult]
      split
      · rfl
      · rw [State.sendData_requestFutures]
        rfl
      · rw [State.sendData_requestFutures]
        rfl

/-- To show what a callback leads to: `R` is what is known when it is called. -/
theorem runCallback_ind {env : Env T} {th : Thread} {I : State T → Prop}
    {R : State T → Callback → Completion → Prop}
    (answer : ∀ (s : State T) (id : MsgId) (n : Nat) (c : Completion),
      R s (.sendHandlerResult id n) c → I (s.sendHandlerResult env id n c))
    (check : ∀ (s : State T) (c : Completion), R s .checkHandlerResult c → I s)
    (client : ∀ (s : State T) (c : Completion), R s .client c → I s)
    (drop : ∀ (s : State T) (r : Ref) (up : Callback) (c : Completion), R s (.runGenerator r up) c →
      s.cancelled r = true → I s)
    (lost : ∀ (s : State T) (r : Ref) (up : Callback) (c : Completion), R s (.runGenerator r up) c →
      s.cancelled r = false → c.result = none → I s)
    (resume : ∀ (s : State T) (r : Ref) (up : Callback) (c : Completion) (v : PyValue),
      R s (.runGenerator r up) c → s.cancelled r = false → c.result = some (.returned v) →
      I (s.resume r th v))
    (invalid : ∀ (s : State T) (r : Ref) (up : Callback) (c : Completion) (e : PyExc),
      R s (.runGenerator r up) c → s.cancelled r = false → c.result = some (.raised e) →
      s.setOutcome r e.outcome = none → I s)
    (fail : ∀ (s s' : State T) (r : Ref) (up : Callback) (c : Completion) (e : PyExc),
      R s (.runGenerator r up) c → s.cancelled r = false → c.result = some (.raised e) →
      s.setOutcome r e.outcome = some s' → R s' up (.finished e.outcome))
    (cb : Callback) (c : Completion) (s : State T) (hR : R s cb c) :
    I (State.runCallback env th cb c s) := by
  induction cb generalizing c s with
  | sendHandlerResult id n => exact answer s id n c hR
  | checkHandlerResult => exact check s c hR
  | client => exact client s c hR
  | runGenerator r up ih =>
    rw [State.runCallback]
    split
    · rename_i hc
      exact drop s r up c hR hc
    · rename_i hc
      have hlive : s.cancelled r = false := by simpa using hc
      split
      · rename_i v hv
        exact resume s r up c v hR hlive hv
      · rename_i e he
        split
        · rename_i s' hs'
          exact ih _ s' (fail s s' r up c e hR hlive he hs')
        · rename_i hnone
          exact invalid s r up c e hR hlive he hnone
      · rename_i hnone
        exact lost s r up c hR hlive hnone

/-- The same for an exception that leaves `_execute_handler`; `P` is what is known of its
caller. -/
theorem executeRaised_ind {env : Env T} {th : Thread} {I : State T → Prop}
    {R : State T → Callback → Completion → Prop} {P : State T → Callback → PyExc → Prop}
    (callback : ∀ (cb : Callback) (c : Completion) (s : State T), R s cb c →
      I (State.runCallback env th cb c s))
    (answer : ∀ (s : State T) (id : MsgId) (n : Nat) (e : PyExc), P s (.sendHandlerResult id n) e →
      I (s.sendException env n id e))
    (check : ∀ (s : State T) (e : PyExc), P s .checkHandlerResult e → I s)
    (client : ∀ (s : State T) (e : PyExc), P s .client e → I s)
    (fail : ∀ (s s' : State T) (r : Ref) (up : Callback) (e : PyExc), P s (.runGenerator r up) e →
      s.setOutcome r e.outcome = some s' → R s' up (.finished e.outcome))
    (swallowed : ∀ (s : State T) (r : Ref) (up : Callback) (e : PyExc), P s (.runGenerator r up) e →
      s.setOutcome r e.outcome = none → s.wasResumed r = true → I s)
    (climb : ∀ (s : State T) (r : Ref) (up : Callback) (e : PyExc), P s (.runGenerator r up) e →
      s.setOutcome r e.outcome = none → s.wasResumed r = false → P s up .invalidStateError)
    (cb : Callback) (e : PyExc) (s : State T) (hP : P s cb e) :
    I (State.executeRaised env th cb e s) := by
  induction cb generalizing e s with
  | sendHandlerResult id n => exact answer s id n e hP
  | checkHandlerResult => exact check s e hP
  | client => exact client s e hP
  | runGenerator r up ih =>
    rw [State.executeRaised]
    split
    · rename_i s' hs'
      exact callback up _ s' (fail s s' r up e hP hs')
    · rename_i hnone
      split
      · rename_i hres
        exact swallowed s r up e hP hnone hres
      · rename_i hres
        exact ih _ s (climb s r up e hP hnone (by simpa using hres))

/-- A property that holds before the callback is kept where nothing happens. -/
theorem runCallback_rule {env : Env T} {th : Thread} {I : State T → Prop}
    {R : State T → Callback → Completion → Prop}
    (answer : ∀ (s : State T) (id : MsgId) (n : Nat) (c : Completion), I s →
      R s (.sendHandlerResult id n) c → I (s.sendHandlerResult env id n c))
    (resume : ∀ (s : State T) (r : Ref) (up : Callback) (c : Completion) (v : PyValue), I s →
      R s (.runGenerator r up) c → I (s.resume r th v))
    (fail : ∀ (s s' : State T) (r : Ref) (up : Callback) (c : Completion) (e : PyExc), I s →
      R s (.runGenerator r up) c → c.result = some (.raised e) →
      s.setOutcome r e.outcome = some s' → I s' ∧ R s' up (.finished e.outcome))
    (cb : Callback) (c : Completion) (s : State T) (hI : I s) (hR : R s cb c) :
    I (State.runCallback env th cb c s) := by
  refine runCallback_ind (R := fun s cb c => I s ∧ R s cb c) ?_ ?_ ?_ ?_ ?_ ?_ ?_ ?_ cb c s ⟨hI, hR⟩
  · intro s id n c h
    exact answer s id n c h.1 h.2
  · intro s c h
    exact h.1
  · intro s c h
    exact h.1
  · intro s r up c h _
    exact h.1
  · intro s r up c h _ _
    exact h.1
  · intro s r up c v h _ _
    exact resume s r up c v h.1 h.2
  · intro s r up c e h _ _ _
    exact h.1
  · intro s s' r up c e h _ he hs
    exact fail s s' r up c e h.1 h.2 he hs

theorem executeRaised_rule {env : Env T} {th : Thread} {I : State T → Prop}
    {R : State T → Callback → Completion → Prop} {P : State T → Callback → PyExc → Prop}
    (callback : ∀ (cb : Callback) (c : Completion) (s : State T), I s → R s cb c →
      I (State.runCallback env th cb c s))
    (answer : ∀ (s : State T) (id : MsgId) (n : Nat) (e : PyExc), I s →
      P s (.sendHandlerResult id n) e → I (s.sendException env n id e))
    (fail : ∀ (s s' : State T) (r : Ref) (up : Callback) (e : PyExc), I s →
      P s (.runGenerator r up) e → s.setOutcome r e.outcome = some s' →
      I s' ∧ R s' up (.finished e.outcome))
    (climb : ∀ (s : State T) (r : Ref) (up : Callback) (e : PyExc), I s →
      P s (.runGenerator r up) e → s.setOutcome r e.outcome = none →
      s.wasResumed r = false → P s up .invalidStateError)
    (cb : Callback) (e : PyExc) (s : State T) (hI : I s) (hP : P s cb e) :
    I (State.executeRaised env th cb e s) := by
  refine executeRaised_ind (R := fun s cb c => I s ∧ R s cb c) (P := fun s cb e => I s ∧ P s cb e)
    ?_ ?_ ?_ ?_ ?_ ?_ ?_ cb e s ⟨hI, hP⟩
  · intro cb c s h
    exact callback cb c s h.1 h.2
  · intro s id n e h
    exact answer s id n e h.1 h.2
  · intro s e h
    exact h.1
  · intro s e h
    exact h.1
  · intro s s' r up e h hs
    exact fail s s' r up e h.1 h.2 hs
  · intro s r up e h _ _
    exact h.1
  · intro s r up e h hs hres
    exact ⟨h.1, climb s r up e h.1 h.2 hs hres⟩

/-- Some generator on the way from the callback to its request runs inside a callback,
so that an exception stops there. -/
def Sheltered (fs : List Future) : Callback → Prop
  | .sendHandlerResult _ _ => False
  | .checkHandlerResult => True
  | .client => True
  | .runGenerator r up => fs[r]?.any Future.resumed = true ∨ Sheltered fs up

def answeredRequest : Message T → Option Nat
  | .request _ => none
  | .response n _ _ => some n

structure Discipline (s : State T) : Prop where
  parent : ∀ (r : Ref) (f : Future) (p : Ref) (up : Callback), s.futures[r]? = some f →
    f.callback = .runGenerator p up →
    p < r ∧ ∃ g, s.futures[p]? = some g ∧ g.callback = up ∧ g.handler = some .generator
  request : ∀ (r : Ref) (f : Future) (id : MsgId) (n : Nat), s.futures[r]? = some f →
    f.callback = .sendHandlerResult id n → ∃ q, s.received[n]? = some q ∧ q.1.id = id
  unique : ∀ (r r' : Ref) (f f' : Future) (id id' : MsgId) (n : Nat), s.futures[r]? = some f →
    s.futures[r']? = some f' → f.callback = .sendHandlerResult id n →
    f'.callback = .sendHandlerResult id' n → r = r'
  outgoing : ∀ (r : Ref) (f : Future), s.futures[r]? = some f → f.handler = none →
    f.callback = .client
  done : ∀ (r : Ref) (f : Future), s.futures[r]? = some f → f.called = true → f.isOpen = false
  running : ∀ (r : Ref) (f : Future), s.futures[r]? = some f → f.isOpen = true →
    f.isPending = false → f.handler = some .thread
  active : ∀ (r : Ref) (f : Future) (th : Thread), s.futures[r]? = some f → f.active = some th →
    f.handler = some .sync ∨ f.handler = some .generator ∨
      (f.handler = some .thread ∧ th = .worker)
  generator : ∀ (r : Ref) (f : Future), s.futures[r]? = some f → f.resumed = true →
    f.handler = some .generator
  firstPending : ∀ (r : Ref) (f : Future), s.futures[r]? = some f → f.active = some .main →
    f.resumed = false → f.isPending = true
  firstAlone : ∀ (r : Ref) (f : Future) (r' : Ref) (f' : Future) (up : Callback),
    s.futures[r]? = some f → f.handler = some .generator → f.active ≠ none → f.resumed = false →
    s.futures[r']? = some f' → f'.callback ≠ .runGenerator r up
  sheltered : ∀ (r : Ref) (f : Future), s.futures[r]? = some f → f.active = some .worker →
    f.handler = some .thread ∨ f.resumed = true ∨ Sheltered s.futures f.callback
  answered : ∀ (n : Nat) (id id' : MsgId) (a : Answer T) (r : Ref) (f : Future),
    Message.response n id a ∈ s.sent → s.futures[r]? = some f →
    f.callback = .sendHandlerResult id' n → f.called = true
  answeredId : ∀ (n : Nat) (id : MsgId) (a : Answer T), Message.response n id a ∈ s.sent →
    ∃ q, s.received[n]? = some q ∧ q.1.id = id
  atMostOnce : (s.sent.filterMap answeredRequest).Nodup

/-- How a step may change one future and keep the discipline. -/
structure Evolves (fs : List Future) (f f' : Future) : Prop where
  callback : f'.callback = f.callback
  handler : f'.handler = f.handler
  called : f.called = true → f'.called = true
  done : f'.called = true → f'.isOpen = false
  running : f'.isOpen = true → f'.isPending = false → f'.handler = some .thread
  active : ∀ th, f'.active = some th → f'.handler = some .sync ∨ f'.handler = some .generator ∨
    (f'.handler = some .thread ∧ th = .worker)
  resumed : f.resumed = true → f'.resumed = true
  generator : f'.resumed = true → f'.handler = some .generator
  firstPending : f'.active = some .main → f'.resumed = false → f'.isPending = true
  firstAlone : f'.handler = some .generator → f'.active ≠ none → f'.resumed = false →
    f.active ≠ none ∧ f.resumed = false
  sheltered : f'.active = some .worker →
    f'.handler = some .thread ∨ f'.resumed = true ∨ Sheltered fs f'.callback

theorem Sheltered.mono {fs gs : List Future}
    (h : ∀ r : Ref, fs[r]?.any Future.resumed = true → gs[r]?.any Future.resumed = true)
    {cb : Callback} (hs : Sheltered fs cb) : Sheltered gs cb := by
  induction cb with
  | sendHandlerResult id n => exact hs
  | checkHandlerResult => exact hs
  | client => exact hs
  | runGenerator r up ih =>
    rcases hs with hr | hup
    · exact Or.inl (h r hr)
    · exact Or.inr (ih hup)

theorem wasResumed_iff {s : State T} {r : Ref} :
    s.wasResumed r = true ↔ ∃ f, s.futures[r]? = some f ∧ f.resumed = true := by
  simp [State.wasResumed, Option.any_eq_true]

/-- Every future of the changed heap was there before. -/
theorem modify_cases {s : State T} {r i : Ref} {g : Future → Future} {f' : Future}
    (h : (s.modify r g).futures[i]? = some f') :
    ∃ f, s.futures[i]? = some f ∧ ((i = r ∧ f' = g f) ∨ (i ≠ r ∧ f' = f)) := by
  rw [State.getElem?_modify] at h
  split at h
  · rename_i hri
    obtain ⟨f, hf, hg⟩ := Option.map_eq_some_iff.mp h
    exact ⟨f, hf, Or.inl ⟨hri.symm, hg.symm⟩⟩
  · rename_i hri
    exact ⟨f', h, Or.inr ⟨fun hir => hri hir.symm, rfl⟩⟩

namespace Discipline

variable {s t : State T}

theorem evolves (h : Discipline s) {r : Ref} {f : Future} (hf : s.futures[r]? = some f) :
    Evolves s.futures f f where
  callback := rfl
  handler := rfl
  called := id
  done := h.done r f hf
  running := h.running r f hf
  active := fun th => h.active r f th hf
  resumed := id
  generator := h.generator r f hf
  firstPending := h.firstPending r f hf
  firstAlone := fun _ ha hr => ⟨ha, hr⟩
  sheltered := h.sheltered r f hf

theorem modify (h : Discipline s) {r : Ref} {g : Future → Future}
    (hg : ∀ f, s.futures[r]? = some f → Evolves s.futures f (g f)) : Discipline (s.modify r g) := by
  have back : ∀ (i : Ref) (f' : Future), (s.modify r g).futures[i]? = some f' →
      ∃ f, s.futures[i]? = some f ∧ Evolves s.futures f f' := by
    intro i f' hf'
    obtain ⟨f, hf, ⟨rfl, rfl⟩ | ⟨-, rfl⟩⟩ := modify_cases hf'
    · exact ⟨f, hf, hg f hf⟩
    · exact ⟨f', hf, h.evolves hf⟩
  have forth : ∀ (i : Ref) (f : Future), s.futures[i]? = some f →
      ∃ f', (s.modify r g).futures[i]? = some f' ∧ Evolves s.futures f f' := by
    intro i f hf
    rw [State.getElem?_modify]
    split
    · rename_i hri
      exact ⟨g f, by rw [hf]; rfl, hg f (hri ▸ hf)⟩
    · exact ⟨f, hf, h.evolves hf⟩
  have hres : ∀ i, s.wasResumed i = true → (s.modify r g).wasResumed i = true := by
    intro i hi
    obtain ⟨f, hf, hfr⟩ := wasResumed_iff.mp hi
    obtain ⟨f', hf', he⟩ := forth i f hf
    exact wasResumed_iff.mpr ⟨f', hf', he.resumed hfr⟩
  constructor
  case parent =>
    intro i f' p up hf' hcb
    obtain ⟨f, hf, he⟩ := back i f' hf'
    obtain ⟨hlt, gp, hgp, hup, hgen⟩ := h.parent i f p up hf (he.callback ▸ hcb)
    obtain ⟨gp', hgp', he'⟩ := forth p gp hgp
    exact ⟨hlt, gp', hgp', he'.callback ▸ hup, he'.handler ▸ hgen⟩
  case request =>
    intro i f' id n hf' hcb
    obtain ⟨f, hf, he⟩ := back i f' hf'
    exact h.request i f id n hf (he.callback ▸ hcb)
  case unique =>
    intro i j f' g' id id' n hf' hg' hcb hcb'
    obtain ⟨f, hf, he⟩ := back i f' hf'
    obtain ⟨k, hk, hek⟩ := back j g' hg'
    exact h.unique i j f k id id' n hf hk (he.callback ▸ hcb) (hek.callback ▸ hcb')
  case outgoing =>
    intro i f' hf' hnone
    obtain ⟨f, hf, he⟩ := back i f' hf'
    exact he.callback ▸ h.outgoing i f hf (he.handler ▸ hnone)
  case done =>
    intro i f' hf'
    obtain ⟨f, hf, he⟩ := back i f' hf'
    exact he.done
  case running =>
    intro i f' hf'
    obtain ⟨f, hf, he⟩ := back i f' hf'
    exact he.running
  case active =>
    intro i f' th hf'
    obtain ⟨f, hf, he⟩ := back i f' hf'
    exact he.active th
  case generator =>
    intro i f' hf'
    obtain ⟨f, hf, he⟩ := back i f' hf'
    exact he.generator
  case firstPending =>
    intro i f' hf'
    obtain ⟨f, hf, he⟩ := back i f' hf'
    exact he.firstPending
  case firstAlone =>
    intro i f' j g' up hf' hgen hact hres' hg' hcb
    obtain ⟨f, hf, he⟩ := back i f' hf'
    obtain ⟨k, hk, hek⟩ := back j g' hg'
    obtain ⟨hact0, hres0⟩ := he.firstAlone hgen hact hres'
    exact h.firstAlone i f j k up hf (he.handler ▸ hgen) hact0 hres0 hk (hek.callback ▸ hcb)
  case sheltered =>
    intro i f' hf' hact
    obtain ⟨f, hf, he⟩ := back i f' hf'
    rcases he.sheltered hact with hth | hr | hsh
    · exact Or.inl hth
    · exact Or.inr (Or.inl hr)
    · exact Or.inr (Or.inr (hsh.mono hres))
  case answered =>
    intro n id id' a i f' hm hf' hcb
    obtain ⟨f, hf, he⟩ := back i f' hf'
    exact he.called (h.answered n id id' a i f hm hf (he.callback ▸ hcb))
  case answeredId => exact h.answeredId
  case atMostOnce => exact h.atMostOnce

/-- The tables play no part in it. -/
theorem congr (h : Discipline s) (hf : t.futures = s.futures) (hr : t.received = s.received)
    (hs : t.sent = s.sent) : Discipline t := by
  constructor
  case sheltered => rw [hf]; exact h.sheltered
  case parent => rw [hf]; exact h.parent
  case request => rw [hf, hr]; exact h.request
  case unique => rw [hf]; exact h.unique
  case outgoing => rw [hf]; exact h.outgoing
  case done => rw [hf]; exact h.done
  case running => rw [hf]; exact h.running
  case active => rw [hf]; exact h.active
  case generator => rw [hf]; exact h.generator
  case firstPending => rw [hf]; exact h.firstPending
  case firstAlone => rw [hf]; exact h.firstAlone
  case answered => rw [hf, hs]; exact h.answered
  case answeredId => rw [hs, hr]; exact h.answeredId
  case atMostOnce => rw [hs]; exact h.atMostOnce

/-- The request has been received, and nothing is at work on an answer to it. -/
def Unused (s : State T) (id : MsgId) (n : Nat) : Prop :=
  (∃ q, s.received[n]? = some q ∧ q.1.id = id) ∧
    (∀ (r : Ref) (f : Future) (id' : MsgId), s.futures[r]? = some f →
      f.callback = .sendHandlerResult id' n → f.called = true) ∧
    ∀ (id' : MsgId) (a : Answer T), Message.response n id' a ∉ s.sent

theorem sends (h : Discipline s) {n : Nat} {id : MsgId} {P : Answer T → Prop}
    (hu : Unused s id n) (hs : Sends s t n id P) : Discipline t := by
  obtain ⟨hreq, hcalled, hnew⟩ := hu
  rcases hs.sent with hsent | ⟨a, -, hsent⟩
  · exact h.congr hs.futures hs.received hsent
  have base : Discipline { t with sent := s.sent } := h.congr hs.futures hs.received rfl
  have split : ∀ m, m ∈ t.sent → m ∈ s.sent ∨ m = .response n id a := by
    intro m hm
    rw [hsent] at hm
    simpa using hm
  constructor
  case parent => exact base.parent
  case request => exact base.request
  case unique => exact base.unique
  case outgoing => exact base.outgoing
  case done => exact base.done
  case running => exact base.running
  case active => exact base.active
  case generator => exact base.generator
  case firstPending => exact base.firstPending
  case firstAlone => exact base.firstAlone
  case sheltered => exact base.sheltered
  case answered =>
    intro m id' id'' b r f hm hf hcb
    rcases split _ hm with hold | hlast
    · exact base.answered m id' id'' b r f hold hf hcb
    · cases hlast
      exact hcalled r f id'' (hs.futures ▸ hf) hcb
  case answeredId =>
    intro m id' b hm
    rcases split _ hm with hold | hlast
    · exact base.answeredId m id' b hold
    · cases hlast
      rw [hs.received]
      exact hreq
  case atMostOnce =>
    have hn : n ∉ s.sent.filterMap answeredRequest := by
      intro hmem
      obtain ⟨m, hm, hmn⟩ := List.mem_filterMap.mp hmem
      cases m with
      | request q => simp [answeredRequest] at hmn
      | response k id' b =>
        simp only [answeredRequest, Option.some.injEq] at hmn
        exact hnew id' b (hmn ▸ hm)
    rw [hsent, List.filterMap_append]
    exact List.nodup_append.mpr ⟨h.atMostOnce, by simp [answeredRequest], by
      intro x hx y hy hxy
      simp only [answeredRequest, List.filterMap_cons, List.filterMap_nil,
        List.mem_singleton] at hy
      exact hn (hy ▸ hxy ▸ hx)⟩

/-- A new future whose callback's owner waits for nothing else. -/
structure Joins (s : State T) (g : Future) : Prop where
  parent : ∀ (p : Ref) (up : Callback), g.callback = .runGenerator p up →
    ∃ f, s.futures[p]? = some f ∧ f.callback = up ∧ f.handler = some .generator ∧
      (f.active ≠ none → f.resumed = true)
  request : ∀ (id : MsgId) (n : Nat), g.callback = .sendHandlerResult id n →
    (∃ q, s.received[n]? = some q ∧ q.1.id = id) ∧
    (∀ (r : Ref) (f : Future) (id' : MsgId), s.futures[r]? = some f →
      f.callback ≠ .sendHandlerResult id' n) ∧
    ∀ (id' : MsgId) (a : Answer T), Message.response n id' a ∉ s.sent
  outgoing : g.handler = none → g.callback = .client
  pending : g.state = .pending
  called : g.called = false
  active : ∀ th, g.active = some th → g.handler = some .sync ∨ g.handler = some .generator ∨
    (g.handler = some .thread ∧ th = .worker)
  resumed : g.resumed = false
  sheltered : g.active = some .worker → g.handler = some .thread ∨ Sheltered s.futures g.callback

theorem getElem?_alloc_of_some {g f : Future} {r : Ref} (hf : s.futures[r]? = some f) :
    (s.alloc g).futures[r]? = some f := by
  obtain ⟨hlt, -⟩ := List.getElem?_eq_some_iff.mp hf
  rw [State.alloc, List.getElem?_append_left hlt, hf]

theorem alloc (h : Discipline s) {g : Future} (hj : Joins s g) : Discipline (s.alloc g) := by
  have old : ∀ (r : Ref) (f : Future) , s.futures[r]? = some f → r ≠ s.fresh := by
    intro r f hf hr
    obtain ⟨hlt, -⟩ := List.getElem?_eq_some_iff.mp hf
    exact absurd hr (Nat.ne_of_lt hlt)
  have hsh : ∀ cb, Sheltered s.futures cb → Sheltered (s.alloc g).futures cb := by
    intro cb hcb
    refine hcb.mono fun r hr => ?_
    obtain ⟨f, hf, hfr⟩ := wasResumed_iff.mp hr
    exact wasResumed_iff.mpr ⟨f, getElem?_alloc_of_some hf, hfr⟩
  constructor
  case parent =>
    intro r f p up hf hcb
    rcases State.getElem?_alloc hf with hf | ⟨hr, rfl⟩
    · obtain ⟨hlt, gp, hgp, hrest⟩ := h.parent r f p up hf hcb
      exact ⟨hlt, gp, getElem?_alloc_of_some hgp, hrest⟩
    · obtain ⟨gp, hgp, hup, hgen, -⟩ := hj.parent p up hcb
      obtain ⟨hlt, -⟩ := List.getElem?_eq_some_iff.mp hgp
      exact ⟨hr ▸ hlt, gp, getElem?_alloc_of_some hgp, hup, hgen⟩
  case request =>
    intro r f id n hf hcb
    rcases State.getElem?_alloc hf with hf | ⟨-, rfl⟩
    · exact h.request r f id n hf hcb
    · exact (hj.request id n hcb).1
  case unique =>
    intro r r' f f' id id' n hf hf' hcb hcb'
    rcases State.getElem?_alloc hf with hold | ⟨hr, rfl⟩
    · rcases State.getElem?_alloc hf' with hold' | ⟨-, rfl⟩
      · exact h.unique r r' f f' id id' n hold hold' hcb hcb'
      · exact absurd hcb ((hj.request id' n hcb').2.1 r f id hold)
    · rcases State.getElem?_alloc hf' with hf' | ⟨hr', -⟩
      · exact absurd hcb' ((hj.request id n hcb).2.1 r' f' id' hf')
      · rw [hr, hr']
  case outgoing =>
    intro r f hf hnone
    rcases State.getElem?_alloc hf with hf | ⟨-, rfl⟩
    · exact h.outgoing r f hf hnone
    · exact hj.outgoing hnone
  case running =>
    intro r f hf hopen hnot
    rcases State.getElem?_alloc hf with hf | ⟨-, rfl⟩
    · exact h.running r f hf hopen hnot
    · rw [Future.isPending, hj.pending] at hnot
      cases hnot
  case active =>
    intro r f th hf hact
    rcases State.getElem?_alloc hf with hf | ⟨-, rfl⟩
    · exact h.active r f th hf hact
    · exact hj.active th hact
  case done =>
    intro r f hf hc
    rcases State.getElem?_alloc hf with hf | ⟨-, rfl⟩
    · exact h.done r f hf hc
    · rw [hj.called] at hc
      cases hc
  case generator =>
    intro r f hf hr
    rcases State.getElem?_alloc hf with hf | ⟨-, rfl⟩
    · exact h.generator r f hf hr
    · rw [hj.resumed] at hr
      cases hr
  case firstPending =>
    intro r f hf hact hres
    rcases State.getElem?_alloc hf with hf | ⟨-, rfl⟩
    · exact h.firstPending r f hf hact hres
    · rw [Future.isPending, hj.pending]
  case firstAlone =>
    intro r f r' f' up hf hgen hact hres hf' hcb
    rcases State.getElem?_alloc hf with hold | ⟨hr, rfl⟩
    · rcases State.getElem?_alloc hf' with hold' | ⟨-, rfl⟩
      · exact h.firstAlone r f r' f' up hold hgen hact hres hold' hcb
      · obtain ⟨gp, hgp, -, -, hwait⟩ := hj.parent r up hcb
        rw [hold] at hgp
        cases hgp
        rw [hwait hact] at hres
        cases hres
    · rcases State.getElem?_alloc hf' with hf' | ⟨-, rfl⟩
      · obtain ⟨-, gp, hgp, -⟩ := h.parent r' f' r up hf' hcb
        exact old r gp hgp hr
      · obtain ⟨gp, hgp, -⟩ := hj.parent r up hcb
        exact old r gp hgp hr
  case sheltered =>
    intro r f hf hact
    rcases State.getElem?_alloc hf with hf | ⟨-, rfl⟩
    · rcases h.sheltered r f hf hact with hth | hres | hcb
      · exact Or.inl hth
      · exact Or.inr (Or.inl hres)
      · exact Or.inr (Or.inr (hsh _ hcb))
    · rcases hj.sheltered hact with hth | hcb
      · exact Or.inl hth
      · exact Or.inr (Or.inr (hsh _ hcb))
  case answered =>
    intro n id id' a r f hm hf hcb
    rcases State.getElem?_alloc hf with hf | ⟨-, rfl⟩
    · exact h.answered n id id' a r f hm hf hcb
    · exact absurd hm ((hj.request id' n hcb).2.2 id a)
  case answeredId => exact h.answeredId
  case atMostOnce => exact h.atMostOnce

/-- Completing a future that is not in the first segment of its handler. -/
theorem settle (h : Discipline s) {r : Ref} {f : Future} (hf : s.futures[r]? = some f)
    (hfirst : f.active = some .main → f.resumed = true) {st : FutureState}
    (hst : (f.settle st).isOpen = false) : Discipline (s.modify r (Future.settle st)) := by
  refine h.modify fun f' hf' => ?_
  rw [hf] at hf'
  cases hf'
  have he := h.evolves hf
  refine ⟨rfl, rfl, fun _ => rfl, fun _ => hst, ?_, he.active, id, he.generator, ?_, he.firstAlone,
    he.sheltered⟩
  · intro hopen
    rw [hst] at hopen
    cases hopen
  intro hact hres
  have hr := hfirst hact
  rw [show f.resumed = false from hres] at hr
  cases hr

theorem leave (h : Discipline s) (r : Ref) : Discipline (s.leave r) := by
  refine h.modify fun f hf => ?_
  have he := h.evolves hf
  refine ⟨rfl, rfl, id, he.done, he.running, ?_, id, he.generator, ?_, ?_, ?_⟩
  · intro th hact
    cases hact
  · intro hact
    cases hact
  · intro _ hact
    exact absurd rfl hact
  · intro hact
    cases hact

end Discipline

theorem setOutcome_eq_some {s s' : State T} {r : Ref} {o : Outcome}
    (h : s.setOutcome r o = some s') :
    ∃ f, s.futures[r]? = some f ∧ f.isPending = true ∧ s' = s.modify r (Future.settle (.finished o)) := by
  unfold State.setOutcome at h
  split at h
  · rename_i hp
    obtain ⟨f, hf, hpf⟩ := (Option.any_eq_true _ _).mp hp
    exact ⟨f, hf, hpf, (Option.some.inj h).symm⟩
  · cases h

theorem setOutcome_eq_none {s : State T} {r : Ref} {o : Outcome} {f : Future}
    (h : s.setOutcome r o = none) (hf : s.futures[r]? = some f) : f.isPending = false := by
  unfold State.setOutcome at h
  split at h
  · cases h
  · rename_i hp
    rw [hf] at hp
    simpa using hp

theorem isOpen_of_isPending {f : Future} (h : f.isPending = true) : f.isOpen = true := by
  unfold Future.isPending at h
  unfold Future.isOpen
  split at h
  · rename_i hs
    rw [hs]
  · cases h

/-- The future a callback is called with: done, called just now, its request unanswered. -/
def Ready (s : State T) (cb : Callback) (c : Completion) : Prop :=
  ∃ (r : Ref) (f : Future), s.futures[r]? = some f ∧ f.callback = cb ∧ f.called = true ∧
    f.completion = some c ∧
    ∀ (id : MsgId) (n : Nat), cb = .sendHandlerResult id n →
      ∀ (id' : MsgId) (a : Answer T), Message.response n id' a ∉ s.sent

/-- The caller of an `_execute_handler` that raises. -/
def Caller (s : State T) : Callback → Prop
  | .sendHandlerResult id n => Discipline.Unused s id n
  | .checkHandlerResult => True
  | .client => True
  | .runGenerator r up =>
    ∃ f, s.futures[r]? = some f ∧ f.callback = up ∧ f.handler = some .generator ∧
      (f.active ≠ none → f.resumed = true) ∧
      (f.isPending = true ∨ f.resumed = true ∨ Sheltered s.futures up)

namespace Discipline

variable {s s' : State T}

theorem not_called (h : Discipline s) {r : Ref} {f : Future} (hf : s.futures[r]? = some f)
    (hopen : f.isOpen = true) : f.called = false := by
  cases hc : f.called with
  | false => rfl
  | true =>
    rw [h.done r f hf hc] at hopen
    cases hopen

theorem unanswered (h : Discipline s) {r : Ref} {f : Future} {id : MsgId} {n : Nat}
    (hf : s.futures[r]? = some f) (hcb : f.callback = .sendHandlerResult id n)
    (hnot : f.called = false) (id' : MsgId) (a : Answer T) : Message.response n id' a ∉ s.sent := by
  intro hm
  rw [h.answered n id' id a r f hm hf hcb] at hnot
  cases hnot

theorem unused (h : Discipline s) {id : MsgId} {n : Nat} {c : Completion}
    (hr : Ready s (.sendHandlerResult id n) c) : Unused s id n := by
  obtain ⟨r, f, hf, hcb, hcalled, -, hnew⟩ := hr
  refine ⟨h.request r f id n hf hcb, ?_, hnew id n rfl⟩
  intro r' f' id' hf' hcb'
  have hrr := h.unique r r' f f' id id' n hf hf' hcb hcb'
  subst hrr
  rw [hf] at hf'
  cases hf'
  exact hcalled

/-- Setting the outcome of a generator's future, and what its callback then finds. -/
theorem setOutcome (h : Discipline s) {r : Ref} {f : Future} {o : Outcome}
    (hf : s.futures[r]? = some f) (hwait : f.active ≠ none → f.resumed = true)
    (hs : s.setOutcome r o = some s') : Discipline s' ∧ Ready s' f.callback (.finished o) := by
  obtain ⟨f', hf', hpend, rfl⟩ := setOutcome_eq_some hs
  rw [hf] at hf'
  cases hf'
  constructor
  · exact h.settle hf (fun hact => hwait (by rw [hact]; simp)) rfl
  · refine ⟨r, _, State.getElem?_modify_self hf, rfl, rfl, rfl, ?_⟩
    intro id n hcb
    exact h.unanswered hf hcb (h.not_called hf (isOpen_of_isPending hpend))

theorem resume (h : Discipline s) {r : Ref} {f : Future} (hf : s.futures[r]? = some f)
    (hgen : f.handler = some .generator) (th : Thread) (v : PyValue) :
    Discipline (s.resume r th v) := by
  refine h.modify fun f' hf' => ?_
  rw [hf] at hf'
  cases hf'
  have he := h.evolves hf
  refine ⟨rfl, rfl, id, he.done, he.running, fun _ _ => Or.inr (Or.inl hgen), fun _ => rfl, fun _ => hgen, ?_, ?_,
    fun _ => Or.inr (Or.inl rfl)⟩
  · intro _ hres
    cases hres
  · intro _ _ hres
    cases hres

theorem parent_waits (h : Discipline s) {r p : Ref} {f : Future} {up : Callback}
    (hf : s.futures[r]? = some f) (hcb : f.callback = .runGenerator p up) :
    ∃ g, s.futures[p]? = some g ∧ g.callback = up ∧ g.handler = some .generator ∧
      (g.active ≠ none → g.resumed = true) := by
  obtain ⟨-, g, hg, hup, hgen⟩ := h.parent r f p up hf hcb
  refine ⟨g, hg, hup, hgen, fun hact => ?_⟩
  cases hres : g.resumed with
  | true => rfl
  | false => exact absurd hcb (h.firstAlone p g r f up hg hgen hact hres hf)

theorem runCallback (env : Env T) (th : Thread) {cb : Callback} {c : Completion}
    (h : Discipline s) (hr : Ready s cb c) : Discipline (State.runCallback env th cb c s) := by
  refine runCallback_rule (R := Ready) ?_ ?_ ?_ cb c s h hr
  · intro s id n c h hr
    exact h.sends (h.unused hr) (State.sendHandlerResult_sends env s id n c)
  · intro s r up c v h hr
    obtain ⟨i, f, hf, hcb, -⟩ := hr
    obtain ⟨g, hg, -, hgen, -⟩ := h.parent_waits hf hcb
    exact h.resume hg hgen th v
  · intro s s' r up c e h hr _ hs
    obtain ⟨i, f, hf, hcb, -⟩ := hr
    obtain ⟨g, hg, hup, -, hwait⟩ := h.parent_waits hf hcb
    exact hup ▸ h.setOutcome hg hwait hs

theorem caller_of_sheltered (h : Discipline s) {r : Ref} {f : Future} (hf : s.futures[r]? = some f)
    (hsh : Sheltered s.futures f.callback) : Caller s f.callback := by
  cases hcb : f.callback with
  | sendHandlerResult id n =>
    rw [hcb] at hsh
    exact False.elim hsh
  | checkHandlerResult => trivial
  | client => trivial
  | runGenerator p up =>
    rw [hcb] at hsh
    obtain ⟨g, hg, hgup, hgen, hwait⟩ := h.parent_waits hf hcb
    refine ⟨g, hg, hgup, hgen, hwait, Or.inr ?_⟩
    rcases hsh with hp | hup
    · left
      rw [hg] at hp
      simpa using hp
    · exact Or.inr hup

theorem climb (h : Discipline s) {r : Ref} {up : Callback} {o : Outcome}
    (hc : Caller s (.runGenerator r up)) (hs : s.setOutcome r o = none)
    (hres : s.wasResumed r = false) : Caller s up ∧ ∀ id n, up ≠ .sendHandlerResult id n := by
  obtain ⟨f, hf, hcb, -, -, hpend | hr | hsh⟩ := hc
  · rw [setOutcome_eq_none hs hf] at hpend
    cases hpend
  · rw [wasResumed_iff.mpr ⟨f, hf, hr⟩] at hres
    cases hres
  · refine ⟨hcb ▸ h.caller_of_sheltered hf (hcb.symm ▸ hsh), ?_⟩
    intro id n hup
    rw [hup] at hsh
    exact hsh

theorem executeRaised (env : Env T) (th : Thread) {cb : Callback} (e : PyExc)
    (h : Discipline s) (hc : Caller s cb) : Discipline (State.executeRaised env th cb e s) := by
  refine executeRaised_rule (R := Ready) (P := fun s cb _ => Caller s cb) ?_ ?_ ?_ ?_ cb e s h hc
  · intro cb c s h hr
    exact h.runCallback env th hr
  · intro s id n e h hu
    exact h.sends hu (State.sendException_sends env s n id e)
  · intro s s' r up e h hc hs
    obtain ⟨f, hf, hup, -, hwait, -⟩ := hc
    exact hup ▸ h.setOutcome hf hwait hs
  · intro s r up e h hc hs hres
    exact (h.climb hc hs hres).1

/-- No handler has been started for the request that the callback answers. -/
def NotStarted (s : State T) (cb : Callback) : Prop :=
  ∀ (id id' : MsgId) (n : Nat) (r : Ref) (f : Future), cb = .sendHandlerResult id n →
    s.futures[r]? = some f → f.callback ≠ .sendHandlerResult id' n

theorem joins {cb : Callback} (hc : Caller s cb) (hn : NotStarted s cb) {kind : HandlerKind}
    {act : Option Thread} (hact : act ≠ none → kind = .sync ∨ kind = .generator)
    (hw : act = some .worker → Sheltered s.futures cb) :
    Joins s { Future.pending (some kind) cb with active := act } := by
  refine ⟨?_, ?_, nofun, rfl, rfl, ?_, rfl, fun hact => Or.inr (hw hact)⟩
  · intro p up hcb
    subst hcb
    obtain ⟨f, hf, hup, hgen, hwait, -⟩ := hc
    exact ⟨f, hf, hup, hgen, hwait⟩
  · intro id n hcb
    subst hcb
    exact ⟨hc.1, fun r f id' hf => hn id id' n r f rfl hf, hc.2.2⟩
  · intro th hth
    have hsome : act ≠ none := by
      rw [show act = some th from hth]
      simp
    rcases hact hsome with rfl | rfl
    · exact Or.inl rfl
    · exact Or.inr (Or.inl rfl)

theorem register (h : Discipline s) (id : MsgId) (r : Ref) : Discipline (s.register id r) :=
  h.congr rfl rfl rfl

theorem executeHandler (env : Env T) {th : Thread} (id : MsgId) (kind : HandlerKind) {cb : Callback}
    (start : Start) (h : Discipline s) (hc : Caller s cb) (hn : NotStarted s cb)
    (hw : th = .worker → Sheltered s.futures cb) :
    Discipline (State.executeHandler env th id kind cb start s) := by
  have idle : ∀ kind, Discipline (s.alloc (.pending (some kind) cb)) := by
    intro kind
    exact h.alloc (joins hc hn (fun hact => absurd rfl hact) nofun)
  have running : ∀ kind, kind = .sync ∨ kind = .generator →
      Discipline (s.alloc { Future.pending (some kind) cb with active := some th }) := by
    intro kind hk
    exact h.alloc (joins hc hn (fun _ => hk) fun hact => hw (Option.some.inj hact))
  cases kind with
  | coroutine =>
    cases start with
    | some e => exact h.executeRaised env th e hc
    | none =>
      cases th with
      | main => exact (idle _).register id s.fresh
      | worker => exact h.executeRaised env .worker .runtimeError hc
  | thread =>
    cases start with
    | some e => exact h.executeRaised env th e hc
    | none => exact (idle _).register id s.fresh
  | generator => exact (running _ (Or.inr rfl)).register id s.fresh
  | sync => exact running _ (Or.inl rfl)

theorem init : Discipline (State.init : State T) := by
  have none : ∀ (r : Ref) (f : Future), (State.init : State T).futures[r]? ≠ some f := by
    intro r f
    simp [State.init]
  have silent : ∀ m : Message T, m ∉ (State.init : State T).sent := by
    intro m
    simp [State.init]
  constructor
  case parent =>
    intro r f _ _ hf
    exact absurd hf (none r f)
  case request =>
    intro r f _ _ hf
    exact absurd hf (none r f)
  case unique =>
    intro r _ f _ _ _ _ hf
    exact absurd hf (none r f)
  case outgoing =>
    intro r f hf
    exact absurd hf (none r f)
  case done =>
    intro r f hf
    exact absurd hf (none r f)
  case running =>
    intro r f hf
    exact absurd hf (none r f)
  case active =>
    intro r f _ hf
    exact absurd hf (none r f)
  case generator =>
    intro r f hf
    exact absurd hf (none r f)
  case firstPending =>
    intro r f hf
    exact absurd hf (none r f)
  case firstAlone =>
    intro r f _ _ _ hf
    exact absurd hf (none r f)
  case sheltered =>
    intro r f hf
    exact absurd hf (none r f)
  case answered =>
    intro n id _ a _ _ hm
    exact absurd hm (silent _)
  case answeredId =>
    intro n id a hm
    exact absurd hm (silent _)
  case atMostOnce => exact List.nodup_nil

theorem notMain {r : Ref} {f : Future} (hidle : s.mainIdle = true) (hf : s.futures[r]? = some f) :
    f.active ≠ some .main := by
  have hall := List.all_eq_true.mp hidle f (List.mem_of_getElem? hf)
  simpa using hall

theorem receive (h : Discipline s) (x : Request × Start) :
    Discipline { s with received := s.received ++ [x] } := by
  have grow : ∀ (n : Nat) (q : Request × Start), s.received[n]? = some q →
      (s.received ++ [x])[n]? = some q := by
    intro n q hq
    obtain ⟨hlt, -⟩ := List.getElem?_eq_some_iff.mp hq
    rw [List.getElem?_append_left hlt, hq]
  refine { h with request := ?_, answeredId := ?_ }
  · intro r f id n hf hcb
    obtain ⟨q, hq, hid⟩ := h.request r f id n hf hcb
    exact ⟨q, grow n q hq, hid⟩
  · intro n id a hm
    obtain ⟨q, hq, hid⟩ := h.answeredId n id a hm
    exact ⟨q, grow n q hq, hid⟩

/-- The request just received: no future and no answer has its number yet. -/
theorem received_new (h : Discipline s) (q : Request) (start : Start) :
    Unused { s with received := s.received ++ [(q, start)] } q.id s.received.length ∧
      NotStarted { s with received := s.received ++ [(q, start)] }
        (.sendHandlerResult q.id s.received.length) := by
  have fresh : ∀ (r : Ref) (f : Future) (id : MsgId), s.futures[r]? = some f →
      f.callback ≠ .sendHandlerResult id s.received.length := by
    intro r f id hf hcb
    obtain ⟨q', hq', -⟩ := h.request r f id _ hf hcb
    simp at hq'
  refine ⟨⟨⟨(q, start), by simp, rfl⟩, ?_, ?_⟩, ?_⟩
  · intro r f id hf hcb
    exact absurd hcb (fresh r f id hf)
  · intro id a hm
    obtain ⟨q', hq', -⟩ := h.answeredId _ id a hm
    simp at hq'
  · intro id id' n r f hcb hf
    cases hcb
    exact fresh r f id' hf

theorem handleRequest (env : Env T) (h : Discipline s) (q : Request) (start : Start) :
    Discipline (s.handleRequest env q start) := by
  have h' := h.receive (q, start)
  obtain ⟨hu, hn⟩ := h.received_new q start
  unfold State.handleRequest
  split
  · exact h'.sends hu (State.sendException_sends env _ _ _ _)
  · refine h'.executeHandler env q.id _ start hu hn ?_
    intro hw
    cases hw

theorem handleNotification (env : Env T) (h : Discipline s) (method : Method) (uuid : Str)
    (start : Start) : Discipline (s.handleNotification env method uuid start) := by
  unfold State.handleNotification
  split
  · exact h
  · refine h.executeHandler env _ _ start trivial ?_ ?_
    · intro id id' n r f hcb
      cases hcb
    · intro hw
      cases hw

/-- Completing a future from outside its handler, and its callback. -/
theorem complete (env : Env T) (th : Thread) (h : Discipline s) {r : Ref} {f : Future}
    (hf : s.futures[r]? = some f) (hact : f.active ≠ some .main) (hopen : f.isOpen = true)
    {st : FutureState} {c : Completion} (hc : (f.settle st).completion = some c)
    (hst : (f.settle st).isOpen = false) :
    Discipline (State.runCallback env th f.callback c (s.modify r (Future.settle st))) := by
  refine (h.settle hf (fun hmain => absurd hmain hact) hst).runCallback env th ?_
  refine ⟨r, _, State.getElem?_modify_self hf, rfl, rfl, hc, ?_⟩
  intro id n hcb
  exact h.unanswered hf hcb (h.not_called hf hopen)

theorem cancel (env : Env T) (th : Thread) (h : Discipline s) {r : Ref}
    (hact : ∀ f, s.futures[r]? = some f → f.active ≠ some .main) :
    Discipline (State.cancel env th s r) := by
  unfold State.cancel
  split
  · exact h
  · rename_i f hf
    split
    · split
      · refine h.modify fun f hf => ?_
        have he := h.evolves hf
        exact ⟨rfl, rfl, id, he.done, he.running, he.active, id, he.generator, he.firstPending,
          he.firstAlone, he.sheltered⟩
      · exact h
    · rename_i htask
      split
      · rename_i hpend
        refine h.complete env th hf (hact f hf) (isOpen_of_isPending hpend) ?_ rfl
        have hne : f.handler ≠ some .coroutine := by simpa [Future.isTask] using htask
        simp [Future.completion, Future.settle, hne]
      · exact h

theorem handleResponse (env : Env T) (h : Discipline s) (hidle : s.mainIdle = true) (id : MsgId)
    (o : Outcome) : Discipline (s.handleResponse env id o) := by
  have hpop : Discipline (s.popFuture id) := h.congr rfl rfl rfl
  simp only [State.handleResponse]
  split
  · exact h
  · split
    · exact hpop
    · rename_i r _ f hf
      split
      · exact hpop
      · split
        · rename_i hopen
          exact hpop.complete env .main hf (notMain hidle hf) hopen rfl rfl
        · exact hpop

theorem receiveResult (env : Env T) (h : Discipline s) (hidle : s.mainIdle = true) (id : MsgId)
    (result : Json) : Discipline (s.receiveResult env id result) := by
  have hpop : Discipline (s.popType id) := h.congr rfl rfl rfl
  simp only [State.receiveResult]
  split
  · exact hpop
  · split
    · exact hpop
    · exact hpop.handleResponse env hidle id _

theorem receiveError (env : Env T) (h : Discipline s) (hidle : s.mainIdle = true) (id : MsgId)
    (error : Option ResponseError) : Discipline (s.receiveError env id error) := by
  unfold State.receiveError
  split
  · exact h
  · split
    · exact h.handleResponse env hidle id _
    · exact h.handleResponse env hidle id _

theorem sendRequest (env : Env T) (h : Discipline s) (id : MsgId) (method : Method)
    (params : PyValue) : Discipline (s.sendRequest env id method params) := by
  have hj : Joins s (.pending none .client) :=
    ⟨nofun, nofun, fun _ => rfl, rfl, rfl, nofun, rfl, nofun⟩
  have h' : Discipline { s.sendRequest env id method params with sent := s.sent } :=
    (h.alloc hj).congr (State.sendRequest_futures env s id method params)
      (State.sendRequest_received env s id method params) rfl
  refine { h' with answered := ?_, answeredId := ?_, atMostOnce := ?_ }
  · intro n k k' a r f hm
    have hold := State.mem_sent_sendRequest.mp hm
    exact h'.answered n k k' a r f hold
  · intro n k a hm
    have hold := State.mem_sent_sendRequest.mp hm
    exact h'.answeredId n k a hold
  · rcases State.sendRequest_sent env s id method params with hs | ⟨p, hs⟩
    · rw [hs]
      exact h.atMostOnce
    · rw [hs, List.filterMap_append]
      simpa [List.filterMap_cons, answeredRequest] using h.atMostOnce

theorem sheltered_leave (r : Ref) {cb : Callback} (h : Sheltered s.futures cb) :
    Sheltered (s.leave r).futures cb := by
  refine h.mono fun i hi => ?_
  obtain ⟨g, hg, hres⟩ := wasResumed_iff.mp hi
  rw [State.leave, State.getElem?_modify]
  split
  · rw [hg]
    simpa using hres
  · exact hi

/-- A handler whose code is on a stack can hand an exception to its caller. -/
theorem caller_of_active (h : Discipline s) {r : Ref} {f : Future} {th : Thread}
    (hf : s.futures[r]? = some f) (hgen : f.handler = some .generator) (hact : f.active = some th) :
    Caller (s.leave r) (.runGenerator r f.callback) ∧
      (th = .worker → Sheltered (s.leave r).futures (.runGenerator r f.callback)) := by
  have hf' := State.getElem?_modify_self (g := fun f => { f with active := none }) hf
  have hsh : th = .worker → f.resumed = true ∨ Sheltered s.futures f.callback := by
    intro hw
    subst hw
    rcases h.sheltered r f hf hact with hth | hres
    · rw [hgen] at hth
      cases hth
    · exact hres
  constructor
  · refine ⟨_, hf', rfl, hgen, fun hact' => absurd rfl hact', ?_⟩
    cases th with
    | main =>
      cases hres : f.resumed with
      | true => exact Or.inr (Or.inl rfl)
      | false => exact Or.inl (h.firstPending r f hf hact hres)
    | worker =>
      rcases hsh rfl with hres | hcb
      · exact Or.inr (Or.inl hres)
      · exact Or.inr (Or.inr (sheltered_leave r hcb))
  · intro hw
    rcases hsh hw with hres | hcb
    · left
      rw [State.leave, State.getElem?_modify_self hf]
      simpa using hres
    · exact Or.inr (sheltered_leave r hcb)

/-- On the main thread nothing else has happened since the sync handler was called. -/
theorem sync_caller (h : Discipline s) {r : Ref} {f : Future} {th : Thread} {o : Outcome}
    (hf : s.futures[r]? = some f) (hsync : f.handler = some .sync) (hact : f.active = some th)
    (hnone : (s.leave r).setOutcome r o = none) :
    Caller (s.leave r) f.callback ∧ ∀ id n, f.callback ≠ .sendHandlerResult id n := by
  have hf' := State.getElem?_modify_self (g := fun f => { f with active := none }) hf
  have hres : f.resumed = false := by
    cases hr : f.resumed with
    | false => rfl
    | true =>
      rw [h.generator r f hf hr] at hsync
      cases hsync
  cases th with
  | main =>
    have hpend := h.firstPending r f hf hact hres
    have hdone := setOutcome_eq_none hnone hf'
    rw [show f.isPending = false from hdone] at hpend
    cases hpend
  | worker =>
    have hcb : Sheltered s.futures f.callback := by
      rcases h.sheltered r f hf hact with hth | hr | hcb
      · rw [hsync] at hth
        cases hth
      · rw [hres] at hr
        cases hr
      · exact hcb
    have hc := (h.leave r).caller_of_sheltered hf' (sheltered_leave r hcb)
    refine ⟨hc, ?_⟩
    intro id n heq
    rw [heq] at hcb
    exact hcb

theorem syncEnd (env : Env T) (h : Discipline s) {r : Ref} {f : Future} {th : Thread}
    (hf : s.futures[r]? = some f) (hsync : f.handler = some .sync) (hact : f.active = some th)
    (o : Outcome) : Discipline (State.syncEnd env s r f.callback th o) := by
  have hl := h.leave r
  have hf' := State.getElem?_modify_self (g := fun f => { f with active := none }) hf
  unfold State.syncEnd
  split
  · rename_i s' hs
    obtain ⟨hd, hr⟩ := hl.setOutcome hf' (fun hact' => absurd rfl hact') hs
    exact hd.runCallback env th hr
  · rename_i hnone
    exact hl.executeRaised env th _ (h.sync_caller hf hsync hact hnone).1

theorem called (h : Discipline s) {r : Ref} {f : Future} {c : Completion}
    (hf : s.futures[r]? = some f) (hcalled : f.called = false) (hc : f.completion = some c) :
    Discipline (s.modify r fun f => { f with called := true }) ∧
      Ready (s.modify r fun f => { f with called := true }) f.callback c := by
  have hdone : f.isOpen = false := by
    unfold Future.completion at hc
    unfold Future.isOpen
    split at hc <;> simp_all
  constructor
  · refine h.modify fun f' hf' => ?_
    rw [hf] at hf'
    cases hf'
    have he := h.evolves hf
    exact ⟨rfl, rfl, fun _ => rfl, fun _ => hdone, he.running, he.active, id, he.generator,
      he.firstPending, he.firstAlone, he.sheltered⟩
  · refine ⟨r, _, State.getElem?_modify_self hf, rfl, rfl, hc, ?_⟩
    intro id n hcb
    exact h.unanswered hf hcb hcalled

theorem step {env : Env T} {e : Event} (h : Discipline s) (hs : step env s e = some s') :
    Discipline s' := by
  cases step_cases hs with
  | ignored hdown => exact h
  | request hidle hup => exact h.handleRequest env _ _
  | notification hidle hup => exact h.handleNotification env _ _ _
  | @cancelRequest id hidle hup =>
    unfold State.handleCancelNotification
    split
    · exact h
    · exact (h.congr rfl rfl rfl : Discipline (s.popFuture id)).cancel env .main
        fun f hf => notMain hidle hf
  | response hidle => exact h.receiveResult env hidle _ _
  | errorResponse hidle => exact h.receiveError env hidle _ _
  | sendRequest => exact h.sendRequest env _ _ _
  | @cancelOutgoing r f hf hnone =>
    refine h.cancel env .main fun f' hf' hact => ?_
    rw [hf] at hf'
    cases hf'
    rcases h.active r f .main hf hact with hk | hk | ⟨hk, -⟩ <;> rw [hnone] at hk <;> cases hk
  | syncEnd hf hk hact => exact h.syncEnd env hf hk hact _
  | genYield hf hk hact =>
    obtain ⟨hc, hw⟩ := h.caller_of_active hf hk hact
    refine (h.leave _).executeHandler env _ _ _ hc ?_ hw
    intro id id' n i g hcb
    cases hcb
  | genEnd hf hk hact hstop =>
    exact (h.leave _).executeRaised env _ _ (h.caller_of_active hf hk hact).1
  | @taskEnd r f o hidle hstop hf hk hpend =>
    have hnot := h.not_called hf (isOpen_of_isPending hpend)
    refine h.modify fun f' hf' => ?_
    rw [hf] at hf'
    cases hf'
    have he := h.evolves hf
    refine ⟨rfl, rfl, id, ?_, ?_, he.active, id, he.generator, ?_, he.firstAlone, he.sheltered⟩
    · intro hc
      rw [show f.called = true from hc] at hnot
      cases hnot
    · intro hopen
      cases o <;> cases hopen
    · intro hact
      have hmain : f.active ≠ some .main := notMain hidle hf
      exact absurd hact hmain
  | @poolStart r f hf hk hpend =>
    have hnot := h.not_called hf (isOpen_of_isPending hpend)
    refine h.modify fun f' hf' => ?_
    rw [hf] at hf'
    cases hf'
    have he := h.evolves hf
    refine ⟨rfl, rfl, id, ?_, fun _ _ => hk, ?_, id, he.generator, ?_, ?_, fun _ => Or.inl hk⟩
    · intro hc
      rw [show f.called = true from hc] at hnot
      cases hnot
    · intro th hth
      cases hth
      exact Or.inr (Or.inr ⟨hk, rfl⟩)
    · intro hact
      cases hact
    · intro hgen
      rw [show f.handler = some .generator from hgen] at hk
      cases hk
  | @poolEnd r f th o hf hk hact =>
    refine h.modify fun f' hf' => ?_
    rw [hf] at hf'
    cases hf'
    have he := h.evolves hf
    refine ⟨rfl, rfl, id, ?_, fun _ _ => hk, ?_, id, he.generator, ?_, ?_, ?_⟩
    · intro hc
      have hdone : f.isOpen = false := he.done hc
      simp only [hdone, Bool.false_eq_true, if_false]
      exact hdone
    · intro th hth
      cases hth
    · intro hact
      cases hact
    · intro hgen hact
      exact absurd rfl hact
    · intro hact
      cases hact
  | deliver hf hk hcalled hc hidle =>
    obtain ⟨hd, hr⟩ := h.called hf hcalled hc
    exact hd.runCallback env _ hr

end Discipline

end Pygls
