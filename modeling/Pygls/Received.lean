import Pygls.LanguageServer

/-!
# The requests that are handed over

Only `_handle_request` adds to `received`: whatever else a step does, the requests
before it stay where they are, under the numbers that callbacks and answers carry.
-/

namespace Pygls

set_option autoImplicit false

variable {T : Type}

section Received

variable (env : Env T) (th : Thread)

theorem runCallback_received (cb : Callback) (c : Completion) (s : State T) :
    (State.runCallback env th cb c s).received = s.received := by
  refine runCallback_rule (I := fun t => t.received = s.received) (R := fun _ _ _ => True)
    ?_ ?_ ?_ cb c s rfl trivial
  · intro t id n c h _
    rw [(State.sendHandlerResult_sends env t id n c).received, h]
  · intro t r up c v h _
    exact h
  · intro t t' r up c e h _ _ hs
    obtain ⟨f, -, -, rfl⟩ := setOutcome_eq_some hs
    exact ⟨h, trivial⟩

theorem executeRaised_received (cb : Callback) (e : PyExc) (s : State T) :
    (State.executeRaised env th cb e s).received = s.received := by
  refine executeRaised_rule (I := fun t => t.received = s.received) (R := fun _ _ _ => True)
    (P := fun _ _ _ => True) ?_ ?_ ?_ ?_ cb e s rfl trivial
  · intro cb c t h _
    rw [runCallback_received, h]
  · intro t id n e h _
    rw [(State.sendException_sends env t n id e).received, h]
  · intro t t' r up e h _ hs
    obtain ⟨f, -, -, rfl⟩ := setOutcome_eq_some hs
    exact ⟨h, trivial⟩
  · intros
    trivial

theorem executeHandler_received (id : MsgId) (kind : HandlerKind) (cb : Callback) (start : Start)
    (s : State T) : (State.executeHandler env th id kind cb start s).received = s.received := by
  cases kind with
  | coroutine =>
    cases start with
    | some e => exact executeRaised_received env th cb e s
    | none =>
      cases th with
      | main => rfl
      | worker => exact executeRaised_received env .worker cb .runtimeError s
  | thread =>
    cases start with
    | some e => exact executeRaised_received env th cb e s
    | none => rfl
  | generator => rfl
  | sync => rfl

theorem cancel_received (s : State T) (r : Ref) :
    (State.cancel env th s r).received = s.received := by
  unfold State.cancel
  split
  · rfl
  · split
    · split
      · rfl
      · rfl
    · split
      · rw [runCallback_received]
        rfl
      · rfl

theorem cancelOthers_received (current : Option MsgId) (size : Nat)
    (entries : List (MsgId × Ref)) (s : State T) :
    (State.cancelOthers env th current size entries s).1.received = s.received := by
  induction entries generalizing s with
  | nil => rfl
  | cons entry rest ih =>
    rw [State.cancelOthers]
    split
    · rw [ih]
      split
      · exact cancel_received env th s entry.2
      · rfl
    · rfl

theorem handleResponse_received (s : State T) (id : MsgId) (o : Outcome) :
    (s.handleResponse env id o).received = s.received := by
  simp only [State.handleResponse]
  split
  · rfl
  · split
    · rfl
    · split
      · rfl
      · split
        · rw [runCallback_received]
          rfl
        · rfl

theorem shutdownEnd_received (s : State T) (r : Ref) (cb : Callback) :
    (s.shutdownEnd env r cb th).received = s.received := by
  have hloop := cancelOthers_received env th (cb.msgId th) s.requestFutures.size
    s.requestFutures.entries s
  simp only [State.shutdownEnd]
  split
  · rw [executeRaised_received]
    exact hloop
  · rw [executeRaised_received]
    exact hloop

end Received

/-- Nothing but a request that is let in is handed over. -/
theorem step_received {env : Env T} {s t : State T} {e : LanguageServer.Event}
    (hs : LanguageServer.step env s e = some t) :
    t.received = s.received ∨ ∃ (q : Request) (start : Start), e = .protocol (.request q start) ∧
      s.refuses q.method = false ∧ t.received = s.received ++ [(q, start)] := by
  cases e with
  | shutdown r =>
    obtain ⟨f, id, n, th, -, -, -, -, rfl⟩ := LanguageServer.shutdown_cases hs
    exact Or.inl (shutdownEnd_received env th s r _)
  | protocol e =>
    cases step_cases hs with
    | ignored => exact Or.inl rfl
    | @request q start _ hup =>
      refine Or.inr ⟨q, start, rfl, hup, ?_⟩
      simp only [State.handleRequest]
      split
      · exact (State.sendException_sends env _ _ _ _).received
      · rw [executeHandler_received]
    | notification =>
      left
      unfold State.handleNotification
      split
      · rfl
      · rw [executeHandler_received]
    | cancelRequest =>
      left
      unfold State.handleCancelNotification
      split
      · rfl
      · rw [cancel_received]
        rfl
    | response =>
      left
      simp only [State.receiveResult]
      split
      · rfl
      · split
        · rfl
        · rw [handleResponse_received]
          rfl
    | errorResponse =>
      left
      unfold State.receiveError
      split
      · rfl
      · split
        · rw [handleResponse_received]
        · rw [handleResponse_received]
    | sendRequest => exact Or.inl (State.sendRequest_received env s _ _ _)
    | cancelOutgoing => exact Or.inl (cancel_received env .main s _)
    | syncEnd =>
      left
      unfold State.syncEnd
      split
      · rename_i hset
        obtain ⟨f, -, -, rfl⟩ := setOutcome_eq_some hset
        rw [runCallback_received]
        rfl
      · rw [executeRaised_received]
        rfl
    | genYield =>
      left
      rw [executeHandler_received]
      rfl
    | genEnd =>
      left
      rw [executeRaised_received]
      rfl
    | taskEnd => exact Or.inl rfl
    | poolStart => exact Or.inl rfl
    | poolEnd => exact Or.inl rfl
    | deliver =>
      left
      rw [runCallback_received]
      rfl

theorem received_mono {env : Env T} {s t : State T} {e : LanguageServer.Event}
    (hs : LanguageServer.step env s e = some t) : s.received <+: t.received := by
  rcases step_received hs with heq | ⟨q, start, -, -, heq⟩
  · exact ⟨[], by rw [List.append_nil, heq]⟩
  · exact ⟨[(q, start)], heq.symm⟩

end Pygls
