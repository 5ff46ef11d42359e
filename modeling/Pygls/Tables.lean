import Pygls.LanguageServer

/-!
# The in-flight tables

`_request_futures` and `_result_types` should hold what is in flight: handlers that
have not finished and outgoing requests that have not been answered. An entry is
removed by `_send_handler_result`, a cancel notification or a response, so it
stays behind when a future is done whose callback is neither of these, and a
registered response class stays behind after an error response. `Tidy` excludes
exactly these steps.
-/

namespace Pygls

set_option autoImplicit false

variable {T : Type}

/-- What an event does to the ids of the outgoing requests without an answer. -/
def LanguageServer.Event.outstanding (ids : List MsgId) : LanguageServer.Event → List MsgId
  | .protocol (.sendRequest id _ _) => id :: ids
  | .protocol (.response id _) => ids.filter (· ≠ id)
  | .protocol (.errorResponse id _) => ids.filter (· ≠ id)
  | _ => ids

def outstanding (es : List LanguageServer.Event) : List MsgId :=
  es.foldl LanguageServer.Event.outstanding []

/-- An entry of `_request_futures`, but for the one that the callback about to run removes. -/
structure InFlightEntry (out : List MsgId) (cb : Callback) (id : MsgId) (f : Future) : Prop where
  outgoing : f.handler = none → id ∈ out
  handler : f.handler ≠ none → f.called = false ∨ ∃ n, cb = .sendHandlerResult id n
  notSync : f.handler ≠ some .sync
  own : ∀ (k : MsgId) (n : Nat), f.callback = .sendHandlerResult k n → k = id

structure InFlightBut (out : List MsgId) (s : State T) (cb : Callback) : Prop where
  entry : ∀ (id : MsgId) (r : Ref), s.requestFutures.get? id = some r →
    ∃ f, s.futures[r]? = some f ∧ InFlightEntry out cb id f
  once : ∀ (id id' : MsgId) (r : Ref), s.requestFutures.get? id = some r →
    s.requestFutures.get? id' = some r → id = id'
  types : ∀ id, s.resultTypes.get? id ≠ none → id ∈ out

abbrev InFlight (out : List MsgId) (s : State T) : Prop := InFlightBut out s .client

/-- If the handler's future is in the table, its callback removes it. -/
def Released (s : State T) (r : Ref) : Prop :=
  ∀ (id : MsgId) (f : Future), s.requestFutures.get? id = some r → s.futures[r]? = some f →
    f.handler ≠ none → ∃ k n, f.callback = .sendHandlerResult k n

/-- Every generator that an exception ends on its way through the callback is released. -/
def Forgets (s : State T) (cb : Callback) (c : Completion) : Prop :=
  Along s (Released s) (fun _ _ => True) cb c

/-- The same for an exception that leaves `_execute_handler`. -/
def ForgetsRaised (s : State T) (cb : Callback) (x : PyExc) : Prop :=
  AlongRaised s (Released s) (fun _ _ => True) cb x

section Mono

variable {s t : State T}

theorem Released.mono {r : Ref} (h : Released s r) (hst : Shrinks s t) : Released t r := by
  intro id f hid hf hk
  obtain ⟨g, hg, hgk, hgcb⟩ := hst.future hf
  obtain ⟨k, n, hcb⟩ := h id g (hst.table id r hid) hg (hgk ▸ hk)
  exact ⟨k, n, hgcb ▸ hcb⟩

theorem Forgets.mono (hst : Shrinks s t) {cb : Callback} {c : Completion} (h : Forgets s cb c) :
    Forgets t cb c :=
  Along.mono hst (fun _ hr => hr.mono hst) (fun _ _ _ => trivial) h

theorem forgets_returned (s : State T) (cb : Callback) (v : PyValue) :
    Forgets s cb (.finished (.returned v)) := by
  cases cb with
  | runGenerator r up => exact Or.inr trivial
  | _ => trivial

end Mono

namespace InFlightBut

variable {out : List MsgId} {s t : State T} {cb : Callback}

/-- Only the answer's callback exempts an entry. -/
theorem settled (h : InFlightBut out s cb) (hcb : ∀ id n, cb ≠ .sendHandlerResult id n) :
    InFlight out s := by
  refine ⟨?_, h.once, h.types⟩
  intro id r hr
  obtain ⟨f, hf, he⟩ := h.entry id r hr
  refine ⟨f, hf, { he with handler := ?_ }⟩
  intro hk
  rcases he.handler hk with hc | ⟨n, hn⟩
  · exact Or.inl hc
  · exact absurd hn (hcb id n)

theorem congr (h : InFlightBut out s cb) (hf : t.futures = s.futures)
    (ht : ∀ id r, t.requestFutures.get? id = some r → s.requestFutures.get? id = some r)
    (hty : ∀ id, t.resultTypes.get? id ≠ none → s.resultTypes.get? id ≠ none) :
    InFlightBut out t cb := by
  refine ⟨?_, ?_, ?_⟩
  · intro id r hr
    rw [hf]
    exact h.entry id r (ht id r hr)
  · intro id id' r hr hr'
    exact h.once id id' r (ht id r hr) (ht id' r hr')
  · intro id hid
    exact h.types id (hty id hid)

theorem popFuture (h : InFlightBut out s cb) (id : MsgId) : InFlightBut out (s.popFuture id) cb :=
  h.congr rfl (Shrinks.of_pop s id).table fun _ hid => hid

theorem popType (h : InFlightBut out s cb) (id : MsgId) : InFlightBut out (s.popType id) cb := by
  refine h.congr rfl (fun _ _ hr => hr) ?_
  intro k hk hnone
  exact hk (Lib.Dict.get?_pop_of_none hnone)

/-- The callback of a request's future takes its entry out of the table. -/
theorem answer {id : MsgId} {n : Nat} (h : InFlightBut out s (.sendHandlerResult id n))
    (env : Env T) (c : Completion) : InFlight out (s.sendHandlerResult env id n c) := by
  have hs := State.sendHandlerResult_sends env s id n c
  refine ⟨?_, ?_, ?_⟩
  · intro k r hr
    rw [sendHandlerResult_requestFutures, Lib.Dict.get?_pop] at hr
    split at hr
    · cases hr
    · rename_i hne
      obtain ⟨f, hf, he⟩ := h.entry k r hr
      refine ⟨f, by rw [hs.futures]; exact hf, { he with handler := ?_ }⟩
      intro hk
      rcases he.handler hk with hc | ⟨m, hm⟩
      · exact Or.inl hc
      · cases hm
        exact absurd rfl hne
  · intro k k' r hr hr'
    exact h.once k k' r ((Shrinks.of_answer env s id n c).table k r hr)
      ((Shrinks.of_answer env s id n c).table k' r hr')
  · intro k hk
    exact h.types k fun hnone => hk ((Shrinks.of_answer env s id n c).types k hnone)

/-- A future changes, and its callback is the next to run if it is done now. -/
theorem modify (h : InFlight out s) {r : Ref} {f : Future} (hf : s.futures[r]? = some f)
    {g : Future → Future} (hk : (g f).handler = f.handler) (hcb : (g f).callback = f.callback)
    (hrel : (g f).called = false ∨ Released s r) : InFlightBut out (s.modify r g) f.callback := by
  refine ⟨?_, h.once, h.types⟩
  intro id i hi
  obtain ⟨f₀, hf₀, he⟩ := h.entry id i hi
  rw [State.getElem?_modify]
  split
  · rename_i hri
    subst hri
    rw [hf] at hf₀
    cases hf₀
    refine ⟨g f, by rw [hf]; rfl, ?_, ?_, ?_, ?_⟩
    · rw [hk]
      exact he.outgoing
    · rw [hk]
      intro hne
      rcases hrel with hc | hrel
      · exact Or.inl hc
      · obtain ⟨k, n, hkn⟩ := hrel id f hi hf hne
        exact Or.inr ⟨n, by rw [hkn, he.own k n hkn]⟩
    · rw [hk]
      exact he.notSync
    · rw [hcb]
      exact he.own
  · refine ⟨f₀, hf₀, { he with handler := ?_ }⟩
    intro hne
    rcases he.handler hne with hc | ⟨n, hn⟩
    · exact Or.inl hc
    · cases hn

theorem settle (h : InFlight out s) {r : Ref} {f : Future} (hf : s.futures[r]? = some f)
    (hrel : Released s r) (st : FutureState) :
    InFlightBut out (s.modify r (Future.settle st)) f.callback :=
  h.modify hf rfl rfl (Or.inr hrel)

/-- A change that leaves the callback for later. -/
theorem update (h : InFlight out s) {r : Ref} {g : Future → Future}
    (hk : ∀ f, (g f).handler = f.handler) (hcb : ∀ f, (g f).callback = f.callback)
    (hc : ∀ f, (g f).called = f.called) : InFlight out (s.modify r g) := by
  refine ⟨?_, h.once, h.types⟩
  intro id i hi
  obtain ⟨f, hf, he⟩ := h.entry id i hi
  rw [State.getElem?_modify]
  split
  · refine ⟨g f, by rw [hf]; rfl, ?_, ?_, ?_, ?_⟩
    · rw [hk]
      exact he.outgoing
    · rw [hk, hc]
      exact he.handler
    · rw [hk]
      exact he.notSync
    · rw [hcb]
      exact he.own
  · exact ⟨f, hf, he⟩

end InFlightBut

/-- What is known when a callback is called. -/
structure Leaving (out : List MsgId) (s : State T) (cb : Callback) (c : Completion) : Prop where
  inFlight : InFlightBut out s cb
  linked : Linked s
  owner : ∃ (i : Ref) (f : Future), s.futures[i]? = some f ∧ f.callback = cb
  forgets : Forgets s cb c

section Run

variable {out : List MsgId} {env : Env T} {s s' : State T}

theorem leaving_of_setOutcome (h : InFlight out s) (hl : Linked s) {r : Ref} {f : Future}
    {o : Outcome} (hf : s.futures[r]? = some f) (hrel : Released s r)
    (hforget : Forgets s f.callback (.finished o)) (hs : s.setOutcome r o = some s') :
    Leaving out s' f.callback (.finished o) := by
  have hshrink := Shrinks.of_setOutcome hs
  obtain ⟨g, -, -, rfl⟩ := setOutcome_eq_some hs
  exact ⟨h.settle hf hrel _, hl.congr hshrink.skeleton,
    ⟨r, _, State.getElem?_modify_self hf, rfl⟩, hforget.mono hshrink⟩

theorem runCallback_inFlight {cb : Callback} {c : Completion} (th : Thread)
    (h : Leaving out s cb c) : InFlight out (State.runCallback env th cb c s) := by
  refine runCallback_ind (R := Leaving out) ?_ ?_ ?_ ?_ ?_ ?_ ?_ ?_ cb c s h
  · intro s id n c h
    exact h.inFlight.answer env c
  · intro s c h
    exact h.inFlight.settled fun _ _ heq => nomatch heq
  · intro s c h
    exact h.inFlight
  · intro s r up c h _
    exact h.inFlight.settled fun _ _ heq => nomatch heq
  · intro s r up c h _ _
    exact h.inFlight.settled fun _ _ heq => nomatch heq
  · intro s r up c v h _ _
    have hin := h.inFlight.settled fun _ _ heq => nomatch heq
    exact hin.update (fun _ => rfl) (fun _ => rfl) (fun _ => rfl)
  · intro s r up c x h _ _ _
    exact h.inFlight.settled fun _ _ heq => nomatch heq
  · intro s s' r up c x h _ hx hs
    have hin := h.inFlight.settled fun _ _ heq => nomatch heq
    obtain ⟨i, f, hf, hcb⟩ := h.owner
    obtain ⟨g, hg, hup, -⟩ := h.linked.parent hf hcb
    subst hup
    rcases h.forgets with hnot | hforget
    · rw [pendingAt_of_setOutcome hs] at hnot
      cases hnot
    · simp only [hx] at hforget
      exact leaving_of_setOutcome hin h.linked hg hforget.1 hforget.2 hs

/-- What is known where `_execute_handler` raises. -/
structure Failing (out : List MsgId) (s : State T) (cb : Callback) (x : PyExc) : Prop where
  inFlight : InFlight out s
  linked : Linked s
  owner : ∀ r up, cb = .runGenerator r up → ∃ f, s.futures[r]? = some f ∧ f.callback = up
  forgets : ForgetsRaised s cb x

theorem executeRaised_inFlight {cb : Callback} {x : PyExc} (th : Thread)
    (h : Failing out s cb x) : InFlight out (State.executeRaised env th cb x s) := by
  refine executeRaised_ind (R := Leaving out) (P := Failing out) ?_ ?_ ?_ ?_ ?_ ?_ ?_ cb x s h
  · intro cb c s h
    exact runCallback_inFlight th h
  · intro s id n x h
    have hs := State.sendException_sends env s n id x
    refine h.inFlight.congr hs.futures ?_ ?_
    · rw [sendException_requestFutures]
      exact fun _ _ hr => hr
    · rw [sendException_resultTypes]
      exact fun _ hid => hid
  · intro s x h
    exact h.inFlight
  · intro s x h
    exact h.inFlight
  · intro s s' r up x h hs
    obtain ⟨f, hf, hup⟩ := h.owner r up rfl
    subst hup
    rcases h.forgets with ⟨-, hrel, hforget⟩ | ⟨hnot, -⟩
    · exact leaving_of_setOutcome h.inFlight h.linked hf hrel hforget hs
    · rw [pendingAt_of_setOutcome hs] at hnot
      cases hnot
  · intro s r up x h _ _
    exact h.inFlight
  · intro s r up x h hnone hres
    obtain ⟨f, hf, hup⟩ := h.owner r up rfl
    rcases h.forgets with ⟨hpend, -⟩ | ⟨-, hres' | hforget⟩
    · rw [pendingAt_of_setOutcome_none hnone] at hpend
      cases hpend
    · rw [hres] at hres'
      cases hres'
    · refine ⟨h.inFlight, h.linked, ?_, hforget⟩
      intro p up' heq
      rw [heq] at hup
      obtain ⟨g, hg, hgup, -⟩ := h.linked.parent hf hup
      exact ⟨g, hg, hgup⟩

theorem alloc_inFlight (h : InFlight out s) (g : Future) : InFlight out (s.alloc g) := by
  refine ⟨?_, h.once, h.types⟩
  intro id r hr
  obtain ⟨f, hf, he⟩ := h.entry id r hr
  exact ⟨f, Discipline.getElem?_alloc_of_some hf, he⟩

/-- A new future goes into the table. -/
theorem register_inFlight (h : InFlight out s) {id : MsgId} {g : Future}
    (he : InFlightEntry out .client id g) : InFlight out ((s.alloc g).register id s.fresh) := by
  have hnew : (s.alloc g).futures[s.fresh]? = some g := by
    simp [State.alloc, State.fresh]
  have hold : ∀ (k : MsgId), s.requestFutures.get? k ≠ some s.fresh := by
    intro k hk
    obtain ⟨f, hf, -⟩ := h.entry k _ hk
    obtain ⟨hlt, -⟩ := List.getElem?_eq_some_iff.mp hf
    exact absurd hlt (Nat.lt_irrefl _)
  refine ⟨?_, ?_, h.types⟩
  · intro k r hr
    simp only [State.register, Lib.Dict.get?_set] at hr
    split at hr
    · rename_i hk
      cases hr
      exact ⟨g, hnew, hk ▸ he⟩
    · exact (alloc_inFlight h g).entry k r hr
  · intro k k' r hr hr'
    simp only [State.register, Lib.Dict.get?_set] at hr hr'
    split at hr
    · rename_i hk
      cases hr
      split at hr'
      · rename_i hk'
        rw [hk, hk']
      · exact absurd hr' (hold k')
    · split at hr'
      · cases hr'
        exact absurd hr (hold k)
      · exact h.once k k' r hr hr'

theorem executeHandler_inFlight (th : Thread) (id : MsgId) (kind : HandlerKind) {cb : Callback}
    {start : Start} (h : InFlight out s) (hown : ∀ k n, cb = .sendHandlerResult k n → k = id)
    (hraise : ∀ x, startRaises kind th start = some x → Failing out s cb x) :
    InFlight out (State.executeHandler env th id kind cb start s) := by
  have entry : ∀ (kind : HandlerKind) (act : Option Thread), kind ≠ .sync →
      InFlightEntry out .client id { Future.pending (some kind) cb with active := act } := by
    intro kind act hk
    refine ⟨?_, fun _ => Or.inl rfl, ?_, hown⟩
    · intro hnone
      cases hnone
    · intro hsync
      exact hk (Option.some.inj hsync)
  cases kind with
  | coroutine =>
    cases start with
    | some x => exact executeRaised_inFlight th (hraise x rfl)
    | none =>
      cases th with
      | main => exact register_inFlight h (entry .coroutine none nofun)
      | worker => exact executeRaised_inFlight .worker (hraise .runtimeError rfl)
  | thread =>
    cases start with
    | some x => exact executeRaised_inFlight th (hraise x rfl)
    | none => exact register_inFlight h (entry .thread none nofun)
  | generator => exact register_inFlight h (entry .generator (some th) nofun)
  | sync => exact alloc_inFlight h _

theorem cancel_inFlight (th : Thread) (h : InFlight out s) (hl : Linked s) {r : Ref}
    (hok : ∀ f, s.futures[r]? = some f → f.isTask = false → f.isPending = true →
      Released s r ∧ Forgets s f.callback .cancelled) :
    InFlight out (State.cancel env th s r) := by
  unfold State.cancel
  split
  · exact h
  · rename_i f hf
    split
    · split
      · exact h.update (fun _ => rfl) (fun _ => rfl) (fun _ => rfl)
      · exact h
    · rename_i htask
      split
      · rename_i hpend
        obtain ⟨hrel, hforget⟩ := hok f hf (by simpa using htask) hpend
        have hshrink : Shrinks s (s.modify r (Future.settle .cancelled)) :=
          Shrinks.of_settle s r FutureState.cancelled_ne_pending
        exact runCallback_inFlight th ⟨h.settle hf hrel _, hl.congr hshrink.skeleton,
          ⟨r, _, State.getElem?_modify_self hf, rfl⟩, hforget.mono hshrink⟩
      · exact h

theorem released_popFuture (h : InFlight out s) {id : MsgId} {r : Ref}
    (hr : s.requestFutures.get? id = some r) : Released (s.popFuture id) r := by
  intro k f hk
  simp only [State.popFuture, Lib.Dict.get?_pop] at hk
  split at hk
  · cases hk
  · rename_i hne
    exact absurd (h.once k id r hk hr) hne

theorem handleResponse_inFlight (h : InFlight out s) (hl : Linked s) (id : MsgId) (o : Outcome)
    (hok : ∀ (r : Ref) (f : Future), s.requestFutures.get? id = some r → s.futures[r]? = some f →
      Forgets s f.callback (.finished o)) : InFlight out (s.handleResponse env id o) := by
  have hpop := h.popFuture id
  simp only [State.handleResponse]
  split
  · exact h
  · rename_i r hr
    split
    · exact hpop
    · rename_i f hf
      split
      · exact hpop
      · split
        · have hshrink : Shrinks s ((s.popFuture id).modify r (Future.settle (.finished o))) :=
            (Shrinks.of_pop s id).trans (Shrinks.of_settle _ r (FutureState.finished_ne_pending o))
          exact runCallback_inFlight .main ⟨hpop.settle hf (released_popFuture h hr) _,
            hl.congr hshrink.skeleton, ⟨r, _, State.getElem?_modify_self hf, rfl⟩,
            (hok r f hr hf).mono hshrink⟩
        · exact hpop

/-- The outgoing request with this id has its answer, and nothing is kept for it. -/
theorem InFlightBut.answered (h : InFlight out s) {id : MsgId}
    (hout : ∀ (r : Ref) (f : Future), s.requestFutures.get? id = some r → s.futures[r]? = some f →
      f.handler ≠ none) (hty : s.resultTypes.get? id = none) :
    InFlight (out.filter (· ≠ id)) s := by
  refine ⟨?_, h.once, ?_⟩
  · intro k r hr
    obtain ⟨f, hf, he⟩ := h.entry k r hr
    refine ⟨f, hf, { he with outgoing := ?_ }⟩
    intro hnone
    refine List.mem_filter.mpr ⟨he.outgoing hnone, ?_⟩
    refine decide_eq_true fun hk => ?_
    subst hk
    exact hout r f hr hf hnone
  · intro k hk
    refine List.mem_filter.mpr ⟨h.types k hk, ?_⟩
    refine decide_eq_true fun heq => ?_
    subst heq
    exact hk hty

theorem cancelOthers_inFlight (th : Thread) (current : Option MsgId) (size : Nat)
    (entries : List (MsgId × Ref)) (s : State T) (h : InFlight out s) (hl : Linked s)
    (hok : ∀ (id : MsgId) (r : Ref) (f : Future), (id, r) ∈ entries → some id ≠ current →
      s.futures[r]? = some f → f.isTask = false → f.isPending = true →
      Released s r ∧ Forgets s f.callback .cancelled) :
    InFlight out (State.cancelOthers env th current size entries s).1 := by
  induction entries generalizing s with
  | nil => exact h
  | cons entry rest ih =>
    obtain ⟨id, r⟩ := entry
    rw [State.cancelOthers]
    split
    · split
      · rename_i hcancel
        have hshrink := Shrinks.cancel env th s r
        refine ih _ ?_ (hl.congr hshrink.skeleton) ?_
        · exact cancel_inFlight th h hl fun f => hok id r f List.mem_cons_self hcancel.1
        · intro k i f hmem hk hf htask hpend
          obtain ⟨g, hg, hgk, hgcb⟩ := hshrink.future hf
          have hgpend : g.isPending = true := by
            have hat := hshrink.pending i ((Option.any_eq_true _ _).mpr ⟨f, hf, hpend⟩)
            rwa [State.pendingAt, hg] at hat
          have hgtask : g.isTask = false := by
            unfold Future.isTask at htask ⊢
            rw [hgk]
            exact htask
          obtain ⟨hrel, hforget⟩ := hok k i g (List.mem_cons_of_mem _ hmem) hk hg hgtask hgpend
          exact ⟨hrel.mono hshrink, hgcb ▸ hforget.mono hshrink⟩
      · exact ih s h hl fun k i f hmem => hok k i f (List.mem_cons_of_mem _ hmem)
    · exact h

end Run

/-- The entry under the id is that of an outgoing request. -/
def Outgoing (s : State T) (id : MsgId) : Prop :=
  ∃ (r : Ref) (f : Future), s.requestFutures.get? id = some r ∧ s.futures[r]? = some f ∧
    f.handler = none

/-- The step leaves no entry behind. -/
def Tidy (env : Env T) (s : State T) : LanguageServer.Event → Prop
  | .protocol (.cancelRequest id) => ∀ (r : Ref) (f : Future),
      s.requestFutures.get? id = some r → s.futures[r]? = some f → Forgets s f.callback .cancelled
  | .protocol (.response id result) => Outgoing s id →
      s.shutdown = false ∧ env.structureResult (s.resultTypes.get? id).join result ≠ none
  | .protocol (.errorResponse id error) => s.resultTypes.get? id = none ∧
      (Outgoing s id → s.shutdown = false) ∧
      ∀ (r : Ref) (f : Future) (e : ResponseError), s.requestFutures.get? id = some r →
        s.futures[r]? = some f → error = some e →
        Forgets s f.callback (.finished (.raised (.jsonRpc (.fromError e))))
  | .protocol (.syncEnd r o) => ∀ (f : Future), s.futures[r]? = some f →
      (s.pendingAt r = true → Forgets s f.callback (.finished o)) ∧
      (s.pendingAt r = false → ForgetsRaised s f.callback .invalidStateError)
  | .protocol (.genYield r _ kind start) => ∀ (f : Future) (th : Thread) (x : PyExc),
      s.futures[r]? = some f → f.active = some th → startRaises kind th start = some x →
      ForgetsRaised s (.runGenerator r f.callback) x
  | .protocol (.genEnd r o) => ∀ (f : Future), s.futures[r]? = some f →
      ForgetsRaised s (.runGenerator r f.callback) o.sendExc
  | .protocol (.deliver r _) => ∀ (f : Future) (c : Completion), s.futures[r]? = some f →
      f.completion = some c → Released s r ∧ Forgets s f.callback c
  | .shutdown r => ∀ (f : Future) (th : Thread), s.futures[r]? = some f → f.active = some th →
      ∀ (id : MsgId) (i : Ref) (g : Future), s.requestFutures.get? id = some i →
        some id ≠ f.callback.msgId th → s.futures[i]? = some g → g.isTask = false →
        g.isPending = true → Released s i ∧ Forgets s g.callback .cancelled
  | _ => True

section Step

variable {out : List MsgId} {env : Env T} {s s' : State T}

theorem forgetsRaised_leave (r : Ref) {cb : Callback} {x : PyExc} (h : ForgetsRaised s cb x) :
    ForgetsRaised (s.leave r) cb x :=
  AlongRaised.leave r (fun _ hr => hr.mono (Shrinks.leave s r)) (fun _ _ _ => trivial) h

theorem leave_inFlight (h : InFlight out s) (r : Ref) : InFlight out (s.leave r) :=
  h.update (fun _ => rfl) (fun _ => rfl) (fun _ => rfl)

theorem failing_leave (h : InFlight out s) (hl : Linked s) {r : Ref} {f : Future} {x : PyExc}
    (hf : s.futures[r]? = some f) (hok : ForgetsRaised s (.runGenerator r f.callback) x) :
    Failing out (s.leave r) (.runGenerator r f.callback) x := by
  refine ⟨leave_inFlight h r, hl.congr (State.skeleton_leave s r), ?_, forgetsRaised_leave r hok⟩
  intro p up heq
  cases heq
  exact ⟨_, State.getElem?_modify_self hf, rfl⟩

theorem syncEnd_inFlight (h : InFlight out s) (hl : Linked s) {r : Ref} {f : Future} {th : Thread}
    {o : Outcome} (hf : s.futures[r]? = some f) (hk : f.handler = some .sync)
    (hok : (s.pendingAt r = true → Forgets s f.callback (.finished o)) ∧
      (s.pendingAt r = false → ForgetsRaised s f.callback .invalidStateError)) :
    InFlight out (State.syncEnd env s r f.callback th o) := by
  have hf' := State.getElem?_modify_self (g := fun f => { f with active := none }) hf
  have hl' : Linked (s.leave r) := hl.congr (State.skeleton_leave s r)
  unfold State.syncEnd
  split
  · rename_i s' hs
    have hat : s.pendingAt r = true := by
      rw [← pendingAt_leave s r]
      exact pendingAt_of_setOutcome hs
    -- a sync handler's future is never in the table
    have hrel : Released (s.leave r) r := by
      intro id g hid hg' _
      obtain ⟨f₀, hf₀, he⟩ := h.entry id r hid
      rw [hf] at hf₀
      cases hf₀
      exact absurd hk he.notSync
    have hforget := (hok.1 hat).mono (Shrinks.leave s r)
    have hleaving := leaving_of_setOutcome (leave_inFlight h r) hl' hf' hrel hforget hs
    exact runCallback_inFlight th hleaving
  · rename_i hnone
    have hat : s.pendingAt r = false := by
      rw [← pendingAt_leave s r]
      exact pendingAt_of_setOutcome_none hnone
    refine executeRaised_inFlight th
      ⟨leave_inFlight h r, hl', ?_, forgetsRaised_leave r (hok.2 hat)⟩
    intro p up heq
    obtain ⟨g, hg, hgup, -⟩ := hl'.parent hf' heq
    exact ⟨g, hg, hgup⟩

theorem shutdownEnd_inFlight (h : InFlight out s) (hl : Linked s) {r : Ref} {f : Future}
    {th : Thread} {id : MsgId} {n : Nat} (hf : s.futures[r]? = some f)
    (hcb : f.callback = .sendHandlerResult id n)
    (hok : ∀ (k : MsgId) (i : Ref) (g : Future), s.requestFutures.get? k = some i →
      some k ≠ Callback.msgId (.sendHandlerResult id n) th → s.futures[i]? = some g →
      g.isTask = false → g.isPending = true → Released s i ∧ Forgets s g.callback .cancelled) :
    InFlight out (s.shutdownEnd env r (.sendHandlerResult id n) th) := by
  have hloop : InFlight out (State.cancelOthers env th
      (Callback.msgId (.sendHandlerResult id n) th) s.requestFutures.size
      s.requestFutures.entries s).1 := by
    refine cancelOthers_inFlight th _ _ _ s h hl ?_
    intro k i g hmem
    exact hok k i g (Lib.Dict.get?_of_mem hmem)
  have hsk := State.skeleton_cancelOthers env th (Callback.msgId (.sendHandlerResult id n) th)
    s.requestFutures.size s.requestFutures.entries s
  -- the generator's own callback takes its entry out
  have hend : ∀ (t : State T) (x : PyExc), InFlight out t → t.skeleton = s.skeleton →
      InFlight out (State.executeRaised env th (.runGenerator r (.sendHandlerResult id n)) x
        (t.leave r)) := by
    intro t x ht htsk
    have hr : s.skeleton[r]? = some (f.handler, .sendHandlerResult id n) := by
      rw [State.getElem?_skeleton, hf, ← hcb]
      rfl
    rw [← htsk, State.getElem?_skeleton] at hr
    obtain ⟨g, hg, heq⟩ := Option.map_eq_some_iff.mp hr
    obtain ⟨-, hgcb⟩ := Prod.mk.inj heq
    have hrel : Released t r := by
      intro k g' _ hg' _
      rw [hg] at hg'
      cases hg'
      exact ⟨id, n, hgcb⟩
    rw [← hgcb]
    refine executeRaised_inFlight th (failing_leave ht (hl.congr htsk) hg ?_)
    rw [hgcb]
    cases hp : t.pendingAt r with
    | true => exact Or.inl ⟨hp, hrel, trivial⟩
    | false => exact Or.inr ⟨hp, Or.inr trivial⟩
  simp only [State.shutdownEnd]
  split
  · refine hend _ _ ?_ hsk
    exact hloop.congr rfl (fun _ _ hr => hr) (fun _ hty => hty)
  · exact hend _ _ hloop hsk

theorem handleRequest_inFlight (h : InFlight out s) (hl : Linked s) (q : Request) (start : Start) :
    InFlight out (s.handleRequest env q start) := by
  have h' : InFlight out { s with received := s.received ++ [(q, start)] } :=
    h.congr rfl (fun _ _ hr => hr) (fun _ hty => hty)
  have failing : ∀ x, Failing out { s with received := s.received ++ [(q, start)] }
      (.sendHandlerResult q.id s.received.length) x := by
    intro x
    refine ⟨h', hl.congr rfl, ?_, trivial⟩
    intro r up heq
    cases heq
  unfold State.handleRequest
  split
  · exact executeRaised_inFlight .main (failing _)
  · refine executeHandler_inFlight .main q.id _ h' ?_ fun x _ => failing x
    intro k n heq
    cases heq
    rfl

theorem handleNotification_inFlight (h : InFlight out s) (hl : Linked s) (method : Method)
    (uuid : Str) (start : Start) : InFlight out (s.handleNotification env method uuid start) := by
  unfold State.handleNotification
  split
  · exact h
  · refine executeHandler_inFlight .main _ _ h ?_ ?_
    · intro k n heq
      cases heq
    · intro x _
      refine ⟨h, hl, ?_, trivial⟩
      intro r up heq
      cases heq

theorem handleCancelNotification_inFlight (h : InFlight out s) (hl : Linked s) (id : MsgId)
    (hok : ∀ (r : Ref) (f : Future), s.requestFutures.get? id = some r → s.futures[r]? = some f →
      Forgets s f.callback .cancelled) : InFlight out (s.handleCancelNotification env id) := by
  unfold State.handleCancelNotification
  split
  · exact h
  · rename_i r hr
    refine cancel_inFlight .main (h.popFuture id) (hl.congr rfl) ?_
    intro f hf _ _
    exact ⟨released_popFuture h hr, (hok r f hr hf).mono (Shrinks.of_pop s id)⟩

/-- `_handle_response` has taken the entry out. -/
theorem not_outgoing_handleResponse (env : Env T) (s : State T) (id : MsgId) (o : Outcome) :
    (s.handleResponse env id o).requestFutures.get? id = none := by
  rcases Shrinks.handleResponse env s id o with hshrink | ⟨heq, hnone⟩
  · cases hget : (s.handleResponse env id o).requestFutures.get? id with
    | none => rfl
    | some r =>
      have hpop := hshrink.table id r hget
      rw [State.popFuture, Lib.Dict.get?_pop_self] at hpop
      cases hpop
  · rw [heq, hnone]

theorem types_handleResponse (env : Env T) {s : State T} {id : MsgId} (o : Outcome)
    (h : s.resultTypes.get? id = none) : (s.handleResponse env id o).resultTypes.get? id = none := by
  rcases Shrinks.handleResponse env s id o with hshrink | ⟨heq, -⟩
  · exact hshrink.types id h
  · rw [heq, h]

theorem receiveResult_inFlight (h : InFlight out s) (hl : Linked s) {id : MsgId} {result : Json}
    (hok : Outgoing s id →
      s.shutdown = false ∧ env.structureResult (s.resultTypes.get? id).join result ≠ none) :
    InFlight (out.filter (· ≠ id)) (s.receiveResult env id result) := by
  have hpop := h.popType id
  have hty : (s.popType id).resultTypes.get? id = none := Lib.Dict.get?_pop_self _ _
  simp only [State.receiveResult]
  split
  · rename_i hnone
    refine hpop.answered ?_ hty
    intro r f hr hf hout
    exact absurd hnone (hok ⟨r, f, hr, hf, hout⟩).2
  · rename_i v _
    split
    · rename_i hdown
      refine hpop.answered ?_ hty
      intro r f hr hf hout
      have hup := (hok ⟨r, f, hr, hf, hout⟩).1
      rw [show s.shutdown = true from hdown] at hup
      cases hup
    · refine (handleResponse_inFlight hpop (hl.congr rfl) id _
        fun r f _ _ => forgets_returned _ _ v).answered ?_ (types_handleResponse env _ hty)
      intro r f hr
      rw [not_outgoing_handleResponse] at hr
      cases hr

theorem receiveError_inFlight (h : InFlight out s) (hl : Linked s) {id : MsgId}
    {error : Option ResponseError} (hty : s.resultTypes.get? id = none)
    (hout : Outgoing s id → s.shutdown = false)
    (hok : ∀ (r : Ref) (f : Future) (e : ResponseError), s.requestFutures.get? id = some r →
      s.futures[r]? = some f → error = some e →
      Forgets s f.callback (.finished (.raised (.jsonRpc (.fromError e))))) :
    InFlight (out.filter (· ≠ id)) (s.receiveError env id error) := by
  have handled : ∀ o, InFlight out (s.handleResponse env id o) →
      InFlight (out.filter (· ≠ id)) (s.handleResponse env id o) := by
    intro o hin
    refine hin.answered ?_ (types_handleResponse env o hty)
    intro r f hr
    rw [not_outgoing_handleResponse] at hr
    cases hr
  unfold State.receiveError
  split
  · rename_i hdown
    refine h.answered ?_ hty
    intro r f hr hf hnone
    rw [hout ⟨r, f, hr, hf, hnone⟩] at hdown
    cases hdown
  · cases error with
    | none =>
      exact handled _ (handleResponse_inFlight h hl id _ fun r f _ _ => forgets_returned s _ _)
    | some e =>
      exact handled _ (handleResponse_inFlight h hl id _ fun r f hr hf => hok r f e hr hf rfl)

theorem sendRequest_inFlight (h : InFlight out s) (id : MsgId) (method : Method)
    (params : PyValue) : InFlight (id :: out) (s.sendRequest env id method params) := by
  have hmono : InFlight (id :: out) s := by
    refine ⟨?_, h.once, fun k hk => List.mem_cons_of_mem id (h.types k hk)⟩
    intro k r hr
    obtain ⟨f, hf, he⟩ := h.entry k r hr
    exact ⟨f, hf, { he with outgoing := fun hnone => List.mem_cons_of_mem id (he.outgoing hnone) }⟩
  have hreg : InFlight (id :: out) ((s.alloc (.pending none .client)).register id s.fresh) := by
    refine register_inFlight hmono ⟨fun _ => List.mem_cons_self, ?_, ?_, ?_⟩
    · intro hk
      exact absurd rfl hk
    · intro hsync
      cases hsync
    · intro k n hcb
      cases hcb
  have htyped : InFlight (id :: out)
      { (s.alloc (.pending none .client)).register id s.fresh with
        resultTypes := s.resultTypes.set id (env.getResultType method) } := by
    refine ⟨hreg.entry, hreg.once, ?_⟩
    intro k hk
    simp only [Lib.Dict.get?_set] at hk
    split at hk
    · rename_i hkid
      rw [hkid]
      exact List.mem_cons_self
    · exact hmono.types k hk
  refine htyped.congr (State.sendRequest_futures env s id method params) ?_ ?_
  · intro k r hr
    rwa [State.sendRequest_requestFutures] at hr
  · intro k hty
    rwa [State.sendRequest_resultTypes] at hty

theorem step_inFlight {e : LanguageServer.Event} (h : InFlight out s) (hl : Linked s)
    (hok : Tidy env s e) (hs : LanguageServer.step env s e = some s') :
    InFlight (e.outstanding out) s' := by
  cases e with
  | shutdown r =>
    obtain ⟨f, id, n, th, hf, -, hact, hcb, rfl⟩ := LanguageServer.shutdown_cases hs
    refine shutdownEnd_inFlight h hl hf hcb ?_
    rw [← hcb]
    exact hok f th hf hact
  | protocol e =>
    cases step_cases hs with
    | ignored hdown hmsg =>
      cases e with
      | request q start => exact h
      | notification method uuid start => exact h
      | cancelRequest id => exact h
      | _ => cases hmsg
    | request hidle hup => exact handleRequest_inFlight h hl _ _
    | notification hidle hup => exact handleNotification_inFlight h hl _ _ _
    | cancelRequest hidle hup => exact handleCancelNotification_inFlight h hl _ hok
    | response hidle => exact receiveResult_inFlight h hl hok
    | errorResponse hidle => exact receiveError_inFlight h hl hok.1 hok.2.1 hok.2.2
    | sendRequest => exact sendRequest_inFlight h _ _ _
    | @cancelOutgoing r f hf hnone =>
      refine cancel_inFlight .main h hl ?_
      intro g hg _ _
      rw [hf] at hg
      cases hg
      rw [hl.client hf hnone]
      refine ⟨?_, trivial⟩
      intro id g _ hg hk
      rw [hf] at hg
      cases hg
      exact absurd hnone hk
    | syncEnd hf hk hact => exact syncEnd_inFlight h hl hf hk (hok _ hf)
    | @genYield r f th uuid kind start hf hk hact =>
      refine executeHandler_inFlight th _ kind (leave_inFlight h r) ?_ ?_
      · intro k n heq
        cases heq
      · intro x hx
        exact failing_leave h hl hf (hok f th x hf hact hx)
    | @genEnd r f th o hf hk hact hstop =>
      exact executeRaised_inFlight th (failing_leave h hl hf (hok f hf))
    | taskEnd hidle hstop hf hk hpend => exact h.update (fun _ => rfl) (fun _ => rfl) (fun _ => rfl)
    | poolStart hf hk hpend => exact h.update (fun _ => rfl) (fun _ => rfl) (fun _ => rfl)
    | poolEnd hf hk hact => exact h.update (fun _ => rfl) (fun _ => rfl) (fun _ => rfl)
    | @deliver r f th c hf hk hcalled hc hidle =>
      obtain ⟨hrel, hforget⟩ := hok f c hf hc
      have hshrink : Shrinks s (s.modify r fun f => { f with called := true }) :=
        Shrinks.of_modify s r (fun _ => rfl) (fun _ => rfl) (fun _ hp => hp)
      exact runCallback_inFlight th ⟨h.modify hf rfl rfl (Or.inr hrel), hl.congr hshrink.skeleton,
        ⟨r, _, State.getElem?_modify_self hf, rfl⟩, hforget.mono hshrink⟩

end Step

theorem inFlight_of_run {env : Env T} {es : List LanguageServer.Event} {s : State T}
    (hok : Lib.Meets (LanguageServer.step env) (Tidy env) State.init es)
    (hrun : Lib.run (LanguageServer.step env) State.init es = some s) :
    InFlight (outstanding es) s := by
  have hinit : InFlight (outstanding []) (State.init : State T) := by
    refine ⟨?_, ?_, ?_⟩
    · intro id r hr
      cases hr
    · intro id id' r hr
      cases hr
    · intro id hid
      exact absurd rfl hid
  have h := Lib.run_history (I := fun past s => InFlight (outstanding past) s ∧ Linked s) ?_ []
    ⟨hinit, Linked.init⟩ hok hrun
  · exact h.1
  · intro past s e t hI hok hs
    refine ⟨?_, hI.2.step hs⟩
    rw [outstanding, List.foldl_append]
    exact step_inFlight hI.1 hI.2 hok hs

/-- In every run in which no step leaves an entry behind, the tables hold what is in flight.
The protocol knows that a handler has finished when its done-callback has run. -/
theorem tables_hold_what_is_in_flight {env : Env T} {es : List LanguageServer.Event} {s : State T}
    (hok : Lib.Meets (LanguageServer.step env) (Tidy env) State.init es)
    (hrun : Lib.run (LanguageServer.step env) State.init es = some s) :
    (∀ (id : MsgId) (r : Ref), s.requestFutures.get? id = some r →
      ∃ f, s.futures[r]? = some f ∧ ((f.handler ≠ none ∧ f.called = false) ∨
        (f.handler = none ∧ id ∈ outstanding es))) ∧
    (∀ (id : MsgId), s.resultTypes.get? id ≠ none → id ∈ outstanding es) ∧
    ((∀ f ∈ s.futures, f.handler ≠ none → f.called = true) → outstanding es = [] →
      s.requestFutures.size = 0 ∧ s.resultTypes.size = 0) := by
  have h := inFlight_of_run hok hrun
  have entries : ∀ (id : MsgId) (r : Ref), s.requestFutures.get? id = some r →
      ∃ f, s.futures[r]? = some f ∧ ((f.handler ≠ none ∧ f.called = false) ∨
        (f.handler = none ∧ id ∈ outstanding es)) := by
    intro id r hr
    obtain ⟨f, hf, he⟩ := h.entry id r hr
    refine ⟨f, hf, ?_⟩
    by_cases hk : f.handler = none
    · exact Or.inr ⟨hk, he.outgoing hk⟩
    · rcases he.handler hk with hc | ⟨n, hn⟩
      · exact Or.inl ⟨hk, hc⟩
      · cases hn
  refine ⟨entries, h.types, ?_⟩
  intro hidle hnone
  constructor
  · apply Lib.Dict.size_eq_zero
    intro id
    cases hget : s.requestFutures.get? id with
    | none => rfl
    | some r =>
      obtain ⟨f, hf, ⟨hk, hc⟩ | ⟨-, hmem⟩⟩ := entries id r hget
      · rw [hidle f (List.mem_of_getElem? hf) hk] at hc
        cases hc
      · rw [hnone] at hmem
        cases hmem
  · apply Lib.Dict.size_eq_zero
    intro id
    by_contra hne
    have hmem := h.types id hne
    rw [hnone] at hmem
    cases hmem

/-- A request is answered and an outgoing one is: both tables are empty again. -/
theorem tables_hold_what_is_in_flight_answered :
    ∃ s, Lib.run (LanguageServer.step sampleEnv) State.init
        [.protocol (.request ⟨.int 1, [], .null⟩ none), .protocol (.sendRequest (.int 2) [] .none),
          .protocol (.genEnd 0 (.returned .none)), .protocol (.response (.int 2) .null)] = some s ∧
      s.requestFutures.size = 0 ∧ s.resultTypes.size = 0 := by
  have hok : Lib.Meets (LanguageServer.step sampleEnv) (Tidy sampleEnv) State.init
      [.protocol (.request ⟨.int 1, [], .null⟩ none), .protocol (.sendRequest (.int 2) [] .none),
        .protocol (.genEnd 0 (.returned .none)), .protocol (.response (.int 2) .null)] := by
    refine Lib.meets_cons rfl trivial (Lib.meets_cons rfl trivial
      (Lib.meets_cons rfl ?_ (Lib.meets_cons rfl ?_ trivial)))
    · intro f hf
      cases hf
      refine Or.inl ⟨rfl, ?_, trivial⟩
      intro id g _ hg _
      cases hg
      exact ⟨_, _, rfl⟩
    · intro _
      exact ⟨rfl, fun h => nomatch h⟩
  refine ⟨_, rfl, (tables_hold_what_is_in_flight hok rfl).2.2 ?_ rfl⟩
  decide

/-- A generator that handled a notification has ended, and an outgoing request has been
answered with an error: both tables keep an entry. -/
theorem tables_keep_what_is_over :
    (∃ s, Lib.run (LanguageServer.step sampleEnv) State.init
        [.protocol (.notification [] [0] none), .protocol (.genEnd 0 (.returned .none))] = some s ∧
      (∀ f ∈ s.futures, f.handler ≠ none → f.called = true) ∧
      s.requestFutures.get? (.str [0]) = some 0) ∧
    (∃ s, Lib.run (LanguageServer.step sampleEnv) State.init
        [.protocol (.sendRequest (.int 2) [] .none),
          .protocol (.errorResponse (.int 2) (some ⟨-1, [], .none⟩))] = some s ∧
      outstanding [.protocol (.sendRequest (.int 2) [] .none),
        .protocol (.errorResponse (.int 2) (some ⟨-1, [], .none⟩))] = [] ∧
      s.resultTypes.get? (.int 2) ≠ none) := by
  refine ⟨⟨_, rfl, by decide, rfl⟩, ⟨_, rfl, rfl, ?_⟩⟩
  intro h
  cases h

end Pygls
