import Pygls.Answers
import Pygls.Generators
import Pygls.Received

/-!
# What a generator is sent

A handler that a generator waits for was started by a `genYield` of that generator, the
value that a resumed generator has been sent is what one of these handlers returned, and a
generator that has yielded is back on a stack only once it is resumed.
-/

namespace Pygls

set_option autoImplicit false

variable {T : Type}

theorem executeHandler_skeleton (env : Env T) (th : Thread) (id : MsgId) (kind : HandlerKind)
    (cb : Callback) (start : Start) (s : State T) :
    ∃ new, (State.executeHandler env th id kind cb start s).skeleton = s.skeleton ++ new ∧
      ∀ x ∈ new, x = (some kind, cb) := by
  have raised : ∀ e, ∃ new,
      (State.executeRaised env th cb e s).skeleton = s.skeleton ++ new ∧
        ∀ x ∈ new, x = (some kind, cb) := by
    intro e
    refine ⟨[], ?_, fun _ hx => absurd hx List.not_mem_nil⟩
    rw [State.skeleton_executeRaised, List.append_nil]
  have added : ∀ (f : Future) (t : State T), t.futures = (s.alloc f).futures →
      f.handler = some kind → f.callback = cb →
      ∃ new, t.skeleton = s.skeleton ++ new ∧ ∀ x ∈ new, x = (some kind, cb) := by
    intro f t hf hk hcb
    refine ⟨[(some kind, cb)], ?_, fun _ hx => List.mem_singleton.mp hx⟩
    rw [State.skeleton_of_futures hf, State.skeleton_alloc, hk, hcb]
  cases kind with
  | coroutine =>
    cases start with
    | some e => exact raised e
    | none =>
      cases th with
      | main => exact added _ _ rfl rfl rfl
      | worker => exact raised .runtimeError
  | thread =>
    cases start with
    | some e => exact raised e
    | none => exact added _ _ rfl rfl rfl
  | generator => exact added _ _ rfl rfl rfl
  | sync => exact added _ _ rfl rfl rfl

/-- The futures stay. A handler that is added below a generator is one it has yielded to, one
that answers a request is that of the request's method. -/
structure Enlarges (env : Env T) (s t : State T) (e : Event)
    (new : List (Option HandlerKind × Callback)) : Prop where
  skeleton : t.skeleton = s.skeleton ++ new
  yielded : ∀ (kind : Option HandlerKind) (r : Ref) (up : Callback),
    (kind, Callback.runGenerator r up) ∈ new →
      ∃ uuid k start, e = .genYield r uuid k start ∧ kind = some k
  requested : ∀ (kind : Option HandlerKind) (id : MsgId) (n : Nat),
    (kind, Callback.sendHandlerResult id n) ∈ new →
      ∃ q, n = s.received.length ∧ t.received = s.received ++ [q] ∧
        kind = env.fm.getHandler q.1.method

theorem step_enlarges {env : Env T} {s t : State T} {e : Event} (hs : step env s e = some t) :
    ∃ new, Enlarges env s t e new := by
  have same : ∀ {u : State T}, u.skeleton = s.skeleton → ∃ new, Enlarges env s u e new := by
    intro u hu
    refine ⟨[], ?_, fun _ _ _ hx => absurd hx List.not_mem_nil,
      fun _ _ _ hx => absurd hx List.not_mem_nil⟩
    rw [hu, List.append_nil]
  cases step_cases hs with
  | ignored => exact same rfl
  | @request q start =>
    simp only [State.handleRequest]
    split
    · exact same (State.skeleton_of_futures (State.sendException_sends env _ _ _ _).futures)
    · rename_i kind hkind
      obtain ⟨new, hu, hnew⟩ := executeHandler_skeleton env .main q.id kind
        (.sendHandlerResult q.id s.received.length) start
        { s with received := s.received ++ [(q, start)] }
      refine ⟨new, hu, ?_, ?_⟩
      · intro k r up hx
        cases (Prod.mk.inj (hnew _ hx)).2
      · intro k id n hx
        obtain ⟨hk, hcb⟩ := Prod.mk.inj (hnew _ hx)
        cases hcb
        refine ⟨(q, start), rfl, ?_, hk.trans hkind.symm⟩
        rw [executeHandler_received]
  | notification =>
    unfold State.handleNotification
    split
    · exact same rfl
    · obtain ⟨new, hu, hnew⟩ := executeHandler_skeleton env .main _ _ _ _ s
      refine ⟨new, hu, ?_, ?_⟩
      · intro k r up hx
        cases (Prod.mk.inj (hnew _ hx)).2
      · intro k id n hx
        cases (Prod.mk.inj (hnew _ hx)).2
  | cancelRequest =>
    unfold State.handleCancelNotification
    split
    · exact same rfl
    · exact same (State.skeleton_cancel env .main _ _)
  | response =>
    simp only [State.receiveResult]
    split
    · exact same rfl
    · split
      · exact same rfl
      · exact same (State.skeleton_handleResponse env _ _ _)
  | errorResponse =>
    unfold State.receiveError
    split
    · exact same rfl
    · split
      · exact same (State.skeleton_handleResponse env s _ _)
      · exact same (State.skeleton_handleResponse env s _ _)
  | @sendRequest id method params =>
    refine ⟨[(none, .client)], ?_, ?_, ?_⟩
    · rw [State.skeleton, State.sendRequest_futures]
      simp [State.skeleton, Future.pending]
    · intro k r up hx
      cases List.mem_singleton.mp hx
    · intro k id n hx
      cases List.mem_singleton.mp hx
  | cancelOutgoing => exact same (State.skeleton_cancel env .main s _)
  | syncEnd =>
    unfold State.syncEnd
    split
    · rename_i hset
      apply same
      rw [State.skeleton_runCallback, State.skeleton_setOutcome hset, State.skeleton_leave]
    · apply same
      rw [State.skeleton_executeRaised, State.skeleton_leave]
  | @genYield r f th uuid kind start =>
    obtain ⟨new, hu, hnew⟩ := executeHandler_skeleton env th (.str uuid) kind
      (.runGenerator r f.callback) start (s.leave r)
    refine ⟨new, ?_, ?_, ?_⟩
    · rw [hu, State.skeleton_leave]
    · intro k r' up hx
      obtain ⟨hk, hcb⟩ := Prod.mk.inj (hnew _ hx)
      cases hcb
      exact ⟨uuid, kind, start, rfl, hk⟩
    · intro k id n hx
      cases (Prod.mk.inj (hnew _ hx)).2
  | genEnd =>
    apply same
    rw [State.skeleton_executeRaised, State.skeleton_leave]
  | taskEnd => exact same (State.skeleton_modify s _ (fun _ => rfl) (fun _ => rfl))
  | poolStart => exact same (State.skeleton_modify s _ (fun _ => rfl) (fun _ => rfl))
  | poolEnd => exact same (State.skeleton_modify s _ (fun _ => rfl) (fun _ => rfl))
  | deliver =>
    apply same
    rw [State.skeleton_runCallback]
    exact State.skeleton_modify s _ (fun _ => rfl) (fun _ => rfl)

namespace Enlarges

variable {env : Env T} {s t : State T} {e : Event} {new : List (Option HandlerKind × Callback)}

/-- A future that was there is so still, with its handler and its callback. -/
theorem stays (h : Enlarges env s t e new) {r : Ref} {f : Future} (hf : s.futures[r]? = some f) :
    ∃ g, t.futures[r]? = some g ∧ g.handler = f.handler ∧ g.callback = f.callback := by
  have hr : s.skeleton[r]? = some (f.handler, f.callback) := by
    rw [State.getElem?_skeleton, hf, Option.map_some]
  obtain ⟨hlt, -⟩ := List.getElem?_eq_some_iff.mp hr
  have ht : t.skeleton[r]? = some (f.handler, f.callback) := by
    rw [h.skeleton, List.getElem?_append_left hlt, hr]
  rw [State.getElem?_skeleton] at ht
  obtain ⟨g, hg, heq⟩ := Option.map_eq_some_iff.mp ht
  obtain ⟨hk, hcb⟩ := Prod.mk.inj heq
  exact ⟨g, hg, hk, hcb⟩

theorem future (h : Enlarges env s t e new) {r : Ref} {g : Future} (hg : t.futures[r]? = some g) :
    (∃ f, s.futures[r]? = some f ∧ g.handler = f.handler ∧ g.callback = f.callback) ∨
      (g.handler, g.callback) ∈ new := by
  cases hf : s.futures[r]? with
  | some f =>
    obtain ⟨g', hg', hk, hcb⟩ := h.stays hf
    rw [hg] at hg'
    cases hg'
    exact Or.inl ⟨f, rfl, hk, hcb⟩
  | none =>
    right
    have hr : t.skeleton[r]? = some (g.handler, g.callback) := by
      rw [State.getElem?_skeleton, hg, Option.map_some]
    have hle : s.skeleton.length ≤ r := by
      rw [← List.getElem?_eq_none_iff, State.getElem?_skeleton, hf, Option.map_none]
    rw [h.skeleton, List.getElem?_append_right hle] at hr
    exact List.mem_of_getElem? hr

end Enlarges

/-- The handler of a request is the one registered for its method. -/
def Assigned (env : Env T) (s : State T) : Prop :=
  ∀ (r : Ref) (f : Future) (id : MsgId) (n : Nat), s.futures[r]? = some f →
    f.callback = .sendHandlerResult id n →
    ∃ q, s.received[n]? = some q ∧ f.handler = env.fm.getHandler q.1.method

theorem skeleton_shutdownEnd (env : Env T) (s : State T) (r : Ref) (cb : Callback) (th : Thread) :
    (s.shutdownEnd env r cb th).skeleton = s.skeleton := by
  have hloop := State.skeleton_cancelOthers env th (cb.msgId th) s.requestFutures.size
    s.requestFutures.entries s
  simp only [State.shutdownEnd]
  split
  · rw [State.skeleton_executeRaised, State.skeleton_leave]
    exact hloop
  · rw [State.skeleton_executeRaised, State.skeleton_leave]
    exact hloop

theorem future_of_skeleton {s t : State T} (hs : t.skeleton = s.skeleton) {r : Ref} {g : Future}
    (hg : t.futures[r]? = some g) :
    ∃ f, s.futures[r]? = some f ∧ g.handler = f.handler ∧ g.callback = f.callback := by
  have hr : s.skeleton[r]? = some (g.handler, g.callback) := by
    rw [← hs, State.getElem?_skeleton, hg, Option.map_some]
  rw [State.getElem?_skeleton] at hr
  obtain ⟨f, hf, heq⟩ := Option.map_eq_some_iff.mp hr
  obtain ⟨hk, hcb⟩ := Prod.mk.inj heq
  exact ⟨f, hf, hk.symm, hcb.symm⟩

namespace Assigned

theorem init (env : Env T) : Assigned env (State.init : State T) := by
  intro r f id n hf
  simp [State.init] at hf

theorem step {env : Env T} {s t : State T} {e : LanguageServer.Event} (h : Assigned env s)
    (hs : LanguageServer.step env s e = some t) : Assigned env t := by
  have hrec := received_mono hs
  have old : ∀ {g f : Future} {r : Ref} {id : MsgId} {n : Nat}, s.futures[r]? = some f →
      g.handler = f.handler → g.callback = f.callback → g.callback = .sendHandlerResult id n →
      ∃ q, t.received[n]? = some q ∧ g.handler = env.fm.getHandler q.1.method := by
    intro g f r id n hf hk hcb hcall
    obtain ⟨q, hq, hkind⟩ := h r f id n hf (hcb ▸ hcall)
    obtain ⟨more, hmore⟩ := hrec
    refine ⟨q, ?_, hk.trans hkind⟩
    obtain ⟨hlt, -⟩ := List.getElem?_eq_some_iff.mp hq
    rw [← hmore, List.getElem?_append_left hlt, hq]
  intro r g id n hg hcall
  cases e with
  | shutdown i =>
    obtain ⟨f₀, id₀, n₀, th, -, -, -, -, rfl⟩ := LanguageServer.shutdown_cases hs
    obtain ⟨f, hf, hk, hcb⟩ := future_of_skeleton (skeleton_shutdownEnd env s i _ th) hg
    exact old hf hk hcb hcall
  | protocol e =>
    obtain ⟨new, hnew⟩ := step_enlarges hs
    rcases hnew.future hg with ⟨f, hf, hk, hcb⟩ | hmem
    · exact old hf hk hcb hcall
    · rw [hcall] at hmem
      obtain ⟨q, rfl, hq, hkind⟩ := hnew.requested g.handler id n hmem
      refine ⟨q, ?_, hkind⟩
      rw [hq]
      simp

end Assigned

/-- Only the end of a generator's own code ends it. -/
theorem step_ended {env : Env T} {s t : State T} {e : Event} (hs : step env s e = some t) {r : Ref}
    {o : Outcome} (hend : e.ended = some (r, o)) :
    ∃ f, s.futures[r]? = some f ∧
      (f.handler = some .generator → e = .genEnd r o) := by
  cases step_cases hs with
  | syncEnd hf hk =>
    cases hend
    refine ⟨_, hf, fun hgen => ?_⟩
    rw [hk] at hgen
    cases hgen
  | genEnd hf =>
    cases hend
    exact ⟨_, hf, fun _ => rfl⟩
  | @taskEnd i f out _ _ hf hk =>
    cases out with
    | none => cases hend
    | some out =>
      cases hend
      refine ⟨_, hf, fun hgen => ?_⟩
      rw [hk] at hgen
      cases hgen
  | poolEnd hf hk =>
    cases hend
    refine ⟨_, hf, fun hgen => ?_⟩
    rw [hk] at hgen
    cases hgen
  | ignored _ hrefuse =>
    cases e with
    | request => cases hend
    | notification => cases hend
    | cancelRequest => cases hend
    | _ => cases hrefuse
  | _ => cases hend

/-- The generator has yielded. -/
def Yielded (es : List Event) (r : Ref) : Prop :=
  ∃ uuid kind start, Event.genYield r uuid kind start ∈ es

/-- The generator is past its first segment, or will never be on a stack again. -/
def Past (s : State T) (r : Ref) : Prop :=
  ∃ f, s.futures[r]? = some f ∧ (f.active ≠ none → f.resumed = true) ∧
    f.handler = some .generator

/-- What a generator was sent last is what a handler it had yielded to has returned;
`past` are generators that have yielded. -/
structure Fed (past : Ref → Prop) (s : State T) : Prop where
  linked : Linked s
  past : ∀ r, past r → Past s r
  value : ∀ (r : Ref) (f : Future), s.futures[r]? = some f → f.resumed = true →
    ∃ (i : Ref) (g : Future) (up : Callback), s.futures[i]? = some g ∧
      g.callback = .runGenerator r up ∧ g.state = .finished (.returned f.value)

/-- A result that a callback is called with is that of its future. -/
structure Conveys (past : Ref → Prop) (s : State T) (cb : Callback) (c : Completion) : Prop where
  fed : Fed past s
  parent : Parented s cb
  returned : ∀ v, c = .finished (.returned v) → ∃ (i : Ref) (g : Future),
    s.futures[i]? = some g ∧ g.callback = cb ∧ g.state = .finished (.returned v)

namespace Fed

variable {env : Env T} {past : Ref → Prop} {s t : State T}

theorem congr (h : Fed past s) (hf : t.futures = s.futures) : Fed past t := by
  refine ⟨h.linked.congr (State.skeleton_of_futures hf), ?_, ?_⟩
  · unfold Past
    rw [hf]
    exact h.past
  · rw [hf]
    exact h.value

/-- A result that is there stays, and no generator is put on a stack. -/
theorem modify (h : Fed past s) {r : Ref} {g : Future → Future}
    (hk : ∀ f, (g f).handler = f.handler) (hcb : ∀ f, (g f).callback = f.callback)
    (hres : ∀ f, (g f).resumed = f.resumed) (hvalue : ∀ f, (g f).value = f.value)
    (hact : ∀ f, s.futures[r]? = some f → f.handler = some .generator →
      (g f).active = none ∨ (g f).active = f.active)
    (hst : ∀ f v, s.futures[r]? = some f → f.state = .finished (.returned v) →
      (g f).state = .finished (.returned v)) : Fed past (s.modify r g) := by
  refine ⟨h.linked.congr (State.skeleton_modify s r hk hcb), ?_, ?_⟩
  · intro i hi
    obtain ⟨f, hf, hres', hgen⟩ := h.past i hi
    by_cases hir : i = r
    · subst hir
      refine ⟨g f, State.getElem?_modify_self hf, ?_, hk f ▸ hgen⟩
      intro hactive
      rw [hres f]
      rcases hact f hf hgen with hnone | hsame
      · exact absurd hnone hactive
      · exact hres' (hsame ▸ hactive)
    · refine ⟨f, ?_, hres', hgen⟩
      rw [State.getElem?_modify_ne hir]
      exact hf
  have child : ∀ (i p : Ref) (up : Callback) (f : Future) (v : PyValue), s.futures[i]? = some f →
      f.callback = .runGenerator p up → f.state = .finished (.returned v) →
      ∃ (i : Ref) (f : Future) (up : Callback), (s.modify r g).futures[i]? = some f ∧
        f.callback = .runGenerator p up ∧ f.state = .finished (.returned v) := by
    intro i p up f v hf hup hstate
    by_cases hir : i = r
    · subst hir
      exact ⟨i, g f, up, State.getElem?_modify_self hf, hcb f ▸ hup, hst f v hf hstate⟩
    · refine ⟨i, f, up, ?_, hup, hstate⟩
      rw [State.getElem?_modify_ne hir]
      exact hf
  intro p f hf hresumed
  obtain ⟨f₀, hf₀, ⟨-, rfl⟩ | ⟨-, rfl⟩⟩ := modify_cases hf
  · obtain ⟨i, gi, up, hi, hup, hstate⟩ := h.value p f₀ hf₀ (hres f₀ ▸ hresumed)
    rw [hvalue f₀]
    exact child i p up gi _ hi hup hstate
  · obtain ⟨i, gi, up, hi, hup, hstate⟩ := h.value p f hf₀ hresumed
    exact child i p up gi _ hi hup hstate

theorem leave (h : Fed past s) (r : Ref) : Fed past (s.leave r) :=
  h.modify (fun _ => rfl) (fun _ => rfl) (fun _ => rfl) (fun _ => rfl) (fun _ _ _ => Or.inl rfl)
    (fun _ _ _ hst => hst)

/-- A future that is not done yet may be settled. -/
theorem settle (h : Fed past s) {r : Ref} (st : FutureState)
    (hopen : ∀ f, s.futures[r]? = some f → f.isOpen = true) :
    Fed past (s.modify r (Future.settle st)) := by
  refine h.modify (fun _ => rfl) (fun _ => rfl) (fun _ => rfl) (fun _ => rfl)
    (fun _ _ _ => Or.inr rfl) ?_
  intro f v hf hst
  have hdone := hopen f hf
  rw [Future.isOpen, hst] at hdone
  cases hdone

theorem setOutcome (h : Fed past s) {r : Ref} {o : Outcome} (hs : s.setOutcome r o = some t) :
    Fed past t := by
  obtain ⟨f, hf, hpend, rfl⟩ := setOutcome_eq_some hs
  apply h.settle
  intro g hg
  rw [hf] at hg
  cases hg
  exact isOpen_of_isPending hpend

theorem resume (h : Fed past s) {r : Ref} {up : Callback} (th : Thread) {v : PyValue}
    (hv : ∃ (i : Ref) (g : Future), s.futures[i]? = some g ∧ g.callback = .runGenerator r up ∧
      g.state = .finished (.returned v)) : Fed past (s.resume r th v) := by
  refine ⟨h.linked.congr (State.skeleton_resume s r th v), ?_, ?_⟩
  · intro i hi
    obtain ⟨f, hf, hres, hgen⟩ := h.past i hi
    by_cases hir : i = r
    · subst hir
      exact ⟨_, State.getElem?_modify_self hf, fun _ => rfl, hgen⟩
    · refine ⟨f, ?_, hres, hgen⟩
      rw [State.resume, State.getElem?_modify_ne hir]
      exact hf
  have child : ∀ (i p : Ref) (up : Callback) (f : Future) (w : PyValue), s.futures[i]? = some f →
      f.callback = .runGenerator p up → f.state = .finished (.returned w) →
      ∃ (i : Ref) (f : Future) (up : Callback), (s.resume r th v).futures[i]? = some f ∧
        f.callback = .runGenerator p up ∧ f.state = .finished (.returned w) := by
    intro i p up f w hf hup hstate
    by_cases hir : i = r
    · subst hir
      exact ⟨i, _, up, State.getElem?_modify_self hf, hup, hstate⟩
    · refine ⟨i, f, up, ?_, hup, hstate⟩
      rw [State.resume, State.getElem?_modify_ne hir]
      exact hf
  intro p f hf hresumed
  obtain ⟨f₀, hf₀, ⟨rfl, rfl⟩ | ⟨-, rfl⟩⟩ := modify_cases hf
  · obtain ⟨i, g, hg, hcb, hstate⟩ := hv
    exact child i p up g v hg hcb hstate
  · obtain ⟨i, g, up', hg, hcb, hstate⟩ := h.value p f hf₀ hresumed
    exact child i p up' g _ hg hcb hstate

/-- The generator above a future that has just been settled. -/
theorem settled (h : Fed past s) {r : Ref} {up : Callback} (hup : Parented s (.runGenerator r up))
    {o : Outcome} (hs : s.setOutcome r o = some t) : Conveys past t up (.finished o) := by
  have ht := h.setOutcome hs
  obtain ⟨f, hf, -, hcb⟩ := hup.future
  obtain ⟨f', hf', -, rfl⟩ := setOutcome_eq_some hs
  rw [hf] at hf'
  cases hf'
  have hself := State.getElem?_modify_self (g := Future.settle (.finished o)) hf
  refine ⟨ht, ?_, ?_⟩
  · have hparent := parented_of_future ht.linked hself
    rw [← hcb]
    exact hparent
  · intro v hv
    refine ⟨r, _, hself, hcb, ?_⟩
    exact congrArg FutureState.finished (Completion.finished.inj hv)

theorem runCallback (th : Thread) {cb : Callback} {c : Completion} (hc : Conveys past s cb c) :
    Fed past (State.runCallback env th cb c s) := by
  refine runCallback_ind (I := Fed past) (R := Conveys past) ?_ ?_ ?_ ?_ ?_ ?_ ?_ ?_ cb c s hc
  · intro s id n c h
    exact h.fed.congr (State.sendHandlerResult_sends env s id n c).futures
  · intro s c h
    exact h.fed
  · intro s c h
    exact h.fed
  · intro s r up c h _
    exact h.fed
  · intro s r up c h _ _
    exact h.fed
  · intro s r up c v h _ hv
    apply h.fed.resume th
    apply h.returned v
    cases c with
    | finished o => exact congrArg Completion.finished (Option.some.inj hv)
    | cancelled => cases hv
    | taskCancelled => cases hv
  · intro s r up c e h _ _ _
    exact h.fed
  · intro s t r up c e h _ _ hs
    exact h.fed.settled h.parent hs

theorem executeRaised (h : Fed past s) (th : Thread) {cb : Callback} (hcb : Parented s cb)
    (e : PyExc) : Fed past (State.executeRaised env th cb e s) := by
  refine executeRaised_ind (I := Fed past) (R := Conveys past)
    (P := fun s cb _ => Fed past s ∧ Parented s cb)
    ?_ ?_ ?_ ?_ ?_ ?_ ?_ cb e s ⟨h, hcb⟩
  · intro cb c s hc
    exact runCallback th hc
  · intro s id n e h
    exact h.1.congr (State.sendException_sends env s n id e).futures
  · intro s e h
    exact h.1
  · intro s e h
    exact h.1
  · intro s t r up e h hs
    exact h.1.settled h.2 hs
  · intro s r up e h _ _
    exact h.1
  · intro s r up e h _ _
    obtain ⟨f, hf, -, rfl⟩ := h.2.future
    exact ⟨h.1, parented_of_future h.1.linked hf⟩

theorem added (h : Fed past s) (hl : Linked t) {f : Future} (ht : t.futures = (s.alloc f).futures)
    (hnew : f.resumed = false) : Fed past t := by
  refine ⟨hl, ?_, ?_⟩
  · intro r hr
    obtain ⟨g, hg, hres, hgen⟩ := h.past r hr
    refine ⟨g, ?_, hres, hgen⟩
    rw [ht]
    exact Discipline.getElem?_alloc_of_some hg
  rw [ht]
  intro r g hg hresumed
  rcases State.getElem?_alloc hg with hold | ⟨-, rfl⟩
  · obtain ⟨i, k, up, hk, hup, hstate⟩ := h.value r g hold hresumed
    exact ⟨i, k, up, Discipline.getElem?_alloc_of_some hk, hup, hstate⟩
  · rw [hnew] at hresumed
    cases hresumed

theorem executeHandler (h : Fed past s) (th : Thread) (id : MsgId) (kind : HandlerKind)
    {cb : Callback} (start : Start) (hcb : Parented s cb) :
    Fed past (State.executeHandler env th id kind cb start s) := by
  have hl := h.linked.executeHandler env th id kind start hcb
  cases kind with
  | coroutine =>
    cases start with
    | some e => exact h.executeRaised th hcb e
    | none =>
      cases th with
      | main => exact h.added hl rfl rfl
      | worker => exact h.executeRaised .worker hcb .runtimeError
  | thread =>
    cases start with
    | some e => exact h.executeRaised th hcb e
    | none => exact h.added hl rfl rfl
  | generator => exact h.added hl rfl rfl
  | sync => exact h.added hl rfl rfl

/-- Calling back a future that is done. -/
theorem called (h : Fed past s) (th : Thread) {r : Ref} {f : Future} (hf : s.futures[r]? = some f)
    {c : Completion} (hc : ∀ v, c = .finished (.returned v) → f.state = .finished (.returned v)) :
    Fed past (State.runCallback env th f.callback c s) := by
  apply runCallback th
  refine ⟨h, parented_of_future h.linked hf, ?_⟩
  intro v hv
  exact ⟨r, f, hf, rfl, hc v hv⟩

theorem cancel (h : Fed past s) (th : Thread) (r : Ref) : Fed past (State.cancel env th s r) := by
  unfold State.cancel
  split
  · exact h
  · rename_i f hf
    split
    · split
      · exact h.modify (fun _ => rfl) (fun _ => rfl) (fun _ => rfl) (fun _ => rfl)
          (fun _ _ _ => Or.inr rfl) (fun _ _ _ hst => hst)
      · exact h
    · split
      · rename_i hpend
        have hs : Fed past (s.modify r (Future.settle .cancelled)) := by
          apply h.settle
          intro g hg
          rw [hf] at hg
          cases hg
          exact isOpen_of_isPending hpend
        have hself := State.getElem?_modify_self (g := Future.settle .cancelled) hf
        apply hs.called th hself
        intro v hv
        cases hv
      · exact h

theorem handleResponse (h : Fed past s) (id : MsgId) (o : Outcome) :
    Fed past (s.handleResponse env id o) := by
  simp only [State.handleResponse]
  split
  · exact h
  · rename_i r _
    have hpop : Fed past (s.popFuture id) := h.congr rfl
    split
    · exact hpop
    · rename_i f hf
      split
      · exact hpop
      · split
        · rename_i hopen
          have hs : Fed past ((s.popFuture id).modify r (Future.settle (.finished o))) := by
            apply hpop.settle
            intro g hg
            rw [hf] at hg
            cases hg
            exact hopen
          have hself := State.getElem?_modify_self (g := Future.settle (.finished o)) hf
          apply hs.called .main hself
          intro v hv
          exact congrArg FutureState.finished (Completion.finished.inj hv)
        · exact hpop

theorem syncEnd (h : Fed past s) (th : Thread) {r : Ref} {f : Future} (hf : s.futures[r]? = some f)
    (o : Outcome) : Fed past (State.syncEnd env s r f.callback th o) := by
  have hl := h.leave r
  have hleft := State.getElem?_modify_self (g := fun f => { f with active := none }) hf
  unfold State.syncEnd
  split
  · rename_i t hs
    have ht := hl.setOutcome hs
    obtain ⟨f', hf', -, rfl⟩ := setOutcome_eq_some hs
    have hself := State.getElem?_modify_self (g := Future.settle (.finished o)) hleft
    apply ht.called th hself
    intro v hv
    exact congrArg FutureState.finished (Completion.finished.inj hv)
  · have hparent := parented_of_future hl.linked hleft
    exact hl.executeRaised th hparent _

theorem genYield {r : Ref} {f : Future} {th : Thread} {uuid : Str} {kind : HandlerKind}
    {start : Start} (h : Fed past (s.leave r)) (hf : s.futures[r]? = some f)
    (hk : f.handler = some .generator) :
    Fed past
      (State.executeHandler env th (.str uuid) kind (.runGenerator r f.callback) start
        (s.leave r)) := by
  apply h.executeHandler
  apply Parented.congr (parented_self hf hk)
  exact State.skeleton_leave s r

theorem step {e : Event} (h : Fed past s) (hs : Pygls.step env s e = some t) : Fed past t := by
  have hl : Linked t := h.linked.step (e := .protocol e) hs
  cases step_cases hs with
  | ignored => exact h
  | @request q start =>
    have hr : Fed past { s with received := s.received ++ [(q, start)] } := h.congr rfl
    simp only [State.handleRequest]
    split
    · exact hr.congr (State.sendException_sends env _ _ _ _).futures
    · apply hr.executeHandler
      intro p up hcb
      cases hcb
  | notification =>
    unfold State.handleNotification
    split
    · exact h
    · apply h.executeHandler
      intro p up hcb
      cases hcb
  | @cancelRequest id =>
    have hpop : Fed past (s.popFuture id) := h.congr rfl
    unfold State.handleCancelNotification
    split
    · exact h
    · exact hpop.cancel .main _
  | @response id result =>
    have hpop : Fed past (s.popType id) := h.congr rfl
    simp only [State.receiveResult]
    split
    · exact hpop
    · split
      · exact hpop
      · exact hpop.handleResponse id _
  | errorResponse =>
    unfold State.receiveError
    split
    · exact h
    · split
      · exact h.handleResponse _ _
      · exact h.handleResponse _ _
  | sendRequest => exact h.added hl (State.sendRequest_futures _ _ _ _ _) rfl
  | cancelOutgoing => exact h.cancel .main _
  | syncEnd hf => exact h.syncEnd _ hf _
  | genYield hf hk => exact (h.leave _).genYield hf hk
  | @genEnd r f th o hf hk =>
    apply (h.leave r).executeRaised
    apply Parented.congr (parented_self hf hk)
    exact State.skeleton_leave s r
  | @taskEnd r f o _ _ hf _ hpend =>
    refine h.modify (fun _ => rfl) (fun _ => rfl) (fun _ => rfl) (fun _ => rfl)
      (fun _ _ _ => Or.inr rfl) ?_
    intro g v hg hst
    rw [hf] at hg
    cases hg
    rw [Future.isPending, hst] at hpend
    cases hpend
  | @poolStart r f hf hk hpend =>
    refine h.modify (fun _ => rfl) (fun _ => rfl) (fun _ => rfl) (fun _ => rfl) ?_ ?_
    · intro g hg hgen
      rw [hf] at hg
      cases hg
      rw [hk] at hgen
      cases hgen
    · intro g v hg hst
      rw [hf] at hg
      cases hg
      rw [Future.isPending, hst] at hpend
      cases hpend
  | poolEnd =>
    refine h.modify (fun _ => rfl) (fun _ => rfl) (fun _ => rfl) (fun _ => rfl)
      (fun _ _ _ => Or.inl rfl) ?_
    intro g v hg hst
    have hopen : g.isOpen = false := by rw [Future.isOpen, hst]
    rw [hopen]
    exact hst
  | @deliver r f th c hf _ _ hc =>
    have hcalled : Fed past (s.modify r fun f => { f with called := true }) :=
      h.modify (fun _ => rfl) (fun _ => rfl) (fun _ => rfl) (fun _ => rfl)
        (fun _ _ _ => Or.inr rfl) (fun _ _ _ hst => hst)
    have hself := State.getElem?_modify_self (g := fun f => { f with called := true }) hf
    apply hcalled.called th hself
    rintro v rfl
    exact state_of_completion hc

theorem init : Fed (Yielded []) (State.init : State T) := by
  refine ⟨Linked.init, ?_, ?_⟩
  · intro r hr
    obtain ⟨uuid, kind, start, hmem⟩ := hr
    cases hmem
  · intro r f hf
    simp [State.init] at hf

theorem mono {past' : Ref → Prop} (h : Fed past s) (hp : ∀ r, past' r → past r) :
    Fed past' s := by
  refine ⟨h.linked, ?_, h.value⟩
  intro r hr
  exact h.past r (hp r hr)

/-- A generator that yields leaves the stack, and comes back only with a result. -/
theorem step_yielded {es : List Event} {e : Event} (h : Fed (Yielded es) s)
    (hs : Pygls.step env s e = some t) : Fed (Yielded (es ++ [e])) t := by
  have old : (∀ r uuid kind start, e ≠ .genYield r uuid kind start) →
      Fed (Yielded (es ++ [e])) t := by
    intro hne
    apply (h.step hs).mono
    rintro r ⟨uuid, kind, start, hmem⟩
    rcases List.mem_append.mp hmem with hold | hlast
    · exact ⟨uuid, kind, start, hold⟩
    · exact absurd (List.mem_singleton.mp hlast).symm (hne r uuid kind start)
  cases step_cases hs with
  | @genYield r f th uuid kind start hf hk =>
    have hleft : Fed (Yielded (es ++ [.genYield r uuid kind start])) (s.leave r) := by
      have hl := h.leave r
      refine ⟨hl.linked, ?_, hl.value⟩
      rintro i ⟨uuid', kind', start', hmem⟩
      rcases List.mem_append.mp hmem with hold | hlast
      · exact hl.past i ⟨uuid', kind', start', hold⟩
      · cases List.mem_singleton.mp hlast
        exact ⟨_, State.getElem?_modify_self hf, fun hact => absurd rfl hact, hk⟩
    exact hleft.genYield hf hk
  | ignored _ hrefuse =>
    apply old
    rintro r uuid kind start rfl
    cases hrefuse
  | _ =>
    apply old
    intros
    simp

end Fed

end Pygls
