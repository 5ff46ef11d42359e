import Pygls.LanguageServer
import Pygls.Answers

/-!
# Responses and the requests that wait for them

A response is decoded and handed to whatever the table holds under its id. Which
requests wait is a matter of what was sent: `asked` lists the outgoing requests of
a run, each with its future. `Extends` is what every step does to futures and table.
-/

namespace Pygls

set_option autoImplicit false

variable {T : Type}

theorem Shrinks.executeRaised (env : Env T) (th : Thread) (cb : Callback) (x : PyExc)
    (s : State T) : Shrinks s (State.executeRaised env th cb x s) := by
  refine executeRaised_rule (I := Shrinks s) (R := fun _ _ _ => True) (P := fun _ _ _ => True)
    ?_ ?_ ?_ ?_ cb x s (Shrinks.refl s) trivial
  · intro cb c t h _
    exact h.trans (Shrinks.runCallback env th cb c t)
  · intro t id n e h _
    have hs := State.sendException_sends env t n id e
    refine h.trans ⟨?_, ?_, ?_, State.skeleton_of_futures hs.futures⟩
    · intro k r hk
      rwa [sendException_requestFutures] at hk
    · intro k hk
      rwa [sendException_resultTypes]
    · intro r hr
      unfold State.pendingAt at hr ⊢
      rwa [hs.futures] at hr
  · intro t t' r up e h _ hs
    exact ⟨h.trans (Shrinks.of_setOutcome hs), trivial⟩
  · intro t r up e _ _ _ _
    trivial

theorem Shrinks.cancelOthers (env : Env T) (th : Thread) (current : Option MsgId) (size : Nat)
    (entries : List (MsgId × Ref)) (s : State T) :
    Shrinks s (State.cancelOthers env th current size entries s).1 := by
  induction entries generalizing s with
  | nil => exact Shrinks.refl s
  | cons e entries ih =>
    rw [State.cancelOthers]
    split
    · split
      · exact (Shrinks.cancel env th s e.2).trans (ih _)
      · exact ih s
    · exact Shrinks.refl s

/-- Futures stay what they are, and the table refers to futures that exist. -/
structure Extends (s t : State T) : Prop where
  skeleton : s.skeleton <+: t.skeleton
  table : ∀ (k : MsgId) (r : Ref), t.requestFutures.get? k = some r →
    s.requestFutures.get? k = some r ∨ r < t.skeleton.length

namespace Extends

variable {s t u : State T}

theorem refl (s : State T) : Extends s s := ⟨List.prefix_refl _, fun _ _ h => Or.inl h⟩

theorem trans (h : Extends s t) (h' : Extends t u) : Extends s u := by
  refine ⟨h.skeleton.trans h'.skeleton, fun k r hr => ?_⟩
  rcases h'.table k r hr with hr | hr
  · rcases h.table k r hr with hr | hr
    · exact Or.inl hr
    · exact Or.inr (Nat.lt_of_lt_of_le hr h'.skeleton.length_le)
  · exact Or.inr hr

theorem of_shrinks (h : Shrinks s t) : Extends s t :=
  ⟨h.skeleton ▸ List.prefix_refl _, fun k r hr => Or.inl (h.table k r hr)⟩

/-- Only the skeleton and the table matter. -/
theorem congr (h : Extends s t) (hsk : u.skeleton = t.skeleton)
    (htable : u.requestFutures = t.requestFutures) : Extends s u := by
  refine ⟨hsk ▸ h.skeleton, fun k r hr => ?_⟩
  rw [htable] at hr
  rw [hsk]
  exact h.table k r hr

theorem alloc (s : State T) (g : Future) : Extends s (s.alloc g) := by
  refine ⟨?_, fun k r hr => Or.inl hr⟩
  rw [State.skeleton_alloc]
  exact List.prefix_append _ _

theorem register (s : State T) (g : Future) (id : MsgId) :
    Extends s ((s.alloc g).register id s.fresh) := by
  have hsk : ((s.alloc g).register id s.fresh).skeleton = s.skeleton ++ [(g.handler, g.callback)] :=
    State.skeleton_alloc s g
  refine ⟨?_, fun k r hr => ?_⟩
  · rw [hsk]
    exact List.prefix_append _ _
  · simp only [State.register, Lib.Dict.get?_set] at hr
    split at hr
    · cases hr
      right
      rw [hsk]
      simp [State.fresh, State.skeleton]
    · exact Or.inl hr

theorem executeHandler (env : Env T) (th : Thread) (id : MsgId) (kind : HandlerKind) (cb : Callback)
    (start : Start) (s : State T) : Extends s (State.executeHandler env th id kind cb start s) := by
  have raised : ∀ e, Extends s (State.executeRaised env th cb e s) := fun e =>
    of_shrinks (Shrinks.executeRaised env th cb e s)
  cases kind with
  | coroutine =>
    cases start with
    | some e => exact raised e
    | none =>
      cases th with
      | main => exact register s _ id
      | worker => exact raised .runtimeError
  | thread =>
    cases start with
    | some e => exact raised e
    | none => exact register s _ id
  | generator => exact register s _ id
  | sync => exact alloc s _

theorem handleResponse (env : Env T) (s : State T) (id : MsgId) (o : Outcome) :
    Extends s (s.handleResponse env id o) := by
  rcases Shrinks.handleResponse env s id o with h | ⟨h, -⟩
  · exact of_shrinks ((Shrinks.of_pop s id).trans h)
  · rw [h]
    exact refl s

theorem shutdownEnd (env : Env T) (s : State T) (r : Ref) (cb : Callback) (th : Thread) :
    Extends s (s.shutdownEnd env r cb th) := by
  have hloop := of_shrinks (Shrinks.cancelOthers env th (cb.msgId th) s.requestFutures.size
    s.requestFutures.entries s)
  have hleave : ∀ (u : State T) (x : PyExc),
      Extends u (State.executeRaised env th (.runGenerator r cb) x (u.leave r)) := fun u x =>
    of_shrinks ((Shrinks.leave u r).trans (Shrinks.executeRaised env th _ x _))
  simp only [State.shutdownEnd]
  split
  · refine Extends.trans ?_ (hleave _ _)
    exact hloop.congr rfl rfl
  · exact hloop.trans (hleave _ _)

theorem step {env : Env T} {e : LanguageServer.Event} (hs : LanguageServer.step env s e = some t) :
    Extends s t := by
  cases e with
  | shutdown r =>
    obtain ⟨f, id, n, th, -, -, -, -, rfl⟩ := LanguageServer.shutdown_cases hs
    exact shutdownEnd env s r _ th
  | protocol e =>
    have hmodify : ∀ (r : Ref) (g : Future → Future), (∀ f, (g f).handler = f.handler) →
        (∀ f, (g f).callback = f.callback) → Extends s (s.modify r g) := by
      intro r g hk hcb
      exact (refl s).congr (State.skeleton_modify s r hk hcb) rfl
    cases step_cases hs with
    | ignored hdown => exact refl s
    | @request q start hidle hup =>
      unfold State.handleRequest
      split
      · refine (refl s).congr ?_ (sendException_requestFutures env _ _ _ _)
        rw [State.skeleton_of_futures (State.sendException_sends env _ _ _ _).futures]
        rfl
      · have hr : Extends s { s with received := s.received ++ [(q, start)] } :=
          (refl s).congr rfl rfl
        exact hr.trans (executeHandler env _ _ _ _ _ _)
    | notification hidle hup =>
      unfold State.handleNotification
      split
      · exact refl s
      · exact executeHandler env _ _ _ _ _ s
    | cancelRequest hidle hup =>
      unfold State.handleCancelNotification
      split
      · exact refl s
      · exact of_shrinks ((Shrinks.of_pop s _).trans (Shrinks.cancel env .main _ _))
    | @response id result hidle =>
      have hpop : Extends s (s.popType id) := (refl s).congr rfl rfl
      simp only [State.receiveResult]
      split
      · exact hpop
      · split
        · exact hpop
        · exact hpop.trans (handleResponse env _ _ _)
    | errorResponse hidle =>
      unfold State.receiveError
      split
      · exact refl s
      · split <;> exact handleResponse env s _ _
    | @sendRequest id method params =>
      refine (register s (.pending none .client) id).congr (State.skeleton_of_futures ?_) ?_
      · exact State.sendRequest_futures env s id method params
      · exact State.sendRequest_requestFutures env s id method params
    | cancelOutgoing hf hnone => exact of_shrinks (Shrinks.cancel env .main s _)
    | @syncEnd r f th o hf hk hact =>
      unfold State.syncEnd
      split
      · rename_i s' hs'
        exact of_shrinks ((Shrinks.leave s r).trans
          ((Shrinks.of_setOutcome hs').trans (Shrinks.runCallback env th _ _ s')))
      · exact of_shrinks ((Shrinks.leave s r).trans (Shrinks.executeRaised env th _ _ _))
    | @genYield r f th uuid kind start hf hk hact =>
      exact (of_shrinks (Shrinks.leave s r)).trans (executeHandler env th _ _ _ _ _)
    | @genEnd r f th o hf hk hact hstop =>
      exact of_shrinks ((Shrinks.leave s r).trans (Shrinks.executeRaised env th _ _ _))
    | taskEnd hidle hstop hf hk hpend => exact hmodify _ _ (fun _ => rfl) fun _ => rfl
    | poolStart hf hk hpend => exact hmodify _ _ (fun _ => rfl) fun _ => rfl
    | poolEnd hf hk hact => exact hmodify _ _ (fun _ => rfl) fun _ => rfl
    | @deliver r f th c hf hk hcalled hc hidle =>
      refine Extends.trans ?_ (of_shrinks (Shrinks.runCallback env th _ _ _))
      exact hmodify r _ (fun _ => rfl) fun _ => rfl

end Extends

/-- The outgoing requests so far, each with its future. -/
abbrev Asked := List (MsgId × Ref)

def LanguageServer.Event.asks (s : State T) : LanguageServer.Event → Asked
  | .protocol (.sendRequest id _ _) => [(id, s.fresh)]
  | _ => []

/-- A step, and the requests it sends. -/
def asking (env : Env T) (p : State T × Asked) (e : LanguageServer.Event) :
    Option (State T × Asked) :=
  (LanguageServer.step env p.1 e).map fun t => (t, p.2 ++ e.asks p.1)

/-- What was asked for has a future of its own, and the table refers to futures. -/
structure Kept (p : State T × Asked) : Prop where
  linked : Linked p.1
  asked : ∀ id r, (id, r) ∈ p.2 → p.1.skeleton[r]? = some (none, .client)
  table : ∀ (k : MsgId) (r : Ref), p.1.requestFutures.get? k = some r → r < p.1.skeleton.length

theorem getElem?_of_prefix {α : Type} {l l' : List α} (h : l <+: l') {i : Nat} {x : α}
    (hx : l[i]? = some x) : l'[i]? = some x := by
  obtain ⟨m, rfl⟩ := h
  obtain ⟨hlt, -⟩ := List.getElem?_eq_some_iff.mp hx
  rw [List.getElem?_append_left hlt]
  exact hx

namespace Kept

theorem init : Kept ((State.init, []) : State T × Asked) where
  linked := Linked.init
  asked := nofun
  table := by
    intro k r hr
    simp [State.init] at hr

theorem step {env : Env T} {p q : State T × Asked} {e : LanguageServer.Event} (h : Kept p)
    (hs : asking env p e = some q) : Kept q := by
  obtain ⟨t, ht, rfl⟩ := Option.map_eq_some_iff.mp hs
  have hext := Extends.step ht
  refine ⟨h.linked.step ht, ?_, ?_⟩
  · intro id r hr
    rcases List.mem_append.mp hr with hr | hr
    · exact getElem?_of_prefix hext.skeleton (h.asked id r hr)
    · unfold LanguageServer.Event.asks at hr
      split at hr
      · rename_i method params _
        cases List.mem_singleton.mp hr
        cases ht
        have hsk : (p.1.sendRequest env id method params).skeleton =
            (p.1.alloc (.pending none .client)).skeleton :=
          State.skeleton_of_futures (State.sendRequest_futures env p.1 id method params)
        rw [hsk, State.skeleton_alloc]
        simp [State.fresh, State.skeleton, Future.pending]
      · cases hr
  · intro k r hr
    rcases hext.table k r hr with hold | hnew
    · exact Nat.lt_of_lt_of_le (h.table k r hold) hext.skeleton.length_le
    · exact hnew

theorem future {p : State T × Asked} (h : Kept p) {k : MsgId} {r : Ref}
    (hr : p.1.requestFutures.get? k = some r) : ∃ f, p.1.futures[r]? = some f := by
  have hlt := h.table k r hr
  rw [State.skeleton, List.length_map] at hlt
  exact ⟨_, List.getElem?_eq_getElem hlt⟩

theorem of_run {env : Env T} {es : List LanguageServer.Event} {p : State T × Asked}
    (hrun : Lib.run (asking env) (State.init, []) es = some p) : Kept p := by
  refine Lib.run_invariant ?_ init (Lib.meets_true (asking env) _ es) hrun
  intro p e q h _ hs
  exact h.step hs

end Kept

/-- A response or an error response. `id` is `none` for one that is equal to no key of the
tables: null, or a number that is no integer. -/
inductive Frame where
  | result (id : Option MsgId) (result : Json)
  | error (id : Option MsgId) (error : ResponseError)

/-- `_handle_response`, and whether it raises. -/
def State.respond (env : Env T) (s : State T) (id : MsgId) (o : Outcome) : State T × Bool :=
  match s.requestFutures.get? id with
  | none => (s, false)
  | some r =>
    let s := s.popFuture id
    match s.futures[r]? with
    | none => (s, false)
    | some f =>
      if f.isTask then (s, true)
      else if f.isOpen then
        (runCallback env .main f.callback (.finished o) (s.modify r (Future.settle (.finished o))),
          false)
      else (s, true)

namespace Frame

def id : Frame → Option MsgId
  | .result id _ => id
  | .error id _ => id

def event : Frame → Option Event
  | .result id j => id.map fun k => .response k j
  | .error id e => id.map fun k => .errorResponse k (some e)

/-- What the frame says; `none` for a result that cannot be decoded to its class. -/
def outcome (env : Env T) (s : State T) : Frame → Option Outcome
  | .result id j =>
    (env.structureResult (id.bind fun k => (s.resultTypes.get? k).join) j).map .returned
  | .error _ e => some (.raised (.jsonRpc (.fromError e)))

def popType (s : State T) : Frame → State T
  | .result (some k) _ => s.popType k
  | _ => s

/-- `structure_message`, then `handle_message`, and whether one of them raises. -/
def receive (env : Env T) (s : State T) (frame : Frame) : State T × Bool :=
  match frame.outcome env s with
  | none => (frame.popType s, true)
  | some o =>
    if s.shutdown then (frame.popType s, false)
    else
      match frame.id with
      | none => (frame.popType s, false)
      | some k => (frame.popType s).respond env k o

end Frame

theorem respond_fst (env : Env T) (s : State T) (id : MsgId) (o : Outcome) :
    (s.respond env id o).1 = s.handleResponse env id o := by
  simp only [State.respond, State.handleResponse]
  cases s.requestFutures.get? id with
  | none => rfl
  | some r =>
    dsimp only
    cases (s.popFuture id).futures[r]? with
    | none => rfl
    | some f =>
      dsimp only
      by_cases htask : f.isTask = true
      · rw [if_pos htask, if_pos htask]
      · rw [if_neg htask, if_neg htask]
        by_cases hopen : f.isOpen = true
        · rw [if_pos hopen, if_pos hopen]
        · rw [if_neg hopen, if_neg hopen]

/-- It is the step of the protocol. -/
theorem receive_step (env : Env T) {s : State T} (hidle : s.mainIdle = true) {frame : Frame}
    {e : Event} (he : frame.event = some e) : step env s e = some (frame.receive env s).1 := by
  cases frame with
  | result id j =>
    obtain ⟨k, rfl, rfl⟩ := Option.map_eq_some_iff.mp he
    simp only [step, hidle, if_true, Frame.receive, Frame.outcome, Frame.id, Frame.popType,
      Option.bind_some, State.receiveResult]
    cases env.structureResult (s.resultTypes.get? k).join j with
    | none => rfl
    | some v =>
      have hpop : (s.popType k).shutdown = s.shutdown := rfl
      simp only [Option.map_some, hpop]
      by_cases hdown : s.shutdown = true
      · rw [if_pos hdown, if_pos hdown]
      · rw [if_neg hdown, if_neg hdown, respond_fst]
  | error id error =>
    obtain ⟨k, rfl, rfl⟩ := Option.map_eq_some_iff.mp he
    simp only [step, hidle, if_true, Frame.receive, Frame.outcome, Frame.id, Frame.popType,
      State.receiveError]
    split
    · rfl
    · rw [respond_fst]

/-- An outgoing request of the id whose future is still pending. -/
def Waits (p : State T × Asked) (id : Option MsgId) (r : Ref) : Prop :=
  ∃ k, id = some k ∧ (k, r) ∈ p.2 ∧ p.1.pendingAt r = true

/-- What the future of a waiting request is owed. -/
def Frame.Owes (env : Env T) (s : State T) (frame : Frame) (o : Outcome) : Prop :=
  match frame.outcome env s with
  | some o' => o = o'
  | none => ∃ e, o = .raised e

/-- The frame settles the request that waits for it; if none does, it raises nothing and
changes no future. -/
structure Settles (env : Env T) (p : State T × Asked) (frame : Frame) : Prop where
  waiting : ∀ r, Waits p frame.id r →
    (∃ f o, (frame.receive env p.1).1.futures[r]? = some f ∧ f.state = .finished o ∧
      frame.Owes env p.1 o) ∧
    ∀ i, i ≠ r → (frame.receive env p.1).1.futures[i]? = p.1.futures[i]?
  otherwise : (∀ r, ¬Waits p frame.id r) →
    (frame.receive env p.1).2 = false ∧ (frame.receive env p.1).1.futures = p.1.futures

/-- The result can be decoded, and what the table holds under the id is the request that
waits for it; after `shutdown` no request waits for it. -/
structure Expected (env : Env T) (p : State T × Asked) (frame : Frame) : Prop where
  decodes : frame.outcome env p.1 ≠ none
  down : p.1.shutdown = true → ∀ r, ¬Waits p frame.id r
  up : p.1.shutdown = false →
    ∀ r, Waits p frame.id r ↔ ∃ k, frame.id = some k ∧ p.1.requestFutures.get? k = some r

section Outgoing

variable (env : Env T) {th : Thread} {s : State T}

/-- A callback only touches the generators that it leads to. -/
theorem runCallback_outgoing (hl : Linked s) {i : Ref} {f : Future} (hf : s.futures[i]? = some f)
    (c : Completion) {r : Ref} (hr : s.skeleton[r]? = some (none, .client)) :
    (State.runCallback env th f.callback c s).futures[r]? = s.futures[r]? := by
  have hother : ∀ (t : State T) (p : Ref) (up : Callback), t.skeleton = s.skeleton →
      t.skeleton[p]? = some (some .generator, up) → p ≠ r := by
    rintro t p up hsk hp rfl
    rw [hsk, hr] at hp
    cases hp
  refine (runCallback_rule
    (I := fun t => t.skeleton = s.skeleton ∧ t.futures[r]? = s.futures[r]?)
    (R := fun t cb _ => ∀ p up, cb = .runGenerator p up →
      t.skeleton[p]? = some (some .generator, up)) ?_ ?_ ?_ f.callback c s ⟨rfl, rfl⟩ ?_).2
  · intro t id n c h _
    have hs := State.sendHandlerResult_sends env t id n c
    exact ⟨(State.skeleton_of_futures hs.futures).trans h.1, hs.futures ▸ h.2⟩
  · intro t p up c v h hp
    refine ⟨(State.skeleton_resume t p th v).trans h.1, ?_⟩
    rw [State.resume, State.getElem?_modify, if_neg (hother t p up h.1 (hp p up rfl))]
    exact h.2
  · intro t t' p up c x h hp _ hs
    have hsk := State.skeleton_setOutcome hs
    refine ⟨⟨hsk.trans h.1, ?_⟩, ?_⟩
    · obtain ⟨g, -, -, rfl⟩ := setOutcome_eq_some hs
      rw [State.getElem?_modify, if_neg (hother t p up h.1 (hp p up rfl))]
      exact h.2
    · intro p' up' hup
      subst hup
      have hpar := hp p (.runGenerator p' up') rfl
      rw [h.1] at hpar
      rw [hsk, h.1]
      exact (hl.yielded p _ p' up' hpar).2
  · intro p up hcb
    have hi : s.skeleton[i]? = some (f.handler, .runGenerator p up) := by
      rw [State.getElem?_skeleton, hf, ← hcb]
      rfl
    exact (hl.yielded i f.handler p up hi).2

theorem runCallback_done (cb : Callback) (c : Completion) {r : Ref}
    (h : s.futures[r]?.any Future.isOpen = false) :
    (State.runCallback env th cb c s).futures[r]?.any Future.isOpen = false := by
  refine runCallback_rule (I := fun t => t.futures[r]?.any Future.isOpen = false)
    (R := fun _ _ _ => True) ?_ ?_ ?_ cb c s h trivial
  · intro t id n c h _
    rw [(State.sendHandlerResult_sends env t id n c).futures]
    exact h
  · intro t p up c v h _
    rw [State.resume, State.getElem?_modify]
    split
    · rw [Option.any_map]
      exact h
    · exact h
  · intro t t' p up c x h _ _ hs
    obtain ⟨g, -, -, rfl⟩ := setOutcome_eq_some hs
    refine ⟨?_, trivial⟩
    rw [State.getElem?_modify]
    split
    · rw [Option.any_map]
      cases t.futures[r]? <;> rfl
    · exact h

theorem respond_absent {k : MsgId} (h : s.requestFutures.get? k = none) (o : Outcome) :
    s.respond env k o = (s, false) := by
  rw [State.respond, h]

theorem respond_waiting {k : MsgId} {r : Ref} {f : Future} (h : s.requestFutures.get? k = some r)
    (hf : s.futures[r]? = some f) (hk : f.handler = none) (hcb : f.callback = .client)
    (hp : f.isPending = true) (o : Outcome) :
    s.respond env k o = ((s.popFuture k).modify r (Future.settle (.finished o)), false) := by
  have htask : f.isTask = false := by
    simp [Future.isTask, hk]
  have hf' : (s.popFuture k).futures[r]? = some f := hf
  rw [State.respond, h]
  dsimp only
  rw [hf']
  dsimp only
  rw [htask, isOpen_of_isPending hp, hcb]
  rfl

/-- Whatever the table holds: it raises and changes no future, or it completes that one and
leaves the other outgoing ones alone. -/
theorem respond_cases (hl : Linked s) {k : MsgId} {r : Ref} {f : Future}
    (h : s.requestFutures.get? k = some r) (hf : s.futures[r]? = some f) (o : Outcome) :
    (s.respond env k o).2 = true ∧ (s.respond env k o).1.futures = s.futures ∨
    f.isOpen = true ∧ (s.respond env k o).1.futures[r]?.any Future.isOpen = false ∧
      ∀ i, s.skeleton[i]? = some (none, .client) → i ≠ r →
        (s.respond env k o).1.futures[i]? = s.futures[i]? := by
  have hf' : (s.popFuture k).futures[r]? = some f := hf
  rw [State.respond, h]
  dsimp only
  rw [hf']
  dsimp only
  by_cases htask : f.isTask = true
  · rw [if_pos htask]
    exact Or.inl ⟨rfl, rfl⟩
  · rw [if_neg htask]
    by_cases hopen : f.isOpen = true
    · rw [if_pos hopen]
      right
      have hset := State.getElem?_modify_self (g := Future.settle (.finished o)) hf'
      refine ⟨hopen, ?_, ?_⟩
      · apply runCallback_done
        rw [hset]
        rfl
      · intro i hi hne
        have hsk : ((s.popFuture k).modify r (Future.settle (.finished o))).skeleton = s.skeleton :=
          State.skeleton_modify (s.popFuture k) r (fun _ => rfl) (fun _ => rfl)
        refine (runCallback_outgoing env (hl.congr hsk) hset (.finished o) (hsk ▸ hi)).trans ?_
        rw [State.getElem?_modify_ne hne]
        rfl
    · rw [if_neg hopen]
      exact Or.inl ⟨rfl, rfl⟩

end Outgoing

namespace Frame

variable {env : Env T} {s : State T} {frame : Frame}

@[simp] theorem popType_futures (frame : Frame) (s : State T) :
    (frame.popType s).futures = s.futures := by
  unfold popType
  split <;> rfl

@[simp] theorem popType_requestFutures (frame : Frame) (s : State T) :
    (frame.popType s).requestFutures = s.requestFutures := by
  unfold popType
  split <;> rfl

theorem receive_undecodable (h : frame.outcome env s = none) :
    frame.receive env s = (frame.popType s, true) := by
  rw [receive, h]

theorem receive_down (h : frame.outcome env s ≠ none) (hdown : s.shutdown = true) :
    frame.receive env s = (frame.popType s, false) := by
  obtain ⟨o, ho⟩ := Option.ne_none_iff_exists'.mp h
  rw [receive, ho]
  exact if_pos hdown

theorem receive_unknown (h : frame.outcome env s ≠ none) (hid : frame.id = none) :
    frame.receive env s = (frame.popType s, false) := by
  obtain ⟨o, ho⟩ := Option.ne_none_iff_exists'.mp h
  rw [receive, ho, hid]
  dsimp only
  split <;> rfl

theorem receive_up {o : Outcome} {k : MsgId} (ho : frame.outcome env s = some o)
    (hup : s.shutdown = false) (hid : frame.id = some k) :
    frame.receive env s = (frame.popType s).respond env k o := by
  rw [receive, ho, hid, hup]
  rfl

end Frame

section Settling

variable {env : Env T} {p : State T × Asked} {frame : Frame}

theorem Waits.future {r : Ref} {id : Option MsgId} (hk : Kept p) (h : Waits p id r) :
    ∃ f, p.1.futures[r]? = some f ∧ f.isPending = true ∧ f.handler = none ∧
      f.callback = .client := by
  obtain ⟨k, -, hmem, hpend⟩ := h
  obtain ⟨f, hf, hp⟩ := (Option.any_eq_true _ _).mp hpend
  have hsk := hk.asked k r hmem
  rw [State.getElem?_skeleton, hf] at hsk
  obtain ⟨hh, hcb⟩ := Prod.mk.inj (Option.some.inj hsk)
  exact ⟨f, hf, hp, hh, hcb⟩

/-- A future that waits is not yet finished. -/
theorem Waits.unsettled {r : Ref} {id : Option MsgId} (h : Waits p id r) {t : State T}
    (hsame : t.futures[r]? = p.1.futures[r]?) :
    ¬∃ f o, t.futures[r]? = some f ∧ f.state = .finished o ∧ frame.Owes env p.1 o := by
  rintro ⟨f, o, hf, hst, -⟩
  obtain ⟨k, -, -, hpend⟩ := h
  rw [hsame] at hf
  rw [State.pendingAt, hf, Option.any_some, Future.isPending, hst] at hpend
  cases hpend

theorem settles_of_expected (hk : Kept p) (h : Expected env p frame) : Settles env p frame := by
  obtain ⟨o, ho⟩ := Option.ne_none_iff_exists'.mp h.decodes
  cases hdown : p.1.shutdown with
  | true =>
    constructor
    · intro r hw
      exact absurd hw (h.down hdown r)
    · intro _
      rw [Frame.receive_down h.decodes hdown]
      exact ⟨rfl, Frame.popType_futures frame p.1⟩
  | false =>
    constructor
    · intro r hw
      obtain ⟨k, hid, hr⟩ := (h.up hdown r).mp hw
      obtain ⟨f, hf, hp, hh, hcb⟩ := hw.future hk
      have htable : (frame.popType p.1).requestFutures.get? k = some r := by
        rw [Frame.popType_requestFutures]
        exact hr
      have hfuture : (frame.popType p.1).futures[r]? = some f := by
        rw [Frame.popType_futures]
        exact hf
      rw [Frame.receive_up ho hdown hid, respond_waiting env htable hfuture hh hcb hp]
      refine ⟨⟨f.settle (.finished o), o, ?_, rfl, ?_⟩, ?_⟩
      · exact State.getElem?_modify_self hfuture
      · rw [Frame.Owes, ho]
      · intro i hi
        rw [State.getElem?_modify_ne hi, ← Frame.popType_futures frame p.1]
        rfl
    · intro hno
      cases hid : frame.id with
      | none =>
        rw [Frame.receive_unknown h.decodes hid]
        exact ⟨rfl, Frame.popType_futures frame p.1⟩
      | some k =>
        have hnone : (frame.popType p.1).requestFutures.get? k = none := by
          rw [Frame.popType_requestFutures, Option.eq_none_iff_forall_ne_some]
          intro r hr
          exact hno r ((h.up hdown r).mpr ⟨k, hid, hr⟩)
        rw [Frame.receive_up ho hdown hid, respond_absent env hnone]
        exact ⟨rfl, Frame.popType_futures frame p.1⟩

/-- What a decodable frame does to the future that the table holds under its id. -/
theorem receive_cases (hk : Kept p) {o : Outcome} {k : MsgId} {r : Ref} {f : Future}
    (ho : frame.outcome env p.1 = some o) (hup : p.1.shutdown = false) (hid : frame.id = some k)
    (hr : p.1.requestFutures.get? k = some r) (hf : p.1.futures[r]? = some f) :
    (frame.receive env p.1).2 = true ∧ (frame.receive env p.1).1.futures = p.1.futures ∨
    f.isOpen = true ∧ (frame.receive env p.1).1.futures[r]?.any Future.isOpen = false ∧
      ∀ i, p.1.skeleton[i]? = some (none, .client) → i ≠ r →
        (frame.receive env p.1).1.futures[i]? = p.1.futures[i]? := by
  have hfutures := Frame.popType_futures frame p.1
  have hsk := State.skeleton_of_futures hfutures
  have hcases := respond_cases env (hk.linked.congr hsk)
    ((Frame.popType_requestFutures frame p.1).symm ▸ hr) (hfutures.symm ▸ hf) o
  rwa [← Frame.receive_up ho hup hid, hfutures, hsk] at hcases

theorem Settles.decodes (h : Settles env p frame) : frame.outcome env p.1 ≠ none := by
  intro hnone
  have hrec := Frame.receive_undecodable hnone
  have hsame : (frame.receive env p.1).1.futures = p.1.futures := by
    rw [hrec]
    exact Frame.popType_futures frame p.1
  by_cases hw : ∃ r, Waits p frame.id r
  · obtain ⟨r, hw⟩ := hw
    exact hw.unsettled (by rw [hsame]) (h.waiting r hw).1
  · have hraise := (h.otherwise fun r hr => hw ⟨r, hr⟩).1
    rw [hrec] at hraise
    cases hraise

theorem Settles.down (h : Settles env p frame) (hdown : p.1.shutdown = true) (r : Ref) :
    ¬Waits p frame.id r := by
  intro hw
  apply hw.unsettled _ (h.waiting r hw).1
  rw [Frame.receive_down h.decodes hdown, Frame.popType_futures]

/-- The request that a frame settles is the one in the table. -/
theorem Settles.in_table (hk : Kept p) (h : Settles env p frame) (hup : p.1.shutdown = false)
    {r : Ref} (hw : Waits p frame.id r) :
    ∃ k, frame.id = some k ∧ p.1.requestFutures.get? k = some r := by
  obtain ⟨o, ho⟩ := Option.ne_none_iff_exists'.mp h.decodes
  obtain ⟨k, hid, hmem, -⟩ := id hw
  have hrec := Frame.receive_up ho hup hid
  have hsettled := (h.waiting r hw).1
  refine ⟨k, hid, ?_⟩
  cases hr : p.1.requestFutures.get? k with
  | none =>
    -- Nothing happens, so the future still waits.
    refine absurd hsettled (hw.unsettled ?_)
    have hnone : (frame.popType p.1).requestFutures.get? k = none := by
      rw [Frame.popType_requestFutures]
      exact hr
    rw [hrec, respond_absent env hnone, Frame.popType_futures]
  | some i =>
    congr
    by_contra hne
    refine hw.unsettled ?_ hsettled
    obtain ⟨f, hf⟩ := hk.future hr
    rcases receive_cases hk ho hup hid hr hf with ⟨-, hsame⟩ | ⟨-, -, hother⟩
    · rw [hsame]
    · exact hother r (hk.asked k r hmem) (Ne.symm hne)

theorem expected_of_settles (hk : Kept p) (h : Settles env p frame) : Expected env p frame := by
  refine ⟨h.decodes, h.down, fun hup r => ⟨h.in_table hk hup, ?_⟩⟩
  rintro ⟨k, hid, hr⟩
  by_contra hnot
  obtain ⟨o, ho⟩ := Option.ne_none_iff_exists'.mp h.decodes
  have hnone : ∀ i, ¬Waits p frame.id i := by
    intro i hi
    obtain ⟨k', hid', hi'⟩ := h.in_table hk hup hi
    rw [hid] at hid'
    cases hid'
    rw [hr] at hi'
    cases hi'
    exact hnot hi
  obtain ⟨hraise, hsame⟩ := h.otherwise hnone
  obtain ⟨f, hf⟩ := hk.future hr
  rcases receive_cases hk ho hup hid hr hf with ⟨htrue, -⟩ | ⟨hopen, hdone, -⟩
  · rw [htrue] at hraise
    cases hraise
  · rw [hsame, hf, Option.any_some, hopen] at hdone
    cases hdone

end Settling

/-- In every reachable state a response settles the request that waits for it and disturbs
nothing else exactly when it is expected. -/
theorem response_settles_its_request {env : Env T} {es : List LanguageServer.Event}
    {p : State T × Asked} (hrun : Lib.run (asking env) (State.init, []) es = some p)
    (frame : Frame) : Settles env p frame ↔ Expected env p frame :=
  ⟨expected_of_settles (Kept.of_run hrun), settles_of_expected (Kept.of_run hrun)⟩

/-- A request is answered. -/
theorem response_settles_its_request_answered :
    ∃ p, Lib.run (asking sampleEnv) (State.init, [])
        [.protocol (.sendRequest (.int 1) [] .none)] = some p ∧
      Settles sampleEnv p (.result (some (.int 1)) .null) := by
  have hrun : Lib.run (asking sampleEnv) (State.init, [])
      [.protocol (.sendRequest (.int 1) [] .none)] = some _ := rfl
  refine ⟨_, rfl, (response_settles_its_request hrun (.result (some (.int 1)) .null)).mpr ?_⟩
  refine ⟨nofun, nofun, fun _ r => ⟨?_, ?_⟩⟩
  · rintro ⟨k, hid, hmem, -⟩
    cases hid
    cases List.mem_singleton.mp hmem
    exact ⟨.int 1, rfl, rfl⟩
  · rintro ⟨k, hid, hr⟩
    cases hid
    cases hr
    exact ⟨.int 1, rfl, List.mem_singleton.mpr rfl, rfl⟩

/-- The caller has cancelled, and the late response raises; and a result that cannot be
decoded leaves its request pending. -/
theorem late_and_malformed_responses :
    (∃ p, Lib.run (asking sampleEnv) (State.init, [])
        [.protocol (.sendRequest (.int 1) [] .none), .protocol (.cancelOutgoing 0)] = some p ∧
      ¬Settles sampleEnv p (.result (some (.int 1)) .null)) ∧
    (∃ p, Lib.run (asking sampleEnv) (State.init, [])
        [.protocol (.sendRequest (.int 1) [] .none)] = some p ∧
      ¬Settles sampleEnv p (.result (some (.int 1)) (.str []))) := by
  refine ⟨⟨_, rfl, ?_⟩, ⟨_, rfl, ?_⟩⟩
  · intro h
    have hraises := h.otherwise (by
      rintro r ⟨k, -, hmem, hpend⟩
      cases List.mem_singleton.mp hmem
      cases hpend)
    cases hraises.1
  · intro h
    exact h.decodes rfl

end Pygls
