import Pygls.LanguageServer

/-!
# The two directions' ids

Incoming requests, outgoing requests and the protocol's own handlers share one
table, so equal ids of different origin can meet in it. The reference is the same
protocol run on the same events with the ids of the three origins kept apart by
a renaming. `Apart` says that a step finds no entry of another origin under the
id it uses; then the two runs do the same.
-/

namespace Pygls

set_option autoImplicit false

variable {T : Type}

inductive Direction where
  | incoming
  | outgoing
  | internal
deriving DecidableEq

/-- Whose id a future is registered under. -/
def Future.direction (f : Future) : Direction :=
  match f.handler, f.callback with
  | none, _ => .outgoing
  | some _, .sendHandlerResult _ _ => .incoming
  | some _, _ => .internal

structure Renaming where
  key : Direction → MsgId → MsgId
  uuid : Str → Str
  internal : ∀ u, key .internal (.str u) = .str (uuid u)
  injective : ∀ d d' k k', key d k = key d' k' → d = d' ∧ k = k'

namespace Renaming

def callback (ρ : Renaming) : Callback → Callback
  | .sendHandlerResult id n => .sendHandlerResult (ρ.key .incoming id) n
  | .checkHandlerResult => .checkHandlerResult
  | .client => .client
  | .runGenerator r up => .runGenerator r (ρ.callback up)

def future (ρ : Renaming) (f : Future) : Future := { f with callback := ρ.callback f.callback }

def request (ρ : Renaming) (q : Request) : Request := { q with id := ρ.key .incoming q.id }

def event (ρ : Renaming) : Event → Event
  | .request q start => .request (ρ.request q) start
  | .notification method uuid start => .notification method (ρ.uuid uuid) start
  | .cancelRequest id => .cancelRequest (ρ.key .incoming id)
  | .response id result => .response (ρ.key .outgoing id) result
  | .errorResponse id error => .errorResponse (ρ.key .outgoing id) error
  | .sendRequest id method params => .sendRequest (ρ.key .outgoing id) method params
  | .genYield r uuid kind start => .genYield r (ρ.uuid uuid) kind start
  | e => e

/-- The same answer; the text of a cancellation quotes the id. -/
inductive Answers (ρ : Renaming) (id : MsgId) : Answer T → Answer T → Prop where
  | result {v : Json} : Answers ρ id (.result none v) (.result none v)
  | error {code : Int} {message : Str} {data : Json} :
      Answers ρ id (.error code message data) (.error code message data)
  | cancelled {a b : Answer T} : (requestCancelled id).toResponseError.answer = some a →
      (requestCancelled (ρ.key .incoming id)).toResponseError.answer = some b → Answers ρ id a b

inductive Messages (ρ : Renaming) : Message T → Message T → Prop where
  | request {q : Request} :
      Messages ρ (.request q) (.request { q with id := ρ.key .outgoing q.id })
  | response {n : Nat} {id : MsgId} {a b : Answer T} : ρ.Answers id a b →
      Messages ρ (.response n id a) (.response n (ρ.key .incoming id) b)

end Renaming

/-- The second state is the first with the ids kept apart. -/
structure Mirrors (ρ : Renaming) (s t : State T) : Prop where
  futures : t.futures = s.futures.map ρ.future
  received : t.received = s.received.map fun q => (ρ.request q.1, q.2)
  shutdown : t.shutdown = s.shutdown
  writes : t.writes = s.writes
  sent : List.Forall₂ ρ.Messages s.sent t.sent
  entry : ∀ (k : MsgId) (r : Ref), s.requestFutures.get? k = some r →
    ∃ f, s.futures[r]? = some f ∧ t.requestFutures.get? (ρ.key f.direction k) = some r ∧
      ∀ (k' : MsgId) (n : Nat), f.callback = .sendHandlerResult k' n → k' = k
  back : ∀ (k' : MsgId) (r : Ref), t.requestFutures.get? k' = some r →
    ∃ (k : MsgId) (f : Future), s.futures[r]? = some f ∧ s.requestFutures.get? k = some r ∧
      k' = ρ.key f.direction k
  types : ∀ (k : MsgId), t.resultTypes.get? (ρ.key .outgoing k) = s.resultTypes.get? k
  outgoingTypes : ∀ (k' : MsgId), t.resultTypes.get? k' ≠ none → ∃ k, k' = ρ.key .outgoing k

/-- Whatever is in the table under the id has the given origin. -/
def Held (s : State T) (d : Direction) (k : MsgId) : Prop :=
  ∀ (r : Ref) (f : Future), s.requestFutures.get? k = some r → s.futures[r]? = some f →
    f.direction = d

/-- An answer to an incoming request takes nothing of an outgoing one with it. -/
def Unmixed (s : State T) (id : MsgId) (c : Completion) : Prop :=
  Held s .incoming id ∧ ∀ v, c = .finished (.returned v) → s.resultTypes.get? id = none

namespace Mirrors

variable {ρ : Renaming} {s t : State T}

theorem getElem?_futures (h : Mirrors ρ s t) (r : Ref) :
    t.futures[r]? = s.futures[r]?.map ρ.future := by
  rw [h.futures, List.getElem?_map]

theorem some_future (h : Mirrors ρ s t) {r : Ref} {f : Future} (hf : s.futures[r]? = some f) :
    t.futures[r]? = some (ρ.future f) := by
  rw [h.getElem?_futures, hf]
  rfl

theorem any_futures (h : Mirrors ρ s t) (r : Ref) {p : Future → Bool}
    (hp : ∀ f, p (ρ.future f) = p f) : t.futures[r]?.any p = s.futures[r]?.any p := by
  rw [h.getElem?_futures]
  cases s.futures[r]? with
  | none => rfl
  | some f => exact hp f

theorem mainIdle (h : Mirrors ρ s t) : t.mainIdle = s.mainIdle := by
  rw [State.mainIdle, State.mainIdle, h.futures, List.all_map]
  rfl

theorem pendingAt (h : Mirrors ρ s t) (r : Ref) : t.pendingAt r = s.pendingAt r :=
  h.any_futures r fun _ => rfl

theorem cancelled (h : Mirrors ρ s t) (r : Ref) : t.cancelled r = s.cancelled r :=
  h.any_futures r fun _ => rfl

theorem wasResumed (h : Mirrors ρ s t) (r : Ref) : t.wasResumed r = s.wasResumed r :=
  h.any_futures r fun _ => rfl

theorem fresh (h : Mirrors ρ s t) : t.fresh = s.fresh := by
  rw [State.fresh, State.fresh, h.futures, List.length_map]

/-- Both tables give the same answer where the entry has the right origin. -/
theorem lookup (h : Mirrors ρ s t) {d : Direction} {k : MsgId} (hk : Held s d k) :
    t.requestFutures.get? (ρ.key d k) = s.requestFutures.get? k := by
  cases hs : s.requestFutures.get? k with
  | some r =>
    obtain ⟨f, hf, ht, -⟩ := h.entry k r hs
    rw [hk r f hs hf] at ht
    exact ht
  | none =>
    cases ht : t.requestFutures.get? (ρ.key d k) with
    | none => rfl
    | some r =>
      obtain ⟨k₀, f, hf, hs₀, heq⟩ := h.back _ r ht
      obtain ⟨-, rfl⟩ := ρ.injective _ _ _ _ heq
      rw [hs] at hs₀
      cases hs₀

theorem incoming_untyped (h : Mirrors ρ s t) (k : MsgId) :
    t.resultTypes.get? (ρ.key .incoming k) = none := by
  cases ht : t.resultTypes.get? (ρ.key .incoming k) with
  | none => rfl
  | some c =>
    obtain ⟨k', heq⟩ := h.outgoingTypes (ρ.key .incoming k) (by rw [ht]; simp)
    obtain ⟨hd, -⟩ := ρ.injective _ _ _ _ heq
    cases hd

theorem modify (h : Mirrors ρ s t) (r : Ref) {g : Future → Future}
    (hg : ∀ f, ρ.future (g f) = g (ρ.future f)) (hk : ∀ f, (g f).handler = f.handler)
    (hcb : ∀ f, (g f).callback = f.callback) : Mirrors ρ (s.modify r g) (t.modify r g) := by
  have hdir : ∀ f, (g f).direction = f.direction := by
    intro f
    unfold Future.direction
    rw [hk, hcb]
  have forth : ∀ (i : Ref) (f : Future), s.futures[i]? = some f →
      ∃ f', (s.modify r g).futures[i]? = some f' ∧ f'.direction = f.direction ∧
        f'.callback = f.callback := by
    intro i f hf
    rw [State.getElem?_modify, hf]
    split
    · exact ⟨g f, rfl, hdir f, hcb f⟩
    · exact ⟨f, rfl, rfl, rfl⟩
  refine { h with futures := ?_, entry := ?_, back := ?_ }
  · simp only [State.modify, h.futures]
    apply List.ext_getElem?
    intro i
    simp only [List.getElem?_modify, List.getElem?_map]
    cases s.futures[i]? with
    | none => rfl
    | some f =>
      by_cases hri : r = i
      · simp [hri, hg]
      · simp [hri]
  · intro k i hi
    obtain ⟨f, hf, ht, hown⟩ := h.entry k i hi
    obtain ⟨f', hf', hd, hc⟩ := forth i f hf
    exact ⟨f', hf', hd ▸ ht, hc ▸ hown⟩
  · intro k' i hi
    obtain ⟨k, f, hf, hs, heq⟩ := h.back k' i hi
    obtain ⟨f', hf', hd, -⟩ := forth i f hf
    exact ⟨k, f', hf', hs, hd ▸ heq⟩

theorem settle (h : Mirrors ρ s t) (r : Ref) (st : FutureState) :
    Mirrors ρ (s.modify r (Future.settle st)) (t.modify r (Future.settle st)) :=
  h.modify r (fun _ => rfl) (fun _ => rfl) (fun _ => rfl)

theorem leave (h : Mirrors ρ s t) (r : Ref) : Mirrors ρ (s.leave r) (t.leave r) :=
  h.modify r (fun _ => rfl) (fun _ => rfl) (fun _ => rfl)

theorem resume (h : Mirrors ρ s t) (r : Ref) (th : Thread) (v : PyValue) :
    Mirrors ρ (s.resume r th v) (t.resume r th v) :=
  h.modify r (fun _ => rfl) (fun _ => rfl) (fun _ => rfl)

theorem popFuture (h : Mirrors ρ s t) {d : Direction} {k : MsgId} (hk : Held s d k) :
    Mirrors ρ (s.popFuture k) (t.popFuture (ρ.key d k)) := by
  refine { h with entry := ?_, back := ?_ }
  · intro k₀ r hr
    simp only [State.popFuture, Lib.Dict.get?_pop] at hr
    split at hr
    · cases hr
    · rename_i hne
      obtain ⟨f, hf, ht, hown⟩ := h.entry k₀ r hr
      refine ⟨f, hf, ?_, hown⟩
      rw [State.popFuture, Lib.Dict.get?_pop_ne]
      · exact ht
      · intro heq
        exact hne (ρ.injective _ _ _ _ heq).2
  · intro k' r hr
    simp only [State.popFuture, Lib.Dict.get?_pop] at hr
    split at hr
    · cases hr
    · rename_i hne
      obtain ⟨k₀, f, hf, hs, heq⟩ := h.back k' r hr
      refine ⟨k₀, f, hf, ?_, heq⟩
      rw [State.popFuture, Lib.Dict.get?_pop_ne]
      · exact hs
      · rintro rfl
        exact hne (heq.trans (by rw [hk r f hs hf]))

/-- A new future, registered under an id that nothing of another origin has. -/
theorem register (h : Mirrors ρ s t) {d : Direction} {k : MsgId} (hk : Held s d k) {g : Future}
    (hd : g.direction = d) (hown : ∀ k' n, g.callback = .sendHandlerResult k' n → k' = k) :
    Mirrors ρ ((s.alloc g).register k s.fresh)
      ((t.alloc (ρ.future g)).register (ρ.key d k) t.fresh) := by
  have hnew : (s.alloc g).futures[s.fresh]? = some g := by
    simp [State.alloc, State.fresh]
  refine { h with futures := ?_, entry := ?_, back := ?_ }
  · simp [State.register, State.alloc, h.futures]
  · intro k₀ r hr
    simp only [State.register, Lib.Dict.get?_set] at hr ⊢
    split at hr
    · rename_i hk₀
      cases hr
      refine ⟨g, hnew, ?_, hk₀ ▸ hown⟩
      rw [hd, hk₀, if_pos rfl, h.fresh]
    · rename_i hne
      obtain ⟨f, hf, ht, hown'⟩ := h.entry k₀ r hr
      refine ⟨f, Discipline.getElem?_alloc_of_some hf, ?_, hown'⟩
      rw [if_neg]
      · exact ht
      · intro heq
        exact hne (ρ.injective _ _ _ _ heq).2
  · intro k' r hr
    simp only [State.register, Lib.Dict.get?_set] at hr ⊢
    split at hr
    · rename_i hk'
      cases hr
      rw [h.fresh]
      exact ⟨k, g, hnew, if_pos rfl, by rw [hd, hk']⟩
    · rename_i hne
      obtain ⟨k₀, f, hf, hs, heq⟩ := h.back k' r hr
      refine ⟨k₀, f, Discipline.getElem?_alloc_of_some hf, ?_, heq⟩
      rw [if_neg]
      · exact hs
      · rintro rfl
        exact hne (heq.trans (by rw [hk r f hs hf]))

/-- A new future that is not registered. -/
theorem alloc (h : Mirrors ρ s t) (g : Future) : Mirrors ρ (s.alloc g) (t.alloc (ρ.future g)) := by
  refine { h with futures := ?_, entry := ?_, back := ?_ }
  · simp [State.alloc, h.futures]
  · intro k r hr
    obtain ⟨f, hf, hrest⟩ := h.entry k r hr
    exact ⟨f, Discipline.getElem?_alloc_of_some hf, hrest⟩
  · intro k' r hr
    obtain ⟨k, f, hf, hrest⟩ := h.back k' r hr
    exact ⟨k, f, Discipline.getElem?_alloc_of_some hf, hrest⟩

theorem sendData (h : Mirrors ρ s t) (env : Env T) {m m' : Option (Message T)}
    (hm : Option.Rel ρ.Messages m m') :
    Mirrors ρ (s.sendData env m).1 (t.sendData env m').1 ∧
      (t.sendData env m').2 = (s.sendData env m).2 := by
  cases hm with
  | none => exact ⟨h, rfl⟩
  | some hm =>
    simp only [State.sendData, h.writes]
    split
    · refine ⟨{ h with writes := rfl, sent := ?_ }, rfl⟩
      exact List.rel_append h.sent (.cons hm .nil)
    · exact ⟨{ h with writes := rfl }, rfl⟩
    · exact ⟨{ h with writes := rfl }, rfl⟩

theorem rel_error (ρ : Renaming) (n : Nat) (id : MsgId) (error : ResponseError) :
    Option.Rel (ρ.Messages (T := T)) (error.answer.map (.response n id))
      (error.answer.map (.response n (ρ.key .incoming id))) := by
  unfold ResponseError.answer
  cases Json.toJson error.data with
  | none => exact .none
  | some data => exact .some (.response .error)

theorem rel_cancelled (ρ : Renaming) (n : Nat) (id : MsgId) :
    Option.Rel (ρ.Messages (T := T))
      ((requestCancelled id).toResponseError.answer.map (.response n id))
      ((requestCancelled (ρ.key .incoming id)).toResponseError.answer.map
        (.response n (ρ.key .incoming id))) :=
  .some (.response (.cancelled rfl rfl))

theorem rel_result (ρ : Renaming) (env : Env T) (n : Nat) (id : MsgId) (v : PyValue) :
    Option.Rel ρ.Messages ((env.answer none v).map (.response n id))
      ((env.answer none v).map (.response n (ρ.key .incoming id))) := by
  unfold Env.answer
  cases env.encode none v with
  | none => exact .none
  | some j => exact .some (.response .result)

theorem sendException (h : Mirrors ρ s t) (env : Env T) (n : Nat) (id : MsgId) (x : PyExc) :
    Mirrors ρ (s.sendException env n id x) (t.sendException env n (ρ.key .incoming id) x) :=
  (h.sendData env (rel_error ρ n id _)).1

theorem orSendException (env : Env T) (n : Nat) (id : MsgId) {p p' : State T × Option PyExc}
    (h : Mirrors ρ p.1 p'.1 ∧ p'.2 = p.2) :
    Mirrors ρ (State.orSendException env n id p)
      (State.orSendException env n (ρ.key .incoming id) p') := by
  unfold State.orSendException
  rw [h.2]
  split
  · exact h.1
  · exact h.1.sendException env n id _

/-- Popping a class that is not registered on either side. -/
theorem popType (h : Mirrors ρ s t) {k k' : MsgId} (hk : s.resultTypes.get? k = none)
    (hk' : t.resultTypes.get? k' = none) : Mirrors ρ (s.popType k) (t.popType k') := by
  unfold State.popType
  rw [Lib.Dict.pop_of_get?_none hk, Lib.Dict.pop_of_get?_none hk']
  exact h

theorem sendHandlerResult (h : Mirrors ρ s t) (env : Env T) {id : MsgId} (n : Nat)
    {c : Completion} (hu : Unmixed s id c) :
    Mirrors ρ (s.sendHandlerResult env id n c)
      (t.sendHandlerResult env (ρ.key .incoming id) n c) := by
  have hpop := h.popFuture hu.1
  cases c with
  | cancelled => exact orSendException env n id (hpop.sendData env (rel_cancelled ρ n id))
  | taskCancelled => exact orSendException env n id (hpop.sendData env (rel_cancelled ρ n id))
  | finished o =>
    cases o with
    | raised x => exact hpop.sendException env n id x
    | returned v =>
      have hnone : (s.popFuture id).resultTypes.get? id = none := hu.2 v rfl
      have hnone' : (t.popFuture (ρ.key .incoming id)).resultTypes.get? (ρ.key .incoming id) = none :=
        h.incoming_untyped id
      rw [State.sendHandlerResult, State.sendHandlerResult, State.sendResult, State.sendResult,
        hnone, hnone']
      exact orSendException env n id
        ((hpop.popType hnone hnone').sendData env (rel_result ρ env n id v))

theorem setOutcome (h : Mirrors ρ s t) (r : Ref) (o : Outcome) :
    (s.setOutcome r o = none ∧ t.setOutcome r o = none) ∨
      ∃ s' t', s.setOutcome r o = some s' ∧ t.setOutcome r o = some t' ∧ Mirrors ρ s' t' := by
  have hp := h.pendingAt r
  unfold State.pendingAt at hp
  unfold State.setOutcome
  rw [hp]
  split
  · exact Or.inr ⟨_, _, rfl, rfl, h.settle r _⟩
  · exact Or.inl ⟨rfl, rfl⟩

end Mirrors

theorem Held.mono {s t : State T} (hst : Shrinks s t) {d : Direction} {k : MsgId} (h : Held s d k) :
    Held t d k := by
  intro r f hr hf
  obtain ⟨g, hg, hgk, hgcb⟩ := hst.future hf
  have hdir := h r g (hst.table k r hr) hg
  unfold Future.direction at hdir ⊢
  rw [← hgk, ← hgcb]
  exact hdir

theorem Unmixed.mono {s t : State T} (hst : Shrinks s t) {id : MsgId} {c : Completion}
    (h : Unmixed s id c) : Unmixed t id c :=
  ⟨h.1.mono hst, fun v hv => hst.types id (h.2 v hv)⟩

/-- No answer on the way mixes the directions up. -/
def Separated (s : State T) (cb : Callback) (c : Completion) : Prop :=
  Along s (fun _ => True) (Unmixed s) cb c

def SeparatedRaised (s : State T) (cb : Callback) (x : PyExc) : Prop :=
  AlongRaised s (fun _ => True) (Unmixed s) cb x

theorem Separated.mono {s t : State T} (hst : Shrinks s t) {cb : Callback} {c : Completion}
    (h : Separated s cb c) : Separated t cb c :=
  Along.mono hst (fun _ _ => trivial) (fun _ _ hu => hu.mono hst) h

theorem SeparatedRaised.leave {s : State T} (r : Ref) {cb : Callback} {x : PyExc}
    (h : SeparatedRaised s cb x) : SeparatedRaised (s.leave r) cb x :=
  AlongRaised.leave r (fun _ _ => trivial) (fun _ _ hu => hu.mono (Shrinks.leave s r)) h

section Simulation

variable {ρ : Renaming} {env : Env T} {s t : State T}

theorem runCallback_mirrors (th : Thread) {cb : Callback} {c : Completion} (h : Mirrors ρ s t)
    (hok : Separated s cb c) :
    Mirrors ρ (State.runCallback env th cb c s) (State.runCallback env th (ρ.callback cb) c t) := by
  induction cb generalizing c s t with
  | sendHandlerResult id n => exact h.sendHandlerResult env n hok
  | checkHandlerResult => exact h
  | client => exact h
  | runGenerator r up ih =>
    rw [Renaming.callback, State.runCallback, State.runCallback, h.cancelled]
    split
    · exact h
    · split
      · exact h.resume r th _
      · rename_i x hx
        rcases h.setOutcome r x.outcome with ⟨hs, ht⟩ | ⟨s', t', hs, ht, h'⟩
        · rw [hs, ht]
          exact h
        · rw [hs, ht]
          refine ih h' ?_
          rcases hok with hnot | halong
          · rw [pendingAt_of_setOutcome hs] at hnot
            cases hnot
          · simp only [hx] at halong
            exact Separated.mono (Shrinks.of_setOutcome hs) halong.2
      · exact h

theorem executeRaised_mirrors (th : Thread) {cb : Callback} {x : PyExc} (h : Mirrors ρ s t)
    (hok : SeparatedRaised s cb x) :
    Mirrors ρ (State.executeRaised env th cb x s)
      (State.executeRaised env th (ρ.callback cb) x t) := by
  induction cb generalizing x with
  | sendHandlerResult id n => exact h.sendException env n id x
  | checkHandlerResult => exact h
  | client => exact h
  | runGenerator r up ih =>
    rw [Renaming.callback, State.executeRaised, State.executeRaised, h.wasResumed]
    rcases h.setOutcome r x.outcome with ⟨hs, ht⟩ | ⟨s', t', hs, ht, h'⟩
    · simp only [hs, ht]
      split
      · exact h
      · rename_i hres
        rcases hok with ⟨hpend, -⟩ | ⟨-, hres' | hup⟩
        · rw [pendingAt_of_setOutcome_none hs] at hpend
          cases hpend
        · exact absurd hres' hres
        · exact ih hup
    · simp only [hs, ht]
      rcases hok with ⟨-, -, halong⟩ | ⟨hnot, -⟩
      · exact runCallback_mirrors th h' (Separated.mono (Shrinks.of_setOutcome hs) halong)
      · rw [pendingAt_of_setOutcome hs] at hnot
        cases hnot

/-- The handler's future goes into the table. -/
def Registers (kind : HandlerKind) (th : Thread) (start : Start) : Prop :=
  kind ≠ .sync ∧ startRaises kind th start = none

theorem executeHandler_mirrors (th : Thread) {d : Direction} {k : MsgId} (kind : HandlerKind)
    (cb : Callback) {start : Start} (h : Mirrors ρ s t)
    (hd : ∀ f : Future, f.handler ≠ none → f.callback = cb → f.direction = d)
    (hown : ∀ k' n, cb = .sendHandlerResult k' n → k' = k)
    (hheld : Registers kind th start → Held s d k)
    (hraise : ∀ x, startRaises kind th start = some x → SeparatedRaised s cb x) :
    Mirrors ρ (State.executeHandler env th k kind cb start s)
      (State.executeHandler env th (ρ.key d k) kind (ρ.callback cb) start t) := by
  have registered : ∀ (kind : HandlerKind) (act : Option Thread), Held s d k →
      Mirrors ρ ((s.alloc { Future.pending (some kind) cb with active := act }).register k s.fresh)
        ((t.alloc { Future.pending (some kind) (ρ.callback cb) with active := act }).register
          (ρ.key d k) t.fresh) := by
    intro kind act hk
    exact h.register hk (hd _ nofun rfl) hown
  cases kind with
  | coroutine =>
    cases start with
    | some x => exact executeRaised_mirrors th h (hraise x rfl)
    | none =>
      cases th with
      | main => exact registered .coroutine none (hheld ⟨nofun, rfl⟩)
      | worker => exact executeRaised_mirrors .worker h (hraise .runtimeError rfl)
  | thread =>
    cases start with
    | some x => exact executeRaised_mirrors th h (hraise x rfl)
    | none => exact registered .thread none (hheld ⟨nofun, rfl⟩)
  | generator => exact registered .generator (some th) (hheld ⟨nofun, rfl⟩)
  | sync => exact h.alloc { Future.pending (some .sync) cb with active := some th }

theorem cancel_mirrors (th : Thread) (h : Mirrors ρ s t) {r : Ref}
    (hok : ∀ f, s.futures[r]? = some f → f.isTask = false → f.isPending = true →
      Separated s f.callback .cancelled) :
    Mirrors ρ (State.cancel env th s r) (State.cancel env th t r) := by
  unfold State.cancel
  cases hf : s.futures[r]? with
  | none =>
    have hf' : t.futures[r]? = none := by
      rw [h.getElem?_futures, hf]
      rfl
    simp only [hf']
    exact h
  | some f =>
    have htask : (ρ.future f).isTask = f.isTask := rfl
    have hopen : (ρ.future f).isOpen = f.isOpen := rfl
    have hpend : (ρ.future f).isPending = f.isPending := rfl
    simp only [h.some_future hf, htask, hopen, hpend]
    split
    · split
      · exact h.modify r (fun _ => rfl) (fun _ => rfl) (fun _ => rfl)
      · exact h
    · rename_i hnot
      split
      · rename_i hp
        have hshrink : Shrinks s (s.modify r (Future.settle .cancelled)) :=
          Shrinks.of_settle s r FutureState.cancelled_ne_pending
        exact runCallback_mirrors th (h.settle r _)
          ((hok f hf (by simpa using hnot) hp).mono hshrink)
      · exact h

/-- The future of an outgoing request has no callback of the protocol's own. -/
theorem separated_outgoing (hl : Linked s) {r : Ref} {f : Future} (hf : s.futures[r]? = some f)
    (hd : f.direction = .outgoing) (c : Completion) : Separated s f.callback c := by
  have hnone : f.handler = none := by
    unfold Future.direction at hd
    split at hd
    · rename_i hk
      exact hk
    · cases hd
    · cases hd
  rw [hl.client hf hnone]
  trivial

theorem handleResponse_mirrors (h : Mirrors ρ s t) (hl : Linked s) {id : MsgId}
    (hheld : Held s .outgoing id) (o : Outcome) :
    Mirrors ρ (s.handleResponse env id o) (t.handleResponse env (ρ.key .outgoing id) o) := by
  have hpop := h.popFuture hheld
  simp only [State.handleResponse, h.lookup hheld]
  cases hr : s.requestFutures.get? id with
  | none => exact h
  | some r =>
    obtain ⟨f, hf, -⟩ := h.entry id r hr
    have hf' : (s.popFuture id).futures[r]? = some f := hf
    have hft := hpop.some_future hf'
    have htask : (ρ.future f).isTask = f.isTask := rfl
    have hopen : (ρ.future f).isOpen = f.isOpen := rfl
    simp only [hf', hft, htask, hopen]
    split
    · exact hpop
    · split
      · have hshrink : Shrinks s ((s.popFuture id).modify r (Future.settle (.finished o))) :=
          (Shrinks.of_pop s id).trans (Shrinks.of_settle _ r (FutureState.finished_ne_pending o))
        exact runCallback_mirrors .main (hpop.settle r _)
          ((separated_outgoing hl hf (hheld r f hr hf) _).mono hshrink)
      · exact hpop

/-- The step finds no entry of another origin under the id it uses. -/
def Apart (env : Env T) (s : State T) : Event → Prop
  | .request q start => ∀ kind, env.fm.getHandler q.method = some kind →
      Registers kind .main start → Held s .incoming q.id
  | .notification method uuid start => ∀ kind, env.fm.getHandler method = some kind →
      Registers kind .main start → Held s .internal (.str uuid)
  | .cancelRequest id => Held s .incoming id
  | .response id _ => Held s .outgoing id
  | .errorResponse id _ => Held s .outgoing id
  | .sendRequest id _ _ => Held s .outgoing id
  | .syncEnd r o => ∀ (f : Future), s.futures[r]? = some f →
      (s.pendingAt r = true → Separated s f.callback (.finished o)) ∧
      (s.pendingAt r = false → SeparatedRaised s f.callback .invalidStateError)
  | .genYield r uuid kind start => ∀ (f : Future) (th : Thread), s.futures[r]? = some f →
      f.active = some th → (Registers kind th start → Held s .internal (.str uuid)) ∧
      ∀ x, startRaises kind th start = some x → SeparatedRaised s (.runGenerator r f.callback) x
  | .genEnd r o => ∀ (f : Future), s.futures[r]? = some f →
      SeparatedRaised s (.runGenerator r f.callback) o.sendExc
  | .deliver r _ => ∀ (f : Future) (c : Completion), s.futures[r]? = some f →
      f.completion = some c → Separated s f.callback c
  | _ => True

theorem handleRequest_mirrors (h : Mirrors ρ s t) {q : Request} {start : Start}
    (hok : Apart env s (.request q start)) :
    Mirrors ρ (s.handleRequest env q start) (t.handleRequest env (ρ.request q) start) := by
  have hreceived : Mirrors ρ { s with received := s.received ++ [(q, start)] }
      { t with received := t.received ++ [(ρ.request q, start)] } :=
    { h with received := by simp [h.received] }
  have hlen : t.received.length = s.received.length := by rw [h.received, List.length_map]
  simp only [State.handleRequest, hlen]
  rw [show (ρ.request q).method = q.method from rfl]
  split
  · exact hreceived.sendException env _ q.id _
  · rename_i kind hkind
    refine executeHandler_mirrors .main kind _ hreceived ?_ ?_ (hok kind hkind) fun x _ => trivial
    · intro f hk hcb
      unfold Future.direction
      split
      · rename_i hnone
        exact absurd hnone hk
      · rfl
      · rename_i hne
        exact absurd hcb (hne _ _)
    · intro k' n heq
      cases heq
      rfl

/-- A handler for a notification, or one that a generator has yielded to. -/
theorem direction_internal {f : Future} (hk : f.handler ≠ none)
    (hcb : ∀ id n, f.callback ≠ .sendHandlerResult id n) : f.direction = .internal := by
  unfold Future.direction
  split
  · rename_i hnone
    exact absurd hnone hk
  · rename_i heq
    exact absurd heq (hcb _ _)
  · rfl

theorem handleNotification_mirrors (h : Mirrors ρ s t) {method : Method} {uuid : Str}
    {start : Start} (hok : Apart env s (.notification method uuid start)) :
    Mirrors ρ (s.handleNotification env method uuid start)
      (t.handleNotification env method (ρ.uuid uuid) start) := by
  unfold State.handleNotification
  split
  · exact h
  · rename_i kind hkind
    rw [← ρ.internal]
    refine executeHandler_mirrors .main kind _ h ?_ ?_ (hok kind hkind) fun x _ => trivial
    · intro f hk hcb
      refine direction_internal hk ?_
      rw [hcb]
      intro id n heq
      cases heq
    · intro k' n heq
      cases heq

theorem handleCancelNotification_mirrors (h : Mirrors ρ s t) {id : MsgId}
    (hheld : Held s .incoming id) :
    Mirrors ρ (s.handleCancelNotification env id)
      (t.handleCancelNotification env (ρ.key .incoming id)) := by
  simp only [State.handleCancelNotification, h.lookup hheld]
  cases hr : s.requestFutures.get? id with
  | none => exact h
  | some r =>
    obtain ⟨f, hf, -, hown⟩ := h.entry id r hr
    refine cancel_mirrors .main (h.popFuture hheld) ?_
    intro f' hf' _ _
    have hf₀ : s.futures[r]? = some f' := hf'
    rw [hf] at hf₀
    cases hf₀
    have hdir := hheld r f hr hf
    unfold Future.direction at hdir
    split at hdir
    · cases hdir
    · rename_i kind k' n hk hcb
      rw [hcb]
      have hk' := hown k' n hcb
      subst hk'
      refine ⟨?_, ?_⟩
      · intro i g hi
        rw [State.popFuture, Lib.Dict.get?_pop_self] at hi
        cases hi
      · intro v hv
        cases hv
    · cases hdir

theorem receiveResult_mirrors (h : Mirrors ρ s t) (hl : Linked s) {id : MsgId} {result : Json}
    (hheld : Held s .outgoing id) :
    Mirrors ρ (s.receiveResult env id result) (t.receiveResult env (ρ.key .outgoing id) result) := by
  have hpop : Mirrors ρ (s.popType id) (t.popType (ρ.key .outgoing id)) := by
    refine { h with types := ?_, outgoingTypes := ?_ }
    · intro k
      simp only [State.popType, Lib.Dict.get?_pop, h.types]
      by_cases hk : k = id
      · rw [if_pos (by rw [hk]), if_pos hk]
      · rw [if_neg (fun heq => hk (ρ.injective _ _ _ _ heq).2), if_neg hk]
    · intro k' hk'
      refine h.outgoingTypes k' fun hnone => hk' ?_
      exact Lib.Dict.get?_pop_of_none hnone
  have hheld' : Held (s.popType id) .outgoing id := hheld
  simp only [State.receiveResult, h.types]
  split
  · exact hpop
  · rw [hpop.shutdown]
    split
    · exact hpop
    · exact handleResponse_mirrors hpop (hl.congr rfl) hheld' _

theorem receiveError_mirrors (h : Mirrors ρ s t) (hl : Linked s) {id : MsgId}
    {error : Option ResponseError} (hheld : Held s .outgoing id) :
    Mirrors ρ (s.receiveError env id error) (t.receiveError env (ρ.key .outgoing id) error) := by
  unfold State.receiveError
  rw [h.shutdown]
  split
  · exact h
  · split <;> exact handleResponse_mirrors h hl hheld _

theorem sendRequest_mirrors (h : Mirrors ρ s t) {id : MsgId} (method : Method) (params : PyValue)
    (hheld : Held s .outgoing id) :
    Mirrors ρ (s.sendRequest env id method params)
      (t.sendRequest env (ρ.key .outgoing id) method params) := by
  have hreg := h.register hheld (g := .pending none .client) rfl (fun k' n heq => nomatch heq)
  have htyped : Mirrors ρ
      { (s.alloc (.pending none .client)).register id s.fresh with
        resultTypes := s.resultTypes.set id (env.getResultType method) }
      { (t.alloc (.pending none .client)).register (ρ.key .outgoing id) t.fresh with
        resultTypes := t.resultTypes.set (ρ.key .outgoing id) (env.getResultType method) } := by
    refine { hreg with types := ?_, outgoingTypes := ?_ }
    · intro k
      simp only [Lib.Dict.get?_set, h.types]
      by_cases hk : k = id
      · rw [if_pos (by rw [hk]), if_pos hk]
      · rw [if_neg (fun heq => hk (ρ.injective _ _ _ _ heq).2), if_neg hk]
    · intro k' hk'
      simp only [Lib.Dict.get?_set] at hk'
      split at hk'
      · rename_i heq
        exact ⟨id, heq⟩
      · exact h.outgoingTypes k' hk'
  refine (htyped.sendData env ?_).1
  cases Json.toJson params with
  | none => exact .none
  | some p => exact .some .request

theorem syncEnd_mirrors (th : Thread) (h : Mirrors ρ s t) {r : Ref} {f : Future} {o : Outcome}
    (hf : s.futures[r]? = some f) (hok : Apart env s (.syncEnd r o)) :
    Mirrors ρ (State.syncEnd env s r f.callback th o)
      (State.syncEnd env t r (ρ.callback f.callback) th o) := by
  have hleft := h.leave r
  have hat := pendingAt_leave s r r
  unfold State.syncEnd
  rcases hleft.setOutcome r o with ⟨hs, ht⟩ | ⟨s', t', hs, ht, h'⟩
  · simp only [hs, ht]
    refine executeRaised_mirrors th hleft (((hok f hf).2 ?_).leave r)
    rw [← hat]
    exact pendingAt_of_setOutcome_none hs
  · simp only [hs, ht]
    have hp : s.pendingAt r = true := by
      rw [← hat]
      exact pendingAt_of_setOutcome hs
    exact runCallback_mirrors th h'
      (((hok f hf).1 hp).mono ((Shrinks.leave s r).trans (Shrinks.of_setOutcome hs)))

/-- The handler that a generator yields to is filed under an id of no direction. -/
theorem genYield_mirrors (th : Thread) (h : Mirrors ρ s t) {r : Ref} {f : Future} {uuid : Str}
    {kind : HandlerKind} {start : Start} (hf : s.futures[r]? = some f) (hact : f.active = some th)
    (hok : Apart env s (.genYield r uuid kind start)) :
    Mirrors ρ
      (State.executeHandler env th (.str uuid) kind (.runGenerator r f.callback) start (s.leave r))
      (State.executeHandler env th (.str (ρ.uuid uuid)) kind
        (.runGenerator r (ρ.callback f.callback)) start (t.leave r)) := by
  obtain ⟨hheld, hraise⟩ := hok f th hf hact
  rw [← ρ.internal]
  refine executeHandler_mirrors th kind (.runGenerator r f.callback) (h.leave r) ?_ ?_ ?_ ?_
  · intro g hg hgcb
    refine direction_internal hg ?_
    rw [hgcb]
    intro id n heq
    cases heq
  · intro k' n heq
    cases heq
  · intro hreg
    exact (hheld hreg).mono (Shrinks.leave s r)
  · intro x hx
    exact (hraise x hx).leave r

theorem running_mirrors (h : Mirrors ρ s t) (r : Ref) (kind : HandlerKind) :
    t.running r kind = (s.running r kind).map fun p => (ρ.callback p.1, p.2) := by
  unfold State.running
  rw [h.getElem?_futures]
  cases s.futures[r]? with
  | none => rfl
  | some f =>
    simp only [Option.map_some, Option.bind_some, Renaming.future]
    split
    · cases f.active with
      | none => rfl
      | some th => rfl
    · rfl

/-- One step of the protocol, and the same step with the ids kept apart. -/
theorem step_mirrors {s' : State T} {e : Event} (h : Mirrors ρ s t) (hl : Linked s)
    (hok : Apart env s e) (hs : step env s e = some s') :
    ∃ t', step env t (ρ.event e) = some t' ∧ Mirrors ρ s' t' := by
  cases e with
  | request q start =>
    simp only [step, Renaming.event, h.mainIdle] at hs ⊢
    split at hs
    · rename_i hidle
      rw [if_pos hidle, show t.refuses (ρ.request q).method = s.refuses q.method by
        rw [State.refuses, State.refuses, h.shutdown]; rfl]
      split at hs
      · rename_i hdown
        cases hs
        exact ⟨t, if_pos hdown, h⟩
      · rename_i hdown
        cases hs
        exact ⟨_, if_neg hdown, handleRequest_mirrors h hok⟩
    · cases hs
  | notification method uuid start =>
    simp only [step, Renaming.event, h.mainIdle] at hs ⊢
    split at hs
    · rename_i hidle
      rw [if_pos hidle, show t.refuses method = s.refuses method by
        rw [State.refuses, State.refuses, h.shutdown]]
      split at hs
      · rename_i hdown
        cases hs
        exact ⟨t, if_pos hdown, h⟩
      · rename_i hdown
        cases hs
        exact ⟨_, if_neg hdown, handleNotification_mirrors h hok⟩
    · cases hs
  | cancelRequest id =>
    simp only [step, Renaming.event, h.mainIdle, h.shutdown] at hs ⊢
    split at hs
    · rename_i hidle
      rw [if_pos hidle]
      split at hs
      · rename_i hdown
        cases hs
        exact ⟨t, if_pos hdown, h⟩
      · rename_i hdown
        cases hs
        exact ⟨_, if_neg hdown, handleCancelNotification_mirrors h hok⟩
    · cases hs
  | response id result =>
    simp only [step, Renaming.event, h.mainIdle] at hs ⊢
    split at hs
    · rename_i hidle
      cases hs
      exact ⟨_, if_pos hidle, receiveResult_mirrors h hl hok⟩
    · cases hs
  | errorResponse id error =>
    simp only [step, Renaming.event, h.mainIdle] at hs ⊢
    split at hs
    · rename_i hidle
      cases hs
      exact ⟨_, if_pos hidle, receiveError_mirrors h hl hok⟩
    · cases hs
  | sendRequest id method params =>
    cases hs
    exact ⟨_, rfl, sendRequest_mirrors h method params hok⟩
  | cancelOutgoing r =>
    simp only [step, Renaming.event] at hs ⊢
    rw [h.any_futures r (p := fun f => f.handler.isNone) fun _ => rfl]
    split at hs
    · rename_i hr
      cases hs
      refine ⟨_, if_pos hr, cancel_mirrors .main h ?_⟩
      intro f hf _ _
      rw [hf] at hr
      have hnone : f.handler = none := by simpa using hr
      rw [hl.client hf hnone]
      trivial
    · cases hs
  | syncEnd r o =>
    simp only [step, Renaming.event] at hs ⊢
    obtain ⟨p, hp, rfl⟩ := Option.map_eq_some_iff.mp hs
    obtain ⟨f, hf, hk, hact, hcb⟩ := running_eq_some hp
    refine ⟨_, by rw [running_mirrors h, hp]; rfl, ?_⟩
    have hsync := syncEnd_mirrors p.2 h hf hok
    rw [hcb] at hsync
    exact hsync
  | genYield r uuid kind start =>
    simp only [step, Renaming.event] at hs ⊢
    obtain ⟨p, hp, rfl⟩ := Option.map_eq_some_iff.mp hs
    obtain ⟨f, hf, hk, hact, hcb⟩ := running_eq_some hp
    refine ⟨_, by rw [running_mirrors h, hp]; rfl, ?_⟩
    have hyield := genYield_mirrors p.2 h hf hact hok
    rw [hcb] at hyield
    exact hyield
  | genEnd r o =>
    simp only [step, Renaming.event] at hs ⊢
    split at hs
    · rename_i hstop
      rw [if_pos hstop]
      obtain ⟨p, hp, rfl⟩ := Option.map_eq_some_iff.mp hs
      obtain ⟨f, hf, hk, hact, hcb⟩ := running_eq_some hp
      refine ⟨_, by rw [running_mirrors h, hp]; rfl, ?_⟩
      have hraise := (hok f hf).leave r
      rw [hcb] at hraise
      exact executeRaised_mirrors p.2 (h.leave r) hraise
    · cases hs
  | taskEnd r o =>
    simp only [step, Renaming.event, h.mainIdle] at hs ⊢
    rw [h.any_futures r (p := fun f => f.isTask && f.isPending) fun _ => rfl]
    split at hs
    · rename_i hg
      cases hs
      exact ⟨_, if_pos hg, h.modify r (fun _ => rfl) (fun _ => rfl) (fun _ => rfl)⟩
    · cases hs
  | poolStart r =>
    simp only [step, Renaming.event] at hs ⊢
    rw [h.any_futures r (p := fun f => decide (f.handler = some .thread) && f.isPending) fun _ => rfl]
    split at hs
    · rename_i hg
      cases hs
      exact ⟨_, if_pos hg, h.modify r (fun _ => rfl) (fun _ => rfl) (fun _ => rfl)⟩
    · cases hs
  | poolEnd r o =>
    simp only [step, Renaming.event] at hs ⊢
    obtain ⟨p, hp, rfl⟩ := Option.map_eq_some_iff.mp hs
    refine ⟨_, by rw [running_mirrors h, hp]; rfl, ?_⟩
    exact h.modify r (fun _ => rfl) (fun _ => rfl) (fun _ => rfl)
  | deliver r th =>
    simp only [step, Renaming.event] at hs ⊢
    obtain ⟨f, hf, hs⟩ := Option.bind_eq_some_iff.mp hs
    obtain ⟨c, hc, rfl⟩ := Option.map_eq_some_iff.mp hs
    have hc' : (ρ.future f).deliverable s.mainIdle th = some c := by
      rw [← hc]
      cases th <;> rfl
    refine ⟨_, by rw [h.some_future hf, h.mainIdle, Option.bind_some, hc']; rfl, ?_⟩
    have hshrink : Shrinks s (s.modify r fun f => { f with called := true }) :=
      Shrinks.of_modify s r (fun _ => rfl) (fun _ => rfl) (fun _ hp => hp)
    have hcompl := (deliverable_eq_some hc).2.2.1
    exact runCallback_mirrors th (h.modify r (fun _ => rfl) (fun _ => rfl) (fun _ => rfl))
      ((hok f c hf hcompl).mono hshrink)

end Simulation

/-- A response changes no handler's future, a cancel only that of the request it names. -/
def KeepsDirection (s s' : State T) : Event → Prop
  | .response _ _ => ∀ (i : Ref) (f : Future), s.futures[i]? = some f → f.handler ≠ none →
      s'.futures[i]? = some f
  | .errorResponse _ _ => ∀ (i : Ref) (f : Future), s.futures[i]? = some f → f.handler ≠ none →
      s'.futures[i]? = some f
  | .cancelRequest id => ∀ (i : Ref) (f : Future), s.futures[i]? = some f →
      s'.futures[i]? = some f ∨ ∃ n, f.callback = .sendHandlerResult id n
  | _ => True

section Keeps

variable {ρ : Renaming} {env : Env T} {s t s' : State T}

theorem handleResponse_keeps (hl : Linked s) {id : MsgId} (hheld : Held s .outgoing id)
    (o : Outcome) (i : Ref) (f : Future) (hf : s.futures[i]? = some f) (hk : f.handler ≠ none) :
    (s.handleResponse env id o).futures[i]? = some f := by
  simp only [State.handleResponse]
  split
  · exact hf
  · rename_i r hr
    split
    · exact hf
    · rename_i g hg
      split
      · exact hf
      · split
        · have hg' : s.futures[r]? = some g := hg
          have hnone : g.handler = none := by
            have hd := hheld r g hr hg'
            unfold Future.direction at hd
            split at hd
            · rename_i hk'
              exact hk'
            · cases hd
            · cases hd
          rw [hl.client hg' hnone]
          have hir : r ≠ i := by
            rintro rfl
            rw [hf] at hg'
            cases hg'
            exact hk hnone
          rw [State.runCallback, State.getElem?_modify, if_neg hir]
          exact hf
        · exact hf

theorem handleCancelNotification_keeps (h : Mirrors ρ s t) {id : MsgId}
    (hheld : Held s .incoming id) (i : Ref) (f : Future) (hf : s.futures[i]? = some f) :
    (s.handleCancelNotification env id).futures[i]? = some f ∨
      ∃ n, f.callback = .sendHandlerResult id n := by
  unfold State.handleCancelNotification
  split
  · exact Or.inl hf
  · rename_i r hr
    obtain ⟨g, hg, -, hown⟩ := h.entry id r hr
    have hcb : ∃ n, g.callback = .sendHandlerResult id n := by
      have hd := hheld r g hr hg
      unfold Future.direction at hd
      split at hd
      · cases hd
      · rename_i k' n _ hgcb
        exact ⟨n, by rw [hgcb, hown k' n hgcb]⟩
      · cases hd
    by_cases hir : r = i
    · subst hir
      rw [hf] at hg
      cases hg
      exact Or.inr hcb
    · left
      obtain ⟨n, hcb⟩ := hcb
      unfold State.cancel
      split
      · exact hf
      · rename_i g' hg'
        have heq : s.futures[r]? = some g' := hg'
        rw [hg] at heq
        cases heq
        split
        · split
          · rw [State.getElem?_modify, if_neg hir]
            exact hf
          · exact hf
        · split
          · rw [hcb, State.runCallback,
              (State.sendHandlerResult_sends env _ id n .cancelled).futures,
              State.getElem?_modify, if_neg hir]
            exact hf
          · exact hf

theorem step_keeps {e : Event} (h : Mirrors ρ s t) (hl : Linked s) (hok : Apart env s e)
    (hs : step env s e = some s') : KeepsDirection s s' e := by
  cases e with
  | response id result =>
    intro i f hf hk
    simp only [step] at hs
    split at hs
    · cases hs
      have hl' : Linked (s.popType id) := hl.congr rfl
      have hheld : Held (s.popType id) .outgoing id := hok
      simp only [State.receiveResult]
      split
      · exact hf
      · split
        · exact hf
        · exact handleResponse_keeps hl' hheld _ i f hf hk
    · cases hs
  | errorResponse id error =>
    intro i f hf hk
    simp only [step] at hs
    split at hs
    · cases hs
      unfold State.receiveError
      split
      · exact hf
      · split <;> exact handleResponse_keeps hl hok _ i f hf hk
    · cases hs
  | cancelRequest id =>
    intro i f hf
    simp only [step] at hs
    split at hs
    · split at hs
      · cases hs
        exact Or.inl hf
      · cases hs
        exact handleCancelNotification_keeps h hok i f hf
    · cases hs
  | _ => trivial

end Keeps

theorem mirrors_init (ρ : Renaming) : Mirrors ρ (State.init : State T) State.init := by
  refine ⟨rfl, rfl, rfl, rfl, .nil, ?_, ?_, fun _ => rfl, ?_⟩
  · intro k r hr
    cases hr
  · intro k' r hr
    cases hr
  · intro k' hk'
    exact absurd rfl hk'

theorem mirrors_of_run (ρ : Renaming) {env : Env T} {es : List Event} {s : State T}
    (hok : Lib.Meets (step env) (Apart env) State.init es)
    (hrun : Lib.run (step env) State.init es = some s) :
    ∃ t, Lib.run (step env) State.init (es.map ρ.event) = some t ∧ Mirrors ρ s t ∧ Linked s := by
  refine Lib.run_history
    (I := fun past s => ∃ t, Lib.run (step env) State.init (past.map ρ.event) = some t ∧
      Mirrors ρ s t ∧ Linked s) ?_ [] ⟨State.init, rfl, mirrors_init ρ, Linked.init⟩ hok hrun
  rintro past s e s' ⟨t, ht, h, hl⟩ hok hs
  obtain ⟨t', ht', h'⟩ := step_mirrors h hl hok hs
  refine ⟨t', ?_, h', hl.step (e := .protocol e) hs⟩
  rw [List.map_append, Lib.run_append, ht, Option.bind_some]
  exact Lib.run_cons_iff.mpr ⟨t', ht', rfl⟩

theorem untyped_of_messages {ρ : Renaming} {sent sent' : List (Message T)}
    (h : List.Forall₂ ρ.Messages sent sent') {n : Nat} {id : MsgId} {cls : Option T} {v : Json}
    (hm : Message.response n id (.result cls v) ∈ sent) : cls = none := by
  induction h with
  | nil => cases hm
  | cons hhead _ ih =>
    rcases List.mem_cons.mp hm with heq | htail
    · subst heq
      cases hhead with
      | response ha =>
        cases ha with
        | result => rfl
        | cancelled hcancel _ => cases hcancel
    · exact ih htail

/-- In every run whose steps find no entry of another origin under their ids: all futures
and answers are those of the run with the ids kept apart, no answer is built with a class
registered for an outgoing request, and what comes next acts on its own direction only. -/
theorem directions_are_independent (ρ : Renaming) {env : Env T} {es : List Event} {s : State T}
    (hok : Lib.Meets (step env) (Apart env) State.init es)
    (hrun : Lib.run (step env) State.init es = some s) :
    (∃ t, Lib.run (step env) State.init (es.map ρ.event) = some t ∧
      t.futures = s.futures.map ρ.future ∧ List.Forall₂ ρ.Messages s.sent t.sent) ∧
    (∀ (n : Nat) (id : MsgId) (cls : Option T) (v : Json),
      Message.response n id (.result cls v) ∈ s.sent → cls = none) ∧
    (∀ (e : Event) (s' : State T), Apart env s e → step env s e = some s' →
      KeepsDirection s s' e) := by
  obtain ⟨t, ht, h, hl⟩ := mirrors_of_run ρ hok hrun
  refine ⟨⟨t, ht, h.futures, h.sent⟩, ?_, ?_⟩
  · intro n id cls v hm
    exact untyped_of_messages h.sent hm
  · intro e s' hok hs
    exact step_keeps h hl hok hs

/-- Every id is tagged with its origin. -/
def originTags : Renaming where
  key d
    | .str s => .str ((match d with | .incoming => 0 | .outgoing => 1 | .internal => 2) :: s)
    | .int n => .int (3 * n + match d with | .incoming => 0 | .outgoing => 1 | .internal => 2)
  uuid s := 2 :: s
  internal _ := rfl
  injective d d' k k' h := by
    cases k with
    | str s =>
      cases k' with
      | str s' => cases d <;> cases d' <;> simp_all
      | int n' => cases h
    | int n =>
      cases k' with
      | str s' => cases h
      | int n' =>
        have heq := MsgId.int.inj h
        cases d <;> cases d' <;> simp only at heq <;> first | (exfalso; omega) | skip
        all_goals exact ⟨rfl, congrArg MsgId.int (by omega)⟩

/-- The peer asks for an unknown method under the id of a request that is waiting for it. -/
theorem directions_are_independent_unknown :
    ∃ s, Lib.run (step sampleEnv) State.init
        [.sendRequest (.int 1) [] .none, .request ⟨.int 1, [0], .null⟩ none,
          .response (.int 1) (.bool true)] = some s ∧
      ∃ t, Lib.run (step sampleEnv) State.init
          ([.sendRequest (.int 1) [] .none, .request ⟨.int 1, [0], .null⟩ none,
            .response (.int 1) (.bool true)].map originTags.event) = some t ∧
        t.futures = s.futures.map originTags.future := by
  have hok : Lib.Meets (step sampleEnv) (Apart sampleEnv) State.init
      [.sendRequest (.int 1) [] .none, .request ⟨.int 1, [0], .null⟩ none,
        .response (.int 1) (.bool true)] := by
    refine Lib.meets_cons rfl ?_ (Lib.meets_cons rfl ?_ (Lib.meets_cons rfl ?_ trivial))
    · intro r f hr
      cases hr
    · intro kind hkind
      cases hkind
    · intro r f hr hf
      cases hr
      cases hf
      rfl
  obtain ⟨⟨t, ht, hfut, -⟩, -⟩ := directions_are_independent originTags hok rfl
  exact ⟨_, rfl, t, ht, hfut⟩

/-- The response to an outgoing request, sent while an incoming one with the same id waits:
the incoming one is answered with it and the outgoing one is left pending. With the ids kept
apart it is the other way round. -/
theorem directions_meet :
    (∃ s, Lib.run (step sampleEnv) State.init
        [.sendRequest (.int 1) [] .none, .request ⟨.int 1, [], .null⟩ none,
          .genYield 1 [] .thread none, .response (.int 1) (.bool true)] = some s ∧
      Message.response 0 (.int 1) (.result none (.bool true)) ∈ s.sent ∧
      s.futures[0]?.map Future.isPending = some true) ∧
    (∃ t, Lib.run (step sampleEnv) State.init
        ([.sendRequest (.int 1) [] .none, .request ⟨.int 1, [], .null⟩ none,
          .genYield 1 [] .thread none, .response (.int 1) (.bool true)].map originTags.event) =
          some t ∧
      t.sent.filterMap answeredRequest = [] ∧
      t.futures[0]?.map Future.isPending = some false) := by
  refine ⟨⟨_, rfl, ?_, rfl⟩, ⟨_, rfl, rfl, rfl⟩⟩
  exact List.mem_cons_of_mem _ List.mem_cons_self

end Pygls
