import Pygls.Outgoing

/-!
# Two peers

Two endpoints of the protocol, joined by two FIFO channels: the channel to an end
holds what its peer has sent and it has not taken yet. At each end anything may
happen that may happen at an endpoint alone, except that requests and responses
come off the channel. Notifications carry no id and change nothing at the sender,
so they may arrive at any time.
-/

namespace Pygls

set_option autoImplicit false

variable {T : Type}

inductive Side where
  | left
  | right
deriving DecidableEq

def Side.peer : Side → Side
  | .left => .right
  | .right => .left

/-- `structureData` is how the converter reads the data of a `ResponseError`. -/
structure Endpoint (T : Type) where
  env : Env T
  structureData : Json → Option PyValue

/-- A call of `send_request`, with the future it returned. -/
structure Call where
  id : MsgId
  method : Method
  future : Ref

/-- `taken` are the messages the end has read, `log` is what happened there. -/
structure End (T : Type) where
  state : State T
  taken : List (Message T)
  log : List Event
  calls : List Call

abbrev Peers (T : Type) := Side → End T

/-- `take`: the next message is read from the channel and handed to `handle_message`;
`start` is how the handler's call goes if the message is a request. -/
inductive Peers.Event where
  | take (side : Side) (start : Start)
  | local (side : Side) (event : Pygls.Event)

def Event.call (e : Event) (future : Ref) : Option Call :=
  match e with
  | .sendRequest id method _ => some ⟨id, method, future⟩
  | _ => none

/-- A message with an id, which only the channel brings. -/
def Event.tracked : Event → Bool
  | .request _ _ => true
  | .response _ _ => true
  | .errorResponse _ _ => true
  | _ => false

theorem Event.local_or_sendRequest {e : Event} (h : e.tracked = false) :
    e.local = true ∨ ∃ id method params, e = .sendRequest id method params := by
  cases e with
  | request q start => cases h
  | response id result => cases h
  | errorResponse id error => cases h
  | sendRequest id method params => exact Or.inr ⟨id, method, params, rfl⟩
  | _ => exact Or.inl rfl

theorem Event.call_of_local {e : Event} (h : e.local = true) (future : Ref) :
    e.call future = none := by
  cases e with
  | sendRequest id method params => cases h
  | _ => rfl

/-- `structure_message`; `none` where it raises. The result of a response is structured by the
protocol, which knows the class. -/
def Endpoint.structureMessage (E : Endpoint T) (start : Start) : Message T → Option Event
  | .request q => some (.request q start)
  | .response _ id (.result _ j) => some (.response id j)
  | .response _ id (.error code message data) =>
    (E.structureData data).map fun d => .errorResponse id (some ⟨code, message, d⟩)

theorem structureMessage_event {E : Endpoint T} {start : Start} {m : Message T} {e : Event}
    (h : E.structureMessage start m = some e) (hstop : start.noStop = true) :
    e.noStop = true ∧ (∀ s : State T, Truthful s e) ∧ ∀ future, e.call future = none := by
  cases m with
  | request q =>
    cases h
    exact ⟨hstop, fun _ => trivial, fun _ => rfl⟩
  | response n id a =>
    cases a with
    | result cls j =>
      cases h
      exact ⟨rfl, fun _ => trivial, fun _ => rfl⟩
    | error code message data =>
      obtain ⟨d, -, rfl⟩ := Option.map_eq_some_iff.mp h
      exact ⟨rfl, fun _ => trivial, fun _ => rfl⟩

namespace End

def init : End T := ⟨State.init, [], [], []⟩

def happens (E : Endpoint T) (x : End T) (e : Event) : Option (End T) :=
  (step E.env x.state e).map fun s =>
    { x with state := s, log := x.log ++ [e], calls := x.calls ++ (e.call x.state.fresh).toList }

def takes (E : Endpoint T) (x : End T) (m : Message T) (start : Start) : Option (End T) :=
  match E.structureMessage start m with
  | none => some { x with taken := x.taken ++ [m] }
  | some e => (x.happens E e).map fun y => { y with taken := y.taken ++ [m] }

end End

namespace Peers

def init : Peers T := fun _ => End.init

def step (E : Side → Endpoint T) (p : Peers T) : Peers.Event → Option (Peers T)
  | .take side start =>
    (p side.peer).state.sent[(p side).taken.length]?.bind fun m =>
      ((p side).takes (E side) m start).map (Function.update p side)
  | .local side e =>
    if e.tracked then none else ((p side).happens (E side) e).map (Function.update p side)

def Event.draws : Peers.Event → Option MsgId
  | .take _ _ => none
  | .local _ e => e.draws

def Event.noStop : Peers.Event → Bool
  | .take _ start => start.noStop
  | .local _ e => e.noStop

/-- No end makes up an exception for a request of the other. -/
def Truthful (p : Peers T) : Peers.Event → Prop
  | .take _ _ => True
  | .local side e => Pygls.Truthful (p side).state e

end Peers

/-- The error as it is at the other end, its data encoded and decoded. -/
def Endpoint.Carries (E : Endpoint T) (error error' : ResponseError) : Prop :=
  error'.code = error.code ∧ error'.message = error.message ∧
    (Json.toJson error.data).bind E.structureData = some error'.data

/-- The value as it is at the other end, where the request was sent. -/
def Endpoint.carried (E : Endpoint T) (method : Method) (v : PyValue) : Option PyValue :=
  (Json.toJson v).bind (E.env.structureResult (E.env.getResultType method))

/-- What the `n`-th request that the peer received ended with, as `E` gets to know it. -/
inductive Reports (E peer : Endpoint T) (y : End T) (method : Method) (n : Nat) (id : MsgId) :
    Outcome → Prop where
  | returned {r : Ref} {v w : PyValue} : HandlerOf y.state n id r → Ended y.log r (.returned v) →
      E.carried method v = some w → Reports E peer y method n id (.returned w)
  | raised {x : PyExc} {error : ResponseError} : RequestRaised peer.env y.log y.state n id x →
      E.Carries (x.toResponseError peer.env.traceback) error →
      Reports E peer y method n id (.raised (.jsonRpc (.fromError error)))
  | noHandler {error : ResponseError} : peer.env.fm.getHandler method = none →
      E.Carries (methodNotFound method).toResponseError error →
      Reports E peer y method n id (.raised (.jsonRpc (.fromError error)))
  | cancelled {r : Ref} {error : ResponseError} : HandlerOf y.state n id r →
      .cancelRequest id ∈ y.log ∨ .taskEnd r none ∈ y.log →
      E.Carries (requestCancelled id).toResponseError error →
      Reports E peer y method n id (.raised (.jsonRpc (.fromError error)))

/-- What `_handle_response` sets a future to for an answer. -/
inductive Endpoint.Decodes (E : Endpoint T) (method : Method) : Answer T → Outcome → Prop where
  | result {cls : Option T} {j : Json} {v : PyValue} :
      E.env.structureResult (E.env.getResultType method) j = some v →
      E.Decodes method (.result cls j) (.returned v)
  | error {code : Int} {message : Str} {data : Json} {d : PyValue} :
      E.structureData data = some d →
      E.Decodes method (.error code message data) (.raised (.jsonRpc (.fromError ⟨code, message, d⟩)))

theorem decodes_error {E : Endpoint T} {method : Method} {a : Answer T} {error : ResponseError}
    {o : Outcome} (ha : error.answer = some a) (hdec : E.Decodes method a o) :
    ∃ error', E.Carries error error' ∧ o = .raised (.jsonRpc (.fromError error')) := by
  obtain ⟨j, hj, rfl⟩ := answer_error ha
  cases hdec with
  | @error _ _ _ d hd =>
    refine ⟨⟨error.code, error.message, d⟩, ⟨rfl, rfl, ?_⟩, rfl⟩
    rw [hj, Option.bind_some, hd]

/-- The ids of an end's own requests. -/
def End.own (x : End T) (k : MsgId) : Prop := ∃ c ∈ x.calls, c.id = k

/-- What one end knows of its own calls; the peer comes in through `taken` only. -/
structure Tracks (E : Endpoint T) (x : End T) : Prop where
  received : (x.state.received.map Prod.fst).Sublist (x.taken.filterMap Message.request?)
  asked : ((x.state.sent.filterMap Message.request?).map fun q => (q.id, q.method)).Sublist
    (x.calls.map fun c => (c.id, c.method))
  ids : (x.calls.map Call.id).Nodup
  futures : ∀ c ∈ x.calls, ∃ f, x.state.futures[c.future]? = some f ∧ f.handler = none
  distinct : ∀ c ∈ x.calls, ∀ c' ∈ x.calls, c.future = c'.future → c = c'
  table : ∀ (k : MsgId) (r : Ref), x.state.requestFutures.get? k = some r →
    ∃ f, x.state.futures[r]? = some f ∧
      (f.handler = none → ∃ c ∈ x.calls, c.id = k ∧ c.future = r) ∧
      (f.handler ≠ none → ¬ x.own k) ∧ ∀ id n, f.callback = .sendHandlerResult id n → k = id
  types : ∀ (k : MsgId) (t : Option T), x.state.resultTypes.get? k = some t → x.own k
  typed : ∀ c ∈ x.calls, (∀ n a, .response n c.id a ∉ x.taken) →
    x.state.resultTypes.get? c.id = some (E.env.getResultType c.method)
  resolved : ∀ c ∈ x.calls, ∀ (f : Future) (o : Outcome), x.state.futures[c.future]? = some f →
    f.state = .finished o → ∃ n a, .response n c.id a ∈ x.taken ∧ E.Decodes c.method a o
  cancelled : ∀ (r : Ref) (f : Future) (id : MsgId) (n : Nat), x.state.futures[r]? = some f →
    f.callback = .sendHandlerResult id n → f.state = .cancelled →
    .cancelRequest id ∈ x.log ∨ .taskEnd r none ∈ x.log

namespace Tracks

variable {E : Endpoint T} {x : End T} {s : State T}

theorem init (E : Endpoint T) : Tracks E End.init := by
  constructor
  case received => exact .slnil
  case asked => exact .slnil
  case ids => exact List.nodup_nil
  case futures => exact nofun
  case distinct => exact nofun
  case table =>
    intro k r hk
    cases hk
  case types =>
    intro k t hk
    cases hk
  case typed => exact nofun
  case resolved => exact nofun
  case cancelled =>
    intro r f id n hf
    simp [End.init, State.init] at hf

/-- The handlers do not touch what an end keeps for its calls. -/
theorem quiet (h : Tracks E x) {hit : Ref → Prop} {log : List Event} (hq : Quiet x.own hit x.state s)
    (hlog : ∀ e ∈ x.log, e ∈ log)
    (hhit : ∀ (r : Ref) (f : Future) (id : MsgId) (n : Nat), hit r → s.futures[r]? = some f →
      f.callback = .sendHandlerResult id n → .cancelRequest id ∈ log ∨ .taskEnd r none ∈ log) :
    Tracks E { x with state := s, log := log } := by
  constructor
  case received =>
    rw [hq.received]
    exact h.received
  case asked =>
    obtain ⟨ms, hms, hreq⟩ := hq.sent
    have hnil : ms.filterMap Message.request? = [] := List.filterMap_eq_nil_iff.mpr hreq
    simp only [hms, List.filterMap_append, hnil, List.append_nil]
    exact h.asked
  case ids => exact h.ids
  case futures =>
    intro c hc
    obtain ⟨f, hf, hk⟩ := h.futures c hc
    obtain ⟨g, hg, hadv⟩ := hq.futures c.future f hf
    exact ⟨g, hg, hadv.handler.trans hk⟩
  case distinct => exact h.distinct
  case table =>
    intro k r hk
    rcases hq.table k r hk with hold | ⟨hown, g, hg, hkind, hkey⟩
    · obtain ⟨f, hf, hout, hin, hkey⟩ := h.table k r hold
      obtain ⟨g, hg, hadv⟩ := hq.futures r f hf
      refine ⟨g, hg, ?_, ?_, ?_⟩
      · rw [hadv.handler]
        exact hout
      · rw [hadv.handler]
        exact hin
      · rw [hadv.callback]
        exact hkey
    · exact ⟨g, hg, fun hnone => absurd hnone hkind, fun _ => hown, hkey⟩
  case types =>
    intro k t hk
    exact h.types k t (hq.typesOnly k t hk)
  case typed =>
    intro c hc hnot
    exact (hq.types c.id ⟨c, hc, rfl⟩).trans (h.typed c hc hnot)
  case resolved =>
    intro c hc g o hg hst
    obtain ⟨f, hf, hk⟩ := h.futures c hc
    obtain ⟨g', hg', hadv⟩ := hq.futures c.future f hf
    have heq : g' = g := Option.some.inj (hg'.symm.trans hg)
    subst heq
    rcases hadv.outgoing hk with hsame | hcan
    · exact h.resolved c hc f o hf (hsame.symm.trans hst)
    · rw [hst] at hcan
      cases hcan
  case cancelled =>
    intro r g id n hg hcb hst
    rcases hq.cancelled r g hg hst with hr | ⟨f, hf, hfst⟩
    · exact hhit r g id n hr hg hcb
    · obtain ⟨g', hg', hadv⟩ := hq.futures r f hf
      have heq : g' = g := Option.some.inj (hg'.symm.trans hg)
      subst heq
      rcases h.cancelled r f id n hf (hadv.callback ▸ hcb) hfst with hc | hc
      · exact Or.inl (hlog _ hc)
      · exact Or.inr (hlog _ hc)

/-- A message is read, and nothing done about it yet. -/
theorem take (h : Tracks E x) (m : Message T) : Tracks E { x with taken := x.taken ++ [m] } := by
  refine { h with received := ?_, typed := ?_, resolved := ?_ }
  · refine h.received.trans ?_
    rw [List.filterMap_append]
    exact List.sublist_append_left _ _
  · intro c hc hnot
    exact h.typed c hc fun n a hm => hnot n a (List.mem_append_left _ hm)
  · intro c hc f o hf hst
    obtain ⟨n, a, hm, hdec⟩ := h.resolved c hc f o hf hst
    exact ⟨n, a, List.mem_append_left _ hm, hdec⟩

theorem receive (h : Tracks E x) (q : Request) (start : Start) :
    Tracks E { x with
      state := { x.state with received := x.state.received ++ [(q, start)] }
      taken := x.taken ++ [.request q] } := by
  refine { h.take (.request q) with received := ?_ }
  simp only [List.map_append, List.filterMap_append]
  exact h.received.append (List.Sublist.refl [q])

theorem log (h : Tracks E x) (e : Event) : Tracks E { x with log := x.log ++ [e] } := by
  refine { h with cancelled := ?_ }
  intro r f id n hf hcb hst
  rcases h.cancelled r f id n hf hcb hst with hc | hc
  · exact Or.inl (List.mem_append_left _ hc)
  · exact Or.inr (List.mem_append_left _ hc)

theorem popType (h : Tracks E x) {n : Nat} {id : MsgId} {a : Answer T}
    (hm : .response n id a ∈ x.taken) : Tracks E { x with state := x.state.popType id } := by
  refine { h with types := ?_, typed := ?_ }
  · intro k t hk
    change (x.state.resultTypes.pop id).get? k = some t at hk
    rw [Lib.Dict.get?_pop] at hk
    split at hk
    · cases hk
    · exact h.types k t hk
  · intro c hc hnot
    have hne : c.id ≠ id := by
      intro heq
      subst heq
      exact hnot n a hm
    exact (Lib.Dict.get?_pop_ne _ hne).trans (h.typed c hc hnot)

/-- The future of one of the end's calls is set to what the response says. -/
theorem settle (h : Tracks E x) {c : Call} (hc : c ∈ x.calls) {n : Nat} {a : Answer T} {o : Outcome}
    (hm : .response n c.id a ∈ x.taken) (hdec : E.Decodes c.method a o) :
    Tracks E { x with state := x.state.modify c.future (Future.settle (.finished o)) } := by
  refine { h with futures := ?_, table := ?_, resolved := ?_, cancelled := ?_ }
  · intro c' hc'
    obtain ⟨f, hf, hk⟩ := h.futures c' hc'
    rw [State.getElem?_modify, hf]
    split
    · exact ⟨_, rfl, hk⟩
    · exact ⟨f, rfl, hk⟩
  · intro k r hk
    obtain ⟨f, hf, hout, hin, hkey⟩ := h.table k r hk
    rw [State.getElem?_modify, hf]
    split
    · exact ⟨_, rfl, hout, hin, hkey⟩
    · exact ⟨f, rfl, hout, hin, hkey⟩
  · intro c' hc' g o' hg hst
    obtain ⟨f, hf, ⟨hcc, rfl⟩ | ⟨-, rfl⟩⟩ := modify_cases hg
    · cases hst
      have heq := h.distinct c' hc' c hc hcc
      subst heq
      exact ⟨n, a, hm, hdec⟩
    · exact h.resolved c' hc' g o' hf hst
  · intro r g id k hg hcb hst
    obtain ⟨f, hf, ⟨-, rfl⟩ | ⟨-, rfl⟩⟩ := modify_cases hg
    · cases hst
    · exact h.cancelled r g id k hf hcb hst

theorem popFuture (h : Tracks E x) (id : MsgId) :
    Tracks E { x with state := x.state.popFuture id } := by
  have hq : Quiet x.own (fun _ => False) x.state (x.state.popFuture id) := .popFuture x.state id
  exact h.quiet hq (fun _ he => he) fun _ _ _ _ hit => hit.elim

theorem handleResponse (h : Tracks E x) (hd : Discipline x.state) {n : Nat} {id : MsgId}
    {a : Answer T} {o : Outcome} (hown : x.own id) (hm : .response n id a ∈ x.taken)
    (hdec : ∀ c ∈ x.calls, c.id = id → E.Decodes c.method a o) :
    Tracks E { x with state := x.state.handleResponse E.env id o } := by
  have hpop := h.popFuture id
  simp only [State.handleResponse]
  split
  · exact h
  · rename_i r hr
    split
    · exact hpop
    · rename_i f hf
      split
      · exact hpop
      · split
        · obtain ⟨f', hf', hout, hin, -⟩ := h.table id r hr
          have heq : f' = f := Option.some.inj (hf'.symm.trans hf)
          subst heq
          have hnone : f'.handler = none := by
            by_contra hsome
            exact hin hsome hown
          obtain ⟨c, hc, rfl, rfl⟩ := hout hnone
          rw [hd.outgoing c.future f' hf hnone, State.runCallback]
          exact hpop.settle hc hm (hdec c hc rfl)
        · exact hpop

theorem sendRequest (h : Tracks E x) {id : MsgId} (method : Method) (params : PyValue)
    (hnew : ¬ x.own id) :
    Tracks E { x with
      state := x.state.sendRequest E.env id method params
      calls := x.calls ++ [⟨id, method, x.state.fresh⟩] } := by
  have hfut := State.sendRequest_futures E.env x.state id method params
  have htab := State.sendRequest_requestFutures E.env x.state id method params
  have htypes := State.sendRequest_resultTypes E.env x.state id method params
  have hrec := State.sendRequest_received E.env x.state id method params
  have old : ∀ (r : Ref) (f : Future), x.state.futures[r]? = some f →
      (x.state.futures ++ [.pending none .client])[r]? = some f := by
    intro r f hf
    exact Discipline.getElem?_alloc_of_some hf
  have new : ∀ (r : Ref) (f : Future),
      (x.state.futures ++ [.pending none .client])[r]? = some f →
      x.state.futures[r]? = some f ∨ r = x.state.fresh ∧ f = .pending none .client := by
    intro r f hf
    exact State.getElem?_alloc (s := x.state) hf
  have below : ∀ c ∈ x.calls, c.future < x.state.fresh := by
    intro c hc
    obtain ⟨f, hf, -⟩ := h.futures c hc
    exact (List.getElem?_eq_some_iff.mp hf).1
  constructor
  case received =>
    rw [hrec]
    exact h.received
  case asked =>
    rw [List.map_append]
    rcases State.sendRequest_sent E.env x.state id method params with hs | ⟨p, hs⟩
    · rw [hs]
      exact h.asked.trans (List.sublist_append_left _ _)
    · rw [hs, List.filterMap_append, List.map_append]
      exact h.asked.append (List.Sublist.refl _)
  case ids =>
    rw [List.map_append]
    refine h.ids.append (List.nodup_singleton _) ?_
    intro k hk hk'
    obtain ⟨c, hc, rfl⟩ := List.mem_map.mp hk
    exact hnew ⟨c, hc, List.mem_singleton.mp hk'⟩
  case futures =>
    rw [hfut]
    intro c hc
    rcases List.mem_append.mp hc with hc | hc
    · obtain ⟨f, hf, hk⟩ := h.futures c hc
      exact ⟨f, old c.future f hf, hk⟩
    · rw [List.mem_singleton.mp hc]
      exact ⟨_, List.getElem?_concat_length, rfl⟩
  case distinct =>
    intro c hc c' hc' heq
    rcases List.mem_append.mp hc with hc | hc <;> rcases List.mem_append.mp hc' with hc' | hc'
    · exact h.distinct c hc c' hc' heq
    · have hlt := below c hc
      rw [heq, List.mem_singleton.mp hc'] at hlt
      exact absurd hlt (Nat.lt_irrefl _)
    · have hlt := below c' hc'
      rw [← heq, List.mem_singleton.mp hc] at hlt
      exact absurd hlt (Nat.lt_irrefl _)
    · rw [List.mem_singleton.mp hc, List.mem_singleton.mp hc']
  case table =>
    intro k r hk
    rw [htab, Lib.Dict.get?_set] at hk
    rw [hfut]
    split at hk
    · rename_i hkid
      cases hk
      refine ⟨_, List.getElem?_concat_length, fun _ => ?_, ?_, ?_⟩
      · exact ⟨_, List.mem_append_right _ (List.mem_singleton.mpr rfl), hkid.symm, rfl⟩
      · intro hsome
        exact absurd rfl hsome
      · intro k' n hcb
        cases hcb
    · rename_i hkid
      obtain ⟨f, hf, hout, hin, hkey⟩ := h.table k r hk
      refine ⟨f, old r f hf, fun hnone => ?_, fun hsome => ?_, hkey⟩
      · obtain ⟨c, hc, hid, hr⟩ := hout hnone
        exact ⟨c, List.mem_append_left _ hc, hid, hr⟩
      · rintro ⟨c, hc, hid⟩
        rcases List.mem_append.mp hc with hc | hc
        · exact hin hsome ⟨c, hc, hid⟩
        · rw [List.mem_singleton.mp hc] at hid
          exact hkid hid.symm
  case types =>
    intro k t hk
    rw [htypes, Lib.Dict.get?_set] at hk
    split at hk
    · rename_i hkid
      exact ⟨_, List.mem_append_right _ (List.mem_singleton.mpr rfl), hkid.symm⟩
    · obtain ⟨c, hc, hid⟩ := h.types k t hk
      exact ⟨c, List.mem_append_left _ hc, hid⟩
  case typed =>
    intro c hc hnot
    rw [htypes]
    rcases List.mem_append.mp hc with hc | hc
    · have hne : c.id ≠ id := fun heq => hnew ⟨c, hc, heq⟩
      rw [Lib.Dict.get?_set_ne _ _ hne]
      exact h.typed c hc hnot
    · rw [List.mem_singleton.mp hc]
      exact Lib.Dict.get?_set_self _ _ _
  case resolved =>
    intro c hc f o hf hst
    rw [hfut] at hf
    rcases List.mem_append.mp hc with hc | hc
    · obtain ⟨g, hg, -⟩ := h.futures c hc
      have heq : g = f := Option.some.inj ((old c.future g hg).symm.trans hf)
      subst heq
      exact h.resolved c hc g o hg hst
    · rw [List.mem_singleton.mp hc] at hf
      have heq : Future.pending none .client = f :=
        Option.some.inj (List.getElem?_concat_length.symm.trans hf)
      subst heq
      cases hst
  case cancelled =>
    intro r f i n hf hcb hst
    rw [hfut] at hf
    rcases new r f hf with hf | ⟨-, rfl⟩
    · exact h.cancelled r f i n hf hcb hst
    · cases hst

/-- A request that an end has sent belongs to one of its calls. -/
theorem call_of_sent (h : Tracks E x) {q : Request} (hq : .request q ∈ x.state.sent) :
    ∃ c ∈ x.calls, c.id = q.id ∧ c.method = q.method := by
  have hmem : (q.id, q.method) ∈
      (x.state.sent.filterMap Message.request?).map fun q => (q.id, q.method) :=
    List.mem_map.mpr ⟨q, List.mem_filterMap.mpr ⟨_, hq, rfl⟩, rfl⟩
  obtain ⟨c, hc, heq⟩ := List.mem_map.mp (h.asked.subset hmem)
  exact ⟨c, hc, (Prod.mk.inj heq).1, (Prod.mk.inj heq).2⟩

theorem taken_of_received (h : Tracks E x) {q : Request × Start} (hq : q ∈ x.state.received) :
    .request q.1 ∈ x.taken := by
  obtain ⟨m, hm, heq⟩ :=
    List.mem_filterMap.mp (h.received.subset (List.mem_map.mpr ⟨q, hq, rfl⟩))
  cases m with
  | request q' =>
    cases heq
    exact hm
  | response n id a => cases heq

theorem requestIds_nodup (h : Tracks E x) :
    ((x.state.sent.filterMap Message.request?).map Request.id).Nodup := by
  have hsub := h.asked.map Prod.fst
  simp only [List.map_map, Function.comp_def] at hsub
  exact hsub.nodup h.ids

/-- Nothing an end does by itself touches what it keeps for its calls. -/
theorem step_local (h : Tracks E x) (hd : Discipline x.state)
    (hforeign : ∀ q ∈ x.state.received, ¬ x.own q.1.id) {e : Event} (hlocal : e.local = true)
    (hdraw : ∀ k, e.draws = some k → ¬ x.own k) (hs : step E.env x.state e = some s) :
    Tracks E { x with state := s, log := x.log ++ [e] } := by
  have hq := step_quiet hd hforeign hlocal hdraw hs
  refine h.quiet hq (fun e' he' => List.mem_append_left _ he') ?_
  intro r g id n hhit hg hcb
  cases e with
  | cancelRequest k =>
    obtain ⟨f, hf, -, -, hkey⟩ := h.table k r hhit
    obtain ⟨g', hg', hadv⟩ := hq.futures r f hf
    have heq : g' = g := Option.some.inj (hg'.symm.trans hg)
    subst heq
    have hk : k = id := hkey id n (hadv.callback ▸ hcb)
    exact Or.inl (hk ▸ List.mem_append_right _ (List.mem_singleton.mpr rfl))
  | cancelOutgoing i =>
    -- An outgoing future's callback is the client's.
    cases step_cases hs with
    | ignored _ hrefusable => cases hrefusable
    | @cancelOutgoing _ f hf hnone =>
      obtain ⟨g', hg', hadv⟩ := hq.futures i f hf
      have hri : r = i := hhit
      subst hri
      have heq : g' = g := Option.some.inj (hg'.symm.trans hg)
      subst heq
      rw [hadv.callback, hd.outgoing r f hf hnone] at hcb
      cases hcb
  | taskEnd i o =>
    cases o with
    | none =>
      have hri : r = i := hhit
      exact Or.inr (hri ▸ List.mem_append_right _ (List.mem_singleton.mpr rfl))
    | some o => cases hhit
  | _ => cases hhit

/-- A request of the peer is read and handed to `_handle_request`. -/
theorem handleRequest (h : Tracks E x) {q : Request} (start : Start) (hforeign : ¬ x.own q.id) :
    Tracks E { x with
      state := x.state.handleRequest E.env q start
      taken := x.taken ++ [.request q] } := by
  have hq : Quiet x.own (fun _ => False) { x.state with received := x.state.received ++ [(q, start)] }
      (x.state.handleRequest E.env q start) := by
    simp only [State.handleRequest]
    split
    · exact .sendException E.env _ _ _ _
    · refine .executeHandler E.env .main _ start hforeign hforeign ?_
      intro k n hcb
      cases hcb
      rfl
  exact (h.receive q start).quiet hq (fun _ he => he) fun _ _ _ _ hit => hit.elim

/-- The result of one of the end's calls has arrived. -/
theorem receiveResult (h : Tracks E x) (hd : Discipline x.state) {n : Nat} {id : MsgId}
    {cls : Option T} {j : Json} (hown : x.own id)
    (hfirst : ∀ n a, .response n id a ∉ x.taken) :
    Tracks E { x with
      state := x.state.receiveResult E.env id j
      taken := x.taken ++ [.response n id (.result cls j)] } := by
  have hm : .response n id (.result cls j) ∈ x.taken ++ [.response n id (.result cls j)] :=
    List.mem_append_right _ (List.mem_singleton.mpr rfl)
  have hpop := (h.take (.response n id (.result cls j))).popType hm
  have hd' : Discipline (x.state.popType id) := hd.congr rfl rfl rfl
  simp only [State.receiveResult]
  split
  · exact hpop
  · rename_i v hv
    split
    · exact hpop
    · refine hpop.handleResponse hd' hown hm ?_
      intro c hc hid
      have htyped := h.typed c hc (hid ▸ hfirst)
      rw [hid] at htyped
      rw [htyped] at hv
      exact .result hv

theorem receiveError (h : Tracks E x) (hd : Discipline x.state) {n : Nat} {id : MsgId} {code : Int}
    {message : Str} {data : Json} {d : PyValue} (hown : x.own id)
    (hdata : E.structureData data = some d) :
    Tracks E { x with
      state := x.state.receiveError E.env id (some ⟨code, message, d⟩)
      taken := x.taken ++ [.response n id (.error code message data)] } := by
  have hm : .response n id (.error code message data) ∈
      x.taken ++ [.response n id (.error code message data)] :=
    List.mem_append_right _ (List.mem_singleton.mpr rfl)
  have htake := h.take (.response n id (.error code message data))
  simp only [State.receiveError]
  split
  · exact htake
  · exact htake.handleResponse hd hown hm fun c _ _ => .error hdata

end Tracks

def Message.answered? : Message T → Option MsgId
  | .request _ => none
  | .response _ id _ => some id

/-- Both ends, the channels between them, and the ids drawn so far. -/
structure Joined (E : Side → Endpoint T) (drawn : List MsgId) (p : Peers T) : Prop where
  accounted : ∀ side, Accounted (E side).env (p side).log (p side).state
  tracks : ∀ side, Tracks (E side) (p side)
  channel : ∀ side, (p side).taken <+: (p side.peer).state.sent
  apart : ∀ side k, (p side).own k → ¬ (p side.peer).own k
  drawn : ∀ side k, (p side).own k → k ∈ drawn

theorem peer_peer (side : Side) : side.peer.peer = side := by
  cases side <;> rfl

theorem peer_ne (side : Side) : side.peer ≠ side := by
  cases side <;> exact nofun

theorem eq_or_eq_peer (a b : Side) : a = b ∨ a = b.peer := by
  cases a <;> cases b <;> simp [Side.peer]

namespace Joined

variable {E : Side → Endpoint T} {drawn : List MsgId} {p : Peers T}

theorem init (E : Side → Endpoint T) : Joined E [] Peers.init where
  accounted := fun side => .init (E side).env
  tracks := fun side => .init (E side)
  channel := fun _ => List.nil_prefix
  apart := by
    rintro side k ⟨c, hc, -⟩
    cases hc
  drawn := by
    rintro side k ⟨c, hc, -⟩
    cases hc

/-- What an end has received is one of its peer's requests. -/
theorem call_of_received (h : Joined E drawn p) {side : Side} {q : Request × Start}
    (hq : q ∈ (p side).state.received) :
    ∃ c ∈ (p side.peer).calls, c.id = q.1.id ∧ c.method = q.1.method :=
  (h.tracks side.peer).call_of_sent
    ((h.channel side).subset ((h.tracks side).taken_of_received hq))

theorem received_foreign (h : Joined E drawn p) {side : Side} {q : Request × Start}
    (hq : q ∈ (p side).state.received) : ¬ (p side).own q.1.id := by
  obtain ⟨c, hc, hid, -⟩ := h.call_of_received hq
  intro hown
  exact h.apart side q.1.id hown ⟨c, hc, hid⟩

/-- An answer that an end has sent is to one of its peer's requests. -/
theorem call_of_answer (h : Joined E drawn p) {side : Side} {n : Nat} {id : MsgId} {a : Answer T}
    (hm : .response n id a ∈ (p side).state.sent) :
    ∃ q c, (p side).state.received[n]? = some q ∧ q.1.id = id ∧ c ∈ (p side.peer).calls ∧
      c.id = id ∧ c.method = q.1.method := by
  obtain ⟨q, hq, hid⟩ := (h.accounted side).discipline.answeredId n id a hm
  obtain ⟨c, hc, hcid, hmeth⟩ := h.call_of_received (List.mem_of_getElem? hq)
  exact ⟨q, c, hq, hid, hc, hcid.trans hid, hmeth⟩

/-- No request is handed to `_handle_request` twice. -/
theorem receivedIds_nodup (h : Joined E drawn p) (side : Side) :
    ((p side).state.received.map fun q => q.1.id).Nodup := by
  have hsub := ((h.tracks side).received.trans
    ((h.channel side).sublist.filterMap Message.request?)).map Request.id
  rw [List.map_map] at hsub
  exact hsub.nodup (h.tracks side.peer).requestIds_nodup

/-- No id is answered twice. -/
theorem answeredIds_nodup (h : Joined E drawn p) (side : Side) :
    ((p side).state.sent.filterMap Message.answered?).Nodup := by
  have honce := List.pairwise_filterMap.mp (h.accounted side).discipline.atMostOnce
  refine List.pairwise_filterMap.mpr (honce.imp_of_mem ?_)
  intro m m' hm hm' hne id hid id' hid' heq
  cases m with
  | request q => cases hid
  | response n i a =>
    cases m' with
    | request q => cases hid'
    | response n' i' a' =>
      cases hid
      cases hid'
      subst heq
      obtain ⟨q, hq, hqid⟩ := (h.accounted side).discipline.answeredId n _ a hm
      obtain ⟨q', hq', hqid'⟩ := (h.accounted side).discipline.answeredId n' _ a' hm'
      refine hne n rfl n' rfl ?_
      obtain ⟨hlt, hget⟩ := List.getElem?_eq_some_iff.mp hq
      obtain ⟨hlt', hget'⟩ := List.getElem?_eq_some_iff.mp hq'
      have hlen : n < ((p side).state.received.map fun q => q.1.id).length := by simpa using hlt
      have hlen' : n' < ((p side).state.received.map fun q => q.1.id).length := by simpa using hlt'
      apply (@List.Nodup.getElem_inj_iff _ _ (h.receivedIds_nodup side) n hlen n' hlen').mp
      simp [hget, hget', hqid, hqid']

/-- One end has moved: what has to be shown for both to be joined still. `new` is the id it
drew. -/
theorem update (h : Joined E drawn p) {side : Side} {y : End T} {new : Option MsgId}
    (hacc : Accounted (E side).env y.log y.state)
    (htracks : Tracks (E side) y) (hgrows : Grows (p side).state y.state)
    (htaken : y.taken <+: (p side.peer).state.sent)
    (hown : ∀ k, y.own k → (p side).own k ∨ new = some k) (hnew : ∀ k, new = some k → k ∉ drawn) :
    Joined E (drawn ++ new.toList) (Function.update p side y) := by
  have hself : Function.update p side y side = y := Function.update_self side y p
  have hpeer : Function.update p side y side.peer = p side.peer :=
    Function.update_of_ne (peer_ne side) y p
  have hback : Function.update p side y side.peer.peer = y := (peer_peer side).symm ▸ hself
  have hapart : ∀ k, y.own k → ¬ (p side.peer).own k := by
    intro k hk hk'
    rcases hown k hk with hold | hdrew
    · exact h.apart side k hold hk'
    · exact hnew k hdrew (h.drawn side.peer k hk')
  constructor
  case accounted =>
    intro s
    rcases eq_or_eq_peer s side with rfl | rfl
    · rw [hself]
      exact hacc
    · rw [hpeer]
      exact h.accounted side.peer
  case tracks =>
    intro s
    rcases eq_or_eq_peer s side with rfl | rfl
    · rw [hself]
      exact htracks
    · rw [hpeer]
      exact h.tracks side.peer
  case channel =>
    intro s
    rcases eq_or_eq_peer s side with rfl | rfl
    · rw [hself, hpeer]
      exact htaken
    · rw [hpeer, hback]
      have hold := h.channel side.peer
      rw [peer_peer] at hold
      exact hold.trans hgrows.sent
  case apart =>
    intro s k
    rcases eq_or_eq_peer s side with rfl | rfl
    · rw [hself, hpeer]
      exact hapart k
    · rw [hpeer, hback]
      intro hk hk'
      exact hapart k hk' hk
  case drawn =>
    intro s k
    rcases eq_or_eq_peer s side with rfl | rfl
    · rw [hself]
      intro hk
      rcases hown k hk with hold | hdrew
      · exact List.mem_append_left _ (h.drawn s k hold)
      · exact List.mem_append_right _ (Option.mem_toList.mpr hdrew)
    · rw [hpeer]
      intro hk
      exact List.mem_append_left _ (h.drawn side.peer k hk)

/-- An event at one end, other than the arrival of a message from the channel. -/
theorem step_local (hw : ∀ side, (E side).env.BrokenStays) (h : Joined E drawn p) {side : Side}
    {e : Event} {y : End T} (htracked : e.tracked = false) (hstop : e.noStop = true)
    (htrue : Truthful (p side).state e) (hnew : ∀ k, e.draws = some k → k ∉ drawn)
    (hy : (p side).happens (E side) e = some y) :
    Joined E (drawn ++ e.draws.toList) (Function.update p side y) := by
  obtain ⟨s, hs, rfl⟩ := Option.map_eq_some_iff.mp hy
  have hd := (h.accounted side).discipline
  have hfresh : ∀ k, e.draws = some k → ¬ (p side).own k := by
    intro k hk hown
    exact hnew k hk (h.drawn side k hown)
  have hsep : Separate (p side).state e := by
    cases e with
    | request q start => cases htracked
    | response id result => cases htracked
    | errorResponse id error => cases htracked
    | sendRequest id method params =>
      intro r f n hf hcb
      obtain ⟨q, hq, hid⟩ := hd.request r f id n hf hcb
      obtain ⟨c, hc, hcid, -⟩ := h.call_of_received (List.mem_of_getElem? hq)
      exact absurd (h.drawn side.peer id ⟨c, hc, hcid.trans hid⟩) (hnew id rfl)
    | _ => trivial
  have hacc := (h.accounted side).step (hw side) hstop hsep htrue hs
  refine h.update hacc ?_ (.step hd hs) (h.channel side) ?_ hnew
  · rcases Event.local_or_sendRequest htracked with hlocal | ⟨id, method, params, rfl⟩
    · rw [Event.call_of_local hlocal, Option.toList_none, List.append_nil]
      exact (h.tracks side).step_local hd (fun _ hq => h.received_foreign hq) hlocal hfresh hs
    · cases hs
      exact ((h.tracks side).sendRequest method params (hfresh id rfl)).log _
  · rintro k ⟨c, hc, rfl⟩
    rcases List.mem_append.mp hc with hc | hc
    · exact Or.inl ⟨c, hc, rfl⟩
    · cases e with
      | sendRequest id method params =>
        rw [List.mem_singleton.mp hc]
        exact Or.inr rfl
      | _ => cases hc

theorem own_of_response (h : Joined E drawn p) {side : Side} {n : Nat} {id : MsgId} {a : Answer T}
    (hm : .response n id a ∈ (p side.peer).state.sent) : (p side).own id := by
  obtain ⟨q, c, -, -, hc, hid, -⟩ := h.call_of_answer hm
  rw [peer_peer] at hc
  exact ⟨c, hc, hid⟩

theorem not_own_of_request (h : Joined E drawn p) {side : Side} {q : Request}
    (hm : .request q ∈ (p side.peer).state.sent) : ¬ (p side).own q.id := by
  obtain ⟨c, hc, hid, -⟩ := (h.tracks side.peer).call_of_sent hm
  intro hown
  exact h.apart side q.id hown ⟨c, hc, hid⟩

/-- A response that is read is the first one under its id. -/
theorem response_first (h : Joined E drawn p) {side : Side} {n : Nat} {id : MsgId} {a : Answer T}
    (hnext : (p side).taken ++ [.response n id a] <+: (p side.peer).state.sent) (n' : Nat)
    (a' : Answer T) : .response n' id a' ∉ (p side).taken := by
  have hnodup := (hnext.sublist.filterMap Message.answered?).nodup (h.answeredIds_nodup side.peer)
  rw [List.filterMap_append] at hnodup
  intro hm
  have hold : id ∈ (p side).taken.filterMap Message.answered? :=
    List.mem_filterMap.mpr ⟨_, hm, rfl⟩
  exact (List.nodup_append.mp hnodup).2.2 id hold id (List.mem_singleton.mpr rfl) rfl

/-- The events that a message becomes keep the two directions apart. -/
theorem separate_of_taken (h : Joined E drawn p) {side : Side} {m : Message T} {start : Start}
    {e : Event} (hm : m ∈ (p side.peer).state.sent)
    (he : (E side).structureMessage start m = some e) : Separate (p side).state e := by
  have outgoing : ∀ id, (p side).own id → ∀ (r : Ref) (f : Future),
      (p side).state.requestFutures.get? id = some r → (p side).state.futures[r]? = some f →
      f.handler = none := by
    intro id hown r f hr hf
    obtain ⟨f', hf', -, hin, -⟩ := (h.tracks side).table id r hr
    have heq : f' = f := Option.some.inj (hf'.symm.trans hf)
    subst heq
    by_contra hsome
    exact hin hsome hown
  cases m with
  | request q =>
    cases he
    change (p side).state.resultTypes.get? q.id = none
    by_contra hsome
    obtain ⟨t, ht⟩ := Option.ne_none_iff_exists'.mp hsome
    exact h.not_own_of_request hm ((h.tracks side).types q.id t ht)
  | response n id a =>
    cases a with
    | result cls j =>
      cases he
      exact outgoing id (h.own_of_response hm)
    | error code message data =>
      obtain ⟨d, -, rfl⟩ := Option.map_eq_some_iff.mp he
      exact outgoing id (h.own_of_response hm)

/-- The calls are tracked on, whatever message has come. -/
theorem tracks_take (h : Joined E drawn p) {side : Side} {m : Message T} {start : Start} {e : Event}
    {s : State T} (hnext : (p side).taken ++ [m] <+: (p side.peer).state.sent)
    (he : (E side).structureMessage start m = some e)
    (hs : step (E side).env (p side).state e = some s) :
    Tracks (E side) { p side with state := s, taken := (p side).taken ++ [m] } := by
  have hd := (h.accounted side).discipline
  have htracks := h.tracks side
  have hm : m ∈ (p side.peer).state.sent :=
    hnext.subset (List.mem_append_right _ (List.mem_singleton.mpr rfl))
  cases m with
  | request q =>
    cases he
    cases step_cases hs with
    | ignored => exact htracks.take (.request q)
    | request => exact htracks.handleRequest start (h.not_own_of_request hm)
  | response n id a =>
    have hown := h.own_of_response hm
    cases a with
    | result cls j =>
      cases he
      cases step_cases hs with
      | ignored _ hrefusable => cases hrefusable
      | response => exact htracks.receiveResult hd hown (h.response_first hnext)
    | error code message data =>
      obtain ⟨d, hdata, rfl⟩ := Option.map_eq_some_iff.mp he
      cases step_cases hs with
      | ignored _ hrefusable => cases hrefusable
      | errorResponse => exact htracks.receiveError hd hown hdata

theorem step_take (hw : ∀ side, (E side).env.BrokenStays) (h : Joined E drawn p) {side : Side}
    {m : Message T} {start : Start} {y : End T} (hstop : start.noStop = true)
    (hm : (p side.peer).state.sent[(p side).taken.length]? = some m)
    (hy : (p side).takes (E side) m start = some y) :
    Joined E drawn (Function.update p side y) := by
  have hnext : (p side).taken ++ [m] <+: (p side.peer).state.sent := by
    obtain ⟨rest, hrest⟩ := h.channel side
    rw [← hrest, List.getElem?_append_right (Nat.le_refl _), Nat.sub_self] at hm
    cases rest with
    | nil => cases hm
    | cons m' rest =>
      cases hm
      exact ⟨rest, by rw [← hrest, List.append_assoc, List.singleton_append]⟩
  have hacc := h.accounted side
  suffices hsame : Joined E (drawn ++ (none : Option MsgId).toList) (Function.update p side y) by
    rwa [Option.toList_none, List.append_nil] at hsame
  unfold End.takes at hy
  split at hy
  · cases hy
    exact h.update hacc ((h.tracks side).take m) (.refl _) hnext
      (fun _ hk => Or.inl hk) nofun
  · rename_i e he
    obtain ⟨z, hz, rfl⟩ := Option.map_eq_some_iff.mp hy
    obtain ⟨s, hs, rfl⟩ := Option.map_eq_some_iff.mp hz
    obtain ⟨hquiet, htrue, hcall⟩ := structureMessage_event he hstop
    have hsep := h.separate_of_taken (List.mem_of_getElem? hm) he
    have hcalls : (p side).calls ++ (e.call (p side).state.fresh).toList = (p side).calls := by
      rw [hcall, Option.toList_none, List.append_nil]
    rw [hcalls]
    exact h.update (hacc.step (hw side) hquiet hsep (htrue _) hs)
      ((h.tracks_take hnext he hs).log e) (.step hacc.discipline hs) hnext
      (fun _ hk => Or.inl hk) nofun

theorem step (hw : ∀ side, (E side).env.BrokenStays) (h : Joined E drawn p) {e : Peers.Event}
    {q : Peers T} (hstop : e.noStop = true) (htrue : Peers.Truthful p e)
    (hnew : ∀ k, e.draws = some k → k ∉ drawn) (hs : Peers.step E p e = some q) :
    Joined E (drawn ++ e.draws.toList) q := by
  cases e with
  | take side start =>
    obtain ⟨m, hm, hs⟩ := Option.bind_eq_some_iff.mp hs
    obtain ⟨y, hy, rfl⟩ := Option.map_eq_some_iff.mp hs
    have htake := h.step_take hw hstop hm hy
    rwa [Peers.Event.draws, Option.toList_none, List.append_nil]
  | «local» side e =>
    simp only [Peers.step] at hs
    split at hs
    · cases hs
    · rename_i htracked
      obtain ⟨y, hy, rfl⟩ := Option.map_eq_some_iff.mp hs
      exact h.step_local hw (by simpa using htracked) hstop htrue hnew hy

/-- In a run in which no id is drawn twice, no handler raises `StopIteration` and no exception
is made up. -/
theorem of_run (hw : ∀ side, (E side).env.BrokenStays) {es : List Peers.Event}
    (hids : (es.filterMap Peers.Event.draws).Nodup) (hstop : ∀ e ∈ es, e.noStop = true)
    (htrue : Lib.Meets (Peers.step E) Peers.Truthful Peers.init es)
    (hrun : Lib.run (Peers.step E) Peers.init es = some p) :
    Joined E (es.filterMap Peers.Event.draws) p := by
  refine Lib.run_history
    (I := fun past p => (past.filterMap Peers.Event.draws).Nodup → (∀ e ∈ past, e.noStop = true) →
      Joined E (past.filterMap Peers.Event.draws) p)
    ?_ [] (fun _ _ => .init E) htrue hrun hids hstop
  intro past p e q ih htrue hs hids hstop
  have hsplit : (past ++ [e]).filterMap Peers.Event.draws =
      past.filterMap Peers.Event.draws ++ e.draws.toList := by
    rw [List.filterMap_append]
    cases hdraw : e.draws <;> simp [hdraw]
  rw [hsplit] at hids ⊢
  have hpast := ih (List.nodup_append.mp hids).1 fun e' he' => hstop e' (List.mem_append_left _ he')
  refine hpast.step hw (hstop e (List.mem_append_right _ (List.mem_singleton.mpr rfl))) htrue ?_ hs
  intro k hk hold
  exact (List.nodup_append.mp hids).2.2 k hold k (Option.mem_toList.mpr hk) rfl

theorem reports (h : Joined E drawn p) {side : Side} {n : Nat} {c : Call} {a : Answer T}
    {o : Outcome} (hm : .response n c.id a ∈ (p side.peer).state.sent)
    (hmethod : ∀ q, (p side.peer).state.received[n]? = some q → q.1.method = c.method)
    (hdec : (E side).Decodes c.method a o) :
    Reports (E side) (E side.peer) (p side.peer) c.method n c.id o := by
  cases (h.accounted side.peer).provenance.justified n c.id a hm with
  | @result r v _ hh hend ha =>
    cases hdec with
    | result hv =>
      obtain ⟨-, hj⟩ := answer_result ha
      exact .returned hh hend (by rw [Endpoint.carried, hj, Option.bind_some, hv])
    | error hd =>
      obtain ⟨j, -, heq⟩ := Option.map_eq_some_iff.mp ha
      cases heq
  | raised hx ha =>
    obtain ⟨error, hcar, rfl⟩ := decodes_error ha hdec
    exact .raised hx hcar
  | noHandler hq hnone ha =>
    obtain ⟨error, hcar, rfl⟩ := decodes_error ha hdec
    have hmeth := hmethod _ hq
    rw [hmeth] at hnone hcar
    exact .noHandler hnone hcar
  | @cancelled r f _ hf hcb hst ha =>
    obtain ⟨error, hcar, rfl⟩ := decodes_error ha hdec
    exact .cancelled ⟨f, hf, hcb⟩ ((h.tracks side.peer).cancelled r f c.id n hf hcb hst) hcar

end Joined

theorem Peers.step_grows {E : Side → Endpoint T} {p q : Peers T} {e : Peers.Event}
    (hd : ∀ side, Discipline (p side).state) (hs : Peers.step E p e = some q) (side : Side) :
    Discipline (q side).state ∧ Grows (p side).state (q side).state := by
  have update : ∀ (moved : Side) (y : End T), Discipline y.state → Grows (p moved).state y.state →
      Discipline (Function.update p moved y side).state ∧
        Grows (p side).state (Function.update p moved y side).state := by
    intro moved y hy hgrows
    by_cases hside : side = moved
    · subst hside
      rw [Function.update_self]
      exact ⟨hy, hgrows⟩
    · rw [Function.update_of_ne hside]
      exact ⟨hd side, .refl _⟩
  have happens : ∀ (moved : Side) (e : Pygls.Event) (y : End T),
      (p moved).happens (E moved) e = some y →
      Discipline y.state ∧ Grows (p moved).state y.state := by
    intro moved e y hy
    obtain ⟨s, hs, rfl⟩ := Option.map_eq_some_iff.mp hy
    exact ⟨(hd moved).step hs, .step (hd moved) hs⟩
  cases e with
  | take moved start =>
    obtain ⟨m, -, hs⟩ := Option.bind_eq_some_iff.mp hs
    obtain ⟨y, hy, rfl⟩ := Option.map_eq_some_iff.mp hs
    unfold End.takes at hy
    split at hy
    · cases hy
      exact update moved _ (hd moved) (.refl _)
    · rename_i e _
      obtain ⟨z, hz, rfl⟩ := Option.map_eq_some_iff.mp hy
      obtain ⟨hdz, hgrows⟩ := happens moved e z hz
      exact update moved _ hdz hgrows
  | «local» moved e =>
    simp only [Peers.step] at hs
    split at hs
    · cases hs
    · obtain ⟨y, hy, rfl⟩ := Option.map_eq_some_iff.mp hs
      obtain ⟨hdy, hgrows⟩ := happens moved e y hy
      exact update moved y hdy hgrows

theorem Peers.run_grows {E : Side → Endpoint T} {p q : Peers T} {es : List Peers.Event}
    (hd : ∀ side, Discipline (p side).state) (hrun : Lib.run (Peers.step E) p es = some q)
    (side : Side) : Grows (p side).state (q side).state := by
  refine (Lib.run_invariant
    (I := fun t : Peers T =>
      ∀ side, Discipline (t side).state ∧ Grows (p side).state (t side).state)
    ?_ (fun side => ⟨hd side, .refl _⟩) (Lib.meets_true _ _ es) hrun side).2
  intro t e u ih _ hs side
  obtain ⟨hdu, hgrows⟩ := step_grows (fun side => (ih side).1) hs side
  exact ⟨hdu, (ih side).2.trans hgrows⟩

/-- Two peers that never draw an id twice, whose handlers do not raise `StopIteration`, in a run
whose steps make up no exception. Wherever they get to: a future of `send_request` that has been
resolved holds what became of the peer's handler for that very request; no request is handed to
a handler twice; and a future that is done stays as it is. -/
theorem responses_belong_to_their_requests {E : Side → Endpoint T}
    (hw : ∀ side, (E side).env.BrokenStays) {es : List Peers.Event} {p : Peers T}
    (hids : (es.filterMap Peers.Event.draws).Nodup) (hstop : ∀ e ∈ es, e.noStop = true)
    (htrue : Lib.Meets (Peers.step E) Peers.Truthful Peers.init es)
    (hrun : Lib.run (Peers.step E) Peers.init es = some p) (side : Side) :
    (∀ c ∈ (p side).calls, ∀ (f : Future) (o : Outcome),
      (p side).state.futures[c.future]? = some f → f.state = .finished o →
      ∃ n q, (p side.peer).state.received[n]? = some q ∧ q.1.id = c.id ∧ q.1.method = c.method ∧
        Reports (E side) (E side.peer) (p side.peer) c.method n c.id o) ∧
    (∀ c ∈ (p side).calls, ∀ (f : Future) (fs : List Peers.Event) (p' : Peers T),
      (p side).state.futures[c.future]? = some f → f.isOpen = false →
      Lib.run (Peers.step E) p fs = some p' →
      ∃ f', (p' side).state.futures[c.future]? = some f' ∧ f'.state = f.state) ∧
    (∀ q ∈ (p side).state.received,
      ∃ c ∈ (p side.peer).calls, c.id = q.1.id ∧ c.method = q.1.method) ∧
    ((p side).state.received.map fun q => q.1.id).Nodup ∧
    (∀ (n : Nat) (id id' : MsgId) (r r' : Ref), HandlerOf (p side).state n id r →
      HandlerOf (p side).state n id' r' → r = r') := by
  have h := Joined.of_run hw hids hstop htrue hrun
  refine ⟨?_, ?_, fun q hq => h.call_of_received hq, h.receivedIds_nodup side, ?_⟩
  · intro c hc f o hf hst
    obtain ⟨n, a, hm, hdec⟩ := (h.tracks side).resolved c hc f o hf hst
    have hsent := (h.channel side).subset hm
    obtain ⟨q, c', hq, hid, hc', hid', hmethod⟩ := h.call_of_answer hsent
    rw [peer_peer] at hc'
    have heq : c' = c := List.inj_on_of_nodup_map (h.tracks side).ids hc' hc hid'
    subst heq
    refine ⟨n, q, hq, hid, hmethod.symm, h.reports hsent ?_ hdec⟩
    intro q' hq'
    rw [hq] at hq'
    cases hq'
    exact hmethod.symm
  · intro c hc f fs p' hf hdone hfs
    have hgrows := Peers.run_grows (fun side => (h.accounted side).discipline) hfs side
    obtain ⟨f', hf', -, hst⟩ := hgrows.heap c.future f hf
    exact ⟨f', hf', hst hdone⟩
  · rintro n id id' r r' ⟨f, hf, hcb⟩ ⟨f', hf', hcb'⟩
    exact (h.accounted side).discipline.unique r r' f f' id id' n hf hf' hcb hcb'

def sampleEndpoint : Endpoint Unit where
  env := sampleEnv
  structureData := fun j =>
    match j with
    | .null => some .none
    | .obj [(key, .list [])] => some (.dict [(.str key, .list [])])
    | _ => none

/-- Two requests from the left and one from the right, all on their way at once. The right
answers the second first; its handler for the first yields to a thread and then raises. -/
def samplePeerEvents : List Peers.Event :=
  [.local .left (.sendRequest (.str [0]) [] .none), .local .right (.sendRequest (.str [1]) [] .none),
    .local .left (.sendRequest (.str [2]) [] .none), .take .right none,
    .local .right (.genYield 1 [3] .thread none), .local .right (.poolStart 2), .take .right none,
    .local .right (.genEnd 3 (.returned (.int 7))),
    .local .right (.poolEnd 2 (.returned (.int 5))), .local .right (.deliver 2 .worker),
    .local .right (.genEnd 1 (.raised (.jsonRpc ⟨.jsonRpcException, 7, [], .none⟩))),
    .take .left none, .local .left (.genEnd 2 (.returned .none)), .take .left none, .take .left none,
    .take .right none]

theorem responses_belong_to_their_requests_crossed :
    ∃ (p : Peers Unit) (f g : Future),
      Lib.run (Peers.step fun _ => sampleEndpoint) Peers.init samplePeerEvents = some p ∧
      (p .left).calls = [⟨.str [0], [], 0⟩, ⟨.str [2], [], 1⟩] ∧
      (p .left).state.futures[0]? = some f ∧ (p .left).state.futures[1]? = some g ∧
      f.state = .finished (.raised (.jsonRpc ⟨.jsonRpcException, 7, [], .none⟩)) ∧
      g.state = .finished (.returned (.int 7)) ∧
      (∃ n q, (p .right).state.received[n]? = some q ∧ q.1.id = .str [0] ∧ q.1.method = [] ∧
        Reports sampleEndpoint sampleEndpoint (p .right) [] n (.str [0])
          (.raised (.jsonRpc ⟨.jsonRpcException, 7, [], .none⟩))) ∧
      ∃ n q, (p .right).state.received[n]? = some q ∧ q.1.id = .str [2] ∧ q.1.method = [] ∧
        Reports sampleEndpoint sampleEndpoint (p .right) [] n (.str [2]) (.returned (.int 7)) := by
  have hw : ∀ _ : Side, sampleEndpoint.env.BrokenStays := fun _ n h => nomatch h
  have hids : (samplePeerEvents.filterMap Peers.Event.draws).Nodup := by decide
  have hstop : ∀ e ∈ samplePeerEvents, e.noStop = true := by decide
  have htrue : Lib.Meets (Peers.step fun _ => sampleEndpoint) Peers.Truthful Peers.init
      samplePeerEvents := by
    unfold samplePeerEvents
    iterate 16 refine Lib.meets_cons rfl trivial ?_
    trivial
  obtain ⟨p, f, g, hrun, hcalls, hf, hg, hfst, hgst⟩ : ∃ (p : Peers Unit) (f g : Future),
      Lib.run (Peers.step fun _ => sampleEndpoint) Peers.init samplePeerEvents = some p ∧
      (p .left).calls = [⟨.str [0], [], 0⟩, ⟨.str [2], [], 1⟩] ∧
      (p .left).state.futures[0]? = some f ∧ (p .left).state.futures[1]? = some g ∧
      f.state = .finished (.raised (.jsonRpc ⟨.jsonRpcException, 7, [], .none⟩)) ∧
      g.state = .finished (.returned (.int 7)) := ⟨_, _, _, rfl, rfl, rfl, rfl, rfl, rfl⟩
  have h := (responses_belong_to_their_requests hw hids hstop htrue hrun .left).1
  rw [hcalls] at h
  refine ⟨p, f, g, hrun, hcalls, hf, hg, hfst, hgst, ?_, ?_⟩
  · exact h ⟨.str [0], [], 0⟩ List.mem_cons_self f _ hf hfst
  · exact h ⟨.str [2], [], 1⟩ (List.mem_cons_of_mem _ List.mem_cons_self) g _ hg hgst

/-- The handler of the left's request yields to a thread, which returns, and then to a
coroutine. -/
def samplePeersOnWorker : List Peers.Event :=
  [.local .left (.sendRequest (.str [0]) [] .none), .take .right none,
    .local .right (.genYield 0 [1] .thread none), .local .right (.poolStart 1),
    .local .right (.poolEnd 1 (.returned .none)), .local .right (.deliver 1 .worker),
    .local .right (.genYield 0 [2] .coroutine none), .take .left none]

/-- The left's future holds an exception that the handler of its request did not raise. -/
theorem response_that_nothing_raised :
    (samplePeersOnWorker.filterMap Peers.Event.draws).Nodup ∧
    (∀ e ∈ samplePeersOnWorker, e.noStop = true) ∧
    ∃ (p : Peers Unit) (f : Future) (x : JsonRpcException),
      Lib.run (Peers.step fun _ => sampleEndpoint) Peers.init samplePeersOnWorker = some p ∧
      (p .left).calls = [⟨.str [0], [], 0⟩] ∧ (p .left).state.futures[0]? = some f ∧
      f.state = .finished (.raised (.jsonRpc x)) ∧ x.code = -32603 ∧
      (∀ n x, ¬RequestRaised sampleEnv (p .right).log (p .right).state n (.str [0]) x) ∧
      ∀ n, ¬Reports sampleEndpoint sampleEndpoint (p .right) [] n (.str [0])
        (.raised (.jsonRpc x)) := by
  refine ⟨by decide, by decide, ?_⟩
  obtain ⟨p, f, x, hrun, hcalls, hf, hst, hcode, hlog, hrec⟩ :
      ∃ (p : Peers Unit) (f : Future) (x : JsonRpcException),
        Lib.run (Peers.step fun _ => sampleEndpoint) Peers.init samplePeersOnWorker = some p ∧
        (p .left).calls = [⟨.str [0], [], 0⟩] ∧ (p .left).state.futures[0]? = some f ∧
        f.state = .finished (.raised (.jsonRpc x)) ∧ x.code = -32603 ∧
        (p .right).log = [.request ⟨.str [0], [], .null⟩ none, .genYield 0 [1] .thread none,
          .poolStart 1, .poolEnd 1 (.returned .none), .deliver 1 .worker,
          .genYield 0 [2] .coroutine none] ∧
        (p .right).state.received = [(⟨.str [0], [], .null⟩, none)] :=
    ⟨_, _, _, rfl, rfl, rfl, rfl, rfl, rfl, rfl⟩
  have hraised : ∀ n x, ¬RequestRaised sampleEnv (p .right).log (p .right).state n (.str [0]) x := by
    rintro n x (⟨r, -, hr⟩ | ⟨q, kind, hq, -⟩)
    · exact not_raised (by rw [hlog]; decide) hr
    · have hmem := List.mem_of_getElem? hq
      rw [hrec, List.mem_singleton] at hmem
      cases hmem
  refine ⟨p, f, x, hrun, hcalls, hf, hst, hcode, hraised, ?_⟩
  intro n hrep
  cases hrep with
  | raised hx _ => exact hraised n _ hx
  | noHandler hnone _ => cases hnone
  | cancelled _ hcan _ =>
    rw [hlog] at hcan
    simp at hcan

end Pygls
