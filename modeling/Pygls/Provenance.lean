import Pygls.Callbacks

/-!
# Where an answer comes from

An answer that was written can be traced back to the events: a result to a
handler that returned it, an error to an exception that the handler raised, to a
missing handler, or to a future that was cancelled.

Two steps make up an exception that no handler raised: a generator that was
resumed on a worker yields to a coroutine, and a `$/cancelRequest` names the
future of a handler that a generator waits for. `Truthful` excludes exactly
these, where the request's answer still depends on it.
-/

namespace Pygls

set_option autoImplicit false

variable {T : Type}

/-- The future whose handler's code ends with the event, and how. -/
def Event.ended : Event → Option (Ref × Outcome)
  | .syncEnd r o => some (r, o)
  | .genEnd r o => some (r, o)
  | .taskEnd r (some o) => some (r, o)
  | .poolEnd r o => some (r, o)
  | _ => none

def Ended (es : List Event) (r : Ref) (o : Outcome) : Prop := ∃ e ∈ es, e.ended = some (r, o)

/-- Calling the handler only starts it: it is a coroutine function, or goes to `submit`. -/
def HandlerKind.scheduled : HandlerKind → Bool
  | .coroutine => true
  | .thread => true
  | .generator => false
  | .sync => false

/-- An exception raised by a handler, or by one it yielded to, be it when that was called. -/
inductive Raised (es : List Event) (fs : List Future) : Ref → PyExc → Prop where
  | own {r : Ref} {x : PyExc} : Ended es r (.raised x) → Raised es fs r x
  | notStarted {r : Ref} {x : PyExc} {uuid : Str} {kind : HandlerKind} :
      .genYield r uuid kind (some x) ∈ es → kind.scheduled = true → Raised es fs r x
  | yielded {r i : Ref} {f : Future} {up : Callback} {x : PyExc} : fs[i]? = some f →
      f.callback = .runGenerator r up → Raised es fs i x → Raised es fs r x

/-- The callback's outcome still decides on the answer of a request: no generator on the
way is done. -/
def Callback.awaited (fs : List Future) : Callback → Bool
  | .sendHandlerResult _ _ => true
  | .checkHandlerResult => false
  | .client => false
  | .runGenerator r up => fs[r]?.all Future.isOpen && up.awaited fs

/-- `r` is the future of the handler of the `n`-th request. -/
def HandlerOf (s : State T) (n : Nat) (id : MsgId) (r : Ref) : Prop :=
  ∃ f, s.futures[r]? = some f ∧ f.callback = .sendHandlerResult id n

/-- The handler of the `n`-th request raised `x`, or calling it did. -/
def RequestRaised (env : Env T) (es : List Event) (s : State T) (n : Nat) (id : MsgId) (x : PyExc) :
    Prop :=
  (∃ r, HandlerOf s n id r ∧ Raised es s.futures r x) ∨
    ∃ q kind, s.received[n]? = some (q, some x) ∧ env.fm.getHandler q.method = some kind ∧
      kind.scheduled = true

inductive Justified (env : Env T) (es : List Event) (s : State T) (n : Nat) (id : MsgId) :
    Answer T → Prop where
  | result {r : Ref} {v : PyValue} {a : Answer T} : HandlerOf s n id r → Ended es r (.returned v) →
      env.answer none v = some a → Justified env es s n id a
  | raised {x : PyExc} {a : Answer T} : RequestRaised env es s n id x →
      (x.toResponseError env.traceback).answer = some a → Justified env es s n id a
  | noHandler {q : Request × Start} {a : Answer T} : s.received[n]? = some q →
      env.fm.getHandler q.1.method = none →
      (methodNotFound q.1.method).toResponseError.answer = some a → Justified env es s n id a
  | cancelled {r : Ref} {f : Future} {a : Answer T} : s.futures[r]? = some f →
      f.callback = .sendHandlerResult id n → f.state = .cancelled →
      (requestCancelled id).toResponseError.answer = some a → Justified env es s n id a

/-- The generator has yielded to a handler. -/
def HasYielded (fs : List Future) (r : Ref) : Prop :=
  ∃ (i : Ref) (f : Future) (up : Callback), fs[i]? = some f ∧ f.callback = .runGenerator r up

/-- While the first segment of a handler runs, only a cancellation settles its future. -/
def Future.First (f : Future) : Prop :=
  f.handler = some .sync ∨ f.handler = some .generator → f.active ≠ none → f.resumed = false →
    f.isPending = true ∨ f.state = .cancelled

structure Provenance (env : Env T) (es : List Event) (s : State T) : Prop where
  returned : ∀ (r : Ref) (f : Future) (v : PyValue), s.futures[r]? = some f → f.handler ≠ none →
    f.state = .finished (.returned v) → Ended es r (.returned v)
  raised : ∀ (r : Ref) (f : Future) (x : PyExc), s.futures[r]? = some f → f.handler ≠ none →
    f.callback.awaited s.futures = true → f.state = .finished (.raised x) → Raised es s.futures r x
  outcome : ∀ (r : Ref) (f : Future) (x : PyExc), s.futures[r]? = some f → f.handler ≠ none →
    f.state = .finished (.raised x) → x.outcome = .raised x
  cancelled : ∀ (r : Ref) (f : Future) (p : Ref) (up : Callback), s.futures[r]? = some f →
    f.callback = .runGenerator p up → f.callback.awaited s.futures = true → f.state = .cancelled →
    f.handler = some .coroutine
  first : ∀ (r : Ref) (f : Future), s.futures[r]? = some f → f.First
  yielded : ∀ (r : Ref) (f : Future) (v : PyValue), s.futures[r]? = some f → f.handler ≠ none →
    f.resumed = false → HasYielded s.futures r → f.state ≠ .finished (.returned v)
  untyped : ∀ (r : Ref) (f : Future) (id : MsgId) (n : Nat), s.futures[r]? = some f →
    f.callback = .sendHandlerResult id n → f.called = false → s.resultTypes.get? id = none
  justified : ∀ (n : Nat) (id : MsgId) (a : Answer T), Message.response n id a ∈ s.sent →
    Justified env es s n id a

/-- The futures of `fs` are still there, and those that were done are as they were. -/
def HeapLe (fs gs : List Future) : Prop :=
  ∀ (r : Ref) (f : Future), fs[r]? = some f →
    ∃ g, gs[r]? = some g ∧ g.callback = f.callback ∧ (f.isOpen = false → g.state = f.state)

theorem isOpen_congr {f g : Future} (h : g.state = f.state) : g.isOpen = f.isOpen := by
  unfold Future.isOpen
  rw [h]

theorem isOpen_cancelled {f : Future} (h : f.state = .cancelled) : f.isOpen = false := by
  unfold Future.isOpen
  rw [h]

theorem Ended.mono {es es' : List Event} {r : Ref} {o : Outcome} (h : Ended es r o)
    (hes : ∀ e ∈ es, e ∈ es') : Ended es' r o := by
  obtain ⟨e, he, hend⟩ := h
  exact ⟨e, hes e he, hend⟩

theorem Callback.awaited_antitone {fs gs : List Future} {cb : Callback} (hle : HeapLe fs gs)
    (h : cb.awaited gs = true) : cb.awaited fs = true := by
  induction cb with
  | sendHandlerResult id n => rfl
  | checkHandlerResult => exact h
  | client => exact h
  | runGenerator r up ih =>
    simp only [Callback.awaited, Bool.and_eq_true] at h ⊢
    refine ⟨?_, ih h.2⟩
    cases hf : fs[r]? with
    | none => rfl
    | some f =>
      obtain ⟨g, hg, -, hst⟩ := hle r f hf
      cases hopen : f.isOpen with
      | true => exact hopen
      | false =>
        rw [hg, Option.all_some, isOpen_congr (hst hopen), hopen] at h
        exact absurd h.1 Bool.false_ne_true

theorem Callback.awaited_of_isOpen {fs : List Future} {r : Ref} {up : Callback} {f : Future}
    (h : up.awaited fs = true) (hf : fs[r]? = some f) (hopen : f.isOpen = true) :
    (Callback.runGenerator r up).awaited fs = true := by
  simp only [Callback.awaited, hf, Option.all_some, hopen, h, Bool.and_self]

theorem Raised.mono {es es' : List Event} {fs gs : List Future} {r : Ref} {x : PyExc}
    (h : Raised es fs r x) (hes : ∀ e ∈ es, e ∈ es') (hle : HeapLe fs gs) : Raised es' gs r x := by
  induction h with
  | own hend => exact .own (hend.mono hes)
  | notStarted hm hk => exact .notStarted (hes _ hm) hk
  | yielded hf hcb _ ih =>
    obtain ⟨g, hg, hgcb, -⟩ := hle _ _ hf
    exact .yielded hg (hgcb ▸ hcb) ih

theorem HandlerOf.mono {s t : State T} {n : Nat} {id : MsgId} {r : Ref} (h : HandlerOf s n id r)
    (hle : HeapLe s.futures t.futures) : HandlerOf t n id r := by
  obtain ⟨f, hf, hcb⟩ := h
  obtain ⟨g, hg, hgcb, -⟩ := hle r f hf
  exact ⟨g, hg, hgcb ▸ hcb⟩

theorem Justified.mono {env : Env T} {es es' : List Event} {s t : State T} {n : Nat} {id : MsgId}
    {a : Answer T} (h : Justified env es s n id a) (hes : ∀ e ∈ es, e ∈ es')
    (hle : HeapLe s.futures t.futures)
    (hrec : ∀ q, s.received[n]? = some q → t.received[n]? = some q) :
    Justified env es' t n id a := by
  cases h with
  | result hh hend ha => exact .result (hh.mono hle) (hend.mono hes) ha
  | raised hx ha =>
    refine .raised ?_ ha
    rcases hx with ⟨r, hh, hr⟩ | ⟨q, kind, hq, hstart⟩
    · exact Or.inl ⟨r, hh.mono hle, hr.mono hes hle⟩
    · exact Or.inr ⟨q, kind, hrec _ hq, hstart⟩
  | noHandler hq hnone ha => exact .noHandler (hrec _ hq) hnone ha
  | cancelled hf hcb hst ha =>
    obtain ⟨g, hg, hgcb, hgst⟩ := hle _ _ hf
    exact .cancelled hg (hgcb ▸ hcb) (hgst (isOpen_cancelled hst) ▸ hst) ha

theorem HeapLe.refl (fs : List Future) : HeapLe fs fs := fun _ f hf => ⟨f, hf, rfl, fun _ => rfl⟩

theorem heapLe_modify {s : State T} {r : Ref} {g : Future → Future}
    (hg : ∀ f, s.futures[r]? = some f →
      (g f).callback = f.callback ∧ (f.isOpen = false → (g f).state = f.state)) :
    HeapLe s.futures (s.modify r g).futures := by
  intro i f hf
  rw [State.getElem?_modify]
  split
  · rename_i hri
    subst hri
    exact ⟨g f, by rw [hf]; rfl, hg f hf⟩
  · exact ⟨f, hf, rfl, fun _ => rfl⟩

theorem heapLe_alloc (s : State T) (g : Future) : HeapLe s.futures (s.alloc g).futures :=
  fun _ f hf => ⟨f, Discipline.getElem?_alloc_of_some hf, rfl, fun _ => rfl⟩

theorem HasYielded.of_modify {s : State T} {r i : Ref} {g : Future → Future}
    (hg : ∀ f, s.futures[r]? = some f → (g f).callback = f.callback)
    (h : HasYielded (s.modify r g).futures i) : HasYielded s.futures i := by
  obtain ⟨j, f', up, hf', hcb⟩ := h
  obtain ⟨f, hf, ⟨rfl, rfl⟩ | ⟨-, rfl⟩⟩ := modify_cases hf'
  · exact ⟨j, f, up, hf, hg f hf ▸ hcb⟩
  · exact ⟨j, f', up, hf, hcb⟩

/-- What has to be known of an outcome that the future of `r` is given; `up` is its callback. -/
def Supports (es : List Event) (s : State T) (r : Ref) (up : Callback) : Outcome → Prop
  | .returned v =>
    Ended es r (.returned v) ∧ (s.wasResumed r = false → ¬HasYielded s.futures r)
  | .raised x =>
    x.outcome = .raised x ∧
      ((Callback.runGenerator r up).awaited s.futures = true → Raised es s.futures r x)

/-- How a step may change one future; a state it newly gets has to be accounted for. -/
structure Changes (es : List Event) (s : State T) (r : Ref) (f f' : Future) : Prop where
  callback : f'.callback = f.callback
  handler : f'.handler = f.handler
  done : f.isOpen = false → f'.state = f.state
  called : f'.called = false → f.called = false
  resumed : f'.resumed = false → f.resumed = false
  first : f.First → f'.First
  finished : ∀ o, f.handler ≠ none → f.isOpen = true → f'.state = .finished o →
    Supports es s r f.callback o
  cancelled : f.isOpen = true → f'.state = .cancelled → f.handler ≠ some .coroutine →
    ∀ p up, f.callback = .runGenerator p up → f.callback.awaited s.futures = false

theorem Changes.of_state {es : List Event} {s : State T} {r : Ref} {f f' : Future}
    (hcb : f'.callback = f.callback) (hk : f'.handler = f.handler) (hst : f'.state = f.state)
    (hcalled : f'.called = false → f.called = false)
    (hres : f'.resumed = false → f.resumed = false) (hfirst : f.First → f'.First) :
    Changes es s r f f' := by
  refine ⟨hcb, hk, fun _ => hst, hcalled, hres, hfirst, ?_, ?_⟩
  · intro o _ hopen hfin
    rw [Future.isOpen, ← hst, hfin] at hopen
    cases hopen
  · intro hopen hcan
    rw [isOpen_cancelled (hst ▸ hcan)] at hopen
    cases hopen

theorem State.getElem?_leave {s : State T} {r : Ref} {f : Future} (hf : s.futures[r]? = some f) :
    (s.leave r).futures[r]? = some { f with active := none } :=
  State.getElem?_modify_self hf

theorem wasResumed_eq {s : State T} {r : Ref} {f : Future} (hf : s.futures[r]? = some f) :
    s.wasResumed r = f.resumed := by
  rw [State.wasResumed, hf, Option.any_some]

/-- Only a generator has yielded. -/
theorem Discipline.not_hasYielded {s : State T} (h : Discipline s) {r : Ref} {f : Future}
    (hf : s.futures[r]? = some f) (hk : f.handler ≠ some .generator) :
    ¬HasYielded s.futures r := by
  rintro ⟨i, g, up, hg, hcb⟩
  obtain ⟨-, f', hf', -, hgen⟩ := h.parent i g r up hg hcb
  rw [hf] at hf'
  cases hf'
  exact hk hgen

namespace Provenance

variable {env : Env T} {es es' : List Event} {s t : State T}

theorem mono (h : Provenance env es s) (hes : ∀ e ∈ es, e ∈ es') : Provenance env es' s where
  returned := fun r f v hf hk hst => (h.returned r f v hf hk hst).mono hes
  raised := fun r f x hf hk hw hst => (h.raised r f x hf hk hw hst).mono hes (.refl _)
  outcome := h.outcome
  cancelled := h.cancelled
  first := h.first
  yielded := h.yielded
  untyped := h.untyped
  justified := fun n id a hm => (h.justified n id a hm).mono hes (.refl _) fun _ hq => hq

theorem congr (h : Provenance env es s) (hf : t.futures = s.futures) (hsent : t.sent = s.sent)
    (hrec : ∀ (n : Nat) (q : Request × Start), s.received[n]? = some q → t.received[n]? = some q)
    (htypes : ∀ (r : Ref) (f : Future) (id : MsgId) (n : Nat), s.futures[r]? = some f →
      f.callback = .sendHandlerResult id n → f.called = false →
      s.resultTypes.get? id = none → t.resultTypes.get? id = none) :
    Provenance env es t := by
  constructor
  case returned => rw [hf]; exact h.returned
  case raised => rw [hf]; exact h.raised
  case outcome => rw [hf]; exact h.outcome
  case cancelled => rw [hf]; exact h.cancelled
  case first => rw [hf]; exact h.first
  case yielded => rw [hf]; exact h.yielded
  case untyped =>
    intro r f id n hfr hcb hnot
    rw [hf] at hfr
    exact htypes r f id n hfr hcb hnot (h.untyped r f id n hfr hcb hnot)
  case justified =>
    intro n id a hm
    rw [hsent] at hm
    exact (h.justified n id a hm).mono (fun _ he => he) (hf ▸ .refl _) (hrec n)

theorem modify (h : Provenance env es s) {r : Ref} {g : Future → Future}
    (hg : ∀ f, s.futures[r]? = some f → Changes es s r f (g f)) :
    Provenance env es (s.modify r g) := by
  have hle : HeapLe s.futures (s.modify r g).futures :=
    heapLe_modify fun f hf => ⟨(hg f hf).callback, (hg f hf).done⟩
  constructor
  case returned =>
    intro i f' v hf' hk hst
    obtain ⟨f, hf, ⟨rfl, rfl⟩ | ⟨-, rfl⟩⟩ := modify_cases hf'
    · rw [(hg f hf).handler] at hk
      cases hopen : f.isOpen with
      | true => exact ((hg f hf).finished _ hk hopen hst).1
      | false => exact h.returned i f v hf hk ((hg f hf).done hopen ▸ hst)
    · exact h.returned i f' v hf hk hst
  case raised =>
    intro i f' x hf' hk hw hst
    have hw' := Callback.awaited_antitone hle hw
    refine Raised.mono ?_ (fun _ he => he) hle
    obtain ⟨f, hf, ⟨rfl, rfl⟩ | ⟨-, rfl⟩⟩ := modify_cases hf'
    · rw [(hg f hf).handler] at hk
      rw [(hg f hf).callback] at hw'
      cases hopen : f.isOpen with
      | true =>
        exact ((hg f hf).finished _ hk hopen hst).2 (Callback.awaited_of_isOpen hw' hf hopen)
      | false => exact h.raised i f x hf hk hw' ((hg f hf).done hopen ▸ hst)
    · exact h.raised i f' x hf hk hw' hst
  case outcome =>
    intro i f' x hf' hk hst
    obtain ⟨f, hf, ⟨rfl, rfl⟩ | ⟨-, rfl⟩⟩ := modify_cases hf'
    · rw [(hg f hf).handler] at hk
      cases hopen : f.isOpen with
      | true => exact ((hg f hf).finished _ hk hopen hst).1
      | false => exact h.outcome i f x hf hk ((hg f hf).done hopen ▸ hst)
    · exact h.outcome i f' x hf hk hst
  case cancelled =>
    intro i f' p up hf' hcb hw hst
    have hw' := Callback.awaited_antitone hle hw
    obtain ⟨f, hf, ⟨rfl, rfl⟩ | ⟨-, rfl⟩⟩ := modify_cases hf'
    · rw [(hg f hf).callback] at hcb hw'
      rw [(hg f hf).handler]
      cases hopen : f.isOpen with
      | true =>
        by_contra hk
        rw [(hg f hf).cancelled hopen hst hk p up hcb] at hw'
        cases hw'
      | false => exact h.cancelled i f p up hf hcb hw' ((hg f hf).done hopen ▸ hst)
    · exact h.cancelled i f' p up hf hcb hw' hst
  case first =>
    intro i f' hf'
    obtain ⟨f, hf, ⟨rfl, rfl⟩ | ⟨-, rfl⟩⟩ := modify_cases hf'
    · exact (hg f hf).first (h.first i f hf)
    · exact h.first i f' hf
  case yielded =>
    intro i f' v hf' hk hres hyield hst
    have hyield' := hyield.of_modify fun f hf => (hg f hf).callback
    obtain ⟨f, hf, ⟨rfl, rfl⟩ | ⟨-, rfl⟩⟩ := modify_cases hf'
    · rw [(hg f hf).handler] at hk
      have hres' := (hg f hf).resumed hres
      cases hopen : f.isOpen with
      | true =>
        refine ((hg f hf).finished _ hk hopen hst).2 ?_ hyield'
        rw [wasResumed_eq hf, hres']
      | false => exact h.yielded i f v hf hk hres' hyield' ((hg f hf).done hopen ▸ hst)
    · exact h.yielded i f' v hf hk hres hyield' hst
  case untyped =>
    intro i f' id n hf' hcb hnot
    obtain ⟨f, hf, ⟨rfl, rfl⟩ | ⟨-, rfl⟩⟩ := modify_cases hf'
    · exact h.untyped i f id n hf ((hg f hf).callback ▸ hcb) ((hg f hf).called hnot)
    · exact h.untyped i f' id n hf hcb hnot
  case justified =>
    intro n id a hm
    exact (h.justified n id a hm).mono (fun _ he => he) hle fun _ hq => hq

theorem alloc (h : Provenance env es s) {g : Future} (hpend : g.state = .pending)
    (htypes : ∀ id n, g.callback = .sendHandlerResult id n → s.resultTypes.get? id = none)
    (hparent : ∀ (p : Ref) (up : Callback) (f : Future) (v : PyValue),
      g.callback = .runGenerator p up → s.futures[p]? = some f → f.resumed = false →
      f.state ≠ .finished (.returned v)) :
    Provenance env es (s.alloc g) := by
  have hle := heapLe_alloc s g
  constructor
  case returned =>
    intro i f v hf hk hst
    rcases State.getElem?_alloc hf with hf | ⟨-, rfl⟩
    · exact h.returned i f v hf hk hst
    · rw [hpend] at hst
      cases hst
  case raised =>
    intro i f x hf hk hw hst
    rcases State.getElem?_alloc hf with hold | ⟨-, rfl⟩
    · have hw' := Callback.awaited_antitone hle hw
      exact (h.raised i f x hold hk hw' hst).mono (fun _ he => he) hle
    · rw [hpend] at hst
      cases hst
  case outcome =>
    intro i f x hf hk hst
    rcases State.getElem?_alloc hf with hf | ⟨-, rfl⟩
    · exact h.outcome i f x hf hk hst
    · rw [hpend] at hst
      cases hst
  case cancelled =>
    intro i f p up hf hcb hw hst
    rcases State.getElem?_alloc hf with hold | ⟨-, rfl⟩
    · exact h.cancelled i f p up hold hcb (Callback.awaited_antitone hle hw) hst
    · rw [hpend] at hst
      cases hst
  case first =>
    intro i f hf
    rcases State.getElem?_alloc hf with hf | ⟨-, rfl⟩
    · exact h.first i f hf
    · intro _ _ _
      exact Or.inl (by rw [Future.isPending, hpend])
  case yielded =>
    intro i f v hf hk hres hyield hst
    rcases State.getElem?_alloc hf with hold | ⟨-, rfl⟩
    · obtain ⟨j, f', up, hf', hcb⟩ := hyield
      rcases State.getElem?_alloc hf' with hf' | ⟨-, rfl⟩
      · exact h.yielded i f v hold hk hres ⟨j, f', up, hf', hcb⟩ hst
      · exact hparent i up f v hcb hold hres hst
    · rw [hpend] at hst
      cases hst
  case untyped =>
    intro i f id n hf hcb hnot
    rcases State.getElem?_alloc hf with hf | ⟨-, rfl⟩
    · exact h.untyped i f id n hf hcb hnot
    · exact htypes id n hcb
  case justified =>
    intro n id a hm
    exact (h.justified n id a hm).mono (fun _ he => he) hle fun _ hq => hq

theorem sends (h : Provenance env es s) {n : Nat} {id : MsgId} {P : Answer T → Prop}
    (hs : Sends s t n id P)
    (htypes : ∀ k, s.resultTypes.get? k = none → t.resultTypes.get? k = none)
    (hP : ∀ a, P a → Justified env es s n id a) : Provenance env es t := by
  constructor
  case returned => rw [hs.futures]; exact h.returned
  case raised => rw [hs.futures]; exact h.raised
  case outcome => rw [hs.futures]; exact h.outcome
  case cancelled => rw [hs.futures]; exact h.cancelled
  case first => rw [hs.futures]; exact h.first
  case yielded => rw [hs.futures]; exact h.yielded
  case untyped =>
    rw [hs.futures]
    intro r f k m hf hcb hnot
    exact htypes k (h.untyped r f k m hf hcb hnot)
  case justified =>
    have keep : ∀ m k b, Justified env es s m k b → Justified env es t m k b := by
      intro m k b hj
      exact hj.mono (fun _ he => he) (hs.futures ▸ .refl _) fun _ hq => hs.received ▸ hq
    intro m k b hm
    rcases hs.sent with hsent | ⟨a, ha, hsent⟩
    · rw [hsent] at hm
      exact keep m k b (h.justified m k b hm)
    · rw [hsent, List.mem_append, List.mem_singleton] at hm
      rcases hm with hold | hlast
      · exact keep m k b (h.justified m k b hold)
      · cases hlast
        exact keep n id b (hP b ha)

end Provenance

def Start.noStop : Start → Bool
  | some (.stopIteration _) => false
  | _ => true

/-- No handler raises `StopIteration` in the event. -/
def Event.noStop : Event → Bool
  | .request _ start => start.noStop
  | .notification _ _ start => start.noStop
  | .genYield _ _ _ start => start.noStop
  | .syncEnd _ o => o.noStop
  | .genEnd _ o => o.noStop
  | .taskEnd _ o => o.all Outcome.noStop
  | .poolEnd _ o => o.noStop
  | _ => true

theorem outcome_cases (x : PyExc) :
    (∃ v, x = .stopIteration v ∧ x.outcome = .returned v) ∨ x.outcome = .raised x := by
  cases x with
  | stopIteration v => exact Or.inl ⟨v, rfl, rfl⟩
  | _ => exact Or.inr rfl

theorem outcome_sendExc {o : Outcome} (h : o.noStop = true) : o.sendExc.outcome = o := by
  cases o with
  | returned v => rfl
  | raised x =>
    cases x with
    | stopIteration v => cases h
    | _ => rfl

theorem noStop_outcome {x : PyExc} (h : (Outcome.raised x).noStop = true) :
    x.outcome = .raised x := by
  rcases outcome_cases x with ⟨v, rfl, -⟩ | hx
  · cases h
  · exact hx

theorem start_noStop {x : PyExc} (h : Start.noStop (some x) = true) : x.outcome = .raised x := by
  rcases outcome_cases x with ⟨v, rfl, -⟩ | hx
  · cases h
  · exact hx

def Closed (fs : List Future) (r : Ref) : Prop :=
  ∃ f, fs[r]? = some f ∧ f.isOpen = false

/-- An exception that ended a yielded generator has been handed to the one that yielded to
it, but for the completion that the callback is about to be called with. -/
def HandedBut (s : State T) (cb : Callback) (c : Completion) : Prop :=
  ∀ (i : Ref) (f : Future) (p : Ref) (up : Callback) (x : PyExc), s.futures[i]? = some f →
    f.handler = some .generator → f.callback = .runGenerator p up →
    f.state = .finished (.raised x) →
    Closed s.futures p ∨ f.callback = cb ∧ c = .finished (.raised x)

/-- The invariants, for a fixed list of events. -/
structure AccountedBut (env : Env T) (es : List Event) (s : State T) (cb : Callback)
    (c : Completion) : Prop where
  discipline : Discipline s
  provenance : Provenance env es s
  handed : HandedBut s cb c

/-- Nothing is exempt. -/
abbrev Accounted (env : Env T) (es : List Event) (s : State T) : Prop :=
  AccountedBut env es s .client .cancelled

/-- A future that is ready for its callback, its request's id free of a registered class. -/
def ReadyUntyped (s : State T) (cb : Callback) (c : Completion) : Prop :=
  Ready s cb c ∧ ∀ id n, cb = .sendHandlerResult id n → s.resultTypes.get? id = none

/-- Why `_execute_handler` raises the exception. -/
def Cause (env : Env T) (es : List Event) (s : State T) : Callback → PyExc → Prop
  | .sendHandlerResult _ n, x =>
    ∃ q kind, s.received[n]? = some (q, some x) ∧ env.fm.getHandler q.method = some kind ∧
      kind.scheduled = true
  | .checkHandlerResult, _ => True
  | .client, _ => True
  | .runGenerator r up, x => Supports es s r up x.outcome

/-- If the generator was settled before its first segment has ended, nobody waits for it. -/
def Firm (s : State T) (cb : Callback) : Prop :=
  ∀ (r p : Ref) (up : Callback) (f : Future), cb = .runGenerator r (.runGenerator p up) →
    s.futures[r]? = some f → f.isOpen = false → f.resumed = false →
    (Callback.runGenerator p up).awaited s.futures = false

/-- What is known of the caller of an `_execute_handler` that raises. -/
structure RaisesFor (env : Env T) (es : List Event) (s : State T) (cb : Callback) (x : PyExc) :
    Prop where
  caller : Caller s cb
  cause : Cause env es s cb x
  firm : Firm s cb

theorem state_of_completion {f : Future} {c : Completion} (h : f.completion = some c) :
    match c with
    | .finished o => f.state = .finished o
    | .cancelled => f.state = .cancelled
    | .taskCancelled => f.state = .cancelled := by
  unfold Future.completion at h
  split at h
  · cases h
  · cases h
  · rename_i o hst
    cases h
    exact hst
  · rename_i hst
    split at h
    · cases h
      exact hst
    · cases h
      exact hst

theorem handler_ne_none {s : State T} (h : Discipline s) {r : Ref} {f : Future}
    (hf : s.futures[r]? = some f) (hcb : f.callback ≠ .client) : f.handler ≠ none :=
  fun hnone => hcb (h.outgoing r f hf hnone)

theorem handler_of_cancelled {f : Future} (h : f.completion = some .cancelled) :
    f.handler ≠ some .coroutine := by
  intro hk
  unfold Future.completion at h
  split at h <;> simp_all

/-- A future that is done, unless it is the job of a worker. -/
theorem Discipline.isOpen_of_not_pending {s : State T} (h : Discipline s) {r : Ref} {f : Future}
    (hf : s.futures[r]? = some f) (hk : f.handler ≠ some .thread) (hpend : f.isPending = false) :
    f.isOpen = false := by
  cases hopen : f.isOpen with
  | false => rfl
  | true => exact absurd (h.running r f hf hopen hpend) hk

theorem not_awaited_of_closed {fs : List Future} {r : Ref} (up : Callback) (h : Closed fs r) :
    (Callback.runGenerator r up).awaited fs = false := by
  obtain ⟨f, hf, hclosed⟩ := h
  simp only [Callback.awaited, hf, Option.all_some, hclosed, Bool.false_and]

namespace HandedBut

variable {s t : State T} {cb : Callback} {c : Completion}

theorem congr (h : HandedBut s cb c) (hf : t.futures = s.futures) : HandedBut t cb c := by
  unfold HandedBut
  rw [hf]
  exact h

theorem closed_modify {r p : Ref} {g : Future → Future}
    (hg : ∀ f, s.futures[r]? = some f → f.isOpen = false → (g f).isOpen = false)
    (h : Closed s.futures p) : Closed (s.modify r g).futures p := by
  obtain ⟨f, hf, hclosed⟩ := h
  by_cases hpr : p = r
  · subst hpr
    exact ⟨g f, State.getElem?_modify_self hf, hg f hf hclosed⟩
  · exact ⟨f, (State.getElem?_modify_ne hpr).trans hf, hclosed⟩

/-- No generator ends with the change. -/
theorem modify (h : HandedBut s cb c) {r : Ref} {g : Future → Future}
    (hcb : ∀ f, s.futures[r]? = some f → (g f).callback = f.callback)
    (hk : ∀ f, s.futures[r]? = some f → (g f).handler = f.handler)
    (hdone : ∀ f, s.futures[r]? = some f → f.isOpen = false → (g f).isOpen = false)
    (hst : ∀ f x, s.futures[r]? = some f → f.handler = some .generator →
      (g f).state = .finished (.raised x) → f.state = .finished (.raised x)) :
    HandedBut (s.modify r g) cb c := by
  intro i f' p up x hf' hgen hup hfin
  obtain ⟨f, hf, ⟨rfl, rfl⟩ | ⟨-, rfl⟩⟩ := modify_cases hf'
  · rw [hk f hf] at hgen
    rw [hcb f hf] at hup ⊢
    exact (h i f p up x hf hgen hup (hst f x hf hgen hfin)).imp_left (closed_modify hdone)
  · exact (h i f' p up x hf hgen hup hfin).imp_left (closed_modify hdone)

theorem alloc (h : HandedBut s cb c) {g : Future} (hpend : g.state = .pending) :
    HandedBut (s.alloc g) cb c := by
  intro i f p up x hf hgen hup hfin
  rcases State.getElem?_alloc hf with hf | ⟨-, rfl⟩
  · refine (h i f p up x hf hgen hup hfin).imp_left ?_
    rintro ⟨gp, hgp, hclosed⟩
    exact ⟨gp, Discipline.getElem?_alloc_of_some hgp, hclosed⟩
  · rw [hpend] at hfin
    cases hfin

/-- The future of `r` is settled; what waited to be handed to its generator no longer can be. -/
theorem settle (h : HandedBut s cb c) {r : Ref} {f : Future} {st : FutureState} {c' : Completion}
    (hf : s.futures[r]? = some f) (hcb : ∀ p up, cb = .runGenerator p up → p = r)
    (hclosed : (f.settle st).isOpen = false)
    (hc : ∀ x, st = .finished (.raised x) → c' = .finished (.raised x)) :
    HandedBut (s.modify r (Future.settle st)) f.callback c' := by
  have hself := State.getElem?_modify_self (g := Future.settle st) hf
  intro i g p up x hg hgen hup hfin
  obtain ⟨g₀, hg₀, ⟨rfl, rfl⟩ | ⟨-, rfl⟩⟩ := modify_cases hg
  · rw [hf] at hg₀
    cases hg₀
    exact Or.inr ⟨rfl, hc x hfin⟩
  · left
    rcases h i g p up x hg₀ hgen hup hfin with hold | ⟨heq, -⟩
    · refine closed_modify ?_ hold
      intro f' hf' _
      rw [hf] at hf'
      cases hf'
      exact hclosed
    · obtain rfl := hcb p up (heq ▸ hup)
      exact ⟨_, hself, hclosed⟩

/-- The callback has handed on what it was called with. -/
theorem discharge (h : HandedBut s cb c)
    (hclosed : ∀ p up x, cb = .runGenerator p up → c = .finished (.raised x) → Closed s.futures p) :
    HandedBut s .client .cancelled := by
  intro i f p up x hf hgen hup hfin
  rcases h i f p up x hf hgen hup hfin with hold | ⟨heq, hc⟩
  · exact Or.inl hold
  · exact Or.inl (hclosed p up x (heq ▸ hup) hc)

theorem weaken (h : HandedBut s .client .cancelled) (cb : Callback) (c : Completion) :
    HandedBut s cb c := by
  intro i f p up x hf hgen hup hfin
  rcases h i f p up x hf hgen hup hfin with hold | ⟨-, hc⟩
  · exact Or.inl hold
  · cases hc

end HandedBut

namespace AccountedBut

variable {env : Env T} {es : List Event} {s s' : State T} {cb : Callback} {c : Completion}

theorem discharge (h : AccountedBut env es s cb c)
    (hclosed : ∀ p up x, cb = .runGenerator p up → c = .finished (.raised x) → Closed s.futures p) :
    Accounted env es s :=
  ⟨h.discipline, h.provenance, h.handed.discharge hclosed⟩

theorem answer {id : MsgId} {n : Nat} (h : AccountedBut env es s (.sendHandlerResult id n) c)
    (hw : env.BrokenStays) (hr : ReadyUntyped s (.sendHandlerResult id n) c) :
    Accounted env es (s.sendHandlerResult env id n c) := by
  have hs := State.sendHandlerResult_sends env s id n c
  refine ⟨h.discipline.sends (h.discipline.unused hr.1) hs, h.provenance.sends hs ?_ ?_, ?_⟩
  · intro k hk
    rw [sendHandlerResult_resultTypes]
    split
    · exact Lib.Dict.get?_pop_of_none hk
    · exact hk
  · intro a ha
    have hfit := ha hw (hr.2 id n rfl)
    obtain ⟨r, f, hf, hcb, -, hc, -⟩ := hr.1
    have hk : f.handler ≠ none := handler_ne_none h.discipline hf (by rw [hcb]; simp)
    have hawait : f.callback.awaited s.futures = true := by rw [hcb]; rfl
    have hst := state_of_completion hc
    cases c with
    | finished o =>
      cases o with
      | returned v => exact .result ⟨f, hf, hcb⟩ (h.provenance.returned r f v hf hk hst) hfit
      | raised x =>
        exact .raised (Or.inl ⟨r, ⟨f, hf, hcb⟩, h.provenance.raised r f x hf hk hawait hst⟩) hfit
    | cancelled => exact .cancelled hf hcb hst hfit
    | taskCancelled => exact .cancelled hf hcb hst hfit
  · refine HandedBut.congr (h.handed.discharge ?_) hs.futures
    intro p up x heq
    cases heq

/-- The exception with which the future of a yielded handler is done. -/
theorem supports_of_ready {r : Ref} {up : Callback} {x : PyExc}
    (h : AccountedBut env es s (.runGenerator r up) c) (hr : Ready s (.runGenerator r up) c)
    (hc : c.result = some (.raised x)) :
    Supports es s r up (.raised x) := by
  obtain ⟨i, f, hf, hcb, -, hcomp, -⟩ := hr
  have hk : f.handler ≠ none := handler_ne_none h.discipline hf (by rw [hcb]; simp)
  have hst := state_of_completion hcomp
  cases c with
  | finished o =>
    cases hc
    refine ⟨h.provenance.outcome i f x hf hk hst, fun hawait => ?_⟩
    exact .yielded hf hcb (h.provenance.raised i f x hf hk (hcb ▸ hawait) hst)
  | cancelled =>
    cases hc
    refine ⟨rfl, fun hawait => ?_⟩
    exact absurd (h.provenance.cancelled i f r up hf hcb (hcb ▸ hawait) hst)
      (handler_of_cancelled hcomp)
  | taskCancelled => cases hc

theorem settled (h : AccountedBut env es s cb c) {r : Ref} {f : Future} {o : Outcome}
    (hf : s.futures[r]? = some f) (hcb : ∀ p up, cb = .runGenerator p up → p = r)
    (hwait : f.active ≠ none → f.resumed = true) (hsup : Supports es s r f.callback o)
    (hs : s.setOutcome r o = some s') :
    AccountedBut env es s' f.callback (.finished o) ∧ ReadyUntyped s' f.callback (.finished o) := by
  obtain ⟨hd, hready⟩ := h.discipline.setOutcome hf hwait hs
  obtain ⟨f', hf', hpend, rfl⟩ := setOutcome_eq_some hs
  rw [hf] at hf'
  cases hf'
  have hopen := isOpen_of_isPending hpend
  have hp : Provenance env es (s.modify r (Future.settle (.finished o))) := by
    refine h.provenance.modify fun g hg => ?_
    rw [hf] at hg
    cases hg
    refine ⟨rfl, rfl, ?_, nofun, id, ?_, ?_, nofun⟩
    · intro hclosed
      rw [hopen] at hclosed
      cases hclosed
    · intro _ _ hact hres
      have hnot : f.resumed = false := hres
      rw [hwait hact] at hnot
      cases hnot
    · intro o' _ _ hst
      cases hst
      exact hsup
  refine ⟨⟨hd, hp, h.handed.settle hf hcb rfl ?_⟩, hready, ?_⟩
  · intro x hx
    cases hx
    rfl
  · intro id n hup
    exact h.provenance.untyped r f id n hf hup (h.discipline.not_called hf hopen)

theorem resume (h : Accounted env es s) {r : Ref} {f : Future} (hf : s.futures[r]? = some f)
    (hgen : f.handler = some .generator) (th : Thread) (v : PyValue) :
    Accounted env es (s.resume r th v) := by
  refine ⟨h.discipline.resume hf hgen th v, h.provenance.modify ?_,
    h.handed.modify (fun _ _ => rfl) (fun _ _ => rfl) (fun _ _ => id) (fun _ _ _ _ => id)⟩
  intro g _
  exact .of_state rfl rfl rfl id nofun fun _ _ _ hres => nomatch hres

theorem runCallback (hw : env.BrokenStays) (th : Thread) (h : AccountedBut env es s cb c)
    (hr : ReadyUntyped s cb c) : Accounted env es (State.runCallback env th cb c s) := by
  refine runCallback_ind (R := fun s cb c => AccountedBut env es s cb c ∧ ReadyUntyped s cb c)
    ?_ ?_ ?_ ?_ ?_ ?_ ?_ ?_ cb c s ⟨h, hr⟩
  · intro s id n c h
    exact h.1.answer hw h.2
  · intro s c h
    exact h.1.discharge nofun
  · intro s c h
    exact h.1.discharge nofun
  · intro s r up c h hcan
    refine h.1.discharge fun p up' x heq _ => ?_
    cases heq
    obtain ⟨f, hf, hfc⟩ := (Option.any_eq_true _ _).mp hcan
    refine ⟨f, hf, isOpen_cancelled ?_⟩
    unfold Future.isCancelled at hfc
    split at hfc
    · assumption
    · cases hfc
  · intro s r up c h _ hnone
    refine h.1.discharge fun p up' x _ hc => ?_
    rw [hc] at hnone
    cases hnone
  · intro s r up c v h _ hv
    obtain ⟨i, f, hf, hcb, -⟩ := h.2.1
    obtain ⟨g, hg, -, hgen, -⟩ := h.1.discipline.parent_waits hf hcb
    refine (h.1.discharge fun p up' x _ hc => ?_).resume hg hgen th v
    rw [hc] at hv
    cases hv
  · intro s r up c x h _ _ hnone
    refine h.1.discharge fun p up' x heq _ => ?_
    cases heq
    obtain ⟨i, f, hf, hcb, -⟩ := h.2.1
    obtain ⟨g, hg, -, hgen, -⟩ := h.1.discipline.parent_waits hf hcb
    refine ⟨g, hg, h.1.discipline.isOpen_of_not_pending hg ?_ (setOutcome_eq_none hnone hg)⟩
    rw [hgen]
    simp
  · intro s s' r up c x h _ hc hs
    have hsup := h.1.supports_of_ready h.2.1 hc
    obtain ⟨i, f, hf, hcb, -⟩ := h.2.1
    obtain ⟨g, hg, hup, -, hwait⟩ := h.1.discipline.parent_waits hf hcb
    rw [hsup.1] at hs ⊢
    subst hup
    refine h.1.settled hg ?_ hwait hsup hs
    intro p up heq
    cases heq
    rfl

/-- The future of a handler in its first segment that is done already: nobody waits for it. -/
theorem not_awaited_of_first (h : Accounted env es s) {r : Ref} {f : Future}
    (hf : s.futures[r]? = some f) (hk : f.handler = some .sync ∨ f.handler = some .generator)
    (hact : f.active ≠ none) (hres : f.resumed = false) (hclosed : f.isOpen = false) {p : Ref}
    {up : Callback} (hcb : f.callback = .runGenerator p up) :
    f.callback.awaited s.futures = false := by
  rcases h.provenance.first r f hf hk hact hres with hpend | hcan
  · rw [isOpen_of_isPending hpend] at hclosed
    cases hclosed
  · cases hawait : f.callback.awaited s.futures with
    | false => rfl
    | true =>
      have hco := h.provenance.cancelled r f p up hf hcb hawait hcan
      rw [hco] at hk
      rcases hk with hk | hk <;> cases hk

/-- A generator that has yielded and is settled without having been resumed was settled by
the handler it yielded to, and has handed that on. -/
theorem firm_of_child (h : Accounted env es s) {i : Ref} {g : Future}
    (hg : s.futures[i]? = some g) : Firm s g.callback := by
  intro r p up f hcb hf hclosed hres
  obtain ⟨-, f', hf', hup, hgen⟩ := h.discipline.parent i g r _ hg hcb
  rw [hf] at hf'
  cases hf'
  have hk : f.handler ≠ none := by rw [hgen]; simp
  cases hst : f.state with
  | pending =>
    rw [Future.isOpen, hst] at hclosed
    cases hclosed
  | running =>
    rw [Future.isOpen, hst] at hclosed
    cases hclosed
  | cancelled =>
    cases hawait : f.callback.awaited s.futures with
    | false => rwa [hup] at hawait
    | true =>
      have hco := h.provenance.cancelled r f p up hf hup hawait hst
      rw [hgen] at hco
      cases hco
  | finished o =>
    cases o with
    | returned v =>
      exact absurd hst (h.provenance.yielded r f v hf hk hres ⟨i, g, _, hg, hcb⟩)
    | raised x =>
      rcases h.handed r f p up x hf hgen hup hst with hold | ⟨-, hc⟩
      · exact not_awaited_of_closed up hold
      · cases hc

theorem executeRaised (hw : env.BrokenStays) (th : Thread) {x : PyExc} (h : Accounted env es s)
    (hx : RaisesFor env es s cb x) : Accounted env es (State.executeRaised env th cb x s) := by
  refine executeRaised_ind (R := fun s cb c => AccountedBut env es s cb c ∧ ReadyUntyped s cb c)
    (P := fun s cb x => Accounted env es s ∧ RaisesFor env es s cb x) ?_ ?_ ?_ ?_ ?_ ?_ ?_ cb x s ⟨h, hx⟩
  · intro cb c s h
    exact h.1.runCallback hw th h.2
  · intro s id n x h
    have hs := State.sendException_sends env s n id x
    refine ⟨h.1.discipline.sends h.2.caller hs, h.1.provenance.sends hs ?_ ?_,
      h.1.handed.congr hs.futures⟩
    · intro k hk
      rw [sendException_resultTypes]
      exact hk
    · intro a ha
      exact .raised (Or.inr h.2.cause) ha
  · intro s x h
    exact h.1
  · intro s x h
    exact h.1
  · intro s s' r up x h hs
    obtain ⟨f, hf, hup, -, hwait, -⟩ := h.2.caller
    subst hup
    exact h.1.settled hf nofun hwait h.2.cause hs
  · intro s r up x h _ _
    exact h.1
  · intro s r up x h hs hres
    obtain ⟨hcaller, hne⟩ := h.1.discipline.climb h.2.caller hs hres
    obtain ⟨f, hf, hcb, hk, -⟩ := h.2.caller
    have hclosed : f.isOpen = false := by
      refine h.1.discipline.isOpen_of_not_pending hf ?_ (setOutcome_eq_none hs hf)
      rw [hk]
      simp
    subst hcb
    refine ⟨h.1, hcaller, ?_, h.1.firm_of_child hf⟩
    cases hcb : f.callback with
    | sendHandlerResult id n => exact absurd hcb (hne id n)
    | checkHandlerResult => trivial
    | client => trivial
    | runGenerator p up =>
      refine ⟨rfl, fun hawait => ?_⟩
      rw [wasResumed_eq hf] at hres
      rw [h.2.firm r p up f (by rw [hcb]) hf hclosed hres] at hawait
      cases hawait
/-- A step that touches only the tables. -/
theorem tables (h : Accounted env es s) {t : State T} (hf : t.futures = s.futures)
    (hr : t.received = s.received) (hsent : t.sent = s.sent)
    (htypes : ∀ k, s.resultTypes.get? k = none → t.resultTypes.get? k = none) :
    Accounted env es t := by
  refine ⟨h.discipline.congr hf hr hsent, h.provenance.congr hf hsent ?_ ?_, h.handed.congr hf⟩
  · intro n q hq
    rwa [hr]
  · intro r f id n _ _ _ hn
    exact htypes id hn

theorem register (h : Accounted env es s) (id : MsgId) (r : Ref) :
    Accounted env es (s.register id r) :=
  h.tables rfl rfl rfl fun _ hn => hn

theorem popFuture (h : Accounted env es s) (id : MsgId) : Accounted env es (s.popFuture id) :=
  h.tables rfl rfl rfl fun _ hn => hn

theorem popType (h : Accounted env es s) (id : MsgId) : Accounted env es (s.popType id) :=
  h.tables rfl rfl rfl fun _ hn => Lib.Dict.get?_pop_of_none hn

theorem leave (h : Accounted env es s) (r : Ref) : Accounted env es (s.leave r) := by
  refine ⟨h.discipline.leave r, h.provenance.modify ?_,
    h.handed.modify (fun _ _ => rfl) (fun _ _ => rfl) (fun _ _ => id) (fun _ _ _ _ => id)⟩
  intro f _
  exact .of_state rfl rfl rfl id id fun _ _ hact => absurd rfl hact

/-- The generator that is about to wait for a new future does so for the first time, or has
been resumed; it has not ended. -/
def Going (s : State T) (cb : Callback) : Prop :=
  ∀ (p : Ref) (up : Callback) (f : Future) (v : PyValue), cb = .runGenerator p up →
    s.futures[p]? = some f → f.resumed = false → f.state ≠ .finished (.returned v)

theorem executeHandler (hw : env.BrokenStays) {th : Thread} (id : MsgId) (kind : HandlerKind)
    {cb : Callback} (start : Start) (h : Accounted env es s) (hc : Caller s cb)
    (hn : Discipline.NotStarted s cb) (hgo : Going s cb)
    (hsh : th = .worker → Sheltered s.futures cb)
    (htypes : ∀ id n, cb = .sendHandlerResult id n → s.resultTypes.get? id = none)
    (hstart : ∀ x, start = some x → kind.scheduled = true → RaisesFor env es s cb x)
    (hloop : kind = .coroutine → start = none → th = .worker → RaisesFor env es s cb .runtimeError) :
    Accounted env es (State.executeHandler env th id kind cb start s) := by
  have idle : ∀ kind, Accounted env es (s.alloc (.pending (some kind) cb)) := by
    intro kind
    exact ⟨h.discipline.alloc (Discipline.joins hc hn (fun hact => absurd rfl hact) nofun),
      h.provenance.alloc rfl htypes hgo, h.handed.alloc rfl⟩
  have running : ∀ kind, kind = .sync ∨ kind = .generator →
      Accounted env es (s.alloc { Future.pending (some kind) cb with active := some th }) := by
    intro kind hk
    exact ⟨h.discipline.alloc
      (Discipline.joins hc hn (fun _ => hk) fun hact => hsh (Option.some.inj hact)),
      h.provenance.alloc rfl htypes hgo, h.handed.alloc rfl⟩
  cases kind with
  | coroutine =>
    cases start with
    | some x => exact h.executeRaised hw th (hstart x rfl rfl)
    | none =>
      cases th with
      | main => exact (idle _).register id s.fresh
      | worker => exact h.executeRaised hw .worker (hloop rfl rfl rfl)
  | thread =>
    cases start with
    | some x => exact h.executeRaised hw th (hstart x rfl rfl)
    | none => exact (idle _).register id s.fresh
  | generator => exact (running _ (Or.inr rfl)).register id s.fresh
  | sync => exact running _ (Or.inl rfl)

theorem receive (h : Accounted env es s) (x : Request × Start) :
    Accounted env es { s with received := s.received ++ [x] } := by
  refine ⟨h.discipline.receive x, h.provenance.congr rfl rfl ?_ fun _ _ _ _ _ _ _ hn => hn,
    h.handed.congr rfl⟩
  intro n q hq
  obtain ⟨hlt, -⟩ := List.getElem?_eq_some_iff.mp hq
  rw [List.getElem?_append_left hlt, hq]

theorem handleRequest (hw : env.BrokenStays) (q : Request) (start : Start)
    (h : Accounted env es s) (htypes : s.resultTypes.get? q.id = none) :
    Accounted env es (s.handleRequest env q start) := by
  have h' := h.receive (q, start)
  obtain ⟨hu, hn⟩ := h.discipline.received_new q start
  have hq : (s.received ++ [(q, start)])[s.received.length]? = some (q, start) := by simp
  unfold State.handleRequest
  split
  · rename_i hnone
    have hs := State.sendException_sends env { s with received := s.received ++ [(q, start)] }
      s.received.length q.id (.jsonRpc (methodNotFound q.method))
    refine ⟨h'.discipline.sends hu hs, h'.provenance.sends hs ?_ ?_, h'.handed.congr hs.futures⟩
    · intro k hk
      rw [sendException_resultTypes]
      exact hk
    · intro a ha
      exact .noHandler hq hnone ha
  · rename_i kind hkind
    refine h'.executeHandler hw q.id kind start hu hn ?_ ?_ ?_ ?_ ?_
    · intro p up f v hcb
      cases hcb
    · intro hth
      cases hth
    · intro id n hcb
      cases hcb
      exact htypes
    · intro x hx hsched
      subst hx
      refine ⟨hu, ⟨q, kind, hq, hkind, hsched⟩, ?_⟩
      intro r p up f hcb
      cases hcb
    · intro _ _ hth
      cases hth

theorem handleNotification (hw : env.BrokenStays) (method : Method) (uuid : Str) (start : Start)
    (h : Accounted env es s) : Accounted env es (s.handleNotification env method uuid start) := by
  have hraise : ∀ x, RaisesFor env es s .checkHandlerResult x := by
    intro x
    refine ⟨trivial, trivial, ?_⟩
    intro r p up f hcb
    cases hcb
  unfold State.handleNotification
  split
  · exact h
  · refine h.executeHandler hw _ _ start trivial ?_ ?_ ?_ ?_ (fun x _ _ => hraise x)
      (fun _ _ _ => hraise _)
    · intro id id' n r f hcb
      cases hcb
    · intro p up f v hcb
      cases hcb
    · intro hth
      cases hth
    · intro id n hcb
      cases hcb

/-- Completing a future from outside its handler: a handler's future only by cancelling it. -/
theorem complete (hw : env.BrokenStays) (th : Thread) (h : Accounted env es s) {r : Ref}
    {f : Future} (hf : s.futures[r]? = some f) (hact : f.active ≠ some .main)
    (hopen : f.isOpen = true) {st : FutureState} {c : Completion}
    (hst : f.handler = none ∨ st = .cancelled ∧ ∀ p up, f.callback = .runGenerator p up →
      f.callback.awaited s.futures = false)
    (hc : (f.settle st).completion = some c) (hdone : (f.settle st).isOpen = false) :
    Accounted env es (State.runCallback env th f.callback c (s.modify r (Future.settle st))) := by
  have hp : Provenance env es (s.modify r (Future.settle st)) := by
    refine h.provenance.modify fun g hg => ?_
    rw [hf] at hg
    cases hg
    refine ⟨rfl, rfl, ?_, nofun, id, ?_, ?_, ?_⟩
    · intro hclosed
      rw [hopen] at hclosed
      cases hclosed
    · intro _ hk _ _
      rcases hst with hnone | ⟨rfl, -⟩
      · rw [show (f.settle st).handler = none from hnone] at hk
        rcases hk with hk | hk <;> cases hk
      · exact Or.inr rfl
    · intro o hk _ hfin
      rcases hst with hnone | ⟨rfl, -⟩
      · exact absurd hnone hk
      · cases hfin
    · intro _ _ _ p up hcb
      rcases hst with hnone | ⟨-, hnot⟩
      · rw [h.discipline.outgoing r f hf hnone] at hcb
        cases hcb
      · exact hnot p up hcb
  have hd := h.discipline.settle hf (fun hmain => absurd hmain hact) hdone
  refine runCallback hw th ⟨hd, hp, h.handed.settle hf nofun hdone ?_⟩
    ⟨⟨r, _, State.getElem?_modify_self hf, rfl, rfl, hc, ?_⟩, ?_⟩
  · intro x hx
    subst hx
    cases hc
    rfl
  · intro id n hcb
    exact h.discipline.unanswered hf hcb (h.discipline.not_called hf hopen)
  · intro id n hcb
    exact h.provenance.untyped r f id n hf hcb (h.discipline.not_called hf hopen)

theorem cancel (hw : env.BrokenStays) (th : Thread) (h : Accounted env es s) {r : Ref}
    (hact : ∀ f, s.futures[r]? = some f → f.active ≠ some .main)
    (hnot : ∀ f p up, s.futures[r]? = some f → f.callback = .runGenerator p up →
      f.isTask = false → f.isPending = true → f.callback.awaited s.futures = false) :
    Accounted env es (State.cancel env th s r) := by
  have hd := h.discipline.cancel env th hact
  unfold State.cancel at hd ⊢
  split
  · exact h
  · rename_i f hf
    split
    · rename_i htask
      split
      · rename_i hopen
        simp only [hf, htask, hopen, if_true] at hd
        refine ⟨hd, h.provenance.modify ?_,
          h.handed.modify (fun _ _ => rfl) (fun _ _ => rfl) (fun _ _ => id) (fun _ _ _ _ => id)⟩
        intro g _
        exact .of_state rfl rfl rfl id id id
      · exact h
    · rename_i htask
      have hnotask : f.isTask = false := by simpa using htask
      split
      · rename_i hpend
        refine h.complete hw th hf (hact f hf) (isOpen_of_isPending hpend)
          (Or.inr ⟨rfl, fun p up hcb => hnot f p up hf hcb hnotask hpend⟩) ?_ rfl
        have hne : f.handler ≠ some .coroutine := by simpa [Future.isTask] using htask
        simp [Future.completion, Future.settle, hne]
      · exact h

theorem handleResponse (hw : env.BrokenStays) (h : Accounted env es s) (hidle : s.mainIdle = true)
    (id : MsgId) (o : Outcome)
    (hout : ∀ (r : Ref) (f : Future), s.requestFutures.get? id = some r → s.futures[r]? = some f →
      f.handler = none) : Accounted env es (s.handleResponse env id o) := by
  have hpop := h.popFuture id
  simp only [State.handleResponse]
  split
  · exact h
  · rename_i r hr
    split
    · exact hpop
    · rename_i f hf
      split
      · exact hpop
      · split
        · rename_i hopen
          exact hpop.complete hw .main hf (Discipline.notMain hidle hf) hopen
            (Or.inl (hout r f hr hf)) rfl rfl
        · exact hpop

theorem sendRequest (h : Accounted env es s) (id : MsgId) (method : Method) (params : PyValue)
    (hsep : ∀ (r : Ref) (f : Future) (n : Nat), s.futures[r]? = some f →
      f.callback = .sendHandlerResult id n → f.called = true) :
    Accounted env es (s.sendRequest env id method params) := by
  have h' : Provenance env es (s.alloc (.pending none .client)) := by
    refine h.provenance.alloc rfl ?_ ?_
    · intro id n hcb
      cases hcb
    · intro p up f v hcb
      cases hcb
  have hset : Provenance env es { s.sendRequest env id method params with sent := s.sent } := by
    have hrec := State.sendRequest_received env s id method params
    refine h'.congr (State.sendRequest_futures env s id method params) rfl
      (fun _ _ hq => hrec.symm ▸ hq) ?_
    intro r f k n hf hcb hnot hn
    rcases State.getElem?_alloc hf with hold | ⟨-, rfl⟩
    · have hne : k ≠ id := by
        intro hk
        subst hk
        rw [hsep r f n hold hcb] at hnot
        cases hnot
      have htypes := State.sendRequest_resultTypes env s id method params
      dsimp only
      rw [htypes, Lib.Dict.get?_set_ne s.resultTypes _ hne]
      exact hn
    · cases hcb
  have hhanded : HandedBut (s.alloc (.pending none .client)) .client .cancelled :=
    h.handed.alloc rfl
  refine ⟨h.discipline.sendRequest env id method params, { hset with justified := ?_ },
    hhanded.congr (State.sendRequest_futures env s id method params)⟩
  intro n k a hm
  have hold := State.mem_sent_sendRequest.mp hm
  exact (hset.justified n k a hold).mono (fun _ he => he) (.refl _) fun _ hq => hq

end AccountedBut

/-- Outgoing requests keep clear of the ids of incoming ones in flight, and a response is to
an outgoing request. -/
def Separate (s : State T) : Event → Prop
  | .request q _ => s.resultTypes.get? q.id = none
  | .response id _ => ∀ (r : Ref) (f : Future), s.requestFutures.get? id = some r →
      s.futures[r]? = some f → f.handler = none
  | .errorResponse id _ => ∀ (r : Ref) (f : Future), s.requestFutures.get? id = some r →
      s.futures[r]? = some f → f.handler = none
  | .sendRequest id _ _ => ∀ (r : Ref) (f : Future) (n : Nat), s.futures[r]? = some f →
      f.callback = .sendHandlerResult id n → f.called = true
  | _ => True

/-- No exception is made up for a request whose answer is still to come: its generator does
not yield to a coroutine on a worker, where `ensure_future` raises, and no `$/cancelRequest`
cancels the handler that its generator waits for. -/
def Truthful (s : State T) : Event → Prop
  | .genYield r _ .coroutine none => ∀ (f : Future), s.futures[r]? = some f →
      f.active = some .worker → (Callback.runGenerator r f.callback).awaited s.futures = false
  | .cancelRequest id => s.shutdown = false → ∀ (r : Ref) (f : Future) (p : Ref) (up : Callback),
      s.requestFutures.get? id = some r → s.futures[r]? = some f →
      f.callback = .runGenerator p up → f.isTask = false → f.isPending = true →
      f.callback.awaited s.futures = false
  | _ => True

/-- The outcome is that of the handler's own code. -/
theorem supports_of_ended {es : List Event} {s : State T} {r : Ref} {up : Callback} {o : Outcome}
    (hnot : s.wasResumed r = false → ¬HasYielded s.futures r) (hstop : o.noStop = true)
    (hend : Ended es r o) : Supports es s r up o := by
  cases o with
  | returned v => exact ⟨hend, hnot⟩
  | raised x => exact ⟨noStop_outcome hstop, fun _ => .own hend⟩

/-- A generator in its first segment has not yielded yet. -/
theorem Discipline.first_alone {s : State T} (h : Discipline s) {r : Ref} {f : Future}
    (hf : s.futures[r]? = some f) (hk : f.handler = some .generator) (hact : f.active ≠ none)
    (hres : (s.leave r).wasResumed r = false) : ¬HasYielded (s.leave r).futures r := by
  intro hyield
  obtain ⟨i, g, up, hg, hcb⟩ :=
    hyield.of_modify (g := fun f => { f with active := none }) fun _ _ => rfl
  have hf' := State.getElem?_leave hf
  rw [wasResumed_eq hf'] at hres
  exact h.firstAlone r f i g up hf hk hact hres hg hcb

theorem awaited_leave {s : State T} {r : Ref} (cb : Callback) :
    cb.awaited (s.leave r).futures = cb.awaited s.futures := by
  induction cb with
  | runGenerator p up ih =>
    have hp : (s.leave r).futures[p]?.all Future.isOpen = s.futures[p]?.all Future.isOpen := by
      rw [State.leave, State.getElem?_modify]
      split
      · cases s.futures[p]? <;> rfl
      · rfl
    simp only [Callback.awaited, hp, ih]
  | _ => rfl

namespace AccountedBut

variable {env : Env T} {es : List Event} {s s' : State T}

theorem syncEnd (hw : env.BrokenStays) (h : Accounted env es s) {r : Ref} {f : Future}
    {th : Thread} {o : Outcome} (hf : s.futures[r]? = some f) (hk : f.handler = some .sync)
    (hact : f.active = some th) (hstop : o.noStop = true) (hend : Ended es r o) :
    Accounted env es (State.syncEnd env s r f.callback th o) := by
  have hf' := State.getElem?_leave hf
  have hl := h.leave r
  unfold State.syncEnd
  split
  · rename_i s' hs
    have hset := hl.settled hf' nofun (fun hact' => absurd rfl hact')
      (supports_of_ended (fun _ => hl.discipline.not_hasYielded hf' (by simp [hk])) hstop hend) hs
    exact hset.1.runCallback hw th hset.2
  · rename_i hnone
    obtain ⟨hcaller, hne⟩ := h.discipline.sync_caller hf hk hact hnone
    have hpend := setOutcome_eq_none hnone hf'
    have hclosed := h.discipline.isOpen_of_not_pending hf (by simp [hk]) hpend
    have hfirm := hl.firm_of_child hf'
    have hres : f.resumed = false := by
      cases hr : f.resumed with
      | false => rfl
      | true =>
        rw [h.discipline.generator r f hf hr] at hk
        cases hk
    refine hl.executeRaised hw th ⟨hcaller, ?_, hfirm⟩
    cases hcb : f.callback with
    | sendHandlerResult id n => exact absurd hcb (hne id n)
    | checkHandlerResult => trivial
    | client => trivial
    | runGenerator p up =>
      refine ⟨rfl, fun hawait => ?_⟩
      have hnot := h.not_awaited_of_first hf (Or.inl hk) (by simp [hact]) hres hclosed hcb
      rw [hcb] at hnot
      rw [awaited_leave, hnot] at hawait
      cases hawait

/-- The generator's own segment ends, or its next `_execute_handler` raises. -/
theorem raises_of_active (h : Accounted env es s) {r : Ref} {f : Future} {th : Thread} {x : PyExc}
    (hf : s.futures[r]? = some f) (hk : f.handler = some .generator) (hact : f.active = some th)
    (hsup : Supports es (s.leave r) r f.callback x.outcome) :
    RaisesFor env es (s.leave r) (.runGenerator r f.callback) x := by
  refine ⟨(h.discipline.caller_of_active hf hk hact).1, hsup, ?_⟩
  intro i p up g hcb hg hclosed hres
  obtain ⟨rfl, hup⟩ := Callback.runGenerator.inj hcb
  have hf' := State.getElem?_leave hf
  rw [hf'] at hg
  cases hg
  rw [awaited_leave, ← hup]
  exact h.not_awaited_of_first hf (Or.inr hk) (by simp [hact]) hres hclosed hup

/-- What a task or a job of the pool does; its handler's code is none of a generator. -/
theorem job (h : Accounted env es s) {r : Ref} {f : Future} {g : Future → Future}
    (hd : Discipline (s.modify r g)) (hf : s.futures[r]? = some f)
    (hk : f.handler = some .coroutine ∨ f.handler = some .thread)
    (hcb : (g f).callback = f.callback) (hhandler : (g f).handler = f.handler)
    (hcalled : (g f).called = f.called) (hres : (g f).resumed = f.resumed)
    (hdone : f.isOpen = false → (g f).state = f.state)
    (hend : ∀ o, f.isOpen = true → (g f).state = .finished o → o.noStop = true ∧ Ended es r o)
    (hcan : f.isOpen = true → (g f).state = .cancelled → f.handler = some .coroutine) :
    Accounted env es (s.modify r g) := by
  have hgen : f.handler ≠ some .generator := by
    intro hgen
    rw [hgen] at hk
    rcases hk with hk | hk <;> cases hk
  have hsync : f.handler ≠ some .sync := by
    intro hsync
    rw [hsync] at hk
    rcases hk with hk | hk <;> cases hk
  have only : ∀ f', s.futures[r]? = some f' → f' = f :=
    fun f' hf' => Option.some.inj (hf'.symm.trans hf)
  refine ⟨hd, h.provenance.modify ?_, h.handed.modify ?_ ?_ ?_ ?_⟩
  · intro f' hf'
    obtain rfl := only f' hf'
    refine ⟨hcb, hhandler, hdone, fun hnot => hcalled ▸ hnot, fun hnot => hres ▸ hnot, ?_, ?_, ?_⟩
    · intro _ hkind
      rw [hhandler] at hkind
      exact (hkind.elim hsync hgen).elim
    · intro o _ hopen hst
      obtain ⟨hstop, hended⟩ := hend o hopen hst
      exact supports_of_ended (fun _ => h.discipline.not_hasYielded hf hgen) hstop hended
    · intro hopen hst hne
      exact absurd (hcan hopen hst) hne
  · intro f' hf'
    obtain rfl := only f' hf'
    exact hcb
  · intro f' hf'
    obtain rfl := only f' hf'
    exact hhandler
  · intro f' hf' hclosed
    obtain rfl := only f' hf'
    exact isOpen_congr (hdone hclosed) ▸ hclosed
  · intro f' x hf' hkind
    obtain rfl := only f' hf'
    exact absurd hkind hgen

theorem step (hw : env.BrokenStays) {e : Event} (h : Accounted env es s) (hstop : e.noStop = true)
    (hsep : Separate s e) (htrue : Truthful s e) (hs : step env s e = some s') :
    Accounted env (es ++ [e]) s' := by
  have hd := h.discipline.step hs
  replace h : Accounted env (es ++ [e]) s :=
    ⟨h.discipline, h.provenance.mono fun x hx => List.mem_append_left _ hx, h.handed⟩
  have hlast : e ∈ es ++ [e] := by simp
  cases step_cases hs with
  | ignored hdown => exact h
  | request hidle hup => exact h.handleRequest hw _ _ hsep
  | notification hidle hup => exact h.handleNotification hw _ _ _
  | @cancelRequest id hidle hup =>
    unfold State.handleCancelNotification
    split
    · exact h
    · rename_i r hr
      exact (h.popFuture id).cancel hw .main (fun f hf => Discipline.notMain hidle hf)
        fun f p up => htrue hup r f p up hr
  | @response id result hidle =>
    have hpop := h.popType id
    simp only [State.receiveResult]
    split
    · exact hpop
    · split
      · exact hpop
      · exact hpop.handleResponse hw hidle id _ hsep
  | @errorResponse id error hidle =>
    unfold State.receiveError
    split
    · exact h
    · split
      · exact h.handleResponse hw hidle id _ hsep
      · exact h.handleResponse hw hidle id _ hsep
  | sendRequest => exact h.sendRequest _ _ _ hsep
  | @cancelOutgoing r f hf hnone =>
    refine h.cancel hw .main (fun f' hf' hact => ?_) fun f' p up hf' hcb => ?_
    · rw [hf] at hf'
      cases hf'
      rcases h.discipline.active r f .main hf hact with hk | hk | ⟨hk, -⟩ <;> rw [hnone] at hk <;>
        cases hk
    · rw [hf] at hf'
      cases hf'
      rw [h.discipline.outgoing r f hf hnone] at hcb
      cases hcb
  | syncEnd hf hk hact => exact h.syncEnd hw hf hk hact hstop ⟨_, hlast, rfl⟩
  | @genYield r f th uuid kind start hf hk hact =>
    obtain ⟨hc, hsh⟩ := h.discipline.caller_of_active hf hk hact
    refine (h.leave _).executeHandler hw _ _ _ hc ?_ ?_ hsh ?_ ?_ ?_
    · intro id id' n i g hcb
      cases hcb
    · intro p up g v hcb hg hres hst
      cases hcb
      have hf' := State.getElem?_leave hf
      rw [hf'] at hg
      cases hg
      rcases h.provenance.first r f hf (Or.inr hk) (by simp [hact]) hres with hpend | hcan
      · rw [Future.isPending, show f.state = _ from hst] at hpend
        cases hpend
      · rw [show f.state = _ from hst] at hcan
        cases hcan
    · intro id n hcb
      cases hcb
    · intro x hx hsched
      subst hx
      refine h.raises_of_active hf hk hact ?_
      have hout := start_noStop hstop
      rw [hout]
      exact ⟨hout, fun _ => .notStarted hlast hsched⟩
    · intro hkind hstart hth
      subst hkind hstart hth
      refine h.raises_of_active hf hk hact ⟨rfl, fun hawait => ?_⟩
      rw [awaited_leave, htrue f hf hact] at hawait
      cases hawait
  | @genEnd r f th o hf hk hact hstop =>
    refine (h.leave _).executeRaised hw _ (h.raises_of_active hf hk hact ?_)
    rw [outcome_sendExc hstop]
    exact supports_of_ended (h.discipline.first_alone hf hk (by simp [hact])) hstop
      ⟨_, hlast, rfl⟩
  | @taskEnd r f o hidle hstop hf hk hpend =>
    refine h.job hd hf (Or.inl hk) rfl rfl rfl rfl ?_ ?_ fun _ _ => hk
    · intro hclosed
      rw [isOpen_of_isPending hpend] at hclosed
      cases hclosed
    · intro o' _ hst
      cases o with
      | none => cases hst
      | some o =>
        cases hst
        exact ⟨hstop, _, hlast, rfl⟩
  | @poolStart r f hf hk hpend =>
    refine h.job hd hf (Or.inr hk) rfl rfl rfl rfl ?_ ?_ ?_
    · intro hclosed
      rw [isOpen_of_isPending hpend] at hclosed
      cases hclosed
    · intro o' _ hst
      cases hst
    · intro _ hst
      cases hst
  | @poolEnd r f th o hf hk hact =>
    refine h.job hd hf (Or.inr hk) rfl rfl rfl rfl ?_ ?_ ?_
    · intro hclosed
      simp only [hclosed, Bool.false_eq_true, if_false]
    · intro o' hopen hst
      simp only [hopen, if_true] at hst
      cases hst
      exact ⟨hstop, _, hlast, rfl⟩
    · intro hopen hst
      simp only [hopen, if_true] at hst
      cases hst
  | @deliver r f th c hf hk hcalled hc hidle =>
    obtain ⟨hd', hready⟩ := h.discipline.called hf hcalled hc
    have hp : Provenance env (es ++ [.deliver r th])
        (s.modify r fun f => { f with called := true }) :=
      h.provenance.modify fun g _ => .of_state rfl rfl rfl (fun hfalse => by cases hfalse) id id
    have hgen : HandedBut (s.modify r fun f => { f with called := true }) .client .cancelled :=
      h.handed.modify (fun _ _ => rfl) (fun _ _ => rfl) (fun _ _ => id) (fun _ _ _ _ => id)
    refine runCallback hw th ⟨hd', hp, hgen.weaken _ _⟩ ⟨hready, ?_⟩
    intro id n hcb
    exact h.provenance.untyped r f id n hf hcb hcalled

end AccountedBut

theorem Accounted.init (env : Env T) : Accounted env [] State.init := by
  have none : ∀ (r : Ref) (f : Future), (State.init : State T).futures[r]? ≠ some f := by
    intro r f
    simp [State.init]
  refine ⟨Discipline.init, ?_, ?_⟩
  · constructor
    case justified =>
      intro n id a hm
      exact absurd hm List.not_mem_nil
    case returned =>
      intro r f v hf
      exact absurd hf (none r f)
    case raised =>
      intro r f x hf
      exact absurd hf (none r f)
    case outcome =>
      intro r f x hf
      exact absurd hf (none r f)
    case cancelled =>
      intro r f p up hf
      exact absurd hf (none r f)
    case first =>
      intro r f hf
      exact absurd hf (none r f)
    case yielded =>
      intro r f v hf
      exact absurd hf (none r f)
    case untyped =>
      intro r f id n hf
      exact absurd hf (none r f)
  · intro i f p up x hf
    exact absurd hf (none i f)

end Pygls
