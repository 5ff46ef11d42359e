import Pygls.Provenance

/-!
# Every answer has its reason

Along a run whose steps make up no exception, every answer has its reason; and
two runs in which one was made up.
-/

namespace Pygls

set_option autoImplicit false

variable {T : Type}

/-- What a handler may do, and what the ids of the two directions have to do with each other. -/
def Orderly (s : State T) (e : Event) : Prop := e.noStop = true ∧ Separate s e

theorem accounted_of_run {env : Env T} (hw : env.BrokenStays) {es : List Event} {s : State T}
    (hok : Lib.Meets (step env) (fun s e => Orderly s e ∧ Truthful s e) State.init es)
    (hrun : Lib.run (step env) State.init es = some s) : Accounted env es s := by
  refine Lib.run_history (I := fun past s => Accounted env past s) ?_ [] (.init env) hok hrun
  intro past s e t h hok hs
  exact h.step hw hok.1.1 hok.1.2 hok.2 hs

theorem answer_result {cls : Option T} {j : Json} {env : Env T} {v : PyValue}
    (h : env.answer none v = some (.result cls j)) : cls = none ∧ Json.toJson v = some j := by
  obtain ⟨j', hj, heq⟩ := Option.map_eq_some_iff.mp h
  cases heq
  exact ⟨rfl, hj⟩

theorem answer_error {error : ResponseError} {a : Answer T} (h : error.answer = some a) :
    ∃ d, Json.toJson error.data = some d ∧ a = .error error.code error.message d := by
  obtain ⟨d, hd, heq⟩ := Option.map_eq_some_iff.mp h
  exact ⟨d, hd, heq.symm⟩

/-- In every run whose steps make up no exception, whatever the order of requests,
cancellations and completions: no request is answered twice; an answer carries its request's
id; a result is what the handler returned; an error is the handler's exception under its own
code or -32603, or -32601 for a method without handler, or -32800 for a future that was
cancelled. -/
theorem at_most_one_answer_of_the_right_kind {env : Env T} (hw : env.BrokenStays)
    {es : List Event} {s : State T}
    (hok : Lib.Meets (step env) (fun s e => Orderly s e ∧ Truthful s e) State.init es)
    (hrun : Lib.run (step env) State.init es = some s) :
    (s.sent.filterMap answeredRequest).Nodup ∧
    (∀ n id a, Message.response n id a ∈ s.sent → ∃ q, s.received[n]? = some q ∧ q.1.id = id) ∧
    (∀ n id cls j, Message.response n id (.result cls j) ∈ s.sent →
      cls = none ∧ ∃ r v, HandlerOf s n id r ∧ Ended es r (.returned v) ∧ Json.toJson v = some j) ∧
    (∀ n id code message d, Message.response n id (.error code message d) ∈ s.sent →
      (∃ y, RequestRaised env es s n id (.jsonRpc y) ∧ code = y.code) ∨
      (∃ x, RequestRaised env es s n id x ∧ (∀ y, x ≠ .jsonRpc y) ∧ code = -32603) ∨
      (∃ q, s.received[n]? = some q ∧ env.fm.getHandler q.1.method = none ∧ code = -32601) ∨
      (∃ (r : Ref) (f : Future), s.futures[r]? = some f ∧ f.callback = .sendHandlerResult id n ∧
        f.state = .cancelled ∧ code = -32800)) := by
  have h := accounted_of_run hw hok hrun
  refine ⟨h.discipline.atMostOnce, h.discipline.answeredId, ?_, ?_⟩
  · intro n id cls j hm
    cases h.provenance.justified n id _ hm with
    | result hh hend ha =>
      obtain ⟨hcls, hj⟩ := answer_result ha
      exact ⟨hcls, _, _, hh, hend, hj⟩
    | raised hx ha =>
      obtain ⟨d, -, heq⟩ := answer_error ha
      cases heq
    | noHandler hq hnone ha =>
      obtain ⟨d, -, heq⟩ := answer_error ha
      cases heq
    | cancelled hf hcb hst ha =>
      obtain ⟨d, -, heq⟩ := answer_error ha
      cases heq
  · intro n id code message d hm
    cases h.provenance.justified n id _ hm with
    | result hh hend ha =>
      obtain ⟨j, -, heq⟩ := Option.map_eq_some_iff.mp ha
      cases heq
    | @raised x _ hx ha =>
      obtain ⟨d, -, heq⟩ := answer_error ha
      cases heq
      by_cases hj : ∃ y, x = .jsonRpc y
      · obtain ⟨y, rfl⟩ := hj
        exact Or.inl ⟨y, hx, rfl⟩
      · have hne : ∀ y, x ≠ .jsonRpc y := fun y hy => hj ⟨y, hy⟩
        exact Or.inr (Or.inl ⟨x, hx, hne, toResponseError_code env.traceback hne⟩)
    | noHandler hq hnone ha =>
      obtain ⟨d, -, heq⟩ := answer_error ha
      cases heq
      exact Or.inr (Or.inr (Or.inl ⟨_, hq, hnone, rfl⟩))
    | cancelled hf hcb hst ha =>
      obtain ⟨d, -, heq⟩ := answer_error ha
      cases heq
      exact Or.inr (Or.inr (Or.inr ⟨_, _, hf, hcb, hst, rfl⟩))

/-- The first request's generator yields to a threaded handler that raises code 7; the
second's method is unknown; the third is cancelled while it waits for a coroutine. -/
def sampleEvents : List Event :=
  [.request ⟨.int 1, [], .null⟩ none, .genYield 0 [] .thread none, .poolStart 1,
    .request ⟨.int 2, [0], .null⟩ none, .request ⟨.int 3, [], .null⟩ none,
    .genYield 2 [] .coroutine none, .cancelRequest (.int 3),
    .poolEnd 1 (.raised (.jsonRpc ⟨.jsonRpcException, 7, [], .none⟩)), .deliver 1 .worker]

theorem at_most_one_answer_of_the_right_kind_sample :
    ∃ s, Lib.run (step sampleEnv) State.init sampleEvents = some s ∧
      s.sent.filterMap answeredRequest = [1, 2, 0] ∧
      (s.sent.filterMap answeredRequest).Nodup := by
  have hok : Lib.Meets (step sampleEnv) (fun s e => Orderly s e ∧ Truthful s e) State.init
      sampleEvents := by
    unfold sampleEvents
    iterate 5 refine Lib.meets_cons rfl ⟨⟨rfl, by first | rfl | trivial⟩, trivial⟩ ?_
    refine Lib.meets_cons rfl ⟨⟨rfl, trivial⟩, ?_⟩ ?_
    · intro f hf hact
      cases hf
      cases hact
    refine Lib.meets_cons rfl ⟨⟨rfl, trivial⟩, ?_⟩ ?_
    · intro _ r f p up hr hf hcb
      cases hr
      cases hf
      cases hcb
    iterate 2 refine Lib.meets_cons rfl ⟨⟨rfl, trivial⟩, trivial⟩ ?_
    trivial
  have hw : sampleEnv.BrokenStays := fun n h => nomatch h
  exact ⟨_, rfl, rfl, (at_most_one_answer_of_the_right_kind hw hok rfl).1⟩

/-- A handler raises in the event, or calling one does. -/
def Event.raises (e : Event) : Bool :=
  match e with
  | .genYield _ _ _ start => start.isSome
  | e =>
    match e.ended with
    | some (_, .raised _) => true
    | _ => false

theorem not_raised {es : List Event} {fs : List Future} {r : Ref} {x : PyExc}
    (hes : ∀ e ∈ es, e.raises = false) : ¬Raised es fs r x := by
  intro h
  induction h with
  | own hend =>
    obtain ⟨e, he, hend⟩ := hend
    have hnot := hes e he
    unfold Event.raises at hnot
    split at hnot
    · cases hend
    · rw [hend] at hnot
      cases hnot
  | notStarted hm _ => exact absurd (hes _ hm) (by simp [Event.raises])
  | yielded _ _ _ ih => exact ih

/-- A generator yields to a threaded handler, which returns, and then to a coroutine. -/
def sampleResumedOnWorker : List Event :=
  [.request ⟨.int 1, [], .null⟩ none, .genYield 0 [1] .thread none, .poolStart 1,
    .poolEnd 1 (.returned .none), .deliver 1 .worker, .genYield 0 [2] .coroutine none]

/-- A generator yields to a threaded handler, whose future a `$/cancelRequest` names. -/
def sampleUuidCancelled : List Event :=
  [.request ⟨.int 1, [], .null⟩ none, .genYield 0 [1] .thread none, .cancelRequest (.str [1])]

/-- The first request has a handler, which raised nothing; its future was not cancelled; and
yet its answer is an error with code -32603. -/
def AnsweredWithoutCause (es : List Event) (s : State Unit) : Prop :=
  (∃ message d, s.sent = [.response 0 (.int 1) (.error (-32603) message d)]) ∧
  (∀ q, s.received[0]? = some q → sampleEnv.fm.getHandler q.1.method ≠ none) ∧
  (∀ x, ¬RequestRaised sampleEnv es s 0 (.int 1) x) ∧
  ∀ (r : Ref) (f : Future), s.futures[r]? = some f → f.callback = .sendHandlerResult (.int 1) 0 →
    f.state ≠ .cancelled

theorem errors_that_nothing_raised :
    (∃ s, Lib.Meets (step sampleEnv) Orderly State.init sampleResumedOnWorker ∧
      Lib.run (step sampleEnv) State.init sampleResumedOnWorker = some s ∧
      AnsweredWithoutCause sampleResumedOnWorker s) ∧
    (∃ s, Lib.Meets (step sampleEnv) Orderly State.init sampleUuidCancelled ∧
      Lib.run (step sampleEnv) State.init sampleUuidCancelled = some s ∧
      AnsweredWithoutCause sampleUuidCancelled s) := by
  constructor
  · refine ⟨_, ?_, rfl, ⟨_, _, rfl⟩, ?_, ?_, ?_⟩
    · unfold sampleResumedOnWorker
      iterate 6 refine Lib.meets_cons rfl ⟨rfl, by first | rfl | trivial⟩ ?_
      trivial
    · intro q hq
      cases hq
      simp [sampleEnv, FeatureManager.getHandler]
    · rintro x (⟨r, -, hr⟩ | ⟨q, kind, hq, -⟩)
      · exact not_raised (by decide) hr
      · cases hq
    · intro r f hf hcb hst
      match r, hf with
      | 0, hf =>
        cases hf
        cases hst
      | 1, hf =>
        cases hf
        cases hcb
  · refine ⟨_, ?_, rfl, ⟨_, _, rfl⟩, ?_, ?_, ?_⟩
    · unfold sampleUuidCancelled
      iterate 3 refine Lib.meets_cons rfl ⟨rfl, by first | rfl | trivial⟩ ?_
      trivial
    · intro q hq
      cases hq
      simp [sampleEnv, FeatureManager.getHandler]
    · rintro x (⟨r, -, hr⟩ | ⟨q, kind, hq, -⟩)
      · exact not_raised (by decide) hr
      · cases hq
    · intro r f hf hcb hst
      match r, hf with
      | 0, hf =>
        cases hf
        cases hst
      | 1, hf =>
        cases hf
        cases hcb

end Pygls
