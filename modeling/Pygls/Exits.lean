import Pygls.Progress

/-!
# No finished request is left unanswered

A handler may also end with a `BaseException` that is no `Exception`: `SystemExit`, or the
`CancelledError` of asyncio in a handler that is no coroutine. No `except` clause of the
protocol stops it. A task and a job of the pool keep it as their exception; the code of a
generator and of a sync handler is off the stack, and nothing settles their future.

What else becomes of the thread that it leaves (a message loop that ends, say) is not
followed: a run may go on as if nothing had been there.
-/

namespace Pygls

set_option autoImplicit false

variable {T : Type}

/-- The protocol, and the tasks and jobs of the pool that have exited. -/
structure Exits (T : Type) where
  protocol : State T
  exited : List Ref

namespace Exits

/-- `exits`: the handler's code ends with such an exception. `deliver` runs the callback of a
future that holds one. -/
inductive Event where
  | protocol (event : Pygls.Event)
  | exits (future : Ref)
  | deliver (future : Ref) (thread : Thread)

def init : Exits T := ⟨State.init, []⟩

/-- What the future of a task or job that has exited holds; its callback is kept from it. -/
def systemExit : Outcome := .raised (.other (text "SystemExit"))

/-- The callback's `future.result()` raises, and nothing in the callback stops it. -/
def letThrough : Callback → State T → State T
  | .sendHandlerResult id _, s => s.popFuture id
  | .checkHandlerResult, s => s
  | .client, s => s
  | .runGenerator _ _, s => s

/-- The protocol's own step does not apply to a future that holds such an exception. -/
def reserved (p : Exits T) : Pygls.Event → Bool
  | .deliver r _ => decide (r ∈ p.exited)
  | _ => false

def step (env : Env T) (p : Exits T) : Event → Option (Exits T)
  | .protocol e =>
    if p.reserved e then none
    else (Pygls.step env p.protocol e).map fun s => { p with protocol := s }
  | .exits r =>
    p.protocol.futures[r]?.bind fun f =>
      match f.handler with
      | some .coroutine =>
        (Pygls.step env p.protocol (.taskEnd r (some systemExit))).map fun s => ⟨s, r :: p.exited⟩
      | some .thread =>
        (Pygls.step env p.protocol (.poolEnd r systemExit)).map fun s => ⟨s, r :: p.exited⟩
      | some .generator => f.active.map fun _ => { p with protocol := p.protocol.leave r }
      | some .sync => f.active.map fun _ => { p with protocol := p.protocol.leave r }
      | none => none
  | .deliver r th =>
    if r ∈ p.exited then
      p.protocol.futures[r]?.bind fun f =>
        (f.deliverable p.protocol.mainIdle th).map fun _ =>
          { p with protocol :=
              letThrough f.callback (p.protocol.modify r fun f => { f with called := true }) }
    else none

/-- The step loses no answer that depends on it: what a handler hands on can be encoded and
taken, and no handler exits that somebody waits for. -/
def Delivers (env : Env T) (p : Exits T) : Event → Prop
  | .protocol e => Pygls.Delivers env p.protocol e
  | .exits r => ∀ f, p.protocol.futures[r]? = some f →
      f.handler = some .sync ∨ f.handler = some .generator → f.isOpen = true →
      f.callback.awaited p.protocol.futures = false
  | .deliver r _ => ∀ f, p.protocol.futures[r]? = some f →
      f.callback.awaited p.protocol.futures = false

/-- What a step that is not the protocol's own can do. -/
inductive Exit (env : Env T) (p : Exits T) (s : State T) : Event → Prop where
  | keeps {r : Ref} {e : Pygls.Event} :
      e = .taskEnd r (some systemExit) ∨ e = .poolEnd r systemExit →
      Pygls.step env p.protocol e = some s → Exit env p s (.exits r)
  | leaves {r : Ref} {f : Future} : p.protocol.futures[r]? = some f →
      f.handler = some .sync ∨ f.handler = some .generator → s = p.protocol.leave r →
      Exit env p s (.exits r)
  | delivers {r : Ref} {f : Future} {th : Thread} {c : Completion} :
      p.protocol.futures[r]? = some f → f.called = false → f.completion = some c →
      s = letThrough f.callback (p.protocol.modify r fun f => { f with called := true }) →
      Exit env p s (.deliver r th)

theorem step_cases {env : Env T} {p p' : Exits T} {e : Event} (h : step env p e = some p') :
    (∃ pe, e = .protocol pe ∧ Pygls.step env p.protocol pe = some p'.protocol) ∨
      Exit env p p'.protocol e := by
  cases e with
  | protocol e =>
    simp only [step] at h
    split at h
    · cases h
    · obtain ⟨s, hs, rfl⟩ := Option.map_eq_some_iff.mp h
      exact Or.inl ⟨e, rfl, hs⟩
  | exits r =>
    obtain ⟨f, hf, h⟩ := Option.bind_eq_some_iff.mp h
    right
    cases hk : f.handler with
    | none =>
      rw [hk] at h
      cases h
    | some kind =>
      rw [hk] at h
      cases kind with
      | coroutine =>
        obtain ⟨s, hs, rfl⟩ := Option.map_eq_some_iff.mp h
        exact .keeps (Or.inl rfl) hs
      | thread =>
        obtain ⟨s, hs, rfl⟩ := Option.map_eq_some_iff.mp h
        exact .keeps (Or.inr rfl) hs
      | generator =>
        obtain ⟨th, -, rfl⟩ := Option.map_eq_some_iff.mp h
        exact .leaves hf (Or.inr hk) rfl
      | sync =>
        obtain ⟨th, -, rfl⟩ := Option.map_eq_some_iff.mp h
        exact .leaves hf (Or.inl hk) rfl
  | deliver r th =>
    simp only [step] at h
    split at h
    · obtain ⟨f, hf, h⟩ := Option.bind_eq_some_iff.mp h
      obtain ⟨c, hc, rfl⟩ := Option.map_eq_some_iff.mp h
      obtain ⟨-, hcalled, hcomp, -⟩ := deliverable_eq_some hc
      exact Or.inr (.delivers hf hcalled hcomp rfl)
    · cases h

/-- Only the tables are touched. -/
theorem letThrough_frame (cb : Callback) (s : State T) :
    (letThrough cb s).futures = s.futures ∧ (letThrough cb s).received = s.received ∧
      (letThrough cb s).sent = s.sent := by
  cases cb <;> exact ⟨rfl, rfl, rfl⟩

theorem leave_progress {s : State T} (hp : Progress s) {r : Ref} {f : Future}
    (hf : s.futures[r]? = some f) (hk : f.handler = some .sync ∨ f.handler = some .generator)
    (hnot : f.isOpen = true → f.callback.awaited s.futures = false) : Progress (s.leave r) := by
  refine hp.modify (fun _ _ => rfl) (fun _ _ => rfl) (fun _ _ => rfl) (fun _ _ _ => rfl) ?_
    (fun _ _ _ _ ho => ho)
  intro g hg hw hc _ _
  rw [hf] at hg
  cases hg
  rw [hnot (hp.isOpen_of_not_called hf hk hc)] at hw
  cases hw

theorem step_progress {env : Env T} (hacc : ∀ k, env.write k = .accepted) {p p' : Exits T}
    {e : Event} (hd : Discipline p.protocol) (hp : Progress p.protocol) (hok : Delivers env p e)
    (hs : step env p e = some p') : Discipline p'.protocol ∧ Progress p'.protocol := by
  rcases step_cases hs with ⟨pe, rfl, hstep⟩ | hexit
  · exact ⟨hd.step hstep, Pygls.step_progress hacc hd hp hok hstep⟩
  · cases hexit with
    | keeps he hstep =>
      refine ⟨hd.step hstep, Pygls.step_progress hacc hd hp ?_ hstep⟩
      rcases he with rfl | rfl <;> trivial
    | leaves hf hk heq =>
      rw [heq]
      exact ⟨hd.leave _, leave_progress hp hf hk (hok _ hf hk)⟩
    | @delivers r f th c hf hcalled hc heq =>
      have hle : HeapLe p.protocol.futures
          (p.protocol.modify r fun f => { f with called := true }).futures :=
        heapLe_modify fun _ _ => ⟨rfl, fun _ => rfl⟩
      have hself := State.getElem?_modify_self (g := fun f => { f with called := true }) hf
      obtain ⟨hd', -⟩ := hd.called hf hcalled hc
      have hcall :
          ProgressBut (p.protocol.modify r fun f => { f with called := true }) f.callback := by
        refine hp.call hf rfl rfl (fun _ => rfl) ?_ ?_
        · intro id n heq
          cases heq
        · intro q up heq
          cases heq
      have hprogress : Progress (p.protocol.modify r fun f => { f with called := true }) := by
        refine hcall.abandon hd' hself rfl ?_
        cases hw : f.callback.awaited
            (p.protocol.modify r fun f => { f with called := true }).futures with
        | false => rfl
        | true => exact (Callback.awaited_antitone hle hw).symm.trans (hok f hf)
      obtain ⟨hfut, hrec, hsent⟩ := letThrough_frame f.callback
        (p.protocol.modify r fun f => { f with called := true })
      rw [heq]
      refine ⟨hd'.congr hfut hrec hsent, hprogress.congr hfut hrec ?_⟩
      rintro n ⟨id, a, hm⟩
      exact ⟨id, a, hsent ▸ hm⟩

end Exits

theorem progress_of_run {env : Env T} (hacc : ∀ k, env.write k = .accepted) {es : List Exits.Event}
    {p : Exits T} (hok : Lib.Meets (Exits.step env) (Exits.Delivers env) Exits.init es)
    (hrun : Lib.run (Exits.step env) Exits.init es = some p) :
    Discipline p.protocol ∧ Progress p.protocol :=
  Lib.run_invariant (I := fun p => Discipline p.protocol ∧ Progress p.protocol)
    (fun _ _ _ h hok hs => Exits.step_progress hacc h.1 h.2 hok hs)
    ⟨Discipline.init, Progress.init⟩ hok hrun

/-- In every run in which no step loses an answer, a request has its answer once nothing is
at work on it any more. -/
theorem finished_request_is_answered {env : Env T} (hacc : ∀ k, env.write k = .accepted)
    {es : List Exits.Event} {p : Exits T}
    (hok : Lib.Meets (Exits.step env) (Exits.Delivers env) Exits.init es)
    (hrun : Lib.run (Exits.step env) Exits.init es = some p) (n : Nat) (q : Request × Start)
    (hq : p.protocol.received[n]? = some q)
    (hended : ∀ (r : Ref) (f : Future), p.protocol.futures[r]? = some f →
      f.callback.request = some n → ¬f.AtWork) :
    ∃ a, Message.response n q.1.id a ∈ p.protocol.sent := by
  obtain ⟨hd, hp⟩ := progress_of_run hacc hok hrun
  obtain ⟨hlt, -⟩ := List.getElem?_eq_some_iff.mp hq
  rcases hp.answered n hlt (by simp) with ⟨id, a, hm⟩ | ⟨r, f, id, hf, hcb, hc⟩
  · obtain ⟨q', hq', hid⟩ := hd.answeredId n id a hm
    rw [hq] at hq'
    cases hq'
    exact ⟨a, hid ▸ hm⟩
  · have hw : f.callback.awaited p.protocol.futures = true := by rw [hcb]; rfl
    obtain ⟨i, g, hg, hreq, hwork⟩ := atWork_of_not_called hd hp hf hw hc
    rw [hcb] at hreq
    exact absurd hwork (hended i g hg hreq)

/-- A notification's handler exits, for which nobody waits; a request's handler returns. -/
def sampleExitedNotification : List Exits.Event :=
  [.protocol (.notification [] [7] none), .exits 0, .protocol (.request ⟨.int 1, [], .null⟩ none),
    .protocol (.genEnd 1 (.returned (.bool true)))]

theorem finished_request_is_answered_exited :
    ∃ p, Lib.run (Exits.step sampleEnv) Exits.init sampleExitedNotification = some p ∧
      ∃ a, Message.response 0 (.int 1) a ∈ p.protocol.sent := by
  have hok : Lib.Meets (Exits.step sampleEnv) (Exits.Delivers sampleEnv) Exits.init
      sampleExitedNotification := by
    refine Lib.meets_cons rfl trivial (Lib.meets_cons rfl ?_ (Lib.meets_cons rfl ?_
      (Lib.meets_cons rfl ?_ trivial)))
    · intro f hf _ _
      cases hf
      rfl
    · intro _ x kind hx
      cases hx
    · intro f hf _
      cases hf
      intro hnone
      cases hnone
  refine ⟨_, rfl, finished_request_is_answered (fun _ => rfl) hok rfl 0 _ rfl ?_⟩
  intro r f hf hreq hwork
  match r, hf with
  | 0, hf =>
    cases hf
    cases hreq
  | 1, hf =>
    cases hf
    rcases hwork with hact | ⟨hk | hk, -⟩
    · exact hact rfl
    · cases hk
    · cases hk

/-- A server whose handlers all run on the pool. -/
def sampleThreadedEnv : Env Unit :=
  { sampleEnv with fm := ⟨fun _ => none, fun _ => some .thread⟩ }

/-- A result that `json.dumps` refuses, a task that a generator has yielded to and that ends
cancelled, and a threaded handler that exits: in each run the handler's work is over and
nothing has been written. -/
theorem finished_requests_left_unanswered :
    (∃ p, Lib.run (Exits.step sampleEnv) Exits.init
        [.protocol (.request ⟨.int 1, [], .null⟩ none),
          .protocol (.genEnd 0 (.returned .raising))] = some p ∧
      p.protocol.received.length = 1 ∧ (∀ f ∈ p.protocol.futures, ¬f.AtWork) ∧
      p.protocol.sent = []) ∧
    (∃ p, Lib.run (Exits.step sampleEnv) Exits.init
        [.protocol (.request ⟨.int 1, [], .null⟩ none),
          .protocol (.genYield 0 [] .coroutine none), .protocol (.taskEnd 1 none),
          .protocol (.deliver 1 .main)] = some p ∧
      p.protocol.received.length = 1 ∧ (∀ f ∈ p.protocol.futures, ¬f.AtWork) ∧
      p.protocol.sent = []) ∧
    (∃ p, Lib.run (Exits.step sampleThreadedEnv) Exits.init
        [.protocol (.request ⟨.int 1, [], .null⟩ none), .protocol (.poolStart 0), .exits 0,
          .deliver 0 .worker] = some p ∧
      p.protocol.received.length = 1 ∧ (∀ f ∈ p.protocol.futures, ¬f.AtWork) ∧
      p.protocol.sent = []) := by
  exact ⟨⟨_, rfl, rfl, by decide, rfl⟩, ⟨_, rfl, rfl, by decide, rfl⟩, ⟨_, rfl, rfl, by decide, rfl⟩⟩

end Pygls
