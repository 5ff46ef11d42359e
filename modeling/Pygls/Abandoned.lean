import Pygls.Yielded

/-!
# Cancelled generators

`_run_generator` does nothing for a result future that has been cancelled. A generator that
waits at that time is left where it is, whatever becomes of the handler it waits for, and one
whose code is on a stack runs up to its next `yield`.
-/

namespace Pygls

set_option autoImplicit false

variable {T : Type}

/-- The future of a generator that has been cancelled. -/
structure CancelledAs (s : State T) (r : Ref) (f : Future) : Prop where
  future : s.futures[r]? = some f
  handler : f.handler = some .generator
  cancelled : f.isCancelled = true

/-- The generator of `r` has yielded to the handler of `i`. -/
def YieldedTo (s : State T) (r i : Ref) : Prop :=
  ∃ f up, s.futures[i]? = some f ∧ f.callback = .runGenerator r up

/-- In the step a segment of the generator's own code ends. -/
def EndsSegment (r : Ref) : LanguageServer.Event → Prop
  | .shutdown i => i = r
  | .protocol (.genYield i _ _ _) => i = r
  | .protocol (.genEnd i _) => i = r
  | _ => False

theorem not_open_of_isCancelled {f : Future} (h : f.isCancelled = true) : f.isOpen = false := by
  unfold Future.isCancelled at h
  unfold Future.isOpen
  split at h
  · rename_i hst
    rw [hst]
  · cases h

namespace CancelledAs

variable {env : Env T} {th : Thread} {s t : State T} {r : Ref} {f : Future}

theorem congr (h : CancelledAs s r f) (hs : t.futures = s.futures) : CancelledAs t r f := by
  refine ⟨?_, h.handler, h.cancelled⟩
  rw [hs]
  exact h.future

theorem modify (h : CancelledAs s r f) {i : Ref} {g : Future → Future} (hi : i ≠ r) :
    CancelledAs (s.modify i g) r f := by
  refine ⟨?_, h.handler, h.cancelled⟩
  rw [State.getElem?_modify_ne hi.symm]
  exact h.future

/-- Another future is at the index where one is open. -/
theorem ne_of_open (h : CancelledAs s r f) {i : Ref} {g : Future} (hg : s.futures[i]? = some g)
    (hopen : g.isOpen = true) : i ≠ r := by
  rintro rfl
  rw [h.future] at hg
  cases hg
  rw [not_open_of_isCancelled h.cancelled] at hopen
  cases hopen

theorem ne_of_kind (h : CancelledAs s r f) {i : Ref} {g : Future} (hg : s.futures[i]? = some g)
    (hk : g.handler ≠ some .generator) : i ≠ r := by
  rintro rfl
  rw [h.future] at hg
  cases hg
  exact hk h.handler

theorem setOutcome (h : CancelledAs s r f) {i : Ref} {o : Outcome}
    (hs : s.setOutcome i o = some t) : CancelledAs t r f := by
  obtain ⟨g, hg, hpend, rfl⟩ := setOutcome_eq_some hs
  exact h.modify (h.ne_of_open hg (isOpen_of_isPending hpend))

/-- `_run_generator` returns at once for this future, and resumes only others. -/
theorem runCallback (h : CancelledAs s r f) (cb : Callback) (c : Completion) :
    CancelledAs (State.runCallback env th cb c s) r f := by
  refine runCallback_ind (I := fun t => CancelledAs t r f) (R := fun t _ _ => CancelledAs t r f)
    ?_ ?_ ?_ ?_ ?_ ?_ ?_ ?_ cb c s h
  · intro t id n c ht
    exact ht.congr (State.sendHandlerResult_sends env t id n c).futures
  · intro t c ht
    exact ht
  · intro t c ht
    exact ht
  · intro t i up c ht _
    exact ht
  · intro t i up c ht _ _
    exact ht
  · intro t i up c v ht hnot _
    apply ht.modify
    rintro rfl
    simp [State.cancelled, ht.future, ht.cancelled] at hnot
  · intro t i up c x ht _ _ _
    exact ht
  · intro t t' i up c x ht _ _ hs
    exact ht.setOutcome hs

theorem executeRaised (h : CancelledAs s r f) (cb : Callback) (x : PyExc) :
    CancelledAs (State.executeRaised env th cb x s) r f := by
  refine executeRaised_ind (I := fun t => CancelledAs t r f) (R := fun t _ _ => CancelledAs t r f)
    (P := fun t _ _ => CancelledAs t r f) ?_ ?_ ?_ ?_ ?_ ?_ ?_ cb x s h
  · intro cb c t ht
    exact ht.runCallback cb c
  · intro t id n x ht
    exact ht.congr (State.sendException_sends env t n id x).futures
  · intro t x ht
    exact ht
  · intro t x ht
    exact ht
  · intro t t' i up x ht hs
    exact ht.setOutcome hs
  · intro t i up x ht _ _
    exact ht
  · intro t i up x ht _ _
    exact ht

theorem alloc (h : CancelledAs s r f) (g : Future) : CancelledAs (s.alloc g) r f := by
  refine ⟨?_, h.handler, h.cancelled⟩
  exact Discipline.getElem?_alloc_of_some h.future

theorem executeHandler (h : CancelledAs s r f) (id : MsgId) (kind : HandlerKind) (cb : Callback)
    (start : Start) : CancelledAs (State.executeHandler env th id kind cb start s) r f := by
  cases kind with
  | coroutine =>
    cases start with
    | some x => exact h.executeRaised cb x
    | none =>
      cases th with
      | main => exact (h.alloc _).congr rfl
      | worker => exact h.executeRaised cb .runtimeError
  | thread =>
    cases start with
    | some x => exact h.executeRaised cb x
    | none => exact (h.alloc _).congr rfl
  | generator => exact (h.alloc _).congr rfl
  | sync => exact h.alloc _

theorem cancel (h : CancelledAs s r f) (i : Ref) : CancelledAs (State.cancel env th s i) r f := by
  unfold State.cancel
  split
  · exact h
  · rename_i g hg
    split
    · split
      · rename_i hopen
        exact h.modify (h.ne_of_open hg hopen)
      · exact h
    · split
      · rename_i hpend
        have hi := h.ne_of_open hg (isOpen_of_isPending hpend)
        exact (h.modify hi).runCallback g.callback .cancelled
      · exact h

theorem cancelOthers (h : CancelledAs s r f) (env : Env T) (th : Thread) (current : Option MsgId)
    (size : Nat) (entries : List (MsgId × Ref)) :
    CancelledAs (State.cancelOthers env th current size entries s).1 r f := by
  induction entries generalizing s with
  | nil => exact h
  | cons entry rest ih =>
    rw [State.cancelOthers]
    split
    · split
      · exact ih (h.cancel entry.2)
      · exact ih h
    · exact h

theorem handleResponse (h : CancelledAs s r f) (id : MsgId) (o : Outcome) :
    CancelledAs (s.handleResponse env id o) r f := by
  simp only [State.handleResponse]
  split
  · exact h
  · have hpop (id : MsgId) : CancelledAs (s.popFuture id) r f := h.congr rfl
    split
    · exact hpop id
    · rename_i g hg
      split
      · exact hpop id
      · split
        · rename_i hopen
          exact ((hpop id).modify (h.ne_of_open hg hopen)).runCallback g.callback (.finished o)
        · exact hpop id

theorem syncEnd (h : CancelledAs s r f) {i : Ref} (hi : i ≠ r) (cb : Callback) (o : Outcome) :
    CancelledAs (State.syncEnd env s i cb th o) r f := by
  have hleave : CancelledAs (s.leave i) r f := h.modify hi
  unfold State.syncEnd
  split
  · rename_i u hset
    exact (hleave.setOutcome hset).runCallback cb (.finished o)
  · exact hleave.executeRaised cb .invalidStateError

theorem shutdownEnd (h : CancelledAs s r f) {i : Ref} {g : Future} (cb : Callback)
    (hleave : ∀ u : State T, CancelledAs u r f → CancelledAs (u.leave i) r g) :
    CancelledAs (s.shutdownEnd env i cb th) r g := by
  have hloop := h.cancelOthers env th (cb.msgId th) s.requestFutures.size
    s.requestFutures.entries
  simp only [State.shutdownEnd]
  split
  · apply executeRaised
    apply hleave
    exact hloop.congr rfl
  · exact (hleave _ hloop).executeRaised _ _

/-- A segment that is over leaves the stack, and what follows it does not matter. -/
theorem leave (h : CancelledAs s r f) : CancelledAs (s.leave r) r { f with active := none } :=
  ⟨State.getElem?_modify_self h.future, h.handler, h.cancelled⟩

/-- The steps that are not the generator's own leave its future alone. -/
theorem step {e : LanguageServer.Event} (h : CancelledAs s r f) (hown : ¬EndsSegment r e)
    (hs : LanguageServer.step env s e = some t) : CancelledAs t r f := by
  cases e with
  | shutdown i =>
    obtain ⟨g, id, n, th, -, -, -, -, rfl⟩ := LanguageServer.shutdown_cases hs
    exact h.shutdownEnd _ fun u hu => hu.modify hown
  | protocol e =>
    cases step_cases hs with
    | ignored => exact h
    | @request q start =>
      have hq : CancelledAs { s with received := s.received ++ [(q, start)] } r f := h.congr rfl
      simp only [State.handleRequest]
      split
      · exact hq.congr (State.sendException_sends env _ _ _ _).futures
      · exact hq.executeHandler _ _ _ start
    | notification =>
      unfold State.handleNotification
      split
      · exact h
      · exact h.executeHandler _ _ _ _
    | @cancelRequest id =>
      unfold State.handleCancelNotification
      split
      · exact h
      · have hpop : CancelledAs (s.popFuture id) r f := h.congr rfl
        exact hpop.cancel _
    | @response id result =>
      have hpop : CancelledAs (s.popType id) r f := h.congr rfl
      simp only [State.receiveResult]
      split
      · exact hpop
      · split
        · exact hpop
        · exact hpop.handleResponse id _
    | errorResponse =>
      unfold State.receiveError
      split
      · exact h
      · split
        · exact h.handleResponse _ _
        · exact h.handleResponse _ _
    | @sendRequest id method params =>
      have hfutures := State.sendRequest_futures env s id method params
      exact (h.alloc (.pending none .client)).congr hfutures
    | cancelOutgoing => exact h.cancel _
    | syncEnd hg hk =>
      apply h.syncEnd
      apply h.ne_of_kind hg
      rw [hk]
      simp
    | @genYield i g th uuid kind start =>
      have hi : i ≠ r := hown
      have hleave : CancelledAs (s.leave i) r f := h.modify hi
      exact hleave.executeHandler (.str uuid) kind _ start
    | @genEnd i g th o =>
      have hi : i ≠ r := hown
      have hleave : CancelledAs (s.leave i) r f := h.modify hi
      exact hleave.executeRaised _ _
    | taskEnd _ _ hg hk =>
      apply h.modify
      apply h.ne_of_kind hg
      rw [hk]
      simp
    | poolStart hg hk =>
      apply h.modify
      apply h.ne_of_kind hg
      rw [hk]
      simp
    | poolEnd hg hk =>
      apply h.modify
      apply h.ne_of_kind hg
      rw [hk]
      simp
    | @deliver i g th c hg hk =>
      have hi : i ≠ r := by
        apply h.ne_of_kind hg
        rcases hk with hk | hk
        · rw [hk]
          simp
        · rw [hk]
          simp
      exact (h.modify hi).runCallback g.callback c

theorem segment {e : LanguageServer.Event} (h : CancelledAs s r f) (hown : EndsSegment r e)
    (hs : LanguageServer.step env s e = some t) :
    f.active ≠ none ∧ CancelledAs t r { f with active := none } := by
  have running : ∀ {i : Ref} {g : Future} {th : Thread}, i = r → s.futures[i]? = some g →
      g.active = some th → f.active ≠ none := by
    rintro i g th rfl hg hact
    rw [h.future] at hg
    cases hg
    rw [hact]
    simp
  cases e with
  | shutdown i =>
    obtain ⟨g, id, n, th, hg, -, hact, -, rfl⟩ := LanguageServer.shutdown_cases hs
    refine ⟨running hown hg hact, ?_⟩
    obtain rfl : i = r := hown
    exact h.shutdownEnd _ fun u hu => hu.leave
  | protocol e =>
    cases step_cases hs with
    | genYield hg hk hact =>
      refine ⟨running hown hg hact, ?_⟩
      obtain rfl := hown
      exact h.leave.executeHandler _ _ _ _
    | genEnd hg hk hact =>
      refine ⟨running hown hg hact, ?_⟩
      obtain rfl := hown
      exact h.leave.executeRaised _ _
    | @ignored e _ hrefuse =>
      exfalso
      cases e with
      | genYield => cases hrefuse
      | genEnd => cases hrefuse
      | _ => cases hown
    | _ => cases hown

end CancelledAs

section Yields

variable {env : Env T} {s t : State T} {r i : Ref}

theorem executeHandler_length (env : Env T) (th : Thread) (id : MsgId) (kind : HandlerKind)
    (cb : Callback) (start : Start) (s : State T) :
    (State.executeHandler env th id kind cb start s).futures.length ≤ s.futures.length + 1 := by
  have raised : ∀ x, (State.executeRaised env th cb x s).futures.length ≤ s.futures.length + 1 := by
    intro x
    have hlen := congrArg List.length (State.skeleton_executeRaised env th cb x s)
    simp only [State.skeleton, List.length_map] at hlen
    omega
  have added : ∀ f : Future, (s.alloc f).futures.length ≤ s.futures.length + 1 := by
    intro f
    simp [State.alloc]
  cases kind with
  | coroutine =>
    cases start with
    | some x => exact raised x
    | none =>
      cases th with
      | main => exact added _
      | worker => exact raised .runtimeError
  | thread =>
    cases start with
    | some x => exact raised x
    | none => exact added _
  | generator => exact added _
  | sync => exact added _

theorem YieldedTo.of_skeleton (hsk : t.skeleton = s.skeleton) (h : YieldedTo t r i) :
    YieldedTo s r i := by
  obtain ⟨g, up, hg, hcb⟩ := h
  obtain ⟨f, hf, -, heq⟩ := future_of_skeleton hsk hg
  exact ⟨f, up, hf, heq ▸ hcb⟩

/-- A generator yields where a segment of it ends. -/
theorem YieldedTo.step {e : LanguageServer.Event} (hown : ¬EndsSegment r e)
    (hs : LanguageServer.step env s e = some t) (h : YieldedTo t r i) : YieldedTo s r i := by
  cases e with
  | shutdown j =>
    obtain ⟨g, id, n, th, -, -, -, -, rfl⟩ := LanguageServer.shutdown_cases hs
    exact h.of_skeleton (skeleton_shutdownEnd env s j _ th)
  | protocol e =>
    obtain ⟨g, up, hg, hcb⟩ := h
    obtain ⟨new, hnew⟩ := step_enlarges hs
    rcases hnew.future hg with ⟨f, hf, -, heq⟩ | hmem
    · exact ⟨f, up, hf, heq ▸ hcb⟩
    · rw [hcb] at hmem
      obtain ⟨uuid, kind, start, rfl, -⟩ := hnew.yielded g.handler r up hmem
      exact absurd rfl hown

/-- A segment yields to one handler at most. -/
theorem YieldedTo.segment {e : LanguageServer.Event} (hown : EndsSegment r e)
    (hs : LanguageServer.step env s e = some t) (h : YieldedTo t r i) :
    YieldedTo s r i ∨ i = s.futures.length := by
  cases e with
  | shutdown j =>
    obtain ⟨g, id, n, th, -, -, -, -, rfl⟩ := LanguageServer.shutdown_cases hs
    exact Or.inl (h.of_skeleton (skeleton_shutdownEnd env s j _ th))
  | protocol e =>
    obtain ⟨g, up, hg, hcb⟩ := h
    obtain ⟨new, hnew⟩ := step_enlarges hs
    rcases hnew.future hg with ⟨f, hf, -, heq⟩ | hmem
    · exact Or.inl ⟨f, up, hf, heq ▸ hcb⟩
    · rw [hcb] at hmem
      obtain ⟨uuid, kind, start, rfl, -⟩ := hnew.yielded g.handler r up hmem
      have hstep : Pygls.step env s (.genYield r uuid kind start) = some t := hs
      cases step_cases hstep with
      | ignored _ hrefuse => cases hrefuse
      | @genYield _ f th =>
        obtain ⟨hlt, -⟩ := List.getElem?_eq_some_iff.mp hg
        have hle := executeHandler_length env th (.str uuid) kind (.runGenerator r f.callback) start
          (s.leave r)
        have hleave := congrArg List.length (State.skeleton_leave s r)
        simp only [State.skeleton, List.length_map] at hleave
        rcases Nat.lt_or_ge i s.futures.length with hold | hold
        · left
          obtain ⟨f, hf⟩ : ∃ f, s.futures[i]? = some f := ⟨_, List.getElem?_eq_getElem hold⟩
          obtain ⟨g', hg', -, heq⟩ := hnew.stays hf
          rw [hg] at hg'
          cases hg'
          exact ⟨f, up, hf, heq ▸ hcb⟩
        · right
          apply Nat.le_antisymm ?_ hold
          omega

end Yields

/-- From any state on: a cancelled generator that waits is left as it is for ever, and yields to
nothing any more, also when the handler it waits for has ended. One whose code is on a stack
yields to one more handler at most. -/
theorem cancelled_generator_is_abandoned {env : Env T} {es : List LanguageServer.Event}
    {s t : State T} (hrun : Lib.run (LanguageServer.step env) s es = some t) {r : Ref} {f : Future}
    (hf : s.futures[r]? = some f) (hk : f.handler = some .generator)
    (hc : f.isCancelled = true) :
    (f.active = none → t.futures[r]? = some f ∧ ∀ i, YieldedTo t r i → YieldedTo s r i) ∧
    ∃ k, ∀ i, YieldedTo t r i → YieldedTo s r i ∨ i = k := by
  have hs : CancelledAs s r f := ⟨hf, hk, hc⟩
  constructor
  · intro hidle
    have hkeep := Lib.run_invariant
      (I := fun t => CancelledAs t r f ∧ ∀ i, YieldedTo t r i → YieldedTo s r i) ?_
      ⟨hs, fun i h => h⟩ (Lib.meets_true (LanguageServer.step env) s es) hrun
    · exact ⟨hkeep.1.future, hkeep.2⟩
    · rintro t e u ⟨ht, hold⟩ - hstep
      have hown : ¬EndsSegment r e := by
        intro hown
        exact (ht.segment hown hstep).1 hidle
      exact ⟨ht.step hown hstep, fun i hi => hold i (hi.step hown hstep)⟩
  · -- while its code is on a stack it has yielded to nothing new
    have hkeep := Lib.run_invariant
      (I := fun t => ∃ g, CancelledAs t r g ∧ ((∀ i, YieldedTo t r i → YieldedTo s r i) ∨
        (g.active = none ∧ ∃ k, ∀ i, YieldedTo t r i → YieldedTo s r i ∨ i = k))) ?_
      ⟨f, hs, Or.inl fun i h => h⟩ (Lib.meets_true (LanguageServer.step env) s es) hrun
    · obtain ⟨g, -, hnone | ⟨-, hone⟩⟩ := hkeep
      · exact ⟨0, fun i hi => Or.inl (hnone i hi)⟩
      · exact hone
    · rintro t e u ⟨g, ht, hold⟩ - hstep
      by_cases hown : EndsSegment r e
      · obtain ⟨hact, hu⟩ := ht.segment hown hstep
        refine ⟨_, hu, Or.inr ⟨rfl, t.futures.length, ?_⟩⟩
        intro i hi
        rcases hold with hnone | ⟨hidle, -⟩
        · exact (hi.segment hown hstep).imp_left (hnone i)
        · exact absurd hidle hact
      · refine ⟨g, ht.step hown hstep, ?_⟩
        rcases hold with hnone | ⟨hidle, k, hone⟩
        · exact Or.inl fun i hi => hnone i (hi.step hown hstep)
        · exact Or.inr ⟨hidle, k, fun i hi => hone i (hi.step hown hstep)⟩

/-- The request is cancelled while its generator waits for a coroutine, which then returns. -/
theorem cancelled_generator_is_abandoned_waiting :
    ∃ s t f, Lib.run (LanguageServer.step sampleEnv) State.init
        [.protocol (.request ⟨.int 1, [], .null⟩ none),
          .protocol (.genYield 0 [] .coroutine none),
          .protocol (.cancelRequest (.int 1))] = some s ∧
      Lib.run (LanguageServer.step sampleEnv) s
        [.protocol (.taskEnd 1 (some (.returned .none))), .protocol (.deliver 1 .main)] = some t ∧
      s.futures[0]? = some f ∧ t.futures[0]? = some f := by
  obtain ⟨s, t, f, hpast, hrun, hf, hk, hc, hidle⟩ : ∃ s t f,
      Lib.run (LanguageServer.step sampleEnv) State.init
        [.protocol (.request ⟨.int 1, [], .null⟩ none),
          .protocol (.genYield 0 [] .coroutine none),
          .protocol (.cancelRequest (.int 1))] = some s ∧
      Lib.run (LanguageServer.step sampleEnv) s
        [.protocol (.taskEnd 1 (some (.returned .none))), .protocol (.deliver 1 .main)] = some t ∧
      s.futures[0]? = some f ∧ f.handler = some .generator ∧ f.isCancelled = true ∧
      f.active = none := by
    with_unfolding_all exact ⟨_, _, _, rfl, rfl, rfl, rfl, rfl, rfl⟩
  exact ⟨s, t, f, hpast, hrun, hf, ((cancelled_generator_is_abandoned hrun hf hk hc).1 hidle).1⟩

end Pygls
