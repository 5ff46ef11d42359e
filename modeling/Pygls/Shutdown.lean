import Pygls.LanguageServer

/-!
# Shutdown

`lsp_shutdown` walks `_request_futures` and cancels what it finds there. A future
that is not a task runs its callback at once, and if that leads to the answer of
a request in the table the table shrinks under the loop. The exemption of the
shutdown request itself hangs on a context variable that only the main thread
sees. `Undisturbed` is what is left, when no other thread changes the table.
-/

namespace Pygls

set_option autoImplicit false

variable {T : Type}

/-- The main thread has one stack. -/
def MainAlone (s : State T) : Prop :=
  ∀ (r i : Ref) (f g : Future), s.futures[r]? = some f → s.futures[i]? = some g →
    f.active = some .main → g.active = some .main → r = i

/-- The thread can take up another handler's code. -/
structure Free (th : Thread) (s : State T) : Prop where
  alone : MainAlone s
  idle : th = .main → s.mainIdle = true

section MainAlone

variable {env : Env T} {s t : State T} {th : Thread}

theorem mainIdle_iff : s.mainIdle = true ↔
    ∀ (r : Ref) (f : Future), s.futures[r]? = some f → f.active ≠ some .main := by
  constructor
  · intro h r f hf
    exact Discipline.notMain h hf
  · intro h
    apply List.all_eq_true.mpr
    intro f hf
    obtain ⟨r, hr⟩ := List.mem_iff_getElem?.mp hf
    exact decide_eq_true (h r f hr)

theorem free_of_idle (h : s.mainIdle = true) (th : Thread) : Free th s := by
  refine ⟨?_, fun _ => h⟩
  intro r i f g hf hg hfm
  exact absurd hfm (Discipline.notMain h hf)

theorem Free.congr (h : Free th s) (hf : t.futures = s.futures) : Free th t := by
  constructor
  · unfold MainAlone
    rw [hf]
    exact h.alone
  · unfold State.mainIdle
    rw [hf]
    exact h.idle

/-- No handler is put on the main thread's stack. -/
theorem mainAlone_modify (h : MainAlone s) (r : Ref) {g : Future → Future}
    (hg : ∀ f, (g f).active = some .main → f.active = some .main) : MainAlone (s.modify r g) := by
  intro i j f f' hf hf' hm hm'
  obtain ⟨f₀, hf₀, ⟨-, rfl⟩ | ⟨-, rfl⟩⟩ := modify_cases hf <;>
    obtain ⟨f₁, hf₁, ⟨-, rfl⟩ | ⟨-, rfl⟩⟩ := modify_cases hf'
  · exact h i j f₀ f₁ hf₀ hf₁ (hg _ hm) (hg _ hm')
  · exact h i j f₀ _ hf₀ hf₁ (hg _ hm) hm'
  · exact h i j _ f₁ hf₀ hf₁ hm (hg _ hm')
  · exact h i j _ _ hf₀ hf₁ hm hm'

theorem Free.modify (h : Free th s) (r : Ref) {g : Future → Future}
    (hg : ∀ f, (g f).active = some .main → f.active = some .main) : Free th (s.modify r g) := by
  refine ⟨mainAlone_modify h.alone r hg, ?_⟩
  intro hth
  apply mainIdle_iff.mpr
  intro i f hf hm
  obtain ⟨f₀, hf₀, ⟨-, rfl⟩ | ⟨-, rfl⟩⟩ := modify_cases hf
  · exact Discipline.notMain (h.idle hth) hf₀ (hg f₀ hm)
  · exact Discipline.notMain (h.idle hth) hf₀ hm

theorem Free.settle (h : Free th s) (r : Ref) (st : FutureState) :
    Free th (s.modify r (Future.settle st)) :=
  h.modify r (fun _ hm => hm)

theorem Free.resume (h : Free th s) (r : Ref) (v : PyValue) : MainAlone (s.resume r th v) := by
  cases th with
  | worker =>
    refine mainAlone_modify h.alone r ?_
    intro f hm
    cases hm
  | main =>
    have hold : ∀ (i : Ref) (f : Future), (s.resume r .main v).futures[i]? = some f →
        f.active = some .main → i = r := by
      intro i f hf hm
      obtain ⟨f₀, hf₀, ⟨hir, -⟩ | ⟨-, rfl⟩⟩ := modify_cases hf
      · exact hir
      · exact absurd hm (Discipline.notMain (h.idle rfl) hf₀)
    intro i j f g hf hg hm hm'
    rw [hold i f hf hm, hold j g hg hm']

theorem Free.runCallback (h : Free th s) (cb : Callback) (c : Completion) :
    MainAlone (State.runCallback env th cb c s) := by
  refine runCallback_ind (R := fun s _ _ => Free th s) ?_ ?_ ?_ ?_ ?_ ?_ ?_ ?_ cb c s h
  · intro s id n c h
    exact (h.congr (State.sendHandlerResult_sends env s id n c).futures).alone
  · intro s c h
    exact h.alone
  · intro s c h
    exact h.alone
  · intro s r up c h _
    exact h.alone
  · intro s r up c h _ _
    exact h.alone
  · intro s r up c v h _ _
    exact h.resume r v
  · intro s r up c x h _ _ _
    exact h.alone
  · intro s s' r up c x h _ _ hs
    obtain ⟨f, -, -, rfl⟩ := setOutcome_eq_some hs
    exact h.modify r (fun _ hm => hm)

theorem Free.executeRaised (h : Free th s) (cb : Callback) (x : PyExc) :
    MainAlone (State.executeRaised env th cb x s) := by
  refine executeRaised_ind (R := fun s _ _ => Free th s) (P := fun s _ _ => Free th s)
    ?_ ?_ ?_ ?_ ?_ ?_ ?_ cb x s h
  · intro cb c s h
    exact h.runCallback cb c
  · intro s id n x h
    exact (h.congr (State.sendException_sends env s n id x).futures).alone
  · intro s x h
    exact h.alone
  · intro s x h
    exact h.alone
  · intro s s' r up x h hs
    obtain ⟨f, -, -, rfl⟩ := setOutcome_eq_some hs
    exact h.modify r (fun _ hm => hm)
  · intro s r up x h _ _
    exact h.alone
  · intro s r up x h _ _
    exact h

theorem Free.alloc (h : Free th s) {g : Future} (hg : g.active = some .main → th = .main) :
    MainAlone (s.alloc g) := by
  intro i j f f' hf hf' hm hm'
  rcases State.getElem?_alloc hf with hold | ⟨hi, rfl⟩ <;>
    rcases State.getElem?_alloc hf' with hold' | ⟨hj, rfl⟩
  · exact h.alone i j f f' hold hold' hm hm'
  · exact absurd hm (Discipline.notMain (h.idle (hg hm')) hold)
  · exact absurd hm' (Discipline.notMain (h.idle (hg hm)) hold')
  · rw [hi, hj]

theorem Free.executeHandler (h : Free th s) (id : MsgId) (kind : HandlerKind) (cb : Callback)
    (start : Start) : MainAlone (State.executeHandler env th id kind cb start s) := by
  have idle : ∀ kind, MainAlone ((s.alloc (.pending (some kind) cb)).register id s.fresh) := by
    intro kind
    have halloc : MainAlone (s.alloc (.pending (some kind) cb)) := h.alloc nofun
    exact halloc
  have running : ∀ kind,
      MainAlone (s.alloc { Future.pending (some kind) cb with active := some th }) := by
    intro kind
    exact h.alloc fun hm => Option.some.inj hm
  cases kind with
  | coroutine =>
    cases start with
    | some x => exact h.executeRaised cb x
    | none =>
      cases th with
      | main => exact idle .coroutine
      | worker => exact h.executeRaised cb .runtimeError
  | thread =>
    cases start with
    | some x => exact h.executeRaised cb x
    | none => exact idle .thread
  | generator => exact running .generator
  | sync => exact running .sync

/-- The handler's code has left its stack. -/
theorem MainAlone.leave (h : MainAlone s) {r : Ref} {f : Future} (hf : s.futures[r]? = some f)
    (hact : f.active = some th) : Free th (s.leave r) := by
  refine ⟨mainAlone_modify h r (fun f hm => nomatch hm), ?_⟩
  intro hth
  subst hth
  apply mainIdle_iff.mpr
  intro i g hg hm
  obtain ⟨g₀, hg₀, ⟨-, rfl⟩ | ⟨hne, rfl⟩⟩ := modify_cases hg
  · cases hm
  · exact hne (h i r _ f hg₀ hf hm hact)

theorem Free.cancel (h : Free th s) (r : Ref) : MainAlone (State.cancel env th s r) := by
  unfold State.cancel
  split
  · exact h.alone
  · split
    · split
      · exact mainAlone_modify h.alone r (fun _ hm => hm)
      · exact h.alone
    · split
      · exact (h.settle r _).runCallback _ _
      · exact h.alone

theorem Free.handleResponse (h : Free .main s) (id : MsgId) (o : Outcome) :
    MainAlone (s.handleResponse env id o) := by
  have hpop : Free .main (s.popFuture id) := h.congr rfl
  simp only [State.handleResponse]
  split
  · exact h.alone
  · split
    · exact hpop.alone
    · split
      · exact hpop.alone
      · split
        · exact (hpop.settle _ _).runCallback _ _
        · exact hpop.alone

theorem MainAlone.step {e : Event} (h : MainAlone s) (hd : Discipline s)
    (hs : step env s e = some t) : MainAlone t := by
  cases step_cases hs with
  | ignored hdown hmsg => exact h
  | @request q start hidle hup =>
    have hfree : Free .main { s with received := s.received ++ [(q, start)] } :=
      (free_of_idle hidle .main).congr rfl
    unfold State.handleRequest
    split
    · exact (hfree.congr (State.sendException_sends env _ _ _ _).futures).alone
    · exact hfree.executeHandler _ _ _ _
  | notification hidle hup =>
    unfold State.handleNotification
    split
    · exact h
    · exact (free_of_idle hidle .main).executeHandler _ _ _ _
  | @cancelRequest id hidle hup =>
    unfold State.handleCancelNotification
    split
    · exact h
    · have hpop : Free .main (s.popFuture id) := (free_of_idle hidle .main).congr rfl
      exact hpop.cancel _
  | @response id result hidle =>
    have hpop : Free .main (s.popType id) := (free_of_idle hidle .main).congr rfl
    simp only [State.receiveResult]
    split
    · exact hpop.alone
    · split
      · exact hpop.alone
      · exact hpop.handleResponse id _
  | errorResponse hidle =>
    unfold State.receiveError
    split
    · exact h
    · split <;> exact (free_of_idle hidle .main).handleResponse _ _
  | @sendRequest id method params =>
    have halloc : MainAlone (s.alloc (.pending none .client)) := by
      have hworker : Thread.worker ≠ .main := by
        intro heq
        cases heq
      have hfree : Free .worker s := ⟨h, fun heq => absurd heq hworker⟩
      apply hfree.alloc
      intro hact
      cases hact
    have hfut : (s.sendRequest env id method params).futures =
        (s.alloc (.pending none .client)).futures :=
      State.sendRequest_futures env s id method params
    unfold MainAlone
    rw [hfut]
    exact halloc
  | @cancelOutgoing r f hf hnone =>
    unfold State.cancel
    rw [hf]
    simp only [Future.isTask, hnone, hd.outgoing r f hf hnone, State.runCallback]
    split
    · rename_i hco
      cases hco
    · split
      · exact mainAlone_modify h r (fun _ hm => hm)
      · exact h
  | @syncEnd r f th o hf hk hact =>
    have hfree := h.leave hf hact
    unfold State.syncEnd
    split
    · rename_i s' hs'
      obtain ⟨g, -, -, rfl⟩ := setOutcome_eq_some hs'
      exact (hfree.settle r _).runCallback _ _
    · exact hfree.executeRaised _ _
  | genYield hf hk hact => exact (h.leave hf hact).executeHandler _ _ _ _
  | genEnd hf hk hact hstop => exact (h.leave hf hact).executeRaised _ _
  | taskEnd hidle hstop hf hk hpend => exact mainAlone_modify h _ (fun _ hm => hm)
  | poolStart hf hk hpend =>
    apply mainAlone_modify h
    intro _ hm
    cases hm
  | poolEnd hf hk hact =>
    apply mainAlone_modify h
    intro _ hm
    cases hm
  | @deliver r f th c hf hk hcalled hc hidle =>
    have hfree : Free th s := ⟨h, hidle⟩
    have hcall : Free th (s.modify r fun f => { f with called := true }) :=
      hfree.modify r (fun _ hm => hm)
    exact hcall.runCallback _ _

end MainAlone

/-- The request that the exception of a cancelled future reaches. -/
def reaches (s : State T) : Callback → Option (MsgId × Nat)
  | .sendHandlerResult id n => some (id, n)
  | .checkHandlerResult => none
  | .client => none
  | .runGenerator r up => if s.pendingAt r then reaches s up else none

/-- The future has been cancelled, or ended with the cancellation of a handler it had yielded
to; a task can only be asked to cancel itself. -/
def Future.Stopped (f : Future) : Prop :=
  f.state = .cancelled ∨ f.state = .finished (.raised .cancelledError) ∨
    (f.isTask = true ∧ f.cancelRequested = true)

/-- What a callback that is given a cancelled future does. -/
structure Unwinds (s t : State T) (x : Option (MsgId × Nat)) : Prop where
  futures : ∀ (i : Ref), t.futures[i]? = s.futures[i]? ∨
    ∃ f, s.futures[i]? = some f ∧ f.isPending = true ∧
      (∀ id n, f.callback = .sendHandlerResult id n → x = some (id, n)) ∧
      t.futures[i]? = some (f.settle (.finished (.raised .cancelledError)))
  table : t.requestFutures = x.elim s.requestFutures fun p => s.requestFutures.pop p.1
  types : t.resultTypes = s.resultTypes

section Unwind

variable {env : Env T} {s t : State T}

theorem reaches_mono (h : Shrinks s t) {cb : Callback} {x : MsgId × Nat}
    (hx : reaches t cb = some x) : reaches s cb = some x := by
  induction cb with
  | sendHandlerResult id n => exact hx
  | checkHandlerResult => exact hx
  | client => exact hx
  | runGenerator r up ih =>
    simp only [reaches] at hx ⊢
    split at hx
    · rename_i hp
      rw [if_pos (h.pending r hp)]
      exact ih hx
    · cases hx

/-- What a future leads to does not depend on later ones. -/
theorem reaches_congr (hl : Linked s) {i r : Ref} {f : Future} (hir : i ≤ r)
    (hsame : ∀ j, j < r → t.pendingAt j = s.pendingAt j) (hf : s.futures[i]? = some f) :
    reaches t f.callback = reaches s f.callback := by
  generalize hcb : f.callback = cb
  induction cb generalizing i f with
  | sendHandlerResult id n => rfl
  | checkHandlerResult => rfl
  | client => rfl
  | runGenerator p up ih =>
    obtain ⟨f', hf', hup, -⟩ := hl.parent hf hcb
    have hpr : p < r := Nat.lt_of_lt_of_le (hl.parent_lt hf hcb) hir
    simp only [reaches, hsame p hpr, ih (Nat.le_of_lt hpr) hf' hup]

theorem reaches_modify (hl : Linked s) {r : Ref} (g : Future → Future) {i : Ref} {f : Future}
    (hir : i ≤ r) (hf : s.futures[i]? = some f) :
    reaches (s.modify r g) f.callback = reaches s f.callback := by
  refine reaches_congr hl hir ?_ hf
  intro j hjr
  rw [State.pendingAt, State.pendingAt, State.getElem?_modify, if_neg (Nat.ne_of_gt hjr)]

/-- What a callback that is given the exception `x` does: it ends the pending generators that
lead to the same request, and answers that. -/
structure Fails (x : PyExc) (s t : State T) (y : Option (MsgId × Nat)) : Prop where
  futures : ∀ (i : Ref), t.futures[i]? = s.futures[i]? ∨
    ∃ f, s.futures[i]? = some f ∧ f.handler = some .generator ∧ f.isPending = true ∧
      reaches s f.callback = y ∧ t.futures[i]? = some (f.settle (.finished (.raised x)))
  table : t.requestFutures = y.elim s.requestFutures fun p => s.requestFutures.pop p.1
  types : t.resultTypes = s.resultTypes
  sent : ∀ m ∈ t.sent, m ∈ s.sent ∨ ∃ p a, y = some p ∧ m = .response p.2 p.1 a

theorem fails_refl (x : PyExc) (s : State T) : Fails x s s none :=
  ⟨fun _ => Or.inl rfl, rfl, rfl, fun _ hm => Or.inl hm⟩

theorem answer_fails (env : Env T) (x : PyExc) (s : State T) (id : MsgId) (n : Nat) {c : Completion}
    (hc : ∀ v, c ≠ .finished (.returned v)) :
    Fails x s (s.sendHandlerResult env id n c) (some (id, n)) := by
  have hs := State.sendHandlerResult_sends env s id n c
  refine ⟨fun i => Or.inl (by rw [hs.futures]), sendHandlerResult_requestFutures env s id n c, ?_, ?_⟩
  · rw [sendHandlerResult_resultTypes]
    split
    · rename_i v
      exact absurd rfl (hc v)
    · rfl
  · intro m hm
    rcases hs.sent with hsent | ⟨a, -, hsent⟩
    · rw [hsent] at hm
      exact Or.inl hm
    · rw [hsent] at hm
      rcases List.mem_append.mp hm with hm | hm
      · exact Or.inl hm
      · exact Or.inr ⟨(id, n), a, rfl, List.mem_singleton.mp hm⟩

theorem pendingAt_of_cancelled {r : Ref} {g : Future} (hg : s.futures[r]? = some g)
    (h : s.cancelled r = true) : s.pendingAt r = false := by
  rw [State.cancelled, hg, Option.any_some, Future.isCancelled] at h
  rw [State.pendingAt, hg, Option.any_some, Future.isPending]
  split at h
  · rename_i hst
    rw [hst]
  · cases h

theorem runCallback_fails (env : Env T) (th : Thread) {x : PyExc} (hx : x.outcome = .raised x)
    {cb : Callback} {c : Completion} (hres : c.result = some (.raised x)) (hl : Linked s) {i : Ref}
    {f : Future} (hf : s.futures[i]? = some f) (hcb : f.callback = cb) :
    Fails x s (State.runCallback env th cb c s) (reaches s cb) ∧
      ∀ j, i ≤ j → (State.runCallback env th cb c s).futures[j]? = s.futures[j]? := by
  induction cb generalizing c s i f with
  | sendHandlerResult id n =>
    have hfut := (State.sendHandlerResult_sends env s id n c).futures
    refine ⟨answer_fails env x s id n ?_, fun j _ => congrArg (·[j]?) hfut⟩
    rintro v rfl
    cases hres
  | checkHandlerResult => exact ⟨fails_refl x s, fun _ _ => rfl⟩
  | client => exact ⟨fails_refl x s, fun _ _ => rfl⟩
  | runGenerator r up ih =>
    obtain ⟨g, hg, hup, hgen⟩ := hl.parent hf hcb
    have hri : r < i := hl.parent_lt hf hcb
    rw [State.runCallback]
    split
    · rename_i hcancel
      have hnot : reaches s (.runGenerator r up) = none :=
        if_neg (ne_true_of_eq_false (pendingAt_of_cancelled hg hcancel))
      rw [hnot]
      exact ⟨fails_refl x s, fun _ _ => rfl⟩
    · simp only [hres, hx]
      split
      · rename_i s' hs
        have hskel := State.skeleton_setOutcome hs
        have hat := pendingAt_of_setOutcome hs
        obtain ⟨g', hg', hpend, rfl⟩ := setOutcome_eq_some hs
        rw [hg] at hg'
        cases hg'
        have hself := State.getElem?_modify_self (g := Future.settle (.finished (.raised x))) hg
        have hother : ∀ j, j ≠ r →
            (s.modify r (Future.settle (.finished (.raised x)))).futures[j]? = s.futures[j]? := by
          intro j hjr
          rw [State.getElem?_modify_ne hjr]
        obtain ⟨hrec, habove⟩ := ih (c := .finished (.raised x)) rfl (hl.congr hskel) hself hup
        have hup' := reaches_modify hl (Future.settle (.finished (.raised x))) (Nat.le_refl r) hg
        rw [hup] at hup'
        rw [hup'] at hrec
        simp only [reaches, hat, if_true]
        refine ⟨⟨?_, hrec.table, hrec.types, hrec.sent⟩, ?_⟩
        · intro j
          rcases Nat.lt_or_ge j r with hjr | hjr
          · rcases hrec.futures j with hj | ⟨f', hf', hk', hp', hreach, hnew⟩
            · exact Or.inl (hj.trans (hother j (Nat.ne_of_lt hjr)))
            · rw [hother j (Nat.ne_of_lt hjr)] at hf'
              refine Or.inr ⟨f', hf', hk', hp', ?_, hnew⟩
              rw [← reaches_modify hl _ (Nat.le_of_lt hjr) hf']
              exact hreach
          · by_cases heq : j = r
            · subst heq
              exact Or.inr ⟨g, hg, hgen, hpend, by rw [hup], (habove j hjr).trans hself⟩
            · exact Or.inl ((habove j hjr).trans (hother j heq))
        · intro j hij
          have hrj : r < j := Nat.lt_of_lt_of_le hri hij
          exact (habove j (Nat.le_of_lt hrj)).trans (hother j (Nat.ne_of_gt hrj))
      · rename_i hnone
        have hat := pendingAt_of_setOutcome_none hnone
        have hnot : reaches s (.runGenerator r up) = none := if_neg (ne_true_of_eq_false hat)
        rw [hnot]
        exact ⟨fails_refl x s, fun _ _ => rfl⟩

theorem runCallback_unwinds (env : Env T) (th : Thread) {cb : Callback} {c : Completion}
    (hc : c = .cancelled ∨ c = .finished (.raised .cancelledError)) (hl : Linked s) {i : Ref}
    {f : Future} (hf : s.futures[i]? = some f) (hcb : f.callback = cb) :
    Unwinds s (State.runCallback env th cb c s) (reaches s cb) := by
  have hres : c.result = some (.raised .cancelledError) := by
    rcases hc with rfl | rfl <;> rfl
  have h := (runCallback_fails env th rfl hres hl hf hcb).1
  refine ⟨?_, h.table, h.types⟩
  intro j
  rcases h.futures j with hj | ⟨f', hf', -, hp', hreach, hnew⟩
  · exact Or.inl hj
  · refine Or.inr ⟨f', hf', hp', ?_, hnew⟩
    intro id n hid
    rw [← hreach, hid]
    rfl

end Unwind

/-- What is left of a future when it has been cancelled, or other threads have gone on. -/
structure Future.Ages (f g : Future) : Prop where
  handler : g.handler = f.handler
  callback : g.callback = f.callback
  pending : g.isPending = true → f.isPending = true
  stopped : f.Stopped → g.Stopped

theorem Future.Ages.refl (f : Future) : f.Ages f := ⟨rfl, rfl, fun h => h, fun h => h⟩

theorem Future.Ages.trans {f g h : Future} (hfg : f.Ages g) (hgh : g.Ages h) : f.Ages h :=
  ⟨hgh.handler.trans hfg.handler, hgh.callback.trans hfg.callback,
    fun hp => hfg.pending (hgh.pending hp), fun hs => hgh.stopped (hfg.stopped hs)⟩

/-- What has been stopped, or is not pending any more, stays so. -/
theorem Future.Ages.over {f g : Future} (h : f.Ages g)
    (hover : f.Stopped ∨ f.isPending = false) : g.Stopped ∨ g.isPending = false := by
  rcases hover with hstop | hdone
  · exact Or.inl (h.stopped hstop)
  · right
    apply eq_false_of_ne_true
    intro hp
    rw [h.pending hp] at hdone
    cases hdone

/-- What cancelling leaves of a future. -/
structure Fate (f f' : Future) : Prop extends f.Ages f' where
  active : f'.active = f.active

/-- Cancelling has not touched the tables and the future `r`. -/
structure Halts (r : Ref) (s t : State T) : Prop where
  table : t.requestFutures = s.requestFutures
  types : t.resultTypes = s.resultTypes
  futures : ∀ (i : Ref), Option.Rel Fate s.futures[i]? t.futures[i]?
  own : t.futures[r]? = s.futures[r]?

/-- Cancelling the future answers no request that is in the table, and not the request `n`. -/
def Harmless (n : Nat) (s : State T) (f : Future) : Prop :=
  f.isTask = false → f.isPending = true → ∀ (id : MsgId) (m : Nat),
    reaches s f.callback = some (id, m) → s.requestFutures.get? id = none ∧ m ≠ n

theorem Fate.refl (f : Future) : Fate f f := ⟨.refl f, rfl⟩

theorem rel_refl (f : Option Future) : Option.Rel Fate f f := by
  cases f with
  | none => exact .none
  | some f => exact .some (Fate.refl f)

theorem not_stopped {f : Future} (hp : f.isPending = true) (htask : f.isTask = false) :
    ¬ f.Stopped := by
  rintro (hst | hst | ⟨ht, -⟩)
  · rw [Future.isPending, hst] at hp
    cases hp
  · rw [Future.isPending, hst] at hp
    cases hp
  · rw [htask] at ht
    cases ht

namespace Halts

variable {n : Nat} {r : Ref} {s t : State T}

theorem refl (r : Ref) (s : State T) : Halts r s s := ⟨rfl, rfl, fun _ => rel_refl _, rfl⟩

theorem forth (h : Halts r s t) {i : Ref} {f : Future} (hf : s.futures[i]? = some f) :
    ∃ f', t.futures[i]? = some f' ∧ Fate f f' := by
  have hrel := h.futures i
  rw [hf] at hrel
  cases ht : t.futures[i]? with
  | none =>
    rw [ht] at hrel
    cases hrel
  | some f' =>
    rw [ht] at hrel
    cases hrel with
    | some hfate => exact ⟨f', rfl, hfate⟩

theorem back (h : Halts r s t) {i : Ref} {f' : Future} (hf' : t.futures[i]? = some f') :
    ∃ f, s.futures[i]? = some f ∧ Fate f f' := by
  have hrel := h.futures i
  rw [hf'] at hrel
  cases hs : s.futures[i]? with
  | none =>
    rw [hs] at hrel
    cases hrel
  | some f =>
    rw [hs] at hrel
    cases hrel with
    | some hfate => exact ⟨f, rfl, hfate⟩

theorem harmless (h : Halts r s t) (hst : Shrinks s t) {f f' : Future} (hfate : Fate f f')
    (hok : Harmless n s f) : Harmless n t f' := by
  intro htask hp id m hreach
  have htask' : f.isTask = false := by
    rw [Future.isTask, ← hfate.handler]
    exact htask
  rw [hfate.callback] at hreach
  rw [h.table]
  exact hok htask' (hfate.pending hp) id m (reaches_mono hst hreach)

end Halts

section Loop

variable {s : State T} {n : Nat} {r : Ref} {fr : Future} {own : MsgId}

theorem cancel_halts (env : Env T) (th : Thread) (hl : Linked s) (hr : s.futures[r]? = some fr)
    (hgen : fr.handler = some .generator) (hcb : fr.callback = .sendHandlerResult own n) {i : Ref}
    {f : Future} (hf : s.futures[i]? = some f) (hok : Harmless n s f) :
    Halts r s (State.cancel env th s i) ∧
      (f.isPending = true → ∃ f', (State.cancel env th s i).futures[i]? = some f' ∧ f'.Stopped) := by
  simp only [State.cancel, hf]
  split
  · rename_i htask
    have hir : i ≠ r := by
      rintro rfl
      rw [hf] at hr
      cases hr
      rw [Future.isTask, hgen] at htask
      cases htask
    split
    · have hself := State.getElem?_modify_self (g := fun f => { f with cancelRequested := true }) hf
      refine ⟨⟨rfl, rfl, ?_, ?_⟩, fun _ => ⟨_, hself, Or.inr (Or.inr ⟨htask, rfl⟩)⟩⟩
      · intro j
        by_cases hji : j = i
        · subst hji
          rw [hself, hf]
          refine .some ⟨⟨rfl, rfl, fun hp => hp, ?_⟩, rfl⟩
          intro _
          exact Or.inr (Or.inr ⟨htask, rfl⟩)
        · rw [State.getElem?_modify_ne hji]
          exact rel_refl _
      · rw [State.getElem?_modify, if_neg hir]
    · rename_i hclosed
      refine ⟨Halts.refl r s, fun hp => absurd (isOpen_of_isPending hp) hclosed⟩
  · rename_i htask
    have htask' : f.isTask = false := by simpa using htask
    split
    · rename_i hp
      have hself := State.getElem?_modify_self (g := Future.settle .cancelled) hf
      have hl' : Linked (s.modify i (Future.settle .cancelled)) :=
        hl.congr (State.skeleton_modify s i (fun _ => rfl) (fun _ => rfl))
      have hun := runCallback_unwinds env th (Or.inl rfl) hl' hself rfl
      have hreach : reaches (s.modify i (Future.settle .cancelled)) f.callback =
          reaches s f.callback := reaches_modify hl _ (Nat.le_refl i) hf
      rw [show (Future.settle .cancelled f).callback = f.callback from rfl, hreach] at hun
      have hsettled : ∀ (j : Ref), j ≠ i →
          (s.modify i (Future.settle .cancelled)).futures[j]? = s.futures[j]? := by
        intro j hji
        rw [State.getElem?_modify_ne hji]
      -- the cancelled future itself is not pending any more, so it is left alone
      have hkept : (State.runCallback env th f.callback .cancelled
          (s.modify i (Future.settle .cancelled))).futures[i]? = some (f.settle .cancelled) := by
        rcases hun.futures i with hsame | ⟨g, hg, hgp, -⟩
        · exact hsame.trans hself
        · rw [hself] at hg
          cases hg
          cases hgp
      refine ⟨⟨?_, hun.types, ?_, ?_⟩, fun _ => ⟨_, hkept, Or.inl rfl⟩⟩
      · rw [hun.table]
        cases hx : reaches s f.callback with
        | none => rfl
        | some p => exact Lib.Dict.pop_of_get?_none (hok htask' hp p.1 p.2 hx).1
      · intro j
        by_cases hji : j = i
        · subst hji
          rw [hkept, hf]
          refine .some ⟨⟨rfl, rfl, ?_, ?_⟩, rfl⟩
          · intro hopen
            cases hopen
          · intro hstop
            exact absurd hstop (not_stopped hp htask')
        · rcases hun.futures j with hsame | ⟨g, hg, hgp, -, hnew⟩
          · rw [hsame, hsettled j hji]
            exact rel_refl _
          · rw [hsettled j hji] at hg
            rw [hnew, hg]
            have hstop : (g.settle (.finished (.raised .cancelledError))).Stopped :=
              Or.inr (Or.inl rfl)
            refine .some ⟨⟨rfl, rfl, ?_, fun _ => hstop⟩, rfl⟩
            intro hopen
            cases hopen
      · have hir : r ≠ i := by
          rintro rfl
          rw [hf] at hr
          cases hr
          exact (hok htask' hp own n (by rw [hcb]; rfl)).2 rfl
        rcases hun.futures r with hsame | ⟨g, hg, -, hreq, -⟩
        · rw [hsame, hsettled r hir]
        · rw [hsettled r hir, hr] at hg
          cases hg
          exact absurd rfl (hok htask' hp own n (hreq own n hcb)).2
    · rename_i hp
      exact ⟨Halts.refl r s, fun hp' => absurd hp' hp⟩

end Loop

/-- `None` is written as a null result under the class that is registered for the id. -/
def NullAnswer (env : Env T) (s : State T) (id : MsgId) : Prop :=
  match s.resultTypes.get? id with
  | none => True
  | some none => False
  | some (some t) => env.unstructure t .none = some .null

/-- Nothing is in the way of the last segment of `lsp_shutdown`, run for the request `n`. -/
structure Undisturbed (env : Env T) (s : State T) (r : Ref) (id : MsgId) (n : Nat) : Prop where
  pending : s.pendingAt r = true
  own : ∀ (i : Ref) (f : Future), s.requestFutures.get? id = some i → s.futures[i]? = some f →
    f.isPending = true → i = r
  others : ∀ (k : MsgId) (i : Ref) (f : Future), s.requestFutures.get? k = some i → k ≠ id →
    s.futures[i]? = some f → Harmless n s f
  null : NullAnswer env s id

/-- From `s`, where the loop starts, `lsp_shutdown` has come to its end. What was pending in the
table has been cancelled, or another thread was faster and it could not be cancelled any more. -/
structure ShutDown (s s' : State T) (r : Ref) (id : MsgId) (n : Nat) : Prop where
  shutdown : s'.shutdown = true
  answered : ∃ cls, Message.response n id (.result cls .null) ∈ s'.sent
  onlyNull : ∀ k a, Message.response n k a ∈ s'.sent → ∃ cls, a = .result cls .null
  cancelled : ∀ (k : MsgId) (i : Ref) (f : Future), s.requestFutures.get? k = some i → i ≠ r →
    s.futures[i]? = some f → f.isPending = true →
    ∃ f', s'.futures[i]? = some f' ∧ (f'.Stopped ∨ f'.isPending = false)

section Complete

variable {env : Env T} {s s' : State T} {r : Ref} {f : Future} {id : MsgId} {n : Nat}

/-- The answer to a shutdown request that nothing is in the way of. -/
theorem sendHandlerResult_null (hacc : ∀ k, env.write k = .accepted) (s : State T) (n : Nat)
    (hnull : NullAnswer env s id) :
    ∃ cls u, s.sendHandlerResult env id n (.finished (.returned .none)) = u ∧
      u.shutdown = s.shutdown ∧ u.futures = s.futures ∧
      u.sent = s.sent ++ [.response n id (.result cls .null)] := by
  have htypes : (s.popFuture id).resultTypes = s.resultTypes := rfl
  rw [State.sendHandlerResult, State.sendResult, htypes]
  unfold NullAnswer at hnull
  split at hnull
  · rename_i hget
    simp only [hget, Env.answer, Env.encode, Json.toJson, Option.map_some, State.sendData, hacc,
      State.orSendException]
    exact ⟨none, _, rfl, rfl, rfl, rfl⟩
  · exact False.elim hnull
  · rename_i t hget
    simp only [hget, Env.answer, Env.encode, hnull, Option.map_some, State.sendData, hacc,
      State.orSendException]
    exact ⟨some t, _, rfl, rfl, rfl, rfl⟩

/-- The generator returns and its request is answered. -/
theorem shutdown_returns (hacc : ∀ k, env.write k = .accepted) {t : State T}
    (hr : t.futures[r]? = some f) (hp : f.isPending = true) (hnull : NullAnswer env t id) :
    ∃ cls, ∃ u, State.executeRaised env .main (.runGenerator r (.sendHandlerResult id n))
        (.stopIteration .none) ({ t with shutdown := true }.leave r) = u ∧
      u.shutdown = true ∧ u.sent = t.sent ++ [.response n id (.result cls .null)] ∧
      ∀ (i : Ref), i ≠ r → u.futures[i]? = t.futures[i]? := by
  have hleft := State.getElem?_modify_self (s := { t with shutdown := true })
    (g := fun f => { f with active := none }) hr
  have hset : ({ t with shutdown := true }.leave r).setOutcome r (.returned .none) =
      some (({ t with shutdown := true }.leave r).modify r
        (Future.settle (.finished (.returned .none)))) := by
    rw [State.setOutcome, if_pos]
    rw [State.leave, hleft]
    exact hp
  have hout : (PyExc.stopIteration PyValue.none).outcome = .returned .none := rfl
  have hnull' : NullAnswer env (({ t with shutdown := true }.leave r).modify r
      (Future.settle (.finished (.returned .none)))) id := hnull
  obtain ⟨cls, u, hsend, hshut, hfut, hsent⟩ := sendHandlerResult_null hacc _ n hnull'
  refine ⟨cls, u, ?_, hshut, hsent, ?_⟩
  · rw [State.executeRaised, hout]
    simp only [hset, State.runCallback, hsend]
  · intro i hir
    rw [hfut, State.getElem?_modify_ne hir, State.leave,
      State.getElem?_modify_ne hir]

end Complete

/-- A server whose handlers are all built-in generators. -/
def generatorsEnv : Env Unit :=
  { sampleEnv with fm := ⟨fun _ => some .generator, fun _ => none⟩ }

end Pygls
