import Pygls.Responses
import Pygls.Generators
import Pygls.Cancellation

/-!
# Under whose id a task is filed

`_execute_handler` files the coroutine of a request under the request's id, and one that a
generator yields to under an id of its own. As long as these ids do not meet, the id of a
request leads to the first, and never to the second; so `$/cancelRequest` reaches the first
only.
-/

namespace Pygls

set_option autoImplicit false

variable {T : Type}

/-- The callback leads to a request with the id. -/
def Callback.Answers (id : MsgId) : Callback → Prop
  | .sendHandlerResult k _ => k = id
  | .checkHandlerResult => False
  | .client => False
  | .runGenerator _ up => up.Answers id

namespace State

def Received (s : State T) (id : MsgId) : Prop := ∃ q ∈ s.received, q.1.id = id

/-- The future is the one of the handler that a request with the id has been given to. -/
def Owns (s : State T) (kind : Option HandlerKind) (id : MsgId) (x : Ref) : Prop :=
  ∃ n, s.skeleton[x]? = some (kind, .sendHandlerResult id n)

end State

structure Owners (s : State T) : Prop where
  linked : Linked s
  known : ∀ (kind : Option HandlerKind) (id : MsgId) (x : Ref), s.Owns kind id x → s.Received id
  unique : ∀ (kind kind' : Option HandlerKind) (id : MsgId) (x y : Ref), s.Owns kind id x →
    s.Owns kind' id y → x = y

structure Filing (s : State T) : Prop where
  owners : Owners s
  listed : ∀ (id : MsgId) (x : Ref), s.requestFutures.get? id = some x → x < s.skeleton.length
  yielded : ∀ (id : MsgId) (x : Ref) (kind : Option HandlerKind) (p : Ref) (up : Callback),
    s.requestFutures.get? id = some x → s.skeleton[x]? = some (kind, .runGenerator p up) →
    ¬s.Received id
  own : ∀ (id : MsgId) (x : Ref), s.Owns (some .coroutine) id x → s.pendingAt x = true →
    s.requestFutures.get? id = some x ∨ s.askedAt x = true

/-- No future is added, and a request's own task stays filed or is asked to stop. -/
structure Keeps (s t : State T) : Prop where
  shrinks : Shrinks s t
  received : t.received = s.received
  asked : ∀ x, s.askedAt x = true → t.askedAt x = true
  filed : ∀ (id : MsgId) (x : Ref), s.Owns (some .coroutine) id x → t.pendingAt x = true →
    s.requestFutures.get? id = some x → t.requestFutures.get? id = some x ∨ t.askedAt x = true

/-- What leads to one of the requests received so far is not filed under the ids it uses. -/
def Distinct (s : State T) : LanguageServer.Event → Prop
  | .protocol (.request q _) => ¬s.Received q.id ∧ s.requestFutures.get? q.id = none
  | .protocol (.notification _ uuid _) => ¬s.Received (.str uuid)
  | .protocol (.response id _) => ¬s.Received id
  | .protocol (.errorResponse id _) => ¬s.Received id
  | .protocol (.sendRequest id _ _) => ¬s.Received id
  | .protocol (.genYield _ uuid _ _) => ¬s.Received (.str uuid)
  | _ => True

section Keeps

variable {env : Env T} {s t u : State T}

/-- What is still open has been asked only as a task, and that lasts. -/
theorem isAsked_of_open {f g : Future} (hopen : f.isOpen = true) (ha : f.isAsked = true)
    (hk : g.handler = f.handler) (hc : g.cancelRequested = f.cancelRequested) :
    g.isAsked = true := by
  have hlive : f.isCancelled = false := by
    unfold Future.isOpen at hopen
    unfold Future.isCancelled
    split at hopen
    · rename_i hpend
      rw [hpend]
    · rename_i hrun
      rw [hrun]
    · cases hopen
  rw [Future.isAsked, hlive, Bool.false_or] at ha
  rw [Future.isAsked, Future.isTask, hk, hc, Bool.or_eq_true]
  exact Or.inr ha

theorem Owners.congr (h : Owners s) (hsk : t.skeleton = s.skeleton)
    (hrec : ∀ id, s.Received id → t.Received id) : Owners t := by
  have howns : ∀ (kind : Option HandlerKind) (id : MsgId) (x : Ref), t.Owns kind id x →
      s.Owns kind id x := by
    intro kind id x hx
    unfold State.Owns at hx ⊢
    rwa [hsk] at hx
  constructor
  case linked => exact h.linked.congr hsk
  case known =>
    intro kind id x hx
    exact hrec id (h.known kind id x (howns kind id x hx))
  case unique =>
    intro kind kind' id x y hx hy
    exact h.unique kind kind' id x y (howns kind id x hx) (howns kind' id y hy)

theorem Filing.keeps (h : Filing s) (hk : Keeps s t) : Filing t := by
  have hsk := hk.shrinks.skeleton
  have hrec : ∀ id, t.Received id ↔ s.Received id := by
    intro id
    unfold State.Received
    rw [hk.received]
  constructor
  case owners => exact h.owners.congr hsk fun id hid => (hrec id).mpr hid
  case listed =>
    intro id x hx
    rw [hsk]
    exact h.listed id x (hk.shrinks.table id x hx)
  case yielded =>
    intro id x kind p up hx hcb
    rw [hsk] at hcb
    rw [hrec]
    exact h.yielded id x kind p up (hk.shrinks.table id x hx) hcb
  case own =>
    intro id x hx hpend
    have hx' : s.Owns (some .coroutine) id x := by
      unfold State.Owns at hx ⊢
      rwa [hsk] at hx
    rcases h.own id x hx' (hk.shrinks.pending x hpend) with hfiled | hasked
    · exact hk.filed id x hx' hpend hfiled
    · exact Or.inr (hk.asked x hasked)

namespace Keeps

theorem refl (s : State T) : Keeps s s :=
  ⟨Shrinks.refl s, rfl, fun _ h => h, fun _ _ _ _ h => Or.inl h⟩

theorem trans (h : Keeps s t) (h' : Keeps t u) : Keeps s u := by
  refine ⟨h.shrinks.trans h'.shrinks, h'.received.trans h.received,
    fun x hx => h'.asked x (h.asked x hx), ?_⟩
  intro id x hown hpend hfiled
  have hown' : t.Owns (some .coroutine) id x := by
    unfold State.Owns at hown ⊢
    rwa [h.shrinks.skeleton]
  rcases h.filed id x hown (h'.shrinks.pending x hpend) hfiled with hfiled | hasked
  · exact h'.filed id x hown' hpend hfiled
  · exact Or.inr (h'.asked x hasked)

theorem of_table (hst : Shrinks s t) (hrec : t.received = s.received) (hf : t.futures = s.futures)
    (htable : ∀ (id : MsgId) (x : Ref), s.Owns (some .coroutine) id x → s.pendingAt x = true →
      t.requestFutures.get? id = s.requestFutures.get? id) : Keeps s t := by
  refine ⟨hst, hrec, ?_, ?_⟩
  · intro x hx
    rwa [askedAt_of_futures hf]
  · intro id x hown hpend hfiled
    rw [htable id x hown (hst.pending x hpend)]
    exact Or.inl hfiled

theorem of_modify (s : State T) (r : Ref) {g : Future → Future}
    (hk : ∀ f, (g f).handler = f.handler) (hcb : ∀ f, (g f).callback = f.callback)
    (hp : ∀ f, (g f).isPending = true → f.isPending = true)
    (ha : ∀ f, s.futures[r]? = some f → f.isAsked = true → (g f).isAsked = true) :
    Keeps s (s.modify r g) := by
  refine ⟨Shrinks.of_modify s r hk hcb hp, rfl, ?_, fun _ _ _ _ h => Or.inl h⟩
  intro x hx
  unfold State.askedAt at hx ⊢
  rw [State.getElem?_modify]
  split
  · rename_i hrx
    subst hrx
    obtain ⟨f, hf, hasked⟩ := (Option.any_eq_true _ _).mp hx
    rw [hf]
    exact ha f hf hasked
  · exact hx

theorem down (s : State T) : Keeps s { s with shutdown := true } :=
  of_table ⟨fun _ _ h => h, fun _ h => h, fun _ h => h, rfl⟩ rfl rfl fun _ _ _ _ => rfl

theorem leave (s : State T) (r : Ref) : Keeps s (s.leave r) :=
  of_modify s r (fun _ => rfl) (fun _ => rfl) (fun _ hp => hp) fun _ _ ha => ha

/-- Only what is still open is ended. -/
theorem of_settle {r : Ref} {st : FutureState} (hst : st ≠ .pending)
    (hopen : ∀ f, s.futures[r]? = some f → f.isOpen = true) :
    Keeps s (s.modify r (Future.settle st)) := by
  refine of_modify s r (fun _ => rfl) (fun _ => rfl) ?_ ?_
  · intro f hp
    cases st with
    | pending => exact absurd rfl hst
    | running => cases hp
    | cancelled => cases hp
    | finished o => cases hp
  · intro f hf ha
    exact isAsked_of_open (hopen f hf) ha rfl rfl

end Keeps

end Keeps

/-- What running a callback changes: no more than the entry of the request it answers. -/
structure Calls (cb : Callback) (s t : State T) : Prop where
  shrinks : Shrinks s t
  received : t.received = s.received
  asked : ∀ x, t.askedAt x = s.askedAt x
  table : ∀ id, ¬cb.Answers id → t.requestFutures.get? id = s.requestFutures.get? id

section Calls

variable {env : Env T} {s t u : State T} {cb cb' : Callback}

theorem Calls.refl (cb : Callback) (s : State T) : Calls cb s s :=
  ⟨Shrinks.refl s, rfl, fun _ => rfl, fun _ _ => rfl⟩

theorem Calls.trans (h : Calls cb s t) (h' : Calls cb' t u)
    (hcb : ∀ id, cb'.Answers id → cb.Answers id) : Calls cb s u := by
  refine ⟨h.shrinks.trans h'.shrinks, h'.received.trans h.received,
    fun x => (h'.asked x).trans (h.asked x), ?_⟩
  intro id hid
  rw [h'.table id fun hans => hid (hcb id hans), h.table id hid]

theorem calls_setOutcome {r : Ref} {o : Outcome} (cb : Callback) (hs : s.setOutcome r o = some t) :
    Calls cb s t := by
  have hst := Shrinks.of_setOutcome hs
  obtain ⟨f, hf, hpend, rfl⟩ := setOutcome_eq_some hs
  refine ⟨hst, rfl, ?_, fun _ _ => rfl⟩
  refine askedAt_modify s r ?_
  intro f' hf'
  rw [hf] at hf'
  cases hf'
  exact isAsked_settle hpend o

theorem calls_runCallback (env : Env T) (th : Thread) (cb : Callback) (c : Completion)
    (s : State T) : Calls cb s (State.runCallback env th cb c s) := by
  refine runCallback_rule (I := Calls cb s)
    (R := fun _ cb' _ => ∀ id, cb'.Answers id → cb.Answers id) ?_ ?_ ?_ cb c s (.refl cb s)
    fun _ hans => hans
  · intro t id n c h hcb
    have hs := State.sendHandlerResult_sends env t id n c
    refine h.trans ⟨Shrinks.of_answer env t id n c, hs.received, askedAt_of_futures hs.futures, ?_⟩
      hcb
    intro k hk
    rw [sendHandlerResult_requestFutures]
    exact Lib.Dict.get?_pop_ne _ (Ne.symm hk)
  · intro t r up c v h hcb
    refine h.trans ⟨Shrinks.of_modify t r (fun _ => rfl) (fun _ => rfl) fun _ hp => hp, rfl, ?_,
      fun _ _ => rfl⟩ hcb
    exact askedAt_modify t r fun _ _ => rfl
  · intro t t' r up c x h hcb _ hs
    exact ⟨h.trans (calls_setOutcome _ hs) hcb, hcb⟩

theorem calls_executeRaised (th : Thread) (cb : Callback) (x : PyExc) (s : State T) :
    Calls cb s (State.executeRaised env th cb x s) := by
  refine executeRaised_rule (I := Calls cb s)
    (R := fun _ cb' _ => ∀ id, cb'.Answers id → cb.Answers id)
    (P := fun _ cb' _ => ∀ id, cb'.Answers id → cb.Answers id) ?_ ?_ ?_ ?_ cb x s (.refl cb s)
    fun _ hans => hans
  · intro cb' c t h hcb
    exact h.trans (calls_runCallback env th cb' c t) hcb
  · intro t id n x h hcb
    have hs := State.sendException_sends env t n id x
    have hst : Shrinks t (t.sendException env n id x) :=
      Shrinks.executeRaised env th (.sendHandlerResult id n) x t
    refine h.trans ⟨hst, hs.received, askedAt_of_futures hs.futures, ?_⟩ hcb
    intro k _
    rw [sendException_requestFutures]
  · intro t t' r up x h hcb hs
    exact ⟨h.trans (calls_setOutcome _ hs) hcb, hcb⟩
  · intro t r up x _ hcb _ _
    exact hcb

theorem Calls.keeps (h : Calls cb s t)
    (hcb : ∀ (id : MsgId) (x : Ref), s.Owns (some .coroutine) id x → t.pendingAt x = true →
      ¬cb.Answers id) : Keeps s t := by
  refine ⟨h.shrinks, h.received, ?_, ?_⟩
  · intro x hx
    rwa [h.asked]
  · intro id x hown hpend hfiled
    rw [h.table id (hcb id x hown hpend)]
    exact Or.inl hfiled

/-- A request with a task of its own has no generator. -/
theorem Owners.not_answers (h : Owners s) {id : MsgId} {x p : Ref} {up : Callback}
    (hx : s.Owns (some .coroutine) id x) (hp : s.skeleton[p]? = some (some .generator, up)) :
    ¬up.Answers id := by
  intro hans
  induction up generalizing p with
  | sendHandlerResult k n =>
    cases hans
    cases h.unique _ _ id x p hx ⟨n, hp⟩
    obtain ⟨m, hm⟩ := hx
    rw [hp] at hm
    cases hm
  | checkHandlerResult => exact hans
  | client => exact hans
  | runGenerator q up ih => exact ih (h.linked.yielded p _ q up hp).2 hans

theorem Owners.eq_of_answers (h : Owners s) {r x : Ref} {f : Future} {id : MsgId}
    (hf : s.futures[r]? = some f) (hans : f.callback.Answers id)
    (hx : s.Owns (some .coroutine) id x) : x = r := by
  have hat : s.skeleton[r]? = some (f.handler, f.callback) := by
    rw [State.getElem?_skeleton, hf]
    rfl
  generalize f.callback = cb at hans hat
  cases cb with
  | sendHandlerResult k n =>
    cases hans
    exact h.unique _ _ id x r hx ⟨n, hat⟩
  | checkHandlerResult => cases hans
  | client => cases hans
  | runGenerator p up =>
    have hnot : ¬up.Answers id := h.not_answers hx (h.linked.yielded r _ p up hat).2
    exact absurd hans hnot

/-- A future that is done is called back. -/
theorem keeps_callback (h : Owners s) (th : Thread) {r : Ref} {f : Future} {cb : Callback}
    (c : Completion) (hf : s.futures[r]? = some f) (hcb : f.callback = cb)
    (hdone : s.pendingAt r = false) : Keeps s (State.runCallback env th cb c s) := by
  have hcalls := calls_runCallback env th cb c s
  refine hcalls.keeps ?_
  intro id x hown hpend hans
  subst hcb
  rw [h.eq_of_answers hf hans hown] at hpend
  have hold := hcalls.shrinks.pending r hpend
  rw [hdone] at hold
  cases hold

/-- The driver of a generator takes an exception. -/
theorem keeps_raised (h : Owners s) (th : Thread) {r : Ref} {cb : Callback} (x : PyExc)
    (hr : s.skeleton[r]? = some (some .generator, cb)) :
    Keeps s (State.executeRaised env th (.runGenerator r cb) x s) := by
  refine (calls_executeRaised th _ x s).keeps ?_
  intro id y hown _
  have hnot : ¬cb.Answers id := h.not_answers hown hr
  exact hnot

end Calls

section Operations

variable {env : Env T} {s t : State T}

theorem Owners.keeps (h : Owners s) (hk : Keeps s t) : Owners t := by
  refine h.congr hk.shrinks.skeleton ?_
  rintro id ⟨q, hq, hid⟩
  exact ⟨q, hk.received ▸ hq, hid⟩

/-- A future that is open is ended and called back. -/
theorem keeps_complete (h : Owners s) (th : Thread) {r : Ref} {f : Future} {cb : Callback}
    {st : FutureState} (c : Completion) (hf : s.futures[r]? = some f) (hcb : f.callback = cb)
    (hopen : f.isOpen = true) (hst : st ≠ .pending) :
    Keeps s (State.runCallback env th cb c (s.modify r (Future.settle st))) := by
  have hends : Keeps s (s.modify r (Future.settle st)) := by
    refine Keeps.of_settle hst ?_
    intro f' hf'
    rw [hf] at hf'
    cases hf'
    exact hopen
  have hf' := State.getElem?_modify_self (g := Future.settle st) hf
  refine hends.trans (keeps_callback (h.keeps hends) th c hf' hcb ?_)
  rw [State.pendingAt, hf', Option.any_some]
  cases st with
  | pending => exact absurd rfl hst
  | running => rfl
  | cancelled => rfl
  | finished o => rfl

theorem keeps_cancel (env : Env T) (h : Owners s) (th : Thread) (r : Ref) :
    Keeps s (State.cancel env th s r) := by
  unfold State.cancel
  split
  · exact Keeps.refl s
  · rename_i f hf
    split
    · rename_i htask
      split
      · refine Keeps.of_modify s r (fun _ => rfl) (fun _ => rfl) (fun _ hp => hp) ?_
        intro f' hf' _
        rw [hf] at hf'
        cases hf'
        rw [Future.isAsked, Bool.or_eq_true, Bool.and_eq_true]
        exact Or.inr ⟨htask, rfl⟩
      · exact Keeps.refl s
    · split
      · rename_i hpend
        exact keeps_complete h th .cancelled hf rfl (isOpen_of_isPending hpend)
          FutureState.cancelled_ne_pending
      · exact Keeps.refl s

/-- Only requests of the other direction are answered under an id that is not a request's. -/
theorem keeps_handleResponse (h : Owners s) {id : MsgId} (o : Outcome) (hid : ¬s.Received id) :
    Keeps s (s.handleResponse env id o) := by
  have hpop : Keeps s (s.popFuture id) := by
    refine Keeps.of_table (Shrinks.of_pop s id) rfl rfl ?_
    intro k x hown _
    have hne : k ≠ id := by
      rintro rfl
      exact hid (h.known _ k x hown)
    exact Lib.Dict.get?_pop_ne _ hne
  simp only [State.handleResponse]
  split
  · exact Keeps.refl s
  · split
    · exact hpop
    · rename_i f hf
      split
      · exact hpop
      · split
        · rename_i hopen
          exact hpop.trans (keeps_complete (h.keeps hpop) .main _ hf rfl hopen
            (FutureState.finished_ne_pending o))
        · exact hpop

/-- The future that the notification takes from the table is asked to stop, if it is a task. -/
theorem keeps_cancelNotification (h : Owners s) (id : MsgId) :
    Keeps s (s.handleCancelNotification env id) := by
  unfold State.handleCancelNotification
  split
  · exact Keeps.refl s
  · rename_i r hr
    have hpop : Owners (s.popFuture id) := h.congr rfl fun _ hk => hk
    have hcancel := keeps_cancel env hpop .main r
    refine ⟨(Shrinks.of_pop s id).trans hcancel.shrinks, hcancel.received, hcancel.asked, ?_⟩
    intro k x hown hpend hfiled
    by_cases hk : k = id
    · subst hk
      rw [hr] at hfiled
      cases hfiled
      right
      obtain ⟨n, hn⟩ := hown
      rw [State.getElem?_skeleton] at hn
      obtain ⟨f, hf, heq⟩ := Option.map_eq_some_iff.mp hn
      have hpend' : f.isPending = true := by
        have hold := hcancel.shrinks.pending r hpend
        rwa [State.pendingAt, show (s.popFuture k).futures[r]? = some f from hf,
          Option.any_some] at hold
      rw [cancel_askedAt env .main (s := s.popFuture k) hf]
      rcases task_heeds_or_asked hf (Prod.mk.inj heq).1 hpend' with hheeds | hasked
      · rw [if_pos ⟨rfl, hheeds⟩]
      · split
        · rfl
        · exact hasked
    · refine hcancel.filed k x hown hpend ?_
      rw [State.popFuture, Lib.Dict.get?_pop_ne _ hk]
      exact hfiled

theorem keeps_syncEnd (h : Owners s) {r : Ref} {f : Future} (th : Thread) (o : Outcome)
    (hf : s.futures[r]? = some f) (hsync : f.handler = some .sync) :
    Keeps s (State.syncEnd env s r f.callback th o) := by
  have hleave := Keeps.leave s r
  have hf' := State.getElem?_modify_self (g := fun f => { f with active := none }) hf
  unfold State.syncEnd
  split
  · rename_i t ht
    obtain ⟨g, hg, hpend, rfl⟩ := setOutcome_eq_some ht
    rw [State.leave, hf'] at hg
    cases hg
    exact hleave.trans
      (keeps_complete (h.keeps hleave) th _ hf' rfl (isOpen_of_isPending hpend)
        (FutureState.finished_ne_pending o))
  · refine hleave.trans ((calls_executeRaised th _ _ _).keeps ?_)
    intro id x hown _ hans
    have hans' : ({ f with active := none } : Future).callback.Answers id := hans
    have hx := (h.keeps hleave).eq_of_answers hf' hans' hown
    obtain ⟨n, hn⟩ := hown
    rw [hx, State.leave, State.getElem?_skeleton, hf', Option.map_some] at hn
    rw [show f.handler = some .coroutine from (Prod.mk.inj (Option.some.inj hn)).1] at hsync
    cases hsync

theorem keeps_leave_raised (h : Owners s) (th : Thread) {r : Ref} {cb : Callback} (x : PyExc)
    (hr : s.skeleton[r]? = some (some .generator, cb)) :
    Keeps s (State.executeRaised env th (.runGenerator r cb) x (s.leave r)) := by
  have hleave := Keeps.leave s r
  refine hleave.trans (keeps_raised (h.keeps hleave) th x ?_)
  rw [State.skeleton_leave]
  exact hr

theorem keeps_cancelOthers (env : Env T) (h : Owners s) (th : Thread) (current : Option MsgId)
    (size : Nat) (entries : List (MsgId × Ref)) :
    Keeps s (State.cancelOthers env th current size entries s).1 := by
  induction entries generalizing s with
  | nil => exact Keeps.refl s
  | cons entry rest ih =>
    rw [State.cancelOthers]
    split
    · split
      · have hcancel := keeps_cancel env h th entry.2
        exact hcancel.trans (ih (h.keeps hcancel))
      · exact ih h
    · exact Keeps.refl s

theorem keeps_shutdownEnd (h : Owners s) (th : Thread) {r : Ref} {cb : Callback}
    (hr : s.skeleton[r]? = some (some .generator, cb)) :
    Keeps s (s.shutdownEnd env r cb th) := by
  have hloop := keeps_cancelOthers env h th (cb.msgId th) s.requestFutures.size
    s.requestFutures.entries
  rw [← hloop.shrinks.skeleton] at hr
  simp only [State.shutdownEnd]
  split
  · have hkeeps := hloop.trans (Keeps.down _)
    exact hkeeps.trans (keeps_leave_raised (h.keeps hkeeps) th _ hr)
  · exact hloop.trans (keeps_leave_raised (h.keeps hloop) th _ hr)

theorem keeps_taskEnd {r : Ref} {f : Future} (o : Option Outcome) (hf : s.futures[r]? = some f)
    (hpend : f.isPending = true) :
    Keeps s (s.modify r fun f => { f with state := o.elim .cancelled .finished }) := by
  refine Keeps.of_modify s r (fun _ => rfl) (fun _ => rfl) ?_ ?_
  · intro g hp
    cases o with
    | none => cases hp
    | some o => cases hp
  · intro g hg ha
    rw [hf] at hg
    cases hg
    exact isAsked_of_open (isOpen_of_isPending hpend) ha rfl rfl

theorem keeps_poolStart {r : Ref} {f : Future} (hf : s.futures[r]? = some f)
    (hpend : f.isPending = true) :
    Keeps s (s.modify r fun f => { f with state := .running, active := some .worker }) := by
  refine Keeps.of_modify s r (fun _ => rfl) (fun _ => rfl) (fun _ hp => nomatch hp) ?_
  intro g hg ha
  rw [hf] at hg
  cases hg
  exact isAsked_of_open (isOpen_of_isPending hpend) ha rfl rfl

theorem keeps_poolEnd (s : State T) (r : Ref) (o : Outcome) :
    Keeps s (s.modify r fun f =>
      { f with active := none, state := if f.isOpen then .finished o else f.state }) := by
  refine Keeps.of_modify s r (fun _ => rfl) (fun _ => rfl) ?_ ?_
  · intro g hp
    cases hopen : g.isOpen with
    | true => simp [Future.isPending, hopen] at hp
    | false => simpa [Future.isPending, hopen] using hp
  · intro g _ ha
    cases hopen : g.isOpen with
    | true => exact isAsked_of_open hopen ha rfl rfl
    | false => simpa [Future.isAsked, Future.isCancelled, Future.isTask, hopen] using ha

theorem keeps_deliver (h : Owners s) (th : Thread) {r : Ref} {f : Future} {c : Completion}
    (hf : s.futures[r]? = some f) (hc : f.completion = some c) :
    Keeps s (State.runCallback env th f.callback c
      (s.modify r fun f => { f with called := true })) := by
  have hmark : Keeps s (s.modify r fun f => { f with called := true }) :=
    Keeps.of_modify s r (fun _ => rfl) (fun _ => rfl) (fun _ hp => hp) fun _ _ ha => ha
  have hf' := State.getElem?_modify_self (g := fun f => { f with called := true }) hf
  refine hmark.trans (keeps_callback (h.keeps hmark) th c hf' rfl ?_)
  rw [State.pendingAt, hf', Option.any_some]
  unfold Future.completion at hc
  unfold Future.isPending
  split at hc
  · cases hc
  · cases hc
  · rename_i hst
    rw [hst]
  · rename_i hst
    rw [hst]

end Operations

section Filing

variable {env : Env T} {s t : State T}

/-- A future is added, and filed under the id unless it is not a task. -/
structure Adds (id : MsgId) (g : Future) (s t : State T) : Prop where
  futures : t.futures = s.futures ++ [g]
  received : t.received = s.received
  old : ∀ k, k ≠ id → t.requestFutures.get? k = s.requestFutures.get? k
  new : t.requestFutures.get? id = some s.fresh ∨
    t.requestFutures.get? id = s.requestFutures.get? id ∧ g.handler ≠ some .coroutine

section Adds

variable {id : MsgId} {g : Future}

theorem Adds.skeleton (h : Adds id g s t) :
    t.skeleton = s.skeleton ++ [(g.handler, g.callback)] := by
  rw [State.skeleton, h.futures, List.map_append]
  rfl

theorem length_skeleton (s : State T) : s.skeleton.length = s.fresh := by
  rw [State.skeleton, List.length_map]
  rfl

theorem Adds.getElem? (h : Adds id g s t) {i : Ref} {x : Option HandlerKind × Callback}
    (hi : t.skeleton[i]? = some x) :
    s.skeleton[i]? = some x ∨ (i = s.fresh ∧ x = (g.handler, g.callback)) := by
  rw [State.getElem?_skeleton] at hi ⊢
  obtain ⟨f, hf, rfl⟩ := Option.map_eq_some_iff.mp hi
  rw [h.futures] at hf
  rcases State.getElem?_alloc (s := s) hf with hf | ⟨rfl, rfl⟩
  · rw [hf]
    exact Or.inl rfl
  · exact Or.inr ⟨rfl, rfl⟩

theorem Adds.table (h : Adds id g s t) {k : MsgId} {x : Ref}
    (hx : t.requestFutures.get? k = some x) :
    s.requestFutures.get? k = some x ∨ (k = id ∧ x = s.fresh) := by
  by_cases hk : k = id
  · subst hk
    rcases h.new with hnew | ⟨hnew, -⟩
    · rw [hnew] at hx
      exact Or.inr ⟨rfl, (Option.some.inj hx).symm⟩
    · rw [hnew] at hx
      exact Or.inl hx
  · rw [h.old k hk] at hx
    exact Or.inl hx

theorem Adds.owns (h : Adds id g s t)
    (hown : ∀ k n, g.callback = .sendHandlerResult k n → k = id ∧ s.Received id)
    {kind : Option HandlerKind} {k : MsgId} {x : Ref} (hx : t.Owns kind k x) :
    s.Owns kind k x ∨ (x = s.fresh ∧ k = id ∧ kind = g.handler ∧ s.Received id) := by
  obtain ⟨n, hn⟩ := hx
  rcases h.getElem? hn with hx | ⟨rfl, heq⟩
  · exact Or.inl ⟨n, hx⟩
  · obtain ⟨hk, hcb⟩ := Prod.mk.inj heq
    obtain ⟨rfl, hreceived⟩ := hown k n hcb.symm
    exact Or.inr ⟨rfl, rfl, hk, hreceived⟩

theorem Adds.receives (h : Adds id g s t) (k : MsgId) : t.Received k ↔ s.Received k := by
  unfold State.Received
  rw [h.received]

theorem Owners.adds (h : Owners s) (ht : Adds id g s t) (hcb : Parented s g.callback)
    (hout : g.handler = none → g.callback = .client) (hid : ∀ kind x, ¬s.Owns kind id x)
    (hown : ∀ k n, g.callback = .sendHandlerResult k n → k = id ∧ s.Received id) : Owners t := by
  constructor
  case linked =>
    refine (h.linked.alloc hcb hout).congr ?_
    rw [ht.skeleton, State.skeleton_alloc]
  case known =>
    intro kind k x hx
    rw [ht.receives]
    rcases ht.owns hown hx with hx | ⟨-, rfl, -, hk⟩
    · exact h.known kind k x hx
    · exact hk
  case unique =>
    intro kind kind' k x y hx hy
    rcases ht.owns hown hx with hx | ⟨rfl, rfl, -, -⟩
    · rcases ht.owns hown hy with hy | ⟨-, rfl, -, -⟩
      · exact h.unique kind kind' k x y hx hy
      · exact absurd hx (hid kind x)
    · rcases ht.owns hown hy with hy | ⟨rfl, -, -, -⟩
      · exact absurd hy (hid kind' y)
      · rfl

theorem Filing.adds (h : Filing s) (ht : Adds id g s t) (hcb : Parented s g.callback)
    (hout : g.handler = none → g.callback = .client) (hid : ∀ kind x, ¬s.Owns kind id x)
    (hown : ∀ k n, g.callback = .sendHandlerResult k n → k = id ∧ s.Received id)
    (hyield : ∀ p up, g.callback = .runGenerator p up → ¬s.Received id) : Filing t := by
  have hnew : ∀ x, s.skeleton[s.fresh]? ≠ some x := by
    intro x hx
    obtain ⟨hlt, -⟩ := List.getElem?_eq_some_iff.mp hx
    rw [length_skeleton] at hlt
    exact Nat.lt_irrefl _ hlt
  constructor
  case owners => exact h.owners.adds ht hcb hout hid hown
  case listed =>
    intro k x hx
    rw [ht.skeleton, List.length_append]
    rcases ht.table hx with hx | ⟨-, rfl⟩
    · exact Nat.lt_succ_of_lt (h.listed k x hx)
    · rw [length_skeleton]
      exact Nat.lt_succ_self _
  case yielded =>
    intro k x kind p up hx hk
    rw [ht.receives]
    rcases ht.table hx with hx | ⟨rfl, rfl⟩
    · rcases ht.getElem? hk with hk | ⟨rfl, -⟩
      · exact h.yielded k x kind p up hx hk
      · have hlt := h.listed k s.fresh hx
        rw [length_skeleton] at hlt
        exact absurd hlt (Nat.lt_irrefl _)
    · rcases ht.getElem? hk with hk | ⟨-, heq⟩
      · exact absurd hk (hnew _)
      · exact hyield p up (Prod.mk.inj heq).2.symm
  case own =>
    intro k x hx hpend
    rcases ht.owns hown hx with hx | ⟨rfl, rfl, hk, -⟩
    · have hne : k ≠ id := by
        rintro rfl
        exact hid _ x hx
      have hsame : t.futures[x]? = s.futures[x]? := by
        obtain ⟨n, hn⟩ := hx
        obtain ⟨hlt, -⟩ := List.getElem?_eq_some_iff.mp hn
        rw [length_skeleton] at hlt
        rw [ht.futures, List.getElem?_append_left hlt]
      rw [State.pendingAt, hsame] at hpend
      rw [ht.old k hne, State.askedAt, hsame]
      exact h.own k x hx hpend
    · rcases ht.new with hfiled | ⟨-, hne⟩
      · exact Or.inl hfiled
      · exact absurd hk.symm hne

end Adds

theorem Filing.executeHandler (h : Filing s) (th : Thread) {id : MsgId} (kind : HandlerKind)
    {cb : Callback} (start : Start) (hcb : Parented s cb)
    (hid : ∀ kind x, ¬s.Owns kind id x)
    (hown : ∀ k n, cb = .sendHandlerResult k n → k = id ∧ s.Received id)
    (hyield : ∀ p up, cb = .runGenerator p up → ¬s.Received id)
    (hraise : ∀ k x, s.Owns (some .coroutine) k x → ¬cb.Answers k) :
    Filing (State.executeHandler env th id kind cb start s) := by
  have raised : ∀ x, Filing (State.executeRaised env th cb x s) := by
    intro x
    exact h.keeps ((calls_executeRaised th cb x s).keeps fun k y hown _ => hraise k y hown)
  have filed : ∀ (kind : HandlerKind) (act : Option Thread),
      Filing ((s.alloc { Future.pending (some kind) cb with active := act }).register id
        s.fresh) := by
    intro kind act
    refine h.adds ⟨rfl, rfl, ?_, ?_⟩ hcb nofun hid hown hyield
    · exact fun k hk => Lib.Dict.get?_set_ne _ _ hk
    · exact Or.inl (Lib.Dict.get?_set_self _ _ _)
  cases kind with
  | coroutine =>
    cases start with
    | some x => exact raised x
    | none =>
      cases th with
      | main => exact filed .coroutine none
      | worker => exact raised .runtimeError
  | thread =>
    cases start with
    | some x => exact raised x
    | none => exact filed .thread none
  | generator => exact filed .generator (some th)
  | sync =>
    refine h.adds ⟨rfl, rfl, fun _ _ => rfl, ?_⟩ hcb nofun hid hown hyield
    exact Or.inr ⟨rfl, nofun⟩

theorem Filing.receive (h : Filing s) {q : Request} (start : Start)
    (hfree : s.requestFutures.get? q.id = none) :
    Filing { s with received := s.received ++ [(q, start)] } := by
  constructor
  case owners =>
    refine h.owners.congr rfl ?_
    rintro id ⟨p, hp, hid⟩
    exact ⟨p, List.mem_append_left _ hp, hid⟩
  case listed => exact h.listed
  case own => exact h.own
  case yielded =>
    rintro id x kind p up hx hcb ⟨p', hp', hid⟩
    rcases List.mem_append.mp hp' with hp' | hnew
    · exact h.yielded id x kind p up hx hcb ⟨p', hp', hid⟩
    · rw [List.mem_singleton] at hnew
      subst hnew
      rw [← hid, hfree] at hx
      cases hx

theorem Filing.handleRequest (h : Filing s) {q : Request} (start : Start)
    (hnew : ¬s.Received q.id) (hfree : s.requestFutures.get? q.id = none) :
    Filing (s.handleRequest env q start) := by
  have hr := h.receive start hfree
  have hid : ∀ kind x, ¬s.Owns kind q.id x := fun kind x hx => hnew (h.owners.known kind q.id x hx)
  unfold State.handleRequest
  split
  · refine hr.keeps ((calls_executeRaised .main (.sendHandlerResult q.id s.received.length) _
      _).keeps ?_)
    rintro k x hx - rfl
    exact hid _ x hx
  · refine hr.executeHandler .main _ start ?_ hid ?_ ?_ ?_
    · exact fun p up hcb => nomatch hcb
    · intro k n hcb
      cases hcb
      exact ⟨rfl, (q, start), List.mem_append_right _ (List.mem_singleton_self _), rfl⟩
    · exact fun p up hcb => nomatch hcb
    · rintro k x hx rfl
      exact hid _ x hx

theorem Filing.genYield (h : Filing s) {r : Ref} {f : Future} (th : Thread) {uuid : Str}
    (kind : HandlerKind) (start : Start) (hid : ¬s.Received (.str uuid))
    (hf : s.futures[r]? = some f) (hgen : f.handler = some .generator) :
    Filing (State.executeHandler env th (.str uuid) kind (.runGenerator r f.callback) start
      (s.leave r)) := by
  have hl := h.keeps (Keeps.leave s r)
  have hr : (s.leave r).skeleton[r]? = some (some .generator, f.callback) := by
    rw [State.skeleton_leave, State.getElem?_skeleton, hf, ← hgen]
    rfl
  refine hl.executeHandler th kind start ?_ ?_ ?_ ?_ ?_
  · intro p up hcb
    cases hcb
    exact hr
  · intro kind x hx
    exact hid (hl.owners.known kind _ x hx)
  · exact fun k n hcb => nomatch hcb
  · exact fun p up hcb => hid
  · intro k x hx
    have hnot : ¬f.callback.Answers k := hl.owners.not_answers hx hr
    exact hnot

theorem Filing.step {e : LanguageServer.Event} (h : Filing s) (hok : Distinct s e)
    (hs : LanguageServer.step env s e = some t) : Filing t := by
  have unowned : ∀ id, ¬s.Received id → ∀ kind x, ¬s.Owns kind id x :=
    fun id hid kind x hx => hid (h.owners.known kind id x hx)
  cases e with
  | shutdown r =>
    obtain ⟨f, id, n, th, hf, hgen, -, hcb, rfl⟩ := LanguageServer.shutdown_cases hs
    refine h.keeps (keeps_shutdownEnd h.owners th ?_)
    rw [State.getElem?_skeleton, hf, ← hgen, ← hcb]
    rfl
  | protocol e =>
    cases step_cases hs with
    | ignored => exact h
    | request => exact h.handleRequest _ hok.1 hok.2
    | @notification method uuid start =>
      unfold State.handleNotification
      split
      · exact h
      · refine h.executeHandler .main _ start ?_ (unowned _ hok) ?_ ?_ ?_
        · intro p up hcb
          cases hcb
        · intro k n hcb
          cases hcb
        · intro p up hcb
          cases hcb
        · exact fun k x _ hans => hans
    | @cancelRequest id => exact h.keeps (keeps_cancelNotification h.owners id)
    | @response id result =>
      have hpop : Keeps s (s.popType id) :=
        Keeps.of_table ⟨fun _ _ hi => hi, fun _ hi => Lib.Dict.get?_pop_of_none hi,
          fun _ hi => hi, rfl⟩ rfl rfl fun _ _ _ _ => rfl
      simp only [State.receiveResult]
      split
      · exact h.keeps hpop
      · split
        · exact h.keeps hpop
        · exact h.keeps (hpop.trans (keeps_handleResponse (h.owners.keeps hpop) _ hok))
    | @errorResponse id error =>
      unfold State.receiveError
      split
      · exact h
      · split
        · exact h.keeps (keeps_handleResponse h.owners _ hok)
        · exact h.keeps (keeps_handleResponse h.owners _ hok)
    | @sendRequest id method params =>
      have ht : Adds id (.pending none .client) s (s.sendRequest env id method params) := by
        have htable := State.sendRequest_requestFutures env s id method params
        refine ⟨State.sendRequest_futures env s id method params,
          State.sendRequest_received env s id method params, ?_, ?_⟩
        · intro k hk
          rw [htable, Lib.Dict.get?_set_ne _ _ hk]
        · rw [htable, Lib.Dict.get?_set_self]
          exact Or.inl rfl
      refine h.adds ht ?_ (fun _ => rfl) (unowned id hok) ?_ ?_
      · intro p up hcb
        cases hcb
      · intro k n hcb
        cases hcb
      · intro p up hcb
        cases hcb
    | @cancelOutgoing r => exact h.keeps (keeps_cancel env h.owners .main r)
    | syncEnd hf hk => exact h.keeps (keeps_syncEnd h.owners _ _ hf hk)
    | genYield hf hk => exact h.genYield _ _ _ hok hf hk
    | @genEnd r f th o hf hk =>
      refine h.keeps (keeps_leave_raised h.owners th _ ?_)
      rw [State.getElem?_skeleton, hf, ← hk]
      rfl
    | taskEnd _ _ hf _ hpend => exact h.keeps (keeps_taskEnd _ hf hpend)
    | poolStart hf _ hpend => exact h.keeps (keeps_poolStart hf hpend)
    | @poolEnd r f th o => exact h.keeps (keeps_poolEnd s r o)
    | deliver hf _ _ hc => exact h.keeps (keeps_deliver h.owners _ hf hc)

theorem Filing.init : Filing (State.init : State T) := by
  have none : ∀ kind id x, ¬(State.init : State T).Owns kind id x := by
    rintro kind id x ⟨n, hn⟩
    cases hn
  constructor
  case owners => exact ⟨Linked.init, fun kind id x hx => absurd hx (none kind id x),
    fun kind _ id x _ hx => absurd hx (none kind id x)⟩
  case listed => exact fun _ _ hx => nomatch hx
  case yielded => exact fun _ _ _ _ _ hx => nomatch hx
  case own => exact fun id x hx => absurd hx (none _ id x)

end Filing

/-- Where no two ids meet, the table leads from a request in flight to its task exactly if the
task is the request's own handler, and not one that a generator has yielded to. -/
theorem task_filed_iff_own {env : Env T} {es : List LanguageServer.Event} {s : State T}
    (hok : Lib.Meets (LanguageServer.step env) Distinct State.init es)
    (hrun : Lib.run (LanguageServer.step env) State.init es = some s) {id : MsgId} {x : Ref}
    {f : Future} (hid : s.Received id) (hup : s.shutdown = false) (hf : s.futures[x]? = some f)
    (hk : f.handler = some .coroutine) (hpend : f.isPending = true) (hans : f.callback.Answers id)
    (hnew : s.askedAt x = false) :
    s.filed id = some x ↔ ∃ n, f.callback = .sendHandlerResult id n := by
  have h : Filing s := Lib.run_invariant (I := Filing) (fun _ _ _ h hok hs => h.step hok hs)
    Filing.init hok hrun
  have hat : s.skeleton[x]? = some (f.handler, f.callback) := by
    rw [State.getElem?_skeleton, hf]
    rfl
  rw [State.filed, hup]
  constructor
  · intro hfiled
    generalize hcb : f.callback = cb at hans hat
    cases cb with
    | sendHandlerResult k n =>
      cases hans
      exact ⟨n, rfl⟩
    | checkHandlerResult => cases hans
    | client => cases hans
    | runGenerator p up => exact absurd hid (h.yielded id x _ p up hfiled hat)
  · rintro ⟨n, hcb⟩
    rw [hk, hcb] at hat
    have hpend' : s.pendingAt x = true := by
      rw [State.pendingAt, hf]
      exact hpend
    rcases h.own id x ⟨n, hat⟩ hpend' with hfiled | hasked
    · exact hfiled
    · rw [hnew] at hasked
      cases hasked

/-- Cancelling a request reaches a task of its user's code exactly if that task is the future
filed under the id; or if it has been asked to stop before, and what is filed there now
belongs to no other request. `task_filed_iff_own` says which tasks are filed so. -/
theorem cancelRequest_reaches_task {env : Env T} {s t : State T} {n : Nat} {id : MsgId} {x : Ref}
    {f : Future} (hf : s.futures[x]? = some f) (hk : f.handler = some .coroutine)
    (hpend : f.isPending = true) (hown : f.callback.request = some n)
    (hs : Pygls.step env s (.cancelRequest id) = some t) :
    CancelsTask s t x n ↔
      s.filed id = some x ∨ (s.askedAt x = true ∧
        ∀ (r : Ref) (g : Future), s.filed id = some r → s.futures[r]? = some g →
          g.heeds = true → ¬g.Foreign n) := by
  have hasked := cancelRequest_askedAt hs
  have hsame : ∀ (y : Ref) (g' : Future), t.futures[y]? = some g' →
      ∃ g, s.futures[y]? = some g ∧ g.handler = g'.handler ∧ g.callback = g'.callback := by
    intro y g' hg'
    have hskel := congrArg (·[y]?) (cancelRequest_skeleton hs)
    simp only [State.getElem?_skeleton] at hskel
    rw [hg'] at hskel
    obtain ⟨g, hg, heq⟩ := Option.map_eq_some_iff.mp hskel.symm
    obtain ⟨hgk, hgcb⟩ := Prod.mk.inj heq
    exact ⟨g, hg, hgk, hgcb⟩
  have hnot : ¬f.Foreign n := by
    rintro (hnone | ⟨m, hreq, hne⟩)
    · rw [hk] at hnone
      cases hnone
    · rw [hown] at hreq
      cases hreq
      exact hne rfl
  constructor
  · intro h
    rcases (hasked x).mp h.task with hold | ⟨g, hfiled, -, -⟩
    · refine Or.inr ⟨hold, ?_⟩
      intro r g hfiled hg hheeds
      have ht : t.askedAt r = true := (hasked r).mpr (Or.inr ⟨g, hfiled, hg, hheeds⟩)
      obtain ⟨g', hg', hga⟩ := (Option.any_eq_true _ _).mp ht
      obtain ⟨g₀, hg₀, hgk, hgcb⟩ := hsame r g' hg'
      rw [hg] at hg₀
      cases hg₀
      rw [foreign_congr hgk hgcb]
      exact h.others r g' hg' hga (askedAt_of_heeds hg hheeds)
    · exact Or.inl hfiled
  · intro h
    refine ⟨?_, ?_⟩
    · rcases h with hfiled | ⟨hold, -⟩
      · rcases task_heeds_or_asked hf hk hpend with hheeds | hold
        · exact (hasked x).mpr (Or.inr ⟨f, hfiled, hf, hheeds⟩)
        · exact (hasked x).mpr (Or.inl hold)
      · exact (hasked x).mpr (Or.inl hold)
    · intro y g' hg' hga hnew
      obtain ⟨g, hg, hgk, hgcb⟩ := hsame y g' hg'
      rw [← foreign_congr hgk hgcb]
      have ht : t.askedAt y = true := (askedAt_of_getElem? hg').trans hga
      rcases (hasked y).mp ht with hold | ⟨g₀, hfiled, hg₀, hheeds⟩
      · rw [hnew] at hold
        cases hold
      · rw [hg] at hg₀
        cases hg₀
        rcases h with hx | ⟨-, hothers⟩
        · rw [hfiled] at hx
          cases hx
          rw [hf] at hg
          cases hg
          exact hnot
        · exact hothers y g hfiled hg hheeds

/-- A server whose handlers are all coroutines. -/
def coroutinesEnv : Env Unit :=
  { sampleEnv with fm := ⟨fun _ => none, fun _ => some .coroutine⟩ }

theorem cancelRequest_reaches_task_own :
    ∃ s t, Lib.run (Pygls.step coroutinesEnv) State.init
        [.request ⟨.int 1, [], .null⟩ none, .request ⟨.int 2, [], .null⟩ none] = some s ∧
      Pygls.step coroutinesEnv s (.cancelRequest (.int 1)) = some t ∧ CancelsTask s t 0 0 := by
  refine ⟨_, _, rfl, rfl, ?_⟩
  exact (cancelRequest_reaches_task (n := 0) rfl rfl rfl rfl rfl).mpr (Or.inl rfl)

/-- A generator, such as the one of `workspace/executeCommand`, has yielded to a coroutine. -/
theorem cancelRequest_misses_task :
    ∃ s t f, Lib.run (Pygls.step sampleEnv) State.init
        [.request ⟨.int 1, [], .null⟩ none, .genYield 0 [65] .coroutine none] = some s ∧
      s.futures[1]? = some f ∧ f.handler = some .coroutine ∧ f.isPending = true ∧
      f.callback.request = some 0 ∧ s.sent = [] ∧
      Pygls.step sampleEnv s (.cancelRequest (.int 1)) = some t ∧ ¬CancelsTask s t 1 0 := by
  refine ⟨_, _, _, rfl, rfl, rfl, rfl, rfl, rfl, rfl, ?_⟩
  intro h
  have htask := h.task
  cases htask

end Pygls
