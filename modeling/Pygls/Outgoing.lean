import Pygls.Answers

/-!
# What the handlers leave alone

The futures of outgoing requests share their tables with everything the handlers
do. `Quiet own hit` says what a step may have changed when it neither sends a
request nor takes a response to one of ours, `own` being the ids of ours: no
outgoing future was resolved, at most cancelled, and no entry under an id of ours
is new. `hit` are the futures that may have been cancelled.
-/

namespace Pygls

set_option autoImplicit false

variable {T : Type}

def Message.request? : Message T → Option Request
  | .request q => some q
  | .response _ _ _ => none

/-- How far a future may have got. -/
structure Future.Advances (f g : Future) : Prop where
  handler : g.handler = f.handler
  callback : g.callback = f.callback
  done : f.isOpen = false → g.state = f.state
  outgoing : f.handler = none → g.state = f.state ∨ g.state = .cancelled

structure Quiet (own : MsgId → Prop) (hit : Ref → Prop) (s t : State T) : Prop where
  received : t.received = s.received
  sent : ∃ ms, t.sent = s.sent ++ ms ∧ ∀ m ∈ ms, m.request? = none
  futures : ∀ (r : Ref) (f : Future), s.futures[r]? = some f →
    ∃ g, t.futures[r]? = some g ∧ f.Advances g
  cancelled : ∀ (r : Ref) (g : Future), t.futures[r]? = some g → g.state = .cancelled →
    hit r ∨ ∃ f, s.futures[r]? = some f ∧ f.state = .cancelled
  table : ∀ (k : MsgId) (r : Ref), t.requestFutures.get? k = some r →
    s.requestFutures.get? k = some r ∨ ¬ own k ∧ ∃ g, t.futures[r]? = some g ∧ g.handler ≠ none ∧
      ∀ id n, g.callback = .sendHandlerResult id n → k = id
  types : ∀ k, own k → t.resultTypes.get? k = s.resultTypes.get? k
  typesOnly : ∀ (k : MsgId) (x : Option T), t.resultTypes.get? k = some x →
    s.resultTypes.get? k = some x

theorem Future.Advances.refl (f : Future) : f.Advances f :=
  ⟨rfl, rfl, fun _ => rfl, fun _ => Or.inl rfl⟩

/-- A handler's future that is not done may get any state. -/
theorem Future.Advances.of_open {f g : Future} (hopen : f.isOpen = true) (hk : f.handler ≠ none)
    (hhandler : g.handler = f.handler) (hcallback : g.callback = f.callback) : f.Advances g := by
  refine ⟨hhandler, hcallback, fun hclosed => ?_, fun hnone => absurd hnone hk⟩
  rw [hopen] at hclosed
  cases hclosed

theorem Future.Advances.trans {f g h : Future} (hfg : f.Advances g) (hgh : g.Advances h) :
    f.Advances h := by
  constructor
  case handler => exact hgh.handler.trans hfg.handler
  case callback => exact hgh.callback.trans hfg.callback
  case done =>
    intro hf
    have hst := hfg.done hf
    exact (hgh.done (isOpen_congr hst ▸ hf)).trans hst
  case outgoing =>
    intro hf
    rcases hgh.outgoing (hfg.handler.trans hf) with hst | hst
    · exact (hfg.outgoing hf).imp hst.trans hst.trans
    · exact Or.inr hst

namespace Quiet

variable {own : MsgId → Prop} {hit : Ref → Prop} {s t u : State T}

theorem refl (s : State T) : Quiet own hit s s where
  received := rfl
  sent := ⟨[], by simp, nofun⟩
  futures := fun _ f hf => ⟨f, hf, .refl f⟩
  cancelled := fun _ g hg hst => Or.inr ⟨g, hg, hst⟩
  table := fun _ _ h => Or.inl h
  types := fun _ _ => rfl
  typesOnly := fun _ _ h => h

theorem trans (h : Quiet own hit s t) (h' : Quiet own hit t u) : Quiet own hit s u := by
  constructor
  case received => exact h'.received.trans h.received
  case sent =>
    obtain ⟨ms, hms, hreq⟩ := h.sent
    obtain ⟨ms', hms', hreq'⟩ := h'.sent
    refine ⟨ms ++ ms', by rw [hms', hms, List.append_assoc], ?_⟩
    intro m hm
    rcases List.mem_append.mp hm with hm | hm
    · exact hreq m hm
    · exact hreq' m hm
  case futures =>
    intro r f hf
    obtain ⟨g, hg, hfg⟩ := h.futures r f hf
    obtain ⟨g', hg', hgg'⟩ := h'.futures r g hg
    exact ⟨g', hg', hfg.trans hgg'⟩
  case cancelled =>
    intro r g hg hst
    rcases h'.cancelled r g hg hst with hhit | ⟨f, hf, hfst⟩
    · exact Or.inl hhit
    · exact h.cancelled r f hf hfst
  case table =>
    intro k r hk
    rcases h'.table k r hk with hk | hnew
    · rcases h.table k r hk with hk | ⟨hown, g, hg, hkind, hkey⟩
      · exact Or.inl hk
      · obtain ⟨g', hg', hadv⟩ := h'.futures r g hg
        refine Or.inr ⟨hown, g', hg', ?_, ?_⟩
        · rw [hadv.handler]
          exact hkind
        · rw [hadv.callback]
          exact hkey
    · exact Or.inr hnew
  case types =>
    intro k hk
    exact (h'.types k hk).trans (h.types k hk)
  case typesOnly =>
    intro k x hx
    exact h.typesOnly k x (h'.typesOnly k x hx)

theorem modify (s : State T) (r : Ref) {g : Future → Future}
    (hadv : ∀ f, s.futures[r]? = some f → f.Advances (g f))
    (hcan : ∀ f, s.futures[r]? = some f → (g f).state = .cancelled → hit r ∨ f.state = .cancelled) :
    Quiet own hit s (s.modify r g) := by
  have h : Quiet own hit s s := refl s
  refine { h with futures := ?_, cancelled := ?_, table := ?_ }
  · intro i f hf
    rw [State.getElem?_modify]
    split
    · rename_i hri
      subst hri
      exact ⟨g f, by rw [hf]; rfl, hadv f hf⟩
    · exact ⟨f, hf, .refl f⟩
  · intro i f' hf' hst
    obtain ⟨f, hf, ⟨rfl, rfl⟩ | ⟨-, rfl⟩⟩ := modify_cases hf'
    · exact (hcan f hf hst).imp_right fun hst => ⟨f, hf, hst⟩
    · exact Or.inr ⟨f', hf, hst⟩
  · intro k i hk
    exact Or.inl hk

/-- A change that leaves the future's state, handler and callback alone. -/
theorem touch (s : State T) (r : Ref) {g : Future → Future} (hstate : ∀ f, (g f).state = f.state)
    (hhandler : ∀ f, (g f).handler = f.handler) (hcallback : ∀ f, (g f).callback = f.callback) :
    Quiet own hit s (s.modify r g) := by
  refine modify s r ?_ ?_
  · intro f _
    exact ⟨hhandler f, hcallback f, fun _ => hstate f, fun _ => Or.inl (hstate f)⟩
  · intro f _ hst
    exact Or.inr ((hstate f).symm.trans hst)

theorem alloc (s : State T) {f : Future} (hpend : f.state = .pending) :
    Quiet own hit s (s.alloc f) := by
  have h : Quiet own hit s s := refl s
  refine { h with futures := ?_, cancelled := ?_, table := ?_ }
  · intro i g hg
    exact ⟨g, Discipline.getElem?_alloc_of_some hg, .refl g⟩
  · intro i g hg hst
    rcases State.getElem?_alloc hg with hold | ⟨-, rfl⟩
    · exact Or.inr ⟨g, hold, hst⟩
    · rw [hpend] at hst
      cases hst
  · intro k i hk
    exact Or.inl hk

/-- The future of a handler that was just started, under an id that is not ours. -/
theorem register (s : State T) {f : Future} {k : MsgId} (hpend : f.state = .pending)
    (hkind : f.handler ≠ none) (hown : ¬ own k)
    (hkey : ∀ id n, f.callback = .sendHandlerResult id n → k = id) :
    Quiet own hit s ((s.alloc f).register k s.fresh) := by
  have h : Quiet own hit s (s.alloc f) := alloc s hpend
  refine { h with table := ?_ }
  intro j i hj
  by_cases hjk : j = k
  · subst hjk
    have hi : s.fresh = i := Option.some.inj (by rw [← hj]; exact (Lib.Dict.get?_set_self _ _ _).symm)
    subst hi
    refine Or.inr ⟨hown, f, ?_, hkind, hkey⟩
    exact List.getElem?_concat_length
  · exact Or.inl ((Lib.Dict.get?_set_ne _ _ hjk).symm.trans hj)

theorem popFuture (s : State T) (id : MsgId) : Quiet own hit s (s.popFuture id) := by
  have h : Quiet own hit s s := refl s
  refine { h with cancelled := ?_, table := ?_ }
  · intro r g hg hst
    exact Or.inr ⟨g, hg, hst⟩
  · intro k r hk
    refine Or.inl ?_
    change (s.requestFutures.pop id).get? k = some r at hk
    rw [Lib.Dict.get?_pop] at hk
    split at hk
    · cases hk
    · exact hk

theorem sends (s : State T) {n : Nat} {id : MsgId} {P : Answer T → Prop} (h : Sends s t n id P)
    (htable : ∀ (k : MsgId) (r : Ref), t.requestFutures.get? k = some r →
      s.requestFutures.get? k = some r)
    (htypes : ∀ k, own k → t.resultTypes.get? k = s.resultTypes.get? k)
    (honly : ∀ (k : MsgId) (x : Option T), t.resultTypes.get? k = some x →
      s.resultTypes.get? k = some x) : Quiet own hit s t := by
  constructor
  case received => exact h.received
  case sent =>
    rcases h.sent with hs | ⟨a, -, hs⟩
    · exact ⟨[], by simp [hs], nofun⟩
    · refine ⟨_, hs, fun m hm => ?_⟩
      rw [List.mem_singleton.mp hm]
      rfl
  case futures =>
    intro r f hf
    exact ⟨f, h.futures ▸ hf, .refl f⟩
  case cancelled =>
    intro r g hg hst
    exact Or.inr ⟨g, h.futures ▸ hg, hst⟩
  case table =>
    intro k r hk
    exact Or.inl (htable k r hk)
  case types => exact htypes
  case typesOnly => exact honly

theorem sendException (env : Env T) (s : State T) (n : Nat) (id : MsgId) (x : PyExc) :
    Quiet own hit s (s.sendException env n id x) := by
  refine sends s (State.sendException_sends env s n id x) ?_ ?_ ?_
  · intro k r hk
    rwa [sendException_requestFutures] at hk
  · intro k _
    rw [sendException_resultTypes]
  · intro k y hy
    rwa [sendException_resultTypes] at hy

theorem sendHandlerResult (env : Env T) (s : State T) {id : MsgId} (n : Nat) (c : Completion)
    (hown : ¬ own id) : Quiet own hit s (s.sendHandlerResult env id n c) := by
  refine sends s (State.sendHandlerResult_sends env s id n c) ?_ ?_ ?_
  · intro k r hk
    rw [sendHandlerResult_requestFutures, Lib.Dict.get?_pop] at hk
    split at hk
    · cases hk
    · exact hk
  · intro k hk
    rw [sendHandlerResult_resultTypes]
    split
    · refine Lib.Dict.get?_pop_ne _ fun heq => ?_
      subst heq
      exact hown hk
    · rfl
  · intro k x hx
    rw [sendHandlerResult_resultTypes] at hx
    split at hx
    · rw [Lib.Dict.get?_pop] at hx
      split at hx
      · cases hx
      · exact hx
    · exact hx

end Quiet

/-- A callback that leads to the answer of a request that is not ours, through generators. -/
def Foreign (own : MsgId → Prop) (s : State T) : Callback → Prop
  | .sendHandlerResult id _ => ¬ own id
  | .checkHandlerResult => True
  | .client => True
  | .runGenerator r up => (∃ f, s.futures[r]? = some f ∧ f.handler ≠ none) ∧ Foreign own s up

section

variable {env : Env T} {own : MsgId → Prop} {hit : Ref → Prop} {s t : State T}

theorem Foreign.mono {cb : Callback} (h : Foreign own s cb) (hq : Quiet own hit s t) :
    Foreign own t cb := by
  induction cb with
  | sendHandlerResult id n => exact h
  | checkHandlerResult => exact h
  | client => exact h
  | runGenerator r up ih =>
    obtain ⟨⟨f, hf, hk⟩, hup⟩ := h
    obtain ⟨g, hg, hadv⟩ := hq.futures r f hf
    exact ⟨⟨g, hg, hadv.handler ▸ hk⟩, ih hup⟩

/-- The callback of every future is foreign, given that the received requests are not ours. -/
theorem foreign_callback (hd : Discipline s) (hrec : ∀ q ∈ s.received, ¬ own q.1.id) {r : Ref}
    {f : Future} (hf : s.futures[r]? = some f) : Foreign own s f.callback := by
  generalize hcb : f.callback = cb
  induction cb generalizing r f with
  | sendHandlerResult id n =>
    obtain ⟨q, hq, hid⟩ := hd.request r f id n hf hcb
    exact hid ▸ hrec q (List.mem_of_getElem? hq)
  | checkHandlerResult => trivial
  | client => trivial
  | runGenerator p up ih =>
    obtain ⟨-, g, hg, hup, hgen⟩ := hd.parent r f p up hf hcb
    exact ⟨⟨g, hg, by rw [hgen]; simp⟩, ih hg hup⟩

namespace Quiet

theorem setOutcome {r : Ref} {o : Outcome} {f : Future} (hf : s.futures[r]? = some f)
    (hk : f.handler ≠ none) (hs : s.setOutcome r o = some t) : Quiet own hit s t := by
  obtain ⟨f', hf', hpend, rfl⟩ := setOutcome_eq_some hs
  rw [hf] at hf'
  cases hf'
  refine modify s r ?_ ?_
  · intro g hg
    rw [hf] at hg
    cases hg
    exact .of_open (isOpen_of_isPending hpend) hk rfl rfl
  · intro g _ hst
    cases hst

theorem runCallback (env : Env T) (th : Thread) {cb : Callback} (c : Completion)
    (hcb : Foreign own s cb) : Quiet own hit s (State.runCallback env th cb c s) := by
  refine runCallback_rule (I := Quiet own hit s) (R := fun t cb _ => Foreign own t cb) ?_ ?_ ?_
    cb c s (.refl s) hcb
  · intro t id n c h hown
    exact h.trans (sendHandlerResult env t n c hown)
  · intro t r up c v h _
    exact h.trans (touch t r (fun _ => rfl) (fun _ => rfl) fun _ => rfl)
  · intro t t' r up c x h hr _ hs
    obtain ⟨⟨f, hf, hk⟩, hup⟩ := hr
    have hq : Quiet own hit t t' := setOutcome hf hk hs
    exact ⟨h.trans hq, hup.mono hq⟩

theorem executeRaised (env : Env T) (th : Thread) {cb : Callback} (x : PyExc)
    (hcb : Foreign own s cb) : Quiet own hit s (State.executeRaised env th cb x s) := by
  refine executeRaised_rule (I := Quiet own hit s) (R := fun t cb _ => Foreign own t cb)
    (P := fun t cb _ => Foreign own t cb) ?_ ?_ ?_ ?_ cb x s (.refl s) hcb
  · intro cb c t h hr
    exact h.trans (runCallback env th c hr)
  · intro t id n x h _
    exact h.trans (sendException env t n id x)
  · intro t t' r up x h hr hs
    obtain ⟨⟨f, hf, hk⟩, hup⟩ := hr
    have hq : Quiet own hit t t' := setOutcome hf hk hs
    exact ⟨h.trans hq, hup.mono hq⟩
  · intro t r up x _ hr _ _
    exact hr.2

theorem executeHandler (env : Env T) (th : Thread) {id : MsgId} (kind : HandlerKind) {cb : Callback}
    (start : Start) (hcb : Foreign own s cb) (hown : ¬ own id)
    (hkey : ∀ k n, cb = .sendHandlerResult k n → id = k) :
    Quiet own hit s (State.executeHandler env th id kind cb start s) := by
  have started : ∀ kind act, Quiet own hit s
      ((s.alloc { Future.pending (some kind) cb with active := act }).register id s.fresh) := by
    intro kind act
    exact register s rfl (by simp [Future.pending]) hown hkey
  cases kind with
  | coroutine =>
    cases start with
    | some x => exact executeRaised env th x hcb
    | none =>
      cases th with
      | main => exact started .coroutine none
      | worker => exact executeRaised env .worker .runtimeError hcb
  | thread =>
    cases start with
    | some x => exact executeRaised env th x hcb
    | none => exact started .thread none
  | generator => exact started .generator (some th)
  | sync => exact alloc s rfl

theorem leave (s : State T) (r : Ref) : Quiet own hit s (s.leave r) :=
  touch s r (fun _ => rfl) (fun _ => rfl) fun _ => rfl

theorem cancel (env : Env T) (th : Thread) {r : Ref} (hhit : hit r)
    (hcb : ∀ f, s.futures[r]? = some f → Foreign own s f.callback) :
    Quiet own hit s (State.cancel env th s r) := by
  unfold State.cancel
  split
  · exact .refl s
  · rename_i f hf
    split
    · split
      · exact touch s r (fun _ => rfl) (fun _ => rfl) fun _ => rfl
      · exact .refl s
    · split
      · rename_i hpend
        have hq : Quiet own hit s (s.modify r (Future.settle .cancelled)) := by
          refine modify s r ?_ fun _ _ _ => Or.inl hhit
          intro g hg
          rw [hf] at hg
          cases hg
          refine ⟨rfl, rfl, fun hclosed => ?_, fun _ => Or.inr rfl⟩
          rw [isOpen_of_isPending hpend] at hclosed
          cases hclosed
        exact hq.trans (runCallback env th .cancelled ((hcb f hf).mono hq))
      · exact .refl s

theorem syncEnd (env : Env T) {r : Ref} {f : Future} (th : Thread) (o : Outcome)
    (hf : s.futures[r]? = some f) (hk : f.handler ≠ none) (hcb : Foreign own s f.callback) :
    Quiet own hit s (State.syncEnd env s r f.callback th o) := by
  have hl : Quiet own hit s (s.leave r) := leave s r
  have hf' := State.getElem?_modify_self (g := fun f => { f with active := none }) hf
  unfold State.syncEnd
  split
  · rename_i s' hs
    have hq : Quiet own hit (s.leave r) s' := setOutcome hf' hk hs
    exact (hl.trans hq).trans (runCallback env th _ ((hcb.mono hl).mono hq))
  · exact hl.trans (executeRaised env th _ (hcb.mono hl))

end Quiet

end

/-- The futures an event may cancel. -/
def Event.hits (s : State T) : Event → Ref → Prop
  | .cancelRequest id, r => s.requestFutures.get? id = some r
  | .cancelOutgoing i, r => r = i
  | .taskEnd i none, r => r = i
  | _, _ => False

/-- The id an event draws from `uuid4` for the table, or uses as one. -/
def Event.draws : Event → Option MsgId
  | .notification _ uuid _ => some (.str uuid)
  | .sendRequest id _ _ => some id
  | .genYield _ uuid _ _ => some (.str uuid)
  | _ => none

/-- The events that are no message of the peer with an id, and send none. -/
def Event.local : Event → Bool
  | .request _ _ => false
  | .response _ _ => false
  | .errorResponse _ _ => false
  | .sendRequest _ _ _ => false
  | _ => true

theorem step_quiet {env : Env T} {own : MsgId → Prop} {s t : State T} {e : Event}
    (hd : Discipline s) (hrec : ∀ q ∈ s.received, ¬ own q.1.id) (hlocal : e.local = true)
    (hdraw : ∀ k, e.draws = some k → ¬ own k) (hs : step env s e = some t) :
    Quiet own (e.hits s) s t := by
  have foreign : ∀ (r : Ref) (f : Future), s.futures[r]? = some f → Foreign own s f.callback :=
    fun _ _ hf => foreign_callback hd hrec hf
  cases step_cases hs with
  | ignored => exact .refl s
  | request => cases hlocal
  | @notification method uuid start =>
    unfold State.handleNotification
    split
    · exact .refl s
    · exact .executeHandler env .main _ start trivial (hdraw _ rfl) nofun
  | @cancelRequest id =>
    unfold State.handleCancelNotification
    split
    · exact .refl s
    · rename_i r hr
      have hq : Quiet own (Event.hits s (.cancelRequest id)) s (s.popFuture id) := .popFuture s id
      exact hq.trans (.cancel env .main hr fun f hf => (foreign r f hf).mono hq)
  | response => cases hlocal
  | errorResponse => cases hlocal
  | sendRequest => cases hlocal
  | @cancelOutgoing r f hf hnone => exact .cancel env .main rfl (foreign r)
  | @syncEnd r f th o hf hk => exact .syncEnd env th o hf (by rw [hk]; simp) (foreign r f hf)
  | @genYield r f th uuid kind start hf hk =>
    have hl : Quiet own (Event.hits s (.genYield r uuid kind start)) s (s.leave r) := .leave s r
    refine hl.trans (.executeHandler env th kind start ?_ (hdraw _ rfl) nofun)
    exact Foreign.mono ⟨⟨f, hf, by rw [hk]; simp⟩, foreign r f hf⟩ hl
  | @genEnd r f th o hf hk =>
    have hl : Quiet own (Event.hits s (.genEnd r o)) s (s.leave r) := .leave s r
    exact hl.trans (.executeRaised env th _
      (Foreign.mono ⟨⟨f, hf, by rw [hk]; simp⟩, foreign r f hf⟩ hl))
  | @taskEnd r f o hidle hstop hf hk hpend =>
    refine .modify s r ?_ ?_
    · intro g hg
      rw [hf] at hg
      cases hg
      exact .of_open (isOpen_of_isPending hpend) (by rw [hk]; simp) rfl rfl
    · intro g _ hst
      cases o with
      | none => exact Or.inl rfl
      | some o => cases hst
  | @poolStart r f hf hk hpend =>
    refine .modify s r ?_ ?_
    · intro g hg
      rw [hf] at hg
      cases hg
      exact .of_open (isOpen_of_isPending hpend) (by rw [hk]; simp) rfl rfl
    · intro g _ hst
      cases hst
  | @poolEnd r f th o hf hk hact =>
    refine .modify s r ?_ ?_
    · intro g hg
      rw [hf] at hg
      cases hg
      refine ⟨rfl, rfl, fun hclosed => ?_, fun hnone => ?_⟩
      · simp only [hclosed, Bool.false_eq_true, if_false]
      · rw [hk] at hnone
        cases hnone
    · intro g _ hst
      by_cases hopen : g.isOpen = true
      · simp only [hopen, if_true] at hst
        cases hst
      · simp only [hopen, Bool.false_eq_true, if_false] at hst
        exact Or.inr hst
  | @deliver r f th c hf =>
    have hq : Quiet own (Event.hits s (.deliver r th)) s
        (s.modify r fun f => { f with called := true }) :=
      .touch s r (fun _ => rfl) (fun _ => rfl) fun _ => rfl
    exact hq.trans (.runCallback env th c ((foreign r f hf).mono hq))

/-- What no step takes back. -/
structure Grows (s t : State T) : Prop where
  sent : s.sent <+: t.sent
  heap : HeapLe s.futures t.futures

namespace Grows

variable {s t u : State T}

theorem congr (hsent : t.sent = s.sent) (hf : t.futures = s.futures) : Grows s t :=
  ⟨hsent ▸ List.prefix_refl _, hf ▸ .refl _⟩

theorem refl (s : State T) : Grows s s := congr rfl rfl

theorem trans (h : Grows s t) (h' : Grows t u) : Grows s u := by
  refine ⟨h.sent.trans h'.sent, ?_⟩
  intro r f hf
  obtain ⟨g, hg, hcb, hdone⟩ := h.heap r f hf
  obtain ⟨g', hg', hcb', hdone'⟩ := h'.heap r g hg
  refine ⟨g', hg', hcb'.trans hcb, fun hclosed => ?_⟩
  have hst := hdone hclosed
  exact (hdone' (isOpen_congr hst ▸ hclosed)).trans hst

theorem of_quiet {own : MsgId → Prop} {hit : Ref → Prop} (h : Quiet own hit s t) : Grows s t := by
  constructor
  case sent =>
    obtain ⟨ms, hms, -⟩ := h.sent
    exact ⟨ms, hms.symm⟩
  case heap =>
    intro r f hf
    obtain ⟨g, hg, hadv⟩ := h.futures r f hf
    exact ⟨g, hg, hadv.callback, hadv.done⟩

theorem of_sends {n : Nat} {id : MsgId} {P : Answer T → Prop} (h : Sends s t n id P) :
    Grows s t := by
  refine ⟨?_, h.futures ▸ .refl _⟩
  rcases h.sent with hs | ⟨a, -, hs⟩
  · exact hs ▸ List.prefix_refl _
  · exact hs ▸ List.prefix_append _ _

theorem settle {r : Ref} {f : Future} {o : Outcome} (hf : s.futures[r]? = some f)
    (hopen : f.isOpen = true) : Grows s (s.modify r (Future.settle (.finished o))) := by
  refine ⟨List.prefix_refl _, heapLe_modify ?_⟩
  intro g hg
  rw [hf] at hg
  cases hg
  refine ⟨rfl, fun hclosed => ?_⟩
  rw [hopen] at hclosed
  cases hclosed

theorem runCallback (env : Env T) (th : Thread) (cb : Callback) (c : Completion) (s : State T) :
    Grows s (State.runCallback env th cb c s) := by
  refine runCallback_rule (I := Grows s) (R := fun _ _ _ => True) ?_ ?_ ?_ cb c s (.refl s) trivial
  · intro t id n c h _
    exact h.trans (of_sends (State.sendHandlerResult_sends env t id n c))
  · intro t r up c v h _
    refine h.trans ⟨List.prefix_refl _, heapLe_modify ?_⟩
    intro f _
    exact ⟨rfl, fun _ => rfl⟩
  · intro t t' r up c x h _ _ hs
    obtain ⟨f, hf, hpend, rfl⟩ := setOutcome_eq_some hs
    exact ⟨h.trans (settle hf (isOpen_of_isPending hpend)), trivial⟩

theorem handleResponse (env : Env T) (s : State T) (id : MsgId) (o : Outcome) :
    Grows s (s.handleResponse env id o) := by
  have hpop : Grows s (s.popFuture id) := congr rfl rfl
  simp only [State.handleResponse]
  split
  · exact refl s
  · split
    · exact hpop
    · rename_i f hf
      split
      · exact hpop
      · split
        · rename_i hopen
          exact (hpop.trans (settle hf hopen)).trans (runCallback env .main _ _ _)
        · exact hpop

theorem handleRequest (env : Env T) (s : State T) (q : Request) (start : Start) :
    Grows s (s.handleRequest env q start) := by
  -- No id is ours here, so that every callback is foreign.
  have hrec : Grows s { s with received := s.received ++ [(q, start)] } := congr rfl rfl
  simp only [State.handleRequest]
  split
  · exact hrec.trans (of_sends (State.sendException_sends env _ _ _ _))
  · rename_i kind _
    have hq : Quiet (fun _ => False) (fun _ => False)
        { s with received := s.received ++ [(q, start)] }
        (State.executeHandler env .main q.id kind (.sendHandlerResult q.id s.received.length) start
          { s with received := s.received ++ [(q, start)] }) := by
      refine .executeHandler env .main kind start (fun hown => hown) (fun hown => hown) ?_
      intro k n hcb
      cases hcb
      rfl
    exact hrec.trans (of_quiet hq)

theorem sendRequest (env : Env T) (s : State T) (id : MsgId) (method : Method) (params : PyValue) :
    Grows s (s.sendRequest env id method params) := by
  have hfut : (s.sendRequest env id method params).futures =
      (s.alloc (.pending none .client)).futures :=
    State.sendRequest_futures env s id method params
  refine ⟨?_, hfut ▸ heapLe_alloc s _⟩
  rcases State.sendRequest_sent env s id method params with hs | ⟨p, hs⟩
  · exact hs ▸ List.prefix_refl _
  · exact hs ▸ List.prefix_append _ _

theorem step {env : Env T} {e : Event} (hd : Discipline s) (hs : step env s e = some t) :
    Grows s t := by
  cases hlocal : e.local with
  | true =>
    have hq : Quiet (fun _ => False) (e.hits s) s t :=
      step_quiet hd (fun _ _ hown => hown) hlocal (fun _ _ hown => hown) hs
    exact of_quiet hq
  | false =>
    cases step_cases hs with
    | ignored => exact refl s
    | request => exact handleRequest env s _ _
    | @response id result =>
      have hpop : Grows s (s.popType id) := congr rfl rfl
      simp only [State.receiveResult]
      split
      · exact hpop
      · split
        · exact hpop
        · exact hpop.trans (handleResponse env _ _ _)
    | errorResponse =>
      unfold State.receiveError
      split
      · exact refl s
      · split
        · exact handleResponse env s _ _
        · exact handleResponse env s _ _
    | sendRequest => exact sendRequest env s _ _ _
    | _ => cases hlocal

end Grows

end Pygls
