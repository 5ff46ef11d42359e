import Pygls.Bystanders
import Pygls.Yielded

/-!
# Requests that are not overtaken

A synchronous handler keeps the main thread until its request is answered, and a request
without a handler is answered at once. Whatever comes later is answered later, however the
other handlers take their time.
-/

namespace Pygls

set_option autoImplicit false

variable {T : Type}

/-- The request is answered before the next message is taken. -/
def Prompt (env : Env T) (s : State T) (n : Nat) : Prop :=
  ∀ q, s.received[n]? = some q →
    env.fm.getHandler q.1.method = none ∨ env.fm.getHandler q.1.method = some .sync

/-- Messages are added, and the requests answered by them meet the condition. -/
def Answering (P : Nat → Prop) (s t : State T) : Prop :=
  ∃ new, t.sent = s.sent ++ new ∧
    ∀ (n : Nat) (id : MsgId) (a : Answer T), Message.response n id a ∈ new → P n

/-- The requests whose futures a step may settle although no handler's code ends in it. -/
def Deferred (P : Nat → Prop) (s : State T) : Prop :=
  ∀ (r : Ref) (kind : Option HandlerKind) (id : MsgId) (n : Nat),
    s.skeleton[r]? = some (kind, .sendHandlerResult id n) → kind ≠ some .sync → P n

namespace Answering

variable (env : Env T) (th : Thread) {P : Nat → Prop} {s t u : State T}

theorem of_sent (h : t.sent = s.sent) : Answering P s t := by
  refine ⟨[], ?_, ?_⟩
  · rw [h, List.append_nil]
  · intro n id a hmem
    cases hmem

theorem trans (h : Answering P s t) (h' : Answering P t u) : Answering P s u := by
  obtain ⟨new, hst, hnew⟩ := h
  obtain ⟨new', htu, hnew'⟩ := h'
  refine ⟨new ++ new', ?_, ?_⟩
  · rw [htu, hst, List.append_assoc]
  · intro n id a hmem
    rcases List.mem_append.mp hmem with hin | hin
    · exact hnew n id a hin
    · exact hnew' n id a hin

theorem sends {n : Nat} {id : MsgId} {A : Answer T → Prop} (hs : Sends s t n id A) (hn : P n) :
    Answering P s t := by
  rcases hs.sent with hsame | ⟨a, -, hadd⟩
  · exact of_sent hsame
  · refine ⟨_, hadd, ?_⟩
    intro m k b hmem
    cases List.mem_singleton.mp hmem
    exact hn

theorem runCallback (hl : Linked s) (hd : Deferred P s) {cb : Callback} (c : Completion)
    (hparent : Parented s cb) (hcb : ∀ id n, cb = .sendHandlerResult id n → P n) :
    Answering P s (State.runCallback env th cb c s) := by
  refine (runCallback_rule (I := fun t => Answering P s t ∧ t.skeleton = s.skeleton)
    (R := fun t cb _ => Parented t cb ∧ ∀ id n, cb = .sendHandlerResult id n → P n)
    ?_ ?_ ?_ cb c s ⟨of_sent rfl, rfl⟩ ⟨hparent, hcb⟩).1
  · rintro t id n c ⟨ht, hsk⟩ ⟨-, hn⟩
    have hs := State.sendHandlerResult_sends env t id n c
    exact ⟨ht.trans (sends hs (hn id n rfl)), (State.skeleton_of_futures hs.futures).trans hsk⟩
  · rintro t r up c v ⟨ht, hsk⟩ -
    exact ⟨ht.trans (of_sent rfl), (State.skeleton_resume t r th v).trans hsk⟩
  · rintro t t' r up c x ⟨ht, hsk⟩ ⟨hpar, -⟩ - hs
    have hsk' := (State.skeleton_setOutcome hs).trans hsk
    obtain ⟨f, hf, -, rfl⟩ := setOutcome_eq_some hs
    obtain ⟨g, hg, hgen, rfl⟩ := hpar.future
    refine ⟨⟨ht.trans (of_sent rfl), hsk'⟩, ?_, ?_⟩
    · exact (parented_of_future (hl.congr hsk) hg).congr (hsk'.trans hsk.symm)
    · intro id n hup
      apply hd r (some .generator) id n
      · rw [← hsk, State.getElem?_skeleton, hg, ← hgen, ← hup]
        rfl
      · simp

theorem executeRaised (hl : Linked s) (hd : Deferred P s) {cb : Callback} (x : PyExc)
    (hparent : Parented s cb) (hcb : ∀ id n, cb = .sendHandlerResult id n → P n) :
    Answering P s (State.executeRaised env th cb x s) := by
  have climbs : ∀ {t : State T} {r : Ref} {up : Callback}, t.skeleton = s.skeleton →
      Parented t (.runGenerator r up) →
      Parented t up ∧ ∀ id n, up = .sendHandlerResult id n → P n := by
    intro t r up hsk hpar
    obtain ⟨g, hg, hgen, rfl⟩ := hpar.future
    refine ⟨parented_of_future (hl.congr hsk) hg, ?_⟩
    intro id n hup
    apply hd r (some .generator) id n
    · rw [← hsk, State.getElem?_skeleton, hg, ← hgen, ← hup]
      rfl
    · simp
  refine (executeRaised_rule (I := fun t => Answering P s t ∧ t.skeleton = s.skeleton)
    (R := fun t cb _ => Parented t cb ∧ ∀ id n, cb = .sendHandlerResult id n → P n)
    (P := fun t cb _ => t.skeleton = s.skeleton ∧ Parented t cb ∧
      ∀ id n, cb = .sendHandlerResult id n → P n)
    ?_ ?_ ?_ ?_ cb x s ⟨of_sent rfl, rfl⟩ ⟨rfl, hparent, hcb⟩).1
  · rintro cb c t ⟨ht, hsk⟩ ⟨hpar, hn⟩
    have hdt : Deferred P t := by
      intro r kind id n hr
      exact hd r kind id n (hsk ▸ hr)
    exact ⟨ht.trans (runCallback env _ (hl.congr hsk) hdt c hpar hn),
      (State.skeleton_runCallback env th cb c t).trans hsk⟩
  · rintro t id n x ⟨ht, hsk⟩ ⟨-, -, hn⟩
    have hs := State.sendException_sends env t n id x
    exact ⟨ht.trans (sends hs (hn id n rfl)), (State.skeleton_of_futures hs.futures).trans hsk⟩
  · rintro t t' r up x ⟨ht, hsk⟩ ⟨-, hpar, -⟩ hs
    have hsk' := State.skeleton_setOutcome hs
    obtain ⟨hup, hn⟩ := climbs hsk hpar
    obtain ⟨f, -, -, rfl⟩ := setOutcome_eq_some hs
    exact ⟨⟨ht.trans (of_sent rfl), hsk'.trans hsk⟩, hup.congr hsk', hn⟩
  · rintro t r up x ⟨-, hsk⟩ ⟨-, hpar, -⟩ - -
    exact ⟨hsk, climbs hsk hpar⟩

theorem executeHandler (hl : Linked s) (hd : Deferred P s) (id : MsgId) (kind : HandlerKind)
    (cb : Callback) (start : Start) (hparent : Parented s cb)
    (hcb : ∀ id n, cb = .sendHandlerResult id n → P n) :
    Answering P s (State.executeHandler env th id kind cb start s) := by
  cases kind with
  | coroutine =>
    cases start with
    | some e => exact executeRaised env _ hl hd e hparent hcb
    | none =>
      cases th with
      | main => exact of_sent rfl
      | worker => exact executeRaised env _ hl hd .runtimeError hparent hcb
  | thread =>
    cases start with
    | some e => exact executeRaised env _ hl hd e hparent hcb
    | none => exact of_sent rfl
  | generator => exact of_sent rfl
  | sync => exact of_sent rfl

/-- Calling back a future that has been changed. -/
theorem called (hl : Linked s) (hd : Deferred P s) {r : Ref} {f : Future}
    (hf : s.futures[r]? = some f) (hn : ∀ id n, f.callback = .sendHandlerResult id n → P n)
    {g : Future → Future} (hk : ∀ f, (g f).handler = f.handler)
    (hcb : ∀ f, (g f).callback = f.callback) (c : Completion) :
    Answering P s (State.runCallback env th f.callback c (s.modify r g)) := by
  have hsk := State.skeleton_modify s r hk hcb
  have hdm : Deferred P (s.modify r g) := by
    intro i kind id n hi
    exact hd i kind id n (hsk ▸ hi)
  have hrun := runCallback env th (hl.congr hsk) hdm c
    ((parented_of_future hl hf).congr hsk) hn
  exact hrun

/-- The request of a future that is no synchronous handler's. -/
theorem deferred (hd : Deferred P s) {r : Ref} {f : Future} (hf : s.futures[r]? = some f)
    (hk : f.handler ≠ some .sync) : ∀ id n, f.callback = .sendHandlerResult id n → P n := by
  intro id n hcb
  apply hd r f.handler id n ?_ hk
  rw [State.getElem?_skeleton, hf, ← hcb]
  rfl

theorem cancel (hl : Linked s) (hd : Deferred P s) {r : Ref}
    (hk : ∀ f, s.futures[r]? = some f → f.handler ≠ some .sync) :
    Answering P s (State.cancel env th s r) := by
  unfold State.cancel
  split
  · exact of_sent rfl
  · rename_i f hf
    split
    · split
      · exact of_sent rfl
      · exact of_sent rfl
    · split
      · exact called env _ (g := Future.settle .cancelled) hl hd hf (deferred hd hf (hk f hf))
          (fun _ => rfl) (fun _ => rfl) _
      · exact of_sent rfl

theorem cancelOthers (current : Option MsgId) (size : Nat) (entries : List (MsgId × Ref))
    (hl : Linked s) (hd : Deferred P s)
    (hentries : ∀ e ∈ entries, ∀ x, s.skeleton[e.2]? = some x → x.1 ≠ some .sync) :
    Answering P s (State.cancelOthers env th current size entries s).1 := by
  induction entries generalizing s with
  | nil => exact of_sent rfl
  | cons entry rest ih =>
    obtain ⟨hentry, hrest⟩ := List.forall_mem_cons.mp hentries
    rw [State.cancelOthers]
    split
    · split
      · have hsk := State.skeleton_cancel env th s entry.2
        have hcancel : Answering P s (State.cancel env th s entry.2) := by
          apply cancel env _ hl hd
          intro f hf
          apply hentry (f.handler, f.callback)
          rw [State.getElem?_skeleton, hf, Option.map_some]
        refine hcancel.trans (ih (hl.congr hsk) ?_ ?_)
        · intro r kind id n hr
          exact hd r kind id n (hsk ▸ hr)
        · intro e he x hx
          exact hrest e he x (hsk ▸ hx)
      · exact ih hl hd hrest
    · exact of_sent rfl

theorem executeRaised_leave (hl : Linked s) (hd : Deferred P s) {r : Ref} {cb : Callback}
    (hcb : Parented s (.runGenerator r cb)) (x : PyExc) :
    Answering P s (State.executeRaised env th (.runGenerator r cb) x (s.leave r)) := by
  have hsk := State.skeleton_leave s r
  have hleft : Deferred P (s.leave r) := by
    intro i kind id n hi
    exact hd i kind id n (hsk ▸ hi)
  have hrun := executeRaised env th (hl.congr hsk) hleft x (hcb.congr hsk)
  apply hrun
  intro id n heq
  cases heq

theorem shutdownEnd (hl : Linked s) (hd : Deferred P s) {r : Ref} {cb : Callback}
    (hcb : Parented s (.runGenerator r cb))
    (htable : ∀ (id : MsgId) (i : Ref), s.requestFutures.get? id = some i →
      ∃ f, s.futures[i]? = some f ∧ f.handler ≠ some .sync) :
    Answering P s (s.shutdownEnd env r cb th) := by
  have hsk := State.skeleton_cancelOthers env th (cb.msgId th) s.requestFutures.size
    s.requestFutures.entries s
  have hloop := cancelOthers env th (cb.msgId th) s.requestFutures.size
    s.requestFutures.entries hl hd ?_
  · have hend : ∀ (u : State T) (x : PyExc), u.skeleton = s.skeleton →
        Answering P u (State.executeRaised env th (.runGenerator r cb) x (u.leave r)) := by
      intro u x hu
      apply executeRaised_leave env _ (hl.congr hu) _ (hcb.congr hu)
      intro i kind id n hi
      exact hd i kind id n (hu ▸ hi)
    simp only [State.shutdownEnd]
    split
    · refine hloop.trans (Answering.trans (of_sent rfl) (hend _ _ ?_))
      exact hsk
    · exact hloop.trans (hend _ _ hsk)
  · rintro ⟨id, i⟩ hmem x hx
    obtain ⟨f, hf, hk⟩ := htable id i (Lib.Dict.get?_of_mem hmem)
    rw [State.getElem?_skeleton, hf, Option.map_some] at hx
    cases hx
    exact hk

theorem handleResponse (hl : Linked s) (hd : Deferred P s) (id : MsgId) (o : Outcome)
    (htable : ∀ i, s.requestFutures.get? id = some i →
      ∃ f, s.futures[i]? = some f ∧ f.handler ≠ some .sync) :
    Answering P s (s.handleResponse env id o) := by
  simp only [State.handleResponse]
  split
  · exact of_sent rfl
  · rename_i r hr
    obtain ⟨f', hf', hk⟩ := htable r hr
    split
    · exact of_sent rfl
    · rename_i f hf
      have hsame : s.futures[r]? = some f := hf
      rw [hf'] at hsame
      cases hsame
      split
      · exact of_sent rfl
      · split
        · have hpop : Linked (s.popFuture id) := hl.congr rfl
          have hdpop : Deferred P (s.popFuture id) := hd
          have hrun := called env .main (g := Future.settle (.finished o)) hpop
            hdpop hf' (deferred hd hf' hk) (fun _ => rfl) (fun _ => rfl) (.finished o)
          exact hrun
        · exact of_sent rfl

/-- What a step answers: requests whose handlers are not synchronous, that of a synchronous
handler which is running, and the request which is being handed over. -/
theorem step {e : LanguageServer.Event} (h : Turns (fun _ => False) s) (hd : Deferred P s)
    (hrun : ∀ (r : Ref) (f : Future) (id : MsgId) (n : Nat), s.futures[r]? = some f →
      f.handler = some .sync → f.active ≠ none → f.callback = .sendHandlerResult id n → P n)
    (hnew : ∀ q start, e = .protocol (.request q start) → s.refuses q.method = false →
      P s.received.length)
    (hs : LanguageServer.step env s e = some t) : Answering P s t := by
  have hl := h.linked
  cases e with
  | shutdown i =>
    obtain ⟨f, id, n, th, hf, hk, -, hcb, rfl⟩ := LanguageServer.shutdown_cases hs
    apply shutdownEnd env th hl hd
    · rw [← hcb]
      exact parented_self hf hk
    · exact h.table
  | protocol e =>
    cases step_cases hs with
    | ignored => exact of_sent rfl
    | @request q start _ hup =>
      have hlq : Linked { s with received := s.received ++ [(q, start)] } := hl.congr rfl
      have hdq : Deferred P { s with received := s.received ++ [(q, start)] } := hd
      have hn := hnew q start rfl hup
      simp only [State.handleRequest]
      split
      · have hsend := State.sendException_sends env
          { s with received := s.received ++ [(q, start)] } s.received.length q.id
          (.jsonRpc (methodNotFound q.method))
        have hans := sends (P := P) hsend hn
        exact hans
      · rename_i kind _
        have hans := executeHandler env .main hlq hdq q.id kind
          (.sendHandlerResult q.id s.received.length) start
        apply hans
        · intro p up hcb
          cases hcb
        · intro id n hcb
          cases hcb
          exact hn
    | notification =>
      unfold State.handleNotification
      split
      · exact of_sent rfl
      · apply executeHandler env _ hl hd
        · intro p up hcb
          cases hcb
        · intro id n hcb
          cases hcb
    | @cancelRequest id =>
      unfold State.handleCancelNotification
      split
      · exact of_sent rfl
      · rename_i i hi
        have hpop : Linked (s.popFuture id) := hl.congr rfl
        have hdpop : Deferred P (s.popFuture id) := hd
        have hcan := cancel env .main hpop hdpop (r := i)
        apply hcan
        intro f hf
        obtain ⟨f', hf', hk⟩ := h.table id i hi
        have hsame : s.futures[i]? = some f := hf
        rw [hf'] at hsame
        cases hsame
        exact hk
    | @response id result =>
      have hpop : Linked (s.popType id) := hl.congr rfl
      have hdpop : Deferred P (s.popType id) := hd
      simp only [State.receiveResult]
      split
      · exact of_sent rfl
      · split
        · exact of_sent rfl
        · have hresp := handleResponse env hpop hdpop id
          apply hresp
          exact h.table id
    | @errorResponse id error =>
      unfold State.receiveError
      split
      · exact of_sent rfl
      · split
        · exact handleResponse env hl hd id _ (h.table id)
        · exact handleResponse env hl hd id _ (h.table id)
    | @sendRequest id method params =>
      rcases State.sendRequest_sent env s id method params with hsame | ⟨p, hadd⟩
      · exact of_sent hsame
      · refine ⟨_, hadd, ?_⟩
        intro n k a hmem
        cases List.mem_singleton.mp hmem
    | cancelOutgoing hf hk =>
      apply cancel env _ hl hd
      intro g hg
      rw [hf] at hg
      cases hg
      rw [hk]
      simp
    | @syncEnd r f th o hf hk hact =>
      have hsk := State.skeleton_leave s r
      have hdl : Deferred P (s.leave r) := by
        intro i kind id n hi
        exact hd i kind id n (hsk ▸ hi)
      have hn : ∀ id n, f.callback = .sendHandlerResult id n → P n := by
        intro id n hcb
        apply hrun r f id n hf hk ?_ hcb
        rw [hact]
        simp
      have hself := State.getElem?_modify_self (g := fun f => { f with active := none }) hf
      unfold State.syncEnd
      split
      · rename_i u hset
        obtain ⟨g, -, -, rfl⟩ := setOutcome_eq_some hset
        have hans := called env th (g := Future.settle (.finished o))
          (hl.congr hsk) hdl hself hn (fun _ => rfl) (fun _ => rfl) (.finished o)
        exact hans
      · have hans := executeRaised env th (hl.congr hsk) hdl .invalidStateError
          ((parented_of_future hl hf).congr hsk) hn
        exact hans
    | @genYield r f th uuid kind start hf hk =>
      have hsk := State.skeleton_leave s r
      have hdl : Deferred P (s.leave r) := by
        intro i kind id n hi
        exact hd i kind id n (hsk ▸ hi)
      have hans := executeHandler env th (hl.congr hsk) hdl (.str uuid) kind
          (.runGenerator r f.callback) start
        ((parented_self hf hk).congr hsk)
      apply hans
      intro id n hcb
      cases hcb
    | genEnd hf hk => exact executeRaised_leave env _ hl hd (parented_self hf hk) _
    | taskEnd => exact of_sent rfl
    | poolStart => exact of_sent rfl
    | poolEnd => exact of_sent rfl
    | @deliver r f th c hf hk =>
      have hne : f.handler ≠ some .sync := by
        rcases hk with hk | hk
        · rw [hk]
          simp
        · rw [hk]
          simp
      exact called env _ (g := fun f => { f with called := true }) hl hd hf (deferred hd hf hne)
        (fun _ => rfl) (fun _ => rfl) c

end Answering

section Sync

variable {env : Env T} {th : Thread} {s t : State T}

/-- What `_execute_handler` puts on a stack is on the thread that it runs on. -/
theorem executeHandler_new (id : MsgId) (kind : HandlerKind) (cb : Callback) (start : Start)
    {r : Ref} {g : Future}
    (hg : (State.executeHandler env th id kind cb start s).futures[r]? = some g)
    (hnew : s.futures[r]? = none) : g.active = none ∨ g.active = some th := by
  have raised : ∀ x, (State.executeRaised env th cb x s).futures[r]? = some g → False := by
    intro x hx
    obtain ⟨f, hf, -⟩ := future_of_skeleton (State.skeleton_executeRaised env th cb x s) hx
    rw [hnew] at hf
    cases hf
  have added : ∀ f : Future, (s.alloc f).futures[r]? = some g → g = f := by
    intro f hf
    rcases State.getElem?_alloc hf with hold | ⟨-, heq⟩
    · rw [hnew] at hold
      cases hold
    · exact heq
  cases kind with
  | coroutine =>
    cases start with
    | some e => exact absurd hg (raised e)
    | none =>
      cases th with
      | main =>
        left
        rw [added _ hg]
        rfl
      | worker => exact absurd hg (raised .runtimeError)
  | thread =>
    cases start with
    | some e => exact absurd hg (raised e)
    | none =>
      left
      rw [added _ hg]
      rfl
  | generator =>
    right
    rw [added _ hg]
  | sync =>
    right
    rw [added _ hg]

/-- A synchronous handler leaves the stack when it ends. -/
theorem syncEnd_idle (hl : Linked s) {r : Ref} {f : Future} (hf : s.futures[r]? = some f)
    (hk : f.handler = some .sync) (o : Outcome) {g : Future}
    (hg : (State.syncEnd env s r f.callback th o).futures[r]? = some g) : g.active = none := by
  have hsk := State.skeleton_leave s r
  have hself := State.getElem?_modify_self (g := fun f => { f with active := none }) hf
  have hb : Bystander (s.leave r) r := by
    refine ⟨_, hself, ?_⟩
    rw [show ({ f with active := none } : Future).handler = some .sync from hk]
    simp
  have hlead : ¬LeadsTo r f.callback :=
    hb.not_leadsTo (hl.congr hsk) ((parented_of_future hl hf).congr hsk)
  unfold State.syncEnd at hg
  split at hg
  · rename_i u hset
    obtain ⟨f', hf', -, rfl⟩ := setOutcome_eq_some hset
    have hf₀ : (s.leave r).futures[r]? = some { f with active := none } := hself
    rw [hf₀] at hf'
    cases hf'
    rw [runCallback_other th _ hlead, State.getElem?_modify_self hf₀] at hg
    cases hg
    rfl
  · have hf₀ : (s.leave r).futures[r]? = some { f with active := none } := hself
    rw [executeRaised_other th _ hlead, hf₀] at hg
    cases hg
    rfl

theorem request_received {q : Request} {start : Start}
    (hs : Pygls.step env s (.request q start) = some t) (hup : s.refuses q.method = false) :
    t.received = s.received ++ [(q, start)] := by
  simp only [Pygls.step, hup, Bool.false_eq_true, if_false] at hs
  split at hs
  · cases hs
    simp only [State.handleRequest]
    split
    · exact (State.sendException_sends env _ _ _ _).received
    · rw [executeHandler_received]
  · cases hs

/-- While a synchronous handler is on a stack, nothing but its end is about it. -/
theorem sync_concerns (h : Turns (fun _ => False) s) {e : LanguageServer.Event} {r : Ref}
    {f : Future} (hf : s.futures[r]? = some f) (hk : f.handler = some .sync)
    (hs : LanguageServer.step env s e = some t) (hc : Concerns s r e) :
    ∃ o, e = .protocol (.syncEnd r o) := by
  have table : ∀ id, s.requestFutures.get? id ≠ some r := by
    intro id hid
    obtain ⟨f', hf', hne⟩ := h.table id r hid
    rw [hf] at hf'
    cases hf'
    exact hne hk
  have other : ∀ {i : Ref} {f' : Future} {kind : Option HandlerKind}, i = r →
      s.futures[i]? = some f' → f'.handler = kind → kind ≠ some .sync → False := by
    rintro i f' kind rfl hf' hk' hne
    rw [hf] at hf'
    cases hf'
    exact hne (hk'.symm.trans hk)
  cases e with
  | shutdown i =>
    obtain ⟨id, hid⟩ := hc
    exact absurd hid (table id)
  | protocol e =>
    cases step_cases hs with
    | @ignored e _ hrefuse =>
      cases e with
      | cancelRequest id => exact absurd hc (table id)
      | request => cases hc
      | notification => cases hc
      | _ => cases hrefuse
    | cancelRequest => exact absurd hc (table _)
    | response => exact absurd hc (table _)
    | errorResponse => exact absurd hc (table _)
    | cancelOutgoing hf' hk' =>
      exfalso
      exact other hc hf' hk' (by simp)
    | syncEnd =>
      obtain rfl := hc
      exact ⟨_, rfl⟩
    | taskEnd _ _ hf' hk' =>
      exfalso
      exact other hc hf' hk' (by simp)
    | poolStart hf' hk' =>
      exfalso
      exact other hc hf' hk' (by simp)
    | poolEnd hf' hk' =>
      exfalso
      exact other hc hf' hk' (by simp)
    | deliver hf' hk' =>
      exfalso
      rcases hk' with hk' | hk'
      · exact other hc hf' hk' (by simp)
      · exact other hc hf' hk' (by simp)
    | _ => cases hc

end Sync

/-- Answers to prompt requests come in the order of the requests. -/
structure InOrder (env : Env T) (s : State T) : Prop where
  turns : Turns (fun _ => False) s
  handler : Assigned env s
  running : ∀ (r : Ref) (f : Future) (id : MsgId) (n : Nat), s.futures[r]? = some f →
    f.callback = .sendHandlerResult id n → f.handler = some .sync → f.active ≠ none →
    f.active = some .main ∧ n + 1 = s.received.length
  sent : ∀ (n : Nat) (id : MsgId) (a : Answer T), Message.response n id a ∈ s.sent →
    n < s.received.length
  order : s.sent.Pairwise fun x y => ∀ (m n : Nat) (id id' : MsgId) (a b : Answer T),
    x = .response m id a → y = .response n id' b → Prompt env s n → m ≤ n

namespace InOrder

variable {env : Env T} {s t : State T} {e : LanguageServer.Event}

/-- While a synchronous handler of a request runs, no request is handed over. -/
theorem received_same (h : InOrder env s) {r : Ref} {f : Future} {id : MsgId} {n : Nat}
    (hf : s.futures[r]? = some f) (hcb : f.callback = .sendHandlerResult id n)
    (hk : f.handler = some .sync) (hact : f.active ≠ none)
    (hs : LanguageServer.step env s e = some t) : t.received = s.received := by
  obtain ⟨hmain, -⟩ := h.running r f id n hf hcb hk hact
  rcases step_received hs with hsame | ⟨q, start, rfl, hup, -⟩
  · exact hsame
  · have hstep : Pygls.step env s (.request q start) = some t := hs
    have hidle : s.mainIdle = true := by
      by_contra hnot
      simp [Pygls.step, hnot] at hstep
    exact absurd hmain (Discipline.notMain hidle hf)

theorem running_step (h : InOrder env s) (hs : LanguageServer.step env s e = some t) {r : Ref}
    {g : Future} {id : MsgId} {n : Nat} (hg : t.futures[r]? = some g)
    (hcb : g.callback = .sendHandlerResult id n) (hk : g.handler = some .sync)
    (hact : g.active ≠ none) : g.active = some .main ∧ n + 1 = t.received.length := by
  have old : ∀ f, s.futures[r]? = some f → g.handler = f.handler → g.callback = f.callback →
      g.active = some .main ∧ n + 1 = t.received.length := by
    intro f hf hkf hcbf
    by_cases hc : Concerns s r e
    · obtain ⟨o, rfl⟩ := sync_concerns h.turns hf (hkf ▸ hk) hs hc
      have hstep : Pygls.step env s (.syncEnd r o) = some t := hs
      cases step_cases hstep with
      | ignored _ hrefuse => cases hrefuse
      | @syncEnd _ f' th _ hf' hk' =>
        exact absurd (syncEnd_idle h.turns.linked hf' hk' o hg) hact
    · have hb : Bystander s r := by
        refine ⟨f, hf, ?_⟩
        rw [← hkf, hk]
        simp
      rw [hb.step h.turns.linked hc hs, hf] at hg
      cases hg
      rw [h.received_same hf hcb hk hact hs]
      exact h.running r _ id n hf hcb hk hact
  cases e with
  | shutdown i =>
    obtain ⟨f₀, id₀, n₀, th, -, -, -, -, rfl⟩ := LanguageServer.shutdown_cases hs
    obtain ⟨f, hf, hkf, hcbf⟩ := future_of_skeleton (skeleton_shutdownEnd env s i _ th) hg
    exact old f hf hkf hcbf
  | protocol e =>
    have hstep : Pygls.step env s e = some t := hs
    obtain ⟨new, hnew⟩ := step_enlarges hstep
    cases hf : s.futures[r]? with
    | some f =>
      obtain ⟨g', hg', hkf, hcbf⟩ := hnew.stays hf
      rw [hg] at hg'
      cases hg'
      exact old f hf hkf hcbf
    | none =>
      rcases hnew.future hg with ⟨f, hold, -⟩ | hmem
      · rw [hf] at hold
        cases hold
      · rw [hcb] at hmem
        obtain ⟨q, rfl, hrec, -⟩ := hnew.requested g.handler id n hmem
        refine ⟨?_, by rw [hrec, List.length_append, List.length_singleton]⟩
        -- only `_handle_request` adds a handler for a request
        rcases step_received hs with hsame | ⟨q', start, heq, hup, -⟩
        · rw [hsame] at hrec
          have hlen := congrArg List.length hrec
          rw [List.length_append, List.length_singleton] at hlen
          omega
        · cases heq
          cases step_cases hstep with
          | ignored hdown _ =>
            have hlen := congrArg List.length hrec
            rw [List.length_append, List.length_singleton] at hlen
            omega
          | request =>
            simp only [State.handleRequest] at hg
            split at hg
            · rw [(State.sendException_sends env _ _ _ _).futures] at hg
              rw [show s.futures[r]? = some g from hg] at hf
              cases hf
            · have hone := executeHandler_new _ _ _ _ hg hf
              exact hone.resolve_left hact

theorem step (h : InOrder env s) (hs : LanguageServer.step env s e = some t) : InOrder env t := by
  have hmono := received_mono hs
  have hle : s.received.length ≤ t.received.length := hmono.length_le
  have prompt_mono : ∀ n, Prompt env t n → Prompt env s n := by
    intro n hn q hq
    obtain ⟨more, hmore⟩ := hmono
    obtain ⟨hlt, -⟩ := List.getElem?_eq_some_iff.mp hq
    apply hn
    rw [← hmore, List.getElem?_append_left hlt, hq]
  have hans : Answering (fun n => n < t.received.length ∧
      (Prompt env t n → n + 1 = t.received.length)) s t := by
    apply Answering.step env h.turns _ _ _ hs
    · intro r kind id n hr hne
      rw [State.getElem?_skeleton] at hr
      obtain ⟨f, hf, heq⟩ := Option.map_eq_some_iff.mp hr
      obtain ⟨hk, hcb⟩ := Prod.mk.inj heq
      obtain ⟨q, hq, hkind⟩ := h.handler r f id n hf hcb
      obtain ⟨hlt, -⟩ := List.getElem?_eq_some_iff.mp hq
      refine ⟨Nat.lt_of_lt_of_le hlt hle, ?_⟩
      intro hprompt
      exfalso
      rcases prompt_mono n hprompt q hq with hnone | hsync
      · obtain ⟨f', hf', -⟩ := Option.map_eq_some_iff.mp hr
        rw [hnone] at hkind
        rw [h.turns.linked.client hf hkind] at hcb
        cases hcb
      · exact hne (hk.symm.trans (hkind.trans hsync))
    · intro r f id n hf hk hact hcb
      have hsame := h.received_same hf hcb hk hact hs
      obtain ⟨-, hlast⟩ := h.running r f id n hf hcb hk hact
      rw [hsame]
      exact ⟨hlast ▸ Nat.lt_succ_self n, fun _ => hlast⟩
    · rintro q start rfl hup
      have hstep : Pygls.step env s (.request q start) = some t := hs
      have hlen : t.received.length = s.received.length + 1 := by
        rw [request_received hstep hup, List.length_append, List.length_singleton]
      rw [hlen]
      exact ⟨Nat.lt_succ_self _, fun _ => rfl⟩
  obtain ⟨new, hsent, hnew⟩ := hans
  constructor
  case turns => exact h.turns.step hs
  case handler => exact h.handler.step hs
  case running =>
    intro r f id n hf hcb hk hact
    exact h.running_step hs hf hcb hk hact
  case sent =>
    intro n id a hmem
    rw [hsent] at hmem
    rcases List.mem_append.mp hmem with hold | hin
    · exact Nat.lt_of_lt_of_le (h.sent n id a hold) hle
    · exact (hnew n id a hin).1
  case order =>
    rw [hsent, List.pairwise_append]
    refine ⟨?_, ?_, ?_⟩
    · apply h.order.imp
      intro x y hxy m n id id' a b hx hy hprompt
      exact hxy m n id id' a b hx hy (prompt_mono n hprompt)
    · apply List.pairwise_of_forall_mem_list
      rintro x hx y hy m n id id' a b rfl rfl hprompt
      have hlast := (hnew n id' b hy).2 hprompt
      have hlt := (hnew m id a hx).1
      omega
    · rintro x hx y hy m n id id' a b rfl rfl hprompt
      have hlast := (hnew n id' b hy).2 hprompt
      have hlt := h.sent m id a hx
      omega

theorem init (env : Env T) : InOrder env State.init := by
  constructor
  case turns => exact Turns.init
  case handler => exact Assigned.init env
  all_goals simp [State.init]

end InOrder

/-- In every run: what is sent before the answer to a prompt request answers no request that came
after it. Cancelled requests, other threads and suspended handlers do not matter. -/
theorem prompt_requests_are_not_overtaken {env : Env T} {es : List LanguageServer.Event}
    {s : State T} (hrun : Lib.run (LanguageServer.step env) State.init es = some s) {m n i j : Nat}
    {id id' : MsgId} {a b : Answer T} (hi : s.sent[i]? = some (.response m id a))
    (hj : s.sent[j]? = some (.response n id' b)) (hij : i < j) (hprompt : Prompt env s n) :
    m ≤ n := by
  have h : InOrder env s := by
    apply Lib.run_invariant (I := InOrder env) ?_ (InOrder.init env)
      (Lib.meets_true (LanguageServer.step env) State.init es) hrun
    intro s e t h _ hs
    exact h.step hs
  obtain ⟨hlti, hgeti⟩ := List.getElem?_eq_some_iff.mp hi
  obtain ⟨hltj, hgetj⟩ := List.getElem?_eq_some_iff.mp hj
  have hpair := List.pairwise_iff_getElem.mp h.order i j hlti hltj hij
  exact hpair m n id id' a b hgeti hgetj hprompt

def sampleKinds : Env Unit :=
  { sampleEnv with
    fm := ⟨fun _ => none, fun method =>
      if method = [] then some .generator else if method = [0] then some .sync else none⟩ }

/-- The first request's handler waits for a thread while the other two are answered. -/
def sampleOrder : List LanguageServer.Event :=
  [.protocol (.request ⟨.int 1, [], .null⟩ none), .protocol (.genYield 0 [] .thread none),
    .protocol (.poolStart 1), .protocol (.request ⟨.int 2, [0], .null⟩ none),
    .protocol (.syncEnd 2 (.returned .none)), .protocol (.request ⟨.int 3, [1], .null⟩ none),
    .protocol (.poolEnd 1 (.returned .none)), .protocol (.deliver 1 .worker),
    .protocol (.genEnd 0 (.returned .none))]

theorem prompt_requests_are_not_overtaken_sample :
    ∃ s, Lib.run (LanguageServer.step sampleKinds) State.init sampleOrder = some s ∧
      s.sent.filterMap answeredRequest = [1, 2, 0] ∧ 1 ≤ 2 := by
  obtain ⟨s, hrun, hanswers, hreceived, a, b, hi, hj⟩ : ∃ s,
      Lib.run (LanguageServer.step sampleKinds) State.init sampleOrder = some s ∧
      s.sent.filterMap answeredRequest = [1, 2, 0] ∧
      s.received[2]? = some (⟨.int 3, [1], .null⟩, none) ∧
      ∃ a b, s.sent[0]? = some (.response 1 (.int 2) a) ∧
        s.sent[1]? = some (.response 2 (.int 3) b) := by
    with_unfolding_all exact ⟨_, rfl, rfl, rfl, _, _, rfl, rfl⟩
  have hprompt : Prompt sampleKinds s 2 := by
    intro q hq
    rw [hreceived] at hq
    cases hq
    left
    decide
  exact ⟨s, hrun, hanswers, prompt_requests_are_not_overtaken hrun hi hj (by decide) hprompt⟩

end Pygls
