import Pygls.Generators

/-!
# What a step leaves alone

A callback goes from generator to generator. A future of any other kind is changed only by
an event that is about it: its own code, an entry of the table under the id of a message, or
a cancellation.
-/

namespace Pygls

set_option autoImplicit false

variable {T : Type}

/-- The future is there, and no generator's. -/
def Bystander (s : State T) (r : Ref) : Prop :=
  ∃ f, s.futures[r]? = some f ∧ f.handler ≠ some .generator

/-- The event is about the future. -/
def Concerns (s : State T) (r : Ref) : LanguageServer.Event → Prop
  | .shutdown _ => ∃ id, s.requestFutures.get? id = some r
  | .protocol (.cancelRequest id) => s.requestFutures.get? id = some r
  | .protocol (.response id _) => s.requestFutures.get? id = some r
  | .protocol (.errorResponse id _) => s.requestFutures.get? id = some r
  | .protocol (.cancelOutgoing i) => i = r
  | .protocol (.syncEnd i _) => i = r
  | .protocol (.taskEnd i _) => i = r
  | .protocol (.poolStart i) => i = r
  | .protocol (.poolEnd i _) => i = r
  | .protocol (.deliver i _) => i = r
  | .protocol _ => False

namespace Bystander

variable {env : Env T} {th : Thread} {s t : State T} {r : Ref}

theorem congr (h : Bystander s r) (hs : t.skeleton = s.skeleton) : Bystander t r := by
  obtain ⟨f, hf, hk⟩ := h
  have hr : t.skeleton[r]? = some (f.handler, f.callback) := by
    rw [hs, State.getElem?_skeleton, hf, Option.map_some]
  rw [State.getElem?_skeleton] at hr
  obtain ⟨g, hg, heq⟩ := Option.map_eq_some_iff.mp hr
  refine ⟨g, hg, ?_⟩
  rw [(Prod.mk.inj heq).1]
  exact hk

theorem ne_generator (h : Bystander s r) {i : Ref} {f : Future} (hf : s.futures[i]? = some f)
    (hk : f.handler = some .generator) : i ≠ r := by
  rintro rfl
  obtain ⟨g, hg, hne⟩ := h
  rw [hf] at hg
  cases hg
  exact hne hk

theorem not_leadsTo (h : Bystander s r) (hl : Linked s) {cb : Callback} (hcb : Parented s cb) :
    ¬LeadsTo r cb := by
  induction cb with
  | sendHandlerResult => exact not_false
  | checkHandlerResult => exact not_false
  | client => exact not_false
  | runGenerator p up ih =>
    obtain ⟨f, hf, hgen, rfl⟩ := hcb.future
    intro hlead
    rcases hlead with rfl | hup
    · exact h.ne_generator hf hgen rfl
    · exact ih (parented_of_future hl hf) hup

theorem alloc (h : Bystander s r) (g : Future) : (s.alloc g).futures[r]? = s.futures[r]? := by
  obtain ⟨f, hf, -⟩ := h
  rw [hf]
  exact Discipline.getElem?_alloc_of_some hf

theorem executeHandler (h : Bystander s r) (hl : Linked s) (id : MsgId) (kind : HandlerKind)
    {cb : Callback} (start : Start) (hcb : Parented s cb) :
    (State.executeHandler env th id kind cb start s).futures[r]? = s.futures[r]? := by
  have hlead := h.not_leadsTo hl hcb
  cases kind with
  | coroutine =>
    cases start with
    | some e => exact executeRaised_other th e hlead
    | none =>
      cases th with
      | main => exact h.alloc _
      | worker => exact executeRaised_other .worker .runtimeError hlead
  | thread =>
    cases start with
    | some e => exact executeRaised_other th e hlead
    | none => exact h.alloc _
  | generator => exact h.alloc _
  | sync => exact h.alloc _

/-- Whatever is done to another future, and calling that back. -/
theorem called (h : Bystander s r) (hl : Linked s) {i : Ref} {f : Future}
    (hf : s.futures[i]? = some f) (hir : i ≠ r) {g : Future → Future}
    (hk : ∀ f, (g f).handler = f.handler) (hcb : ∀ f, (g f).callback = f.callback)
    (c : Completion) :
    (State.runCallback env th f.callback c (s.modify i g)).futures[r]? = s.futures[r]? := by
  have hsk := State.skeleton_modify s i hk hcb
  rw [runCallback_other th]
  · exact State.getElem?_modify_ne hir.symm
  · exact (h.congr hsk).not_leadsTo (hl.congr hsk) ((parented_of_future hl hf).congr hsk)

theorem cancel (h : Bystander s r) (hl : Linked s) {i : Ref} (hir : i ≠ r) :
    (State.cancel env th s i).futures[r]? = s.futures[r]? := by
  unfold State.cancel
  split
  · rfl
  · rename_i f hf
    split
    · split
      · exact State.getElem?_modify_ne hir.symm
      · rfl
    · split
      · exact h.called (g := Future.settle .cancelled) hl hf hir (fun _ => rfl) (fun _ => rfl) _
      · rfl

theorem cancelOthers (h : Bystander s r) (hl : Linked s) (env : Env T) (th : Thread)
    (current : Option MsgId) (size : Nat) {entries : List (MsgId × Ref)}
    (hentries : ∀ e ∈ entries, e.2 ≠ r) :
    (State.cancelOthers env th current size entries s).1.futures[r]? = s.futures[r]? := by
  induction entries generalizing s with
  | nil => rfl
  | cons entry rest ih =>
    obtain ⟨hne, hrest⟩ := List.forall_mem_cons.mp hentries
    rw [State.cancelOthers]
    split
    · split
      · have hsk := State.skeleton_cancel env th s entry.2
        rw [ih (h.congr hsk) (hl.congr hsk) hrest]
        exact h.cancel hl hne
      · exact ih h hl hrest
    · rfl

/-- The end of another generator. -/
theorem executeRaised_leave (h : Bystander s r) (hl : Linked s) {i : Ref} {cb : Callback}
    (hcb : Parented s (.runGenerator i cb)) (x : PyExc) :
    (State.executeRaised env th (.runGenerator i cb) x (s.leave i)).futures[r]? =
      s.futures[r]? := by
  obtain ⟨f, hf, hgen, -⟩ := hcb.future
  have hsk := State.skeleton_leave s i
  rw [executeRaised_other th]
  · exact State.getElem?_modify_ne (h.ne_generator hf hgen).symm
  · exact (h.congr hsk).not_leadsTo (hl.congr hsk) (hcb.congr hsk)

theorem shutdownEnd (h : Bystander s r) (hl : Linked s) {i : Ref} {cb : Callback}
    (hcb : Parented s (.runGenerator i cb))
    (htable : ∀ id, s.requestFutures.get? id ≠ some r) :
    (s.shutdownEnd env i cb th).futures[r]? = s.futures[r]? := by
  have hentries : ∀ e ∈ s.requestFutures.entries, e.2 ≠ r := by
    rintro ⟨id, i⟩ hmem rfl
    exact htable id (Lib.Dict.get?_of_mem hmem)
  have hloop := h.cancelOthers hl env th (cb.msgId th) s.requestFutures.size hentries
  have hsk := State.skeleton_cancelOthers env th (cb.msgId th) s.requestFutures.size
    s.requestFutures.entries s
  have hend : ∀ (u : State T) (x : PyExc), u.skeleton = s.skeleton →
      (State.executeRaised env th (.runGenerator i cb) x (u.leave i)).futures[r]? =
        u.futures[r]? := by
    intro u x hu
    exact (h.congr hu).executeRaised_leave (hl.congr hu) (hcb.congr hu) x
  simp only [State.shutdownEnd]
  split
  · rw [hend]
    · exact hloop
    · exact hsk
  · rw [hend]
    · exact hloop
    · exact hsk

theorem handleResponse (h : Bystander s r) (hl : Linked s) (id : MsgId) (o : Outcome)
    (htable : s.requestFutures.get? id ≠ some r) :
    (s.handleResponse env id o).futures[r]? = s.futures[r]? := by
  simp only [State.handleResponse]
  split
  · rfl
  · rename_i i hi
    have hir : i ≠ r := by
      rintro rfl
      exact htable hi
    split
    · rfl
    · rename_i f hf
      split
      · rfl
      · split
        · have hpop : Bystander (s.popFuture id) r := h.congr rfl
          have hlpop : Linked (s.popFuture id) := hl.congr rfl
          exact hpop.called (g := Future.settle (.finished o)) hlpop hf hir (fun _ => rfl)
            (fun _ => rfl) _
        · rfl

theorem syncEnd (h : Bystander s r) (hl : Linked s) {i : Ref} {f : Future}
    (hf : s.futures[i]? = some f) (hir : i ≠ r) (o : Outcome) :
    (State.syncEnd env s i f.callback th o).futures[r]? = s.futures[r]? := by
  have hsk := State.skeleton_leave s i
  have hb := h.congr hsk
  have hleft := hl.congr hsk
  have hself := State.getElem?_modify_self (g := fun f => { f with active := none }) hf
  have hleave : (s.leave i).futures[r]? = s.futures[r]? := State.getElem?_modify_ne hir.symm
  unfold State.syncEnd
  split
  · rename_i u hset
    obtain ⟨g, -, -, rfl⟩ := setOutcome_eq_some hset
    rw [← hleave]
    exact hb.called (g := Future.settle (.finished o)) hleft hself hir (fun _ => rfl)
      (fun _ => rfl) _
  · rw [executeRaised_other th]
    · exact hleave
    · exact hb.not_leadsTo hleft ((parented_of_future hl hf).congr hsk)

/-- A step only changes the generators and what the event is about. -/
theorem step {e : LanguageServer.Event} (h : Bystander s r) (hl : Linked s)
    (hc : ¬Concerns s r e) (hs : LanguageServer.step env s e = some t) :
    t.futures[r]? = s.futures[r]? := by
  cases e with
  | shutdown i =>
    obtain ⟨f, id, n, th, hf, hk, -, hcb, rfl⟩ := LanguageServer.shutdown_cases hs
    apply h.shutdownEnd hl
    · rw [← hcb]
      exact parented_self hf hk
    · intro id hid
      exact hc ⟨id, hid⟩
  | protocol e =>
    cases step_cases hs with
    | ignored => rfl
    | @request q start =>
      have hq : Bystander { s with received := s.received ++ [(q, start)] } r := h.congr rfl
      have hlq : Linked { s with received := s.received ++ [(q, start)] } := hl.congr rfl
      simp only [State.handleRequest]
      split
      · rw [(State.sendException_sends env _ _ _ _).futures]
      · apply hq.executeHandler hlq
        intro p up hcb
        cases hcb
    | notification =>
      unfold State.handleNotification
      split
      · rfl
      · apply h.executeHandler hl
        intro p up hcb
        cases hcb
    | @cancelRequest id =>
      unfold State.handleCancelNotification
      split
      · rfl
      · rename_i i hi
        have hpop : Bystander (s.popFuture id) r := h.congr rfl
        have hlpop : Linked (s.popFuture id) := hl.congr rfl
        refine hpop.cancel hlpop ?_
        rintro rfl
        exact hc hi
    | @response id result =>
      have hpop : Bystander (s.popType id) r := h.congr rfl
      have hlpop : Linked (s.popType id) := hl.congr rfl
      simp only [State.receiveResult]
      split
      · rfl
      · split
        · rfl
        · exact hpop.handleResponse hlpop id _ hc
    | @errorResponse id error =>
      unfold State.receiveError
      split
      · rfl
      · split
        · exact h.handleResponse hl id _ hc
        · exact h.handleResponse hl id _ hc
    | sendRequest =>
      rw [State.sendRequest_futures]
      exact h.alloc _
    | cancelOutgoing => exact h.cancel hl hc
    | syncEnd hf => exact h.syncEnd hl hf hc _
    | @genYield i f th uuid kind start hf hk =>
      have hsk := State.skeleton_leave s i
      rw [(h.congr hsk).executeHandler (hl.congr hsk)]
      · exact State.getElem?_modify_ne (h.ne_generator hf hk).symm
      · exact (parented_self hf hk).congr hsk
    | genEnd hf hk => exact h.executeRaised_leave hl (parented_self hf hk) _
    | taskEnd => exact State.getElem?_modify_ne (Ne.symm hc)
    | poolStart => exact State.getElem?_modify_ne (Ne.symm hc)
    | poolEnd => exact State.getElem?_modify_ne (Ne.symm hc)
    | deliver hf =>
      exact h.called (g := fun f => { f with called := true }) hl hf hc (fun _ => rfl)
        (fun _ => rfl) _

end Bystander

end Pygls
