import Pygls.Bystanders
import Pygls.WorkDone

/-!
# Progress tokens over whole runs

A token is registered by `begin`, or by `create` once the client has granted it. The future
of a request to create a token gets a result from the answer of the client and from nothing
else, in whatever order the protocol does the rest of its work.
-/

namespace Pygls

set_option autoImplicit false

variable {T K : Type}

/-- The future of an outgoing request is left alone, or it was pending and is cancelled. -/
def Rests (r : Ref) (s t : State T) : Prop :=
  t.futures[r]? = s.futures[r]? ∨
    s.pendingAt r = true ∧ ∃ f, t.futures[r]? = some f ∧ f.state = .cancelled

section Rests

variable {env : Env T} {th : Thread} {s t u : State T} {r : Ref}

theorem bystander_outgoing (hr : s.skeleton[r]? = some (none, .client)) : Bystander s r := by
  rw [State.getElem?_skeleton] at hr
  obtain ⟨f, hf, heq⟩ := Option.map_eq_some_iff.mp hr
  refine ⟨f, hf, ?_⟩
  rw [(Prod.mk.inj heq).1]
  simp

theorem callback_outgoing (hr : s.skeleton[r]? = some (none, .client)) {f : Future}
    (hf : s.futures[r]? = some f) : f.handler = none ∧ f.callback = .client := by
  rw [State.getElem?_skeleton, hf] at hr
  exact Prod.mk.inj (Option.some.inj hr)

theorem Rests.trans (h : Rests r s t) (h' : Rests r t u) : Rests r s u := by
  rcases h with hst | ⟨hp, f, hf, hcan⟩
  · rcases h' with htu | ⟨hp, hcan⟩
    · exact Or.inl (htu.trans hst)
    · refine Or.inr ⟨?_, hcan⟩
      unfold State.pendingAt at hp ⊢
      rwa [hst] at hp
  · rcases h' with htu | ⟨-, hcan'⟩
    · exact Or.inr ⟨hp, f, htu.trans hf, hcan⟩
    · exact Or.inr ⟨hp, hcan'⟩

theorem cancel_rests (hl : Linked s) (hr : s.skeleton[r]? = some (none, .client)) (i : Ref) :
    Rests r s (State.cancel env th s i) := by
  by_cases hir : i = r
  · subst hir
    unfold State.cancel
    split
    · exact Or.inl rfl
    · rename_i f hf
      obtain ⟨hk, hcb⟩ := callback_outgoing hr hf
      have htask : ¬f.isTask = true := by
        rw [Future.isTask, hk]
        simp
      rw [if_neg htask]
      split
      · rename_i hpend
        right
        rw [hcb]
        refine ⟨?_, _, State.getElem?_modify_self hf, rfl⟩
        rw [State.pendingAt, hf]
        exact hpend
      · exact Or.inl rfl
  · exact Or.inl ((bystander_outgoing hr).cancel hl hir)

theorem cancelOthers_rests (env : Env T) (th : Thread) (current : Option MsgId) (size : Nat)
    (entries : List (MsgId × Ref)) (hl : Linked s)
    (hr : s.skeleton[r]? = some (none, .client)) :
    Rests r s (State.cancelOthers env th current size entries s).1 := by
  induction entries generalizing s with
  | nil => exact Or.inl rfl
  | cons entry rest ih =>
    rw [State.cancelOthers]
    split
    · split
      · have hsk := State.skeleton_cancel env th s entry.2
        exact (cancel_rests hl hr entry.2).trans (ih (hl.congr hsk) (hsk ▸ hr))
      · exact ih hl hr
    · exact Or.inl rfl

theorem shutdownEnd_rests (hl : Linked s) (hr : s.skeleton[r]? = some (none, .client)) {i : Ref}
    {cb : Callback} (hcb : Parented s (.runGenerator i cb)) :
    Rests r s (s.shutdownEnd env i cb th) := by
  have hloop := cancelOthers_rests env th (cb.msgId th) s.requestFutures.size
    s.requestFutures.entries hl hr
  have hsk := State.skeleton_cancelOthers env th (cb.msgId th) s.requestFutures.size
    s.requestFutures.entries s
  have hend : ∀ (u : State T) (x : PyExc), u.skeleton = s.skeleton →
      Rests r u (State.executeRaised env th (.runGenerator i cb) x (u.leave i)) := by
    intro u x hu
    left
    apply (bystander_outgoing (hu ▸ hr)).executeRaised_leave (hl.congr hu)
    exact hcb.congr hu
  simp only [State.shutdownEnd]
  split
  · apply hloop.trans
    apply hend
    exact hsk
  · apply hloop.trans
    apply hend
    exact hsk

theorem Rests.returned (h : Rests r s t) : t.returned r = s.returned r := by
  rcases h with hsame | ⟨hp, f, hf, hcan⟩
  · unfold State.returned
    rw [hsame]
  · obtain ⟨g, hg, hpend⟩ := (Option.any_eq_true _ _).mp hp
    have hst : g.state = .pending := by
      unfold Future.isPending at hpend
      split at hpend
      · assumption
      · cases hpend
    simp [State.returned, hf, hg, hcan, hst]

/-- A step that takes no response leaves the outgoing requests alone, or cancels them. -/
theorem step_rests {e : LanguageServer.Event} (hl : Linked s)
    (hr : s.skeleton[r]? = some (none, .client))
    (hresponse : ∀ id j, e ≠ .protocol (.response id j))
    (herror : ∀ id x, e ≠ .protocol (.errorResponse id x))
    (hs : LanguageServer.step env s e = some t) : Rests r s t := by
  have hb := bystander_outgoing hr
  have idle : ¬Concerns s r e → Rests r s t := fun hc => Or.inl (hb.step hl hc hs)
  -- no handler's code is that of an outgoing request
  have code : ∀ {i : Ref} {f : Future} {kind : HandlerKind}, s.futures[i]? = some f →
      f.handler = some kind → i ≠ r := by
    rintro i f kind hf hk rfl
    rw [(callback_outgoing hr hf).1] at hk
    cases hk
  cases e with
  | shutdown i =>
    obtain ⟨f, id, n, th, hf, hk, -, hcb, rfl⟩ := LanguageServer.shutdown_cases hs
    rw [← hcb]
    exact shutdownEnd_rests hl hr (parented_self hf hk)
  | protocol e =>
    cases step_cases hs with
    | ignored => exact Or.inl rfl
    | @cancelRequest id =>
      unfold State.handleCancelNotification
      split
      · exact Or.inl rfl
      · rename_i i _
        have hpop : Linked (s.popFuture id) := hl.congr rfl
        have hrest : Rests r (s.popFuture id) (State.cancel env .main (s.popFuture id) i) :=
          cancel_rests hpop hr i
        exact hrest
    | @response id j => exact absurd rfl (hresponse id j)
    | @errorResponse id x => exact absurd rfl (herror id x)
    | cancelOutgoing => exact cancel_rests hl hr _
    | syncEnd hf hk => exact idle (code hf hk)
    | taskEnd _ _ hf hk => exact idle (code hf hk)
    | poolStart hf hk => exact idle (code hf hk)
    | poolEnd hf hk => exact idle (code hf hk)
    | deliver hf hk =>
      rcases hk with hk | hk
      · exact idle (code hf hk)
      · exact idle (code hf hk)
    | _ => exact idle not_false

theorem handleResponse_returned (env : Env T) (hl : Linked s)
    (hr : s.skeleton[r]? = some (none, .client)) (id : MsgId) (o : Outcome) :
    (s.handleResponse env id o).returned r = true ↔
      s.returned r = true ∨ s.resolves id = some r ∧ ∃ v, o = .returned v := by
  simp only [State.handleResponse, State.resolves]
  cases hget : s.requestFutures.get? id with
  | none => simp
  | some i =>
    dsimp only
    have hpop : (s.popFuture id).futures = s.futures := rfl
    rw [hpop]
    cases hf : s.futures[i]? with
    | none =>
      simp only [Option.filter_some, hf, Option.any_none, Bool.false_eq_true, if_false,
        reduceCtorEq, false_and, or_false]
      exact Iff.rfl
    | some f =>
      dsimp only
      split
      · rename_i htask
        simp only [Option.filter_some, hf, Option.any_some, htask, Bool.not_true, Bool.false_and,
          Bool.false_eq_true, if_false, reduceCtorEq, false_and, or_false]
        exact Iff.rfl
      · rename_i htask
        split
        · rename_i hopen
          have hself := State.getElem?_modify_self (s := s.popFuture id)
            (g := Future.settle (.finished o)) hf
          simp only [Option.filter_some, hf, Option.any_some, htask, hopen, Bool.not_false,
            Bool.and_self, if_true, Option.some.injEq]
          by_cases hir : i = r
          · subst hir
            obtain ⟨-, hcb⟩ := callback_outgoing hr hf
            have hbefore : s.returned i = false := by
              unfold Future.isOpen at hopen
              unfold State.returned
              rw [hf, Option.any_some]
              split at hopen
              · rename_i hst
                rw [hst]
              · rename_i hst
                rw [hst]
              · cases hopen
            rw [hcb, hbefore]
            unfold State.returned
            simp only [State.runCallback]
            rw [hself]
            cases o with
            | returned v => simp [Future.settle]
            | raised x => simp [Future.settle]
          · have hpop : Bystander (s.popFuture id) r := (bystander_outgoing hr).congr rfl
            have hlpop : Linked (s.popFuture id) := hl.congr rfl
            simp only [hir, false_and, or_false]
            unfold State.returned
            rw [hpop.called (g := Future.settle (.finished o)) hlpop hf hir (fun _ => rfl)
              (fun _ => rfl)]
            exact Iff.rfl
        · rename_i hopen
          simp only [Option.filter_some, hf, Option.any_some, htask, hopen, Bool.not_false,
            Bool.and_false, Bool.false_eq_true, if_false, reduceCtorEq, false_and, or_false]
          exact Iff.rfl

/-- The result of an outgoing request is what a response gives it, and stays. -/
theorem step_returned {e : LanguageServer.Event} (hl : Linked s)
    (hr : s.skeleton[r]? = some (none, .client)) (hs : LanguageServer.step env s e = some t) :
    t.returned r = true ↔ s.returned r = true ∨ e.resolves env s = some r := by
  have rests : (∀ id j, e ≠ .protocol (.response id j)) →
      (∀ id x, e ≠ .protocol (.errorResponse id x)) → e.resolves env s = none →
      (t.returned r = true ↔ s.returned r = true ∨ e.resolves env s = some r) := by
    intro hresponse herror hnone
    rw [(step_rests hl hr hresponse herror hs).returned, hnone]
    simp
  cases e with
  | shutdown i => exact rests (by simp) (by simp) rfl
  | protocol e =>
    cases e with
    | response id j =>
      have hstep : Pygls.step env s (.response id j) = some t := hs
      cases step_cases hstep with
      | ignored _ hrefuse => cases hrefuse
      | response =>
        simp only [State.receiveResult, LanguageServer.Event.resolves]
        have hpop : Linked (s.popType id) := hl.congr rfl
        cases hv : env.structureResult (s.resultTypes.get? id).join j with
        | none =>
          simp only [Option.isNone_none, Bool.or_true, if_true, reduceCtorEq, or_false]
          exact Iff.rfl
        | some v =>
          dsimp only
          have hdown : (s.popType id).shutdown = s.shutdown := rfl
          rw [hdown]
          cases hshut : s.shutdown with
          | true =>
            simp only [Bool.true_or, if_true, reduceCtorEq, or_false]
            exact Iff.rfl
          | false =>
            simp only [Option.isNone_some, Bool.or_self, Bool.false_eq_true, if_false]
            have hresp := handleResponse_returned env hpop hr id (.returned v)
            simp only [Outcome.returned.injEq, exists_eq', and_true] at hresp
            exact hresp
    | errorResponse id error =>
      have hstep : Pygls.step env s (.errorResponse id error) = some t := hs
      cases step_cases hstep with
      | ignored _ hrefuse => cases hrefuse
      | errorResponse =>
        simp only [State.receiveError]
        cases error with
        | none =>
          simp only [LanguageServer.Event.resolves]
          split
          · simp
          · have hresp := handleResponse_returned env hl hr id (.returned .none)
            simp only [Outcome.returned.injEq, exists_eq', and_true] at hresp
            exact hresp
        | some x =>
          simp only [LanguageServer.Event.resolves, reduceCtorEq, or_false]
          split
          · exact Iff.rfl
          · have hresp := handleResponse_returned env hl hr id
              (.raised (.jsonRpc (.fromError x)))
            simp only [reduceCtorEq, exists_false, and_false, or_false] at hresp
            exact hresp
    | _ => exact rests (by simp) (by simp) rfl

end Rests

namespace WorkDone

variable [DecidableEq K]

/-- What holds of a server after the events `es`. -/
structure Granted (es : List (Event K)) (s : WorkDone T K) : Prop where
  linked : Linked s.server
  outgoing : ∀ c ∈ s.creates, s.server.skeleton[c.future]? = some (none, .client)
  answered : ∀ c ∈ s.creates, c.waiting = false → s.server.returned c.future = true
  prompt : ∀ c ∈ s.creates, c.isAsync = false → s.server.returned c.future = true →
    c.waiting = false
  registered : ∀ k, s.tokens.get? k ≠ none ↔
    .beginWork k ∈ es ∨ ∃ c ∈ s.creates, c.token = k ∧ c.waiting = false
  cancelled : ∀ k, s.tokens.get? k = some true → ∃ uuid, .cancel k uuid ∈ es

theorem setDefault_ne_none (tokens : Lib.Dict K Bool) (token k : K) :
    (setDefault tokens token).get? k ≠ none ↔ k = token ∨ tokens.get? k ≠ none := by
  unfold setDefault
  split
  · rw [Lib.Dict.get?_set]
    by_cases hk : k = token
    · simp [hk]
    · simp [hk]
  · rename_i hin
    constructor
    · exact Or.inr
    · rintro (rfl | h)
      · exact hin
      · exact h

theorem setDefault_eq_true {tokens : Lib.Dict K Bool} {token k : K}
    (h : (setDefault tokens token).get? k = some true) : tokens.get? k = some true := by
  unfold setDefault at h
  split at h
  · rw [Lib.Dict.get?_set] at h
    split at h
    · cases h
    · exact h
  · exact h

theorem cancelToken_ne_none (tokens : Lib.Dict K Bool) (token k : K) :
    (cancelToken tokens token).get? k ≠ none ↔ tokens.get? k ≠ none := by
  unfold cancelToken
  split
  · exact Iff.rfl
  · rename_i hin
    rw [Lib.Dict.get?_set]
    split
    · rename_i heq
      subst heq
      exact iff_of_true (Option.some_ne_none true) hin
    · exact Iff.rfl

theorem cancelToken_eq_true {tokens : Lib.Dict K Bool} {token k : K}
    (h : (cancelToken tokens token).get? k = some true) :
    k = token ∨ tokens.get? k = some true := by
  unfold cancelToken at h
  split at h
  · exact Or.inr h
  · rw [Lib.Dict.get?_set] at h
    split at h
    · rename_i heq
      exact Or.inl heq
    · exact Or.inr h

namespace Granted

variable {env : Env T} {params : K → PyValue} {es : List (Event K)} {s : WorkDone T K}

/-- A step of the protocol, when the creates are not told of it. -/
theorem serve (h : Granted es s) {e : LanguageServer.Event} {t : State T}
    (hs : LanguageServer.step env s.server e = some t) (hnone : e.resolves env s.server = none) :
    Granted es { s with server := t } := by
  have hext := Extends.step hs
  have same : ∀ c ∈ s.creates, (t.returned c.future = true ↔
      s.server.returned c.future = true) := by
    intro c hc
    rw [step_returned h.linked (h.outgoing c hc) hs, hnone]
    simp
  constructor
  case linked => exact h.linked.step hs
  case outgoing =>
    intro c hc
    exact getElem?_of_prefix hext.skeleton (h.outgoing c hc)
  case answered =>
    intro c hc hwait
    exact (same c hc).mpr (h.answered c hc hwait)
  case prompt =>
    intro c hc hsync hret
    exact h.prompt c hc hsync ((same c hc).mp hret)
  case registered => exact h.registered
  case cancelled => exact h.cancelled

/-- An event that says nothing about tokens. -/
theorem mono (h : Granted es s) {e : Event K} (he : ∀ k, e ≠ .beginWork k) :
    Granted (es ++ [e]) s := by
  refine { h with registered := ?_, cancelled := ?_ }
  · intro k
    rw [h.registered, List.mem_append, List.mem_singleton]
    have hne : Event.beginWork k ≠ e := fun heq => he k heq.symm
    simp [hne]
  · intro k hk
    obtain ⟨uuid, hmem⟩ := h.cancelled k hk
    exact ⟨uuid, List.mem_append_left _ hmem⟩

theorem create (h : Granted es s) (token : K) (uuid : Str) (isAsync : Bool) :
    Granted es { s with
      server := s.server.sendRequest (builtin env) (.str uuid) windowWorkDoneProgressCreate
        (params token)
      creates := s.creates ++ [⟨s.server.fresh, token, isAsync, true⟩] } := by
  have hs : LanguageServer.step (builtin env) s.server
      (.protocol (.sendRequest (.str uuid) windowWorkDoneProgressCreate (params token))) =
        some (s.server.sendRequest (builtin env) (.str uuid) windowWorkDoneProgressCreate
          (params token)) := rfl
  have hserve := h.serve hs rfl
  have hnew : (s.server.sendRequest (builtin env) (.str uuid) windowWorkDoneProgressCreate
      (params token)).futures[s.server.fresh]? = some (.pending none .client) := by
    rw [State.sendRequest_futures]
    simp [State.fresh]
  refine { hserve with outgoing := ?_, answered := ?_, prompt := ?_, registered := ?_ }
  · intro c hc
    rcases List.mem_append.mp hc with hold | hlast
    · exact hserve.outgoing c hold
    · cases List.mem_singleton.mp hlast
      rw [State.getElem?_skeleton, hnew]
      rfl
  · intro c hc hwait
    rcases List.mem_append.mp hc with hold | hlast
    · exact hserve.answered c hold hwait
    · cases List.mem_singleton.mp hlast
      cases hwait
  · intro c hc hsync hret
    rcases List.mem_append.mp hc with hold | hlast
    · exact hserve.prompt c hold hsync hret
    · cases List.mem_singleton.mp hlast
      rw [State.returned, hnew] at hret
      cases hret
  · intro k
    rw [h.registered]
    simp

theorem beginWork (h : Granted es s) (token : K) :
    Granted (es ++ [.beginWork token]) { s with tokens := setDefault s.tokens token } := by
  refine { h with registered := ?_, cancelled := ?_ }
  · intro k
    rw [setDefault_ne_none, h.registered, List.mem_append, List.mem_singleton,
      Event.beginWork.injEq]
    tauto
  · intro k hk
    obtain ⟨uuid, hmem⟩ := h.cancelled k (setDefault_eq_true hk)
    exact ⟨uuid, List.mem_append_left _ hmem⟩

theorem cancel (h : Granted es s) (token : K) (uuid : Str) :
    Granted (es ++ [.cancel token uuid]) { s with tokens := cancelToken s.tokens token } := by
  have hmono := h.mono (e := .cancel token uuid) (by simp)
  refine { hmono with registered := ?_, cancelled := ?_ }
  · intro k
    rw [cancelToken_ne_none]
    exact hmono.registered k
  · intro k hk
    rcases cancelToken_eq_true hk with rfl | hold
    · exact ⟨uuid, List.mem_append_right _ (List.mem_singleton.mpr rfl)⟩
    · exact hmono.cancelled k hold

theorem resume (h : Granted es s) {i : Nat} {c : Create K} (hc : s.creates[i]? = some c)
    (hready : c.ready s.server = true) :
    Granted (es ++ [.resume i]) { s with
      creates := s.creates.modify i Create.done
      tokens := registerToken s.tokens c.token } := by
  simp only [Create.ready, Bool.and_eq_true] at hready
  obtain ⟨⟨hasync, -⟩, hret⟩ := hready
  have back : ∀ c' ∈ s.creates.modify i Create.done, c' ∈ s.creates ∨ c' = c.done := by
    intro c' hmem
    obtain ⟨j, hj⟩ := List.mem_iff_getElem?.mp hmem
    rw [List.getElem?_modify] at hj
    obtain ⟨d, hd, rfl⟩ := Option.map_eq_some_iff.mp hj
    split
    · rename_i hij
      rw [← hij, hc] at hd
      cases hd
      exact Or.inr rfl
    · exact Or.inl (List.mem_of_getElem? hd)
  have forth : ∀ d ∈ s.creates, d.waiting = false → d ∈ s.creates.modify i Create.done := by
    intro d hmem hwait
    obtain ⟨j, hj⟩ := List.mem_iff_getElem?.mp hmem
    refine List.mem_iff_getElem?.mpr ⟨j, ?_⟩
    rw [List.getElem?_modify, hj]
    split
    · obtain ⟨future, token, isAsync, waiting⟩ := d
      cases hwait
      rfl
    · rfl
  have hdone : c.done ∈ s.creates.modify i Create.done := by
    refine List.mem_iff_getElem?.mpr ⟨i, ?_⟩
    rw [List.getElem?_modify, hc]
    simp
  have hmem : c ∈ s.creates := List.mem_of_getElem? hc
  constructor
  case linked => exact h.linked
  case outgoing =>
    intro c' hc'
    rcases back c' hc' with hold | rfl
    · exact h.outgoing c' hold
    · exact h.outgoing c hmem
  case answered =>
    intro c' hc' hwait
    rcases back c' hc' with hold | rfl
    · exact h.answered c' hold hwait
    · exact hret
  case prompt =>
    intro c' hc' hsync hret'
    rcases back c' hc' with hold | rfl
    · exact h.prompt c' hold hsync hret'
    · rw [show c.done.isAsync = true from hasync] at hsync
      cases hsync
  case registered =>
    intro k
    have hold := h.registered k
    rw [registerToken, Lib.Dict.get?_set, List.mem_append, List.mem_singleton]
    constructor
    · intro hne
      by_cases hk : k = c.token
      · exact Or.inr ⟨c.done, hdone, hk.symm, rfl⟩
      · rw [if_neg hk] at hne
        rcases hold.mp hne with hbegun | ⟨d, hd, htok, hwait⟩
        · exact Or.inl (Or.inl hbegun)
        · exact Or.inr ⟨d, forth d hd hwait, htok, hwait⟩
    · rintro ((hbegun | heq) | ⟨c', hc', htok, hwait⟩)
      · split
        · simp
        · exact hold.mpr (Or.inl hbegun)
      · cases heq
      · split
        · simp
        · rename_i hk
          rcases back c' hc' with hmem' | rfl
          · exact hold.mpr (Or.inr ⟨c', hmem', htok, hwait⟩)
          · exact absurd htok.symm hk
  case cancelled =>
    intro k hk
    rw [registerToken, Lib.Dict.get?_set] at hk
    split at hk
    · cases hk
    · obtain ⟨uuid, hin⟩ := h.cancelled k hk
      exact ⟨uuid, List.mem_append_left _ hin⟩

theorem server (h : Granted es s) {e : LanguageServer.Event} {t : State T}
    (hs : LanguageServer.step env s.server e = some t) :
    let r := e.resolves env s.server
    Granted (es ++ [.server e])
      { server := t
        creates := s.creates.map fun c => if c.fires r then c.done else c
        tokens := ((s.creates.filter (Create.fires r)).map Create.token).foldl registerToken
          s.tokens } := by
  intro r
  have hext := Extends.step hs
  have hret : ∀ c ∈ s.creates, (t.returned c.future = true ↔
      s.server.returned c.future = true ∨ r = some c.future) := by
    intro c hc
    exact step_returned h.linked (h.outgoing c hc) hs
  have hfires : ∀ c : Create K, c.fires r = true ↔
      c.isAsync = false ∧ c.waiting = true ∧ r = some c.future := by
    intro c
    rw [Create.fires, Bool.and_eq_true, Bool.and_eq_true, Bool.not_eq_true', decide_eq_true_eq,
      and_assoc, eq_comm (b := r)]
  constructor
  case linked => exact h.linked.step hs
  case outgoing =>
    intro c' hc'
    obtain ⟨c, hc, rfl⟩ := List.mem_map.mp hc'
    have hout := getElem?_of_prefix hext.skeleton (h.outgoing c hc)
    split
    · exact hout
    · exact hout
  case answered =>
    intro c' hc' hwait
    obtain ⟨c, hc, rfl⟩ := List.mem_map.mp hc'
    split at hwait
    · rename_i hfire
      rw [if_pos hfire]
      exact (hret c hc).mpr (Or.inr ((hfires c).mp hfire).2.2)
    · rename_i hfire
      rw [if_neg hfire]
      exact (hret c hc).mpr (Or.inl (h.answered c hc hwait))
  case prompt =>
    intro c' hc' hsync hreturned
    obtain ⟨c, hc, rfl⟩ := List.mem_map.mp hc'
    by_cases hfire : c.fires r = true
    · rw [if_pos hfire]
      rfl
    · rw [if_neg hfire] at hsync hreturned ⊢
      rcases (hret c hc).mp hreturned with hold | hnow
      · exact h.prompt c hc hsync hold
      · cases hwait : c.waiting with
        | false => rfl
        | true => exact absurd ((hfires c).mpr ⟨hsync, hwait, hnow⟩) hfire
  case registered =>
    intro k
    have hold := h.registered k
    rw [get?_foldl_registerToken]
    have hks : k ∈ (s.creates.filter (Create.fires r)).map Create.token ↔
        ∃ c ∈ s.creates, c.fires r = true ∧ c.token = k := by
      simp [List.mem_map, List.mem_filter, and_assoc]
    constructor
    · intro hne
      split at hne
      · rename_i hin
        obtain ⟨c, hc, hfire, htok⟩ := hks.mp hin
        right
        refine ⟨_, List.mem_map_of_mem hc, ?_⟩
        rw [if_pos hfire]
        exact ⟨htok, rfl⟩
      · rcases hold.mp hne with hbegun | ⟨c, hc, htok, hwait⟩
        · exact Or.inl (List.mem_append_left _ hbegun)
        · right
          refine ⟨_, List.mem_map_of_mem hc, ?_⟩
          split
          · exact ⟨htok, rfl⟩
          · exact ⟨htok, hwait⟩
    · rintro (hbegun | ⟨c', hc', htok, hwait⟩)
      · split
        · simp
        · apply hold.mpr
          rcases List.mem_append.mp hbegun with hin | hlast
          · exact Or.inl hin
          · cases List.mem_singleton.mp hlast
      · obtain ⟨c, hc, rfl⟩ := List.mem_map.mp hc'
        by_cases hfire : c.fires r = true
        · rw [if_pos hfire] at htok
          rw [if_pos (hks.mpr ⟨c, hc, hfire, htok⟩)]
          simp
        · rw [if_neg hfire] at htok hwait
          split
          · simp
          · exact hold.mpr (Or.inr ⟨c, hc, htok, hwait⟩)
  case cancelled =>
    intro k hk
    rw [get?_foldl_registerToken] at hk
    split at hk
    · cases hk
    · obtain ⟨uuid, hin⟩ := h.cancelled k hk
      exact ⟨uuid, List.mem_append_left _ hin⟩

theorem step {t : WorkDone T K} {e : Event K} (h : Granted es s)
    (hs : WorkDone.step env params s e = some t) : Granted (es ++ [e]) t := by
  cases e with
  | create token uuid isAsync =>
    have hmono := h.mono (e := .create token uuid isAsync) (by simp)
    simp only [WorkDone.step] at hs
    split at hs
    · cases hs
      exact hmono.create token uuid isAsync
    · cases hs
      exact hmono
  | beginWork token =>
    cases hs
    exact h.beginWork token
  | cancel token uuid =>
    obtain ⟨u, hu, rfl⟩ := Option.map_eq_some_iff.mp hs
    have hls : LanguageServer.step (builtin env) s.server
        (.protocol (.notification windowWorkDoneProgressCancel uuid none)) = some u := hu
    have hserve := h.serve hls rfl
    split
    · exact hserve.mono (by simp)
    · exact hserve.cancel token uuid
  | resume i =>
    obtain ⟨c, hc, rfl⟩ := Option.map_eq_some_iff.mp hs
    obtain ⟨hci, hready⟩ := Option.filter_eq_some_iff.mp hc
    exact h.resume hci hready
  | server e =>
    simp only [WorkDone.step] at hs
    split at hs
    · cases hs
    · obtain ⟨u, hu, rfl⟩ := Option.map_eq_some_iff.mp hs
      exact h.server hu

theorem init : Granted [] (WorkDone.init : WorkDone T K) := by
  constructor
  case linked => exact Linked.init
  all_goals simp [WorkDone.init]

end Granted

end WorkDone

end Pygls
