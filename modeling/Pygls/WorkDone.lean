import Pygls.Responses

/-!
# Work done progress

`progress.py` over the protocol. `tokens` says of each registered token whether its
future is cancelled. Whether a token is free is checked when the request to create it
is sent, it is registered when the answer arrives: inside `set_result` for `create`,
when its coroutine is resumed for `create_async`. A second create of the same token,
sent before the first was answered, so replaces the future that was registered.
-/

namespace Pygls

set_option autoImplicit false

variable {T K : Type} [DecidableEq K]

def windowWorkDoneProgressCreate : Method := text "window/workDoneProgress/create"

def windowWorkDoneProgressCancel : Method := text "window/workDoneProgress/cancel"

/-- The future whose `set_result` does not raise. -/
def State.resolves (s : State T) (id : MsgId) : Option Ref :=
  (s.requestFutures.get? id).filter fun r =>
    s.futures[r]?.any fun f => !f.isTask && f.isOpen

/-- The future that a message of the peer gives a result. An error response without an
error gives it `None`. -/
def LanguageServer.Event.resolves (env : Env T) (s : State T) : LanguageServer.Event → Option Ref
  | .protocol (.response id j) =>
    if s.shutdown || (env.structureResult (s.resultTypes.get? id).join j).isNone then none
    else s.resolves id
  | .protocol (.errorResponse id none) => if s.shutdown then none else s.resolves id
  | _ => none

def State.returned (s : State T) (r : Ref) : Bool :=
  s.futures[r]?.any fun f =>
    match f.state with
    | .finished (.returned _) => true
    | _ => false

/-- A call of `create` or `create_async` that has sent its request; `waiting` until its
token is registered. -/
structure Create (K : Type) where
  future : Ref
  token : K
  isAsync : Bool
  waiting : Bool

namespace Create

/-- The `create` calls whose callback runs in `set_result` of the given future. -/
def fires (r : Option Ref) (c : Create K) : Bool :=
  !c.isAsync && c.waiting && some c.future = r

/-- The `create_async` calls whose coroutine can go on. -/
def ready (s : State T) (c : Create K) : Bool :=
  c.isAsync && c.waiting && s.returned c.future

def done (c : Create K) : Create K := { c with waiting := false }

end Create

structure WorkDone (T K : Type) where
  server : State T
  creates : List (Create K)
  tokens : Lib.Dict K Bool

namespace WorkDone

/-- `server` is any event but the notification that `cancel` is. -/
inductive Event (K : Type) where
  | create (token : K) (uuid : Str) (isAsync : Bool)
  | beginWork (token : K)
  | cancel (token : K) (uuid : Str)
  | resume (create : Nat)
  | server (event : LanguageServer.Event)

/-- The built-in handler of the cancellation is a generator. -/
def builtin (env : Env T) : Env T :=
  { env with
    fm := { env.fm with
      builtinFeatures := fun method =>
        if method = windowWorkDoneProgressCancel then some .generator
        else env.fm.builtinFeatures method } }

def init : WorkDone T K := ⟨State.init, [], .empty⟩

/-- `_register_token` -/
def registerToken (tokens : Lib.Dict K Bool) (token : K) : Lib.Dict K Bool := tokens.set token false

/-- `self.tokens.setdefault(token, Future())` -/
def setDefault (tokens : Lib.Dict K Bool) (token : K) : Lib.Dict K Bool :=
  if tokens.get? token = none then tokens.set token false else tokens

/-- The first segment of `lsp_work_done_progress_cancel`. -/
def cancelToken (tokens : Lib.Dict K Bool) (token : K) : Lib.Dict K Bool :=
  if tokens.get? token = none then tokens else tokens.set token true

def isCancel : LanguageServer.Event → Bool
  | .protocol (.notification method _ _) => method = windowWorkDoneProgressCancel
  | _ => false

/-- `params` are the `WorkDoneProgressCreateParams` of a token. The notification that `begin`
sends is left out: nothing answers it. -/
def step (env : Env T) (params : K → PyValue) (s : WorkDone T K) : Event K → Option (WorkDone T K)
  | .create token uuid isAsync =>
    if s.tokens.get? token = none then
      some { s with
        server := s.server.sendRequest (builtin env) (.str uuid) windowWorkDoneProgressCreate
          (params token)
        creates := s.creates ++ [⟨s.server.fresh, token, isAsync, true⟩] }
    else some s
  | .beginWork token => some { s with tokens := setDefault s.tokens token }
  | .cancel token uuid =>
    (Pygls.step (builtin env) s.server (.notification windowWorkDoneProgressCancel uuid none)).map
      fun t =>
        { s with
          server := t
          tokens :=
            if s.server.refuses windowWorkDoneProgressCancel then s.tokens
            else cancelToken s.tokens token }
  | .resume i =>
    (s.creates[i]?.filter fun c => c.ready s.server).map fun c =>
      { s with
        creates := s.creates.modify i Create.done
        tokens := registerToken s.tokens c.token }
  | .server e =>
    if isCancel e then none
    else
      (LanguageServer.step (builtin env) s.server e).map fun t =>
        let r := e.resolves (builtin env) s.server
        { server := t
          creates := s.creates.map fun c => if c.fires r then c.done else c
          tokens := ((s.creates.filter (Create.fires r)).map Create.token).foldl registerToken s.tokens }

/-- The tokens that an event registers. -/
def Event.registers (env : Env T) (s : WorkDone T K) : Event K → List K
  | .resume i => ((s.creates[i]?.filter fun c => c.ready s.server).map Create.token).toList
  | .server e => (s.creates.filter (Create.fires (e.resolves (builtin env) s.server))).map Create.token
  | _ => []

theorem get?_setDefault (tokens : Lib.Dict K Bool) (token k : K) (b : Bool)
    (h : tokens.get? k = some b) : (setDefault tokens token).get? k = some b := by
  unfold setDefault
  split
  · rename_i hnone
    rw [Lib.Dict.get?_set_ne]
    · exact h
    · rintro rfl
      rw [h] at hnone
      cases hnone
  · exact h

theorem get?_cancelToken (tokens : Lib.Dict K Bool) (token k : K)
    (h : tokens.get? k = some true) : (cancelToken tokens token).get? k = some true := by
  unfold cancelToken
  split
  · exact h
  · rw [Lib.Dict.get?_set]
    split
    · rfl
    · exact h

theorem get?_foldl_registerToken (ks : List K) (tokens : Lib.Dict K Bool) (k : K) :
    (ks.foldl registerToken tokens).get? k =
      if k ∈ ks then some false else tokens.get? k := by
  induction ks generalizing tokens with
  | nil => rfl
  | cons j ks ih =>
    rw [List.foldl_cons, ih, registerToken, Lib.Dict.get?_set]
    by_cases hks : k ∈ ks
    · simp [hks]
    · by_cases hkj : k = j
      · simp [hkj]
      · simp [hks, hkj]

/-- One step keeps a cancellation unless it registers the token again. -/
theorem cancelled_step {env : Env T} {params : K → PyValue} {s t : WorkDone T K} {e : Event K}
    (hs : step env params s e = some t) {k : K} (hk : s.tokens.get? k = some true) :
    t.tokens.get? k = some true ↔ k ∉ e.registers env s := by
  cases e with
  | create token uuid isAsync =>
    refine iff_of_true ?_ List.not_mem_nil
    simp only [step] at hs
    split at hs <;> (cases hs; exact hk)
  | beginWork token =>
    cases hs
    exact iff_of_true (get?_setDefault s.tokens token k true hk) List.not_mem_nil
  | cancel token uuid =>
    obtain ⟨t, -, rfl⟩ := Option.map_eq_some_iff.mp hs
    refine iff_of_true ?_ List.not_mem_nil
    dsimp only
    split
    · exact hk
    · exact get?_cancelToken s.tokens token k hk
  | resume i =>
    obtain ⟨c, hc, rfl⟩ := Option.map_eq_some_iff.mp hs
    simp only [Event.registers, hc, registerToken, Lib.Dict.get?_set]
    by_cases hkc : k = c.token
    · simp [hkc]
    · simp [hkc, hk]
  | server e =>
    simp only [step] at hs
    split at hs
    · cases hs
    · obtain ⟨t, -, rfl⟩ := Option.map_eq_some_iff.mp hs
      simp only [Event.registers, get?_foldl_registerToken]
      split
      · rename_i hmem
        simp [hmem]
      · rename_i hmem
        simp [hmem, hk]

/-- A cancellation that was handled for a registered token holds in every later state
exactly when no later step registers the token again. -/
theorem cancellation_is_kept {env : Env T} {params : K → PyValue} {s s' : WorkDone T K} {token : K}
    {uuid : Str} (hin : s.tokens.get? token ≠ none)
    (hup : s.server.refuses windowWorkDoneProgressCancel = false)
    (hcancel : step env params s (.cancel token uuid) = some s') (es : List (Event K)) :
    (∀ fs t, fs <+: es → Lib.run (step env params) s' fs = some t →
      t.tokens.get? token = some true) ↔
    Lib.Meets (step env params)
      (fun t e => step env params t e ≠ none → token ∉ e.registers env t) s' es := by
  have hs' : s'.tokens.get? token = some true := by
    obtain ⟨t, -, rfl⟩ := Option.map_eq_some_iff.mp hcancel
    simp [hup, cancelToken, hin]
  refine Lib.run_keeps_iff (P := fun t : WorkDone T K => t.tokens.get? token = some true) ?_ hs' es
  intro t e u ht hstep
  exact cancelled_step hstep ht

/-- Two creates of one token, the first of them answered. -/
def sampleCreates : List (Event MsgId) :=
  [.create (.int 1) [65] false, .create (.int 1) [66] false,
    .server (.protocol (.response (.str [65]) .null))]

/-- The handler of the cancellation ends, and the second create is answered with `answer`. -/
def sampleRest (answer : Pygls.Event) : List (Event MsgId) :=
  [.server (.protocol (.genEnd 2 (.returned .none))), .server (.protocol answer)]

def sampleRegistered : WorkDone Unit MsgId :=
  (Lib.run (step sampleEnv fun _ => .none) init sampleCreates).getD init

def sampleCancelled : WorkDone Unit MsgId :=
  (step sampleEnv (fun _ => .none) sampleRegistered (.cancel (.int 1) [67])).getD init

/-- The second create is refused. -/
theorem cancellation_is_kept_refused :
    ∃ t, Lib.run (step sampleEnv fun _ => .none) init sampleCreates = some sampleRegistered ∧
      step sampleEnv (fun _ => .none) sampleRegistered (.cancel (.int 1) [67]) =
        some sampleCancelled ∧
      Lib.run (step sampleEnv fun _ => .none) sampleCancelled
        (sampleRest (.errorResponse (.str [66]) (some ⟨-1, [], .none⟩))) = some t ∧
      t.tokens.get? (.int 1) = some true := by
  have hin : sampleRegistered.tokens.get? (.int 1) ≠ none := nofun
  have hcancel : step sampleEnv (fun _ => .none) sampleRegistered (.cancel (.int 1) [67]) =
      some sampleCancelled := by
    with_unfolding_all rfl
  have hkept := cancellation_is_kept hin rfl hcancel
    (sampleRest (.errorResponse (.str [66]) (some ⟨-1, [], .none⟩)))
  refine ⟨_, rfl, hcancel, by with_unfolding_all rfl, ?_⟩
  refine hkept.mpr ?_ _ _ (List.prefix_refl _) (by with_unfolding_all rfl)
  refine Lib.meets_cons (by with_unfolding_all rfl) ?_
    (Lib.meets_cons (by with_unfolding_all rfl) ?_ trivial)
  · intro _ hmem
    cases hmem
  · intro _ hmem
    cases hmem

/-- The second create is granted after the cancellation: the future that the worker polls is
a new one. -/
theorem cancellation_is_overwritten :
    ∃ s s' t, Lib.run (step sampleEnv fun _ => .none) init sampleCreates = some s ∧
      s.tokens.get? (.int 1) = some false ∧
      step sampleEnv (fun _ => .none) s (.cancel (.int 1) [67]) = some s' ∧
      s'.tokens.get? (.int 1) = some true ∧
      Lib.run (step sampleEnv fun _ => .none) s' (sampleRest (.response (.str [66]) .null)) =
        some t ∧
      t.tokens.get? (.int 1) = some false := by
  refine ⟨_, _, _, rfl, rfl, by with_unfolding_all rfl, ?_, by with_unfolding_all rfl, ?_⟩
  · with_unfolding_all rfl
  · with_unfolding_all rfl

/-- No create of the token is still to be registered. -/
def Settled (token : K) (s : WorkDone T K) : Prop :=
  ∀ c ∈ s.creates, c.token = token → c.waiting = false

omit [DecidableEq K] in
theorem Settled.not_registers {env : Env T} {s : WorkDone T K} {token : K} (h : Settled token s)
    (e : Event K) : token ∉ e.registers env s := by
  intro hmem
  cases e with
  | create token uuid isAsync => cases hmem
  | beginWork token => cases hmem
  | cancel token uuid => cases hmem
  | resume i =>
    obtain ⟨c, hc, htok⟩ := Option.map_eq_some_iff.mp (Option.mem_toList.mp hmem)
    obtain ⟨hci, hready⟩ := Option.filter_eq_some_iff.mp hc
    have hwait := h c (List.mem_of_getElem? hci) htok
    simp [Create.ready, hwait] at hready
  | server e =>
    obtain ⟨c, hc, htok⟩ := List.mem_map.mp hmem
    obtain ⟨hmem, hfires⟩ := List.mem_filter.mp hc
    have hwait := h c hmem htok
    simp [Create.fires, hwait] at hfires

/-- While the token is registered no create of it can be sent. -/
theorem Settled.step {env : Env T} {params : K → PyValue} {s t : WorkDone T K} {token : K}
    {e : Event K} (h : Settled token s) (hreg : s.tokens.get? token ≠ none)
    (hs : WorkDone.step env params s e = some t) : Settled token t := by
  cases e with
  | create token' uuid isAsync =>
    simp only [WorkDone.step] at hs
    split at hs
    · rename_i hnone
      cases hs
      intro c hc htok
      rcases List.mem_append.mp hc with hc | hc
      · exact h c hc htok
      · cases List.mem_singleton.mp hc
        subst htok
        exact absurd hnone hreg
    · cases hs
      exact h
  | beginWork token' =>
    cases hs
    exact h
  | cancel token' uuid =>
    obtain ⟨t, -, rfl⟩ := Option.map_eq_some_iff.mp hs
    exact h
  | resume i =>
    obtain ⟨c, hc, rfl⟩ := Option.map_eq_some_iff.mp hs
    intro c' hc' htok
    obtain ⟨j, hj⟩ := List.mem_iff_getElem?.mp hc'
    rw [List.getElem?_modify] at hj
    obtain ⟨d, hd, hdc⟩ := Option.map_eq_some_iff.mp hj
    subst hdc
    split
    · rfl
    · rename_i hne
      rw [if_neg hne] at htok
      exact h d (List.mem_of_getElem? hd) htok
  | server e =>
    simp only [WorkDone.step] at hs
    split at hs
    · cases hs
    · obtain ⟨t, -, rfl⟩ := Option.map_eq_some_iff.mp hs
      intro c' hc' htok
      obtain ⟨c, hc, rfl⟩ := List.mem_map.mp hc'
      split
      · rfl
      · rename_i hne
        rw [if_neg hne] at htok
        exact h c hc htok

/-- With no create of the token outstanding, its cancellation is final. -/
theorem cancellation_is_final {env : Env T} {params : K → PyValue} {s t : WorkDone T K} {token : K}
    (hk : s.tokens.get? token = some true) (h : Settled token s) {es : List (Event K)}
    (hrun : Lib.run (step env params) s es = some t) : t.tokens.get? token = some true := by
  refine (Lib.run_invariant (I := fun u => u.tokens.get? token = some true ∧ Settled token u) ?_
    ⟨hk, h⟩ (Lib.meets_true (step env params) s es) hrun).1
  rintro u e u' ⟨hu, hset⟩ - hstep
  have hreg : u.tokens.get? token ≠ none := by
    rw [hu]
    exact Option.some_ne_none true
  exact ⟨(cancelled_step hstep hu).mpr (hset.not_registers e), hset.step hreg hstep⟩

end WorkDone

end Pygls
