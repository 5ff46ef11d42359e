import Pygls.Callbacks

/-!
# The language server's own steps

`LanguageServerProtocol` is the JSON-RPC protocol with built-in generator handlers.
One of them reaches into the protocol: `lsp_shutdown` cancels what is in flight
before it ends. Its last segment, after the user's handler if there is one, is
an event of its own here, and one step. What the workers of the pool may do
while it runs is the subject of `Closing`, which has this step as the schedule
on which they do nothing.
-/

namespace Pygls

set_option autoImplicit false

variable {T : Type}

def shutdownMethod : Method := text "shutdown"

/-- `msg_id` as a handler sees it: set in the context of the request's message, which a
worker does not have. -/
def Callback.msgId : Callback → Thread → Option MsgId
  | _, .worker => none
  | .sendHandlerResult id _, .main => some id
  | .checkHandlerResult, .main => none
  | .client, .main => none
  | .runGenerator _ up, .main => up.msgId .main

namespace State

/-- The loop of `lsp_shutdown`, with nothing between its rounds: `Closing` lets other threads in.
A dictionary that changes its size while it is iterated makes the next step of the iteration
raise. -/
def cancelOthers (env : Env T) (th : Thread) (current : Option MsgId) (size : Nat) :
    List (MsgId × Ref) → State T → State T × Option PyExc
  | [], s => (s, if s.requestFutures.size = size then none else some .runtimeError)
  | (id, r) :: rest, s =>
    if s.requestFutures.size = size then
      cancelOthers env th current size rest
        (if some id ≠ current ∧ s.futures[r]?.any Future.isOpen then cancel env th s r else s)
    else (s, some .runtimeError)

/-- The last segment of `lsp_shutdown`, and what `_run_generator` does when it ends. -/
def shutdownEnd (env : Env T) (s : State T) (r : Ref) (cb : Callback) (th : Thread) : State T :=
  let p := cancelOthers env th (cb.msgId th) s.requestFutures.size s.requestFutures.entries s
  match p.2 with
  | none =>
    executeRaised env th (.runGenerator r cb) (.stopIteration .none)
      ({ p.1 with shutdown := true }.leave r)
  | some e => executeRaised env th (.runGenerator r cb) e (p.1.leave r)

/-- The future of a `shutdown` request. -/
def isShutdown (s : State T) (r : Ref) : Bool :=
  s.futures[r]?.any fun f =>
    match f.callback with
    | .sendHandlerResult _ n => s.received[n]?.any fun q => q.1.method = shutdownMethod
    | _ => false

/-- What never changes in a future. -/
def skeleton (s : State T) : List (Option HandlerKind × Callback) :=
  s.futures.map fun f => (f.handler, f.callback)

theorem getElem?_skeleton (s : State T) (r : Ref) :
    s.skeleton[r]? = s.futures[r]?.map fun f => (f.handler, f.callback) := by
  rw [skeleton, List.getElem?_map]

theorem skeleton_of_futures {s t : State T} (h : t.futures = s.futures) :
    t.skeleton = s.skeleton := by
  rw [skeleton, skeleton, h]

theorem skeleton_modify (s : State T) (r : Ref) {g : Future → Future}
    (hk : ∀ f, (g f).handler = f.handler) (hcb : ∀ f, (g f).callback = f.callback) :
    (s.modify r g).skeleton = s.skeleton := by
  apply List.ext_getElem?
  intro i
  rw [getElem?_skeleton, getElem?_skeleton, getElem?_modify]
  split
  · cases s.futures[i]? with
    | none => rfl
    | some f => simp [hk, hcb]
  · rfl

theorem skeleton_setOutcome {s s' : State T} {r : Ref} {o : Outcome}
    (h : s.setOutcome r o = some s') : s'.skeleton = s.skeleton := by
  obtain ⟨f, -, -, rfl⟩ := setOutcome_eq_some h
  exact skeleton_modify s r (fun _ => rfl) (fun _ => rfl)

theorem skeleton_leave (s : State T) (r : Ref) : (s.leave r).skeleton = s.skeleton :=
  skeleton_modify s r (fun _ => rfl) (fun _ => rfl)

theorem skeleton_resume (s : State T) (r : Ref) (th : Thread) (v : PyValue) :
    (s.resume r th v).skeleton = s.skeleton :=
  skeleton_modify s r (fun _ => rfl) (fun _ => rfl)

theorem skeleton_alloc (s : State T) (f : Future) :
    (s.alloc f).skeleton = s.skeleton ++ [(f.handler, f.callback)] := by
  simp [skeleton, alloc]

theorem skeleton_runCallback (env : Env T) (th : Thread) (cb : Callback) (c : Completion)
    (s : State T) : (runCallback env th cb c s).skeleton = s.skeleton := by
  refine runCallback_rule (I := fun t => t.skeleton = s.skeleton) (R := fun _ _ _ => True)
    ?_ ?_ ?_ cb c s rfl trivial
  · intro t id n c ht _
    rw [skeleton_of_futures (sendHandlerResult_sends env t id n c).futures]
    exact ht
  · intro t r up c v ht _
    rw [skeleton_resume]
    exact ht
  · intro t t' r up c e ht _ _ hs
    rw [skeleton_setOutcome hs]
    exact ⟨ht, trivial⟩

theorem skeleton_executeRaised (env : Env T) (th : Thread) (cb : Callback) (e : PyExc)
    (s : State T) : (executeRaised env th cb e s).skeleton = s.skeleton := by
  refine executeRaised_rule (I := fun t => t.skeleton = s.skeleton) (R := fun _ _ _ => True)
    (P := fun _ _ _ => True) ?_ ?_ ?_ ?_ cb e s rfl trivial
  · intro cb c t ht _
    rw [skeleton_runCallback]
    exact ht
  · intro t id n e ht _
    rw [skeleton_of_futures (sendException_sends env t n id e).futures]
    exact ht
  · intro t t' r up e ht _ hs
    rw [skeleton_setOutcome hs]
    exact ⟨ht, trivial⟩
  · intros
    trivial

theorem skeleton_cancel (env : Env T) (th : Thread) (s : State T) (r : Ref) :
    (cancel env th s r).skeleton = s.skeleton := by
  unfold cancel
  split
  · rfl
  · split
    · split
      · exact skeleton_modify s r (fun _ => rfl) (fun _ => rfl)
      · rfl
    · split
      · rw [skeleton_runCallback]
        exact skeleton_modify s r (fun _ => rfl) (fun _ => rfl)
      · rfl

theorem skeleton_cancelOthers (env : Env T) (th : Thread) (current : Option MsgId) (size : Nat)
    (entries : List (MsgId × Ref)) (s : State T) :
    (cancelOthers env th current size entries s).1.skeleton = s.skeleton := by
  induction entries generalizing s with
  | nil => rfl
  | cons entry rest ih =>
    rw [cancelOthers]
    split
    · rw [ih]
      split
      · exact skeleton_cancel env th s entry.2
      · rfl
    · rfl

theorem skeleton_handleResponse (env : Env T) (s : State T) (id : MsgId) (o : Outcome) :
    (s.handleResponse env id o).skeleton = s.skeleton := by
  simp only [handleResponse]
  split
  · rfl
  · split
    · rfl
    · split
      · rfl
      · split
        · rw [skeleton_runCallback]
          exact skeleton_modify (s.popFuture id) _ (fun _ => rfl) (fun _ => rfl)
        · rfl

end State

def State.pendingAt (s : State T) (r : Ref) : Bool := s.futures[r]?.any Future.isPending

theorem pendingAt_of_setOutcome {s t : State T} {r : Ref} {o : Outcome}
    (h : s.setOutcome r o = some t) : s.pendingAt r = true := by
  obtain ⟨f, hf, hpend, -⟩ := setOutcome_eq_some h
  rw [State.pendingAt, hf]
  exact hpend

theorem pendingAt_of_setOutcome_none {s : State T} {r : Ref} {o : Outcome}
    (h : s.setOutcome r o = none) : s.pendingAt r = false := by
  unfold State.setOutcome at h
  split at h
  · cases h
  · rename_i hnot
    exact eq_false_of_ne_true hnot

/-- Fewer entries, fewer pending futures, the same handlers. -/
structure Shrinks (s t : State T) : Prop where
  table : ∀ (id : MsgId) (r : Ref), t.requestFutures.get? id = some r →
    s.requestFutures.get? id = some r
  types : ∀ (id : MsgId), s.resultTypes.get? id = none → t.resultTypes.get? id = none
  pending : ∀ (r : Ref), t.pendingAt r = true → s.pendingAt r = true
  skeleton : t.skeleton = s.skeleton

namespace Shrinks

variable {s t u : State T}

theorem refl (s : State T) : Shrinks s s := ⟨fun _ _ h => h, fun _ h => h, fun _ h => h, rfl⟩

theorem trans (h : Shrinks s t) (h' : Shrinks t u) : Shrinks s u :=
  ⟨fun id r hu => h.table id r (h'.table id r hu), fun id hs => h'.types id (h.types id hs),
    fun r hu => h.pending r (h'.pending r hu), h'.skeleton.trans h.skeleton⟩

theorem of_modify (s : State T) (r : Ref) {g : Future → Future}
    (hk : ∀ f, (g f).handler = f.handler) (hcb : ∀ f, (g f).callback = f.callback)
    (hp : ∀ f, (g f).isPending = true → f.isPending = true) : Shrinks s (s.modify r g) := by
  refine ⟨fun _ _ h => h, fun _ h => h, ?_, State.skeleton_modify s r hk hcb⟩
  intro i hi
  obtain ⟨f', hf', hpend⟩ := (Option.any_eq_true _ _).mp hi
  obtain ⟨f, hf, ⟨-, rfl⟩ | ⟨-, rfl⟩⟩ := modify_cases hf'
  · exact (Option.any_eq_true _ _).mpr ⟨f, hf, hp f hpend⟩
  · exact (Option.any_eq_true _ _).mpr ⟨f', hf, hpend⟩

theorem of_pop (s : State T) (id : MsgId) : Shrinks s (s.popFuture id) := by
  refine ⟨?_, fun _ h => h, fun _ h => h, rfl⟩
  intro k r hk
  simp only [State.popFuture, Lib.Dict.get?_pop] at hk
  split at hk
  · cases hk
  · exact hk

theorem of_settle (s : State T) (r : Ref) {st : FutureState} (hst : st ≠ .pending) :
    Shrinks s (s.modify r (Future.settle st)) := by
  refine of_modify s r (fun _ => rfl) (fun _ => rfl) ?_
  intro f hp
  cases st with
  | pending => exact absurd rfl hst
  | running => cases hp
  | cancelled => cases hp
  | finished o => cases hp

theorem of_setOutcome {r : Ref} {o : Outcome} (h : s.setOutcome r o = some t) : Shrinks s t := by
  obtain ⟨f, -, -, rfl⟩ := setOutcome_eq_some h
  exact of_settle s r (fun heq => nomatch heq)

theorem of_answer (env : Env T) (s : State T) (id : MsgId) (n : Nat) (c : Completion) :
    Shrinks s (s.sendHandlerResult env id n c) := by
  have hs := State.sendHandlerResult_sends env s id n c
  refine ⟨?_, ?_, ?_, State.skeleton_of_futures hs.futures⟩
  · intro k r hk
    rw [sendHandlerResult_requestFutures] at hk
    exact (of_pop s id).table k r hk
  · intro k hk
    rw [sendHandlerResult_resultTypes]
    split
    · exact Lib.Dict.get?_pop_of_none hk
    · exact hk
  · intro r hr
    unfold State.pendingAt at hr ⊢
    rwa [hs.futures] at hr

theorem runCallback (env : Env T) (th : Thread) (cb : Callback) (c : Completion) (s : State T) :
    Shrinks s (State.runCallback env th cb c s) := by
  refine runCallback_rule (I := Shrinks s) (R := fun _ _ _ => True) ?_ ?_ ?_ cb c s (refl s) trivial
  · intro t id n c h _
    exact h.trans (of_answer env t id n c)
  · intro t r up c v h _
    exact h.trans (of_modify t r (fun _ => rfl) (fun _ => rfl) (fun _ hp => hp))
  · intro t t' r up c e h _ _ hs
    exact ⟨h.trans (of_setOutcome hs), trivial⟩

theorem cancel (env : Env T) (th : Thread) (s : State T) (r : Ref) :
    Shrinks s (State.cancel env th s r) := by
  unfold State.cancel
  split
  · exact refl s
  · split
    · split
      · exact of_modify s r (fun _ => rfl) (fun _ => rfl) (fun _ hp => hp)
      · exact refl s
    · split
      · have hsettle : Shrinks s (s.modify r (Future.settle .cancelled)) :=
          of_settle s r FutureState.cancelled_ne_pending
        exact hsettle.trans (runCallback env th _ _ _)
      · exact refl s

theorem handleResponse (env : Env T) (s : State T) (id : MsgId) (o : Outcome) :
    Shrinks (s.popFuture id) (s.handleResponse env id o) ∨ s.handleResponse env id o = s ∧
      s.requestFutures.get? id = none := by
  simp only [State.handleResponse]
  split
  · rename_i hnone
    exact Or.inr ⟨rfl, hnone⟩
  · rename_i r _
    left
    split
    · exact refl _
    · split
      · exact refl _
      · split
        · have hsettle : Shrinks (s.popFuture id)
              ((s.popFuture id).modify r (Future.settle (.finished o))) :=
            of_settle _ r (FutureState.finished_ne_pending o)
          exact hsettle.trans (runCallback env .main _ _ _)
        · exact refl _

/-- The future was there before, with the same handler. -/
theorem future (h : Shrinks s t) {r : Ref} {f : Future} (hf : t.futures[r]? = some f) :
    ∃ g, s.futures[r]? = some g ∧ g.handler = f.handler ∧ g.callback = f.callback := by
  have hsk : s.skeleton[r]? = some (f.handler, f.callback) := by
    rw [← h.skeleton, State.getElem?_skeleton, hf]
    rfl
  rw [State.getElem?_skeleton] at hsk
  obtain ⟨g, hg, heq⟩ := Option.map_eq_some_iff.mp hsk
  obtain ⟨hgk, hgcb⟩ := Prod.mk.inj heq
  exact ⟨g, hg, hgk, hgcb⟩

theorem not_pendingAt (hst : Shrinks s t) {r : Ref} (h : s.pendingAt r = false) :
    t.pendingAt r = false := by
  cases ht : t.pendingAt r with
  | false => rfl
  | true =>
    rw [hst.pending r ht] at h
    cases h

theorem leave (s : State T) (r : Ref) : Shrinks s (s.leave r) :=
  of_modify s r (fun _ => rfl) (fun _ => rfl) (fun _ hp => hp)

end Shrinks

/-- What calling a handler of the kind raises on the thread. -/
def startRaises (kind : HandlerKind) (th : Thread) (start : Start) : Option PyExc :=
  match kind with
  | .coroutine => start.or (if th = .worker then some .runtimeError else none)
  | .thread => start
  | .generator => none
  | .sync => none

/-- A condition on the way that a completion takes: `gen` for every generator that it ends
with an exception, `answer` where it becomes the answer to a request. -/
def Along (s : State T) (gen : Ref → Prop) (answer : MsgId → Completion → Prop) :
    Callback → Completion → Prop
  | .sendHandlerResult id _, c => answer id c
  | .checkHandlerResult, _ => True
  | .client, _ => True
  | .runGenerator r up, c =>
    s.pendingAt r = false ∨
      match c.result with
      | some (.raised x) => gen r ∧ Along s gen answer up (.finished x.outcome)
      | _ => True

/-- The same for an exception that leaves `_execute_handler`. -/
def AlongRaised (s : State T) (gen : Ref → Prop) (answer : MsgId → Completion → Prop) :
    Callback → PyExc → Prop
  | .sendHandlerResult _ _, _ => True
  | .checkHandlerResult, _ => True
  | .client, _ => True
  | .runGenerator r up, x =>
    (s.pendingAt r = true ∧ gen r ∧ Along s gen answer up (.finished x.outcome)) ∨
      (s.pendingAt r = false ∧
        (s.wasResumed r = true ∨ AlongRaised s gen answer up .invalidStateError))

section Along

variable {s t : State T} {gen gen' : Ref → Prop} {answer answer' : MsgId → Completion → Prop}

theorem Along.mono (hst : Shrinks s t) (hgen : ∀ r, gen r → gen' r)
    (hans : ∀ id c, answer id c → answer' id c) {cb : Callback} {c : Completion}
    (h : Along s gen answer cb c) : Along t gen' answer' cb c := by
  induction cb generalizing c with
  | sendHandlerResult id n => exact hans id c h
  | checkHandlerResult => trivial
  | client => trivial
  | runGenerator r up ih =>
    rcases h with hp | h
    · exact Or.inl (hst.not_pendingAt hp)
    · right
      cases hres : c.result with
      | none => trivial
      | some o =>
        cases o with
        | returned v => trivial
        | raised x =>
          simp only [hres] at h ⊢
          exact ⟨hgen r h.1, ih h.2⟩

theorem pendingAt_leave (s : State T) (r i : Ref) : (s.leave r).pendingAt i = s.pendingAt i := by
  unfold State.pendingAt
  rw [State.leave, State.getElem?_modify]
  split
  · cases s.futures[i]? with
    | none => rfl
    | some f => rfl
  · rfl

theorem wasResumed_leave (s : State T) (r i : Ref) : (s.leave r).wasResumed i = s.wasResumed i := by
  unfold State.wasResumed
  rw [State.leave, State.getElem?_modify]
  split
  · cases s.futures[i]? with
    | none => rfl
    | some f => rfl
  · rfl

theorem AlongRaised.leave (r : Ref) (hgen : ∀ r, gen r → gen' r)
    (hans : ∀ id c, answer id c → answer' id c) {cb : Callback} {x : PyExc}
    (h : AlongRaised s gen answer cb x) : AlongRaised (s.leave r) gen' answer' cb x := by
  induction cb generalizing x with
  | sendHandlerResult id n => trivial
  | checkHandlerResult => trivial
  | client => trivial
  | runGenerator i up ih =>
    unfold AlongRaised at h ⊢
    rw [pendingAt_leave, wasResumed_leave]
    rcases h with ⟨hp, hi, halong⟩ | ⟨hp, hres | hup⟩
    · exact Or.inl ⟨hp, hgen i hi, halong.mono (Shrinks.leave s r) hgen hans⟩
    · exact Or.inr ⟨hp, Or.inl hres⟩
    · exact Or.inr ⟨hp, Or.inr (ih hup)⟩

end Along

namespace LanguageServer

inductive Event where
  | protocol (event : Pygls.Event)
  | shutdown (future : Ref)

def step (env : Env T) (s : State T) : Event → Option (State T)
  | .protocol e => Pygls.step env s e
  | .shutdown r =>
    if s.isShutdown r then (s.running r .generator).map fun p => s.shutdownEnd env r p.1 p.2
    else none

theorem shutdown_cases {env : Env T} {s t : State T} {r : Ref}
    (h : step env s (.shutdown r) = some t) :
    ∃ (f : Future) (id : MsgId) (n : Nat) (th : Thread), s.futures[r]? = some f ∧
      f.handler = some .generator ∧ f.active = some th ∧ f.callback = .sendHandlerResult id n ∧
      t = s.shutdownEnd env r (.sendHandlerResult id n) th := by
  simp only [step] at h
  split at h
  · rename_i hshut
    obtain ⟨p, hp, rfl⟩ := Option.map_eq_some_iff.mp h
    obtain ⟨f, hf, hk, hact, hcb⟩ := running_eq_some hp
    unfold State.isShutdown at hshut
    rw [hf] at hshut
    simp only [Option.any_some] at hshut
    split at hshut
    · rename_i id n hreq
      exact ⟨f, id, n, p.2, hf, hk, hact, hreq, by rw [← hcb, hreq]⟩
    · cases hshut
  · cases h

end LanguageServer

/-- A handler that a generator yielded to came after it, and leads on to what it leads to. -/
structure Linked (s : State T) : Prop where
  yielded : ∀ (i : Ref) (kind : Option HandlerKind) (p : Ref) (up : Callback),
    s.skeleton[i]? = some (kind, .runGenerator p up) →
    p < i ∧ s.skeleton[p]? = some (some .generator, up)
  outgoing : ∀ (i : Ref) (cb : Callback), s.skeleton[i]? = some (none, cb) → cb = .client

namespace Linked

variable {s t : State T}

theorem congr (h : Linked s) (hs : t.skeleton = s.skeleton) : Linked t := by
  constructor
  · rw [hs]
    exact h.yielded
  · rw [hs]
    exact h.outgoing

theorem parent (h : Linked s) {i p : Ref} {f : Future} {up : Callback}
    (hf : s.futures[i]? = some f) (hcb : f.callback = .runGenerator p up) :
    ∃ g, s.futures[p]? = some g ∧ g.callback = up ∧ g.handler = some .generator := by
  have hi : s.skeleton[i]? = some (f.handler, .runGenerator p up) := by
    rw [State.getElem?_skeleton, hf, ← hcb]
    rfl
  obtain ⟨-, hp⟩ := h.yielded i f.handler p up hi
  rw [State.getElem?_skeleton] at hp
  obtain ⟨g, hg, heq⟩ := Option.map_eq_some_iff.mp hp
  obtain ⟨hk, hup⟩ := Prod.mk.inj heq
  exact ⟨g, hg, hup, hk⟩

theorem parent_lt (h : Linked s) {i p : Ref} {f : Future} {up : Callback}
    (hf : s.futures[i]? = some f) (hcb : f.callback = .runGenerator p up) : p < i := by
  have hi : s.skeleton[i]? = some (f.handler, .runGenerator p up) := by
    rw [State.getElem?_skeleton, hf, ← hcb]
    rfl
  exact (h.yielded i f.handler p up hi).1

theorem client (h : Linked s) {i : Ref} {f : Future} (hf : s.futures[i]? = some f)
    (hk : f.handler = none) : f.callback = .client := by
  refine h.outgoing i f.callback ?_
  rw [State.getElem?_skeleton, hf, ← hk]
  rfl

theorem alloc (h : Linked s) {g : Future}
    (hg : ∀ (p : Ref) (up : Callback), g.callback = .runGenerator p up →
      s.skeleton[p]? = some (some .generator, up))
    (hout : g.handler = none → g.callback = .client) : Linked (s.alloc g) := by
  have grow : ∀ (p : Ref) (x : Option HandlerKind × Callback), s.skeleton[p]? = some x →
      p < s.skeleton.length ∧ (s.alloc g).skeleton[p]? = some x := by
    intro p x hp
    obtain ⟨hlt, -⟩ := List.getElem?_eq_some_iff.mp hp
    rw [State.skeleton_alloc, List.getElem?_append_left hlt]
    exact ⟨hlt, hp⟩
  have split : ∀ (i : Ref) (x : Option HandlerKind × Callback), (s.alloc g).skeleton[i]? = some x →
      s.skeleton[i]? = some x ∨ (s.skeleton.length ≤ i ∧ x = (g.handler, g.callback)) := by
    intro i x hi
    by_cases hlt : i < s.skeleton.length
    · rw [State.skeleton_alloc, List.getElem?_append_left hlt] at hi
      exact Or.inl hi
    · have hle : s.skeleton.length ≤ i := Nat.le_of_not_lt hlt
      rw [State.skeleton_alloc, List.getElem?_append_right hle] at hi
      exact Or.inr ⟨hle, List.mem_singleton.mp (List.mem_of_getElem? hi)⟩
  constructor
  · intro i kind p up hi
    rcases split i _ hi with hold | ⟨hle, hnew⟩
    · obtain ⟨hpi, hp⟩ := h.yielded i kind p up hold
      exact ⟨hpi, (grow p _ hp).2⟩
    · obtain ⟨-, hcb⟩ := Prod.mk.inj hnew
      obtain ⟨hplt, hp⟩ := grow p _ (hg p up hcb.symm)
      exact ⟨Nat.lt_of_lt_of_le hplt hle, hp⟩
  · intro i cb hi
    rcases split i _ hi with hold | ⟨-, hnew⟩
    · exact h.outgoing i cb hold
    · obtain ⟨hk, hcb⟩ := Prod.mk.inj hnew
      rw [hcb]
      exact hout hk.symm

theorem executeHandler (h : Linked s) (env : Env T) (th : Thread) (id : MsgId)
    (kind : HandlerKind) {cb : Callback} (start : Start)
    (hcb : ∀ (p : Ref) (up : Callback), cb = .runGenerator p up →
      s.skeleton[p]? = some (some .generator, up)) :
    Linked (State.executeHandler env th id kind cb start s) := by
  have raised : ∀ e, Linked (State.executeRaised env th cb e s) := by
    intro e
    exact h.congr (State.skeleton_executeRaised env th cb e s)
  have idle : ∀ kind, Linked ((s.alloc (.pending (some kind) cb)).register id s.fresh) := by
    intro kind
    have hl : Linked (s.alloc (.pending (some kind) cb)) := h.alloc hcb nofun
    exact hl.congr rfl
  cases kind with
  | coroutine =>
    cases start with
    | some e => exact raised e
    | none =>
      cases th with
      | main => exact idle .coroutine
      | worker => exact raised .runtimeError
  | thread =>
    cases start with
    | some e => exact raised e
    | none => exact idle .thread
  | generator =>
    have hl : Linked (s.alloc { Future.pending (some .generator) cb with active := some th }) :=
      h.alloc hcb nofun
    exact hl.congr rfl
  | sync => exact h.alloc hcb nofun

theorem shutdownEnd (h : Linked s) (env : Env T) (r : Ref) (cb : Callback) (th : Thread) :
    Linked (s.shutdownEnd env r cb th) := by
  refine h.congr ?_
  have hloop := State.skeleton_cancelOthers env th (cb.msgId th) s.requestFutures.size
    s.requestFutures.entries s
  simp only [State.shutdownEnd]
  split
  · rw [State.skeleton_executeRaised, State.skeleton_leave, ← hloop]
    rfl
  · rw [State.skeleton_executeRaised, State.skeleton_leave, hloop]

theorem step {env : Env T} {e : LanguageServer.Event} (h : Linked s)
    (hs : LanguageServer.step env s e = some t) : Linked t := by
  cases e with
  | shutdown r =>
    obtain ⟨f, id, n, th, -, -, -, -, rfl⟩ := LanguageServer.shutdown_cases hs
    exact h.shutdownEnd env r _ th
  | protocol e =>
    cases step_cases hs with
    | ignored hdown => exact h
    | @request q start hidle hup =>
      unfold State.handleRequest
      split
      · refine h.congr ?_
        rw [State.skeleton_of_futures (State.sendException_sends env _ _ _ _).futures]
        rfl
      · have hr : Linked { s with received := s.received ++ [(q, start)] } := h.congr rfl
        refine hr.executeHandler env _ _ _ _ ?_
        intro p up hcb
        cases hcb
    | notification hidle hup =>
      unfold State.handleNotification
      split
      · exact h
      · refine h.executeHandler env _ _ _ _ ?_
        intro p up hcb
        cases hcb
    | cancelRequest hidle hup =>
      unfold State.handleCancelNotification
      split
      · exact h
      · refine h.congr ?_
        rw [State.skeleton_cancel]
        rfl
    | response hidle =>
      simp only [State.receiveResult]
      split
      · exact h.congr rfl
      · split
        · exact h.congr rfl
        · refine h.congr ?_
          rw [State.skeleton_handleResponse]
          rfl
    | errorResponse hidle =>
      unfold State.receiveError
      split
      · exact h
      · split <;> exact h.congr (State.skeleton_handleResponse env s _ _)
    | sendRequest =>
      have hl : Linked (s.alloc (.pending none .client)) := by
        refine h.alloc ?_ fun _ => rfl
        intro p up hcb
        cases hcb
      exact hl.congr (State.skeleton_of_futures (State.sendRequest_futures _ _ _ _ _))
    | cancelOutgoing hf hnone => exact h.congr (State.skeleton_cancel env .main s _)
    | @syncEnd r f th o hf hk hact =>
      refine h.congr ?_
      unfold State.syncEnd
      split
      · rename_i s' hs'
        rw [State.skeleton_runCallback, State.skeleton_setOutcome hs', State.skeleton_leave]
      · rw [State.skeleton_executeRaised, State.skeleton_leave]
    | @genYield r f th uuid kind start hf hk hact =>
      have hl : Linked (s.leave r) := h.congr (State.skeleton_leave s r)
      refine hl.executeHandler env _ _ _ _ ?_
      intro p up hcb
      cases hcb
      rw [State.skeleton_leave, State.getElem?_skeleton, hf, ← hk]
      rfl
    | genEnd hf hk hact hstop =>
      refine h.congr ?_
      rw [State.skeleton_executeRaised, State.skeleton_leave]
    | taskEnd hidle hstop hf hk hpend =>
      exact h.congr (State.skeleton_modify s _ (fun _ => rfl) (fun _ => rfl))
    | poolStart hf hk hpend =>
      exact h.congr (State.skeleton_modify s _ (fun _ => rfl) (fun _ => rfl))
    | poolEnd hf hk hact =>
      exact h.congr (State.skeleton_modify s _ (fun _ => rfl) (fun _ => rfl))
    | deliver hf hk hcalled hc hidle =>
      refine h.congr ?_
      rw [State.skeleton_runCallback]
      exact State.skeleton_modify s _ (fun _ => rfl) (fun _ => rfl)

theorem init : Linked (State.init : State T) := by
  constructor
  · intro i kind p up hi
    simp [State.init, State.skeleton] at hi
  · intro i cb hi
    simp [State.init, State.skeleton] at hi

end Linked

/-- Only `lsp_shutdown` sets the flag. -/
theorem sendException_shutdown (env : Env T) (s : State T) (n : Nat) (id : MsgId) (x : PyExc) :
    (s.sendException env n id x).shutdown = s.shutdown := by
  rw [State.sendException, State.sendError, State.sendData_shutdown]

theorem sendHandlerResult_shutdown (env : Env T) (s : State T) (id : MsgId) (n : Nat)
    (c : Completion) : (s.sendHandlerResult env id n c).shutdown = s.shutdown := by
  have orSend : ∀ r : State T × Option PyExc,
      (State.orSendException env n id r).shutdown = r.1.shutdown := by
    intro r
    unfold State.orSendException
    split
    · rfl
    · rw [sendException_shutdown]
  cases c with
  | finished o =>
    cases o with
    | returned v =>
      rw [State.sendHandlerResult, orSend, State.sendResult]
      split
      · rfl
      · rw [State.sendData_shutdown]
        rfl
      · rw [State.sendData_shutdown]
        rfl
    | raised x =>
      rw [State.sendHandlerResult, sendException_shutdown]
      rfl
  | cancelled =>
    rw [State.sendHandlerResult, orSend, State.sendError, State.sendData_shutdown]
    rfl
  | taskCancelled =>
    rw [State.sendHandlerResult, orSend, State.sendError, State.sendData_shutdown]
    rfl

theorem runCallback_shutdown (env : Env T) (th : Thread) (cb : Callback) (c : Completion)
    (s : State T) : (State.runCallback env th cb c s).shutdown = s.shutdown := by
  refine runCallback_rule (I := fun t => t.shutdown = s.shutdown) (R := fun _ _ _ => True) ?_ ?_ ?_
    cb c s rfl trivial
  · intro t id n c h _
    rw [sendHandlerResult_shutdown, h]
  · intro t r up c v h _
    exact h
  · intro t t' r up c x h _ _ hs
    obtain ⟨f, -, -, rfl⟩ := setOutcome_eq_some hs
    exact ⟨h, trivial⟩

theorem executeRaised_shutdown (env : Env T) (th : Thread) (cb : Callback) (x : PyExc)
    (s : State T) : (State.executeRaised env th cb x s).shutdown = s.shutdown := by
  refine executeRaised_rule (I := fun t => t.shutdown = s.shutdown) (R := fun _ _ _ => True)
    (P := fun _ _ _ => True) ?_ ?_ ?_ ?_ cb x s rfl trivial
  · intro cb c t h _
    rw [runCallback_shutdown, h]
  · intro t id n x h _
    rw [sendException_shutdown, h]
  · intro t t' r up x h _ hs
    obtain ⟨f, -, -, rfl⟩ := setOutcome_eq_some hs
    exact ⟨h, trivial⟩
  · intros
    trivial

theorem executeHandler_shutdown (env : Env T) (th : Thread) (id : MsgId) (kind : HandlerKind)
    (cb : Callback) (start : Start) (s : State T) :
    (State.executeHandler env th id kind cb start s).shutdown = s.shutdown := by
  cases kind with
  | coroutine =>
    cases start with
    | some x => exact executeRaised_shutdown env th cb x s
    | none =>
      cases th with
      | main => rfl
      | worker => exact executeRaised_shutdown env .worker cb .runtimeError s
  | thread =>
    cases start with
    | some x => exact executeRaised_shutdown env th cb x s
    | none => rfl
  | generator => rfl
  | sync => rfl

theorem cancel_shutdown (env : Env T) (th : Thread) (s : State T) (r : Ref) :
    (State.cancel env th s r).shutdown = s.shutdown := by
  unfold State.cancel
  split
  · rfl
  · split
    · split
      · rfl
      · rfl
    · split
      · rw [runCallback_shutdown]
        rfl
      · rfl

theorem handleResponse_shutdown (env : Env T) (s : State T) (id : MsgId) (o : Outcome) :
    (s.handleResponse env id o).shutdown = s.shutdown := by
  simp only [State.handleResponse]
  split
  · rfl
  · split
    · rfl
    · split
      · rfl
      · split
        · rw [runCallback_shutdown]
          rfl
        · rfl

theorem step_shutdown {env : Env T} {s t : State T} {e : Event} (hs : step env s e = some t) :
    t.shutdown = s.shutdown := by
  cases step_cases hs with
  | ignored => rfl
  | request =>
    simp only [State.handleRequest]
    split
    · rw [sendException_shutdown]
    · rw [executeHandler_shutdown]
  | notification =>
    unfold State.handleNotification
    split
    · rfl
    · rw [executeHandler_shutdown]
  | cancelRequest =>
    unfold State.handleCancelNotification
    split
    · rfl
    · rw [cancel_shutdown]
      rfl
  | response =>
    simp only [State.receiveResult]
    split
    · rfl
    · split
      · rfl
      · rw [handleResponse_shutdown]
        rfl
  | errorResponse =>
    unfold State.receiveError
    split
    · rfl
    · split
      · rw [handleResponse_shutdown]
      · rw [handleResponse_shutdown]
  | sendRequest =>
    rw [State.sendRequest, State.sendData_shutdown]
    rfl
  | cancelOutgoing => rw [cancel_shutdown]
  | syncEnd =>
    unfold State.syncEnd
    split
    · rename_i hset
      obtain ⟨f, -, -, rfl⟩ := setOutcome_eq_some hset
      rw [runCallback_shutdown]
      rfl
    · rw [executeRaised_shutdown]
      rfl
  | genYield =>
    rw [executeHandler_shutdown]
    rfl
  | genEnd =>
    rw [executeRaised_shutdown]
    rfl
  | taskEnd => rfl
  | poolStart => rfl
  | poolEnd => rfl
  | deliver =>
    rw [runCallback_shutdown]
    rfl

end Pygls
