import Pygls.Bystanders
import Pygls.Outgoing

/-!
# The loop of `lsp_shutdown`

While `lsp_shutdown` walks `_request_futures` the workers of the pool go on: they take up
handlers, end them and call back. `Closing` is the language server with the loop taken apart, so
that what other threads do comes between its rounds. A table that has changed its size by then
makes the iteration raise.
-/

namespace Pygls

set_option autoImplicit false

variable {T : Type}

/-- Where the loop is: its thread, the size that the table had, and the entries to come.
`callback` is that of the request's future. -/
structure Iteration where
  callback : Callback
  thread : Thread
  size : Nat
  left : List (MsgId × Ref)

/-- `loops` are the generators of `lsp_shutdown` whose code is in the loop. -/
structure Closing (T : Type) where
  state : State T
  loops : Ref → Option Iteration

namespace State

/-- What follows the loop, or the exception that left it. -/
def afterLoop (env : Env T) (r : Ref) (cb : Callback) (th : Thread) :
    State T × Option PyExc → State T
  | (s, none) =>
    executeRaised env th (.runGenerator r cb) (.stopIteration .none)
      ({ s with shutdown := true }.leave r)
  | (s, some e) => executeRaised env th (.runGenerator r cb) e (s.leave r)

/-- One step of the iteration and what is done with the entry; `none` when the loop is over. -/
def iterate (env : Env T) (s : State T) (r : Ref) (it : Iteration) : State T × Option Iteration :=
  if s.requestFutures.size = it.size then
    match it.left with
    | [] => (afterLoop env r it.callback it.thread (s, none), none)
    | (id, i) :: rest =>
      (if some id ≠ it.callback.msgId it.thread ∧ s.futures[i]?.any Future.isOpen then
          cancel env it.thread s i
        else s, some { it with left := rest })
  else (afterLoop env r it.callback it.thread (s, some .runtimeError), none)

end State

namespace Closing

inductive Event where
  | protocol (event : Pygls.Event)
  | enter (future : Ref)
  | next (future : Ref)

def Event.nexts (r : Ref) : Event → Bool
  | .next i => i = r
  | _ => false

def init : Closing T := ⟨State.init, fun _ => none⟩

/-- The event is one of a generator's own code, which is in the loop. -/
def inLoop (p : Closing T) : Pygls.Event → Bool
  | .genYield r _ _ _ => (p.loops r).isSome
  | .genEnd r _ => (p.loops r).isSome
  | _ => false

def step (env : Env T) (p : Closing T) : Event → Option (Closing T)
  | .protocol e =>
    if p.inLoop e then none else (Pygls.step env p.state e).map fun s => { p with state := s }
  | .enter r =>
    if p.state.isShutdown r && (p.loops r).isNone then
      (p.state.running r .generator).map fun q =>
        { p with loops := Function.update p.loops r (some
          ⟨q.1, q.2, p.state.requestFutures.size, p.state.requestFutures.entries⟩) }
    else none
  | .next r =>
    (p.loops r).map fun it =>
      ⟨(p.state.iterate env r it).1, Function.update p.loops r (p.state.iterate env r it).2⟩

/-- A step of another thread leaves the table and the future of a request alone that is in the
loop; and the loop is entered on the main thread with nothing in its way. -/
def Completes (env : Env T) (p : Closing T) : Event → Prop
  | .protocol e => ∀ (r : Ref) (t : State T), (p.loops r).isSome = true →
      Pygls.step env p.state e = some t →
      t.requestFutures = p.state.requestFutures ∧ t.futures[r]? = p.state.futures[r]?
  | .enter r => ∀ (f : Future) (id : MsgId) (n : Nat), p.state.futures[r]? = some f →
      f.callback = .sendHandlerResult id n →
      f.active = some .main ∧ Undisturbed env p.state r id n
  | .next _ => True

end Closing

section Alone

variable {env : Env T} {r : Ref} {cb : Callback} {th : Thread} {size : Nat}

theorem shutdownEnd_eq (s : State T) :
    s.shutdownEnd env r cb th =
      State.afterLoop env r cb th (State.cancelOthers env th (cb.msgId th) s.requestFutures.size
        s.requestFutures.entries s) := by
  simp only [State.shutdownEnd]
  generalize State.cancelOthers env th (cb.msgId th) s.requestFutures.size
    s.requestFutures.entries s = p
  obtain ⟨t, raised⟩ := p
  cases raised with
  | none => rfl
  | some e => rfl

/-- The rounds of the loop, when nothing comes between them. -/
theorem run_nexts (entries : List (MsgId × Ref)) (p : Closing T)
    (hit : p.loops r = some ⟨cb, th, size, entries⟩) :
    ∃ k, Lib.run (Closing.step env) p (List.replicate k (.next r)) =
      some ⟨State.afterLoop env r cb th
        (State.cancelOthers env th (cb.msgId th) size entries p.state),
        Function.update p.loops r none⟩ := by
  induction entries generalizing p with
  | nil =>
    refine ⟨1, ?_⟩
    simp only [List.replicate_one, Lib.run, Closing.step, hit, Option.map_some, Option.bind_some,
      State.iterate, State.cancelOthers]
    split
    · rfl
    · rfl
  | cons entry rest ih =>
    obtain ⟨id, i⟩ := entry
    by_cases hsize : p.state.requestFutures.size = size
    · have hstep : Closing.step env p (.next r) = some
          ⟨(if some id ≠ cb.msgId th ∧ p.state.futures[i]?.any Future.isOpen then
              State.cancel env th p.state i else p.state),
            Function.update p.loops r (some ⟨cb, th, size, rest⟩)⟩ := by
        simp only [Closing.step, hit, Option.map_some, State.iterate, if_pos hsize]
      obtain ⟨k, hk⟩ := ih ⟨_, Function.update p.loops r (some ⟨cb, th, size, rest⟩)⟩
        (Function.update_self r _ _)
      refine ⟨k + 1, Lib.run_cons_iff.mpr ⟨_, hstep, ?_⟩⟩
      rw [hk, Function.update_idem, State.cancelOthers, if_pos hsize]
    · refine ⟨1, ?_⟩
      simp only [List.replicate_one, Lib.run, Closing.step, hit, Option.map_some, Option.bind_some,
        State.iterate, if_neg hsize, State.cancelOthers]

/-- With no other thread's steps between its rounds the loop is the one step it is in
`LanguageServer.step`. -/
theorem shutdown_alone {p : Closing T} {t : State T} (hloop : p.loops r = none)
    (hs : LanguageServer.step env p.state (.shutdown r) = some t) :
    ∃ k, Lib.run (Closing.step env) p (.enter r :: List.replicate k (.next r)) =
      some { p with state := t } := by
  have hshut : p.state.isShutdown r = true := by
    by_contra hnot
    simp [LanguageServer.step, hnot] at hs
  simp only [LanguageServer.step, hshut, if_true] at hs
  obtain ⟨q, hq, rfl⟩ := Option.map_eq_some_iff.mp hs
  have hstep : Closing.step env p (.enter r) = some
      { p with loops := Function.update p.loops r (some
        ⟨q.1, q.2, p.state.requestFutures.size, p.state.requestFutures.entries⟩) } := by
    simp only [Closing.step, hshut, hloop, Option.isNone_none, Bool.and_self, if_true, hq,
      Option.map_some]
  obtain ⟨k, hk⟩ := run_nexts p.state.requestFutures.entries
    { p with loops := Function.update p.loops r (some
      ⟨q.1, q.2, p.state.requestFutures.size, p.state.requestFutures.entries⟩) }
    (Function.update_self r _ _)
  refine ⟨k, Lib.run_cons_iff.mpr ⟨_, hstep, ?_⟩⟩
  rw [hk, Function.update_idem, ← hloop, Function.update_eq_self]
  simp only [shutdownEnd_eq]

end Alone

/-- What holds in every state of a run in which every shutdown completes. -/
structure Regular (s : State T) : Prop where
  discipline : Discipline s
  alone : MainAlone s
  turns : Turns (fun _ => False) s

namespace Regular

variable {env : Env T} {s t : State T} {e : Pygls.Event}

theorem init : Regular (State.init : State T) := by
  refine ⟨Discipline.init, ?_, Turns.init⟩
  intro r i f g hf
  simp [State.init] at hf

theorem step (h : Regular s) (hs : Pygls.step env s e = some t) : Regular t :=
  ⟨h.discipline.step hs, h.alone.step h.discipline hs, h.turns.step_protocol hs⟩

/-- What can be about a future is about no task, and no job of the pool that goes on is put
back into the queue. -/
theorem concerned (hbusy : s.mainIdle = false) (hs : Pygls.step env s e = some t) {i : Ref}
    {f : Future} (hf : s.futures[i]? = some f) (hc : Concerns s i (.protocol e)) :
    f.handler ≠ some .coroutine ∧
      (f.handler = some .thread → f.isOpen = true → f.isPending = false →
        ∀ g, t.futures[i]? = some g → g.isPending = false) := by
  cases e with
  | cancelRequest id => simp [Pygls.step, hbusy] at hs
  | response id result => simp [Pygls.step, hbusy] at hs
  | errorResponse id error => simp [Pygls.step, hbusy] at hs
  | taskEnd j o => simp [Pygls.step, hbusy] at hs
  | cancelOutgoing j =>
    cases hc
    cases step_cases hs with
    | ignored _ hrefuse => cases hrefuse
    | cancelOutgoing hf' hnone =>
      rw [hf] at hf'
      cases hf'
      rw [hnone]
      exact ⟨by simp, by simp⟩
  | syncEnd j o =>
    cases hc
    cases step_cases hs with
    | ignored _ hrefuse => cases hrefuse
    | syncEnd hf' hk =>
      rw [hf] at hf'
      cases hf'
      rw [hk]
      exact ⟨by simp, by simp⟩
  | poolStart j =>
    cases hc
    cases step_cases hs with
    | ignored _ hrefuse => cases hrefuse
    | poolStart hf' hk hpend =>
      rw [hf] at hf'
      cases hf'
      rw [hk, hpend]
      exact ⟨by simp, by simp⟩
  | poolEnd j o =>
    cases hc
    cases step_cases hs with
    | ignored _ hrefuse => cases hrefuse
    | poolEnd hf' hk =>
      rw [hf] at hf'
      cases hf'
      rw [hk]
      refine ⟨by simp, fun _ hopen _ g hg => ?_⟩
      rw [State.getElem?_modify_self hf] at hg
      cases hg
      simp [Future.isPending, hopen]
  | deliver j th =>
    cases hc
    simp only [Pygls.step, hf, Option.bind_some] at hs
    obtain ⟨c, hcomp, -⟩ := Option.map_eq_some_iff.mp hs
    cases th with
    | main => simp [Future.deliverable, hbusy] at hcomp
    | worker =>
      simp only [Future.deliverable] at hcomp
      split at hcomp
      · rename_i hthread
        simp only [Bool.and_eq_true, decide_eq_true_eq] at hthread
        rw [hthread.1]
        refine ⟨by simp, fun _ hopen => ?_⟩
        unfold Future.completion at hcomp
        unfold Future.isOpen at hopen
        split at hcomp <;> simp_all
      · cases hcomp
  | _ => exact False.elim hc

section Beside

variable (h : Regular s) (hbusy : s.mainIdle = false) (hs : Pygls.step env s e = some t)
  (htable : t.requestFutures = s.requestFutures)
include h hbusy hs htable

/-- While the main thread is busy no message comes in, and a request that is sent gets a new
entry. -/
theorem local_of_busy : e.local = true := by
  cases e with
  | request q start => simp [Pygls.step, hbusy] at hs
  | response id result => simp [Pygls.step, hbusy] at hs
  | errorResponse id error => simp [Pygls.step, hbusy] at hs
  | sendRequest id method params =>
    cases hs
    have hget : s.requestFutures.get? id = some s.fresh := by
      rw [← htable, State.sendRequest_requestFutures]
      exact Lib.Dict.get?_set_self _ _ _
    obtain ⟨f, hf, -⟩ := h.turns.table id s.fresh hget
    exact absurd (List.getElem?_eq_some_iff.mp hf).1 (Nat.lt_irrefl s.fresh)
  | _ => rfl

theorem quiet : Quiet (fun _ => False) (e.hits s) s t :=
  step_quiet h.discipline (fun _ _ hown => hown) (h.local_of_busy hbusy hs htable)
    (fun _ _ hown => hown) hs

/-- What was under way goes on, and a task stays as it is. -/
theorem ages {i : Ref} {f : Future} (hf : s.futures[i]? = some f) :
    ∃ g, t.futures[i]? = some g ∧ f.Ages g := by
  obtain ⟨g, hg, hadv⟩ := (h.quiet hbusy hs htable).futures i f hf
  have kept : f.handler ≠ some .generator → ¬Concerns s i (.protocol e) → g = f := by
    intro hk hc
    have hb : Bystander s i := ⟨f, hf, hk⟩
    have hsame := hb.step h.turns.linked hc hs
    rw [hg, hf] at hsame
    exact Option.some.inj hsame
  refine ⟨g, hg, hadv.handler, hadv.callback, ?_, ?_⟩
  · intro hp
    by_contra hnot
    cases hopen : f.isOpen with
    | false =>
      rw [Future.isPending, hadv.done hopen] at hp
      exact hnot hp
    | true =>
      have hk := h.discipline.running i f hf hopen (eq_false_of_ne_true hnot)
      by_cases hc : Concerns s i (.protocol e)
      · have hleft := (concerned hbusy hs hf hc).2 hk hopen (eq_false_of_ne_true hnot) g hg
        rw [hp] at hleft
        cases hleft
      · rw [kept (by simp [hk]) hc] at hp
        exact hnot hp
  · rintro (hst | hst | ⟨htask, hreq⟩)
    · left
      rw [hadv.done (isOpen_cancelled hst), hst]
    · right
      left
      rw [hadv.done (by simp [Future.isOpen, hst]), hst]
    · have hk : f.handler = some .coroutine := by simpa [Future.isTask] using htask
      have hc : ¬Concerns s i (.protocol e) := fun hc => (concerned hbusy hs hf hc).1 hk
      rw [kept (by simp [hk]) hc]
      exact Or.inr (Or.inr ⟨htask, hreq⟩)

end Beside

end Regular

/-- In the state `s` the loop is where `it` says. It was entered in `s₀` for the request `n`. -/
structure Walking (env : Env T) (s₀ : State T) (r : Ref) (id : MsgId) (n : Nat) (s : State T)
    (it : Iteration) : Prop where
  callback : it.callback = .sendHandlerResult id n
  thread : it.thread = .main
  size : it.size = s.requestFutures.size
  table : s.requestFutures = s₀.requestFutures
  own : ∃ f, s.futures[r]? = some f ∧ f.handler = some .generator ∧ f.active = some .main ∧
    f.callback = .sendHandlerResult id n
  undisturbed : Undisturbed env s r id n
  ages : ∀ (i : Ref) (f : Future), s₀.futures[i]? = some f → ∃ g, s.futures[i]? = some g ∧ f.Ages g
  entries : ∀ e ∈ it.left, e ∈ s₀.requestFutures.entries
  visited : ∀ (k : MsgId) (i : Ref) (g : Future), (k, i) ∈ s₀.requestFutures.entries →
    (k, i) ∉ it.left → k ≠ id → s.futures[i]? = some g → g.Stopped ∨ g.isPending = false

theorem reaches_of_ages {s t : State T} (hl : Linked s)
    (hages : ∀ (i : Ref) (f : Future), s.futures[i]? = some f →
      ∃ g, t.futures[i]? = some g ∧ f.Ages g) {cb : Callback} (hcb : Parented s cb)
    {x : MsgId × Nat} (hx : reaches t cb = some x) : reaches s cb = some x := by
  induction cb with
  | sendHandlerResult id n => exact hx
  | checkHandlerResult => exact hx
  | client => exact hx
  | runGenerator r up ih =>
    obtain ⟨f, hf, -, hup⟩ := hcb.future
    obtain ⟨g, hg, hage⟩ := hages r f hf
    simp only [reaches] at hx ⊢
    split at hx
    · rename_i hp
      rw [State.pendingAt, hg] at hp
      have hp' : s.pendingAt r = true := by
        rw [State.pendingAt, hf]
        exact hage.pending hp
      rw [if_pos hp']
      exact ih (hup ▸ parented_of_future hl hf) hx
    · cases hx

/-- A future that is in the table is one of those before the step. -/
theorem Undisturbed.beside {env : Env T} {s t : State T} {e : Pygls.Event} {r : Ref} {id : MsgId}
    {n : Nat} (hu : Undisturbed env s r id n) (h : Regular s) (hbusy : s.mainIdle = false)
    (hs : Pygls.step env s e = some t) (htable : t.requestFutures = s.requestFutures)
    (hown : t.futures[r]? = s.futures[r]?) : Undisturbed env t r id n := by
  have hages : ∀ (i : Ref) (f : Future), s.futures[i]? = some f →
      ∃ g, t.futures[i]? = some g ∧ f.Ages g := fun i f hf => h.ages hbusy hs htable hf
  have before : ∀ (k : MsgId) (i : Ref) (g : Future), t.requestFutures.get? k = some i →
      t.futures[i]? = some g → s.requestFutures.get? k = some i ∧
        ∃ f, s.futures[i]? = some f ∧ f.Ages g := by
    intro k i g hget hg
    rw [htable] at hget
    obtain ⟨f, hf, -⟩ := h.turns.table k i hget
    obtain ⟨g', hg', hage⟩ := hages i f hf
    rw [hg] at hg'
    cases hg'
    exact ⟨hget, f, hf, hage⟩
  constructor
  case pending =>
    rw [State.pendingAt, hown]
    exact hu.pending
  case own =>
    intro i g hget hg hp
    obtain ⟨hget, f, hf, hage⟩ := before id i g hget hg
    exact hu.own i f hget hf (hage.pending hp)
  case others =>
    intro k i g hget hk hg htask hp k' m hreach
    obtain ⟨hget, f, hf, hage⟩ := before k i g hget hg
    rw [htable]
    refine hu.others k i f hget hk hf ?_ (hage.pending hp) k' m ?_
    · rw [Future.isTask, ← hage.handler]
      exact htask
    · rw [hage.callback] at hreach
      exact reaches_of_ages h.turns.linked hages (parented_of_future h.turns.linked hf) hreach
  case null =>
    have hnull := hu.null
    unfold NullAnswer at hnull ⊢
    cases hget : t.resultTypes.get? id with
    | none => trivial
    | some x =>
      rw [(h.quiet hbusy hs htable).typesOnly id x hget] at hnull
      exact hnull

theorem Undisturbed.halts {env : Env T} {s t : State T} {r : Ref} {id : MsgId} {n : Nat}
    (hu : Undisturbed env s r id n) (hhalt : Halts r s t) (hst : Shrinks s t) :
    Undisturbed env t r id n := by
  constructor
  case pending =>
    rw [State.pendingAt, hhalt.own]
    exact hu.pending
  case own =>
    intro i g hget hg hp
    obtain ⟨f, hf, hfate⟩ := hhalt.back hg
    rw [hhalt.table] at hget
    exact hu.own i f hget hf (hfate.pending hp)
  case others =>
    intro k i g hget hk hg
    obtain ⟨f, hf, hfate⟩ := hhalt.back hg
    rw [hhalt.table] at hget
    exact hhalt.harmless hst hfate (hu.others k i f hget hk hf)
  case null =>
    unfold NullAnswer
    rw [hhalt.types]
    exact hu.null

namespace Walking

variable {env : Env T} {s₀ s t : State T} {r : Ref} {id : MsgId} {n : Nat} {it : Iteration}

theorem busy (h : Walking env s₀ r id n s it) : s.mainIdle = false := by
  obtain ⟨f, hf, -, hmain, -⟩ := h.own
  cases hidle : s.mainIdle with
  | false => rfl
  | true => exact absurd hmain (Discipline.notMain hidle hf)

/-- Another thread takes a step. -/
theorem beside {e : Pygls.Event} (hw : Walking env s₀ r id n s it) (h : Regular s)
    (hs : Pygls.step env s e = some t) (htable : t.requestFutures = s.requestFutures)
    (hown : t.futures[r]? = s.futures[r]?) : Walking env s₀ r id n t it := by
  constructor
  case callback => exact hw.callback
  case thread => exact hw.thread
  case size => rw [htable, hw.size]
  case table => rw [htable, hw.table]
  case own =>
    rw [hown]
    exact hw.own
  case undisturbed => exact hw.undisturbed.beside h hw.busy hs htable hown
  case ages =>
    intro i f hf
    obtain ⟨g, hg, hage⟩ := hw.ages i f hf
    obtain ⟨g', hg', hage'⟩ := h.ages hw.busy hs htable hg
    exact ⟨g', hg', hage.trans hage'⟩
  case entries => exact hw.entries
  case visited =>
    intro k i g hmem hleft hk hg
    have hget : s.requestFutures.get? k = some i := by
      rw [hw.table]
      exact Lib.Dict.get?_of_mem hmem
    obtain ⟨f, hf, -⟩ := h.turns.table k i hget
    obtain ⟨g', hg', hage⟩ := h.ages hw.busy hs htable hf
    rw [hg] at hg'
    cases hg'
    exact hage.over (hw.visited k i f hmem hleft hk hf)

/-- The entry is not the shutdown request's own, and its future is on no stack of the main
thread. -/
theorem harmless (hw : Walking env s₀ r id n s it) (h : Regular s) {k : MsgId} {i : Ref}
    {f : Future} (hmem : (k, i) ∈ it.left) (hk : k ≠ id) (hf : s.futures[i]? = some f) :
    Harmless n s f ∧ f.active ≠ some .main := by
  have hget : s.requestFutures.get? k = some i := by
    rw [hw.table]
    exact Lib.Dict.get?_of_mem (hw.entries _ hmem)
  have hharm := hw.undisturbed.others k i f hget hk hf
  refine ⟨hharm, fun hmain => ?_⟩
  obtain ⟨fr, hr, hgen, hact, hcb⟩ := hw.own
  have hir := h.alone i r f fr hf hr hmain hact
  subst hir
  rw [hf] at hr
  cases hr
  have htask : f.isTask = false := by simp [Future.isTask, hgen]
  have hpend : f.isPending = true := by
    have hat := hw.undisturbed.pending
    rwa [State.pendingAt, hf] at hat
  exact (hharm htask hpend id n (by rw [hcb]; rfl)).2 rfl

/-- One round of the loop is over. -/
theorem visit (hw : Walking env s₀ r id n s it) (hhalt : Halts r s t) (hst : Shrinks s t)
    {k : MsgId} {i : Ref} {rest : List (MsgId × Ref)} (hleft : it.left = (k, i) :: rest)
    (hdone : k ≠ id → ∀ g, t.futures[i]? = some g → g.Stopped ∨ g.isPending = false) :
    Walking env s₀ r id n t { it with left := rest } := by
  constructor
  case callback => exact hw.callback
  case thread => exact hw.thread
  case size => rw [hhalt.table, hw.size]
  case table => rw [hhalt.table, hw.table]
  case own =>
    rw [hhalt.own]
    exact hw.own
  case undisturbed => exact hw.undisturbed.halts hhalt hst
  case ages =>
    intro j f hf
    obtain ⟨g, hg, hage⟩ := hw.ages j f hf
    obtain ⟨g', hg', hfate⟩ := hhalt.forth hg
    exact ⟨g', hg', hage.trans hfate.toAges⟩
  case entries =>
    intro e hmem
    apply hw.entries
    rw [hleft]
    exact List.mem_cons_of_mem _ hmem
  case visited =>
    intro k' j g hmem hnot hk hg
    by_cases hnow : (k', j) = (k, i)
    · cases hnow
      exact hdone hk g hg
    · obtain ⟨f, hf, hfate⟩ := hhalt.back hg
      have hbefore : (k', j) ∉ it.left := by
        rw [hleft]
        simp [hnow, hnot]
      exact hfate.over (hw.visited k' j f hmem hbefore hk hf)

theorem next (hw : Walking env s₀ r id n s it) (h : Regular s) {k : MsgId} {i : Ref}
    {rest : List (MsgId × Ref)} (hleft : it.left = (k, i) :: rest) :
    ∃ t, s.iterate env r it = (t, some { it with left := rest }) ∧ Regular t ∧
      Walking env s₀ r id n t { it with left := rest } := by
  obtain ⟨cb, th, size, left⟩ := it
  obtain rfl : cb = .sendHandlerResult id n := hw.callback
  obtain rfl : th = .main := hw.thread
  obtain rfl : left = (k, i) :: rest := hleft
  have hmem : (k, i) ∈ (k, i) :: rest := List.mem_cons_self
  have hcurrent : Callback.msgId (.sendHandlerResult id n) .main = some id := rfl
  refine ⟨_, by rw [State.iterate, if_pos hw.size.symm], ?_⟩
  rw [hcurrent]
  split
  · rename_i hcancel
    have hk : k ≠ id := fun heq => hcancel.1 (congrArg some heq)
    obtain ⟨f, hf, -⟩ := (Option.any_eq_true _ _).mp hcancel.2
    obtain ⟨hharm, -⟩ := hw.harmless h hmem hk hf
    obtain ⟨fr, hr, hgen, -, hcb⟩ := hw.own
    obtain ⟨hhalt, hstop⟩ := cancel_halts env .main h.turns.linked hr hgen hcb hf hharm
    have hst := Shrinks.cancel env .main s i
    refine ⟨⟨?_, ?_, ?_⟩, hw.visit hhalt hst rfl ?_⟩
    · exact h.discipline.cancel env .main fun g hg => (hw.harmless h hmem hk hg).2
    · intro a b g g' hg hg' hm hm'
      obtain ⟨g₀, hg₀, hfate⟩ := hhalt.back hg
      obtain ⟨g₁, hg₁, hfate'⟩ := hhalt.back hg'
      exact h.alone a b g₀ g₁ hg₀ hg₁ (hfate.active ▸ hm) (hfate'.active ▸ hm')
    · apply h.turns.cancel
      apply h.turns.table k i
      rw [hw.table]
      exact Lib.Dict.get?_of_mem (hw.entries _ hmem)
    · intro _ g hg
      cases hp : f.isPending with
      | true =>
        obtain ⟨g', hg', hstopped⟩ := hstop hp
        rw [hg] at hg'
        cases hg'
        exact Or.inl hstopped
      | false =>
        obtain ⟨g', hg', hfate⟩ := hhalt.forth hf
        rw [hg] at hg'
        cases hg'
        exact hfate.over (Or.inr hp)
  · rename_i hskip
    refine ⟨h, hw.visit (Halts.refl r s) (Shrinks.refl s) rfl ?_⟩
    intro hk g hg
    right
    apply eq_false_of_ne_true
    intro hp
    apply hskip
    refine ⟨fun heq => hk (Option.some.inj heq), ?_⟩
    exact (Option.any_eq_true _ _).mpr ⟨g, hg, isOpen_of_isPending hp⟩

/-- After the last entry the request is answered. -/
theorem finish (hacc : ∀ k, env.write k = .accepted) (hw : Walking env s₀ r id n s it)
    (h : Regular s) (hleft : it.left = []) :
    ∃ t, s.iterate env r it = (t, none) ∧ Regular t ∧ ShutDown s₀ t r id n := by
  obtain ⟨fr, hr, hgen, hact, hcb⟩ := hw.own
  have hpend : fr.isPending = true := by
    have hat := hw.undisturbed.pending
    rwa [State.pendingAt, hr] at hat
  obtain ⟨cls, u, hend, hshut, hsent, hothers⟩ :=
    shutdown_returns (n := n) hacc hr hpend hw.undisturbed.null
  refine ⟨u, ?_, ?_, ?_⟩
  · rw [State.iterate, if_pos hw.size.symm, hleft, hw.callback, hw.thread]
    simp only [State.afterLoop, hend]
  · have hd : Discipline { s with shutdown := true } := h.discipline.congr rfl rfl rfl
    have halone : MainAlone { s with shutdown := true } := h.alone
    have hturns : Turns (fun _ => False) { s with shutdown := true } :=
      h.turns.congr rfl fun _ _ hi => hi
    obtain ⟨hcaller, -⟩ := hd.caller_of_active hr hgen hact
    rw [hcb] at hcaller
    rw [← hend]
    refine ⟨(hd.leave r).executeRaised env .main _ hcaller,
      (halone.leave hr hact).executeRaised _ _, hturns.executeRaised_leave .main ?_ _⟩
    rw [State.getElem?_skeleton]
    simp only [hr, Option.map_some, hgen, hcb]
  · have hnew : ∀ k a, Message.response n k a ∉ s.sent :=
      h.discipline.unanswered hr hcb (h.discipline.not_called hr (isOpen_of_isPending hpend))
    refine ⟨hshut, ⟨cls, ?_⟩, ?_, ?_⟩
    · rw [hsent]
      exact List.mem_append_right _ (List.mem_singleton.mpr rfl)
    · intro k a hm
      rw [hsent] at hm
      rcases List.mem_append.mp hm with hm | hm
      · exact absurd hm (hnew k a)
      · cases List.mem_singleton.mp hm
        exact ⟨cls, rfl⟩
    · intro k i f hget hir hf hp
      obtain ⟨g, hg, -⟩ := hw.ages i f hf
      refine ⟨g, (hothers i hir).trans hg, ?_⟩
      by_cases hk : k = id
      · subst hk
        right
        apply eq_false_of_ne_true
        intro hp'
        rw [← hw.table] at hget
        exact hir (hw.undisturbed.own i g hget hg hp')
      · have hnone : (k, i) ∉ it.left := by
          rw [hleft]
          exact List.not_mem_nil
        exact hw.visited k i g (Lib.Dict.mem_of_get? hget) hnone hk hg

/-- Nothing has been visited when the loop is entered. -/
theorem enter {f : Future} (hf : s.futures[r]? = some f) (hgen : f.handler = some .generator)
    (hact : f.active = some .main) (hcb : f.callback = .sendHandlerResult id n)
    (hu : Undisturbed env s r id n) : Walking env s r id n s
      ⟨.sendHandlerResult id n, .main, s.requestFutures.size, s.requestFutures.entries⟩ where
  callback := rfl
  thread := rfl
  size := rfl
  table := rfl
  own := ⟨f, hf, hgen, hact, hcb⟩
  undisturbed := hu
  ages := fun _ f hf => ⟨f, hf, .refl f⟩
  entries := fun _ hmem => hmem
  visited := fun _ _ _ hmem hnot _ _ => absurd hmem hnot

end Walking

namespace Closing

variable {env : Env T} {p q : Closing T} {e : Event} {r : Ref}

theorem enter_cases (hs : step env p (.enter r) = some q) :
    p.loops r = none ∧ ∃ (f : Future) (id : MsgId) (n : Nat) (th : Thread),
      p.state.futures[r]? = some f ∧ f.handler = some .generator ∧ f.active = some th ∧
      f.callback = .sendHandlerResult id n ∧
      q = { p with loops := Function.update p.loops r (some ⟨.sendHandlerResult id n, th,
        p.state.requestFutures.size, p.state.requestFutures.entries⟩) } := by
  simp only [step] at hs
  split at hs
  · rename_i hguard
    simp only [Bool.and_eq_true, Option.isNone_iff_eq_none] at hguard
    obtain ⟨hshut, hnone⟩ := hguard
    obtain ⟨x, hx, rfl⟩ := Option.map_eq_some_iff.mp hs
    have hshutdown : LanguageServer.step env p.state (.shutdown r) =
        some (p.state.shutdownEnd env r x.1 x.2) := by
      rw [LanguageServer.step, if_pos hshut, hx, Option.map_some]
    obtain ⟨f, id, n, th, hf, hgen, hact, hcb, -⟩ := LanguageServer.shutdown_cases hshutdown
    obtain ⟨f', hf', -, hact', hcb'⟩ := running_eq_some hx
    rw [hf] at hf'
    cases hf'
    rw [hact] at hact'
    cases hact'
    refine ⟨hnone, f, id, n, x.2, hf, hgen, hact, hcb, ?_⟩
    rw [← hcb', hcb]
  · cases hs

theorem protocol_cases {e : Pygls.Event} (hs : step env p (.protocol e) = some q) :
    ∃ t, Pygls.step env p.state e = some t ∧ q = { p with state := t } := by
  simp only [step] at hs
  split at hs
  · cases hs
  · obtain ⟨t, ht, rfl⟩ := Option.map_eq_some_iff.mp hs
    exact ⟨t, ht, rfl⟩

/-- Every loop that goes on was entered with nothing in its way. -/
structure Sound (env : Env T) (p : Closing T) : Prop where
  regular : Regular p.state
  walking : ∀ (r : Ref) (it : Iteration), p.loops r = some it →
    ∃ s₀ id n, Walking env s₀ r id n p.state it

namespace Sound

theorem init : Sound env (Closing.init : Closing T) :=
  ⟨Regular.init, fun _ _ hit => by cases hit⟩

/-- Loops run on the main thread, which has one stack. -/
theorem one (h : Sound env p) {i : Ref} {it it' : Iteration} (hit : p.loops r = some it)
    (hit' : p.loops i = some it') : i = r := by
  obtain ⟨_, _, _, hw⟩ := h.walking r it hit
  obtain ⟨_, _, _, hw'⟩ := h.walking i it' hit'
  obtain ⟨f, hf, -, hact, -⟩ := hw.own
  obtain ⟨f', hf', -, hact', -⟩ := hw'.own
  exact h.regular.alone i r f' f hf' hf hact' hact

theorem step (hacc : ∀ k, env.write k = .accepted) (h : Sound env p) (hok : Completes env p e)
    (hs : Closing.step env p e = some q) : Sound env q := by
  cases e with
  | protocol e =>
    obtain ⟨t, ht, rfl⟩ := protocol_cases hs
    refine ⟨h.regular.step ht, ?_⟩
    intro r it hit
    obtain ⟨s₀, id, n, hw⟩ := h.walking r it hit
    obtain ⟨htable, hown⟩ := hok r t (Option.isSome_iff_exists.mpr ⟨it, hit⟩) ht
    exact ⟨s₀, id, n, hw.beside h.regular ht htable hown⟩
  | enter r =>
    obtain ⟨-, f, id, n, th, hf, hgen, hact, hcb, rfl⟩ := enter_cases hs
    obtain ⟨hmain, hu⟩ := hok f id n hf hcb
    rw [hact] at hmain
    cases hmain
    refine ⟨h.regular, ?_⟩
    intro i it hit
    dsimp only at hit
    by_cases hi : i = r
    · subst hi
      rw [Function.update_self] at hit
      cases hit
      exact ⟨p.state, id, n, .enter hf hgen hact hcb hu⟩
    · rw [Function.update_of_ne hi] at hit
      exact h.walking i it hit
  | next r =>
    obtain ⟨it, hit, rfl⟩ := Option.map_eq_some_iff.mp hs
    obtain ⟨s₀, id, n, hw⟩ := h.walking r it hit
    have others : ∀ (i : Ref) (it' : Iteration) (x : Option Iteration), i ≠ r →
        Function.update p.loops r x i ≠ some it' := by
      intro i it' x hi hit'
      rw [Function.update_of_ne hi] at hit'
      exact hi (h.one hit hit')
    cases hleft : it.left with
    | nil =>
      obtain ⟨t, hiter, hreg, -⟩ := hw.finish hacc h.regular hleft
      rw [hiter]
      refine ⟨hreg, ?_⟩
      intro i it' hit'
      dsimp only at hit'
      by_cases hi : i = r
      · subst hi
        rw [Function.update_self] at hit'
        cases hit'
      · exact absurd hit' (others i it' _ hi)
    | cons entry rest =>
      obtain ⟨t, hiter, hreg, hw'⟩ := hw.next h.regular hleft
      rw [hiter]
      refine ⟨hreg, ?_⟩
      intro i it' hit'
      dsimp only at hit'
      by_cases hi : i = r
      · subst hi
        rw [Function.update_self] at hit'
        cases hit'
        exact ⟨s₀, id, n, hw'⟩
      · exact absurd hit' (others i it' _ hi)

/-- Before its last round the loop goes on, one entry further where it was its turn. -/
theorem advance (h : Sound env p) {s₀ : State T} {id : MsgId} {n : Nat} {it : Iteration}
    (hit : p.loops r = some it) (hw : Walking env s₀ r id n p.state it) (hok : Completes env p e)
    (hs : Closing.step env p e = some q) (hmore : e.nexts r = true → it.left ≠ []) :
    ∃ it', q.loops r = some it' ∧ Walking env s₀ r id n q.state it' ∧
      it'.left.length + [e].countP (Event.nexts r) = it.left.length := by
  cases e with
  | protocol e =>
    obtain ⟨t, ht, rfl⟩ := protocol_cases hs
    obtain ⟨htable, hown⟩ := hok r t (Option.isSome_iff_exists.mpr ⟨it, hit⟩) ht
    exact ⟨it, hit, hw.beside h.regular ht htable hown, rfl⟩
  | enter i =>
    obtain ⟨hnone, f, id', n', th, -, -, -, -, rfl⟩ := enter_cases hs
    have hri : r ≠ i := by
      rintro rfl
      rw [hit] at hnone
      cases hnone
    exact ⟨it, (Function.update_of_ne hri _ _).trans hit, hw, rfl⟩
  | next i =>
    obtain ⟨it', hit', rfl⟩ := Option.map_eq_some_iff.mp hs
    obtain rfl := h.one hit hit'
    rw [hit] at hit'
    cases hit'
    have hnow : Event.nexts i (.next i) = true := decide_eq_true rfl
    cases hleft : it.left with
    | nil => exact absurd hleft (hmore hnow)
    | cons entry rest =>
      obtain ⟨t, hiter, -, hw'⟩ := hw.next h.regular hleft
      rw [hiter]
      refine ⟨_, Function.update_self _ _ _, hw', ?_⟩
      rw [List.countP_singleton, if_pos hnow]
      rfl

end Sound

/-- The loop of `r`, entered in `s₀`, has made as many rounds as `past` gave it. -/
structure Onward (env : Env T) (s₀ : State T) (r : Ref) (id : MsgId) (n : Nat) (past : List Event)
    (q : Closing T) : Prop where
  sound : Sound env q
  walking : past.countP (Event.nexts r) ≤ s₀.requestFutures.entries.length →
    ∃ it, q.loops r = some it ∧ Walking env s₀ r id n q.state it ∧
      it.left.length + past.countP (Event.nexts r) = s₀.requestFutures.entries.length

theorem Onward.step {s₀ : State T} {id : MsgId} {n : Nat} {past : List Event}
    (hacc : ∀ k, env.write k = .accepted) (h : Onward env s₀ r id n past p)
    (hok : Completes env p e) (hs : Closing.step env p e = some q) :
    Onward env s₀ r id n (past ++ [e]) q := by
  refine ⟨h.sound.step hacc hok hs, fun hle => ?_⟩
  rw [List.countP_append] at hle ⊢
  obtain ⟨it, hit, hw, hlen⟩ := h.walking (Nat.le_of_add_right_le hle)
  have hmore : e.nexts r = true → it.left ≠ [] := by
    intro hnow hnil
    rw [List.countP_singleton, if_pos hnow] at hle
    rw [hnil, List.length_nil] at hlen
    omega
  obtain ⟨it', hit', hw', hlen'⟩ := h.sound.advance hit hw hok hs hmore
  exact ⟨it', hit', hw', by omega⟩

end Closing

end Pygls
