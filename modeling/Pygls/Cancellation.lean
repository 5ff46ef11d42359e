import Pygls.LanguageServer
import Pygls.Progress

/-!
# Cancelling requests

`$/cancelRequest` cancels the future filed under the request's id. For a handler that is a
coroutine that is its task. For a generator it is the future that `_execute_handler` made
for it; the handlers it yields to are filed under ids of their own.
-/

namespace Pygls

set_option autoImplicit false

variable {T : Type}

/-- `cancel()` has been called on the future, and has not been refused. -/
def Future.isAsked (f : Future) : Bool := f.isCancelled || (f.isTask && f.cancelRequested)

/-- Whether `cancel()` asks the future to stop that had not been asked yet. -/
def Future.heeds (f : Future) : Bool :=
  if f.isTask then f.isOpen && !f.cancelRequested else f.isPending

/-- The future belongs to another request than the `n`-th: to one of the client's, or it is
the future of one to the client. -/
def Future.Foreign (n : Nat) (f : Future) : Prop :=
  f.handler = none ∨ ∃ m, f.callback.request = some m ∧ m ≠ n

namespace State

def askedAt (s : State T) (r : Ref) : Bool := s.futures[r]?.any Future.isAsked

/-- The future that `$/cancelRequest` finds. -/
def filed (s : State T) (id : MsgId) : Option Ref :=
  if s.shutdown then none else s.requestFutures.get? id

end State

/-- The task is asked to stop, and nothing of another request. -/
structure CancelsTask (s t : State T) (x : Ref) (n : Nat) : Prop where
  task : t.askedAt x = true
  others : ∀ (y : Ref) (f : Future), t.futures[y]? = some f → f.isAsked = true →
    s.askedAt y = false → ¬f.Foreign n

section Cancel

variable {env : Env T} {s t : State T}

theorem askedAt_modify (s : State T) (r : Ref) {g : Future → Future}
    (hg : ∀ f, s.futures[r]? = some f → (g f).isAsked = f.isAsked) (y : Ref) :
    (s.modify r g).askedAt y = s.askedAt y := by
  unfold State.askedAt
  rw [State.getElem?_modify]
  split
  · rename_i hry
    subst hry
    cases hf : s.futures[r]? with
    | none => rfl
    | some f => exact hg f hf
  · rfl

theorem askedAt_of_futures (h : t.futures = s.futures) (y : Ref) : t.askedAt y = s.askedAt y := by
  unfold State.askedAt
  rw [h]

theorem isAsked_settle {f : Future} (hpend : f.isPending = true) (o : Outcome) :
    (f.settle (.finished o)).isAsked = f.isAsked := by
  have hlive : f.isCancelled = false := by
    unfold Future.isPending at hpend
    unfold Future.isCancelled
    split at hpend
    · rename_i hst
      rw [hst]
    · cases hpend
  unfold Future.isAsked
  rw [hlive]
  rfl

/-- A callback asks nothing to stop. -/
theorem runCallback_askedAt (th : Thread) (cb : Callback) (c : Completion) (y : Ref) :
    (State.runCallback env th cb c s).askedAt y = s.askedAt y := by
  refine runCallback_rule (I := fun t => t.askedAt y = s.askedAt y) (R := fun _ _ _ => True)
    ?_ ?_ ?_ cb c s rfl trivial
  · intro t id n c h _
    rw [askedAt_of_futures (State.sendHandlerResult_sends env t id n c).futures, h]
  · intro t r up c v h _
    rw [← h]
    refine askedAt_modify t r ?_ y
    exact fun _ _ => rfl
  · intro t t' r up c x h _ _ hs
    obtain ⟨f, hf, hpend, rfl⟩ := setOutcome_eq_some hs
    refine ⟨?_, trivial⟩
    rw [askedAt_modify, h]
    intro f' hf'
    rw [hf] at hf'
    cases hf'
    exact isAsked_settle hpend _

/-- `cancel()` asks the one future, if it is still open. -/
theorem cancel_askedAt (env : Env T) (th : Thread) {r : Ref} {f : Future}
    (hf : s.futures[r]? = some f) (y : Ref) :
    (State.cancel env th s r).askedAt y =
      if y = r ∧ f.heeds = true then true else s.askedAt y := by
  have hother : ∀ (g : Future → Future), y ≠ r → (s.modify r g).askedAt y = s.askedAt y := by
    intro g hyr
    rw [State.askedAt, State.getElem?_modify_ne hyr]
    rfl
  unfold State.cancel
  rw [hf]
  dsimp only
  split
  · rename_i htask
    split
    · rename_i hopen
      by_cases hyr : y = r
      · subst hyr
        have hnew : (s.modify y fun f => { f with cancelRequested := true }).askedAt y = true := by
          rw [State.askedAt, State.getElem?_modify_self hf, Option.any_some, Future.isAsked,
            Bool.or_eq_true]
          exact Or.inr (by simpa [Future.isTask] using htask)
        rw [hnew]
        cases hreq : f.cancelRequested with
        | false => simp [Future.heeds, htask, hopen, hreq]
        | true =>
          have hasked : s.askedAt y = true := by
            rw [State.askedAt, hf]
            simp [Future.isAsked, htask, hreq]
          rw [hasked]
          split <;> rfl
      · rw [hother _ hyr, if_neg fun h => hyr h.1]
    · rename_i hopen
      simp [Future.heeds, htask, hopen]
  · rename_i htask
    split
    · rename_i hpend
      rw [runCallback_askedAt]
      by_cases hyr : y = r
      · subst hyr
        rw [State.askedAt, State.getElem?_modify_self hf]
        simp [Future.heeds, htask, hpend, Future.isAsked, Future.isCancelled, Future.settle]
      · rw [hother _ hyr, if_neg fun h => hyr h.1]
    · rename_i hpend
      simp [Future.heeds, htask, hpend]

/-- What handling the notification asks to stop: what is filed under the id. -/
theorem cancelRequest_askedAt {id : MsgId}
    (hs : Pygls.step env s (.cancelRequest id) = some t) (y : Ref) :
    t.askedAt y = true ↔ s.askedAt y = true ∨
      ∃ f, s.filed id = some y ∧ s.futures[y]? = some f ∧ f.heeds = true := by
  cases step_cases hs with
  | ignored hdown =>
    refine ⟨Or.inl, ?_⟩
    rintro (h | ⟨f, hfiled, -⟩)
    · exact h
    · rw [State.filed, if_pos hdown] at hfiled
      cases hfiled
  | cancelRequest hidle hup =>
    have hfiled : s.filed id = s.requestFutures.get? id := by
      rw [State.filed, hup]
      rfl
    rw [hfiled]
    unfold State.handleCancelNotification
    split
    · rename_i hnone
      refine ⟨Or.inl, ?_⟩
      rintro (h | ⟨f, hr, -⟩)
      · exact h
      · rw [hnone] at hr
        cases hr
    · rename_i r hr
      rw [hr]
      cases hf : s.futures[r]? with
      | none =>
        have hsame : State.cancel env .main (s.popFuture id) r = s.popFuture id := by
          rw [State.cancel, show (s.popFuture id).futures[r]? = none from hf]
        rw [hsame]
        refine ⟨Or.inl, ?_⟩
        rintro (h | ⟨f, heq, hf', -⟩)
        · exact h
        · cases heq
          rw [hf] at hf'
          cases hf'
      | some f =>
        rw [cancel_askedAt env .main (s := s.popFuture id) hf]
        constructor
        · intro h
          split at h
          · rename_i hyr
            obtain ⟨rfl, hheeds⟩ := hyr
            exact Or.inr ⟨f, rfl, hf, hheeds⟩
          · exact Or.inl h
        · rintro (h | ⟨f', heq, hf', hheeds⟩)
          · split
            · rfl
            · exact h
          · cases heq
            rw [hf] at hf'
            cases hf'
            rw [if_pos ⟨rfl, hheeds⟩]

theorem askedAt_of_getElem? {x : Ref} {f : Future} (hf : s.futures[x]? = some f) :
    s.askedAt x = f.isAsked := by
  rw [State.askedAt, hf]
  rfl

/-- A task that has been asked already heeds nothing. -/
theorem task_heeds_or_asked {x : Ref} {f : Future} (hf : s.futures[x]? = some f)
    (hk : f.handler = some .coroutine) (hpend : f.isPending = true) :
    f.heeds = true ∨ s.askedAt x = true := by
  rw [askedAt_of_getElem? hf]
  have htask : f.isTask = true := decide_eq_true hk
  cases hreq : f.cancelRequested with
  | false => exact Or.inl (by simp [Future.heeds, htask, isOpen_of_isPending hpend, hreq])
  | true => exact Or.inr (by simp [Future.isAsked, htask, hreq])

theorem askedAt_of_heeds {x : Ref} {f : Future} (hf : s.futures[x]? = some f)
    (hheeds : f.heeds = true) : s.askedAt x = false := by
  rw [askedAt_of_getElem? hf]
  have hlive : f.isCancelled = false := by
    unfold Future.heeds Future.isOpen Future.isPending at hheeds
    unfold Future.isCancelled
    cases hst : f.state <;> simp_all
  rw [Future.isAsked, hlive, Bool.false_or]
  cases htask : f.isTask with
  | false => rfl
  | true =>
    rw [Future.heeds, htask, if_pos rfl, Bool.and_eq_true] at hheeds
    simpa using hheeds.2

theorem cancelRequest_skeleton {id : MsgId} (hs : Pygls.step env s (.cancelRequest id) = some t) :
    t.skeleton = s.skeleton := by
  cases step_cases hs with
  | ignored => rfl
  | cancelRequest =>
    unfold State.handleCancelNotification
    split
    · rfl
    · rw [State.skeleton_cancel]
      rfl

theorem foreign_congr {f g : Future} {n : Nat} (hk : f.handler = g.handler)
    (hcb : f.callback = g.callback) : f.Foreign n ↔ g.Foreign n := by
  unfold Future.Foreign
  rw [hk, hcb]

end Cancel

end Pygls
