import Pygls.Shutdown

/-!
# Generators take turns

A generator that has yielded waits for one future, and while it waits its code is on no
stack. `_run_generator` is called back once, by that future; what it does with the
future's exception depends on the class of it.
-/

namespace Pygls

set_option autoImplicit false

variable {T : Type}

/-- The generator of `p` has yielded to the handler of `i`, and has not been called back. -/
def WaitsFor (s : State T) (p i : Ref) : Prop :=
  ∃ f up, s.futures[i]? = some f ∧ f.callback = .runGenerator p up ∧ f.called = false

/-- The handler's code is on a stack. -/
def OnStack (s : State T) (r : Ref) : Prop := ∃ f, s.futures[r]? = some f ∧ f.active ≠ none

/-- A generator that nothing will resume. -/
structure Over (s : State T) (r : Ref) : Prop where
  generator : ∃ f, s.futures[r]? = some f ∧ f.handler = some .generator
  idle : ¬OnStack s r
  alone : ∀ i, ¬WaitsFor s r i

/-- `gone` are generators that have been given up. -/
structure Turns (gone : Ref → Prop) (s : State T) : Prop where
  linked : Linked s
  done : ∀ (r : Ref) (f : Future), s.futures[r]? = some f → f.called = true → f.isOpen = false
  sync : ∀ (r : Ref) (f : Future), s.futures[r]? = some f → f.handler = some .sync →
    f.active ≠ none → f.isPending = true
  table : ∀ (id : MsgId) (r : Ref), s.requestFutures.get? id = some r →
    ∃ f, s.futures[r]? = some f ∧ f.handler ≠ some .sync
  one : ∀ (p i j : Ref), WaitsFor s p i → WaitsFor s p j → i = j
  waits : ∀ (p i : Ref), WaitsFor s p i → ¬OnStack s p
  gone : ∀ r, gone r → Over s r

/-- How one future may change. -/
structure Moves (f f' : Future) : Prop where
  called : f.called = true → f'.called = true
  done : f'.called = true → f'.isOpen = false
  sync : f'.handler = some .sync → f'.active ≠ none → f'.isPending = true

/-- The generator that the callback resumes is in the heap. -/
def Parented (s : State T) (cb : Callback) : Prop :=
  ∀ (p : Ref) (up : Callback), cb = .runGenerator p up →
    s.skeleton[p]? = some (some .generator, up)

/-- The callback's turn has come: its generator waits for nothing else. -/
structure Called (gone : Ref → Prop) (s : State T) (cb : Callback) : Prop where
  parent : Parented s cb
  turn : ∀ (p : Ref) (up : Callback), cb = .runGenerator p up → ¬gone p ∧ ∀ i, ¬WaitsFor s p i

theorem not_called_of_open {f : Future} (hdone : f.called = true → f.isOpen = false)
    (hopen : f.isOpen = true) : f.called = false := by
  cases hc : f.called with
  | false => rfl
  | true =>
    rw [hdone hc] at hopen
    cases hopen

theorem parented_of_future {s : State T} (hl : Linked s) {i : Ref} {f : Future}
    (hf : s.futures[i]? = some f) : Parented s f.callback := by
  intro p up hcb
  refine (hl.yielded i f.handler p up ?_).2
  rw [State.getElem?_skeleton, hf, ← hcb]
  rfl

theorem parented_self {s : State T} {r : Ref} {f : Future} (hf : s.futures[r]? = some f)
    (hgen : f.handler = some .generator) : Parented s (.runGenerator r f.callback) := by
  intro p up hcb
  cases hcb
  rw [State.getElem?_skeleton, hf, ← hgen]
  rfl

theorem Parented.future {s : State T} {p : Ref} {up : Callback}
    (h : Parented s (.runGenerator p up)) :
    ∃ f, s.futures[p]? = some f ∧ f.handler = some .generator ∧ f.callback = up := by
  have hp := h p up rfl
  rw [State.getElem?_skeleton] at hp
  obtain ⟨f, hf, heq⟩ := Option.map_eq_some_iff.mp hp
  obtain ⟨hk, hup⟩ := Prod.mk.inj heq
  exact ⟨f, hf, hk, hup⟩

theorem Parented.congr {s t : State T} {cb : Callback} (h : Parented s cb)
    (hs : t.skeleton = s.skeleton) : Parented t cb := by
  intro p up hcb
  rw [hs]
  exact h p up hcb

/-- The generator of `r` is one that the callback leads to. -/
def LeadsTo (r : Ref) : Callback → Prop
  | .sendHandlerResult _ _ => False
  | .checkHandlerResult => False
  | .client => False
  | .runGenerator p up => p = r ∨ LeadsTo r up

section LeadsTo

variable {env : Env T} {s t : State T}

/-- A callback leads only to what came before its future. -/
theorem leadsTo_lt (hl : Linked s) {i r : Ref} {f : Future} (hf : s.futures[i]? = some f)
    (h : LeadsTo r f.callback) : r < i := by
  generalize hcb : f.callback = cb at h
  induction cb generalizing i f with
  | sendHandlerResult id n => cases h
  | checkHandlerResult => cases h
  | client => cases h
  | runGenerator p up ih =>
    obtain ⟨g, hg, hup, -⟩ := hl.parent hf hcb
    have hpi := hl.parent_lt hf hcb
    rcases h with rfl | h
    · exact hpi
    · exact Nat.lt_trans (ih hg hup h) hpi

theorem leadsTo_trans (hl : Linked s) {cb : Callback} (hcb : Parented s cb) {j r : Ref} {g : Future}
    (hj : LeadsTo j cb) (hg : s.futures[j]? = some g) (hr : LeadsTo r g.callback) :
    LeadsTo r cb := by
  induction cb with
  | sendHandlerResult id n => cases hj
  | checkHandlerResult => cases hj
  | client => cases hj
  | runGenerator p up ih =>
    obtain ⟨f, hf, -, hup⟩ := hcb.future
    rcases hj with rfl | hj
    · rw [hf] at hg
      cases hg
      rw [hup] at hr
      exact Or.inr hr
    · exact Or.inr (ih (hup ▸ parented_of_future hl hf) hj)

theorem runCallback_other (th : Thread) {cb : Callback} (c : Completion) {r : Ref}
    (hr : ¬LeadsTo r cb) : (State.runCallback env th cb c s).futures[r]? = s.futures[r]? := by
  refine runCallback_rule (I := fun t => t.futures[r]? = s.futures[r]?)
    (R := fun _ cb _ => ¬LeadsTo r cb) ?_ ?_ ?_ cb c s rfl hr
  · intro t id n c h _
    rw [(State.sendHandlerResult_sends env t id n c).futures, h]
  · intro t p up c v h hr
    rw [State.resume, State.getElem?_modify, if_neg fun heq => hr (Or.inl heq), h]
  · intro t t' p up c x h hr _ hs
    obtain ⟨f, -, -, rfl⟩ := setOutcome_eq_some hs
    refine ⟨?_, fun hup => hr (Or.inr hup)⟩
    rw [State.getElem?_modify, if_neg fun heq => hr (Or.inl heq), h]

theorem executeRaised_other (th : Thread) {cb : Callback} (x : PyExc) {r : Ref}
    (hr : ¬LeadsTo r cb) : (State.executeRaised env th cb x s).futures[r]? = s.futures[r]? := by
  refine executeRaised_rule (I := fun t => t.futures[r]? = s.futures[r]?)
    (R := fun _ cb _ => ¬LeadsTo r cb) (P := fun _ cb _ => ¬LeadsTo r cb) ?_ ?_ ?_ ?_ cb x s rfl hr
  · intro cb c t h hr
    rw [runCallback_other th c hr, h]
  · intro t id n x h _
    rw [(State.sendException_sends env t n id x).futures, h]
  · intro t t' p up x h hr hs
    obtain ⟨f, -, -, rfl⟩ := setOutcome_eq_some hs
    refine ⟨?_, fun hup => hr (Or.inr hup)⟩
    rw [State.getElem?_modify, if_neg fun heq => hr (Or.inl heq), h]
  · intro t p up x _ hr _ _ hup
    exact hr (Or.inr hup)

end LeadsTo

namespace Turns

variable {env : Env T} {gone : Ref → Prop} {s t : State T}

theorem congr (h : Turns gone s) (hf : t.futures = s.futures)
    (ht : ∀ id r, t.requestFutures.get? id = some r → s.requestFutures.get? id = some r) :
    Turns gone t := by
  have hw : ∀ p i, WaitsFor t p i → WaitsFor s p i := by
    intro p i hw
    unfold WaitsFor at hw ⊢
    rwa [hf] at hw
  have hon : ∀ p, OnStack t p → OnStack s p := by
    intro p hon
    unfold OnStack at hon ⊢
    rwa [hf] at hon
  constructor
  case linked => exact h.linked.congr (State.skeleton_of_futures hf)
  case done =>
    rw [hf]
    exact h.done
  case sync =>
    rw [hf]
    exact h.sync
  case table =>
    intro id r hr
    rw [hf]
    exact h.table id r (ht id r hr)
  case one =>
    intro p i j hi hj
    exact h.one p i j (hw p i hi) (hw p j hj)
  case waits =>
    intro p i hi ha
    exact h.waits p i (hw p i hi) (hon p ha)
  case gone =>
    intro r hr
    obtain ⟨hgen, hidle, halone⟩ := h.gone r hr
    refine ⟨?_, fun ha => hidle (hon r ha), fun i hi => halone i (hw r i hi)⟩
    rw [hf]
    exact hgen

/-- Only a generator that waits for nothing, or a handler that no one yields to, is put on
a stack. -/
theorem modify (h : Turns gone s) {r : Ref} {g : Future → Future}
    (hk : ∀ f, (g f).handler = f.handler) (hcb : ∀ f, (g f).callback = f.callback)
    (hg : ∀ f, s.futures[r]? = some f → Moves f (g f))
    (hact : ∀ f, s.futures[r]? = some f → (g f).active ≠ none →
      f.active ≠ none ∨ (¬gone r ∧ ∀ i, ¬WaitsFor s r i)) : Turns gone (s.modify r g) := by
  have hw : ∀ p i, WaitsFor (s.modify r g) p i → WaitsFor s p i := by
    rintro p i ⟨f', up, hf', hup, hc⟩
    obtain ⟨f, hf, ⟨rfl, rfl⟩ | ⟨-, rfl⟩⟩ := modify_cases hf'
    · have hm := hg f hf
      refine ⟨f, up, hf, (hcb f).symm.trans hup, ?_⟩
      cases hc' : f.called with
      | false => rfl
      | true =>
        rw [hm.called hc'] at hc
        cases hc
    · exact ⟨f', up, hf, hup, hc⟩
  have hon : ∀ p, OnStack (s.modify r g) p →
      OnStack s p ∨ (¬gone p ∧ ∀ i, ¬WaitsFor s p i) := by
    rintro p ⟨f', hf', ha⟩
    obtain ⟨f, hf, ⟨rfl, rfl⟩ | ⟨-, rfl⟩⟩ := modify_cases hf'
    · rcases hact f hf ha with hold | hnew
      · exact Or.inl ⟨f, hf, hold⟩
      · exact Or.inr hnew
    · exact Or.inl ⟨f', hf, ha⟩
  constructor
  case linked => exact h.linked.congr (State.skeleton_modify s r hk hcb)
  case done =>
    intro i f' hf'
    obtain ⟨f, hf, ⟨rfl, rfl⟩ | ⟨-, rfl⟩⟩ := modify_cases hf'
    · exact (hg f hf).done
    · exact h.done i f' hf
  case sync =>
    intro i f' hf'
    obtain ⟨f, hf, ⟨rfl, rfl⟩ | ⟨-, rfl⟩⟩ := modify_cases hf'
    · exact (hg f hf).sync
    · exact h.sync i f' hf
  case table =>
    intro id i hi
    obtain ⟨f, hf, hne⟩ := h.table id i hi
    rw [State.getElem?_modify, hf]
    split
    · exact ⟨g f, rfl, (hk f).symm ▸ hne⟩
    · exact ⟨f, rfl, hne⟩
  case one =>
    intro p i j hi hj
    exact h.one p i j (hw p i hi) (hw p j hj)
  case waits =>
    intro p i hi ha
    rcases hon p ha with hold | ⟨-, hnone⟩
    · exact h.waits p i (hw p i hi) hold
    · exact hnone i (hw p i hi)
  case gone =>
    intro p hp
    obtain ⟨⟨f, hf, hgen⟩, hidle, halone⟩ := h.gone p hp
    refine ⟨?_, ?_, fun i hi => halone i (hw p i hi)⟩
    · rw [State.getElem?_modify, hf]
      split
      · exact ⟨g f, rfl, (hk f).trans hgen⟩
      · exact ⟨f, rfl, hgen⟩
    · intro ha
      rcases hon p ha with hold | ⟨hnot, -⟩
      · exact hidle hold
      · exact hnot hp

/-- A future that was still to be called back is so now: its generator's turn has come. -/
theorem called (h : Turns gone s) {r : Ref} {f : Future} (hf : s.futures[r]? = some f)
    (hc : f.called = false) {g : Future → Future} (hk : ∀ f, (g f).handler = f.handler)
    (hcb : ∀ f, (g f).callback = f.callback) (hcalled : (g f).called = true) :
    Called gone (s.modify r g) f.callback := by
  have hskel := State.skeleton_modify s r hk hcb
  refine ⟨(parented_of_future h.linked hf).congr hskel, ?_⟩
  intro p up hup
  have hr : WaitsFor s p r := ⟨f, up, hf, hup, hc⟩
  refine ⟨fun hp => (h.gone p hp).alone r hr, ?_⟩
  rintro i ⟨f', up', hf', hup', hc'⟩
  obtain ⟨f₀, hf₀, ⟨rfl, rfl⟩ | ⟨hir, rfl⟩⟩ := modify_cases hf'
  · rw [hf] at hf₀
    cases hf₀
    rw [hcalled] at hc'
    cases hc'
  · exact hir (h.one p i r ⟨f', up', hf₀, hup', hc'⟩ hr)

theorem moves (h : Turns gone s) {r : Ref} {f : Future} (hf : s.futures[r]? = some f) :
    Moves f f :=
  ⟨fun hc => hc, h.done r f hf, h.sync r f hf⟩

/-- Ending a future: it is done, and no longer a handler's that runs. -/
theorem settle (h : Turns gone s) {r : Ref} {st : FutureState}
    (hst : ∀ f : Future, (f.settle st).isOpen = false)
    (hr : ∀ f, s.futures[r]? = some f → f.handler = some .sync → f.active = none) :
    Turns gone (s.modify r (Future.settle st)) := by
  refine h.modify (fun _ => rfl) (fun _ => rfl) ?_ fun _ _ ha => Or.inl ha
  intro f hf
  refine ⟨fun _ => rfl, fun _ => hst f, ?_⟩
  intro hk ha
  exact absurd (hr f hf hk) ha

theorem setOutcome (h : Turns gone s) {r : Ref} {o : Outcome}
    (hr : ∀ f, s.futures[r]? = some f → f.handler = some .sync → f.active = none)
    (hs : s.setOutcome r o = some t) :
    Turns gone t ∧ ∃ f, s.futures[r]? = some f ∧ Called gone t f.callback := by
  obtain ⟨f, hf, hpend, rfl⟩ := setOutcome_eq_some hs
  have hc := not_called_of_open (h.done r f hf) (isOpen_of_isPending hpend)
  exact ⟨h.settle (fun _ => rfl) hr, f, hf, h.called hf hc (fun _ => rfl) (fun _ => rfl) rfl⟩

theorem resume (h : Turns gone s) {r : Ref} {up : Callback}
    (hcb : Called gone s (.runGenerator r up)) (th : Thread) (v : PyValue) :
    Turns gone (s.resume r th v) := by
  obtain ⟨f, hf, hgen, -⟩ := hcb.parent.future
  refine h.modify (fun _ => rfl) (fun _ => rfl) ?_ fun _ _ _ => Or.inr (hcb.turn r up rfl)
  intro f' hf'
  rw [hf] at hf'
  cases hf'
  refine ⟨fun hc => hc, h.done r f hf, ?_⟩
  intro hk _
  rw [show f.handler = some .sync from hk] at hgen
  cases hgen

theorem runCallback (h : Turns gone s) (th : Thread) {cb : Callback} (c : Completion)
    (hcb : Called gone s cb) : Turns gone (State.runCallback env th cb c s) := by
  refine runCallback_rule (I := Turns gone) (R := fun t cb _ => Called gone t cb) ?_ ?_ ?_ cb c s h
    hcb
  · intro t id n c ht _
    refine ht.congr (State.sendHandlerResult_sends env t id n c).futures ?_
    exact (Shrinks.of_answer env t id n c).table
  · intro t r up c v ht hcb
    exact ht.resume hcb th v
  · intro t t' r up c x ht hcb _ hs
    obtain ⟨g, hg, hgen, hup⟩ := hcb.parent.future
    obtain ⟨ht', f, hf, hcalled⟩ := ht.setOutcome (r := r) (by
      intro f hf hk
      rw [hg] at hf
      cases hf
      rw [hk] at hgen
      cases hgen) hs
    rw [hg] at hf
    cases hf
    exact ⟨ht', hup ▸ hcalled⟩

theorem executeRaised (h : Turns gone s) (th : Thread) {cb : Callback} (x : PyExc)
    (hcb : Parented s cb) : Turns gone (State.executeRaised env th cb x s) := by
  refine executeRaised_rule (I := Turns gone) (R := fun t cb _ => Called gone t cb)
    (P := fun t cb _ => Parented t cb) ?_ ?_ ?_ ?_ cb x s h hcb
  · intro cb c t ht hcb
    exact ht.runCallback th c hcb
  · intro t id n x ht _
    refine ht.congr (State.sendException_sends env t n id x).futures ?_
    intro k r hk
    rwa [sendException_requestFutures] at hk
  · intro t t' r up x ht hcb hs
    obtain ⟨g, hg, hgen, hup⟩ := hcb.future
    obtain ⟨ht', f, hf, hcalled⟩ := ht.setOutcome (r := r) (by
      intro f hf hk
      rw [hg] at hf
      cases hf
      rw [hk] at hgen
      cases hgen) hs
    rw [hg] at hf
    cases hf
    exact ⟨ht', hup ▸ hcalled⟩
  · intro t r up x ht hcb _ _
    obtain ⟨g, hg, -, hup⟩ := hcb.future
    exact hup ▸ parented_of_future ht.linked hg

theorem alloc (h : Turns gone s) {g : Future} (hc : g.called = false) (hpend : g.isPending = true)
    (hcb : Called gone s g.callback)
    (hidle : ∀ p up, g.callback = .runGenerator p up → ¬OnStack s p)
    (hout : g.handler = none → g.callback = .client) : Turns gone (s.alloc g) := by
  have hl := h.linked.alloc hcb.parent hout
  have hnew : ∀ i, ¬WaitsFor (s.alloc g) s.fresh i := by
    rintro i ⟨f, up, hf, hup, -⟩
    have hlt := hl.parent_lt hf hup
    obtain ⟨hi, -⟩ := List.getElem?_eq_some_iff.mp hf
    rw [State.alloc, List.length_append] at hi
    exact absurd (Nat.lt_succ_iff.mp hi) (Nat.not_le_of_lt hlt)
  have hw : ∀ p i, WaitsFor (s.alloc g) p i →
      WaitsFor s p i ∨ (i = s.fresh ∧ ∃ up, g.callback = .runGenerator p up) := by
    rintro p i ⟨f, up, hf, hup, hc⟩
    rcases State.getElem?_alloc hf with hf | ⟨rfl, rfl⟩
    · exact Or.inl ⟨f, up, hf, hup, hc⟩
    · exact Or.inr ⟨rfl, up, hup⟩
  have hon : ∀ p, OnStack (s.alloc g) p → OnStack s p ∨ p = s.fresh := by
    rintro p ⟨f, hf, ha⟩
    rcases State.getElem?_alloc hf with hf | ⟨rfl, rfl⟩
    · exact Or.inl ⟨f, hf, ha⟩
    · exact Or.inr rfl
  constructor
  case linked => exact hl
  case done =>
    intro i f hf
    rcases State.getElem?_alloc hf with hf | ⟨-, rfl⟩
    · exact h.done i f hf
    · intro hc'
      rw [hc] at hc'
      cases hc'
  case sync =>
    intro i f hf
    rcases State.getElem?_alloc hf with hf | ⟨-, rfl⟩
    · exact h.sync i f hf
    · exact fun _ _ => hpend
  case table =>
    intro id i hi
    obtain ⟨f, hf, hne⟩ := h.table id i hi
    exact ⟨f, Discipline.getElem?_alloc_of_some hf, hne⟩
  case one =>
    intro p i j hi hj
    rcases hw p i hi with hi | ⟨hi, up, hup⟩
    · rcases hw p j hj with hj | ⟨-, up, hup⟩
      · exact h.one p i j hi hj
      · exact absurd hi ((hcb.turn p up hup).2 i)
    · rcases hw p j hj with hj | ⟨hj, -⟩
      · exact absurd hj ((hcb.turn p up hup).2 j)
      · exact hi.trans hj.symm
  case waits =>
    intro p i hi ha
    rcases hon p ha with ha | rfl
    · rcases hw p i hi with hi | ⟨-, up, hup⟩
      · exact h.waits p i hi ha
      · exact hidle p up hup ha
    · exact hnew i hi
  case gone =>
    intro r hr
    obtain ⟨⟨f, hf, hgen⟩, hnot, halone⟩ := h.gone r hr
    refine ⟨⟨f, Discipline.getElem?_alloc_of_some hf, hgen⟩, ?_, ?_⟩
    · intro ha
      rcases hon r ha with ha | rfl
      · exact hnot ha
      · obtain ⟨hlt, -⟩ := List.getElem?_eq_some_iff.mp hf
        exact Nat.lt_irrefl _ hlt
    · intro i hi
      rcases hw r i hi with hi | ⟨-, up, hup⟩
      · exact halone i hi
      · exact (hcb.turn r up hup).1 hr

theorem register (h : Turns gone s) {r : Ref}
    (hr : ∃ f, s.futures[r]? = some f ∧ f.handler ≠ some .sync) (id : MsgId) :
    Turns gone (s.register id r) := by
  refine { h with linked := h.linked.congr rfl, table := ?_, gone := ?_ }
  case refine_2 =>
    intro i hi
    exact ⟨(h.gone i hi).generator, (h.gone i hi).idle, (h.gone i hi).alone⟩
  intro k i hi
  rw [State.register, Lib.Dict.get?_set] at hi
  split at hi
  · cases hi
    exact hr
  · exact h.table k i hi

theorem executeHandler (h : Turns gone s) (th : Thread) (id : MsgId) (kind : HandlerKind)
    {cb : Callback} (start : Start) (hcb : Called gone s cb)
    (hidle : ∀ p up, cb = .runGenerator p up → ¬OnStack s p) :
    Turns gone (State.executeHandler env th id kind cb start s) := by
  have filed : ∀ (kind : HandlerKind) (act : Option Thread), kind ≠ .sync →
      Turns gone ((s.alloc { Future.pending (some kind) cb with active := act }).register id
        s.fresh) := by
    intro kind act hk
    have ha : Turns gone (s.alloc { Future.pending (some kind) cb with active := act }) := by
      apply h.alloc rfl rfl hcb hidle
      intro hnone
      cases hnone
    refine ha.register ⟨_, by simp [State.alloc, State.fresh]; rfl, ?_⟩ id
    intro heq
    exact hk (Option.some.inj heq)
  cases kind with
  | coroutine =>
    cases start with
    | some x => exact h.executeRaised th x hcb.parent
    | none =>
      cases th with
      | main =>
        apply filed .coroutine none
        intro hk
        cases hk
      | worker => exact h.executeRaised .worker .runtimeError hcb.parent
  | thread =>
    cases start with
    | some x => exact h.executeRaised th x hcb.parent
    | none =>
      apply filed .thread none
      intro hk
      cases hk
  | generator =>
    apply filed .generator (some th)
    intro hk
    cases hk
  | sync =>
    apply h.alloc rfl rfl hcb hidle
    intro hnone
    cases hnone

/-- A callback that resumes no generator is always in turn. -/
theorem called_of_top {cb : Callback} (hcb : ∀ p up, cb ≠ .runGenerator p up) :
    Called gone s cb :=
  ⟨fun p up heq => absurd heq (hcb p up), fun p up heq => absurd heq (hcb p up)⟩

theorem popFuture (h : Turns gone s) (id : MsgId) : Turns gone (s.popFuture id) :=
  h.congr rfl (Shrinks.of_pop s id).table

/-- A future is ended from outside its handler, and called back. -/
theorem complete (h : Turns gone s) (th : Thread) {r : Ref} {f : Future}
    (hf : s.futures[r]? = some f) (hne : f.handler ≠ some .sync) (hopen : f.isOpen = true)
    {st : FutureState} (hst : ∀ f : Future, (f.settle st).isOpen = false) (c : Completion) :
    Turns gone (State.runCallback env th f.callback c (s.modify r (Future.settle st))) := by
  have hc := not_called_of_open (h.done r f hf) hopen
  have h' : Turns gone (s.modify r (Future.settle st)) := by
    refine h.settle hst ?_
    intro f' hf' hk
    rw [hf] at hf'
    cases hf'
    exact absurd hk hne
  exact h'.runCallback th c (h.called hf hc (fun _ => rfl) (fun _ => rfl) rfl)

theorem cancel (h : Turns gone s) (th : Thread) {r : Ref}
    (hr : ∃ f, s.futures[r]? = some f ∧ f.handler ≠ some .sync) :
    Turns gone (State.cancel env th s r) := by
  obtain ⟨f, hf, hne⟩ := hr
  unfold State.cancel
  rw [hf]
  dsimp only
  split
  · split
    · refine h.modify (fun _ => rfl) (fun _ => rfl) ?_ fun _ _ ha => Or.inl ha
      intro f hf
      have hm := h.moves hf
      exact ⟨hm.called, hm.done, hm.sync⟩
    · exact h
  · split
    · rename_i hpend
      exact h.complete th hf hne (isOpen_of_isPending hpend) (fun _ => rfl) .cancelled
    · exact h

theorem handleResponse (h : Turns gone s) (id : MsgId) (o : Outcome) :
    Turns gone (s.handleResponse env id o) := by
  have hpop := h.popFuture id
  simp only [State.handleResponse]
  split
  · exact h
  · rename_i r hr
    obtain ⟨f, hf, hne⟩ := h.table id r hr
    have hf' : (s.popFuture id).futures[r]? = some f := hf
    rw [hf']
    dsimp only
    split
    · exact hpop
    · split
      · rename_i hopen
        exact hpop.complete .main hf' hne hopen (fun _ => rfl) (.finished o)
      · exact hpop

theorem leave (h : Turns gone s) (r : Ref) : Turns gone (s.leave r) := by
  refine h.modify (fun _ => rfl) (fun _ => rfl) ?_ fun _ _ ha => absurd rfl ha
  intro f hf
  have hm := h.moves hf
  exact ⟨hm.called, hm.done, fun _ ha => absurd rfl ha⟩

theorem syncEnd (h : Turns gone s) {r : Ref} {f : Future} {th : Thread}
    (hf : s.futures[r]? = some f) (hsync : f.handler = some .sync) (hact : f.active = some th)
    (o : Outcome) : ∃ t, (s.leave r).setOutcome r o = some t ∧ Turns gone t ∧
      Called gone t f.callback := by
  have hf' := State.getElem?_modify_self (g := fun f => { f with active := none }) hf
  have hpend : f.isPending = true := by
    refine h.sync r f hf hsync ?_
    rw [hact]
    exact Option.some_ne_none th
  cases hs : (s.leave r).setOutcome r o with
  | none =>
    have hnot := setOutcome_eq_none hs hf'
    rw [show f.isPending = false from hnot] at hpend
    cases hpend
  | some t =>
    obtain ⟨ht, g, hg, hcalled⟩ := (h.leave r).setOutcome (by
      intro g hg _
      rw [State.leave, hf'] at hg
      cases hg
      rfl) hs
    rw [State.leave, hf'] at hg
    cases hg
    exact ⟨t, rfl, ht, hcalled⟩

/-- The code of a generator that runs can hand an exception to the generator's driver. -/
theorem executeRaised_leave (h : Turns gone s) (th : Thread) {r : Ref} {cb : Callback}
    (hr : s.skeleton[r]? = some (some .generator, cb)) (x : PyExc) :
    Turns gone (State.executeRaised env th (.runGenerator r cb) x (s.leave r)) := by
  refine (h.leave r).executeRaised th x ?_
  intro p up hcb
  cases hcb
  rw [State.skeleton_leave]
  exact hr

theorem cancelOthers (h : Turns gone s) (env : Env T) (th : Thread) (current : Option MsgId)
    (size : Nat) (entries : List (MsgId × Ref))
    (hentries : ∀ k r, (k, r) ∈ entries → ∃ f, s.futures[r]? = some f ∧ f.handler ≠ some .sync) :
    Turns gone (State.cancelOthers env th current size entries s).1 := by
  induction entries generalizing s with
  | nil => exact h
  | cons entry rest ih =>
    rw [State.cancelOthers]
    split
    · have hstep : Turns gone (if some entry.1 ≠ current ∧ s.futures[entry.2]?.any Future.isOpen
          then State.cancel env th s entry.2 else s) := by
        split
        · exact h.cancel th (hentries entry.1 entry.2 List.mem_cons_self)
        · exact h
      refine ih hstep ?_
      intro k r hmem
      obtain ⟨f, hf, hne⟩ := hentries k r (List.mem_cons_of_mem _ hmem)
      have hskel : (if some entry.1 ≠ current ∧ s.futures[entry.2]?.any Future.isOpen
          then State.cancel env th s entry.2 else s).skeleton = s.skeleton := by
        split
        · exact State.skeleton_cancel env th s entry.2
        · rfl
      have hr := congrArg (·[r]?) hskel
      simp only [State.getElem?_skeleton] at hr
      rw [hf] at hr
      obtain ⟨g, hg, heq⟩ := Option.map_eq_some_iff.mp hr
      refine ⟨g, hg, ?_⟩
      rw [(Prod.mk.inj heq).1]
      exact hne
    · exact h

theorem shutdownEnd (h : Turns gone s) (th : Thread) {r : Ref} {cb : Callback}
    (hr : s.skeleton[r]? = some (some .generator, cb)) :
    Turns gone (s.shutdownEnd env r cb th) := by
  have hloop := h.cancelOthers env th (cb.msgId th) s.requestFutures.size
    s.requestFutures.entries fun k r hmem => h.table k r (Lib.Dict.get?_of_mem hmem)
  have hskel := State.skeleton_cancelOthers env th (cb.msgId th) s.requestFutures.size
    s.requestFutures.entries s
  rw [← hskel] at hr
  simp only [State.shutdownEnd]
  split
  · have hdown := hloop.congr (t := { (State.cancelOthers env th (cb.msgId th)
      s.requestFutures.size s.requestFutures.entries s).1 with shutdown := true }) rfl
      fun _ _ hi => hi
    exact hdown.executeRaised_leave th hr _
  · exact hloop.executeRaised_leave th hr _

theorem deliver (h : Turns gone s) {r : Ref} {f : Future}
    (hf : s.futures[r]? = some f) (hcalled : f.called = false) {c : Completion}
    (hc : f.completion = some c) :
    Turns gone (s.modify r fun f => { f with called := true }) ∧
      Called gone (s.modify r fun f => { f with called := true }) f.callback := by
  have hdone : f.isOpen = false := by
    unfold Future.completion at hc
    unfold Future.isOpen
    split at hc <;> simp_all
  refine ⟨h.modify (fun _ => rfl) (fun _ => rfl) ?_ fun _ _ ha => Or.inl ha,
    h.called hf hcalled (fun _ => rfl) (fun _ => rfl) rfl⟩
  intro f' hf'
  rw [hf] at hf'
  cases hf'
  exact ⟨fun _ => rfl, fun _ => hdone, h.sync r f hf⟩

theorem genYield (h : Turns gone s) {r : Ref} {f : Future} {th : Thread} (id : MsgId)
    (kind : HandlerKind) (start : Start) (hf : s.futures[r]? = some f)
    (hgen : f.handler = some .generator) (hact : f.active = some th) :
    Turns gone (State.executeHandler env th id kind (.runGenerator r f.callback) start
      (s.leave r)) := by
  have hon : OnStack s r := by
    refine ⟨f, hf, ?_⟩
    rw [hact]
    exact Option.some_ne_none th
  have hidle : ¬OnStack (s.leave r) r := by
    rintro ⟨g, hg, hne⟩
    rw [State.leave, State.getElem?_modify_self hf] at hg
    cases hg
    exact hne rfl
  have hw : ∀ i, WaitsFor (s.leave r) r i → WaitsFor s r i := by
    rintro i ⟨g, up, hg, hup, hc⟩
    obtain ⟨g₀, hg₀, ⟨rfl, rfl⟩ | ⟨-, rfl⟩⟩ := modify_cases hg
    · exact ⟨g₀, up, hg₀, hup, hc⟩
    · exact ⟨g, up, hg₀, hup, hc⟩
  refine (h.leave r).executeHandler th id kind start ⟨?_, ?_⟩ ?_
  · exact (parented_self hf hgen).congr (State.skeleton_leave s r)
  · intro p up hcb
    cases hcb
    exact ⟨fun hr => (h.gone r hr).idle hon, fun i hi => h.waits r i (hw i hi) hon⟩
  · intro p up hcb
    cases hcb
    exact hidle

/-- A task or a job of the pool that has not been called back goes on or ends. -/
theorem of_pending (h : Turns gone s) {r : Ref} {f : Future} {g : Future → Future}
    (hf : s.futures[r]? = some f) (hk : f.handler = some .coroutine ∨ f.handler = some .thread)
    (hpend : f.isPending = true) (hgk : ∀ f, (g f).handler = f.handler)
    (hcb : ∀ f, (g f).callback = f.callback) (hc : ∀ f, (g f).called = f.called) :
    Turns gone (s.modify r g) := by
  have hcalled := not_called_of_open (h.done r f hf) (isOpen_of_isPending hpend)
  have hmoves : ∀ f', s.futures[r]? = some f' → Moves f' (g f') := by
    intro f' hf'
    rw [hf] at hf'
    cases hf'
    rw [← hc f] at hcalled
    refine ⟨fun hold => ?_, fun hnew => ?_, fun hsync => ?_⟩
    · rw [hc]
      exact hold
    · rw [hcalled] at hnew
      cases hnew
    · rw [hgk] at hsync
      rcases hk with hk | hk
      · rw [hk] at hsync
        cases hsync
      · rw [hk] at hsync
        cases hsync
  have hgen : ∀ g, s.futures[r]? = some g → g.handler ≠ some .generator := by
    intro g hg hgen
    rw [hf] at hg
    cases hg
    rcases hk with hk | hk
    · rw [hk] at hgen
      cases hgen
    · rw [hk] at hgen
      cases hgen
  refine h.modify hgk hcb hmoves fun _ _ _ => Or.inr ⟨?_, ?_⟩
  · intro hr
    obtain ⟨g, hg, hgk⟩ := (h.gone r hr).generator
    exact hgen g hg hgk
  · rintro i ⟨g, up, hg, hup, -⟩
    obtain ⟨g', hg', -, hgk⟩ := h.linked.parent hg hup
    exact hgen g' hg' hgk

theorem poolEnd (h : Turns gone s) {r : Ref} {f : Future} (o : Outcome)
    (hf : s.futures[r]? = some f) :
    Turns gone (s.modify r fun f =>
      { f with active := none, state := if f.isOpen then .finished o else f.state }) := by
  refine h.modify (fun _ => rfl) (fun _ => rfl) ?_ fun _ _ ha => absurd rfl ha
  intro f' hf'
  rw [hf] at hf'
  cases hf'
  refine ⟨fun hcalled => hcalled, ?_, fun _ ha => absurd rfl ha⟩
  intro hcalled
  have hdone : f.isOpen = false := h.done r f hf hcalled
  simp only [hdone, Bool.false_eq_true, if_false]
  exact hdone

theorem step {e : LanguageServer.Event} (h : Turns gone s)
    (hs : LanguageServer.step env s e = some t) : Turns gone t := by
  cases e with
  | shutdown r =>
    obtain ⟨f, id, n, th, hf, hgen, -, hcb, rfl⟩ := LanguageServer.shutdown_cases hs
    refine h.shutdownEnd th ?_
    rw [State.getElem?_skeleton, hf, ← hgen, ← hcb]
    rfl
  | protocol e =>
    cases step_cases hs with
    | ignored => exact h
    | @request q start =>
      have hr : Turns gone { s with received := s.received ++ [(q, start)] } :=
        h.congr rfl fun _ _ hi => hi
      unfold State.handleRequest
      split
      · refine hr.congr (State.sendException_sends env _ _ _ _).futures ?_
        intro k i hi
        rwa [sendException_requestFutures] at hi
      · refine hr.executeHandler .main _ _ _ (called_of_top ?_) ?_
        · intro p up hcb
          cases hcb
        · intro p up hcb
          cases hcb
    | notification =>
      unfold State.handleNotification
      split
      · exact h
      · refine h.executeHandler .main _ _ _ (called_of_top ?_) ?_
        · intro p up hcb
          cases hcb
        · intro p up hcb
          cases hcb
    | @cancelRequest id =>
      unfold State.handleCancelNotification
      split
      · exact h
      · rename_i r hr
        exact (h.popFuture id).cancel .main (h.table id r hr)
    | @response id result =>
      simp only [State.receiveResult]
      have hpop : Turns gone (s.popType id) := h.congr rfl fun _ _ hi => hi
      split
      · exact hpop
      · split
        · exact hpop
        · exact hpop.handleResponse id _
    | errorResponse =>
      unfold State.receiveError
      split
      · exact h
      · split
        · exact h.handleResponse _ _
        · exact h.handleResponse _ _
    | @sendRequest id method params =>
      have ha : Turns gone (s.alloc (.pending none .client)) := by
        refine h.alloc rfl rfl (called_of_top ?_) ?_ fun _ => rfl
        · intro p up hcb
          cases hcb
        · intro p up hcb
          cases hcb
      have hclient : (Future.pending none .client).handler ≠ some .sync := by
        intro hk
        cases hk
      have hreg := ha.register (r := s.fresh)
        ⟨.pending none .client, by simp [State.alloc, State.fresh], hclient⟩
      refine (hreg id).congr (State.sendRequest_futures env s id method params) ?_
      intro k i hi
      rwa [State.sendRequest_requestFutures] at hi
    | @cancelOutgoing r f hf hnone =>
      refine h.cancel .main ⟨f, hf, ?_⟩
      rw [hnone]
      intro hk
      cases hk
    | @syncEnd r f th o hf hk hact =>
      obtain ⟨t, ht, htturn, hcalled⟩ := h.syncEnd hf hk hact o
      simp only [State.syncEnd, ht]
      exact htturn.runCallback th _ hcalled
    | genYield hf hk hact => exact h.genYield _ _ _ hf hk hact
    | @genEnd r f th o hf hk hact =>
      refine h.executeRaised_leave th ?_ _
      rw [State.getElem?_skeleton, hf, ← hk]
      rfl
    | taskEnd _ _ hf hk hpend =>
      exact h.of_pending hf (Or.inl hk) hpend (fun _ => rfl) (fun _ => rfl) fun _ => rfl
    | poolStart hf hk hpend =>
      exact h.of_pending hf (Or.inr hk) hpend (fun _ => rfl) (fun _ => rfl) fun _ => rfl
    | poolEnd hf => exact h.poolEnd _ hf
    | @deliver r f th c hf hk hcalled hc hidle =>
      obtain ⟨h', hcall⟩ := h.deliver hf hcalled hc
      exact h'.runCallback th c hcall

theorem step_protocol {e : Pygls.Event} (h : Turns gone s) (hs : Pygls.step env s e = some t) :
    Turns gone t :=
  h.step (show LanguageServer.step env s (.protocol e) = some t from hs)

theorem init : Turns (fun _ => False) (State.init : State T) := by
  have none : ∀ (r : Ref) (f : Future), (State.init : State T).futures[r]? ≠ some f := by
    intro r f
    simp [State.init]
  constructor
  case linked => exact Linked.init
  case done => exact fun r f hf => absurd hf (none r f)
  case sync => exact fun r f hf => absurd hf (none r f)
  case table =>
    intro id r hr
    cases hr
  case one =>
    rintro p i j ⟨f, up, hf, -⟩
    exact absurd hf (none i f)
  case waits =>
    rintro p i ⟨f, up, hf, -⟩
    exact absurd hf (none i f)
  case gone => exact fun r hr => False.elim hr

theorem of_run {es : List LanguageServer.Event} (h : Turns gone s)
    (hrun : Lib.run (LanguageServer.step env) s es = some t) : Turns gone t :=
  Lib.run_invariant (I := Turns gone) (fun _ _ _ h _ hs => h.step hs) h
    (Lib.meets_true _ s es) hrun

end Turns

section Failing

variable {env : Env T} {s t : State T}

theorem sendException_sent_congr {n : Nat} {id : MsgId} (x : PyExc) (hsent : t.sent = s.sent)
    (hwrites : t.writes = s.writes) :
    (t.sendException env n id x).sent = (s.sendException env n id x).sent := by
  unfold State.sendException State.sendError
  cases (x.toResponseError env.traceback).answer with
  | none => exact hsent
  | some a =>
    simp only [Option.map_some, State.sendData, hwrites]
    cases env.write s.writes with
    | accepted => exact congrArg (· ++ [Message.response n id a]) hsent
    | refused => exact hsent
    | brokenPipe => exact hsent

/-- What is sent where an exception `x` ends a future with the given callback. -/
def erring (env : Env T) (s : State T) (x : PyExc) (cb : Callback) : List (Message T) :=
  (reaches s cb).elim s.sent fun q => (s.sendException env q.2 q.1 x).sent

theorem runCallback_sent (th : Thread) {x : PyExc} (hx : x.outcome = .raised x) (hl : Linked s)
    {i : Ref} {f : Future} (hf : s.futures[i]? = some f) {cb : Callback} (hcb : f.callback = cb) :
    (State.runCallback env th cb (.finished (.raised x)) s).sent = erring env s x cb := by
  induction cb generalizing s i f with
  | sendHandlerResult id n => exact sendException_sent_congr x rfl rfl
  | checkHandlerResult => rfl
  | client => rfl
  | runGenerator r up ih =>
    obtain ⟨g, hg, hup, -⟩ := hl.parent hf hcb
    rw [State.runCallback, erring, reaches]
    split
    · rename_i hcancel
      rw [if_neg (ne_true_of_eq_false (pendingAt_of_cancelled hg hcancel))]
      rfl
    · simp only [Completion.result, hx]
      split
      · rename_i s' hs
        have hskel := State.skeleton_setOutcome hs
        have hat := pendingAt_of_setOutcome hs
        obtain ⟨_, -, -, rfl⟩ := setOutcome_eq_some hs
        have hself := State.getElem?_modify_self (g := Future.settle (.finished (.raised x))) hg
        have hreach := reaches_modify hl (Future.settle (.finished (.raised x))) (Nat.le_refl r) hg
        rw [hup] at hreach
        rw [ih (hl.congr hskel) hself hup, erring, hreach, if_pos hat]
        cases reaches s up with
        | none => rfl
        | some q => exact sendException_sent_congr x rfl rfl
      · rename_i hnone
        have hat := pendingAt_of_setOutcome_none hnone
        rw [if_neg (ne_true_of_eq_false hat)]
        rfl

/-- The event by which the exception of a sync or threaded handler gets to its callback. -/
inductive RaisedIn (s : State T) (i : Ref) (x : PyExc) : LanguageServer.Event → Prop where
  | sync : RaisedIn s i x (.protocol (.syncEnd i (.raised x)))
  | thread {f : Future} {th : Thread} : s.futures[i]? = some f → f.handler = some .thread →
      f.state = .finished (.raised x) → RaisedIn s i x (.protocol (.deliver i th))

/-- The generator is never resumed, ends with the exception unless it was cancelled, and the
request it handles is answered with that. -/
structure FailsWith (env : Env T) (s t : State T) (p : Ref) (up : Callback) (x : PyExc) : Prop where
  notResumed : ∀ (es : List LanguageServer.Event) (u : State T),
    Lib.run (LanguageServer.step env) t es = some u → ¬OnStack u p
  ended : s.cancelled p = false → t.futures[p]?.map Future.state = some (.finished (.raised x))
  answered : t.sent = erring env s x (.runGenerator p up)
  shutdown : t.shutdown = s.shutdown

/-- What the step of the event comes to. -/
structure CallsBack (env : Env T) (s m t : State T) (i : Ref) (cb : Callback) (x : PyExc) :
    Prop where
  turns : Turns (fun _ => False) m
  called : Called (fun _ => False) m cb
  others : ∀ j, j ≠ i → m.futures[j]? = s.futures[j]?
  skeleton : m.skeleton = s.skeleton
  sent : m.sent = s.sent
  writes : m.writes = s.writes
  shutdown : m.shutdown = s.shutdown
  result : ∃ th, t = State.runCallback env th cb (.finished (.raised x)) m

theorem callsBack {e : LanguageServer.Event} (h : Turns (fun _ => False) s) {i p : Ref}
    {f : Future} {up : Callback} {x : PyExc} (hf : s.futures[i]? = some f)
    (hcb : f.callback = .runGenerator p up) (hraised : RaisedIn s i x e)
    (hs : LanguageServer.step env s e = some t) :
    WaitsFor s p i ∧ ∃ m, CallsBack env s m t i (.runGenerator p up) x := by
  cases hraised with
  | sync =>
    have hp : Pygls.step env s (.syncEnd i (.raised x)) = some t := hs
    cases step_cases hp with
    | ignored _ hrefusable => cases hrefusable
    | @syncEnd _ g th _ hg hk hact =>
      rw [hf] at hg
      cases hg
      obtain ⟨m, hm, hturns, hcalled⟩ := h.syncEnd hf hk hact (.raised x)
      have hpend : f.isPending = true := by
        refine h.sync i f hf hk ?_
        rw [hact]
        exact Option.some_ne_none th
      have hc := not_called_of_open (h.done i f hf) (isOpen_of_isPending hpend)
      refine ⟨⟨f, up, hf, hcb, hc⟩, m, ?_⟩
      rw [hcb] at hcalled
      obtain ⟨g, -, -, rfl⟩ := setOutcome_eq_some hm
      refine ⟨hturns, hcalled, ?_, ?_, rfl, rfl, rfl, th, ?_⟩
      · intro j hj
        rw [State.getElem?_modify_ne hj, State.leave, State.getElem?_modify_ne hj]
      · rw [State.skeleton_setOutcome hm, State.skeleton_leave]
      · simp only [State.syncEnd, hm, hcb]
  | @thread g th hg hk hst =>
    rw [hf] at hg
    cases hg
    have hp : Pygls.step env s (.deliver i th) = some t := hs
    cases step_cases hp with
    | ignored _ hrefusable => cases hrefusable
    | @deliver _ g _ c hg _ hcalled hc _ =>
      rw [hf] at hg
      cases hg
      have hcx : c = .finished (.raised x) := by
        rw [Future.completion, hst] at hc
        exact (Option.some.inj hc).symm
      subst hcx
      obtain ⟨hturns, hcall⟩ := h.deliver hf hcalled hc
      rw [hcb] at hcall
      refine ⟨⟨f, up, hf, hcb, hcalled⟩, _, hturns, hcall, ?_, ?_, rfl, rfl, rfl, th, ?_⟩
      · intro j hj
        rw [State.getElem?_modify_ne hj]
      · exact State.skeleton_modify s i (fun _ => rfl) (fun _ => rfl)
      · rw [hcb]

namespace CallsBack

variable {m : State T} {i p : Ref} {up : Callback} {x : PyExc}

/-- The generator will not be resumed by any other future. -/
theorem givenUp (h : CallsBack env s m t i (.runGenerator p up) x) (hl : Linked s)
    (hw : WaitsFor s p i) (hidle : ¬OnStack s p) : Turns (· = p) m ∧ p < i := by
  obtain ⟨f, up', hf, hcb, -⟩ := hw
  have hlt := hl.parent_lt hf hcb
  refine ⟨{ h.turns with gone := ?_ }, hlt⟩
  rintro r rfl
  obtain ⟨g, hg, hgen, -⟩ := h.called.parent.future
  refine ⟨⟨g, hg, hgen⟩, ?_, (h.called.turn r up rfl).2⟩
  rintro ⟨g', hg', ha⟩
  rw [h.others r (Nat.ne_of_lt hlt)] at hg'
  exact hidle ⟨g', hg', ha⟩

/-- It is not resumed by this one either. -/
theorem gone (h : CallsBack env s m t i (.runGenerator p up) x) (hm : Turns (· = p) m) :
    Turns (· = p) t := by
  obtain ⟨th, rfl⟩ := h.result
  rw [State.runCallback]
  split
  · exact hm
  · simp only [Completion.result]
    split
    · rename_i s' hs
      obtain ⟨g, hg, hgen, hup⟩ := h.called.parent.future
      obtain ⟨hs', f, hf, hcalled⟩ := hm.setOutcome (by
        intro f hf hk
        rw [hg] at hf
        cases hf
        rw [hk] at hgen
        cases hgen) hs
      rw [hg] at hf
      cases hf
      rw [hup] at hcalled
      exact hs'.runCallback th _ hcalled
    · exact hm

theorem parent (h : CallsBack env s m t i (.runGenerator p up) x) (hpi : p < i) :
    ∃ g, s.futures[p]? = some g ∧ m.futures[p]? = some g ∧ g.callback = up := by
  obtain ⟨g, hg, -, hup⟩ := h.called.parent.future
  exact ⟨g, (h.others p (Nat.ne_of_lt hpi)).symm.trans hg, hg, hup⟩

theorem not_pending (h : CallsBack env s m t i (.runGenerator p up) x) (hpi : p < i)
    (hp : s.pendingAt p = false) : t = m := by
  obtain ⟨g, hg, hgm, -⟩ := h.parent hpi
  obtain ⟨th, rfl⟩ := h.result
  rw [State.pendingAt, hg] at hp
  rw [State.runCallback]
  split
  · rfl
  · simp only [Completion.result]
    split
    · rename_i s' hs
      obtain ⟨g', hg', hpend, -⟩ := setOutcome_eq_some hs
      rw [hgm] at hg'
      cases hg'
      rw [show g.isPending = false from hp] at hpend
      cases hpend
    · rfl

theorem pending (h : CallsBack env s m t i (.runGenerator p up) x) (hpi : p < i)
    (hp : s.pendingAt p = true) :
    t.futures[p]?.map Future.state = some (.finished x.outcome) := by
  obtain ⟨g, hg, hgm, hup⟩ := h.parent hpi
  obtain ⟨th, rfl⟩ := h.result
  rw [State.pendingAt, hg] at hp
  rw [State.runCallback]
  split
  · rename_i hcancel
    have hnot := pendingAt_of_cancelled hgm hcancel
    rw [State.pendingAt, hgm] at hnot
    rw [hnot] at hp
    cases hp
  · simp only [Completion.result]
    split
    · rename_i s' hs
      have hl := h.turns.linked.congr (State.skeleton_setOutcome hs)
      obtain ⟨g', hg', -, rfl⟩ := setOutcome_eq_some hs
      rw [hgm] at hg'
      cases hg'
      have hself := State.getElem?_modify_self (g := Future.settle (.finished x.outcome)) hgm
      have hnot : ¬LeadsTo p up := fun hlead =>
        Nat.lt_irrefl p (leadsTo_lt hl hself (by rw [Future.settle, hup]; exact hlead))
      rw [runCallback_other th _ hnot, hself]
      rfl
    · rename_i hnone
      have hnot := setOutcome_eq_none hnone hgm
      rw [show g.isPending = true from hp] at hnot
      cases hnot

theorem erring_eq (h : CallsBack env s m t i (.runGenerator p up) x) (hl : Linked s)
    (hw : WaitsFor s p i) :
    erring env m x (.runGenerator p up) = erring env s x (.runGenerator p up) := by
  obtain ⟨f, up', hf, hcb, -⟩ := hw
  have hup : up' = up := by
    obtain ⟨g, hg, hgm, hgup⟩ := h.parent (hl.parent_lt hf hcb)
    obtain ⟨g', hg', hup', -⟩ := hl.parent hf hcb
    rw [hg] at hg'
    cases hg'
    exact hup'.symm.trans hgup
  subst hup
  have hreach := reaches_congr (t := m) hl (Nat.le_refl i) (by
    intro j hj
    rw [State.pendingAt, State.pendingAt, h.others j (Nat.ne_of_lt hj)]) hf
  rw [hcb] at hreach
  rw [erring, erring, hreach]
  cases reaches s (.runGenerator p up') with
  | none => exact h.sent
  | some q => exact sendException_sent_congr x h.sent h.writes

theorem sent_eq (h : CallsBack env s m t i (.runGenerator p up) x) (hl : Linked s)
    (hw : WaitsFor s p i) (hx : x.outcome = .raised x) :
    t.sent = erring env s x (.runGenerator p up) := by
  rw [← h.erring_eq hl hw]
  obtain ⟨f, up', hf, hcb, -⟩ := hw
  have hskel := congrArg (·[i]?) h.skeleton
  simp only [State.getElem?_skeleton] at hskel
  rw [hf] at hskel
  obtain ⟨g, hg, heq⟩ := Option.map_eq_some_iff.mp hskel
  obtain ⟨-, hgcb⟩ := Prod.mk.inj heq
  have hup : up' = up := by
    obtain ⟨g', hg', -, hgup⟩ := h.called.parent.future
    obtain ⟨g'', hg'', hup', -⟩ := h.turns.linked.parent hg (hgcb.trans hcb)
    rw [hg'] at hg''
    cases hg''
    exact hup'.symm.trans hgup
  subst hup
  obtain ⟨th, rfl⟩ := h.result
  exact runCallback_sent th hx h.turns.linked hg (hgcb.trans hcb)

theorem failsWith_iff (h : CallsBack env s m t i (.runGenerator p up) x) (hl : Linked s)
    (hw : WaitsFor s p i) (hidle : ¬OnStack s p) :
    FailsWith env s t p up x ↔
      s.cancelled p = true ∨ (s.pendingAt p = true ∧ ∀ v, x ≠ .stopIteration v) ∨
        s.futures[p]?.map Future.state = some (.finished (.raised x)) := by
  obtain ⟨hm, hpi⟩ := h.givenUp hl hw hidle
  have hover := h.gone hm
  have hnot : ∀ (es : List LanguageServer.Event) (u : State T),
      Lib.run (LanguageServer.step env) t es = some u → ¬OnStack u p :=
    fun es u hrun => ((hover.of_run hrun).gone p rfl).idle
  have hdown : t.shutdown = s.shutdown := by
    obtain ⟨th, rfl⟩ := h.result
    rw [runCallback_shutdown, h.shutdown]
  cases hp : s.pendingAt p with
  | false =>
    have hsame : t = m := h.not_pending hpi hp
    have hat : t.futures[p]? = s.futures[p]? := hsame ▸ h.others p (Nat.ne_of_lt hpi)
    have hsent : t.sent = erring env s x (.runGenerator p up) := by
      rw [hsame, h.sent, erring, reaches, hp]
      rfl
    constructor
    · intro hfails
      cases hc : s.cancelled p with
      | true => exact Or.inl rfl
      | false =>
        have hended := hfails.ended hc
        rw [hat] at hended
        exact Or.inr (Or.inr hended)
    · rintro (hc | ⟨hpend, -⟩ | hst)
      · exact ⟨hnot, fun hlive => absurd (hlive.symm.trans hc) Bool.false_ne_true, hsent, hdown⟩
      · cases hpend
      · exact ⟨hnot, fun _ => (congrArg (·.map Future.state) hat).trans hst, hsent, hdown⟩
  | true =>
    obtain ⟨g, hg, -, -⟩ := h.parent hpi
    have hlive : s.cancelled p = false := by
      cases hc : s.cancelled p with
      | false => rfl
      | true =>
        rw [pendingAt_of_cancelled hg hc] at hp
        cases hp
    have hended := h.pending hpi hp
    have hopen : s.futures[p]?.map Future.state ≠ some (.finished (.raised x)) := by
      intro hst
      rw [State.pendingAt, hg] at hp
      rw [hg] at hst
      rw [Option.any_some, Future.isPending, Option.some.inj hst] at hp
      cases hp
    constructor
    · intro hfails
      refine Or.inr (Or.inl ⟨rfl, ?_⟩)
      rintro v rfl
      have hraised := hfails.ended hlive
      rw [hended] at hraised
      cases hraised
    · rintro (hc | ⟨-, hx⟩ | hst)
      · rw [hlive] at hc
        cases hc
      · have hout : x.outcome = .raised x := by
          cases x with
          | stopIteration v => exact absurd rfl (hx v)
          | _ => rfl
        rw [hout] at hended
        exact ⟨hnot, fun _ => hended, h.sent_eq hl hw hout, hdown⟩
      · exact absurd hst hopen

end CallsBack

end Failing

/-- In every reachable state, an exception of a handler that a generator has yielded to fails
the generator unless it is a `StopIteration`, which reads as the generator's own return; or
unless the generator's future has been completed under its hands. -/
theorem failing_handler_fails_generator {env : Env T} {es : List LanguageServer.Event}
    {s t : State T} {e : LanguageServer.Event} {i p : Ref} {f : Future} {up : Callback} {x : PyExc}
    (hrun : Lib.run (LanguageServer.step env) State.init es = some s)
    (hf : s.futures[i]? = some f) (hcb : f.callback = .runGenerator p up)
    (hraised : RaisedIn s i x e) (hs : LanguageServer.step env s e = some t) :
    FailsWith env s t p up x ↔
      s.cancelled p = true ∨ (s.pendingAt p = true ∧ ∀ v, x ≠ .stopIteration v) ∨
        s.futures[p]?.map Future.state = some (.finished (.raised x)) := by
  have h : Turns (fun _ => False) s := Turns.init.of_run hrun
  obtain ⟨hw, m, hm⟩ := callsBack h hf hcb hraised hs
  exact hm.failsWith_iff h.linked hw (h.waits p i hw)

/-- A generator request whose sync handler raises a `KeyError`. -/
theorem failing_handler_fails_generator_keyError :
    ∃ s t, Lib.run (LanguageServer.step sampleEnv) State.init
        [.protocol (.request ⟨.int 1, [], .null⟩ none),
          .protocol (.genYield 0 [65] .sync none)] = some s ∧
      LanguageServer.step sampleEnv s (.protocol (.syncEnd 1 (.raised (.other [75])))) = some t ∧
      FailsWith sampleEnv s t 0 (.sendHandlerResult (.int 1) 0) (.other [75]) := by
  have hrun : Lib.run (LanguageServer.step sampleEnv) State.init
      [.protocol (.request ⟨.int 1, [], .null⟩ none),
        .protocol (.genYield 0 [65] .sync none)] = some _ := rfl
  refine ⟨_, _, rfl, rfl, (failing_handler_fails_generator (i := 1) hrun rfl rfl .sync rfl).mpr ?_⟩
  exact Or.inr (Or.inl ⟨rfl, nofun⟩)

/-- The user's own shutdown handler exhausts an iterator: the request is answered with `null`,
and the server is not shut down. -/
theorem failing_handler_ends_generator :
    ∃ s t, Lib.run (LanguageServer.step generatorsEnv) State.init
        [.protocol (.request ⟨.int 1, shutdownMethod, .null⟩ none),
          .protocol (.genYield 0 [65] .sync none)] = some s ∧
      LanguageServer.step generatorsEnv s
        (.protocol (.syncEnd 1 (.raised (.stopIteration .none)))) = some t ∧
      t.sent = [.response 0 (.int 1) (.result none .null)] ∧ t.shutdown = false ∧
      ¬FailsWith generatorsEnv s t 0 (.sendHandlerResult (.int 1) 0) (.stopIteration .none) := by
  refine ⟨_, _, rfl, rfl, rfl, rfl, ?_⟩
  intro h
  have hended := h.ended rfl
  cases hended

end Pygls
