import Pygls.Answers

/-!
# What becomes of an answer

A request that has been received has its answer, or some handler is still at
work on it. Two steps break this: an answer that `json.dumps` refuses is dropped
inside `_send_data`, and a generator is dropped when the task it yielded to ends
cancelled. `Delivers` excludes exactly these, where the request's answer still
depends on it.
-/

namespace Pygls

set_option autoImplicit false

variable {T : Type}

/-- The request whose answer waits for the callback. -/
def Callback.request : Callback → Option Nat
  | .sendHandlerResult _ n => some n
  | .checkHandlerResult => none
  | .client => none
  | .runGenerator _ up => up.request

/-- Code of the handler is on a stack, or it is a task or a pool job whose completion has
not been reported yet. -/
def Future.AtWork (f : Future) : Prop :=
  f.active ≠ none ∨
    ((f.handler = some .coroutine ∨ f.handler = some .thread) ∧ f.called = false)

instance (f : Future) : Decidable f.AtWork := inferInstanceAs (Decidable (_ ∨ _))

def Answered (s : State T) (n : Nat) : Prop := ∃ id a, Message.response n id a ∈ s.sent

/-- If an answer depends on what the callback leads to, it can be written: the result can be
encoded, and the generators on the way take what they are handed. -/
def Deliverable (env : Env T) (s : State T) : Callback → Completion → Prop
  | .sendHandlerResult id _, .finished (.returned v) =>
    match s.resultTypes.get? id with
    | some none => True
    | some (some t) => env.encode (some t) v ≠ none
    | none => env.encode none v ≠ none
  | .sendHandlerResult _ _, .finished (.raised x) =>
    Json.toJson (x.toResponseError env.traceback).data ≠ none
  | .sendHandlerResult _ _, _ => True
  | .runGenerator r up, c =>
    (Callback.runGenerator r up).awaited s.futures = true →
      match c.result with
      | some (.returned _) => True
      | some (.raised x) => Deliverable env s up (.finished x.outcome)
      | none => False
  | .checkHandlerResult, _ => True
  | .client, _ => True

/-- The invariant, but for the owner of the callback that is about to run. -/
structure ProgressBut (s : State T) (cb : Callback) : Prop where
  answered : ∀ n, n < s.received.length → (∀ id, cb ≠ .sendHandlerResult id n) →
    Answered s n ∨ ∃ (r : Ref) (f : Future) (id : MsgId), s.futures[r]? = some f ∧
      f.callback = .sendHandlerResult id n ∧ f.called = false
  sync : ∀ (r : Ref) (f : Future), s.futures[r]? = some f → f.handler = some .sync →
    f.callback.awaited s.futures = true → f.called = false → f.active ≠ none
  generator : ∀ (r : Ref) (f : Future), s.futures[r]? = some f → f.handler = some .generator →
    f.callback.awaited s.futures = true → f.called = false → (∀ up, cb ≠ .runGenerator r up) →
    f.active ≠ none ∨ ∃ (i : Ref) (g : Future) (up : Callback), s.futures[i]? = some g ∧
      g.callback = .runGenerator r up ∧ g.called = false
  settled : ∀ (r : Ref) (f : Future), s.futures[r]? = some f → f.handler ≠ some .coroutine →
    f.handler ≠ some .thread → f.isOpen = false → f.called = true

/-- Nothing is exempt. -/
abbrev Progress (s : State T) : Prop := ProgressBut s .client

/-- An exception of the protocol's own reaches its request. -/
theorem deliverable_plain {env : Env T} {s : State T} {x : PyExc} (hj : ∀ y, x ≠ .jsonRpc y)
    (hstop : x.outcome = .raised x) (cb : Callback) :
    Deliverable env s cb (.finished (.raised x)) := by
  induction cb with
  | sendHandlerResult id n =>
    obtain ⟨d, hd⟩ := toJson_internalError env.traceback x
    cases x with
    | jsonRpc y => exact absurd rfl (hj y)
    | _ => simp [Deliverable, PyExc.toResponseError, JsonRpcException.toResponseError, hd]
  | checkHandlerResult => trivial
  | client => trivial
  | runGenerator r up ih =>
    intro _
    simp only [Completion.result, hstop]
    exact ih

theorem deliverable_of_not_awaited {env : Env T} {s : State T} {cb : Callback}
    (h : cb.awaited s.futures = false) (c : Completion) : Deliverable env s cb c := by
  cases cb with
  | sendHandlerResult id n => cases h
  | checkHandlerResult => trivial
  | client => trivial
  | runGenerator r up =>
    intro hawait
    rw [h] at hawait
    cases hawait

theorem Deliverable.mono {env : Env T} {s t : State T} {cb : Callback} {c : Completion}
    (h : Deliverable env s cb c) (hle : HeapLe s.futures t.futures)
    (ht : t.resultTypes = s.resultTypes) : Deliverable env t cb c := by
  induction cb generalizing c with
  | sendHandlerResult id n =>
    cases c with
    | finished o =>
      cases o with
      | returned v =>
        simp only [Deliverable, ht] at h ⊢
        exact h
      | raised x => exact h
    | cancelled => trivial
    | taskCancelled => trivial
  | checkHandlerResult => trivial
  | client => trivial
  | runGenerator r up ih =>
    intro hawait
    have hd := h (Callback.awaited_antitone hle hawait)
    cases hres : c.result with
    | none =>
      simp only [hres] at hd
    | some o =>
      cases o with
      | returned v => trivial
      | raised x =>
        simp only [hres] at hd ⊢
        exact ih hd

section Accepting

variable {env : Env T} (hacc : ∀ k, env.write k = .accepted)

include hacc

theorem sendData_accepted (s : State T) (m : Message T) :
    s.sendData env (some m) = ({ s with sent := s.sent ++ [m], writes := s.writes + 1 }, none) := by
  simp only [State.sendData, hacc]

theorem sendException_answers (s : State T) (n : Nat) (id : MsgId) (x : PyExc)
    (hx : Json.toJson (x.toResponseError env.traceback).data ≠ none) :
    Answered (s.sendException env n id x) n := by
  obtain ⟨d, hd⟩ := Option.ne_none_iff_exists'.mp hx
  rw [State.sendException, State.sendError, ResponseError.answer, hd]
  simp only [Option.map_some, sendData_accepted hacc]
  exact ⟨id, _, List.mem_append_right _ (List.mem_singleton.mpr rfl)⟩

theorem internalError_answers (s : State T) (n : Nat) (id : MsgId) {x : PyExc}
    (hj : ∀ y, x ≠ .jsonRpc y) (hstop : x.outcome = .raised x) :
    Answered (s.sendException env n id x) n :=
  sendException_answers hacc s n id x (deliverable_plain hj hstop (s := s) (.sendHandlerResult id n))

theorem answer_accepted (s : State T) (n : Nat) (id : MsgId) (a : Answer T) :
    Answered (State.orSendException env n id (s.sendData env ((some a).map (.response n id)))) n := by
  simp only [Option.map_some, sendData_accepted hacc, State.orSendException]
  exact ⟨id, a, List.mem_append_right _ (List.mem_singleton.mpr rfl)⟩

/-- With a writer that accepts, an answer that can be encoded is written. -/
theorem sendHandlerResult_answers (s : State T) (id : MsgId) (n : Nat) {c : Completion}
    (hd : Deliverable env s (.sendHandlerResult id n) c) :
    Answered (s.sendHandlerResult env id n c) n := by
  cases c with
  | cancelled => exact answer_accepted hacc (s.popFuture id) n id _
  | taskCancelled => exact answer_accepted hacc (s.popFuture id) n id _
  | finished o =>
    cases o with
    | raised x => exact sendException_answers hacc (s.popFuture id) n id x hd
    | returned v =>
      have htypes : (s.popFuture id).resultTypes = s.resultTypes := rfl
      rw [State.sendHandlerResult, State.sendResult, htypes]
      simp only [Deliverable] at hd
      cases ht : s.resultTypes.get? id with
      | none =>
        rw [ht] at hd
        obtain ⟨j, hj⟩ := Option.ne_none_iff_exists'.mp hd
        simp only [Env.answer, hj, Option.map_some]
        exact answer_accepted hacc ((s.popFuture id).popType id) n id _
      | some cls =>
        rw [ht] at hd
        cases cls with
        | none =>
          refine internalError_answers hacc ((s.popFuture id).popType id) n id
            (x := .typeError) ?_ rfl
          intro y hy
          cases hy
        | some t =>
          obtain ⟨j, hj⟩ := Option.ne_none_iff_exists'.mp hd
          simp only [Env.answer, hj, Option.map_some]
          exact answer_accepted hacc ((s.popFuture id).popType id) n id _

end Accepting

namespace ProgressBut

variable {s t : State T} {cb : Callback}

theorem weaken (h : Progress s) (cb : Callback) : ProgressBut s cb where
  answered := fun n hn _ => h.answered n hn fun _ => by simp
  sync := h.sync
  generator := fun r f hf hk hw hc _ => h.generator r f hf hk hw hc fun _ => by simp
  settled := h.settled

/-- Nothing is owed to the owner of the callback. -/
theorem discharge (h : ProgressBut s cb)
    (hreq : ∀ id n, cb = .sendHandlerResult id n → Answered s n)
    (hgen : ∀ (r : Ref) (up : Callback) (f : Future), cb = .runGenerator r up →
      s.futures[r]? = some f → f.callback.awaited s.futures = true → f.called = false →
      f.active ≠ none) : Progress s where
  answered := by
    intro n hn _
    by_cases hcb : ∃ id, cb = .sendHandlerResult id n
    · obtain ⟨id, hcb⟩ := hcb
      exact Or.inl (hreq id n hcb)
    · exact h.answered n hn fun id hid => hcb ⟨id, hid⟩
  sync := h.sync
  generator := by
    intro r f hf hk hw hc _
    by_cases hcb : ∃ up, cb = .runGenerator r up
    · obtain ⟨up, hcb⟩ := hcb
      exact Or.inl (hgen r up f hcb hf hw hc)
    · exact h.generator r f hf hk hw hc fun up hup => hcb ⟨up, hup⟩
  settled := h.settled

theorem congr (h : ProgressBut s cb) (hf : t.futures = s.futures) (hr : t.received = s.received)
    (hs : ∀ n, Answered s n → Answered t n) : ProgressBut t cb := by
  constructor
  case answered =>
    rw [hr, hf]
    intro n hn hcb
    rcases h.answered n hn hcb with ha | hw
    · exact Or.inl (hs n ha)
    · exact Or.inr hw
  case sync => rw [hf]; exact h.sync
  case generator => rw [hf]; exact h.generator
  case settled => rw [hf]; exact h.settled

theorem sends (h : ProgressBut s cb) {n : Nat} {id : MsgId} {P : Answer T → Prop}
    (hs : Sends s t n id P) : ProgressBut t cb := by
  refine h.congr hs.futures hs.received ?_
  rintro m ⟨k, a, hm⟩
  refine ⟨k, a, ?_⟩
  rcases hs.sent with hsent | ⟨b, -, hsent⟩
  · rwa [hsent]
  · rw [hsent]
    exact List.mem_append_left _ hm

/-- A change of one future whose callback does not run. -/
theorem modify (h : ProgressBut s cb) {r : Ref} {g : Future → Future}
    (hcb : ∀ f, s.futures[r]? = some f → (g f).callback = f.callback)
    (hk : ∀ f, s.futures[r]? = some f → (g f).handler = f.handler)
    (hcalled : ∀ f, s.futures[r]? = some f → (g f).called = f.called)
    (hdone : ∀ f, s.futures[r]? = some f → f.isOpen = false → (g f).state = f.state)
    (hact : ∀ f, s.futures[r]? = some f → f.callback.awaited s.futures = true → f.called = false →
      f.active ≠ none →
      f.handler = some .sync ∨ (f.handler = some .generator ∧ ∀ up, cb ≠ .runGenerator r up) →
      (g f).active ≠ none)
    (hset : ∀ f, s.futures[r]? = some f → f.handler ≠ some .coroutine → f.handler ≠ some .thread →
      (g f).isOpen = false → f.isOpen = false) : ProgressBut (s.modify r g) cb := by
  have hle : HeapLe s.futures (s.modify r g).futures :=
    heapLe_modify fun f hf => ⟨hcb f hf, hdone f hf⟩
  have forth : ∀ (i : Ref) (f : Future), s.futures[i]? = some f →
      ∃ f', (s.modify r g).futures[i]? = some f' ∧ f'.callback = f.callback ∧
        f'.called = f.called := by
    intro i f hf
    rw [State.getElem?_modify]
    split
    · rename_i hri
      subst hri
      exact ⟨g f, by rw [hf]; rfl, hcb f hf, hcalled f hf⟩
    · exact ⟨f, hf, rfl, rfl⟩
  constructor
  case answered =>
    intro n hn hne
    rcases h.answered n hn hne with ha | ⟨i, f, id, hf, hfcb, hfc⟩
    · exact Or.inl ha
    · obtain ⟨f', hf', hcb', hc'⟩ := forth i f hf
      exact Or.inr ⟨i, f', id, hf', hcb' ▸ hfcb, hc' ▸ hfc⟩
  case sync =>
    intro i f' hf' hsync hw hc
    have hw' := Callback.awaited_antitone hle hw
    obtain ⟨f, hf, ⟨rfl, rfl⟩ | ⟨-, rfl⟩⟩ := modify_cases hf'
    · rw [hk f hf] at hsync
      rw [hcb f hf] at hw'
      rw [hcalled f hf] at hc
      exact hact f hf hw' hc (h.sync i f hf hsync hw' hc) (Or.inl hsync)
    · exact h.sync i f' hf hsync hw' hc
  case generator =>
    intro i f' hf' hgen hw hc hne
    have hw' := Callback.awaited_antitone hle hw
    have sub : (∃ (j : Ref) (f : Future) (up : Callback), s.futures[j]? = some f ∧
        f.callback = .runGenerator i up ∧ f.called = false) →
        ∃ (j : Ref) (f : Future) (up : Callback), (s.modify r g).futures[j]? = some f ∧
        f.callback = .runGenerator i up ∧ f.called = false := by
      rintro ⟨j, f, up, hf, hfcb, hfc⟩
      obtain ⟨f', hf', hcb', hc'⟩ := forth j f hf
      exact ⟨j, f', up, hf', hcb' ▸ hfcb, hc' ▸ hfc⟩
    obtain ⟨f, hf, ⟨rfl, rfl⟩ | ⟨-, rfl⟩⟩ := modify_cases hf'
    · rw [hk f hf] at hgen
      rw [hcb f hf] at hw'
      rw [hcalled f hf] at hc
      rcases h.generator i f hf hgen hw' hc hne with ha | hs
      · exact Or.inl (hact f hf hw' hc ha (Or.inr ⟨hgen, hne⟩))
      · exact Or.inr (sub hs)
    · rcases h.generator i f' hf hgen hw' hc hne with ha | hs
      · exact Or.inl ha
      · exact Or.inr (sub hs)
  case settled =>
    intro i f' hf' hco hth hopen
    obtain ⟨f, hf, ⟨rfl, rfl⟩ | ⟨-, rfl⟩⟩ := modify_cases hf'
    · rw [hk f hf] at hco hth
      rw [hcalled f hf]
      exact h.settled i f hf hco hth (hset f hf hco hth hopen)
    · exact h.settled i f' hf hco hth hopen

/-- The future's callback is about to run: from now on its owner is exempt. -/
theorem call (h : ProgressBut s cb) {r : Ref} {f : Future} (hf : s.futures[r]? = some f)
    {g : Future → Future} (hgc : (g f).called = true) (hcb : (g f).callback = f.callback)
    (hdone : f.isOpen = false → (g f).state = f.state)
    (hreq : ∀ id n, cb ≠ .sendHandlerResult id n) (hgen : ∀ p up, cb = .runGenerator p up → p = r) :
    ProgressBut (s.modify r g) f.callback := by
  have hle : HeapLe s.futures (s.modify r g).futures := by
    refine heapLe_modify fun f' hf' => ?_
    rw [hf] at hf'
    cases hf'
    exact ⟨hcb, hdone⟩
  have other : ∀ (i : Ref) (f' : Future), s.futures[i]? = some f' → f'.callback ≠ f.callback →
      (s.modify r g).futures[i]? = some f' := by
    intro i f' hf' hne
    rw [State.getElem?_modify, if_neg]
    · exact hf'
    · intro hri
      subst hri
      rw [hf] at hf'
      cases hf'
      exact hne rfl
  constructor
  case answered =>
    intro n hn hne
    rcases h.answered n hn fun id => hreq id n with ha | ⟨i, f', id, hf', hcb', hc'⟩
    · exact Or.inl ha
    · exact Or.inr ⟨i, f', id, other i f' hf' (hcb' ▸ (hne id).symm), hcb', hc'⟩
  case sync =>
    intro i f' hf' hsync hw hc
    obtain ⟨f₀, hf₀, ⟨rfl, rfl⟩ | ⟨-, rfl⟩⟩ := modify_cases hf'
    · rw [hf] at hf₀
      cases hf₀
      rw [hgc] at hc
      cases hc
    · exact h.sync i f' hf₀ hsync (Callback.awaited_antitone hle hw) hc
  case generator =>
    intro i f' hf' hgen' hw hc hne
    obtain ⟨f₀, hf₀, ⟨rfl, rfl⟩ | ⟨hir, rfl⟩⟩ := modify_cases hf'
    · rw [hf] at hf₀
      cases hf₀
      rw [hgc] at hc
      cases hc
    · have hexempt : ∀ up, cb ≠ .runGenerator i up := fun up hup => hir (hgen i up hup)
      have hw' := Callback.awaited_antitone hle hw
      rcases h.generator i f' hf₀ hgen' hw' hc hexempt with ha | ⟨j, f₁, up, hf₁, hcb₁, hc₁⟩
      · exact Or.inl ha
      · exact Or.inr ⟨j, f₁, up, other j f₁ hf₁ (hcb₁ ▸ (hne up).symm), hcb₁, hc₁⟩
  case settled =>
    intro i f' hf' hco hth hopen
    obtain ⟨f₀, hf₀, ⟨rfl, rfl⟩ | ⟨-, rfl⟩⟩ := modify_cases hf'
    · rw [hf] at hf₀
      cases hf₀
      exact hgc
    · exact h.settled i f' hf₀ hco hth hopen

/-- The new future is what its owner waits for. -/
theorem alloc {g : Future} (h : ProgressBut s g.callback) (hpend : g.state = .pending)
    (hc : g.called = false)
    (hact : g.handler = some .sync ∨ g.handler = some .generator → g.active ≠ none) :
    Progress (s.alloc g) := by
  have hle := heapLe_alloc s g
  have hnew : (s.alloc g).futures[s.fresh]? = some g := by
    simp [State.alloc, State.fresh]
  constructor
  case answered =>
    intro n hn _
    by_cases hcb : ∃ id, g.callback = .sendHandlerResult id n
    · obtain ⟨id, hcb⟩ := hcb
      exact Or.inr ⟨s.fresh, g, id, hnew, hcb, hc⟩
    · rcases h.answered n hn fun id hid => hcb ⟨id, hid⟩ with ha | ⟨i, f, id, hf, hrest⟩
      · exact Or.inl ha
      · exact Or.inr ⟨i, f, id, Discipline.getElem?_alloc_of_some hf, hrest⟩
  case sync =>
    intro i f hf hsync hw hfc
    rcases State.getElem?_alloc hf with hold | ⟨-, rfl⟩
    · exact h.sync i f hold hsync (Callback.awaited_antitone hle hw) hfc
    · exact hact (Or.inl hsync)
  case generator =>
    intro i f hf hgen hw hfc _
    rcases State.getElem?_alloc hf with hold | ⟨-, rfl⟩
    · have hw' := Callback.awaited_antitone hle hw
      by_cases hcb : ∃ up, g.callback = .runGenerator i up
      · obtain ⟨up, hcb⟩ := hcb
        exact Or.inr ⟨s.fresh, g, up, hnew, hcb, hc⟩
      · rcases h.generator i f hold hgen hw' hfc fun up hup => hcb ⟨up, hup⟩ with
          ha | ⟨j, f', up, hf', hrest⟩
        · exact Or.inl ha
        · exact Or.inr ⟨j, f', up, Discipline.getElem?_alloc_of_some hf', hrest⟩
    · exact Or.inl (hact (Or.inr hgen))
  case settled =>
    intro i f hf hco hth hopen
    rcases State.getElem?_alloc hf with hf | ⟨-, rfl⟩
    · exact h.settled i f hf hco hth hopen
    · rw [Future.isOpen, hpend] at hopen
      cases hopen

/-- The future of a sync handler or a generator that is no longer pending has been reported. -/
theorem called_of_done (h : ProgressBut s cb) (hd : Discipline s) {r : Ref} {f : Future}
    (hf : s.futures[r]? = some f) (hk : f.handler = some .sync ∨ f.handler = some .generator)
    (hpend : f.isPending = false) : f.called = true := by
  have hth : f.handler ≠ some .thread := by
    rcases hk with hk | hk <;> rw [hk] <;> simp
  have hco : f.handler ≠ some .coroutine := by
    rcases hk with hk | hk <;> rw [hk] <;> simp
  refine h.settled r f hf hco hth ?_
  cases hopen : f.isOpen with
  | false => rfl
  | true => exact absurd (hd.running r f hf hopen hpend) hth

theorem isOpen_of_not_called (h : ProgressBut s cb) {r : Ref} {f : Future}
    (hf : s.futures[r]? = some f) (hk : f.handler = some .sync ∨ f.handler = some .generator)
    (hc : f.called = false) : f.isOpen = true := by
  cases hopen : f.isOpen with
  | true => rfl
  | false =>
    rw [h.settled r f hf ?_ ?_ hopen] at hc
    · cases hc
    · rcases hk with hk | hk <;> rw [hk] <;> simp
    · rcases hk with hk | hk <;> rw [hk] <;> simp

theorem owner_done {r : Ref} {up : Callback} (h : ProgressBut s (.runGenerator r up)) {f : Future}
    (hf : s.futures[r]? = some f)
    (hc : f.called = true) : Progress s := by
  refine h.discharge ?_ ?_
  · intro id n heq
    cases heq
  · intro r' up' f' heq hf' _ hc'
    cases heq
    rw [hf] at hf'
    cases hf'
    rw [hc] at hc'
    cases hc'

/-- Nobody waits for what the callback is called with. -/
theorem abandon (h : ProgressBut s cb) (hd : Discipline s) {i : Ref} {g : Future}
    (hg : s.futures[i]? = some g) (hcb : g.callback = cb) (hnot : cb.awaited s.futures = false) :
    Progress s := by
  refine h.discharge ?_ ?_
  · intro id n heq
    subst heq
    cases hnot
  · intro r up f heq hf hw hc
    subst heq
    obtain ⟨f', hf', hup, hgen, -⟩ := hd.parent_waits hg hcb
    rw [hf] at hf'
    cases hf'
    subst hup
    rw [Callback.awaited_of_isOpen hw hf (h.isOpen_of_not_called hf (Or.inr hgen) hc)] at hnot
    cases hnot

theorem request_answered {id : MsgId} {n : Nat} (h : ProgressBut s (.sendHandlerResult id n))
    (ha : Answered s n) : Progress s := by
  refine h.discharge ?_ ?_
  · intro id' n' heq
    cases heq
    exact ha
  · intro r up f heq
    cases heq

theorem of_notification (h : ProgressBut s .checkHandlerResult) : Progress s := by
  refine h.discharge ?_ ?_
  · intro id n heq
    cases heq
  · intro r up f heq
    cases heq

end ProgressBut

/-- What is known when a callback is called. -/
structure Calling (env : Env T) (s : State T) (cb : Callback) (c : Completion) : Prop where
  discipline : Discipline s
  ready : Ready s cb c
  progress : ProgressBut s cb
  deliverable : Deliverable env s cb c

/-- What is known where `_execute_handler` raises. -/
structure Raising (env : Env T) (s : State T) (cb : Callback) (x : PyExc) : Prop where
  discipline : Discipline s
  caller : Caller s cb
  progress : ProgressBut s cb
  request : ∀ id n, cb = .sendHandlerResult id n →
    Json.toJson (x.toResponseError env.traceback).data ≠ none
  generator : ∀ r up f, cb = .runGenerator r up → s.futures[r]? = some f → f.isOpen = true →
    Deliverable env s up (.finished x.outcome)

section Run

variable {env : Env T} {s s' : State T}

theorem heapLe_leave (s : State T) (r : Ref) : HeapLe s.futures (s.leave r).futures :=
  heapLe_modify fun _ _ => ⟨rfl, fun _ => rfl⟩

theorem heapLe_settle {r : Ref} {f : Future} {st : FutureState} (hf : s.futures[r]? = some f)
    (hopen : f.isOpen = true) :
    HeapLe s.futures (s.modify r (Future.settle st)).futures := by
  refine heapLe_modify fun f' hf' => ⟨rfl, fun hclosed => ?_⟩
  rw [hf] at hf'
  cases hf'
  rw [hopen] at hclosed
  cases hclosed

/-- The generator's future gets its outcome, and its own callback is next. -/
theorem calling_of_setOutcome (hd : Discipline s) {r : Ref} {f : Future} {up : Callback}
    {o : Outcome} (hp : ProgressBut s (.runGenerator r up)) (hf : s.futures[r]? = some f)
    (hwait : f.active ≠ none → f.resumed = true) (hdel : Deliverable env s f.callback (.finished o))
    (hs : s.setOutcome r o = some s') : Calling env s' f.callback (.finished o) := by
  obtain ⟨hd', hready⟩ := hd.setOutcome hf hwait hs
  obtain ⟨f', hf', hpend, rfl⟩ := setOutcome_eq_some hs
  rw [hf] at hf'
  cases hf'
  have hopen := isOpen_of_isPending hpend
  refine ⟨hd', hready, hp.call hf rfl rfl ?_ ?_ ?_, hdel.mono (heapLe_settle hf hopen) rfl⟩
  · intro hclosed
    rw [hopen] at hclosed
    cases hclosed
  · intro id n heq
    cases heq
  · intro p up' heq
    cases heq
    rfl

variable (hacc : ∀ k, env.write k = .accepted)

include hacc in
theorem runCallback_progress {cb : Callback} {c : Completion} (th : Thread)
    (h : Calling env s cb c) : Progress (State.runCallback env th cb c s) := by
  refine runCallback_ind (R := Calling env) ?_ ?_ ?_ ?_ ?_ ?_ ?_ ?_ cb c s h
  · intro s id n c h
    have hs := State.sendHandlerResult_sends env s id n c
    exact (h.progress.sends hs).request_answered
      (sendHandlerResult_answers hacc s id n h.deliverable)
  · intro s c h
    exact h.progress.of_notification
  · intro s c h
    exact h.progress
  · intro s r up c h hcancel
    obtain ⟨i, f, hf, hcb, -⟩ := h.ready
    obtain ⟨g, hg, -, hgen, -⟩ := h.discipline.parent_waits hf hcb
    refine h.progress.owner_done hg (h.progress.called_of_done h.discipline hg (Or.inr hgen) ?_)
    unfold State.cancelled at hcancel
    rw [hg] at hcancel
    simp only [Option.any_some, Future.isCancelled] at hcancel
    unfold Future.isPending
    split at hcancel
    · rename_i hst
      rw [hst]
    · cases hcancel
  · intro s r up c h _ hnone
    obtain ⟨i, f, hf, hcb, -⟩ := h.ready
    refine h.progress.abandon h.discipline hf hcb ?_
    cases hw : (Callback.runGenerator r up).awaited s.futures with
    | false => rfl
    | true =>
      have hlost := h.deliverable hw
      simp only [hnone] at hlost
  · intro s r up c v h _ _
    have hp : ProgressBut (s.resume r th v) (.runGenerator r up) := by
      refine h.progress.modify (fun _ _ => rfl) (fun _ _ => rfl) (fun _ _ => rfl)
        (fun _ _ _ => rfl) ?_ (fun _ _ _ _ ho => ho)
      intro f _ _ _ _ _
      simp
    refine hp.discharge ?_ ?_
    · intro id n heq
      cases heq
    · intro r' up' f' heq hf' _ _
      cases heq
      obtain ⟨f, hf, ⟨-, rfl⟩ | ⟨hne, -⟩⟩ := modify_cases hf'
      · simp
      · exact absurd rfl hne
  · intro s r up c x h _ _ hnone
    obtain ⟨i, f, hf, hcb, -⟩ := h.ready
    obtain ⟨g, hg, -, hgen, -⟩ := h.discipline.parent_waits hf hcb
    exact h.progress.owner_done hg
      (h.progress.called_of_done h.discipline hg (Or.inr hgen) (setOutcome_eq_none hnone hg))
  · intro s s' r up c x h hlive hx hs
    obtain ⟨i, f, hf, hcb, -⟩ := h.ready
    obtain ⟨g, hg, hup, -, hwait⟩ := h.discipline.parent_waits hf hcb
    subst hup
    refine calling_of_setOutcome h.discipline h.progress hg hwait ?_ hs
    cases hw : g.callback.awaited s.futures with
    | false => exact deliverable_of_not_awaited hw _
    | true =>
      obtain ⟨g', hg', hpend, -⟩ := setOutcome_eq_some hs
      rw [hg] at hg'
      cases hg'
      have hdel := h.deliverable (Callback.awaited_of_isOpen hw hg (isOpen_of_isPending hpend))
      simp only [hx] at hdel
      exact hdel

include hacc in
theorem executeRaised_progress {cb : Callback} {x : PyExc} (th : Thread)
    (h : Raising env s cb x) : Progress (State.executeRaised env th cb x s) := by
  refine executeRaised_ind (R := Calling env) (P := Raising env) ?_ ?_ ?_ ?_ ?_ ?_ ?_ cb x s h
  · intro cb c s h
    exact runCallback_progress hacc th h
  · intro s id n x h
    have hs := State.sendException_sends env s n id x
    exact (h.progress.sends hs).request_answered
      (sendException_answers hacc s n id x (h.request id n rfl))
  · intro s x h
    exact h.progress.of_notification
  · intro s x h
    exact h.progress
  · intro s s' r up x h hs
    obtain ⟨f, hf, hup, -, hwait, -⟩ := h.caller
    subst hup
    obtain ⟨f', hf', hpend, -⟩ := setOutcome_eq_some hs
    rw [hf] at hf'
    cases hf'
    exact calling_of_setOutcome h.discipline h.progress hf hwait
      (h.generator r _ f rfl hf (isOpen_of_isPending hpend)) hs
  · intro s r up x h hnone _
    obtain ⟨f, hf, -, hgen, -⟩ := h.caller
    exact h.progress.owner_done hf
      (h.progress.called_of_done h.discipline hf (Or.inr hgen) (setOutcome_eq_none hnone hf))
  · intro s r up x h hnone hres
    obtain ⟨f, hf, -, hgen, -⟩ := h.caller
    have hp := h.progress.owner_done hf
      (h.progress.called_of_done h.discipline hf (Or.inr hgen) (setOutcome_eq_none hnone hf))
    have hplain : ∀ cb, Deliverable env s cb (.finished (.raised .invalidStateError)) :=
      deliverable_plain (fun y hy => nomatch hy) rfl
    refine ⟨h.discipline, (h.discipline.climb h.caller hnone hres).1, .weaken hp up, ?_, ?_⟩
    · intro id n _
      exact hplain (.sendHandlerResult id n)
    · intro r' up' f' _ _ _
      exact hplain up'

theorem raising_plain (hd : Discipline s) {cb : Callback} (hc : Caller s cb) (hp : ProgressBut s cb)
    {x : PyExc} (hj : ∀ y, x ≠ .jsonRpc y) (hstop : x.outcome = .raised x) : Raising env s cb x := by
  have hplain : ∀ cb, Deliverable env s cb (.finished (.raised x)) := deliverable_plain hj hstop
  refine ⟨hd, hc, hp, ?_, ?_⟩
  · intro id n _
    exact hplain (.sendHandlerResult id n)
  · intro r up f _ _ _
    rw [hstop]
    exact hplain up

include hacc in
theorem executeHandler_progress {th : Thread} (id : MsgId) (kind : HandlerKind) {cb : Callback}
    {start : Start} (hd : Discipline s) (hc : Caller s cb) (hp : ProgressBut s cb)
    (hstart : ∀ x, start = some x → kind.scheduled = true → Raising env s cb x) :
    Progress (State.executeHandler env th id kind cb start s) := by
  have idle : ∀ kind, kind = .coroutine ∨ kind = .thread →
      Progress (s.alloc (.pending (some kind) cb)) := by
    intro kind hk
    refine ProgressBut.alloc hp rfl rfl ?_
    rintro (hs | hs) <;> rcases hk with rfl | rfl <;> cases hs
  have running : ∀ kind,
      Progress (s.alloc { Future.pending (some kind) cb with active := some th }) := by
    intro kind
    refine ProgressBut.alloc hp rfl rfl ?_
    intro _
    simp
  have registered : ∀ {t : State T} (r : Ref), Progress t → Progress (t.register id r) := by
    intro t r h
    exact h.congr rfl rfl fun _ ha => ha
  cases kind with
  | coroutine =>
    cases start with
    | some x => exact executeRaised_progress hacc th (hstart x rfl rfl)
    | none =>
      cases th with
      | main => exact registered _ (idle _ (Or.inl rfl))
      | worker =>
        exact executeRaised_progress hacc .worker
          (raising_plain hd hc hp (fun y hy => nomatch hy) rfl)
  | thread =>
    cases start with
    | some x => exact executeRaised_progress hacc th (hstart x rfl rfl)
    | none => exact registered _ (idle _ (Or.inr rfl))
  | generator => exact registered _ (running _)
  | sync => exact running _

theorem deliverable_cancelled (cb : Callback) : Deliverable env s cb .cancelled := by
  cases cb with
  | sendHandlerResult id n => trivial
  | checkHandlerResult => trivial
  | client => trivial
  | runGenerator r up =>
    intro _
    exact deliverable_plain (x := .cancelledError) (fun y hy => nomatch hy) rfl up

include hacc in
/-- Completing a future from outside its handler. -/
theorem complete_progress (th : Thread) (hd : Discipline s) (hp : Progress s) {r : Ref} {f : Future}
    (hf : s.futures[r]? = some f) (hact : f.active ≠ some .main) (hopen : f.isOpen = true)
    {st : FutureState} {c : Completion} (hc : (f.settle st).completion = some c)
    (hst : (f.settle st).isOpen = false)
    (hdel : Deliverable env (s.modify r (Future.settle st)) f.callback c) :
    Progress (State.runCallback env th f.callback c (s.modify r (Future.settle st))) := by
  refine runCallback_progress hacc th ⟨?_, ?_, ?_, hdel⟩
  · exact hd.settle hf (fun hmain => absurd hmain hact) hst
  · refine ⟨r, _, State.getElem?_modify_self hf, rfl, rfl, hc, ?_⟩
    intro id n hcb
    exact hd.unanswered hf hcb (hd.not_called hf hopen)
  · refine hp.call hf rfl rfl ?_ ?_ ?_
    · intro hclosed
      rw [hopen] at hclosed
      cases hclosed
    · intro id n heq
      cases heq
    · intro p up heq
      cases heq

include hacc in
theorem cancel_progress (th : Thread) (hd : Discipline s) (hp : Progress s) {r : Ref}
    (hact : ∀ f, s.futures[r]? = some f → f.active ≠ some .main) :
    Progress (State.cancel env th s r) := by
  unfold State.cancel
  split
  · exact hp
  · rename_i f hf
    split
    · split
      · exact hp.modify (fun _ _ => rfl) (fun _ _ => rfl) (fun _ _ => rfl) (fun _ _ _ => rfl)
          (fun _ _ _ _ ha _ => ha) (fun _ _ _ _ ho => ho)
      · exact hp
    · rename_i htask
      split
      · rename_i hpend
        refine complete_progress hacc th hd hp hf (hact f hf) (isOpen_of_isPending hpend) ?_ rfl
          (deliverable_cancelled _)
        have hne : f.handler ≠ some .coroutine := by simpa [Future.isTask] using htask
        simp [Future.completion, Future.settle, hne]
      · exact hp

include hacc in
theorem handleResponse_progress (hd : Discipline s) (hp : Progress s) (hidle : s.mainIdle = true)
    (id : MsgId) (o : Outcome)
    (hdel : ∀ (r : Ref) (f : Future), s.requestFutures.get? id = some r → s.futures[r]? = some f →
      f.isTask = false → f.isOpen = true → Deliverable env s f.callback (.finished o)) :
    Progress (s.handleResponse env id o) := by
  have hpop : Progress (s.popFuture id) := hp.congr rfl rfl fun _ ha => ha
  have hdpop : Discipline (s.popFuture id) := hd.congr rfl rfl rfl
  simp only [State.handleResponse]
  split
  · exact hp
  · rename_i r hr
    split
    · exact hpop
    · rename_i f hf
      split
      · exact hpop
      · rename_i htask
        split
        · rename_i hopen
          have hdel' := hdel r f hr hf (eq_false_of_ne_true htask) hopen
          exact complete_progress hacc .main hdpop hpop hf (Discipline.notMain hidle hf) hopen rfl rfl
            (hdel'.mono (heapLe_settle (s := s) hf hopen) rfl)
        · exact hpop

end Run

/-- The step loses no answer that depends on it: what a handler that ends in it hands on can
be encoded, and a task that a generator waits for is not reported as cancelled. -/
def Delivers (env : Env T) (s : State T) : Event → Prop
  | .request q start => s.refuses q.method = false → ∀ (x : PyExc) (kind : HandlerKind),
      start = some x → env.fm.getHandler q.method = some kind → kind.scheduled = true →
      Json.toJson (x.toResponseError env.traceback).data ≠ none
  | .genYield r _ kind start => ∀ (x : PyExc) (f : Future), start = some x →
      kind.scheduled = true → s.futures[r]? = some f → f.isOpen = true →
      Deliverable env s f.callback (.finished x.outcome)
  | .syncEnd r o => ∀ f, s.futures[r]? = some f → f.isOpen = true →
      Deliverable env s f.callback (.finished o)
  | .genEnd r o => ∀ f, s.futures[r]? = some f → f.isOpen = true →
      Deliverable env s f.callback (.finished o)
  | .deliver r _ => ∀ (f : Future) (c : Completion), s.futures[r]? = some f →
      f.completion = some c → Deliverable env s f.callback c
  | .response id result => s.shutdown = false → ∀ (r : Ref) (f : Future) (v : PyValue),
      s.requestFutures.get? id = some r → s.futures[r]? = some f → f.isTask = false →
      f.isOpen = true → env.structureResult (s.resultTypes.get? id).join result = some v →
      Deliverable env (s.popType id) f.callback (.finished (.returned v))
  | .errorResponse id error => s.shutdown = false → ∀ (r : Ref) (f : Future),
      s.requestFutures.get? id = some r → s.futures[r]? = some f → f.isTask = false →
      f.isOpen = true → Deliverable env s f.callback
        (.finished (error.elim (.returned .none) fun e => .raised (.jsonRpc (.fromError e))))
  | _ => True

section Step

variable {env : Env T} {s s' : State T} (hacc : ∀ k, env.write k = .accepted)

include hacc

theorem handleRequest_progress (hd : Discipline s) (hp : Progress s) (q : Request) (start : Start)
    (hstart : ∀ (x : PyExc) (kind : HandlerKind), start = some x →
      env.fm.getHandler q.method = some kind → kind.scheduled = true →
      Json.toJson (x.toResponseError env.traceback).data ≠ none) :
    Progress (s.handleRequest env q start) := by
  have hd' := hd.receive (q, start)
  obtain ⟨hu, hn⟩ := hd.received_new q start
  have hp' : ProgressBut { s with received := s.received ++ [(q, start)] }
      (.sendHandlerResult q.id s.received.length) := by
    refine { ProgressBut.weaken hp (.sendHandlerResult q.id s.received.length) with answered := ?_ }
    intro n hlt hne
    have hne' : n ≠ s.received.length := fun heq => hne q.id (heq ▸ rfl)
    refine hp.answered n ?_ (by simp)
    simp only [List.length_append, List.length_cons, List.length_nil] at hlt
    omega
  unfold State.handleRequest
  split
  · have hs := State.sendException_sends env { s with received := s.received ++ [(q, start)] }
      s.received.length q.id (.jsonRpc (methodNotFound q.method))
    exact (hp'.sends hs).request_answered
      (sendException_answers hacc _ _ _ _ (fun hnone => nomatch hnone))
  · rename_i kind hkind
    refine executeHandler_progress hacc q.id kind hd' hu hp' ?_
    intro x hx hsched
    refine ⟨hd', hu, hp', fun _ _ _ => hstart x kind hx hkind hsched, ?_⟩
    intro r up f hcb
    cases hcb

theorem syncEnd_progress (hd : Discipline s) (hp : Progress s) {r : Ref} {f : Future} {th : Thread}
    {o : Outcome} (hf : s.futures[r]? = some f) (hk : f.handler = some .sync)
    (hact : f.active = some th)
    (hdel : f.isOpen = true → Deliverable env s f.callback (.finished o)) :
    Progress (State.syncEnd env s r f.callback th o) := by
  have hf' := State.getElem?_modify_self (g := fun f => { f with active := none }) hf
  have hl := hd.leave r
  unfold State.syncEnd
  split
  · rename_i s' hs
    obtain ⟨hd', hready⟩ := hl.setOutcome hf' (fun hact' => absurd rfl hact') hs
    obtain ⟨g, hg, hpend, rfl⟩ := setOutcome_eq_some hs
    rw [show (s.leave r).futures[r]? = _ from hf'] at hg
    cases hg
    have hboth : (s.leave r).modify r (Future.settle (.finished o)) =
        s.modify r (Future.settle (.finished o) ∘ fun f => { f with active := none }) := by
      simp only [State.leave, State.modify, List.modify_modify_eq]
    have hopen : f.isOpen = true := isOpen_of_isPending (f := { f with active := none }) hpend
    refine runCallback_progress hacc th ⟨hd', hready, ?_, ?_⟩
    · rw [hboth]
      refine hp.call hf rfl rfl ?_ ?_ ?_
      · intro hclosed
        rw [hopen] at hclosed
        cases hclosed
      · intro id n heq
        cases heq
      · intro p up heq
        cases heq
    · exact ((hdel hopen).mono (heapLe_leave s r) rfl).mono
        (heapLe_settle (s := s.leave r) hf' hopen) rfl
  · rename_i hnone
    obtain ⟨hcaller, -⟩ := hd.sync_caller hf hk hact hnone
    have hdone := setOutcome_eq_none hnone hf'
    have hcalled : f.called = true := hp.called_of_done hd hf (Or.inl hk) hdone
    have hpl : Progress (s.leave r) := by
      refine hp.modify (fun _ _ => rfl) (fun _ _ => rfl) (fun _ _ => rfl) (fun _ _ _ => rfl) ?_
        (fun _ _ _ _ ho => ho)
      intro g hg _ hgc
      rw [hf] at hg
      cases hg
      rw [hcalled] at hgc
      cases hgc
    refine executeRaised_progress hacc th (raising_plain hl hcaller (.weaken hpl _) ?_ rfl)
    intro y hy
    cases hy

omit hacc in
/-- The generator whose segment ends is exempt until its future is settled or it yields. -/
theorem leave_progress (hp : Progress s) {r : Ref} {f : Future} (hf : s.futures[r]? = some f)
    (hk : f.handler = some .generator) (up : Callback) :
    ProgressBut (s.leave r) (.runGenerator r up) := by
  refine (ProgressBut.weaken hp (.runGenerator r up)).modify (fun _ _ => rfl) (fun _ _ => rfl)
    (fun _ _ => rfl) (fun _ _ _ => rfl) ?_ (fun _ _ _ _ ho => ho)
  intro g hg _ _ _ hcase
  rw [hf] at hg
  cases hg
  rcases hcase with hsync | ⟨-, hne⟩
  · rw [hk] at hsync
    cases hsync
  · exact absurd rfl (hne up)

theorem step_progress {e : Event} (hd : Discipline s) (hp : Progress s) (hok : Delivers env s e)
    (hs : step env s e = some s') : Progress s' := by
  cases step_cases hs with
  | ignored hdown => exact hp
  | request hidle hup => exact handleRequest_progress hacc hd hp _ _ (hok hup)
  | notification hidle hup =>
    unfold State.handleNotification
    split
    · exact hp
    · refine executeHandler_progress hacc _ _ hd trivial (.weaken hp _) ?_
      intro x hx _
      refine ⟨hd, trivial, .weaken hp _, ?_, ?_⟩
      · intro id n heq
        cases heq
      · intro r up f heq
        cases heq
  | @cancelRequest id hidle hup =>
    unfold State.handleCancelNotification
    split
    · exact hp
    · have hpop : Progress (s.popFuture id) := hp.congr rfl rfl fun _ ha => ha
      have hdpop : Discipline (s.popFuture id) := hd.congr rfl rfl rfl
      exact cancel_progress hacc .main hdpop hpop fun f hf => Discipline.notMain hidle hf
  | @response id result hidle =>
    have hpop : Progress (s.popType id) := hp.congr rfl rfl fun _ ha => ha
    have hdpop : Discipline (s.popType id) := hd.congr rfl rfl rfl
    simp only [State.receiveResult]
    split
    · exact hpop
    · rename_i v hv
      split
      · exact hpop
      · rename_i hdown
        exact handleResponse_progress hacc hdpop hpop hidle id _ fun r f hr hf htask hopen =>
          hok (eq_false_of_ne_true hdown) r f v hr hf htask hopen hv
  | @errorResponse id error hidle =>
    unfold State.receiveError
    split
    · exact hp
    · rename_i hdown
      have hdel := hok (eq_false_of_ne_true hdown)
      cases error with
      | none => exact handleResponse_progress hacc hd hp hidle id _ hdel
      | some e => exact handleResponse_progress hacc hd hp hidle id _ hdel
  | @sendRequest id method params =>
    have h' : Progress (s.alloc (.pending none .client)) :=
      ProgressBut.alloc hp rfl rfl (fun h => by rcases h with h | h <;> cases h)
    refine h'.congr ?_ ?_ ?_
    · exact State.sendRequest_futures env s id method params
    · exact State.sendRequest_received env s id method params
    · rintro n ⟨k, a, hm⟩
      exact ⟨k, a, State.mem_sent_sendRequest.mpr hm⟩
  | @cancelOutgoing r f hf hnone =>
    refine cancel_progress hacc .main hd hp fun f' hf' hact => ?_
    rw [hf] at hf'
    cases hf'
    rcases hd.active r f .main hf hact with hk | hk | ⟨hk, -⟩ <;> rw [hnone] at hk <;> cases hk
  | syncEnd hf hk hact => exact syncEnd_progress hacc hd hp hf hk hact (hok _ hf)
  | @genYield r f th uuid kind start hf hk hact =>
    obtain ⟨hc, -⟩ := hd.caller_of_active hf hk hact
    have hpl := leave_progress hp hf hk f.callback
    refine executeHandler_progress hacc _ _ (hd.leave r) hc hpl ?_
    intro x hx hsched
    refine ⟨hd.leave r, hc, hpl, ?_, ?_⟩
    · intro id n heq
      cases heq
    · intro r' up g heq hg hopen
      cases heq
      rw [State.getElem?_leave hf] at hg
      cases hg
      exact (hok x f hx hsched hf hopen).mono (heapLe_leave s r) rfl
  | @genEnd r f th o hf hk hact hstop =>
    obtain ⟨hc, -⟩ := hd.caller_of_active hf hk hact
    refine executeRaised_progress hacc th
      ⟨hd.leave r, hc, leave_progress hp hf hk f.callback, ?_, ?_⟩
    · intro id n heq
      cases heq
    · intro r' up g heq hg hopen
      cases heq
      rw [State.getElem?_leave hf] at hg
      cases hg
      rw [outcome_sendExc hstop]
      exact (hok f hf hopen).mono (heapLe_leave s r) rfl
  | @taskEnd r f o hidle hstop hf hk hpend =>
    refine hp.modify (fun _ _ => rfl) (fun _ _ => rfl) (fun _ _ => rfl) ?_
      (fun _ _ _ _ ha _ => ha) ?_
    · intro g hg hclosed
      rw [hf] at hg
      cases hg
      rw [isOpen_of_isPending hpend] at hclosed
      cases hclosed
    · intro g hg hco
      rw [hf] at hg
      cases hg
      exact absurd hk hco
  | @poolStart r f hf hk hpend =>
    refine hp.modify (fun _ _ => rfl) (fun _ _ => rfl) (fun _ _ => rfl) ?_
      (fun _ _ _ _ _ _ => by simp) ?_
    · intro g hg hclosed
      rw [hf] at hg
      cases hg
      rw [isOpen_of_isPending hpend] at hclosed
      cases hclosed
    · intro g hg _ hth
      rw [hf] at hg
      cases hg
      exact absurd hk hth
  | @poolEnd r f th o hf hk hact =>
    refine hp.modify (fun _ _ => rfl) (fun _ _ => rfl) (fun _ _ => rfl) ?_ ?_ ?_
    · intro g _ hclosed
      simp only [hclosed, Bool.false_eq_true, if_false]
    · intro g hg _ _ _ hcase
      rw [hf] at hg
      cases hg
      rcases hcase with hsync | ⟨hgen, -⟩
      · rw [hk] at hsync
        cases hsync
      · rw [hk] at hgen
        cases hgen
    · intro g hg _ hth
      rw [hf] at hg
      cases hg
      exact absurd hk hth
  | @deliver r f th c hf hk hcalled hc hidle =>
    obtain ⟨hd', hready⟩ := hd.called hf hcalled hc
    refine runCallback_progress hacc th ⟨hd', hready, ?_, ?_⟩
    · refine hp.call hf rfl rfl (fun _ => rfl) ?_ ?_
      · intro id n heq
        cases heq
      · intro p up heq
        cases heq
    · exact (hok f c hf hc).mono (heapLe_modify fun _ _ => ⟨rfl, fun _ => rfl⟩) rfl

end Step

theorem Progress.init : Progress (State.init : State T) := by
  constructor
  case answered =>
    intro n hn
    exact absurd hn (Nat.not_lt_zero n)
  case sync =>
    intro r f hf
    simp [State.init] at hf
  case generator =>
    intro r f hf
    simp [State.init] at hf
  case settled =>
    intro r f hf
    simp [State.init] at hf

/-- A handler that has not been reported leads, through what it has yielded to, to one that
is at work. -/
theorem atWork_of_not_called {s : State T} (hd : Discipline s) (hp : Progress s) {r : Ref}
    {f : Future} (hf : s.futures[r]? = some f) (hw : f.callback.awaited s.futures = true)
    (hc : f.called = false) :
    ∃ (i : Ref) (g : Future), s.futures[i]? = some g ∧ g.callback.request = f.callback.request ∧
      g.AtWork := by
  -- a yielded handler's future is newer than its generator's
  induction hn : s.futures.length - r using Nat.strongRecOn generalizing r f with
  | _ k ih =>
    cases hkind : f.handler with
    | none =>
      rw [hd.outgoing r f hf hkind] at hw
      cases hw
    | some kind =>
      cases kind with
      | coroutine => exact ⟨r, f, hf, rfl, Or.inr ⟨Or.inl hkind, hc⟩⟩
      | thread => exact ⟨r, f, hf, rfl, Or.inr ⟨Or.inr hkind, hc⟩⟩
      | sync => exact ⟨r, f, hf, rfl, Or.inl (hp.sync r f hf hkind hw hc)⟩
      | generator =>
        rcases hp.generator r f hf hkind hw hc (by simp) with ha | ⟨i, g, up, hg, hcb, hgc⟩
        · exact ⟨r, f, hf, rfl, Or.inl ha⟩
        · obtain ⟨hlt, f', hf', hup, -⟩ := hd.parent i g r up hg hcb
          rw [hf] at hf'
          cases hf'
          subst hup
          obtain ⟨hi, -⟩ := List.getElem?_eq_some_iff.mp hg
          have hopen := hp.isOpen_of_not_called hf (Or.inr hkind) hc
          have hgw : g.callback.awaited s.futures = true := by
            rw [hcb]
            exact Callback.awaited_of_isOpen hw hf hopen
          have hcloser : s.futures.length - i < k := hn ▸ Nat.sub_lt_sub_left (Nat.lt_trans hlt hi) hlt
          obtain ⟨j, g', hg', hreq, hwork⟩ := ih (s.futures.length - i) hcloser hg hgw hgc rfl
          refine ⟨j, g', hg', ?_, hwork⟩
          rw [hreq, hcb]
          rfl

end Pygls
