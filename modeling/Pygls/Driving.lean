import Mathlib.Data.Set.Operations
import Mathlib.Logic.Relation
import Mathlib.Order.Nat
import Mathlib.Order.WellFounded
import Pygls.Generators
import Pygls.Progress
import Pygls.Lib.Generator

/-!
# Driving a generator

`_execute_handler` and `_run_generator` call each other through done-callbacks that fire at
once, later on the loop, or on a worker. `Drive` is where one generator handler is in this:
the handler whose turn it is, and the generators that wait for it. The values sent back are
those of the protocol's futures; a program says only what is done with them.
-/

namespace Pygls.Driving

set_option autoImplicit false

variable {T : Type} {H A : Type}

/-- How a handler that is no generator is executed. -/
inductive Mode where
  | coroutine
  | thread
  | sync
deriving DecidableEq

def Mode.kind : Mode → HandlerKind
  | .coroutine => .coroutine
  | .thread => .thread
  | .sync => .sync

abbrev Program (H A : Type) := Lib.Gen H Mode A PyValue

/-- A generator between two of its segments. -/
abbrev Suspended (H A : Type) := PyValue → Program H A

abbrev Act (H A : Type) := Lib.Act H A PyValue

/-- The handler whose turn it is: a generator that has been sent a value, another handler
that has been called, or one that has returned and is still to be reported. -/
inductive Code (H A : Type) where
  | send (rest : Suspended H A)
  | function (mode : Mode)
  | ended

inductive Drive (H A : Type) where
  | busy (leaf : Ref) (code : Code H A) (frames : List (Ref × Suspended H A))
  | done (value : PyValue)

/-- `acts` is what has been called and what has been returned so far. -/
structure Driven (H A : Type) where
  drive : Drive H A
  acts : List (Act H A)

namespace Drive

/-- The innermost call has returned. -/
def back : List (Ref × Suspended H A) → PyValue → Drive H A
  | [], v => .done v
  | (p, rest) :: frames, _ => .busy p (.send rest) frames

def refs : Drive H A → List Ref
  | .busy leaf _ frames => leaf :: frames.map Prod.fst
  | .done _ => []

end Drive

/-- The value that the generator of `r` was sent last. -/
def sentTo (s : State T) (r : Ref) : PyValue := (s.futures[r]?.map Future.value).getD .none

/-- The result of the future of `r`. -/
def resultOf (s : State T) (r : Ref) : PyValue :=
  match s.futures[r]?.map Future.state with
  | some (.finished (.returned v)) => v
  | _ => .none

/-- What the protocol does, as a state of the machine that runs generators. -/
def Drive.config (s : State T) : Drive H A → Lib.Gen.Config H Mode A PyValue
  | .busy leaf (.send rest) frames => .running (rest (sentTo s leaf)) (frames.map Prod.snd)
  | .busy _ (.function _) frames => .waiting (frames.map Prod.snd)
  | .busy leaf .ended frames => .returning (resultOf s leaf) (frames.map Prod.snd)
  | .done v => .returning v []

/-- The future that the event is about. -/
def Touches (s : State T) (r : Ref) : Event → Prop
  | .request _ _ => False
  | .notification _ _ _ => False
  | .cancelRequest id => s.requestFutures.get? id = some r
  | .response id _ => s.requestFutures.get? id = some r
  | .errorResponse id _ => s.requestFutures.get? id = some r
  | .sendRequest _ _ _ => False
  | .cancelOutgoing i => i = r
  | .syncEnd i _ => i = r
  | .genYield i _ _ _ => i = r
  | .genEnd i _ => i = r
  | .taskEnd i _ => i = r
  | .poolStart i => i = r
  | .poolEnd i _ => i = r
  | .deliver i _ => i = r

/-- What the handler whose turn it is does: a generator follows its program, other handlers
return. -/
inductive Acts (s : State T) : Driven H A → Event → Driven H A → Prop where
  | yield {leaf : Ref} {rest next : Suspended H A} {frames : List (Ref × Suspended H A)}
      {acts : List (Act H A)} {handler : H} {m : Mode} {args : A} {uuid : Str} :
      rest (sentTo s leaf) = .yield handler m args next →
      Acts s ⟨.busy leaf (.send rest) frames, acts⟩ (.genYield leaf uuid m.kind none)
        ⟨.busy s.fresh (.function m) ((leaf, next) :: frames), acts ++ [.called handler args]⟩
  | yieldGen {leaf : Ref} {rest next : Suspended H A} {frames : List (Ref × Suspended H A)}
      {acts : List (Act H A)} {handler : H} {args : A} {body : Program H A} {uuid : Str} :
      rest (sentTo s leaf) = .yieldGen handler args body next →
      Acts s ⟨.busy leaf (.send rest) frames, acts⟩ (.genYield leaf uuid .generator none)
        ⟨.busy s.fresh (.send fun _ => body) ((leaf, next) :: frames),
          acts ++ [.called handler args]⟩
  | ret {leaf : Ref} {rest : Suspended H A} {frames : List (Ref × Suspended H A)}
      {acts : List (Act H A)} {v : PyValue} : rest (sentTo s leaf) = .ret v →
      Acts s ⟨.busy leaf (.send rest) frames, acts⟩ (.genEnd leaf (.returned v))
        ⟨.back frames v, acts ++ [.returned v]⟩
  | sync {leaf : Ref} {frames : List (Ref × Suspended H A)} {acts : List (Act H A)} {v : PyValue} :
      Acts s ⟨.busy leaf (.function .sync) frames, acts⟩ (.syncEnd leaf (.returned v))
        ⟨.back frames v, acts ++ [.returned v]⟩
  | task {leaf : Ref} {frames : List (Ref × Suspended H A)} {acts : List (Act H A)} {v : PyValue} :
      Acts s ⟨.busy leaf (.function .coroutine) frames, acts⟩ (.taskEnd leaf (some (.returned v)))
        ⟨.busy leaf .ended frames, acts ++ [.returned v]⟩
  | pool {leaf : Ref} {frames : List (Ref × Suspended H A)} {acts : List (Act H A)} {v : PyValue} :
      Acts s ⟨.busy leaf (.function .thread) frames, acts⟩ (.poolEnd leaf (.returned v))
        ⟨.busy leaf .ended frames, acts ++ [.returned v]⟩
  | deliver {leaf : Ref} {th : Thread} {frames : List (Ref × Suspended H A)}
      {acts : List (Act H A)} :
      Acts s ⟨.busy leaf .ended frames, acts⟩ (.deliver leaf th)
        ⟨.back frames (resultOf s leaf), acts⟩

/-- An event of the protocol, seen from the generator. `elsewhere` is anything that is not
about a future of the drive; a cancellation or a response that hits one is no event here. -/
inductive Follows (s : State T) : Driven H A → Event → Driven H A → Prop where
  | acts {d d' : Driven H A} {e : Event} : Acts s d e d' → Follows s d e d'
  | started {leaf : Ref} {frames : List (Ref × Suspended H A)} {acts : List (Act H A)} :
      Follows s ⟨.busy leaf (.function .thread) frames, acts⟩ (.poolStart leaf)
        ⟨.busy leaf (.function .thread) frames, acts⟩
  | elsewhere {d : Driven H A} {e : Event} : (∀ r ∈ d.drive.refs, ¬Touches s r e) → Follows s d e d

/-- No generator of the drive yields to a coroutine on a worker, which has no event loop. -/
def OnLoop (s : State T) (d : Drive H A) (e : Event) : Prop :=
  ∀ (r : Ref) (uuid : Str) (start : Start) (f : Future), e = .genYield r uuid .coroutine start →
    r ∈ d.refs → s.futures[r]? = some f → f.active ≠ some .worker

/-- The future of the generator of `ρ`, or of a handler that it leads to. -/
def InTree (ρ i : Ref) (f : Future) : Prop := i = ρ ∨ LeadsTo ρ f.callback

/-- The futures of the generator and of the handlers below it are the same. -/
def Untouched (ρ : Ref) (s t : State T) : Prop :=
  ∀ (i : Ref) (f : Future), InTree ρ i f → (t.futures[i]? = some f ↔ s.futures[i]? = some f)

section Untouched

variable {env : Env T} {ρ : Ref} {s t u : State T}

theorem Untouched.trans (h : Untouched ρ s t) (h' : Untouched ρ t u) : Untouched ρ s u :=
  fun i f hin => (h' i f hin).trans (h i f hin)

theorem untouched_of_futures (h : t.futures = s.futures) : Untouched ρ s t := by
  intro i f _
  rw [h]

theorem untouched_of_skeleton (hskel : t.skeleton = s.skeleton)
    (h : ∀ (i : Ref) (f : Future), s.futures[i]? = some f → InTree ρ i f →
      t.futures[i]? = some f) : Untouched ρ s t := by
  intro i f hin
  refine ⟨?_, fun hf => h i f hf hin⟩
  intro hf
  have hi := congrArg (·[i]?) hskel
  simp only [State.getElem?_skeleton] at hi
  rw [hf] at hi
  obtain ⟨g, hg, heq⟩ := Option.map_eq_some_iff.mp hi.symm
  have hin' : InTree ρ i g := by
    refine hin.imp id fun hlead => ?_
    rw [(Prod.mk.inj heq).2]
    exact hlead
  have hgf := h i g hg hin'
  rw [hf] at hgf
  cases hgf
  exact hg

theorem untouched_alloc (hρ : ρ < s.fresh) {g : Future} (hg : ¬LeadsTo ρ g.callback) :
    Untouched ρ s (s.alloc g) := by
  intro i f hin
  refine ⟨?_, Discipline.getElem?_alloc_of_some⟩
  intro hf
  rcases State.getElem?_alloc hf with hf | ⟨rfl, rfl⟩
  · exact hf
  · rcases hin with rfl | hlead
    · exact absurd hρ (Nat.lt_irrefl _)
    · exact absurd hlead hg

theorem untouched_modify {r : Ref} {g : Future → Future} (hk : ∀ f, (g f).handler = f.handler)
    (hcb : ∀ f, (g f).callback = f.callback)
    (hr : ∀ f, s.futures[r]? = some f → InTree ρ r f → g f = f) :
    Untouched ρ s (s.modify r g) := by
  refine untouched_of_skeleton (State.skeleton_modify s r hk hcb) ?_
  intro i f hf hin
  rw [State.getElem?_modify, hf]
  split
  · rename_i hri
    subst hri
    rw [Option.map_some, hr f hf hin]
  · rfl

theorem untouched_foreign {r : Ref} {f : Future} {g : Future → Future}
    (hk : ∀ f, (g f).handler = f.handler) (hcb : ∀ f, (g f).callback = f.callback)
    (hf : s.futures[r]? = some f) (hnot : ¬InTree ρ r f) : Untouched ρ s (s.modify r g) := by
  refine untouched_modify hk hcb ?_
  intro f' hf' hin
  rw [hf] at hf'
  cases hf'
  exact absurd hin hnot

/-- What resumes a future outside the tree resumes nothing in it. -/
theorem not_leadsTo_self {r : Ref} {f : Future} (hnot : ¬InTree ρ r f) :
    ¬LeadsTo ρ (.runGenerator r f.callback) := by
  rintro (rfl | hlead)
  · exact hnot (Or.inl rfl)
  · exact hnot (Or.inr hlead)

theorem untouched_runCallback (th : Thread) {cb : Callback} (c : Completion) (hl : Linked s)
    (hcb : Parented s cb) (hρ : ¬LeadsTo ρ cb) :
    Untouched ρ s (State.runCallback env th cb c s) := by
  refine untouched_of_skeleton (State.skeleton_runCallback env th cb c s) ?_
  intro i f hf hin
  rw [runCallback_other th c, hf]
  intro hlead
  rcases hin with rfl | hin
  · exact hρ hlead
  · exact hρ (leadsTo_trans hl hcb hlead hf hin)

theorem untouched_executeRaised (th : Thread) {cb : Callback} (x : PyExc) (hl : Linked s)
    (hcb : Parented s cb) (hρ : ¬LeadsTo ρ cb) :
    Untouched ρ s (State.executeRaised env th cb x s) := by
  refine untouched_of_skeleton (State.skeleton_executeRaised env th cb x s) ?_
  intro i f hf hin
  rw [executeRaised_other th x, hf]
  intro hlead
  rcases hin with rfl | hin
  · exact hρ hlead
  · exact hρ (leadsTo_trans hl hcb hlead hf hin)

theorem untouched_executeHandler (th : Thread) (id : MsgId) (kind : HandlerKind) {cb : Callback}
    (start : Start) (hl : Linked s) (hcb : Parented s cb) (hρ : ¬LeadsTo ρ cb)
    (hlt : ρ < s.fresh) : Untouched ρ s (State.executeHandler env th id kind cb start s) := by
  have raised : ∀ x, Untouched ρ s (State.executeRaised env th cb x s) :=
    fun x => untouched_executeRaised th x hl hcb hρ
  have filed : ∀ g : Future, g.callback = cb →
      Untouched ρ s ((s.alloc g).register id s.fresh) := by
    rintro g rfl
    exact (untouched_alloc hlt hρ).trans (untouched_of_futures rfl)
  cases kind with
  | coroutine =>
    cases start with
    | some x => exact raised x
    | none =>
      cases th with
      | main => exact filed _ rfl
      | worker => exact raised .runtimeError
  | thread =>
    cases start with
    | some x => exact raised x
    | none => exact filed _ rfl
  | generator => exact filed _ rfl
  | sync => exact untouched_alloc hlt hρ

theorem untouched_cancel (th : Thread) {r : Ref} (hl : Linked s)
    (hr : ∀ f, s.futures[r]? = some f → InTree ρ r f → f.isOpen = false) :
    Untouched ρ s (State.cancel env th s r) := by
  unfold State.cancel
  split
  · exact untouched_of_futures rfl
  · rename_i f hf
    have hin := hr f hf
    split
    · split
      · rename_i hopen
        refine untouched_modify (fun _ => rfl) (fun _ => rfl) ?_
        intro f' hf' hin'
        rw [hf] at hf'
        cases hf'
        rw [hin hin'] at hopen
        cases hopen
      · exact untouched_of_futures rfl
    · split
      · rename_i hpend
        have hnot : ¬InTree ρ r f := by
          intro hin'
          have hopen := isOpen_of_isPending hpend
          rw [hin hin'] at hopen
          cases hopen
        have hmod : Untouched ρ s (s.modify r (Future.settle .cancelled)) :=
          untouched_foreign (fun _ => rfl) (fun _ => rfl) hf hnot
        refine hmod.trans ?_
        have hskel := State.skeleton_modify s r (g := Future.settle .cancelled) (fun _ => rfl)
          (fun _ => rfl)
        refine untouched_runCallback th _ (hl.congr hskel)
          ((parented_of_future hl hf).congr hskel) fun hlead => ?_
        exact hnot (Or.inr hlead)
      · exact untouched_of_futures rfl

theorem untouched_handleResponse {id : MsgId} (o : Outcome) (hl : Linked s)
    (hid : ∀ r f, s.requestFutures.get? id = some r → s.futures[r]? = some f → InTree ρ r f →
      f.isOpen = false) :
    Untouched ρ s (s.handleResponse env id o) := by
  simp only [State.handleResponse]
  split
  · exact untouched_of_futures rfl
  · rename_i r hr
    split
    · exact untouched_of_futures rfl
    · rename_i f hf
      have hf' : s.futures[r]? = some f := hf
      split
      · exact untouched_of_futures rfl
      · split
        · rename_i hopen
          have hnot : ¬InTree ρ r f := by
            intro hin
            rw [hid r f hr hf' hin] at hopen
            cases hopen
          have hmod : Untouched ρ (s.popFuture id)
              ((s.popFuture id).modify r (Future.settle (.finished o))) :=
            untouched_foreign (fun _ => rfl) (fun _ => rfl) hf hnot
          have hpop : Untouched ρ s (s.popFuture id) := untouched_of_futures rfl
          refine (hpop.trans hmod).trans ?_
          have hskel := State.skeleton_modify s r (g := Future.settle (.finished o)) (fun _ => rfl)
            (fun _ => rfl)
          refine untouched_runCallback .main _ (hl.congr hskel)
            ((parented_of_future hl hf').congr hskel) fun hlead => ?_
          exact hnot (Or.inr hlead)
        · exact untouched_of_futures rfl

end Untouched

/-- The future of the handler whose turn it is. -/
def Code.At : Code H A → Future → Prop
  | .send _, f => f.handler = some .generator ∧ f.isPending = true ∧ f.active ≠ none
  | .function .sync, f => f.handler = some .sync ∧ f.isPending = true ∧ f.active ≠ none
  | .function .coroutine, f => f.handler = some .coroutine ∧ f.isPending = true ∧ f.active = none
  | .function .thread, f => f.handler = some .thread ∧ f.called = false ∧
      ((f.state = .pending ∧ f.active = none) ∨ (f.state = .running ∧ f.active = some .worker))
  | .ended, f => (f.handler = some .coroutine ∨ f.handler = some .thread) ∧ f.called = false ∧
      f.active = none ∧ ∃ v, f.state = .finished (.returned v)

/-- From `r`, each future is waited for by the next generator, up to that of `ρ`. -/
def Chain (s : State T) (ρ : Ref) : Ref → List Ref → Prop
  | r, [] => r = ρ
  | r, p :: ps => WaitsFor s p r ∧ s.pendingAt p = true ∧ Chain s ρ p ps

def Stack (s : State T) (ρ : Ref) : Drive H A → Prop
  | .busy leaf code frames =>
    (∃ f, s.futures[leaf]? = some f ∧ code.At f) ∧ Chain s ρ leaf (frames.map Prod.fst) ∧
      (frames = [] → ∃ rest, code = .send rest)
  | .done v => ∃ f, s.futures[ρ]? = some f ∧ f.state = .finished (.returned v)

/-- Where the drive is, and that everything else below the generator is over and done with. -/
structure OnTrack (ρ : Ref) (s : State T) (d : Drive H A) : Prop where
  turns : Turns (fun _ => False) s
  stack : Stack s ρ d
  others : ∀ (i : Ref) (f : Future), s.futures[i]? = some f → InTree ρ i f → i ∉ d.refs →
    f.called = true ∧ f.active = none

section Chain

variable {env : Env T} {ρ : Ref} {s t : State T}

/-- The chain only needs the callbacks, and that the generators are pending. -/
theorem chain_congr {r : Ref} {ps : List Ref} (h : Chain s ρ r ps)
    (hsame : ∀ i ∈ r :: ps, ∀ f, s.futures[i]? = some f → ∃ g, t.futures[i]? = some g ∧
      g.callback = f.callback ∧ g.called = f.called ∧ (i ∈ ps → g.state = f.state)) :
    Chain t ρ r ps := by
  induction ps generalizing r with
  | nil => exact h
  | cons p ps ih =>
    obtain ⟨⟨f, up, hf, hcb, hc⟩, hp, hrest⟩ := h
    obtain ⟨g, hg, hgcb, hgc, -⟩ := hsame r List.mem_cons_self f hf
    obtain ⟨k, hk, hkp⟩ := (Option.any_eq_true _ _).mp hp
    obtain ⟨k', hk', -, -, hst⟩ := hsame p (List.mem_cons_of_mem _ List.mem_cons_self) k hk
    refine ⟨⟨g, up, hg, hgcb.trans hcb, hgc.trans hc⟩, ?_, ih hrest ?_⟩
    · rw [State.pendingAt, hk', Option.any_some, Future.isPending, hst List.mem_cons_self]
      exact hkp
    · intro i hi f' hf'
      obtain ⟨g', hg', hcb', hc', hst'⟩ := hsame i (List.mem_cons_of_mem _ hi) f' hf'
      exact ⟨g', hg', hcb', hc', fun hmem => hst' (List.mem_cons_of_mem _ hmem)⟩

theorem waitsFor_lt (hl : Linked s) {p i : Ref} (h : WaitsFor s p i) : p < i := by
  obtain ⟨f, up, hf, hcb, -⟩ := h
  exact hl.parent_lt hf hcb

theorem chain_lt (hl : Linked s) {r : Ref} {ps : List Ref} (h : Chain s ρ r ps) :
    ∀ p ∈ ps, p < r := by
  induction ps generalizing r with
  | nil => exact fun p hp => absurd hp List.not_mem_nil
  | cons q ps ih =>
    obtain ⟨hw, -, hrest⟩ := h
    have hq := waitsFor_lt hl hw
    intro p hp
    rcases List.mem_cons.mp hp with rfl | hp
    · exact hq
    · exact Nat.lt_trans (ih hrest p hp) hq

/-- Everything on the stack is in the tree. -/
theorem chain_inTree (hl : Linked s) {r : Ref} {ps : List Ref} (h : Chain s ρ r ps) :
    ∀ i ∈ r :: ps, ∀ f, s.futures[i]? = some f → InTree ρ i f := by
  induction ps generalizing r with
  | nil =>
    intro i hi f _
    exact Or.inl ((List.mem_singleton.mp hi).trans h)
  | cons p ps ih =>
    obtain ⟨⟨f, up, hf, hcb, -⟩, -, hrest⟩ := h
    intro i hi g hg
    rcases List.mem_cons.mp hi with rfl | hi
    · rw [hf] at hg
      cases hg
      obtain ⟨g, hg, hup, -⟩ := hl.parent hf hcb
      right
      rw [hcb]
      rcases ih hrest p List.mem_cons_self g hg with hp | hlead
      · exact Or.inl hp
      · rw [hup] at hlead
        exact Or.inr hlead
    · exact ih hrest i hi g hg

theorem root_mem {r : Ref} {ps : List Ref} (h : Chain s ρ r ps) : ρ ∈ r :: ps := by
  induction ps generalizing r with
  | nil => exact List.mem_singleton.mpr h.symm
  | cons p ps ih => exact List.mem_cons_of_mem _ (ih h.2.2)

theorem chain_future {r : Ref} {ps : List Ref} (h : Chain s ρ r ps)
    (hr : ∃ f, s.futures[r]? = some f) : ∀ i ∈ r :: ps, ∃ f, s.futures[i]? = some f := by
  induction ps generalizing r with
  | nil =>
    intro i hi
    rw [List.mem_singleton.mp hi]
    exact hr
  | cons p ps ih =>
    obtain ⟨-, hp, hrest⟩ := h
    obtain ⟨g, hg, -⟩ := (Option.any_eq_true _ _).mp hp
    intro i hi
    rcases List.mem_cons.mp hi with rfl | hi
    · exact hr
    · exact ih hrest ⟨g, hg⟩ i hi

/-- What leads to the generator comes after it. -/
theorem not_inTree_callback (hl : Linked s) {f : Future} (hf : s.futures[ρ]? = some f) :
    ¬LeadsTo ρ f.callback := fun hlead => Nat.lt_irrefl ρ (leadsTo_lt hl hf hlead)

end Chain

/-- Calling a handler that starts makes its future. -/
theorem executeHandler_started (env : Env T) (s : State T) {th : Thread} (id : MsgId)
    {kind : HandlerKind} (cb : Callback) (hloop : kind = .coroutine → th = .main) :
    ∃ act, (act = none ↔ kind = .coroutine ∨ kind = .thread) ∧
      (State.executeHandler env th id kind cb none s).futures =
        (s.alloc { Future.pending (some kind) cb with active := act }).futures := by
  cases kind with
  | coroutine =>
    rw [hloop rfl]
    exact ⟨none, by simp, rfl⟩
  | thread => exact ⟨none, by simp, rfl⟩
  | generator => exact ⟨some th, by simp, rfl⟩
  | sync => exact ⟨some th, by simp, rfl⟩

namespace OnTrack

variable {env : Env T} {ρ leaf : Ref} {s t : State T} {d : Drive H A} {e : Event} {code : Code H A}
  {frames : List (Ref × Suspended H A)}

/-- Nothing happens to a future of the tree that is not on the stack. -/
theorem quiet (h : OnTrack ρ s d) {r : Ref} {f : Future} (hout : r ∉ d.refs)
    (hf : s.futures[r]? = some f) (hin : InTree ρ r f) :
    f.called = true ∧ f.active = none ∧ f.isOpen = false := by
  obtain ⟨hcalled, hact⟩ := h.others r f hf hin hout
  exact ⟨hcalled, hact, h.turns.done r f hf hcalled⟩

theorem root (h : OnTrack ρ s d) : ∃ f, s.futures[ρ]? = some f := by
  cases d with
  | done v =>
    obtain ⟨f, hf, -⟩ := h.stack
    exact ⟨f, hf⟩
  | busy leaf code frames =>
    obtain ⟨⟨f, hf, -⟩, hchain, -⟩ := h.stack
    exact chain_future hchain ⟨f, hf⟩ ρ (root_mem hchain)

theorem root_lt (h : OnTrack ρ s d) : ρ < s.fresh := by
  obtain ⟨f, hf⟩ := h.root
  exact (List.getElem?_eq_some_iff.mp hf).1

/-- A future that is acted on and not on the stack is not in the tree: there it would be over. -/
theorem foreign (h : OnTrack ρ s d) {r : Ref} {f : Future} (hout : r ∉ d.refs)
    (hf : s.futures[r]? = some f) (hlive : f.called = false ∨ f.active ≠ none ∨ f.isOpen = true) :
    ¬InTree ρ r f := by
  intro hin
  obtain ⟨hcalled, hact, hdone⟩ := h.quiet hout hf hin
  rcases hlive with hc | ha | ho
  · rw [hcalled] at hc
    cases hc
  · exact ha hact
  · rw [hdone] at ho
    cases ho

theorem foreign_active (h : OnTrack ρ s d) {r : Ref} {f : Future} {th : Thread} (hout : r ∉ d.refs)
    (hf : s.futures[r]? = some f) (hact : f.active = some th) : ¬InTree ρ r f := by
  refine h.foreign hout hf (Or.inr (Or.inl ?_))
  rw [hact]
  exact Option.some_ne_none th

theorem foreign_pending (h : OnTrack ρ s d) {r : Ref} {f : Future} (hout : r ∉ d.refs)
    (hf : s.futures[r]? = some f) (hpend : f.isPending = true) : ¬InTree ρ r f :=
  h.foreign hout hf (Or.inr (Or.inr (isOpen_of_isPending hpend)))

/-- A step that is not about a future of the drive leaves the tree alone. -/
theorem untouched_step (h : OnTrack ρ s d) (hs : Pygls.step env s e = some t)
    (hout : ∀ r ∈ d.refs, ¬Touches s r e) : Untouched ρ s t := by
  have hl := h.turns.linked
  have htop : ∀ cb : Callback, (∀ p up, cb ≠ .runGenerator p up) → Parented s cb :=
    fun cb hcb p up heq => absurd heq (hcb p up)
  have done : ∀ (r : Ref) (f : Future), r ∉ d.refs → s.futures[r]? = some f → InTree ρ r f →
      f.isOpen = false := fun r f hr hf hin => (h.quiet hr hf hin).2.2
  cases step_cases hs with
  | ignored => exact untouched_of_futures rfl
  | @request q start =>
    have hr : Untouched ρ s { s with received := s.received ++ [(q, start)] } :=
      untouched_of_futures rfl
    unfold State.handleRequest
    split
    · exact hr.trans (untouched_of_futures (State.sendException_sends env _ _ _ _).futures)
    · exact hr.trans (untouched_executeHandler .main _ _ _ (hl.congr rfl) (htop _ nofun)
        (fun hlead => hlead) h.root_lt)
  | notification =>
    unfold State.handleNotification
    split
    · exact untouched_of_futures rfl
    · exact untouched_executeHandler .main _ _ _ hl (htop _ nofun) (fun hlead => hlead) h.root_lt
  | @cancelRequest id =>
    unfold State.handleCancelNotification
    split
    · exact untouched_of_futures rfl
    · rename_i r hr
      have hpop : Untouched ρ s (s.popFuture id) := untouched_of_futures rfl
      exact hpop.trans (untouched_cancel .main (hl.congr rfl) fun f hf hin =>
        done r f (fun hmem => hout r hmem hr) hf hin)
  | @response id result =>
    simp only [State.receiveResult]
    have hpop : Untouched ρ s (s.popType id) := untouched_of_futures rfl
    split
    · exact hpop
    · split
      · exact hpop
      · exact hpop.trans (untouched_handleResponse _ (hl.congr rfl) fun r f hr hf hin =>
          done r f (fun hmem => hout r hmem hr) hf hin)
  | errorResponse =>
    unfold State.receiveError
    split
    · exact untouched_of_futures rfl
    · split
      · exact untouched_handleResponse _ hl fun r f hr hf hin =>
          done r f (fun hmem => hout r hmem hr) hf hin
      · exact untouched_handleResponse _ hl fun r f hr hf hin =>
          done r f (fun hmem => hout r hmem hr) hf hin
  | sendRequest =>
    exact (untouched_alloc h.root_lt (g := .pending none .client) fun hlead => hlead).trans
      (untouched_of_futures (State.sendRequest_futures _ _ _ _ _))
  | @cancelOutgoing r f hf hnone =>
    exact untouched_cancel .main hl fun f hf hin => done r f (fun hmem => hout r hmem rfl) hf hin
  | @syncEnd r f th o hf hk hact =>
    have hnot := h.foreign_active (fun hmem => hout r hmem rfl) hf hact
    obtain ⟨m, hm, hturns, hcalled⟩ := h.turns.syncEnd hf hk hact o
    simp only [State.syncEnd, hm]
    have hleave : Untouched ρ s (s.leave r) :=
      untouched_foreign (fun _ => rfl) (fun _ => rfl) hf hnot
    have hset : Untouched ρ (s.leave r) m := by
      obtain ⟨g, hg, -, rfl⟩ := setOutcome_eq_some hm
      exact untouched_foreign (fun _ => rfl) (fun _ => rfl) (State.getElem?_modify_self hf) hnot
    exact (hleave.trans hset).trans (untouched_runCallback th _ hturns.linked hcalled.parent
      fun hlead => hnot (Or.inr hlead))
  | @genYield r f th uuid kind start hf hk hact =>
    have hnot := h.foreign_active (fun hmem => hout r hmem rfl) hf hact
    have hleave : Untouched ρ s (s.leave r) :=
      untouched_foreign (fun _ => rfl) (fun _ => rfl) hf hnot
    have hskel := State.skeleton_leave s r
    refine hleave.trans (untouched_executeHandler th _ kind start (hl.congr hskel)
      ((parented_self hf hk).congr hskel) (not_leadsTo_self hnot) ?_)
    have hlt := h.root_lt
    simpa [State.fresh, State.leave, State.modify] using hlt
  | @genEnd r f th o hf hk hact =>
    have hnot := h.foreign_active (fun hmem => hout r hmem rfl) hf hact
    have hleave : Untouched ρ s (s.leave r) :=
      untouched_foreign (fun _ => rfl) (fun _ => rfl) hf hnot
    have hskel := State.skeleton_leave s r
    exact hleave.trans (untouched_executeRaised th _ (hl.congr hskel)
      ((parented_self hf hk).congr hskel) (not_leadsTo_self hnot))
  | @taskEnd r f o hidle hstop hf hk hpend =>
    exact untouched_foreign (fun _ => rfl) (fun _ => rfl) hf
      (h.foreign_pending (fun hmem => hout r hmem rfl) hf hpend)
  | @poolStart r f hf hk hpend =>
    exact untouched_foreign (fun _ => rfl) (fun _ => rfl) hf
      (h.foreign_pending (fun hmem => hout r hmem rfl) hf hpend)
  | @poolEnd r f th o hf hk hact =>
    exact untouched_foreign (fun _ => rfl) (fun _ => rfl) hf
      (h.foreign_active (fun hmem => hout r hmem rfl) hf hact)
  | @deliver r f th c hf hk hcalled hc hidle =>
    have hnot := h.foreign (fun hmem => hout r hmem rfl) hf (Or.inl hcalled)
    have hmark : Untouched ρ s (s.modify r fun f => { f with called := true }) :=
      untouched_foreign (fun _ => rfl) (fun _ => rfl) hf hnot
    obtain ⟨hturns, hcall⟩ := h.turns.deliver hf hcalled hc
    exact hmark.trans (untouched_runCallback th c hturns.linked hcall.parent
      fun hlead => hnot (Or.inr hlead))

theorem refs_inTree (h : OnTrack ρ s d) :
    ∀ i ∈ d.refs, ∃ f, s.futures[i]? = some f ∧ InTree ρ i f := by
  cases d with
  | done v => exact fun i hi => absurd hi List.not_mem_nil
  | busy leaf code frames =>
    obtain ⟨⟨f, hf, -⟩, hchain, -⟩ := h.stack
    intro i hi
    obtain ⟨g, hg⟩ := chain_future hchain ⟨f, hf⟩ i hi
    exact ⟨g, hg, chain_inTree h.turns.linked hchain i hi g hg⟩

theorem config_congr (hsame : ∀ i ∈ d.refs, t.futures[i]? = s.futures[i]?) :
    d.config t = d.config s := by
  cases d with
  | done v => rfl
  | busy leaf code frames =>
    have hleaf := hsame leaf List.mem_cons_self
    cases code with
    | send rest => simp only [Drive.config, sentTo, hleaf]
    | function mode => rfl
    | ended => simp only [Drive.config, resultOf, hleaf]

theorem elsewhere (h : OnTrack ρ s d) (hs : Pygls.step env s e = some t)
    (hout : ∀ r ∈ d.refs, ¬Touches s r e) : OnTrack ρ t d ∧ d.config t = d.config s := by
  have huntouched := h.untouched_step hs hout
  have hsame : ∀ i ∈ d.refs, t.futures[i]? = s.futures[i]? := by
    intro i hi
    obtain ⟨f, hf, hin⟩ := h.refs_inTree i hi
    exact ((huntouched i f hin).mpr hf).trans hf.symm
  refine ⟨⟨h.turns.step_protocol hs, ?_, ?_⟩, config_congr hsame⟩
  · cases d with
    | done v =>
      obtain ⟨f, hf, hst⟩ := h.stack
      exact ⟨f, (huntouched ρ f (Or.inl rfl)).mpr hf, hst⟩
    | busy leaf code frames =>
      obtain ⟨⟨f, hf, hat⟩, hchain, hroot⟩ := h.stack
      refine ⟨⟨f, (hsame leaf List.mem_cons_self).trans hf, hat⟩, chain_congr hchain ?_, hroot⟩
      intro i hi g hg
      exact ⟨g, (hsame i hi).trans hg, rfl, rfl, fun _ => rfl⟩
  · intro i f hf hin hi
    exact h.others i f ((huntouched i f hin).mp hf) hin hi

/-- Only the future of the leaf has changed, and its handler has got on. -/
theorem of_modify {code' : Code H A} {g : Future → Future} {f : Future}
    (h : OnTrack ρ s (.busy leaf code frames)) (hf : s.futures[leaf]? = some f)
    (hturns : Turns (fun _ => False) (s.modify leaf g)) (hcb : (g f).callback = f.callback)
    (hc : (g f).called = f.called) (hat : code'.At (g f))
    (hroot : frames = [] → ∃ rest, code' = .send rest) :
    OnTrack ρ (s.modify leaf g) (.busy leaf code' frames) := by
  obtain ⟨-, hchain, -⟩ := h.stack
  have hself := State.getElem?_modify_self (g := g) hf
  have hother : ∀ i, i ≠ leaf → (s.modify leaf g).futures[i]? = s.futures[i]? := by
    intro i hi
    rw [State.getElem?_modify_ne hi]
  refine ⟨hturns, ⟨⟨g f, hself, hat⟩, chain_congr hchain ?_, hroot⟩, ?_⟩
  · intro i hi k hk
    by_cases heq : i = leaf
    · subst heq
      rw [hf] at hk
      cases hk
      refine ⟨g f, hself, hcb, hc, fun hmem => ?_⟩
      exact absurd (chain_lt h.turns.linked hchain i hmem) (Nat.lt_irrefl i)
    · exact ⟨k, (hother i heq).trans hk, rfl, rfl, fun _ => rfl⟩
  · intro i k hk hin hi
    rw [hother i fun heq => hi (heq ▸ List.mem_cons_self)] at hk
    exact h.others i k hk hin hi

/-- In `m` the leaf has returned `v`, and its future is about to be called back. -/
structure Reported (s m : State T) (leaf : Ref) (f f' : Future) (v : PyValue) : Prop where
  turns : Turns (fun _ => False) m
  before : s.futures[leaf]? = some f
  after : m.futures[leaf]? = some f'
  callback : f'.callback = f.callback
  called : f'.called = true
  active : f'.active = none
  state : f'.state = .finished (.returned v)
  others : ∀ i, i ≠ leaf → m.futures[i]? = s.futures[i]?

section Reported

variable {m : State T} {f f' : Future} {th : Thread} {v : PyValue}

/-- Everything but the waiting generators is over. -/
theorem over_of_reported (h : OnTrack ρ s (.busy leaf code frames))
    (hm : Reported s m leaf f f' v) {i : Ref} {g : Future} (hg : m.futures[i]? = some g)
    (hin : InTree ρ i g) (hi : i ∉ frames.map Prod.fst) : g.called = true ∧ g.active = none := by
  by_cases heq : i = leaf
  · subst heq
    rw [hm.after] at hg
    cases hg
    exact ⟨hm.called, hm.active⟩
  · rw [hm.others i heq] at hg
    refine h.others i g hg hin fun hmem => ?_
    rcases List.mem_cons.mp hmem with hmem | hmem
    · exact heq hmem
    · exact hi hmem

theorem returns_root (h : OnTrack ρ s (.busy leaf code ([] : List (Ref × Suspended H A))))
    (hm : Reported s m leaf f f' v)
    (ht : t = State.runCallback env th f.callback (.finished (.returned v)) m)
    (hturns : Turns (fun _ => False) t) : OnTrack ρ t (.done v : Drive H A) := by
  obtain ⟨-, hroot, -⟩ := h.stack
  have hleaf : leaf = ρ := hroot
  subst hleaf
  have huntouched : Untouched leaf m t := by
    rw [ht, ← hm.callback]
    exact untouched_runCallback th _ hm.turns.linked (parented_of_future hm.turns.linked hm.after)
      (not_inTree_callback hm.turns.linked hm.after)
  refine ⟨hturns, ⟨f', (huntouched leaf f' (Or.inl rfl)).mpr hm.after, hm.state⟩, ?_⟩
  intro i g hg hin _
  exact over_of_reported h hm ((huntouched i g hin).mp hg) hin List.not_mem_nil

theorem returns_frame {p : Ref} {rest : Suspended H A}
    (h : OnTrack ρ s (.busy leaf code ((p, rest) :: frames))) (hm : Reported s m leaf f f' v)
    (ht : t = State.runCallback env th f.callback (.finished (.returned v)) m)
    (hturns : Turns (fun _ => False) t) :
    OnTrack ρ t (.busy p (.send rest) frames) ∧ sentTo t p = v := by
  have hl := h.turns.linked
  obtain ⟨-, hchain, -⟩ := h.stack
  have hlts : ∀ q ∈ p :: frames.map Prod.fst, q < leaf := chain_lt hl hchain
  obtain ⟨⟨f₀, up, hf₀, hup, -⟩, hp, hrest⟩ := hchain
  rw [hm.before] at hf₀
  cases hf₀
  obtain ⟨g, hg, -, hgen⟩ := hl.parent hm.before hup
  have hgm : m.futures[p]? = some g :=
    (hm.others p (Nat.ne_of_lt (hlts p List.mem_cons_self))).trans hg
  have hpend : g.isPending = true := by
    rw [State.pendingAt, hg] at hp
    exact hp
  have hlive : m.cancelled p = false := by
    cases hc : m.cancelled p with
    | false => rfl
    | true =>
      have hnot := pendingAt_of_cancelled hgm hc
      rw [State.pendingAt, hgm, Option.any_some, hpend] at hnot
      cases hnot
  have hresume : t = m.resume p th v := by
    rw [ht, hup, State.runCallback, hlive]
    rfl
  have hat : t.futures[p]? = some { g with active := some th, resumed := true, value := v } := by
    rw [hresume]
    exact State.getElem?_modify_self
      (g := fun f => { f with active := some th, resumed := true, value := v }) hgm
  have hother : ∀ i, i ≠ p → t.futures[i]? = m.futures[i]? := by
    intro i hi
    rw [hresume, State.resume, State.getElem?_modify_ne hi]
  refine ⟨⟨hturns, ⟨⟨_, hat, hgen, hpend, Option.some_ne_none th⟩, chain_congr hrest ?_,
    fun _ => ⟨rest, rfl⟩⟩, ?_⟩, ?_⟩
  · intro i hi k hk
    have hil : i ≠ leaf := Nat.ne_of_lt (hlts i hi)
    by_cases hip : i = p
    · subst hip
      rw [hg] at hk
      cases hk
      exact ⟨_, hat, rfl, rfl, fun _ => rfl⟩
    · exact ⟨k, ((hother i hip).trans (hm.others i hil)).trans hk, rfl, rfl, fun _ => rfl⟩
  · intro i k hk hin hi
    have hip : i ≠ p := fun heq => hi (heq ▸ List.mem_cons_self)
    rw [hother i hip] at hk
    exact over_of_reported h hm hk hin hi
  · rw [sentTo, hat]
    rfl

/-- The leaf has returned `v` and is reported: the generator that waits for it is sent that. -/
theorem returns (h : OnTrack ρ s (.busy leaf code frames)) (hm : Reported s m leaf f f' v)
    (ht : t = State.runCallback env th f.callback (.finished (.returned v)) m)
    (hturns : Turns (fun _ => False) t) :
    OnTrack ρ t (.back frames v) ∧
      ∀ p rest frames', frames = (p, rest) :: frames' → sentTo t p = v := by
  cases frames with
  | nil => exact ⟨h.returns_root hm ht hturns, nofun⟩
  | cons frame frames =>
    obtain ⟨p, rest⟩ := frame
    obtain ⟨htrack, hsent⟩ := h.returns_frame hm ht hturns
    refine ⟨htrack, ?_⟩
    intro q rest' frames' heq
    cases heq
    exact hsent

end Reported

/-- Leaving the stack and making a future changes nothing that the chain depends on. -/
theorem stays_called {r i : Ref} {f g : Future} (ht : t.futures = ((s.leave r).alloc g).futures)
    (hf : s.futures[i]? = some f) : ∃ f', t.futures[i]? = some f' ∧ f'.callback = f.callback ∧
      f'.called = f.called ∧ f'.state = f.state := by
  have hleave : ∃ f', (s.leave r).futures[i]? = some f' ∧ f'.callback = f.callback ∧
      f'.called = f.called ∧ f'.state = f.state := by
    rw [State.leave, State.getElem?_modify, hf]
    split
    · exact ⟨_, rfl, rfl, rfl, rfl⟩
    · exact ⟨f, rfl, rfl, rfl, rfl⟩
  obtain ⟨f', hf', hsame⟩ := hleave
  refine ⟨f', ?_, hsame⟩
  rw [ht]
  exact Discipline.getElem?_alloc_of_some hf'

/-- The generator whose turn it is yields, and the handler it yields to has its turn. -/
theorem yields {rest next : Suspended H A} (h : OnTrack ρ s (.busy leaf (.send rest) frames))
    {uuid : Str} {kind : HandlerKind}
    (hs : Pygls.step env s (.genYield leaf uuid kind none) = some t)
    (hloop : kind = .coroutine → ∀ f, s.futures[leaf]? = some f → f.active ≠ some .worker)
    {code : Code H A}
    (hcode : ∀ cb act, (act = none ↔ kind = .coroutine ∨ kind = .thread) →
      code.At { Future.pending (some kind) cb with active := act }) :
    OnTrack ρ t (.busy s.fresh code ((leaf, next) :: frames)) := by
  have hturns := h.turns.step_protocol hs
  obtain ⟨⟨f, hf, hgen, hpend, -⟩, hchain, -⟩ := h.stack
  cases step_cases hs with
  | ignored _ hrefusable => cases hrefusable
  | @genYield _ f₀ th _ _ _ hf₀ _ hact =>
    rw [hf] at hf₀
    cases hf₀
    have hmain : kind = .coroutine → th = .main := by
      intro hk
      cases th with
      | main => rfl
      | worker => exact absurd hact (hloop hk f hf)
    obtain ⟨act, hiff, hfutures⟩ := executeHandler_started env (s.leave leaf) (.str uuid)
      (.runGenerator leaf f.callback) hmain
    generalize State.executeHandler env th (.str uuid) kind (.runGenerator leaf f.callback) none
      (s.leave leaf) = t at hturns hfutures
    have hfresh : t.futures[s.fresh]? = some { Future.pending (some kind)
        (.runGenerator leaf f.callback) with active := act } := by
      rw [hfutures]
      simp [State.alloc, State.fresh, State.leave, State.modify]
    have hleaf : t.pendingAt leaf = true := by
      obtain ⟨f', hf', -, -, hst⟩ := stays_called hfutures hf
      rw [State.pendingAt, hf', Option.any_some, Future.isPending, hst]
      exact hpend
    refine ⟨hturns, ⟨⟨_, hfresh, hcode _ act hiff⟩, ⟨⟨_, f.callback, hfresh, rfl, rfl⟩, hleaf,
      chain_congr hchain ?_⟩, ?_⟩, ?_⟩
    · intro i _ k hk
      obtain ⟨k', hk', hcb, hc, hst⟩ := stays_called hfutures hk
      exact ⟨k', hk', hcb, hc, fun _ => hst⟩
    · intro heq
      cases heq
    · intro i k hk hin hi
      have hifresh : i ≠ s.fresh := fun heq => hi (heq ▸ List.mem_cons_self)
      have hirest : i ∉ Drive.refs (.busy leaf (Code.send rest) frames) :=
        fun hmem => hi (List.mem_cons_of_mem _ hmem)
      have hileaf : i ≠ leaf := fun heq => hirest (heq ▸ List.mem_cons_self)
      rw [hfutures] at hk
      rcases State.getElem?_alloc hk with hk | ⟨heq, -⟩
      · rw [State.leave, State.getElem?_modify_ne hileaf] at hk
        exact h.others i k hk hin hirest
      · rw [State.fresh, State.leave, State.modify, List.length_modify] at heq
        exact absurd heq hifresh

/-- What the machine does when the innermost call has returned. -/
theorem back_config {v : PyValue}
    (hsent : ∀ p rest frames', frames = (p, rest) :: frames' → sentTo t p = v) :
    Lib.Gen.Steps (.returning v (frames.map Prod.snd)) [] ((Drive.back frames v).config t) := by
  cases frames with
  | nil => exact .refl _
  | cons frame frames =>
    obtain ⟨p, rest⟩ := frame
    simp only [Drive.back, Drive.config, hsent p rest frames rfl]
    exact .single .resume

/-- The handler whose turn it is acts: so does the machine. -/
structure Simulates (ρ : Ref) (s t : State T) (d d' : Driven H A) : Prop where
  track : OnTrack ρ t d'.drive
  steps : ∃ new, d'.acts = d.acts ++ new ∧
    Lib.Gen.Steps (d.drive.config s) new (d'.drive.config t)
  later : Lib.Gen.Later (d'.drive.config t) (d.drive.config s)

theorem simulates_back {acts : List (Act H A)} {v : PyValue}
    (h : OnTrack ρ t (.back frames v) ∧
      ∀ p rest frames', frames = (p, rest) :: frames' → sentTo t p = v)
    (hstep : Lib.Gen.Step ((Drive.busy leaf code frames).config s) [.returned v]
      (.returning v (frames.map Prod.snd))) :
    Simulates ρ s t ⟨.busy leaf code frames, acts⟩ ⟨.back frames v, acts ++ [.returned v]⟩ := by
  have hsteps := (Lib.Gen.Steps.single hstep).trans (back_config h.2)
  rw [List.append_nil] at hsteps
  exact ⟨h.1, ⟨[.returned v], rfl, hsteps⟩, hsteps.later_of_ne (List.cons_ne_nil _ _)⟩

theorem simulates_ret {rest : Suspended H A} {acts : List (Act H A)} {v : PyValue}
    (h : OnTrack ρ s (.busy leaf (.send rest) frames)) (hret : rest (sentTo s leaf) = .ret v)
    (hs : Pygls.step env s (.genEnd leaf (.returned v)) = some t) :
    Simulates ρ s t ⟨.busy leaf (.send rest) frames, acts⟩
      ⟨.back frames v, acts ++ [.returned v]⟩ := by
  have hturns := h.turns.step_protocol hs
  obtain ⟨⟨f, hf, hgen, hpend, -⟩, -, -⟩ := h.stack
  cases step_cases hs with
  | ignored _ hrefusable => cases hrefusable
  | @genEnd _ f₀ th _ hf₀ _ hact _ =>
    rw [hf] at hf₀
    cases hf₀
    have hself := State.getElem?_modify_self (g := fun f => { f with active := none }) hf
    cases hm : (s.leave leaf).setOutcome leaf (.returned v) with
    | none =>
      have hnot := setOutcome_eq_none hm hself
      rw [show f.isPending = false from hnot] at hpend
      cases hpend
    | some m =>
      obtain ⟨hmturns, -⟩ := (h.turns.leave leaf).setOutcome (by
        intro g hg _
        rw [State.leave, hself] at hg
        cases hg
        rfl) hm
      obtain ⟨g, hg, -, rfl⟩ := setOutcome_eq_some hm
      have ht : State.executeRaised env th (.runGenerator leaf f.callback)
          (Outcome.sendExc (.returned v)) (s.leave leaf) =
          State.runCallback env th f.callback (.finished (.returned v))
            ((s.leave leaf).modify leaf (Future.settle (.finished (.returned v)))) := by
        simp only [Outcome.sendExc, State.executeRaised, PyExc.outcome, hm]
      refine simulates_back (h.returns ⟨hmturns, hf, State.getElem?_modify_self hself, rfl, rfl,
        rfl, rfl, ?_⟩ ht hturns) ?_
      · intro i hi
        rw [State.getElem?_modify_ne hi, State.leave, State.getElem?_modify_ne hi]
      · simp only [Drive.config, hret]
        exact .ret

theorem simulates_sync {acts : List (Act H A)} {v : PyValue}
    (h : OnTrack ρ s (.busy leaf (.function .sync) frames))
    (hs : Pygls.step env s (.syncEnd leaf (.returned v)) = some t) :
    Simulates ρ s t ⟨.busy leaf (.function .sync) frames, acts⟩
      ⟨.back frames v, acts ++ [.returned v]⟩ := by
  have hturns := h.turns.step_protocol hs
  cases step_cases hs with
  | ignored _ hrefusable => cases hrefusable
  | @syncEnd _ f th _ hf hk hact =>
    have hself := State.getElem?_modify_self (g := fun f => { f with active := none }) hf
    obtain ⟨m, hm, hmturns, -⟩ := h.turns.syncEnd hf hk hact (.returned v)
    obtain ⟨g, hg, -, rfl⟩ := setOutcome_eq_some hm
    have ht : State.syncEnd env s leaf f.callback th (.returned v) =
        State.runCallback env th f.callback (.finished (.returned v))
          ((s.leave leaf).modify leaf (Future.settle (.finished (.returned v)))) := by
      simp only [State.syncEnd, hm]
    refine simulates_back (h.returns ⟨hmturns, hf, State.getElem?_modify_self hself, rfl, rfl, rfl,
      rfl, ?_⟩ ht hturns) .answer
    intro i hi
    rw [State.getElem?_modify_ne hi, State.leave, State.getElem?_modify_ne hi]

theorem simulates_deliver {acts : List (Act H A)} {th : Thread}
    (h : OnTrack ρ s (.busy leaf .ended frames))
    (hs : Pygls.step env s (.deliver leaf th) = some t) :
    Simulates ρ s t ⟨.busy leaf .ended frames, acts⟩ ⟨.back frames (resultOf s leaf), acts⟩ := by
  have hturns := h.turns.step_protocol hs
  obtain ⟨⟨f, hf, hk, hc, hact, v, hst⟩, -, hroot⟩ := h.stack
  have hv : resultOf s leaf = v := by
    rw [resultOf, hf, Option.map_some, hst]
  cases step_cases hs with
  | ignored _ hrefusable => cases hrefusable
  | @deliver _ f₀ _ c hf₀ _ _ hcomp _ =>
    rw [hf] at hf₀
    cases hf₀
    have hcv : c = .finished (.returned v) := by
      rw [Future.completion, hst] at hcomp
      exact (Option.some.inj hcomp).symm
    subst hcv
    obtain ⟨hmturns, -⟩ := h.turns.deliver hf hc hcomp
    have ht : State.runCallback env th f.callback (.finished (.returned v))
        (s.modify leaf fun f => { f with called := true }) = _ := rfl
    have hm : Reported s (s.modify leaf fun f => { f with called := true }) leaf f
        { f with called := true } v := by
      refine ⟨hmturns, hf, State.getElem?_modify_self hf, rfl, rfl, hact, hst, ?_⟩
      intro i hi
      rw [State.getElem?_modify_ne hi]
    obtain ⟨htrack, hsent⟩ := h.returns hm ht hturns
    rw [hv]
    cases frames with
    | nil =>
      obtain ⟨rest, heq⟩ := hroot rfl
      cases heq
    | cons frame frames =>
      obtain ⟨p, rest⟩ := frame
      have hresume : Lib.Gen.Step ((Drive.busy leaf (Code.ended) ((p, rest) :: frames)).config s) []
          ((Drive.back ((p, rest) :: frames) v).config (State.runCallback env th f.callback
            (.finished (.returned v)) (s.modify leaf fun f => { f with called := true }))) := by
        simp only [Drive.back, Drive.config, hsent p rest frames rfl, hv]
        exact .resume
      exact ⟨htrack, ⟨[], (List.append_nil acts).symm, .single hresume⟩, .single ⟨[], hresume⟩⟩

/-- A task or a pool job returns: it is not reported yet. -/
theorem simulates_ended {mode : Mode} {acts : List (Act H A)} {v : PyValue} {f : Future}
    {g : Future → Future} (h : OnTrack ρ s (.busy leaf (.function mode) frames))
    (hf : s.futures[leaf]? = some f) (hturns : Turns (fun _ => False) (s.modify leaf g))
    (hcb : (g f).callback = f.callback) (hc : (g f).called = f.called)
    (hst : (g f).state = .finished (.returned v)) (hat : Code.At (.ended : Code H A) (g f)) :
    Simulates ρ s (s.modify leaf g) ⟨.busy leaf (.function mode) frames, acts⟩
      ⟨.busy leaf .ended frames, acts ++ [.returned v]⟩ := by
  obtain ⟨-, -, hroot⟩ := h.stack
  have htrack : OnTrack ρ (s.modify leaf g) (.busy leaf .ended frames) := by
    refine h.of_modify hf hturns hcb hc hat ?_
    intro hnil
    obtain ⟨rest, heq⟩ := hroot hnil
    cases heq
  have hv : resultOf (s.modify leaf g) leaf = v := by
    rw [resultOf, State.getElem?_modify_self hf, Option.map_some, hst]
  have hstep : Lib.Gen.Step ((Drive.busy leaf (.function mode) frames).config s) [.returned v]
      ((Drive.busy leaf .ended frames).config (s.modify leaf g)) := by
    simp only [Drive.config, hv]
    exact .answer
  exact ⟨htrack, ⟨_, rfl, .single hstep⟩, .single ⟨_, hstep⟩⟩

theorem simulates_task {acts : List (Act H A)} {v : PyValue}
    (h : OnTrack ρ s (.busy leaf (.function .coroutine) frames))
    (hs : Pygls.step env s (.taskEnd leaf (some (.returned v))) = some t) :
    Simulates ρ s t ⟨.busy leaf (.function .coroutine) frames, acts⟩
      ⟨.busy leaf .ended frames, acts ++ [.returned v]⟩ := by
  have hturns := h.turns.step_protocol hs
  obtain ⟨⟨f, hf, hk, hpend, hact⟩, -, -⟩ := h.stack
  have hc := not_called_of_open (h.turns.done leaf f hf) (isOpen_of_isPending hpend)
  cases step_cases hs with
  | ignored _ hrefusable => cases hrefusable
  | @taskEnd =>
    exact simulates_ended h hf hturns rfl rfl rfl ⟨Or.inl hk, hc, hact, v, rfl⟩

theorem simulates_pool {acts : List (Act H A)} {v : PyValue}
    (h : OnTrack ρ s (.busy leaf (.function .thread) frames))
    (hs : Pygls.step env s (.poolEnd leaf (.returned v)) = some t) :
    Simulates ρ s t ⟨.busy leaf (.function .thread) frames, acts⟩
      ⟨.busy leaf .ended frames, acts ++ [.returned v]⟩ := by
  have hturns := h.turns.step_protocol hs
  obtain ⟨⟨f, hf, hk, hc, hst⟩, -, -⟩ := h.stack
  cases step_cases hs with
  | ignored _ hrefusable => cases hrefusable
  | @poolEnd _ f₀ th _ hf₀ _ hact =>
    rw [hf] at hf₀
    cases hf₀
    have hopen : f.isOpen = true := by
      rcases hst with ⟨hst, -⟩ | ⟨hst, -⟩
      · rw [Future.isOpen, hst]
      · rw [Future.isOpen, hst]
    have hnew : (if f.isOpen = true then FutureState.finished (.returned v) else f.state) =
        .finished (.returned v) := if_pos hopen
    exact simulates_ended h hf hturns rfl rfl hnew ⟨Or.inr hk, hc, rfl, v, hnew⟩

/-- A worker has taken up the job. -/
theorem started (h : OnTrack ρ s (.busy leaf (.function .thread) frames))
    (hs : Pygls.step env s (.poolStart leaf) = some t) :
    OnTrack ρ t (.busy leaf (.function .thread) frames) := by
  have hturns := h.turns.step_protocol hs
  obtain ⟨⟨f, hf, hk, hc, hst⟩, -, hroot⟩ := h.stack
  cases step_cases hs with
  | ignored _ hrefusable => cases hrefusable
  | @poolStart _ f₀ hf₀ _ hpend =>
    exact h.of_modify hf hturns rfl rfl ⟨hk, hc, Or.inr ⟨rfl, rfl⟩⟩ hroot

theorem acts {d d' : Driven H A} (h : OnTrack ρ s d.drive) (hs : Pygls.step env s e = some t)
    (hacts : Acts s d e d') (hloop : OnLoop s d.drive e) : Simulates ρ s t d d' := by
  cases hacts with
  | @yield leaf rest next frames acts handler mode args uuid hyield =>
    have hmain : mode.kind = .coroutine → ∀ f, s.futures[leaf]? = some f →
        f.active ≠ some .worker := by
      intro hk f hf
      exact hloop leaf uuid none f (by rw [hk]) List.mem_cons_self hf
    have htrack : OnTrack ρ t (.busy s.fresh (.function mode) ((leaf, next) :: frames)) := by
      refine h.yields hs hmain ?_
      intro cb act hiff
      cases mode with
      | coroutine => exact ⟨rfl, rfl, hiff.mpr (Or.inl rfl)⟩
      | thread => exact ⟨rfl, rfl, Or.inl ⟨rfl, hiff.mpr (Or.inr rfl)⟩⟩
      | sync => exact ⟨rfl, rfl, fun hnone => by rcases hiff.mp hnone with hk | hk <;> cases hk⟩
    have hstep : Lib.Gen.Step ((Drive.busy leaf (.send rest) frames).config s)
        [.called handler args]
        ((Drive.busy s.fresh (.function mode) ((leaf, next) :: frames)).config t) := by
      simp only [Drive.config, hyield]
      exact .yield
    exact ⟨htrack, ⟨_, rfl, .single hstep⟩, .single ⟨_, hstep⟩⟩
  | @yieldGen leaf rest next frames acts handler args body uuid hyield =>
    have htrack : OnTrack ρ t (.busy s.fresh (.send fun _ => body) ((leaf, next) :: frames)) := by
      refine h.yields hs nofun ?_
      intro cb act hiff
      exact ⟨rfl, rfl, fun hnone => by rcases hiff.mp hnone with hk | hk <;> cases hk⟩
    have hstep : Lib.Gen.Step ((Drive.busy leaf (.send rest) frames).config s)
        [.called handler args]
        ((Drive.busy s.fresh (.send fun _ => body) ((leaf, next) :: frames)).config t) := by
      simp only [Drive.config, hyield]
      exact .yieldGen
    exact ⟨htrack, ⟨_, rfl, .single hstep⟩, .single ⟨_, hstep⟩⟩
  | ret hret => exact simulates_ret h hret hs
  | sync => exact simulates_sync h hs
  | task => exact simulates_task h hs
  | pool => exact simulates_pool h hs
  | deliver => exact simulates_deliver h hs

end OnTrack

/-- A generator handler has just been called. -/
structure Starts (s : State T) (ρ : Ref) : Prop where
  newest : s.fresh = ρ + 1
  future : ∃ f, s.futures[ρ]? = some f ∧ f.handler = some .generator ∧ f.isPending = true ∧
    f.active ≠ none

/-- The drive of the generator with the program `G`, before its first segment. -/
def Driven.start (ρ : Ref) (G : Program H A) : Driven H A := ⟨.busy ρ (.send fun _ => G) [], []⟩

/-- One event, on which no generator of the drive yields to a coroutine off the loop. -/
def Turn (env : Env T) (p q : State T × Driven H A) : Prop :=
  ∃ e, Pygls.step env p.1 e = some q.1 ∧ Follows p.1 p.2 e q.2 ∧ OnLoop p.1 p.2.drive e

/-- The handler whose turn it is can go on. -/
def GoesOn (env : Env T) (t : State T) (d : Driven H A) (leaf : Ref) : Prop :=
  ∃ e t' d', Pygls.step env t e = some t' ∧ Follows t d e d' ∧ Touches t leaf e

/-- What has been called and returned so far is how a direct run of the program begins. The
result future is resolved at the end of it, with its value, and until then someone is at work. -/
structure RunsDirectly (env : Env T) (G : Program H A) (ρ : Ref) (t : State T) (d : Driven H A) :
    Prop where
  calls : ∃ acts v, Lib.Gen.Direct G (d.acts ++ acts) v
  resolved : ∀ v, d.drive = .done v → Lib.Gen.Direct G d.acts v ∧
    ∃ f, t.futures[ρ]? = some f ∧ f.state = .finished (.returned v) ∧ f.called = true
  unresolved : ∀ leaf code frames, d.drive = .busy leaf code frames →
    (∃ f, t.futures[ρ]? = some f ∧ f.isPending = true ∧ f.called = false) ∧
    (∃ f, t.futures[leaf]? = some f ∧ f.AtWork) ∧
    (t.mainIdle = true ∨ OnStack t leaf → GoesOn env t d leaf)

section Run

variable {env : Env T} {ρ leaf : Ref} {s t : State T} {d d' : Driven H A} {e : Event}
  {G : Program H A}

theorem onTrack_start (h : Turns (fun _ => False) s) (hstart : Starts s ρ) :
    OnTrack ρ s (Driven.start ρ G).drive := by
  obtain ⟨f, hf, hgen, hpend, hact⟩ := hstart.future
  refine ⟨h, ⟨⟨f, hf, hgen, hpend, hact⟩, rfl, fun _ => ⟨_, rfl⟩⟩, ?_⟩
  intro i g hg hin hi
  rcases hin with rfl | hlead
  · exact absurd List.mem_cons_self hi
  · have hlt := leadsTo_lt h.linked hg hlead
    have hfresh : i < s.fresh := (List.getElem?_eq_some_iff.mp hg).1
    rw [hstart.newest] at hfresh
    exact absurd hlt (Nat.not_lt_of_le (Nat.le_of_lt_succ hfresh))

theorem turn_keeps (h : OnTrack ρ s d.drive) (hs : Pygls.step env s e = some t)
    (hfollows : Follows s d e d') (hloop : OnLoop s d.drive e) :
    OnTrack ρ t d'.drive ∧
      (∃ new, d'.acts = d.acts ++ new ∧
        Lib.Gen.Steps (d.drive.config s) new (d'.drive.config t)) ∧
      (d' = d ∧ d'.drive.config t = d.drive.config s ∨
        Lib.Gen.Later (d'.drive.config t) (d.drive.config s)) := by
  cases hfollows with
  | acts hacts =>
    have hsim := h.acts hs hacts hloop
    exact ⟨hsim.track, hsim.steps, Or.inr hsim.later⟩
  | started => exact ⟨h.started hs, ⟨[], (List.append_nil _).symm, .refl _⟩, Or.inl ⟨rfl, rfl⟩⟩
  | elsewhere hout =>
    obtain ⟨htrack, hconfig⟩ := h.elsewhere hs hout
    rw [hconfig]
    exact ⟨htrack, ⟨[], (List.append_nil _).symm, .refl _⟩, Or.inl ⟨rfl, rfl⟩⟩

theorem run_keeps (hturns : Turns (fun _ => False) s) (hstart : Starts s ρ)
    (hrun : Relation.ReflTransGen (Turn env) (s, Driven.start ρ G) (t, d)) :
    OnTrack ρ t d.drive ∧ Lib.Gen.Steps (.running G []) d.acts (d.drive.config t) := by
  generalize hq : (t, d) = q at hrun
  induction hrun generalizing t d with
  | refl =>
    cases hq
    exact ⟨onTrack_start hturns hstart, .refl _⟩
  | tail _ hturn ih =>
    obtain ⟨e, hs, hfollows, hloop⟩ := hturn
    rename_i p q _
    obtain ⟨htrack, hsteps⟩ := ih (t := p.1) (d := p.2) rfl
    obtain ⟨htrack', ⟨new, hacts, hnew⟩, -⟩ := turn_keeps htrack hs hfollows hloop
    subst hq
    exact ⟨htrack', hacts ▸ hsteps.trans hnew⟩

theorem chain_root_pending {r : Ref} {ps : List Ref} (h : Chain s ρ r ps)
    (hr : s.pendingAt r = true) : s.pendingAt ρ = true := by
  induction ps generalizing r with
  | nil => exact h ▸ hr
  | cons p ps ih => exact ih h.2.2 h.2.1

theorem root_pending {code : Code H A} {frames : List (Ref × Suspended H A)}
    (h : OnTrack ρ s (.busy leaf code frames)) :
    ∃ f, s.futures[ρ]? = some f ∧ f.isPending = true ∧ f.called = false := by
  obtain ⟨⟨f, hf, hat⟩, hchain, hroot⟩ := h.stack
  have hpend : s.pendingAt ρ = true := by
    cases frames with
    | nil =>
      obtain ⟨rest, rfl⟩ := hroot rfl
      refine chain_root_pending hchain ?_
      rw [State.pendingAt, hf]
      exact hat.2.1
    | cons frame frames => exact chain_root_pending hchain.2.2 hchain.2.1
  obtain ⟨g, hg, hgp⟩ := (Option.any_eq_true _ _).mp hpend
  exact ⟨g, hg, hgp, not_called_of_open (h.turns.done ρ g hg) (isOpen_of_isPending hgp)⟩

theorem atWork {code : Code H A} {f : Future} (hat : code.At f)
    (hdone : f.called = true → f.isOpen = false) : f.AtWork := by
  cases code with
  | send rest => exact Or.inl hat.2.2
  | function mode =>
    cases mode with
    | coroutine =>
      exact Or.inr ⟨Or.inl hat.1, not_called_of_open hdone (isOpen_of_isPending hat.2.1)⟩
    | thread => exact Or.inr ⟨Or.inr hat.1, hat.2.1⟩
    | sync => exact Or.inl hat.2.2
  | ended => exact Or.inr ⟨hat.1, hat.2.1⟩

theorem running_of_active {f : Future} {th : Thread} {kind : HandlerKind}
    (hf : s.futures[leaf]? = some f) (hk : f.handler = some kind) (hact : f.active = some th) :
    s.running leaf kind = some (f.callback, th) := by
  rw [State.running, hf, Option.bind_some, if_pos hk, hact]
  rfl

theorem goesOn_of_isSome (hs : (Pygls.step env s e).isSome = true) (hfollows : Follows s d e d')
    (htouches : Touches s leaf e) : GoesOn env s d leaf := by
  obtain ⟨t, ht⟩ := Option.isSome_iff_exists.mp hs
  exact ⟨e, t, d', ht, hfollows, htouches⟩

theorem generator_goesOn {rest : Suspended H A} {frames : List (Ref × Suspended H A)}
    {acts : List (Act H A)} {f : Future} {th : Thread} (hf : s.futures[leaf]? = some f)
    (hk : f.handler = some .generator) (hact : f.active = some th) :
    GoesOn env s ⟨.busy leaf (.send rest) frames, acts⟩ leaf := by
  have hrunning := running_of_active hf hk hact
  cases hprogram : rest (sentTo s leaf) with
  | ret v =>
    refine goesOn_of_isSome (e := .genEnd leaf (.returned v)) ?_ (.acts (.ret hprogram)) rfl
    have hstop : (Outcome.returned v).noStop = true := rfl
    rw [Pygls.step, if_pos hstop, hrunning]
    rfl
  | yield handler mode args next =>
    refine goesOn_of_isSome (e := .genYield leaf [] mode.kind none) ?_ (.acts (.yield hprogram)) rfl
    rw [Pygls.step, hrunning]
    rfl
  | yieldGen handler args body next =>
    refine goesOn_of_isSome (e := .genYield leaf [] .generator none) ?_
      (.acts (.yieldGen hprogram)) rfl
    rw [Pygls.step, hrunning]
    rfl

/-- Only a task, and the report of one, wait for the message loop. -/
theorem goesOn {code : Code H A} {frames : List (Ref × Suspended H A)} {acts : List (Act H A)}
    (h : OnTrack ρ s (.busy leaf code frames)) (hfree : s.mainIdle = true ∨ OnStack s leaf) :
    GoesOn env s ⟨.busy leaf code frames, acts⟩ leaf := by
  obtain ⟨⟨f, hf, hat⟩, -, -⟩ := h.stack
  have hidle : f.active = none → s.mainIdle = true := by
    intro hnone
    rcases hfree with hidle | ⟨g, hg, hact⟩
    · exact hidle
    · rw [hf] at hg
      cases hg
      exact absurd hnone hact
  cases code with
  | send rest =>
    obtain ⟨hk, -, hact⟩ := hat
    obtain ⟨th, hact⟩ := Option.ne_none_iff_exists'.mp hact
    exact generator_goesOn hf hk hact
  | function mode =>
    cases mode with
    | sync =>
      obtain ⟨hk, -, hact⟩ := hat
      obtain ⟨th, hact⟩ := Option.ne_none_iff_exists'.mp hact
      refine goesOn_of_isSome (e := .syncEnd leaf (.returned .none)) ?_ (.acts .sync) rfl
      rw [Pygls.step, running_of_active hf hk hact]
      rfl
    | coroutine =>
      obtain ⟨hk, hpend, hact⟩ := hat
      refine goesOn_of_isSome (e := .taskEnd leaf (some (.returned .none))) ?_ (.acts .task) rfl
      rw [Pygls.step, if_pos]
      · rfl
      · simp [hidle hact, Outcome.noStop, hf, Future.isTask, hk, hpend]
    | thread =>
      obtain ⟨hk, -, ⟨hst, -⟩ | ⟨hst, hact⟩⟩ := hat
      · refine goesOn_of_isSome (e := .poolStart leaf) ?_ .started rfl
        rw [Pygls.step, if_pos]
        · rfl
        · simp [hf, hk, Future.isPending, hst]
      · refine goesOn_of_isSome (e := .poolEnd leaf (.returned .none)) ?_ (.acts .pool) rfl
        rw [Pygls.step, running_of_active hf hk hact]
        rfl
  | ended =>
    obtain ⟨hk, hc, hact, v, hst⟩ := hat
    have hcomp : f.deliverable s.mainIdle .main = some (.finished (.returned v)) := by
      rw [Future.deliverable, if_pos]
      · rw [Future.completion, hst]
      · rw [hidle hact, hc]
        rcases hk with hk | hk <;> simp [hk]
    refine goesOn_of_isSome (e := .deliver leaf .main) ?_ (.acts .deliver) rfl
    rw [Pygls.step, hf, Option.bind_some, hcomp]
    rfl

theorem runsDirectly (h : OnTrack ρ t d.drive)
    (hsteps : Lib.Gen.Steps (.running G []) d.acts (d.drive.config t)) :
    RunsDirectly env G ρ t d := by
  refine ⟨?_, ?_, ?_⟩
  · have hnonempty : Nonempty PyValue := ⟨.none⟩
    obtain ⟨acts, v, hends⟩ := (d.drive.config t).exists_ends
    exact ⟨acts, v, hsteps.direct hends⟩
  · intro v hdone
    rw [hdone] at hsteps h
    have hdirect := (hsteps.direct (.nil : Lib.Gen.Unwinds [] v [] v))
    rw [List.append_nil] at hdirect
    obtain ⟨f, hf, hst⟩ := h.stack
    exact ⟨hdirect, f, hf, hst, (h.others ρ f hf (Or.inl rfl) List.not_mem_nil).1⟩
  · intro leaf code frames hbusy
    obtain ⟨drive, acts⟩ := d
    cases hbusy
    obtain ⟨⟨f, hf, hat⟩, -, -⟩ := h.stack
    exact ⟨root_pending h, ⟨f, hf, atWork hat (h.turns.done leaf f hf)⟩, goesOn h⟩

/-- Off the loop the coroutine is not started, and its turn never comes. -/
theorem onLoop_of_runsDirectly (hs : Pygls.step env s e = some t) (hfollows : Follows s d e d')
    (hdirect : RunsDirectly env G ρ t d') : OnLoop s d.drive e := by
  intro r uuid start f he hr hf hact
  cases hfollows with
  | elsewhere hout =>
    subst he
    exact hout r hr rfl
  | started => cases he
  | acts hacts =>
    cases hacts with
    | ret => cases he
    | sync => cases he
    | task => cases he
    | pool => cases he
    | deliver => cases he
    | yieldGen => cases he
    | @yield leaf rest next frames acts handler mode args uuid' hyield =>
      injection he with hleaf _ hkind _
      subst hleaf
      rw [hkind] at hs
      obtain ⟨-, ⟨g, hg, -⟩, -⟩ := hdirect.unresolved _ _ _ rfl
      cases step_cases hs with
      | ignored _ hrefusable => cases hrefusable
      | @genYield _ f₀ th _ _ _ hf₀ _ hact₀ =>
        rw [hf] at hf₀
        cases hf₀
        rw [hact] at hact₀
        cases hact₀
        have hskel : (State.executeHandler env .worker (.str uuid') .coroutine
            (.runGenerator leaf f.callback) none (s.leave leaf)).skeleton = s.skeleton :=
          (State.skeleton_executeRaised env .worker _ .runtimeError _).trans
            (State.skeleton_leave s leaf)
        have hfresh := congrArg (·[s.fresh]?) hskel
        simp only [State.getElem?_skeleton] at hfresh
        have hnone : s.futures[s.fresh]? = none := List.getElem?_eq_none (Nat.le_refl _)
        rw [hg, hnone] at hfresh
        cases hfresh

/-- An endless run is, from some point on, busy elsewhere only. -/
theorem comes_to_rest {run : Nat → State T × Driven H A}
    (hstart : OnTrack ρ (run 0).1 (run 0).2.drive) (hrun : ∀ k, Turn env (run k) (run (k + 1))) :
    ∃ k, ∀ j, k ≤ j → (run j).2 = (run k).2 := by
  have htrack : ∀ k, OnTrack ρ (run k).1 (run k).2.drive := by
    intro k
    induction k with
    | zero => exact hstart
    | succ k ih =>
      obtain ⟨e, hs, hfollows, hloop⟩ := hrun k
      exact (turn_keeps ih hs hfollows hloop).1
  obtain ⟨c, ⟨k, rfl⟩, hleast⟩ := Lib.Gen.later_wellFounded.has_min
    (Set.range fun k => (run k).2.drive.config (run k).1) ⟨_, 0, rfl⟩
  refine ⟨k, fun j hj => ?_⟩
  suffices hsame : (run j).2 = (run k).2 ∧
      (run j).2.drive.config (run j).1 = (run k).2.drive.config (run k).1 from hsame.1
  induction j, hj using Nat.le_induction with
  | base => exact ⟨rfl, rfl⟩
  | succ j _ ih =>
    obtain ⟨e, hs, hfollows, hloop⟩ := hrun j
    obtain ⟨-, -, ⟨hd, hconfig⟩ | hlater⟩ := turn_keeps (htrack j) hs hfollows hloop
    · exact ⟨hd.trans ih.1, hconfig.trans ih.2⟩
    · rw [ih.2] at hlater
      exact absurd hlater (hleast _ ⟨j + 1, rfl⟩)

end Run

/-- Whatever the kinds of the handlers that a generator yields to, and in whatever order they
end, driving the generator is running it directly, as long as it yields to no coroutine off the
loop; and only so long. No run keeps it busy for ever. -/
theorem generator_runs_directly {env : Env T} {es : List LanguageServer.Event} {s : State T}
    {ρ : Ref} (hrun : Lib.run (LanguageServer.step env) State.init es = some s)
    (hstart : Starts s ρ) (G : Program H A) :
    (∀ (t : State T) (d : Driven H A),
      Relation.ReflTransGen (Turn env) (s, Driven.start ρ G) (t, d) →
        RunsDirectly env G ρ t d ∧
        ∀ (e : Event) (t' : State T) (d' : Driven H A), Pygls.step env t e = some t' →
          Follows t d e d' → (RunsDirectly env G ρ t' d' ↔ OnLoop t d.drive e)) ∧
    ∀ run : Nat → State T × Driven H A, run 0 = (s, Driven.start ρ G) →
      (∀ k, Turn env (run k) (run (k + 1))) → ∃ k, ∀ j, k ≤ j → (run j).2 = (run k).2 := by
  have hturns : Turns (fun _ => False) s := Turns.init.of_run hrun
  constructor
  · intro t d hd
    obtain ⟨htrack, hsteps⟩ := run_keeps hturns hstart hd
    refine ⟨runsDirectly htrack hsteps, ?_⟩
    intro e t' d' hs hfollows
    refine ⟨onLoop_of_runsDirectly hs hfollows, ?_⟩
    intro hloop
    obtain ⟨htrack', hsteps'⟩ := run_keeps hturns hstart (hd.tail ⟨e, hs, hfollows, hloop⟩)
    exact runsDirectly htrack' hsteps'
  · intro run hzero hturn
    have h0 : OnTrack ρ (run 0).1 (run 0).2.drive := by
      rw [hzero]
      exact onTrack_start hturns hstart
    exact comes_to_rest h0 hturn

theorem turns_cons {env : Env T} {s t u : State T} {d d'' : Driven H A} (e : Event)
    (d' : Driven H A) (hs : Pygls.step env s e = some t) (hfollows : Follows s d e d')
    (hne : ∀ r uuid start, e ≠ .genYield r uuid .coroutine start)
    (h : Relation.ReflTransGen (Turn env) (t, d') (u, d'')) :
    Relation.ReflTransGen (Turn env) (s, d) (u, d'') :=
  .head ⟨e, hs, hfollows, fun r uuid start _ he => absurd he (hne r uuid start)⟩ h

/-- A generator that returns what its sync handler returns. -/
theorem generator_runs_directly_sync :
    ∃ s t, Lib.run (LanguageServer.step sampleEnv) State.init
        [.protocol (.request ⟨.int 1, [], .null⟩ none)] = some s ∧
      Relation.ReflTransGen (Turn sampleEnv)
        (s, Driven.start 0 (.yield () .sync () .ret : Program Unit Unit))
        (t, ⟨.done (.int 7), [.called () (), .returned (.int 7), .returned (.int 7)]⟩) ∧
      RunsDirectly sampleEnv (.yield () .sync () .ret : Program Unit Unit) 0 t
        ⟨.done (.int 7), [.called () (), .returned (.int 7), .returned (.int 7)]⟩ := by
  have hrun : Lib.run (LanguageServer.step sampleEnv) State.init
      [.protocol (.request ⟨.int 1, [], .null⟩ none)] = some _ := rfl
  refine ⟨_, _, hrun, (and_iff_left_of_imp ?direct).mpr
    (turns_cons (.genYield 0 [65] .sync none)
      ⟨.busy 1 (.function .sync) [(0, .ret)], [.called () ()]⟩ rfl
      (.acts (.yield (m := .sync) rfl)) nofun <|
    turns_cons (.syncEnd 1 (.returned (.int 7)))
      ⟨.busy 0 (.send .ret) [], [.called () (), .returned (.int 7)]⟩ rfl (.acts .sync) nofun <|
    turns_cons (.genEnd 0 (.returned (.int 7)))
      ⟨.done (.int 7), [.called () (), .returned (.int 7), .returned (.int 7)]⟩ rfl
      (.acts (.ret rfl)) nofun .refl)⟩
  intro hd
  exact ((generator_runs_directly hrun ⟨rfl, _, rfl, rfl, rfl, nofun⟩ _).1 _ _ hd).1

/-- The same with two handlers, a threaded one and a coroutine: the coroutine is refused on the
worker, where the first one's future resumes the generator. -/
theorem generator_stops_on_worker :
    ∃ s t u d d', Lib.run (LanguageServer.step sampleEnv) State.init
        [.protocol (.request ⟨.int 1, [], .null⟩ none)] = some s ∧
      Relation.ReflTransGen (Turn sampleEnv)
        (s, Driven.start 0 (.yield () .thread () fun _ => .yield () .coroutine () .ret :
          Program Unit Unit)) (t, d) ∧
      Pygls.step sampleEnv t (.genYield 0 [66] .coroutine none) = some u ∧
      Follows t d (.genYield 0 [66] .coroutine none) d' ∧
      u.futures[0]?.map Future.state = some (.finished (.raised .runtimeError)) ∧
      ¬RunsDirectly sampleEnv (.yield () .thread () fun _ => .yield () .coroutine () .ret :
          Program Unit Unit) 0 u d' := by
  refine ⟨_, _, _, _, ⟨.busy 2 (.function .coroutine) [(0, .ret)], _⟩, rfl,
    turns_cons (.genYield 0 [65] .thread none)
      ⟨.busy 1 (.function .thread) [(0, _)], [.called () ()]⟩ rfl
      (.acts (.yield (m := .thread) rfl)) nofun <|
    turns_cons (.poolStart 1)
      ⟨.busy 1 (.function .thread) [(0, _)], [.called () ()]⟩ rfl .started nofun <|
    turns_cons (.poolEnd 1 (.returned (.int 7)))
      ⟨.busy 1 .ended [(0, _)], [.called () (), .returned (.int 7)]⟩ rfl (.acts .pool) nofun <|
    turns_cons (.deliver 1 .worker)
      ⟨.busy 0 (.send fun _ => .yield () .coroutine () .ret) [],
        [.called () (), .returned (.int 7)]⟩ rfl (.acts .deliver) nofun .refl,
    rfl, .acts (.yield (m := .coroutine) rfl), rfl, ?_⟩
  intro h
  obtain ⟨⟨f, hf, hpend, -⟩, -⟩ := h.unresolved _ _ _ rfl
  cases hf
  cases hpend

end Pygls.Driving
