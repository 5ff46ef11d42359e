import Pygls.Shutdown
import Pygls.Responses

/-!
# The end of the server process

`_server_exit` of `JsonRPCClient`. Its loop sets an exception on every unfinished future
of the table, whoever waits for it: a task refuses that, and the future of a handler
answers its request, which takes an entry out of the table under the iteration. The
loop comes to its end exactly when neither is in the table.
-/

namespace Pygls

set_option autoImplicit false

variable {T : Type}

namespace State

/-- `if not fut.done(): fut.set_exception(RuntimeError(reason))` -/
def release (env : Env T) (s : State T) (r : Ref) : State T × Option PyExc :=
  match s.futures[r]? with
  | none => (s, none)
  | some f =>
    if f.isOpen then
      if f.isTask then (s, some .runtimeError)
      else
        (runCallback env .main f.callback (.finished (.raised .runtimeError))
          (s.modify r (Future.settle (.finished (.raised .runtimeError)))), none)
    else (s, none)

/-- The loop. A dictionary that changes its size while it is iterated makes the next step of
the iteration raise. -/
def releaseAll (env : Env T) (size : Nat) : List (MsgId × Ref) → State T → State T × Option PyExc
  | [], s => (s, if s.requestFutures.size = size then none else some .runtimeError)
  | (_, r) :: rest, s =>
    if s.requestFutures.size = size then
      match s.release env r with
      | (t, none) => releaseAll env size rest t
      | (t, some e) => (t, some e)
    else (s, some .runtimeError)

end State

structure Client (T : Type) where
  protocol : State T
  hookCalls : Nat
  stopEvent : Bool

namespace Client

/-- `_server_exit` once the process has ended. Whatever the hook `server_exit` raises is
caught. -/
def serverExit (env : Env T) (c : Client T) : Client T × Option PyExc :=
  let table := c.protocol.requestFutures
  match c.protocol.releaseAll env table.size table.entries with
  | (s, none) => ({ protocol := s, hookCalls := c.hookCalls + 1, stopEvent := true }, none)
  | (s, some e) => ({ c with protocol := s }, some e)

/-- The loop has run to its end, every outgoing request that was pending has failed, the
hook was called once and the client has stopped. -/
structure Released (env : Env T) (p : State T × Asked) (stopEvent : Bool) : Prop where
  ends : (serverExit env ⟨p.1, 0, stopEvent⟩).2 = none
  callers : ∀ id r, (id, r) ∈ p.2 → p.1.pendingAt r = true →
    ∃ f e, (serverExit env ⟨p.1, 0, stopEvent⟩).1.protocol.futures[r]? = some f ∧
      f.state = .finished (.raised e)
  hook : (serverExit env ⟨p.1, 0, stopEvent⟩).1.hookCalls = 1
  stop : (serverExit env ⟨p.1, 0, stopEvent⟩).1.stopEvent = true

/-- An unfinished future that the loop does not survive: a task, or one whose exception answers
a request that is in the table. -/
def Harmful (s : State T) (f : Future) : Prop :=
  f.isTask = true ∨ ∃ id n, reaches s f.callback = some (id, n) ∧ s.requestFutures.get? id ≠ none

/-- Every pending outgoing request is in the table, and nothing harmful. -/
structure Releasable (p : State T × Asked) : Prop where
  callers : ∀ id r, (id, r) ∈ p.2 → p.1.pendingAt r = true → ∃ k, p.1.requestFutures.get? k = some r
  harmless : ∀ k r f, p.1.requestFutures.get? k = some r → p.1.futures[r]? = some f →
    f.isOpen = true → ¬Harmful p.1 f

/-- What setting the exception on the future of the callback does. -/
structure Ends (s t : State T) (cb : Callback) : Prop where
  table : t.requestFutures =
    (reaches s cb).elim s.requestFutures fun p => s.requestFutures.pop p.1
  futures : ∀ (i : Ref), t.futures[i]? = s.futures[i]? ∨
    ∃ f, s.futures[i]? = some f ∧ f.isTask = false ∧ f.isOpen = true ∧
      reaches s f.callback = reaches s cb ∧
      t.futures[i]? = some (f.settle (.finished (.raised .runtimeError)))

section Release

variable (env : Env T) {s t : State T} {cb : Callback}

theorem release_done {r : Ref} (h : s.futures[r]?.any Future.isOpen = false) :
    s.release env r = (s, none) := by
  rw [State.release]
  cases hf : s.futures[r]? with
  | none => rfl
  | some f =>
    rw [hf, Option.any_some] at h
    dsimp only
    rw [h]
    rfl

theorem release_task {r : Ref} {f : Future} (hf : s.futures[r]? = some f) (hopen : f.isOpen = true)
    (htask : f.isTask = true) : s.release env r = (s, some .runtimeError) := by
  rw [State.release, hf]
  dsimp only
  rw [hopen, htask]
  rfl

theorem release_open (hl : Linked s) {r : Ref} {f : Future} (hf : s.futures[r]? = some f)
    (hopen : f.isOpen = true) (htask : f.isTask = false) :
    ∃ t, s.release env r = (t, none) ∧ Shrinks s t ∧ Ends s t f.callback ∧
      t.futures[r]? = some (f.settle (.finished (.raised .runtimeError))) := by
  have hself := State.getElem?_modify_self
    (g := Future.settle (.finished (.raised .runtimeError))) hf
  have hsettle : Shrinks s (s.modify r (Future.settle (.finished (.raised .runtimeError)))) :=
    Shrinks.of_settle s r (fun heq => nomatch heq)
  obtain ⟨hfails, habove⟩ := runCallback_fails env .main (x := .runtimeError) rfl
    (c := .finished (.raised .runtimeError)) rfl (hl.congr hsettle.skeleton) hself rfl
  have hreach := reaches_modify hl (Future.settle (.finished (.raised .runtimeError)))
    (Nat.le_refl r) hf
  rw [show (f.settle (.finished (.raised .runtimeError))).callback = f.callback from rfl] at *
  rw [hreach] at hfails
  refine ⟨_, ?_, hsettle.trans (Shrinks.runCallback env .main f.callback _ _), ⟨hfails.table, ?_⟩,
    (habove r (Nat.le_refl r)).trans hself⟩
  · rw [State.release, hf]
    dsimp only
    rw [hopen, htask]
    rfl
  · intro i
    have hother : i ≠ r →
        (s.modify r (Future.settle (.finished (.raised .runtimeError)))).futures[i]? =
          s.futures[i]? := by
      intro hir
      rw [State.getElem?_modify_ne hir]
    rcases Nat.lt_or_ge i r with hir | hir
    · rcases hfails.futures i with hi | ⟨g, hg, hgen, hp, hy, hnew⟩
      · exact Or.inl (hi.trans (hother (Nat.ne_of_lt hir)))
      · rw [hother (Nat.ne_of_lt hir)] at hg
        have hgtask : g.isTask = false := by
          simp [Future.isTask, hgen]
        rw [reaches_modify hl _ (Nat.le_of_lt hir) hg] at hy
        exact Or.inr ⟨g, hg, hgtask, isOpen_of_isPending hp, hy, hnew⟩
    · by_cases heq : i = r
      · subst heq
        exact Or.inr ⟨f, hf, htask, hopen, rfl, (habove i hir).trans hself⟩
      · exact Or.inl ((habove i hir).trans (hother heq))

/-- What leads to a request still does, unless the future that was ended leads to it too. -/
theorem Ends.reaches_or (h : Ends s t cb) (hl : Linked s) {cb' : Callback} {i : Ref} {f : Future}
    (hf : s.futures[i]? = some f) (hcb : f.callback = cb') {x : MsgId × Nat}
    (hx : reaches s cb' = some x) : reaches t cb' = some x ∨ reaches s cb = some x := by
  induction cb' generalizing i f with
  | sendHandlerResult id n => exact Or.inl hx
  | checkHandlerResult => cases hx
  | client => cases hx
  | runGenerator r up ih =>
    obtain ⟨g, hg, hup, -⟩ := hl.parent hf hcb
    rw [reaches] at hx
    split at hx
    · rename_i hat
      rcases h.futures r with hsame | ⟨g', hg', -, -, hreach, -⟩
      · have hat' : t.pendingAt r = true := by
          rw [State.pendingAt, hsame]
          exact hat
        rcases ih hg hup hx with hleft | hright
        · exact Or.inl (by rw [reaches, if_pos hat', hleft])
        · exact Or.inr hright
      · rw [hg] at hg'
        cases hg'
        rw [hup, hx] at hreach
        exact Or.inr hreach.symm
    · cases hx

theorem Ends.table_eq (h : Ends s t cb)
    (hno : ∀ id n, reaches s cb = some (id, n) → s.requestFutures.get? id = none) :
    t.requestFutures = s.requestFutures := by
  rw [h.table]
  cases hx : reaches s cb with
  | none => rfl
  | some p => exact Lib.Dict.pop_of_get?_none (hno p.1 p.2 hx)

/-- Where the table has kept its size, nothing was taken out of it. -/
theorem Ends.answers_none (h : Ends s t cb) (hsize : t.requestFutures.size = s.requestFutures.size)
    {id : MsgId} {n : Nat} (hx : reaches s cb = some (id, n)) :
    s.requestFutures.get? id = none := by
  rw [h.table, hx] at hsize
  exact Lib.Dict.get?_eq_none_of_size_pop hsize

/-- What the loop leaves of the futures. -/
def Failed (s t : State T) : Prop :=
  ∀ (i : Ref), t.futures[i]? = s.futures[i]? ∨
    ∃ f, s.futures[i]? = some f ∧ f.isOpen = true ∧
      t.futures[i]? = some (f.settle (.finished (.raised .runtimeError)))

theorem Failed.refl (s : State T) : Failed s s := fun _ => Or.inl rfl

theorem Failed.trans {u : State T} (h : Failed s t) (h' : Failed t u) : Failed s u := by
  intro i
  rcases h i with hi | ⟨f, hf, hopen, hi⟩
  · rcases h' i with hi' | ⟨g, hg, hopen, hi'⟩
    · exact Or.inl (hi'.trans hi)
    · rw [hi] at hg
      exact Or.inr ⟨g, hg, hopen, hi'⟩
  · rcases h' i with hi' | ⟨g, hg, hopen', -⟩
    · exact Or.inr ⟨f, hf, hopen, hi'.trans hi⟩
    · rw [hi] at hg
      cases hg
      cases hopen'

theorem Ends.failed (h : Ends s t cb) : Failed s t := by
  intro i
  rcases h.futures i with hi | ⟨f, hf, -, hopen, -, hi⟩
  · exact Or.inl hi
  · exact Or.inr ⟨f, hf, hopen, hi⟩

theorem not_harmful (hst : Shrinks s t)
    (htable : t.requestFutures = s.requestFutures) {f : Future} (hf : ¬Harmful s f) :
    ¬Harmful t f := by
  rintro (htask | ⟨id, n, hx, hget⟩)
  · exact hf (Or.inl htask)
  · rw [htable] at hget
    exact hf (Or.inr ⟨id, n, reaches_mono hst hx, hget⟩)

theorem Failed.closed (h : Failed s t) {r : Ref} (hr : s.futures[r]?.any Future.isOpen = false) :
    t.futures[r]?.any Future.isOpen = false := by
  rcases h r with hsame | ⟨f, -, -, hnew⟩
  · rw [hsame]
    exact hr
  · rw [hnew]
    rfl

/-- Other outgoing requests are left alone. -/
theorem release_outgoing (hl : Linked s) {r i : Ref} (hi : s.skeleton[i]? = some (none, .client))
    (hir : i ≠ r) : (s.release env r).1.futures[i]? = s.futures[i]? := by
  rw [State.release]
  split
  · rfl
  · rename_i f hf
    split
    · split
      · rfl
      · have hself := State.getElem?_modify_self
          (g := Future.settle (.finished (.raised .runtimeError))) hf
        have hsk := State.skeleton_modify s r
          (g := Future.settle (.finished (.raised .runtimeError))) (fun _ => rfl) (fun _ => rfl)
        refine (runCallback_outgoing env (hl.congr hsk) hself _ (hsk ▸ hi)).trans ?_
        rw [State.getElem?_modify_ne hir]
    · rfl

theorem skeleton_release (s : State T) (r : Ref) : (s.release env r).1.skeleton = s.skeleton := by
  rw [State.release]
  split
  · rfl
  · split
    · split
      · rfl
      · rw [State.skeleton_runCallback]
        exact State.skeleton_modify s r (fun _ => rfl) (fun _ => rfl)
    · rfl

variable {env}

theorem releaseAll_size {size : Nat} {entries : List (MsgId × Ref)}
    (h : (s.releaseAll env size entries).2 = none) : s.requestFutures.size = size := by
  by_contra hne
  cases entries with
  | nil =>
    rw [State.releaseAll, if_neg hne] at h
    cases h
  | cons e entries =>
    rw [State.releaseAll, if_neg hne] at h
    cases h

theorem releaseAll_cons {k : MsgId} {r : Ref} {entries : List (MsgId × Ref)}
    (h : s.release env r = (t, none)) :
    s.releaseAll env s.requestFutures.size ((k, r) :: entries) =
      t.releaseAll env s.requestFutures.size entries := by
  rw [State.releaseAll, if_pos rfl, h]

/-- The loop comes to its end, and every future it was to release is done. -/
theorem releaseAll_ends (env : Env T) (entries : List (MsgId × Ref)) (s : State T) (hl : Linked s)
    (hok : ∀ k r f, (k, r) ∈ entries → s.futures[r]? = some f → f.isOpen = true → ¬Harmful s f) :
    ∃ t, s.releaseAll env s.requestFutures.size entries = (t, none) ∧ Failed s t ∧
      ∀ k r, (k, r) ∈ entries → t.futures[r]?.any Future.isOpen = false := by
  induction entries generalizing s with
  | nil =>
    refine ⟨s, ?_, Failed.refl s, nofun⟩
    rw [State.releaseAll, if_pos rfl]
  | cons e entries ih =>
    obtain ⟨k, r⟩ := e
    -- one round of the loop
    have hround : ∃ t, s.release env r = (t, none) ∧ Linked t ∧
        t.requestFutures = s.requestFutures ∧ Failed s t ∧
        t.futures[r]?.any Future.isOpen = false ∧
        ∀ (i : Ref) (f : Future), t.futures[i]? = some f → f.isOpen = true → s.futures[i]? = some f ∧
          (¬Harmful s f → ¬Harmful t f) := by
      cases hopen : s.futures[r]?.any Future.isOpen with
      | false =>
        refine ⟨s, release_done env hopen, hl, rfl, Failed.refl s, hopen, ?_⟩
        intro i f hf _
        exact ⟨hf, fun h => h⟩
      | true =>
        obtain ⟨f, hf, ho⟩ := (Option.any_eq_true _ _).mp hopen
        have hharm := hok k r f List.mem_cons_self hf ho
        have htask : f.isTask = false := Bool.eq_false_iff.mpr fun h => hharm (Or.inl h)
        obtain ⟨t, ht, hst, hends, hself⟩ := release_open env hl hf ho htask
        have htable : t.requestFutures = s.requestFutures := by
          apply hends.table_eq
          intro id n hx
          by_contra hget
          exact hharm (Or.inr ⟨id, n, hx, hget⟩)
        refine ⟨t, ht, hl.congr hst.skeleton, htable, hends.failed, by rw [hself]; rfl, ?_⟩
        intro i g hg hgo
        rcases hends.futures i with hsame | ⟨g', -, -, -, -, hnew⟩
        · rw [hsame] at hg
          exact ⟨hg, not_harmful hst htable⟩
        · rw [hnew] at hg
          cases hg
          cases hgo
    obtain ⟨t, ht, hl', htable, hfailed, hclosed, hback⟩ := hround
    obtain ⟨u, hu, hfailed', hdone⟩ := ih t hl' (by
      intro k' r' f hmem hf hopen
      obtain ⟨hf', hharm⟩ := hback r' f hf hopen
      exact hharm (hok k' r' f (List.mem_cons_of_mem _ hmem) hf' hopen))
    refine ⟨u, ?_, hfailed.trans hfailed', ?_⟩
    · rw [releaseAll_cons ht, ← htable]
      exact hu
    · intro k' r' hmem
      rcases List.mem_cons.mp hmem with heq | hmem
      · cases heq
        exact hfailed'.closed hclosed
      · exact hdone k' r' hmem

/-- What was harmful before one round of the loop still is, if the round took nothing out of
the table. -/
theorem Ends.harmful {f : Future} {r : Ref} (h : Ends s t f.callback) (hl : Linked s)
    (hanswers : ∀ id n, reaches s f.callback = some (id, n) → s.requestFutures.get? id = none)
    {g : Future} (hg : s.futures[r]? = some g) (hharm : Harmful s g) :
    t.futures[r]? = some g ∧ Harmful t g := by
  have hkept : t.futures[r]? = s.futures[r]? := by
    rcases h.futures r with hsame | ⟨g', hg', hgtask, -, hreach, -⟩
    · exact hsame
    · rw [hg] at hg'
      cases hg'
      rcases hharm with hgt | ⟨id, n, hx, hget⟩
      · rw [hgtask] at hgt
        cases hgt
      · exact absurd (hanswers id n (hreach ▸ hx)) hget
  refine ⟨hkept.trans hg, ?_⟩
  rcases hharm with hgt | ⟨id, n, hx, hget⟩
  · exact Or.inl hgt
  · rcases h.reaches_or hl hg rfl hx with hleft | hright
    · exact Or.inr ⟨id, n, hleft, by rwa [h.table_eq hanswers]⟩
    · exact absurd (hanswers id n hright) hget

/-- A loop that comes to its end has met nothing harmful. -/
theorem harmless_of_releaseAll (env : Env T) (entries : List (MsgId × Ref)) (s : State T)
    (hl : Linked s) (h : (s.releaseAll env s.requestFutures.size entries).2 = none) (k : MsgId)
    (r : Ref) (f : Future) (hmem : (k, r) ∈ entries) (hf : s.futures[r]? = some f)
    (hopen : f.isOpen = true) : ¬Harmful s f := by
  induction entries generalizing s with
  | nil => cases hmem
  | cons e entries ih =>
    obtain ⟨j, i⟩ := e
    cases hhead : s.futures[i]?.any Future.isOpen with
    | false =>
      rw [releaseAll_cons (release_done env hhead)] at h
      rcases List.mem_cons.mp hmem with heq | hmem
      · cases heq
        rw [hf, Option.any_some, hopen] at hhead
        cases hhead
      · exact ih s hl h hmem hf
    | true =>
      obtain ⟨g, hg, hgopen⟩ := (Option.any_eq_true _ _).mp hhead
      have htask : g.isTask = false := by
        rw [Bool.eq_false_iff]
        intro htask
        rw [State.releaseAll, if_pos rfl, release_task env hg hgopen htask] at h
        cases h
      obtain ⟨t, ht, hst, hends, hself⟩ := release_open env hl hg hgopen htask
      rw [releaseAll_cons ht] at h
      have hsize := releaseAll_size h
      intro hharm
      obtain ⟨hkept, hharm'⟩ := hends.harmful hl
        (fun id n hx => hends.answers_none hsize hx) hf hharm
      rcases List.mem_cons.mp hmem with heq | hmem
      · cases heq
        rw [hself] at hkept
        cases hkept
        cases hopen
      · rw [← hsize] at h
        exact ih t (hl.congr hst.skeleton) h hmem hkept hharm'

/-- An outgoing request that is not in the table is left alone. -/
theorem releaseAll_outgoing (env : Env T) (size : Nat) (entries : List (MsgId × Ref)) (s : State T)
    (hl : Linked s) {i : Ref} (hi : s.skeleton[i]? = some (none, .client))
    (hnot : ∀ k, (k, i) ∉ entries) :
    (s.releaseAll env size entries).1.futures[i]? = s.futures[i]? := by
  induction entries generalizing s with
  | nil => rfl
  | cons e entries ih =>
    obtain ⟨k, r⟩ := e
    have hir : i ≠ r := by
      rintro rfl
      exact hnot k List.mem_cons_self
    have hsame := release_outgoing env hl hi hir
    have hsk := skeleton_release env s r
    rw [State.releaseAll]
    split
    · split
      · rename_i t ht
        rw [ht] at hsame hsk
        have hrest := ih t (hl.congr hsk) (hsk ▸ hi) fun k' hmem =>
          hnot k' (List.mem_cons_of_mem _ hmem)
        exact hrest.trans hsame
      · rename_i t x ht
        rw [ht] at hsame
        exact hsame
    · rfl

end Release

theorem serverExit_fst (env : Env T) (c : Client T) :
    (c.serverExit env).1.protocol =
      (c.protocol.releaseAll env c.protocol.requestFutures.size
        c.protocol.requestFutures.entries).1 := by
  simp only [serverExit]
  split <;> (rename_i heq; rw [heq])

theorem serverExit_snd (env : Env T) (c : Client T) :
    (c.serverExit env).2 =
      (c.protocol.releaseAll env c.protocol.requestFutures.size
        c.protocol.requestFutures.entries).2 := by
  simp only [serverExit]
  split <;> (rename_i heq; rw [heq])

section Exit

variable {env : Env T} {p : State T × Asked} {stopEvent : Bool}

theorem releasable_of_released (hk : Kept p) (h : Released env p stopEvent) : Releasable p := by
  have hends := h.ends
  rw [serverExit_snd] at hends
  constructor
  · intro id r hmem hpend
    by_contra hnot
    have habsent : ∀ k, (k, r) ∉ p.1.requestFutures.entries := fun k hr =>
      hnot ⟨k, Lib.Dict.get?_of_mem hr⟩
    obtain ⟨f, e, hf, hst⟩ := h.callers id r hmem hpend
    rw [serverExit_fst, releaseAll_outgoing env _ _ p.1 hk.linked (hk.asked id r hmem) habsent] at hf
    rw [State.pendingAt, hf, Option.any_some, Future.isPending, hst] at hpend
    cases hpend
  · intro k r f hr hf hopen
    exact harmless_of_releaseAll env _ p.1 hk.linked hends k r f (Lib.Dict.mem_of_get? hr) hf hopen

theorem released_of_releasable (hk : Kept p) (h : Releasable p) : Released env p stopEvent := by
  obtain ⟨t, ht, hfailed, hclosed⟩ := releaseAll_ends env p.1.requestFutures.entries p.1 hk.linked
    fun k r f hr hf hopen => h.harmless k r f (Lib.Dict.get?_of_mem hr) hf hopen
  have hexit : serverExit env ⟨p.1, 0, stopEvent⟩ = (⟨t, 1, true⟩, none) := by
    simp only [serverExit, ht]
  constructor
  · rw [hexit]
  · intro id r hmem hpend
    obtain ⟨k, hr⟩ := h.callers id r hmem hpend
    have hdone := hclosed k r (Lib.Dict.mem_of_get? hr)
    rw [hexit]
    rcases hfailed r with hsame | ⟨f, -, -, hnew⟩
    · obtain ⟨f, hf, hp⟩ := (Option.any_eq_true _ _).mp hpend
      rw [hsame, hf, Option.any_some, isOpen_of_isPending hp] at hdone
      cases hdone
    · exact ⟨_, .runtimeError, hnew, rfl⟩
  · rw [hexit]
  · rw [hexit]

end Exit

/-- In every reachable state the end of the server releases every caller exactly when the
table holds all that wait and nothing harmful. -/
theorem server_exit_releases_callers {env : Env T} {es : List LanguageServer.Event}
    {p : State T × Asked} (hrun : Lib.run (asking env) (State.init, []) es = some p)
    (stopEvent : Bool) : Released env p stopEvent ↔ Releasable p :=
  ⟨releasable_of_released (Kept.of_run hrun), released_of_releasable (Kept.of_run hrun)⟩

/-- A pending request, and one that was cancelled. -/
theorem server_exit_releases_callers_cancelled :
    ∃ p, Lib.run (asking sampleEnv) (State.init, [])
        [.protocol (.sendRequest (.int 1) [] .none), .protocol (.sendRequest (.int 2) [] .none),
          .protocol (.cancelOutgoing 1)] = some p ∧ Released sampleEnv p false := by
  have hrun : Lib.run (asking sampleEnv) (State.init, [])
      [.protocol (.sendRequest (.int 1) [] .none), .protocol (.sendRequest (.int 2) [] .none),
        .protocol (.cancelOutgoing 1)] = some _ := rfl
  refine ⟨_, rfl, (server_exit_releases_callers hrun false).mpr ⟨?_, ?_⟩⟩
  · intro id r hmem hpend
    rcases List.mem_cons.mp hmem with heq | hmem
    · cases heq
      exact ⟨.int 1, rfl⟩
    · cases List.mem_singleton.mp hmem
      cases hpend
  · intro k r f hr hf hopen
    rcases List.mem_cons.mp (Lib.Dict.mem_of_get? hr) with heq | hmem
    · cases heq
      cases hf
      rintro (htask | ⟨id, n, hx, -⟩)
      · cases htask
      · cases hx
    · cases List.mem_singleton.mp hmem
      cases hf
      cases hopen

/-- The server dies while an async handler of the client runs, and while a generator handles
a request: the loop raises, and the caller whose entry comes later waits for ever. -/
theorem server_exit_abandons_callers :
    (∃ p, Lib.run (asking { sampleEnv with fm := ⟨fun _ => none, fun _ => some .coroutine⟩ })
        (State.init, [])
        [.protocol (.request ⟨.int 1, [], .null⟩ none),
          .protocol (.sendRequest (.int 2) [] .none)] = some p ∧
      ¬Released { sampleEnv with fm := ⟨fun _ => none, fun _ => some .coroutine⟩ } p false) ∧
    (∃ p, Lib.run (asking sampleEnv) (State.init, [])
        [.protocol (.request ⟨.int 1, [], .null⟩ none), .protocol (.genYield 0 [65] .coroutine none),
          .protocol (.sendRequest (.int 2) [] .none)] = some p ∧
      ¬Released sampleEnv p false) := by
  refine ⟨⟨_, rfl, ?_⟩, ⟨_, rfl, ?_⟩⟩
  · intro h
    cases h.ends
  · intro h
    cases h.ends

end Client

end Pygls
