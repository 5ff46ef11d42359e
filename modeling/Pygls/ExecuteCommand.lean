import Pygls.CommandArguments
import Pygls.Responses
import Pygls.Yielded

/-!
# Commands

`lsp_workspace__execute_command` looks a command up, prepares its arguments, yields once to
the command's handler and returns what that returns. In between, the protocol goes on with
other messages, and the request may be cancelled.
-/

namespace Pygls.ExecuteCommand

open CommandArguments Features

set_option autoImplicit false

variable {T C V : Type}

def executeCommandMethod : Method := text "workspace/executeCommand"

/-- A registered handler: the way it runs, and its function. -/
structure Command (C : Type) where
  kind : HandlerKind
  function : Function C

structure ExecuteCommandParams (V : Type) where
  command : Str
  arguments : Option (List V)

/-- `params` is the converter's hook for the parameters of the request, `repr` that of a string
in Python. `str` gives the texts of the exceptions which the function does not make itself. -/
structure Setup (T C V : Type) where
  env : Env T
  commands : Str → Option (Command C)
  languageServer : C
  params : Json → ExecuteCommandParams V
  converts : V → Option (TypeHint C) → Bool
  repr : Str → Str
  str : ArgumentsError → Str

/-- A call of a command's handler; `future` is that of the request. -/
structure Call (C V : Type) where
  future : Ref
  handler : Command C
  args : List (Argument C V)

/-- The protocol, what has happened to it, and the calls of command handlers so far. -/
structure Server (T C V : Type) where
  protocol : State T
  log : List Pygls.Event
  calls : List (Call C V)

def Server.init : Server T C V := ⟨State.init, [], []⟩

/-- `segment` is the code of the built-in handler up to its next `yield` or its end, with the
uuid and the start of the handler that it may yield to. -/
inductive Event where
  | protocol (event : Pygls.Event)
  | segment (future : Ref) (uuid : Str) (start : Start)

def invalidParams (message : Str) : JsonRpcException :=
  .init .invalidParams (ErrorClass.invalidParams.message ++ text ": " ++ message) 0 .none

def message (str : ArgumentsError → Str) : ArgumentsError → Str
  | .expected parameters arguments =>
    text "Expected " ++ Json.intText parameters ++ text " arguments, got " ++
      Json.intText arguments
  | e => str e

namespace Setup

variable (setup : Setup T C V)

def builtin : Env T :=
  { setup.env with
    fm := { setup.env.fm with
      builtinFeatures := fun method =>
        if method = executeCommandMethod then some .generator
        else setup.env.fm.builtinFeatures method } }

theorem getHandler_executeCommand :
    setup.builtin.fm.getHandler executeCommandMethod = some .generator := by
  simp [builtin, FeatureManager.getHandler]

/-- The parameters of the request that the built-in handler of the future is for. -/
def params? (s : State T) (r : Ref) : Option (ExecuteCommandParams V) :=
  s.futures[r]?.bind fun f =>
    match f.callback with
    | .sendHandlerResult _ n =>
      s.received[n]?.bind fun q =>
        if q.1.method = executeCommandMethod then some (setup.params q.1.params) else none
    | _ => none

/-- The built-in handler's code runs in events of its own; calling it raises nothing. -/
def reserved (s : State T) : Pygls.Event → Bool
  | .request q start => q.method = executeCommandMethod && start.isSome
  | .genYield r _ _ _ => (setup.params? s r).isSome
  | .genEnd r _ => (setup.params? s r).isSome
  | _ => false

theorem params?_eq_some {setup : Setup T C V} {s : State T} {r : Ref}
    {params : ExecuteCommandParams V} :
    setup.params? s r = some params ↔
      ∃ (f : Future) (id : MsgId) (n : Nat) (q : Request × Start), s.futures[r]? = some f ∧
        f.callback = .sendHandlerResult id n ∧ s.received[n]? = some q ∧
        q.1.method = executeCommandMethod ∧ params = setup.params q.1.params := by
  constructor
  · intro h
    obtain ⟨f, hf, h⟩ := Option.bind_eq_some_iff.mp h
    split at h
    · rename_i id n hcb
      obtain ⟨q, hq, h⟩ := Option.bind_eq_some_iff.mp h
      split at h
      · rename_i hmethod
        cases h
        exact ⟨f, id, n, q, hf, hcb, hq, hmethod, rfl⟩
      · cases h
    · cases h
  · rintro ⟨f, id, n, q, hf, hcb, hq, hmethod, rfl⟩
    simp [params?, hf, hcb, hq, hmethod]

/-- A future that is there keeps the request that it is for. -/
theorem params?_of_step {setup : Setup T C V} {env : Env T} {s : State T} {pe : Pygls.Event}
    {t : State T} (hd : Discipline s)
    (hs : Pygls.step env s pe = some t) {r : Ref} {f : Future} (hf : s.futures[r]? = some f) :
    setup.params? t r = setup.params? s r := by
  obtain ⟨new, hnew⟩ := step_enlarges hs
  obtain ⟨g, hg, -, hcb⟩ := hnew.stays hf
  have hs' : LanguageServer.step env s (.protocol pe) = some t := hs
  unfold params?
  rw [hf, hg, Option.bind_some, Option.bind_some, hcb]
  cases hcall : f.callback with
  | sendHandlerResult id n =>
    obtain ⟨q, hq, -⟩ := hd.request r f id n hf hcall
    have ht : t.received[n]? = some q := getElem?_of_prefix (received_mono hs') hq
    dsimp only
    rw [ht, hq]
  | checkHandlerResult => rfl
  | client => rfl
  | runGenerator i up => rfl

variable [LE C] [DecidableLE C]

/-- `lsp_workspace__execute_command` before its `yield`. -/
def resolve (params : ExecuteCommandParams V) :
    Except JsonRpcException (Command C × List (Argument C V)) :=
  match setup.commands params.command with
  | none =>
    .error (invalidParams
      (text "Command name " ++ setup.repr params.command ++ text " is not defined"))
  | some handler =>
    match prepareCommandArguments setup.converts setup.languageServer handler.function
        params.arguments with
    | .error e => .error (invalidParams (message setup.str e))
    | .ok args => .ok (handler, args)

/-- What the code does next, as an event of the protocol, and the call it makes. -/
def segment (f : Future) (r : Ref) (params : ExecuteCommandParams V) (uuid : Str) (start : Start) :
    Pygls.Event × List (Call C V) :=
  if f.resumed then (.genEnd r (.returned f.value), [])
  else
    match setup.resolve params with
    | .error e => (.genEnd r (.raised (.jsonRpc e)), [])
    | .ok (handler, args) => (.genYield r uuid handler.kind start, [⟨r, handler, args⟩])

def effect (s : State T) : Event → Option (Pygls.Event × List (Call C V))
  | .protocol e => if setup.reserved s e then none else some (e, [])
  | .segment r uuid start =>
    s.futures[r]?.bind fun f =>
      (setup.params? s r).map fun params => setup.segment f r params uuid start

end Setup

variable [LE C] [DecidableLE C]

def step (setup : Setup T C V) (p : Server T C V) (e : Event) : Option (Server T C V) :=
  (setup.effect p.protocol e).bind fun x =>
    (Pygls.step setup.builtin p.protocol x.1).map fun s => ⟨s, p.log ++ [x.1], p.calls ++ x.2⟩

/-- What the handlers and the peer may do, for the event of the protocol; and it makes up no
exception. -/
def Setup.Orderly (setup : Setup T C V) (p : Server T C V) (e : Event) : Prop :=
  ∀ x, setup.effect p.protocol e = some x →
    Pygls.Orderly p.protocol x.1 ∧ Truthful p.protocol x.1

/-- The handler that the generator of `r` yielded to raised the exception, or calling it did. -/
inductive Failed (es : List Pygls.Event) (fs : List Future) (r : Ref) : PyExc → Prop where
  | notStarted {uuid : Str} {kind : HandlerKind} {x : PyExc} :
      .genYield r uuid kind (some x) ∈ es → kind.scheduled = true → Failed es fs r x
  | raised {i : Ref} {f : Future} {up : Callback} {x : PyExc} : fs[i]? = some f →
      f.callback = .runGenerator r up → Raised es fs i x → Failed es fs r x

/-- How the answer to a request for a command comes about. -/
inductive Accounts (setup : Setup T C V) (p : Server T C V) (id : MsgId) (r : Ref)
    (params : ExecuteCommandParams V) (a : Answer T) : Prop where
  | invalid {e : JsonRpcException} : setup.resolve params = .error e →
      e.toResponseError.answer = some a → Accounts setup p id r params a
  | result {c : Call C V} {i : Ref} {f : Future} {up : Callback} {v : PyValue} : c ∈ p.calls →
      c.future = r → p.protocol.futures[i]? = some f → f.callback = .runGenerator r up →
      f.handler = some c.handler.kind → Ended p.log i (.returned v) →
      setup.env.answer none v = some a → Accounts setup p id r params a
  | failed {c : Call C V} {x : PyExc} : c ∈ p.calls → c.future = r →
      Failed p.log p.protocol.futures r x →
      (x.toResponseError setup.env.traceback).answer = some a → Accounts setup p id r params a
  | cancelled {f : Future} : p.protocol.futures[r]? = some f → f.state = .cancelled →
      (requestCancelled id).toResponseError.answer = some a → Accounts setup p id r params a

/-- What an event can come to. -/
inductive Does (setup : Setup T C V) (s : State T) :
    Event → Pygls.Event → List (Call C V) → Prop where
  | protocol {e : Pygls.Event} : setup.reserved s e = false → Does setup s (.protocol e) e []
  | returns {r : Ref} {f : Future} {params : ExecuteCommandParams V} {uuid : Str} {start : Start} :
      s.futures[r]? = some f → setup.params? s r = some params → f.resumed = true →
      Does setup s (.segment r uuid start) (.genEnd r (.returned f.value)) []
  | rejects {r : Ref} {f : Future} {params : ExecuteCommandParams V} {uuid : Str} {start : Start}
      {e : JsonRpcException} :
      s.futures[r]? = some f → setup.params? s r = some params → setup.resolve params = .error e →
      Does setup s (.segment r uuid start) (.genEnd r (.raised (.jsonRpc e))) []
  | calls {r : Ref} {f : Future} {params : ExecuteCommandParams V} {uuid : Str} {start : Start}
      {handler : Command C} {args : List (Argument C V)} :
      s.futures[r]? = some f → setup.params? s r = some params → f.resumed = false →
      setup.resolve params = .ok (handler, args) →
      Does setup s (.segment r uuid start) (.genYield r uuid handler.kind start)
        [⟨r, handler, args⟩]

section Steps

variable {setup : Setup T C V} {s : State T} {p p' : Server T C V} {e : Event}

theorem effect_cases {x : Pygls.Event × List (Call C V)} (h : setup.effect s e = some x) :
    Does setup s e x.1 x.2 := by
  cases e with
  | protocol e =>
    simp only [Setup.effect] at h
    split at h
    · cases h
    · rename_i hfree
      cases h
      exact .protocol (eq_false_of_ne_true hfree)
  | segment r uuid start =>
    obtain ⟨f, hf, hx⟩ := Option.bind_eq_some_iff.mp h
    obtain ⟨params, hparams, rfl⟩ := Option.map_eq_some_iff.mp hx
    unfold Setup.segment
    split
    · rename_i hres
      exact .returns hf hparams hres
    · rename_i hres
      split
      · rename_i hrej
        exact .rejects hf hparams hrej
      · rename_i hok
        exact .calls hf hparams (eq_false_of_ne_true hres) hok

theorem step_does (h : step setup p e = some p') :
    ∃ (pe : Pygls.Event) (calls : List (Call C V)), setup.effect p.protocol e = some (pe, calls) ∧
      Does setup p.protocol e pe calls ∧
      Pygls.step setup.builtin p.protocol pe = some p'.protocol ∧ p'.log = p.log ++ [pe] ∧
      p'.calls = p.calls ++ calls := by
  obtain ⟨x, hx, h⟩ := Option.bind_eq_some_iff.mp h
  obtain ⟨t, ht, rfl⟩ := Option.map_eq_some_iff.mp h
  exact ⟨x.1, x.2, hx, effect_cases hx, ht, rfl, rfl⟩

end Steps

/-- What holds of a server between any two events. -/
structure Serves (setup : Setup T C V) (p : Server T C V) : Prop where
  accounted : Accounted setup.builtin p.log p.protocol
  fed : Fed (Yielded p.log) p.protocol
  handler : Assigned setup.builtin p.protocol
  start : ∀ q ∈ p.protocol.received, q.1.method = executeCommandMethod → q.2 = none
  child : ∀ (r i : Ref) (f : Future) (up : Callback) (params : ExecuteCommandParams V),
    p.protocol.futures[i]? = some f → f.callback = .runGenerator r up →
    setup.params? p.protocol r = some params →
    ∃ c ∈ p.calls, c.future = r ∧ f.handler = some c.handler.kind
  yielded : ∀ (r : Ref) (params : ExecuteCommandParams V), Yielded p.log r →
    setup.params? p.protocol r = some params → ∃ c ∈ p.calls, c.future = r
  ended : ∀ (r : Ref) (o : Outcome), Ended p.log r o → ∃ f, p.protocol.futures[r]? = some f ∧
    ∀ params, setup.params? p.protocol r = some params →
      (∃ e, setup.resolve params = .error e ∧ o = .raised (.jsonRpc e)) ∨
      ∃ (i : Ref) (g : Future) (up : Callback) (v : PyValue), o = .returned v ∧
        p.protocol.futures[i]? = some g ∧ g.callback = .runGenerator r up ∧
        Ended p.log i (.returned v)
  called : ∀ c ∈ p.calls, Yielded p.log c.future ∧
    ∃ params, setup.params? p.protocol c.future = some params ∧
      setup.resolve params = .ok (c.handler, c.args)
  once : (p.calls.map Call.future).Nodup

namespace Serves

variable {setup : Setup T C V} {p p' : Server T C V} {e : Event}

/-- The handler of a request for a command is the built-in generator. -/
theorem generator (h : Serves setup p) {r : Ref} {f : Future} {params : ExecuteCommandParams V}
    (hf : p.protocol.futures[r]? = some f) (hparams : setup.params? p.protocol r = some params) :
    f.handler = some .generator := by
  obtain ⟨f', id, n, q, hf', hcb, hq, hmethod, -⟩ := Setup.params?_eq_some.mp hparams
  rw [hf] at hf'
  cases hf'
  obtain ⟨q', hq', hk⟩ := h.handler r f id n hf hcb
  rw [hq] at hq'
  cases hq'
  rw [hk, hmethod, setup.getHandler_executeCommand]

/-- A generator that runs a request for a command is on a stack again only with a result. -/
theorem not_again (h : Serves setup p) {c : Call C V} (hc : c ∈ p.calls) {f : Future}
    (hf : p.protocol.futures[c.future]? = some f) (hact : f.active ≠ none) : f.resumed = true := by
  obtain ⟨hyield, -⟩ := h.called c hc
  obtain ⟨f', hf', hres, -⟩ := h.fed.past c.future hyield
  rw [hf] at hf'
  cases hf'
  exact hres hact

section Step

variable {pe : Pygls.Event} {calls : List (Call C V)} {t : State T}

theorem child_step (h : Serves setup p) (hdoes : Does setup p.protocol e pe calls)
    (hs : Pygls.step setup.builtin p.protocol pe = some t) {r i : Ref} {g : Future} {up : Callback}
    {params : ExecuteCommandParams V} (hg : t.futures[i]? = some g)
    (hup : g.callback = .runGenerator r up) (hparams : setup.params? t r = some params) :
    ∃ c ∈ p.calls ++ calls, c.future = r ∧ g.handler = some c.handler.kind := by
  have hd := h.accounted.discipline
  obtain ⟨new, hnew⟩ := step_enlarges hs
  rcases hnew.future hg with ⟨f, hf, hk, hcb⟩ | hmem
  · have hfup : f.callback = .runGenerator r up := hcb ▸ hup
    obtain ⟨-, q, hq, -, -⟩ := hd.parent i f r up hf hfup
    rw [Setup.params?_of_step hd hs hq] at hparams
    obtain ⟨c, hc, hr, hkind⟩ := h.child r i f up params hf hfup hparams
    exact ⟨c, List.mem_append_left _ hc, hr, hk.trans hkind⟩
  · rw [hup] at hmem
    obtain ⟨uuid, k, start, rfl, hkind⟩ := hnew.yielded g.handler r up hmem
    cases step_cases hs with
    | ignored _ hrefuse => cases hrefuse
    | genYield hf =>
      rw [Setup.params?_of_step hd hs hf] at hparams
      cases hdoes with
      | protocol hfree =>
        rw [Setup.reserved, hparams] at hfree
        cases hfree
      | calls => exact ⟨_, List.mem_append_right _ (List.mem_singleton.mpr rfl), rfl, hkind⟩

theorem yielded_step (h : Serves setup p) (hdoes : Does setup p.protocol e pe calls)
    (hs : Pygls.step setup.builtin p.protocol pe = some t) {r : Ref}
    {params : ExecuteCommandParams V} (hy : Yielded (p.log ++ [pe]) r)
    (hparams : setup.params? t r = some params) : ∃ c ∈ p.calls ++ calls, c.future = r := by
  have hd := h.accounted.discipline
  obtain ⟨uuid, kind, start, hmem⟩ := hy
  rcases List.mem_append.mp hmem with hold | hlast
  · have hyield : Yielded p.log r := ⟨uuid, kind, start, hold⟩
    obtain ⟨f, hf, -⟩ := h.fed.past r hyield
    rw [Setup.params?_of_step hd hs hf] at hparams
    obtain ⟨c, hc, hr⟩ := h.yielded r params hyield hparams
    exact ⟨c, List.mem_append_left _ hc, hr⟩
  · cases List.mem_singleton.mp hlast
    cases step_cases hs with
    | ignored _ hrefuse => cases hrefuse
    | genYield hf =>
      rw [Setup.params?_of_step hd hs hf] at hparams
      cases hdoes with
      | protocol hfree =>
        rw [Setup.reserved, hparams] at hfree
        cases hfree
      | calls => exact ⟨_, List.mem_append_right _ (List.mem_singleton.mpr rfl), rfl⟩

theorem ended_step (h : Serves setup p) (hdoes : Does setup p.protocol e pe calls)
    (hs : Pygls.step setup.builtin p.protocol pe = some t) {r : Ref} {o : Outcome}
    (hend : Ended (p.log ++ [pe]) r o) :
    ∃ f, t.futures[r]? = some f ∧ ∀ params, setup.params? t r = some params →
      (∃ e, setup.resolve params = .error e ∧ o = .raised (.jsonRpc e)) ∨
      ∃ (i : Ref) (g : Future) (up : Callback) (v : PyValue), o = .returned v ∧
        t.futures[i]? = some g ∧ g.callback = .runGenerator r up ∧
        Ended (p.log ++ [pe]) i (.returned v) := by
  have hd := h.accounted.discipline
  have more : ∀ e' ∈ p.log, e' ∈ p.log ++ [pe] := fun _ hmem => List.mem_append_left _ hmem
  obtain ⟨new, hnew⟩ := step_enlarges hs
  obtain ⟨e', hmem, hend'⟩ := hend
  rcases List.mem_append.mp hmem with hold | hlast
  · obtain ⟨f, hf, hwhy⟩ := h.ended r o ⟨e', hold, hend'⟩
    obtain ⟨f', hf', -, -⟩ := hnew.stays hf
    refine ⟨f', hf', ?_⟩
    intro params hparams
    rw [Setup.params?_of_step hd hs hf] at hparams
    rcases hwhy params hparams with hrej | ⟨i, g, up, v, ho, hg, hcb, hi⟩
    · exact Or.inl hrej
    · obtain ⟨g', hg', -, hcb'⟩ := hnew.stays hg
      exact Or.inr ⟨i, g', up, v, ho, hg', hcb'.trans hcb, hi.mono more⟩
  · cases List.mem_singleton.mp hlast
    obtain ⟨f, hf, hgen⟩ := step_ended hs hend'
    obtain ⟨f', hf', -, -⟩ := hnew.stays hf
    refine ⟨f', hf', ?_⟩
    intro params hparams
    rw [Setup.params?_of_step hd hs hf] at hparams
    cases hgen (h.generator hf hparams)
    cases hdoes with
    | protocol hfree =>
      rw [Setup.reserved, hparams] at hfree
      cases hfree
    | rejects _ hparams' hrej =>
      rw [hparams] at hparams'
      cases hparams'
      exact Or.inl ⟨_, hrej, rfl⟩
    | @returns _ f₀ _ _ _ hf₀ _ hres =>
      -- what it returns is what it was sent, and that is what its child has returned
      obtain ⟨i, g, up, hg, hcb, hstate⟩ := h.fed.value r f₀ hf₀ hres
      have hk : g.handler ≠ none := by
        intro hnone
        rw [h.fed.linked.client hg hnone] at hcb
        cases hcb
      have hi := h.accounted.provenance.returned i g f₀.value hg hk hstate
      obtain ⟨g', hg', -, hcb'⟩ := hnew.stays hg
      exact Or.inr ⟨i, g', up, _, rfl, hg', hcb'.trans hcb, hi.mono more⟩

theorem called_step (h : Serves setup p) (hdoes : Does setup p.protocol e pe calls)
    (hs : Pygls.step setup.builtin p.protocol pe = some t) {c : Call C V}
    (hc : c ∈ p.calls ++ calls) :
    Yielded (p.log ++ [pe]) c.future ∧
      ∃ params, setup.params? t c.future = some params ∧
        setup.resolve params = .ok (c.handler, c.args) := by
  have hd := h.accounted.discipline
  rcases List.mem_append.mp hc with hold | hnew
  · obtain ⟨hyield, params, hparams, hok⟩ := h.called c hold
    obtain ⟨f, hf, -⟩ := h.fed.past c.future hyield
    obtain ⟨uuid, kind, start, hmem⟩ := hyield
    refine ⟨⟨uuid, kind, start, List.mem_append_left _ hmem⟩, params, ?_, hok⟩
    rw [Setup.params?_of_step hd hs hf, hparams]
  · cases hdoes with
    | calls hf hparams _ hok =>
      cases List.mem_singleton.mp hnew
      refine ⟨⟨_, _, _, List.mem_append_right _ (List.mem_singleton.mpr rfl)⟩, _, ?_, hok⟩
      rw [Setup.params?_of_step hd hs hf, hparams]
    | _ => cases hnew

theorem once_step (h : Serves setup p) (hdoes : Does setup p.protocol e pe calls)
    (hs : Pygls.step setup.builtin p.protocol pe = some t) :
    ((p.calls ++ calls).map Call.future).Nodup := by
  cases hdoes with
  | @calls r f params uuid start handler args hf _ hres =>
    rw [List.map_append]
    apply List.Nodup.append h.once
    · simp
    · intro r' hold hnew
      cases List.mem_singleton.mp hnew
      obtain ⟨c, hc, hr⟩ := List.mem_map.mp hold
      cases step_cases hs with
      | ignored _ hrefuse => cases hrefuse
      | @genYield _ f' th _ _ _ hf' _ hact =>
        subst hr
        have hagain : f'.resumed = true := by
          apply h.not_again hc hf'
          rw [hact]
          simp
        rw [hf] at hf'
        cases hf'
        rw [hres] at hagain
        cases hagain
  | _ =>
    rw [List.append_nil]
    exact h.once

theorem start_step (h : Serves setup p) (hdoes : Does setup p.protocol e pe calls)
    (hs : Pygls.step setup.builtin p.protocol pe = some t) {q : Request × Start}
    (hq : q ∈ t.received) (hmethod : q.1.method = executeCommandMethod) : q.2 = none := by
  have hs' : LanguageServer.step setup.builtin p.protocol (.protocol pe) = some t := hs
  rcases step_received hs' with hsame | ⟨q', start, heq, -, hnew⟩
  · rw [hsame] at hq
    exact h.start q hq hmethod
  · rw [hnew] at hq
    rcases List.mem_append.mp hq with hold | hlast
    · exact h.start q hold hmethod
    · cases List.mem_singleton.mp hlast
      cases heq
      cases hdoes with
      | protocol hfree =>
        simp only [Setup.reserved, Bool.and_eq_false_imp, decide_eq_true_eq] at hfree
        exact Option.isNone_iff_eq_none.mp (Option.isSome_eq_false_iff.mp (hfree hmethod))

end Step

theorem step (hw : setup.env.BrokenStays) (h : Serves setup p) (hok : setup.Orderly p e)
    (hs : step setup p e = some p') : Serves setup p' := by
  obtain ⟨pe, calls, heffect, hdoes, hstep, hlog, hcalls⟩ := step_does hs
  obtain ⟨horder, htrue⟩ := hok _ heffect
  have hw' : setup.builtin.BrokenStays := hw
  constructor
  case accounted =>
    rw [hlog]
    exact h.accounted.step hw' horder.1 horder.2 htrue hstep
  case fed =>
    rw [hlog]
    exact h.fed.step_yielded hstep
  case handler =>
    have hs' : LanguageServer.step setup.builtin p.protocol (.protocol pe) = some p'.protocol :=
      hstep
    exact h.handler.step hs'
  case start =>
    intro q hq hmethod
    exact h.start_step hdoes hstep hq hmethod
  case child =>
    rw [hcalls]
    intro r i f up params hf hcb hparams
    exact h.child_step hdoes hstep hf hcb hparams
  case yielded =>
    rw [hlog, hcalls]
    intro r params hy hparams
    exact h.yielded_step hdoes hstep hy hparams
  case ended =>
    rw [hlog]
    intro r o hend
    exact h.ended_step hdoes hstep hend
  case called =>
    rw [hlog, hcalls]
    intro c hc
    exact h.called_step hdoes hstep hc
  case once =>
    rw [hcalls]
    exact h.once_step hdoes hstep

theorem init : Serves setup Server.init := by
  constructor
  case accounted => exact Accounted.init setup.builtin
  case fed => exact Fed.init
  case handler => exact Assigned.init setup.builtin
  case once => exact List.nodup_nil
  all_goals simp [Server.init, State.init, Yielded, Ended]

end Serves

theorem serves_of_run {setup : Setup T C V} (hw : setup.env.BrokenStays) {es : List Event}
    {p : Server T C V} (hok : Lib.Meets (step setup) setup.Orderly Server.init es)
    (hrun : Lib.run (step setup) Server.init es = some p) : Serves setup p := by
  apply Lib.run_invariant (I := Serves setup) ?_ Serves.init hok hrun
  intro s e t h hok hs
  exact h.step hw hok hs

/-- An exception of the generator itself is that of a request which names no command, or whose
arguments do not fit. -/
theorem Serves.failed {setup : Setup T C V} {p : Server T C V} (h : Serves setup p) {r : Ref}
    {params : ExecuteCommandParams V} (hparams : setup.params? p.protocol r = some params)
    {x : PyExc} (hx : Raised p.log p.protocol.futures r x) :
    (∃ e, setup.resolve params = .error e ∧ x = .jsonRpc e) ∨
      (∃ c ∈ p.calls, c.future = r) ∧ Failed p.log p.protocol.futures r x := by
  have below : ∀ {i : Ref} {f : Future} {up : Callback}, p.protocol.futures[i]? = some f →
      f.callback = .runGenerator r up → ∃ c ∈ p.calls, c.future = r := by
    intro i f up hf hcb
    obtain ⟨c, hc, hr, -⟩ := h.child r i f up params hf hcb hparams
    exact ⟨c, hc, hr⟩
  cases hx with
  | own hend =>
    obtain ⟨-, -, hwhy⟩ := h.ended r _ hend
    rcases hwhy params hparams with ⟨e, hrej, ho⟩ | ⟨i, g, up, v, ho, -⟩
    · exact Or.inl ⟨e, hrej, Outcome.raised.inj ho⟩
    · cases ho
  | notStarted hmem hk =>
    exact Or.inr ⟨h.yielded r params ⟨_, _, _, hmem⟩ hparams, .notStarted hmem hk⟩
  | yielded hf hcb hraised => exact Or.inr ⟨below hf hcb, .raised hf hcb hraised⟩

/-- In every run whose steps make up no exception, whatever else goes on: a request for a
command calls the command's handler at most once, and only with the arguments it has prepared
for it; and the answer is the error of what could not be prepared, what the handler has
returned, what it or calling it has raised, or that the request was cancelled. -/
theorem command_is_called_once {setup : Setup T C V} (hw : setup.env.BrokenStays)
    {es : List Event} {p : Server T C V}
    (hok : Lib.Meets (step setup) setup.Orderly Server.init es)
    (hrun : Lib.run (step setup) Server.init es = some p) :
    (p.calls.map Call.future).Nodup ∧
    (∀ c ∈ p.calls, ∃ params, setup.params? p.protocol c.future = some params ∧
      setup.resolve params = .ok (c.handler, c.args)) ∧
    ∀ (n : Nat) (id : MsgId) (a : Answer T) (q : Request × Start),
      .response n id a ∈ p.protocol.sent → p.protocol.received[n]? = some q →
      q.1.method = executeCommandMethod →
      ∃ r, HandlerOf p.protocol n id r ∧ Accounts setup p id r (setup.params q.1.params) a := by
  have h := serves_of_run hw hok hrun
  refine ⟨h.once, fun c hc => (h.called c hc).2, ?_⟩
  intro n id a q hsent hq hmethod
  have params_of : ∀ {r : Ref} {f : Future}, p.protocol.futures[r]? = some f →
      f.callback = .sendHandlerResult id n →
      setup.params? p.protocol r = some (setup.params q.1.params) := by
    intro r f hf hcb
    exact Setup.params?_eq_some.mpr ⟨f, id, n, q, hf, hcb, hq, hmethod, rfl⟩
  cases h.accounted.provenance.justified n id a hsent with
  | @result r v _ hhandler hend ha =>
    obtain ⟨f, hf, hcb⟩ := hhandler
    have hparams := params_of hf hcb
    refine ⟨r, ⟨f, hf, hcb⟩, ?_⟩
    obtain ⟨-, -, hwhy⟩ := h.ended r _ hend
    rcases hwhy _ hparams with ⟨e, -, ho⟩ | ⟨i, g, up, w, ho, hg, hup, hi⟩
    · cases ho
    · cases ho
      obtain ⟨c, hc, hr, hkind⟩ := h.child r i g up _ hg hup hparams
      exact .result hc hr hg hup hkind hi ha
  | @raised x _ hx ha =>
    rcases hx with ⟨r, ⟨f, hf, hcb⟩, hx⟩ | ⟨q', kind, hq', -⟩
    · have hparams := params_of hf hcb
      refine ⟨r, ⟨f, hf, hcb⟩, ?_⟩
      rcases h.failed hparams hx with ⟨e, hrej, rfl⟩ | ⟨⟨c, hc, hr⟩, hfailed⟩
      · exact .invalid hrej ha
      · exact .failed hc hr hfailed ha
    · rw [hq] at hq'
      cases hq'
      have hstart := h.start _ (List.mem_of_getElem? hq) hmethod
      cases hstart
  | noHandler hq' hnone =>
    rw [hq] at hq'
    cases hq'
    rw [hmethod, setup.getHandler_executeCommand] at hnone
    cases hnone
  | @cancelled r f _ hf hcb hst ha =>
    exact ⟨r, ⟨f, hf, hcb⟩, .cancelled hf hst ha⟩

/-- One command, which runs directly and takes no arguments; `null` asks for it. -/
def sampleSetup : Setup Unit Bool Nat where
  env := sampleEnv
  commands := fun name =>
    if name = [] then some ⟨.sync, ⟨0, false, ⟨[], none, [], none⟩, true⟩⟩ else none
  languageServer := false
  params := fun json =>
    match json with
    | .null => ⟨[], none⟩
    | _ => ⟨[0], none⟩
  converts := fun _ _ => true
  repr := id
  str := fun _ => []

/-- The second request asks for a command that there is not. -/
def sampleCommands : List Event :=
  [.protocol (.request ⟨.int 1, executeCommandMethod, .null⟩ none), .segment 0 [] none,
    .protocol (.syncEnd 1 (.returned (.bool true))), .segment 0 [] none,
    .protocol (.request ⟨.int 2, executeCommandMethod, .bool true⟩ none), .segment 2 [] none]

theorem command_is_called_once_sample :
    ∃ p, Lib.run (step sampleSetup) Server.init sampleCommands = some p ∧
      p.protocol.sent.filterMap answeredRequest = [0, 1] ∧ (p.calls.map Call.future).Nodup ∧
      p.calls.map Call.future = [0] := by
  obtain ⟨p, hrun, hsent, hcalls⟩ : ∃ p,
      Lib.run (step sampleSetup) Server.init sampleCommands = some p ∧
      p.protocol.sent.filterMap answeredRequest = [0, 1] ∧ p.calls.map Call.future = [0] := by
    with_unfolding_all exact ⟨_, rfl, rfl, rfl⟩
  have hok : Lib.Meets (step sampleSetup) sampleSetup.Orderly Server.init sampleCommands := by
    unfold sampleCommands
    with_unfolding_all
      iterate 6
        refine Lib.meets_cons rfl ?_ ?_
        · intro x hx
          cases hx
          exact ⟨⟨rfl, by first | rfl | trivial⟩, trivial⟩
    trivial
  have hw : sampleSetup.env.BrokenStays := by
    intro n h
    cases h
  exact ⟨p, hrun, hsent, (command_is_called_once hw hok hrun).1, hcalls⟩

end Pygls.ExecuteCommand
