import Pygls.LanguageServer
import Pygls.Outgoing
import Pygls.Updates

/-!
# The workspace and the user's handlers

The built-in generators of `language_server.py` that write to the workspace, over the
protocol. Each does so in its first segment, on the thread of the message loop, and
only then looks for a handler of the user to yield to. The first segment is two steps
here, the update and what comes after it: a worker may do anything in between.

What the user's handlers do and when they end is up to the events of the protocol.
None of them writes to the workspace.
-/

namespace Pygls

set_option autoImplicit false

variable {T : Type}

def initializeMethod : Method := text "initialize"

def textDocumentDidOpen : Method := text "textDocument/didOpen"

def textDocumentDidChange : Method := text "textDocument/didChange"

def textDocumentDidClose : Method := text "textDocument/didClose"

def notebookDocumentDidOpen : Method := text "notebookDocument/didOpen"

def notebookDocumentDidChange : Method := text "notebookDocument/didChange"

def notebookDocumentDidClose : Method := text "notebookDocument/didClose"

def workspaceDidChangeWorkspaceFolders : Method := text "workspace/didChangeWorkspaceFolders"

def TextNotification.method : TextNotification → Method
  | .didOpen _ => textDocumentDidOpen
  | .didChange _ _ => textDocumentDidChange
  | .didClose _ => textDocumentDidClose

def WorkspaceMessage.method : WorkspaceMessage → Method
  | .text notification => notification.method
  | .notebookDidOpen _ _ => notebookDocumentDidOpen
  | .notebookDidChange _ => notebookDocumentDidChange
  | .notebookDidClose _ _ => notebookDocumentDidClose
  | .didChangeFolders _ _ => workspaceDidChangeWorkspaceFolders

/-- Whether the built-in handler gets to `self.workspace`: its loop may be empty. -/
def WorkspaceMessage.reads : WorkspaceMessage → Bool
  | .text (.didChange _ changes) => !changes.isEmpty
  | .didChangeFolders added removed => !(added.getD []).isEmpty || !(removed.getD []).isEmpty
  | _ => true

def StoreError.exception : StoreError → PyExc
  | .keyError _ => .other (text "KeyError")
  | .osError _ => .other (text "OSError")
  | .runtimeError => .runtimeError

namespace Schedules

/-- `encoding` is what `choose_position_encoding` makes of the client's capabilities. -/
inductive Incoming where
  | initializeRequest (id : MsgId) (workspaceFolders : Option (List WorkspaceFolder))
      (encoding : Encoding)
  | notification (message : WorkspaceMessage)

namespace Incoming

def method : Incoming → Method
  | .initializeRequest _ _ _ => initializeMethod
  | .notification message => message.method

/-- What `handle_message` is given, with the `uuid` drawn for a notification. -/
def event (uuid : Str) : Incoming → Event
  | .initializeRequest id _ _ => .request ⟨id, initializeMethod, .null⟩ none
  | .notification message => .notification message.method uuid none

/-- The built-in handler up to where it looks for the user's. The property `workspace` raises
as long as there is none. -/
def update (syncKind : SyncKind) (disk : Disk) :
    Option Workspace → Incoming → Option Workspace × Option PyExc
  | _, .initializeRequest _ folders encoding =>
    (some (Workspace.new syncKind (folders.getD []) encoding), none)
  | none, .notification message => (none, if message.reads then some .runtimeError else none)
  | some ws, .notification message =>
    let r := message.update disk ws
    (some r.1, r.2.map StoreError.exception)

/-- How the built-in handler ends: the result of `initialize` is computed from the features. -/
def ending (outcome : Outcome) : Incoming → Outcome
  | .initializeRequest _ _ _ => outcome
  | .notification _ => .returned .none

end Incoming

/-- The methods of the messages above. -/
def builtinMethods : List Method :=
  [initializeMethod, textDocumentDidOpen, textDocumentDidChange, textDocumentDidClose,
    notebookDocumentDidOpen, notebookDocumentDidChange, notebookDocumentDidClose,
    workspaceDidChangeWorkspaceFolders]

def builtin (env : Env T) : Env T :=
  { env with
    fm := { env.fm with
      builtinFeatures := fun method =>
        if method ∈ builtinMethods then some .generator else env.fm.builtinFeatures method } }

/-- A built-in generator that has been called; `updated` once it is past its update. -/
structure Generator where
  message : Incoming
  future : Ref
  updated : Bool

/-- `handed` are the messages given to `handle_message`, in their order. -/
structure Server (T : Type) where
  protocol : State T
  workspace : Option Workspace
  generators : List Generator
  handed : List Incoming

/-- `callUser`: the generator has found a handler of the user, of the given kind, and yields
to it. `finish`: it has found none, or has been resumed. -/
inductive Event where
  | handle (message : Incoming) (uuid : Str)
  | update (generator : Nat) (disk : Disk)
  | callUser (generator : Nat) (uuid : Str) (kind : HandlerKind) (start : Start)
  | finish (generator : Nat) (outcome : Outcome)
  | protocol (event : Pygls.Event)

namespace Server

def init : Server T := ⟨State.init, none, [], []⟩

/-- The generator, if its code is on a thread's stack. -/
def live (p : Server T) (k : Nat) : Option Generator :=
  p.generators[k]?.filter fun g => (p.protocol.running g.future .generator).isSome

/-- What is an event of its own here, and the `shutdown` request. -/
def reserved (p : Server T) : Pygls.Event → Bool
  | .request request _ => request.method ∈ builtinMethods || request.method = shutdownMethod
  | .notification method _ _ => method ∈ builtinMethods
  | .genYield r _ _ _ => p.generators.any fun g => g.future = r
  | .genEnd r _ => p.generators.any fun g => g.future = r
  | _ => false

def goesOn (env : Env T) (p : Server T) (e : Pygls.Event) : Option (Server T) :=
  (Pygls.step (builtin env) p.protocol e).map fun s => { p with protocol := s }

end Server

def step (env : Env T) (syncKind : SyncKind) (p : Server T) : Event → Option (Server T)
  | .handle message uuid =>
    (Pygls.step (builtin env) p.protocol (message.event uuid)).map fun s =>
      { p with
        protocol := s
        generators :=
          if p.protocol.shutdown then p.generators
          else p.generators ++ [⟨message, p.protocol.fresh, false⟩]
        handed := p.handed ++ [message] }
  | .update k disk =>
    (p.live k).bind fun g =>
      if g.updated then none
      else
        let r := g.message.update syncKind disk p.workspace
        let p := { p with
          workspace := r.1
          generators := p.generators.set k { g with updated := true } }
        match r.2 with
        | none => some p
        | some e => p.goesOn env (.genEnd g.future (.raised e))
  | .callUser k uuid kind start =>
    (p.live k).bind fun g =>
      if g.updated && !p.protocol.wasResumed g.future then
        p.goesOn env (.genYield g.future uuid kind start)
      else none
  | .finish k outcome =>
    (p.live k).bind fun g =>
      if g.updated then p.goesOn env (.genEnd g.future (g.message.ending outcome)) else none
  | .protocol e => if p.reserved e then none else p.goesOn env e

/-- The built-in updates of the messages, one after the other. -/
def applied (syncKind : SyncKind) (disk : Disk) (messages : List Incoming) : Option Workspace :=
  messages.foldl (fun ws message => (message.update syncKind disk ws).1) none

/-- The generator's first segment is on the stack of the message loop. -/
def FirstSegment (s : State T) (r : Ref) : Prop :=
  ∃ f, s.futures[r]? = some f ∧ f.handler = some .generator ∧ f.active = some .main ∧
    f.resumed = false

/-- Nothing that the callback leads to resumes the generator of `r`. -/
def Avoids (r : Ref) : Callback → Prop
  | .sendHandlerResult _ _ => True
  | .checkHandlerResult => True
  | .client => True
  | .runGenerator p up => p ≠ r ∧ Avoids r up

namespace FirstSegment

variable {env : Env T} {s t : State T} {r : Ref}

/-- A generator that has not yielded yet is nobody's parent. -/
theorem avoids (h : FirstSegment s r) (hd : Discipline s) {i : Ref} {f : Future}
    (hf : s.futures[i]? = some f) : Avoids r f.callback := by
  obtain ⟨g, hg, hkind, hact, hfirst⟩ := h
  have hne : g.active ≠ none := by
    rw [hact]
    exact Option.some_ne_none _
  generalize hcb : f.callback = cb
  induction cb generalizing i f with
  | sendHandlerResult id n => trivial
  | checkHandlerResult => trivial
  | client => trivial
  | runGenerator p up ih =>
    refine ⟨?_, ?_⟩
    · rintro rfl
      exact hd.firstAlone p g i f up hg hkind hne hfirst hf hcb
    · obtain ⟨-, f', hf', hup, -⟩ := hd.parent i f p up hf hcb
      exact ih hf' hup

theorem modify (h : FirstSegment s r) {i : Ref} {g : Future → Future}
    (hg : i = r → ∀ f, (g f).handler = f.handler ∧ (g f).active = f.active ∧
      (g f).resumed = f.resumed) : FirstSegment (s.modify i g) r := by
  obtain ⟨f, hf, hkind, hact, hfirst⟩ := h
  unfold FirstSegment
  rw [State.getElem?_modify, hf]
  split
  · rename_i hir
    obtain ⟨hkind', hact', hfirst'⟩ := hg hir f
    exact ⟨g f, rfl, hkind'.trans hkind, hact'.trans hact, hfirst'.trans hfirst⟩
  · exact ⟨f, rfl, hkind, hact, hfirst⟩

theorem congr (h : FirstSegment s r) (hf : t.futures = s.futures) : FirstSegment t r := by
  unfold FirstSegment
  rw [hf]
  exact h

theorem alloc (h : FirstSegment s r) (f : Future) : FirstSegment (s.alloc f) r := by
  obtain ⟨g, hg, hseg⟩ := h
  exact ⟨g, Discipline.getElem?_alloc_of_some hg, hseg⟩

theorem settle (h : FirstSegment s r) (i : Ref) (st : FutureState) :
    FirstSegment (s.modify i (Future.settle st)) r :=
  h.modify fun _ _ => ⟨rfl, rfl, rfl⟩

theorem leave (h : FirstSegment s r) {i : Ref} (hir : i ≠ r) : FirstSegment (s.leave i) r :=
  h.modify fun heq => absurd heq hir

theorem runCallback (h : FirstSegment s r) (th : Thread) {cb : Callback} (c : Completion)
    (hcb : Avoids r cb) : FirstSegment (State.runCallback env th cb c s) r := by
  refine runCallback_rule (I := fun t => FirstSegment t r) (R := fun _ cb _ => Avoids r cb)
    ?_ ?_ ?_ cb c s h hcb
  · intro t id n c ht _
    exact ht.congr (State.sendHandlerResult_sends env t id n c).futures
  · intro t i up c v ht hcb
    exact ht.modify fun heq => absurd heq hcb.1
  · intro t t' i up c x ht hcb _ hs
    obtain ⟨f, -, -, rfl⟩ := setOutcome_eq_some hs
    exact ⟨ht.settle i _, hcb.2⟩

theorem executeRaised (h : FirstSegment s r) (th : Thread) {cb : Callback} (x : PyExc)
    (hcb : Avoids r cb) : FirstSegment (State.executeRaised env th cb x s) r := by
  refine executeRaised_rule (I := fun t => FirstSegment t r) (R := fun _ cb _ => Avoids r cb)
    (P := fun _ cb _ => Avoids r cb) ?_ ?_ ?_ ?_ cb x s h hcb
  · intro cb c t ht hcb
    exact ht.runCallback th c hcb
  · intro t id n x ht _
    exact ht.congr (State.sendException_sends env t n id x).futures
  · intro t t' i up x ht hcb hs
    obtain ⟨f, -, -, rfl⟩ := setOutcome_eq_some hs
    exact ⟨ht.settle i _, hcb.2⟩
  · intro t i up x _ hcb _ _
    exact hcb.2

theorem executeHandler (h : FirstSegment s r) (th : Thread) (id : MsgId) (kind : HandlerKind)
    {cb : Callback} (start : Start) (hcb : Avoids r cb) :
    FirstSegment (State.executeHandler env th id kind cb start s) r := by
  cases kind with
  | coroutine =>
    cases start with
    | some x => exact h.executeRaised th x hcb
    | none =>
      cases th with
      | main => exact (h.alloc _).congr rfl
      | worker => exact h.executeRaised .worker .runtimeError hcb
  | thread =>
    cases start with
    | some x => exact h.executeRaised th x hcb
    | none => exact (h.alloc _).congr rfl
  | generator => exact (h.alloc _).congr rfl
  | sync => exact h.alloc _

theorem not_idle (h : FirstSegment s r) : s.mainIdle ≠ true := by
  obtain ⟨f, hf, -, hact, -⟩ := h
  intro hidle
  exact Discipline.notMain hidle hf hact

/-- Until the generator's own code goes on, its first segment stays where it is. -/
theorem step (h : FirstSegment s r) (hd : Discipline s) {e : Pygls.Event}
    (hyield : ∀ uuid kind start, e ≠ .genYield r uuid kind start) (hend : ∀ o, e ≠ .genEnd r o)
    (hs : Pygls.step env s e = some t) : FirstSegment t r := by
  have avoids : ∀ (i : Ref) (f : Future), s.futures[i]? = some f → Avoids r f.callback :=
    fun _ _ hf => h.avoids hd hf
  have other : ∀ (i : Ref) (f : Future) (kind : HandlerKind), s.futures[i]? = some f →
      f.handler = some kind → kind ≠ .generator → i ≠ r := by
    rintro i f kind hf hk hne rfl
    obtain ⟨g, hg, hkind, -⟩ := h
    rw [hf] at hg
    cases hg
    rw [hk] at hkind
    cases hkind
    exact hne rfl
  cases step_cases hs with
  | ignored => exact h
  | request hidle => exact absurd hidle h.not_idle
  | notification hidle => exact absurd hidle h.not_idle
  | cancelRequest hidle => exact absurd hidle h.not_idle
  | response hidle => exact absurd hidle h.not_idle
  | errorResponse hidle => exact absurd hidle h.not_idle
  | taskEnd hidle => exact absurd hidle h.not_idle
  | sendRequest =>
    exact (h.alloc (.pending none .client)).congr (State.sendRequest_futures _ _ _ _ _)
  | @cancelOutgoing i f hf hnone =>
    unfold State.cancel
    rw [hf]
    dsimp only
    split
    · split
      · exact h.modify fun _ _ => ⟨rfl, rfl, rfl⟩
      · exact h
    · split
      · exact (h.settle i _).runCallback .main _ (avoids i f hf)
      · exact h
  | @syncEnd i f th o hf hk =>
    have hl := h.leave (other i f .sync hf hk nofun)
    unfold State.syncEnd
    split
    · rename_i hset
      obtain ⟨g, -, -, rfl⟩ := setOutcome_eq_some hset
      exact (hl.settle i _).runCallback th _ (avoids i f hf)
    · exact hl.executeRaised th _ (avoids i f hf)
  | @genYield i f th uuid kind start hf =>
    have hir : i ≠ r := by
      rintro rfl
      exact hyield uuid kind start rfl
    exact (h.leave hir).executeHandler th _ kind start ⟨hir, avoids i f hf⟩
  | @genEnd i f th o hf =>
    have hir : i ≠ r := by
      rintro rfl
      exact hend o rfl
    exact (h.leave hir).executeRaised th _ ⟨hir, avoids i f hf⟩
  | @poolStart i f hf hk =>
    exact h.modify fun heq => absurd heq (other i f .thread hf hk nofun)
  | @poolEnd i f th o hf hk =>
    exact h.modify fun heq => absurd heq (other i f .thread hf hk nofun)
  | @deliver i f th c hf =>
    refine runCallback ?_ th c (avoids i f hf)
    exact h.modify fun _ _ => ⟨rfl, rfl, rfl⟩

end FirstSegment

theorem method_mem (message : Incoming) : message.method ∈ builtinMethods := by
  cases message with
  | initializeRequest id folders encoding => exact List.mem_cons_self
  | notification message =>
    cases message with
    | text notification => cases notification <;> simp [Incoming.method, WorkspaceMessage.method,
        TextNotification.method, builtinMethods]
    | _ => simp [Incoming.method, WorkspaceMessage.method, builtinMethods]

theorem getHandler_builtin (env : Env T) (message : Incoming) :
    (builtin env).fm.getHandler message.method = some .generator := by
  simp only [FeatureManager.getHandler, builtin, method_mem message, if_true, Option.some_or]

/-- A message starts its built-in generator, when the message loop is free for it. -/
theorem handle_spec {env : Env T} {s t : State T} {message : Incoming} {uuid : Str}
    (hup : s.shutdown = false) (hs : Pygls.step (builtin env) s (message.event uuid) = some t) :
    s.mainIdle = true ∧ FirstSegment t s.fresh := by
  have hhandler := getHandler_builtin env message
  cases message with
  | initializeRequest id folders encoding =>
    cases step_cases hs with
    | ignored hdown =>
      rw [hup] at hdown
      cases hdown
    | request hidle =>
      refine ⟨hidle, ?_⟩
      change (builtin env).fm.getHandler initializeMethod = some .generator at hhandler
      simp only [State.handleRequest, hhandler]
      exact ⟨_, List.getElem?_concat_length, rfl, rfl, rfl⟩
  | notification message =>
    cases step_cases hs with
    | ignored hdown =>
      rw [hup] at hdown
      cases hdown
    | notification hidle =>
      refine ⟨hidle, ?_⟩
      change (builtin env).fm.getHandler message.method = some .generator at hhandler
      simp only [State.handleNotification, hhandler]
      exact ⟨_, List.getElem?_concat_length, rfl, rfl, rfl⟩

theorem update_stored {syncKind : SyncKind} {ws : Option Workspace}
    (h : ∀ w, ws = some w → Stored w) (message : Incoming) (disk disk' : Disk) :
    message.update syncKind disk ws = message.update syncKind disk' ws ∧
      ∀ w, (message.update syncKind disk ws).1 = some w → Stored w := by
  cases message with
  | initializeRequest id folders encoding =>
    refine ⟨rfl, ?_⟩
    rintro w ⟨⟩
    exact Stored.new syncKind _ encoding
  | notification message =>
    cases ws with
    | none => exact ⟨rfl, nofun⟩
    | some ws =>
      obtain ⟨heq, hstored⟩ := (h ws rfl).update disk disk' message
      simp only [Incoming.update, ← heq]
      refine ⟨trivial, ?_⟩
      rintro w ⟨⟩
      exact hstored

theorem applied_concat (syncKind : SyncKind) (disk : Disk) (messages : List Incoming)
    (message : Incoming) :
    applied syncKind disk (messages ++ [message]) =
      (message.update syncKind disk (applied syncKind disk messages)).1 := by
  rw [applied, List.foldl_append]
  rfl

/-- How many of the generators are past their update. -/
def Server.updates (p : Server T) : Nat := p.generators.countP Generator.updated

/-- Either every generator is past its update, or the last one is about to make it. -/
inductive Phase (p : Server T) : Prop where
  | settled : (∀ g ∈ p.generators, g.updated = true) → Phase p
  | updating {before : List Generator} {g : Generator} : p.generators = before ++ [g] →
      (∀ g' ∈ before, g'.updated = true) → g.updated = false → FirstSegment p.protocol g.future →
      Phase p

theorem updates_settled {p : Server T} (h : ∀ g ∈ p.generators, g.updated = true) :
    p.updates = p.generators.length :=
  List.countP_eq_length.mpr h

theorem updates_updating {p : Server T} {before : List Generator} {g : Generator}
    (hsplit : p.generators = before ++ [g]) (hbefore : ∀ g' ∈ before, g'.updated = true)
    (hg : g.updated = false) : p.updates = before.length := by
  rw [Server.updates, hsplit, List.countP_append, List.countP_eq_length.mpr hbefore]
  simp [hg]

structure Ordered (syncKind : SyncKind) (p : Server T) : Prop where
  discipline : Discipline p.protocol
  up : p.protocol.shutdown = false
  handed : p.generators.map Generator.message = p.handed
  futures : ∀ g ∈ p.generators, ∃ f, p.protocol.futures[g.future]? = some f
  distinct : (p.generators.map Generator.future).Nodup
  phase : Phase p
  workspace : ∀ disk, p.workspace = applied syncKind disk (p.handed.take p.updates)
  stored : ∀ w, p.workspace = some w → Stored w

namespace Ordered

variable {env : Env T} {syncKind : SyncKind} {p q : Server T}

theorem init (syncKind : SyncKind) : Ordered syncKind (Server.init : Server T) := by
  have hnone : ∀ g : Generator, g ∉ (Server.init : Server T).generators := fun _ => List.not_mem_nil
  constructor
  case discipline => exact Discipline.init
  case up => rfl
  case handed => rfl
  case futures =>
    intro g hg
    exact absurd hg (hnone g)
  case distinct => exact List.nodup_nil
  case phase => exact .settled fun g hg => absurd hg (hnone g)
  case workspace => exact fun _ => rfl
  case stored =>
    intro w hw
    cases hw

/-- The generators that are past their update are the first ones. -/
theorem lt_updates (h : Ordered syncKind p) {k : Nat} {g : Generator}
    (hg : p.generators[k]? = some g) (hup : g.updated = true) : k < p.updates := by
  obtain ⟨hlt, -⟩ := List.getElem?_eq_some_iff.mp hg
  cases h.phase with
  | settled hall =>
    rw [updates_settled hall]
    exact hlt
  | @updating before last hsplit hbefore hlast _ =>
    rw [updates_updating hsplit hbefore hlast]
    rw [hsplit, List.length_append, List.length_singleton] at hlt
    by_contra hle
    have hk : k = before.length := by omega
    rw [hsplit, hk, List.getElem?_concat_length] at hg
    cases hg
    rw [hup] at hlast
    cases hlast

theorem updates_of_idle (h : Ordered syncKind p) (hidle : p.protocol.mainIdle = true) :
    p.updates = p.handed.length := by
  cases h.phase with
  | settled hall => rw [updates_settled hall, ← h.handed, List.length_map]
  | updating _ _ _ hfirst => exact absurd hidle hfirst.not_idle

/-- A step of the protocol, unless it lets a generator go on that has its update before it. -/
theorem goesOn (h : Ordered syncKind p) {e : Pygls.Event}
    (hyield : ∀ g ∈ p.generators, g.updated = false → ∀ uuid kind start,
      e ≠ .genYield g.future uuid kind start)
    (hend : ∀ g ∈ p.generators, g.updated = false → ∀ o, e ≠ .genEnd g.future o)
    (hq : p.goesOn env e = some q) : Ordered syncKind q := by
  obtain ⟨s, hs, rfl⟩ := Option.map_eq_some_iff.mp hq
  constructor
  case discipline => exact h.discipline.step hs
  case up => exact (step_shutdown hs).trans h.up
  case handed => exact h.handed
  case futures =>
    intro g hg
    obtain ⟨f, hf⟩ := h.futures g hg
    obtain ⟨f', hf', -⟩ := (Grows.step h.discipline hs).heap g.future f hf
    exact ⟨f', hf'⟩
  case distinct => exact h.distinct
  case phase =>
    cases h.phase with
    | settled hall => exact .settled hall
    | @updating before g hsplit hbefore hg hfirst =>
      have hmem : g ∈ p.generators := by
        rw [hsplit]
        exact List.mem_append_right _ (List.mem_singleton.mpr rfl)
      exact .updating hsplit hbefore hg
        (hfirst.step h.discipline (hyield g hmem hg) (hend g hmem hg) hs)
  case workspace => exact h.workspace
  case stored => exact h.stored

theorem handle (h : Ordered syncKind p) {message : Incoming} {uuid : Str}
    (hq : step env syncKind p (.handle message uuid) = some q) : Ordered syncKind q := by
  obtain ⟨s, hs, rfl⟩ := Option.map_eq_some_iff.mp hq
  obtain ⟨hidle, hfirst⟩ := handle_spec h.up hs
  have hgrows := Grows.step h.discipline hs
  have hupdates := h.updates_of_idle hidle
  have hnew : ∀ g ∈ p.generators, g.future ≠ p.protocol.fresh := by
    intro g hg heq
    obtain ⟨f, hf⟩ := h.futures g hg
    have hlt := (List.getElem?_eq_some_iff.mp hf).1
    rw [heq] at hlt
    exact Nat.lt_irrefl _ hlt
  simp only [h.up, Bool.false_eq_true, if_false]
  constructor
  case discipline => exact h.discipline.step hs
  case up => exact (step_shutdown hs).trans h.up
  case handed => rw [List.map_append, h.handed, List.map_singleton]
  case futures =>
    intro g hg
    rcases List.mem_append.mp hg with hg | hg
    · obtain ⟨f, hf⟩ := h.futures g hg
      obtain ⟨f', hf', -⟩ := hgrows.heap g.future f hf
      exact ⟨f', hf'⟩
    · rw [List.mem_singleton.mp hg]
      obtain ⟨f, hf, -⟩ := hfirst
      exact ⟨f, hf⟩
  case distinct =>
    rw [List.map_append]
    refine h.distinct.append (List.nodup_singleton _) ?_
    intro r hr hr'
    obtain ⟨g, hg, rfl⟩ := List.mem_map.mp hr
    exact hnew g hg (List.mem_singleton.mp hr')
  case phase =>
    cases h.phase with
    | settled hall => exact .updating rfl hall rfl hfirst
    | updating _ _ _ hbusy => exact absurd hidle hbusy.not_idle
  case workspace =>
    intro disk
    have hsame : (p.generators ++ [(⟨message, p.protocol.fresh, false⟩ : Generator)]).countP
        Generator.updated = p.updates := by
      rw [List.countP_append, Server.updates]
      rfl
    rw [Server.updates, hsame, hupdates, List.take_left]
    have hws := h.workspace disk
    rwa [hupdates, List.take_length] at hws
  case stored => exact h.stored

theorem live_spec {k : Nat} {g : Generator} (hlive : p.live k = some g) :
    p.generators[k]? = some g :=
  (Option.filter_eq_some_iff.mp hlive).1

/-- The generator that has its update before it makes it. -/
theorem updated (h : Ordered syncKind p) {k : Nat} {g : Generator} (hg : p.generators[k]? = some g)
    (hup : g.updated = false) (disk : Disk) :
    Ordered syncKind { p with
      workspace := (g.message.update syncKind disk p.workspace).1
      generators := p.generators.set k { g with updated := true } } ∧
    ∀ g' ∈ p.generators.set k { g with updated := true }, g'.updated = true := by
  cases h.phase with
  | settled hall =>
    have hdone := hall g (List.mem_of_getElem? hg)
    rw [hup] at hdone
    cases hdone
  | @updating before last hsplit hbefore hlast hfirst =>
    have hk : k = before.length := by
      by_contra hne
      have hlt := (List.getElem?_eq_some_iff.mp hg).1
      rw [hsplit, List.length_append, List.length_singleton] at hlt
      rw [hsplit, List.getElem?_append_left (by omega)] at hg
      have hdone := hbefore g (List.mem_of_getElem? hg)
      rw [hup] at hdone
      cases hdone
    subst hk
    have hlg : last = g := by
      rw [hsplit, List.getElem?_concat_length] at hg
      exact Option.some.inj hg
    subst hlg
    have hset : p.generators.set before.length { last with updated := true } =
        before ++ [{ last with updated := true }] := by
      rw [hsplit, List.set_append_right _ _ (Nat.le_refl _), Nat.sub_self, List.set_cons_zero]
    have hall : ∀ g' ∈ before ++ [{ last with updated := true }], g'.updated = true := by
      intro g' hg'
      rcases List.mem_append.mp hg' with hg' | hg'
      · exact hbefore g' hg'
      · rw [List.mem_singleton.mp hg']
    have hhanded : p.handed = before.map Generator.message ++ [last.message] := by
      rw [← h.handed, hsplit, List.map_append, List.map_singleton]
    rw [hset]
    refine ⟨?_, hall⟩
    constructor
    case discipline => exact h.discipline
    case up => exact h.up
    case handed => rw [hhanded, List.map_append, List.map_singleton]
    case futures =>
      intro g' hg'
      rcases List.mem_append.mp hg' with hg' | hg'
      · refine h.futures g' ?_
        rw [hsplit]
        exact List.mem_append_left _ hg'
      · rw [List.mem_singleton.mp hg']
        exact h.futures last (List.mem_of_getElem? hg)
    case distinct =>
      have hold := h.distinct
      rw [hsplit, List.map_append, List.map_singleton] at hold
      rw [List.map_append, List.map_singleton]
      exact hold
    case phase => exact .settled hall
    case workspace =>
      intro disk'
      have hold := h.workspace disk'
      rw [updates_updating hsplit hbefore hlast, hhanded,
        List.take_left' (List.length_map Generator.message)] at hold
      have hcount : (before ++ [{ last with updated := true }]).countP Generator.updated =
          p.handed.length := by
        rw [List.countP_eq_length.mpr hall, hhanded, List.length_append, List.length_append,
          List.length_map, List.length_singleton, List.length_singleton]
      rw [Server.updates, hcount, List.take_length, hhanded, applied_concat, ← hold,
        (update_stored h.stored last.message disk disk').1]
    case stored => exact (update_stored h.stored last.message disk disk).2

theorem step (h : Ordered syncKind p) {e : Event} (hq : Schedules.step env syncKind p e = some q) :
    Ordered syncKind q := by
  -- Another generator than the one that has its update before it: their futures differ.
  have other : ∀ (k : Nat) (g : Generator), p.generators[k]? = some g → g.updated = true →
      ∀ g' ∈ p.generators, g'.updated = false → g.future ≠ g'.future := by
    intro k g hg hup g' hg' hup' heq
    have hsame := List.inj_on_of_nodup_map h.distinct (List.mem_of_getElem? hg) hg' heq
    rw [hsame, hup'] at hup
    cases hup
  cases e with
  | handle message uuid => exact h.handle hq
  | update k disk =>
    obtain ⟨g, hlive, hq⟩ := Option.bind_eq_some_iff.mp hq
    split at hq
    · cases hq
    · rename_i hup
      obtain ⟨hdone, hall⟩ := h.updated (live_spec hlive) (by simpa using hup) disk
      dsimp only at hq
      split at hq
      · cases hq
        exact hdone
      · refine hdone.goesOn ?_ ?_ hq
        · intro g' hg' hup'
          rw [hall g' hg'] at hup'
          cases hup'
        · intro g' hg' hup'
          rw [hall g' hg'] at hup'
          cases hup'
  | callUser k uuid kind start =>
    obtain ⟨g, hlive, hq⟩ := Option.bind_eq_some_iff.mp hq
    split at hq
    · rename_i hup
      have hdiff := other k g (live_spec hlive) (Bool.and_eq_true_iff.mp hup).1
      refine h.goesOn ?_ ?_ hq
      · intro g' hg' hup' uuid' kind' start' heq
        injection heq with hfuture
        exact hdiff g' hg' hup' hfuture
      · intro g' _ _ o heq
        cases heq
    · cases hq
  | finish k outcome =>
    obtain ⟨g, hlive, hq⟩ := Option.bind_eq_some_iff.mp hq
    split at hq
    · rename_i hup
      have hdiff := other k g (live_spec hlive) hup
      refine h.goesOn ?_ ?_ hq
      · intro g' _ _ uuid kind start heq
        cases heq
      · intro g' hg' hup' o heq
        injection heq with hfuture
        exact hdiff g' hg' hup' hfuture
    · cases hq
  | protocol e =>
    simp only [Schedules.step] at hq
    split at hq
    · cases hq
    · rename_i hfree
      refine h.goesOn ?_ ?_ hq
      · rintro g hg - uuid kind start rfl
        exact hfree (List.any_eq_true.mpr ⟨g, hg, decide_eq_true rfl⟩)
      · rintro g hg - o rfl
        exact hfree (List.any_eq_true.mpr ⟨g, hg, decide_eq_true rfl⟩)

theorem of_run {es : List Event}
    (hrun : Lib.run (Schedules.step env syncKind) Server.init es = some p) : Ordered syncKind p :=
  Lib.run_invariant (fun _ _ _ h _ hs => h.step hs) (init syncKind) (Lib.meets_true _ _ es) hrun

end Ordered

/-- Whatever the user's handlers are and however they are scheduled: in every state the
workspace is what the built-in updates of the first messages make of it, in their order and
whatever is on the disk; when the message loop is free again these are all the messages it
was handed, so two schedules agree; and a user's handler is only called when the update of
its message, and so of all before it, has been made. -/
theorem workspace_follows_the_messages {env : Env T} {syncKind : SyncKind} {es : List Event}
    {p : Server T} (hrun : Lib.run (step env syncKind) Server.init es = some p) :
    (∀ disk, p.workspace = applied syncKind disk (p.handed.take p.updates)) ∧
    (p.protocol.mainIdle = true → p.updates = p.handed.length) ∧
    (∀ (env' : Env T) (es' : List Event) (p' : Server T),
      Lib.run (step env' syncKind) Server.init es' = some p' → p.protocol.mainIdle = true →
      p'.protocol.mainIdle = true → p'.handed = p.handed → p'.workspace = p.workspace) ∧
    ∀ k uuid kind start q, step env syncKind p (.callUser k uuid kind start) = some q →
      k < p.updates ∧ ∃ g, p.generators[k]? = some g ∧ p.handed[k]? = some g.message := by
  have h := Ordered.of_run hrun
  refine ⟨h.workspace, h.updates_of_idle, ?_, ?_⟩
  · intro env' es' p' hrun' hidle hidle' hsame
    have h' := Ordered.of_run hrun'
    let disk : Disk := fun uri => .error (.osError uri)
    rw [h.workspace disk, h'.workspace disk, h.updates_of_idle hidle, h'.updates_of_idle hidle',
      hsame]
  · intro k uuid kind start q hq
    obtain ⟨g, hlive, hq⟩ := Option.bind_eq_some_iff.mp hq
    have hg := Ordered.live_spec hlive
    split at hq
    · rename_i hup
      refine ⟨h.lt_updates hg (Bool.and_eq_true_iff.mp hup).1, g, hg, ?_⟩
      rw [← h.handed, List.getElem?_map, hg, Option.map_some]
    · cases hq

def sampleItem : TextDocumentItem := ⟨[0x61], [], 1, [0x62]⟩

/-- The user's handler for the first message is in a thread that never ends, the one for the
second raises. -/
def sampleSchedule : List Event :=
  [.handle (.initializeRequest (.int 1) none .utf16) [], .update 0 fun _ => .ok [],
    .callUser 0 [1] .thread none, .protocol (.poolStart 1),
    .handle (.notification (.text (.didOpen sampleItem))) [2], .update 1 fun _ => .ok [],
    .callUser 1 [3] .sync none, .protocol (.syncEnd 3 (.raised .typeError))]

/-- The same messages, without handlers of the user. -/
def bareSchedule : List Event :=
  [.handle (.initializeRequest (.int 1) none .utf16) [], .update 0 fun _ => .ok [],
    .finish 0 (.returned .none), .handle (.notification (.text (.didOpen sampleItem))) [2],
    .update 1 fun _ => .ok [], .finish 1 (.returned .none)]

theorem workspace_follows_the_messages_sample :
    ∃ p p' : Server Unit, Lib.run (step sampleEnv .full) Server.init sampleSchedule = some p ∧
      Lib.run (step sampleEnv .full) Server.init bareSchedule = some p' ∧
      p.handed.length = 2 ∧ p.updates = p.handed.length ∧ p'.workspace = p.workspace := by
  obtain ⟨p, hrun, hidle, hhanded⟩ : ∃ p : Server Unit,
      Lib.run (step sampleEnv .full) Server.init sampleSchedule = some p ∧
      p.protocol.mainIdle = true ∧
      p.handed = [.initializeRequest (.int 1) none .utf16,
        .notification (.text (.didOpen sampleItem))] := by
    with_unfolding_all exact ⟨_, rfl, rfl, rfl⟩
  obtain ⟨p', hrun', hidle', hhanded'⟩ : ∃ p' : Server Unit,
      Lib.run (step sampleEnv .full) Server.init bareSchedule = some p' ∧
      p'.protocol.mainIdle = true ∧
      p'.handed = [.initializeRequest (.int 1) none .utf16,
        .notification (.text (.didOpen sampleItem))] := by
    with_unfolding_all exact ⟨_, rfl, rfl, rfl⟩
  obtain ⟨-, hupdates, hagree, -⟩ := workspace_follows_the_messages hrun
  refine ⟨p, p', hrun, hrun', ?_, hupdates hidle, ?_⟩
  · rw [hhanded]
    rfl
  · exact hagree sampleEnv bareSchedule p' hrun' hidle hidle' (hhanded'.trans hhanded.symm)

end Schedules

end Pygls
