import Pygls.Exceptions
import Pygls.Framing

/-!
# Errors shown to the client

`report_server_error` of a `LanguageServer` shows an error with `window/showMessage`, which goes
out through the `_send_data` whose own errors are reported so. A send that fails is followed by
a report, and a report that fails by a report of that, until the client has been told or the
interpreter's stack is full.
-/

namespace Pygls.ShowMessage

open MessageLoop

set_option autoImplicit false

/-- What `writer.write` does. `failed` is any exception but `BrokenPipeError`, with its text. -/
inductive Written where
  | accepted
  | brokenPipeError
  | failed (error : Str)
  deriving DecidableEq

inductive Source where
  | featureRequestError
  | featureNotificationError
  | jsonRpcInternalError
  deriving DecidableEq

inductive Raised where
  | brokenPipeError
  | recursionError

/-- `windowShowMessage` is the notification with a text, `dumpsError` what `json.dumps` says
of a message that it cannot write. -/
structure Server where
  writer : Option (Nat → Written)
  includeHeaders : Bool
  dumpsError : Framing.Message → Str
  windowShowMessage : Str → Framing.Message

/-- The calls of `writer.write` so far, and the bytes it has accepted. -/
structure Wire where
  writes : Nat
  out : List Bytes

namespace Written

def isFailed : Written → Bool
  | .failed _ => true
  | _ => false

def error : Written → Str
  | .failed error => error
  | _ => []

end Written

namespace Server

def shown (server : Server) (error : Str) : Framing.Message :=
  server.windowShowMessage (text "Error in server: " ++ error)

/-- `send` is the `_send_data` that the notification goes through. -/
def reportServerError (server : Server)
    (send : Wire → Framing.Message → Wire × Option Raised) (w : Wire) (error : Str)
    (source : Source) : Wire × Option Raised :=
  if source = .featureRequestError then (w, none) else send w (server.shown error)

/-- `_report_server_error` -/
def guardedReport (server : Server) (send : Wire → Framing.Message → Wire × Option Raised)
    (w : Wire) (error : Str) (source : Source) : Wire :=
  (server.reportServerError send w error source).1

/-- `_send_data` up to its `except Exception`. -/
def trySend (server : Server) (w : Wire) (m : Framing.Message)
    (handler : Wire → Str → Wire × Option Raised) : Wire × Option Raised :=
  match server.writer with
  | none => (w, none)
  | some writer =>
    match Framing.sendData server.includeHeaders m with
    | none => handler w (server.dumpsError m)
    | some bytes =>
      match writer w.writes with
      | .accepted => (⟨w.writes + 1, w.out ++ [bytes]⟩, none)
      | .brokenPipeError => (⟨w.writes + 1, w.out⟩, some .brokenPipeError)
      | .failed error => handler ⟨w.writes + 1, w.out⟩ error

/-- `_send_data` with room on the stack for so many reports, each made while the one before
fails. The report that does not fit raises. -/
def sendData (server : Server) : Nat → Wire → Framing.Message → Wire × Option Raised
  | 0, w, m => server.trySend w m fun w _ => (w, some .recursionError)
  | depth + 1, w, m => server.trySend w m fun w error =>
      (server.guardedReport (server.sendData depth) w error .jsonRpcInternalError, none)

end Server

/-- What the protocol does with its writer: it sends a message, or reports the error of a
handler. -/
inductive Event where
  | send (depth : Nat) (message : Framing.Message)
  | report (depth : Nat) (error : Str) (source : Source)

def Event.depth : Event → Nat
  | .send depth _ => depth
  | .report depth _ _ => depth

def step (server : Server) (w : Wire) : Event → Wire
  | .send depth m => (server.sendData depth w m).1
  | .report depth error source => server.guardedReport (server.sendData depth) w error source

def run (server : Server) (w : Wire) (es : List Event) : Wire := es.foldl (step server) w

/-- The first message tried for an event, and the room for reports behind it. -/
def opening (server : Server) : Event → Option (Framing.Message × Nat)
  | .send depth m =>
    match Framing.sendData server.includeHeaders m, depth with
    | some _, depth => some (m, depth)
    | none, 0 => none
    | none, depth + 1 => some (server.shown (server.dumpsError m), depth)
  | .report depth error source =>
    if source = .featureRequestError then none else some (server.shown error, depth)

/-- The message of a try: the first one, then the report of the error before. -/
def tried (server : Server) (writer : Nat → Written) (m : Framing.Message) (n : Nat) :
    Nat → Framing.Message
  | 0 => m
  | k + 1 => server.shown (writer (n + k)).error

/-- From the given write on, so many fail, and the next one is the last. -/
structure Settles (writer : Nat → Written) (depth n k : Nat) : Prop where
  bound : k ≤ depth
  failed : ∀ i, i < k → (writer (n + i)).isFailed = true
  last : k = depth ∨ (writer (n + k)).isFailed = false

/-- What is on the wire in the end if the writes for a message are those from `n` up to `n'`. -/
def Tries (server : Server) (writer : Nat → Written) (m : Framing.Message) (depth n : Nat)
    (x : Option Framing.Message) (n' : Nat) : Prop :=
  ∃ k, Settles writer depth n k ∧ n' = n + k + 1 ∧
    x = if writer (n + k) = .accepted then some (tried server writer m n k) else none

def Delivers (server : Server) (writer : Nat → Written) (e : Event) (n : Nat)
    (x : Option Framing.Message) (n' : Nat) : Prop :=
  match opening server e with
  | none => x = none ∧ n' = n
  | some (m, depth) => Tries server writer m depth n x n'

/-- The events take the writes in turns. -/
def Accounts (server : Server) (writer : Nat → Written) :
    Nat → List Event → List (Option Framing.Message) → Prop
  | _, [], xs => xs = []
  | n, e :: es, xs => ∃ x rest n', xs = x :: rest ∧ Delivers server writer e n x n' ∧
      Accounts server writer n' es rest

/-- After so many failing writes at most, one is accepted. -/
def Recovers (writer : Nat → Written) (room : Nat) : Prop :=
  ∀ n, ∃ k, k ≤ room ∧ writer (n + k) = .accepted ∧ ∀ i, i < k → (writer (n + i)).isFailed = true

section Settles

variable {writer : Nat → Written} {depth n k : Nat}

theorem Settles.succ (h : Settles writer depth (n + 1) k) (hn : (writer n).isFailed = true) :
    Settles writer (depth + 1) n (k + 1) := by
  constructor
  case bound =>
    have hk := h.bound
    omega
  case failed =>
    intro i hi
    cases i with
    | zero => exact hn
    | succ i =>
      rw [show n + (i + 1) = n + 1 + i by omega]
      exact h.failed i (by omega)
  case last =>
    rw [show n + (k + 1) = n + 1 + k by omega]
    rcases h.last with hfull | hnot
    · left
      omega
    · exact Or.inr hnot

/-- A writer that recovers in time is what settles it. -/
theorem Settles.accepted {room : Nat} (h : Settles writer depth n k) (hr : Recovers writer room)
    (hroom : room ≤ depth) : writer (n + k) = .accepted := by
  obtain ⟨j, hj, hacc, hfail⟩ := hr n
  rcases Nat.lt_trichotomy k j with hlt | heq | hgt
  · rcases h.last with hfull | hnot
    · omega
    · rw [hfail k hlt] at hnot
      cases hnot
  · rw [heq]
    exact hacc
  · have hbad := h.failed j hgt
    rw [hacc] at hbad
    cases hbad

end Settles

section Sending

variable {server : Server} {writer : Nat → Written}

end Sending

/-- The first write fails. -/
def sampleServer : Server where
  writer := some fun n => if n = 0 then .failed [65] else .accepted
  includeHeaders := false
  dumpsError := fun _ => []
  windowShowMessage := fun error => ⟨.str error⟩

end Pygls.ShowMessage
