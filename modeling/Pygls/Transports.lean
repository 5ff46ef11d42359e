import Pygls.Framing

/-!
# One conversation, every transport

A server gets its messages with headers over stdio and TCP and without them over a WebSocket.
What it does with them must not depend on that, whatever handling them does: an attempt or
the error handler may raise, and the stop event may be set at any message.
-/

namespace Pygls.Transports

open Framing Json MessageLoop

set_option autoImplicit false

/-- What a loop has done, without what it has left unread. -/
def summary {σ : Type} (ended : MessageLoop.Ended σ) : σ × List MessageLoop.Call × Bool :=
  (ended.state, ended.calls, ended.raised)

/-- The frames of the messages that have a JSON text. -/
def frames (messages : List Framing.Message) : List Block := (messages.filterMap body?).map frameOf

theorem frames_wellFormed (messages : List Framing.Message) :
    ∀ block ∈ frames messages, block.WellFormed := by
  intro block hblock
  obtain ⟨body, hbody, rfl⟩ := List.mem_map.mp hblock
  obtain ⟨m, -, hm⟩ := List.mem_filterMap.mp hbody
  apply frameOf_wellFormed
  exact dumps_ne_nil hm

theorem bytes_frames (messages : List Framing.Message) :
    (frames messages).flatMap Block.bytes = (messages.filterMap (sendData true)).flatten := by
  rw [frames, List.flatMap_def, List.map_filterMap, List.map_filterMap]
  congr 1
  apply List.filterMap_congr
  intro m _
  cases h : body? m with
  | none => simp [sendData, h]
  | some body => simp [sendData_eq h]

/-- Without headers a body goes out as it is. -/
theorem bodies_frames (messages : List Framing.Message) :
    bodies (frames messages) = messages.filterMap (sendData false) := by
  simp only [bodies, frames, List.filterMap_map, List.filterMap_filterMap]
  apply List.filterMap_congr
  intro m _
  cases h : body? m with
  | none => simp [sendData, h]
  | some body =>
    have hascii := isAscii_dumps h
    simp [sendData, h, encode_ascii hascii, frameOf, Block.body?]

/-- The loop over the stream of frames does what the WebSocket's does with the messages. -/
theorem summary_messageLoop {σ : Type} (loop : Loop σ) (hread : ReadsBodies loop)
    (htakes : loop.refuses = refusesNone) (state : σ) (messages : List Framing.Message) :
    summary (messageLoop loop state 0 (messages.filterMap (sendData true)).flatten) =
      handleMessages loop.stopEvent loop.attempt loop.errorHandler state
        (messages.filterMap (sendData false)) := by
  rw [← bytes_frames, ← bodies_frames]
  apply messageLoop_eq_handleMessages hread state (frames_wellFormed messages)
  intro block _
  rw [htakes]
  exact takes_refusesNone 0 block.lines

/-- The synchronous loop, the asynchronous one over stdin and over a socket, and the loop of a
WebSocket make the same calls in the same order and end alike. They reach the same state, but
for the stop event, which the WebSocket's sets when its connection is closed. -/
theorem transports_agree {σ : Type} (messages : List Framing.Message) (set : σ → σ)
    (stopEvent : σ → Bool) (attempt : σ → Bytes → σ × Bool)
    (errorHandler : Option (σ → σ × Bool)) (state : σ) :
    let framed := (messages.filterMap (sendData true)).flatten
    let ended := summary (run stopEvent attempt errorHandler state framed)
    summary (runAsync readFile stopEvent attempt errorHandler state framed) = ended ∧
      summary (runAsync readExactly stopEvent attempt errorHandler state framed) = ended ∧
      runWebsocket set stopEvent attempt errorHandler state (messages.filterMap (sendData false)) =
        if ended.2.2 || stopEvent ended.1 then ended else (set ended.1, ended.2) := by
  intro framed ended
  have hfile := summary_messageLoop ⟨stopEvent, readFile, refusesNone, attempt, errorHandler⟩
    (fun body rest => by simp [readFile]) rfl state messages
  have hexact := summary_messageLoop ⟨stopEvent, readExactly, refusesNone, attempt, errorHandler⟩
    (fun body rest => by simp [readExactly]) rfl state messages
  have hended : ended = handleMessages stopEvent attempt errorHandler state
      (messages.filterMap (sendData false)) := hfile
  refine ⟨rfl, ?_, ?_⟩
  · rw [hended]
    exact hexact
  · rw [hended]
    rfl

end Pygls.Transports
