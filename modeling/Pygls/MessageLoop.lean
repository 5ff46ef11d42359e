import Pygls.Lines

/-!
# The message loops

`run` and `run_async` of `io_.py` are one loop over two readers. The protocol
is a state with two operations: an attempt at a body (`json.loads` and
`handle_message`) and the error handler, each of which may raise.
-/

namespace Pygls.MessageLoop

set_option autoImplicit false

abbrev Bytes := List UInt8

universe u

/-- Up to and including the next `\n`, or everything when there is none. -/
def readline : Bytes → Bytes × Bytes
  | [] => ([], [])
  | b :: bs => if b = 0x0A then ([b], bs) else (b :: (readline bs).1, (readline bs).2)

/-- Empty after `bytes.strip`. -/
def isBlank (line : Bytes) : Bool :=
  line.all fun b => b ∈ ([0x20, 0x09, 0x0A, 0x0D, 0x0B, 0x0C] : List UInt8)

def isDigit (b : UInt8) : Bool := 0x30 ≤ b && b ≤ 0x39

def digitsValue (digits : Bytes) : Nat :=
  digits.foldl (fun n b => 10 * n + (b.toNat - 48)) 0

def contentLengthPrefix : Bytes :=
  [0x43, 0x6F, 0x6E, 0x74, 0x65, 0x6E, 0x74, 0x2D, 0x4C, 0x65, 0x6E, 0x67, 0x74, 0x68, 0x3A, 0x20]

/-- `rb"^Content-Length: (\d+)\r\n$"` against a whole line. -/
def contentLength? (header : Bytes) : Option Nat :=
  let rest := header.drop contentLengthPrefix.length
  let digits := rest.takeWhile isDigit
  if header.take contentLengthPrefix.length = contentLengthPrefix ∧ digits ≠ [] ∧
      rest.drop digits.length = [0x0D, 0x0A] then
    some (digitsValue digits)
  else none

/-- The protocol and the reader as the loop sees them. `read` is `none` where the
reader raises; `refuses` says that reading a header line raises, or `int` on its digits,
given the content length known so far; the flags of `attempt` and `errorHandler` say that
they raised. -/
structure Loop (σ : Type u) where
  stopEvent : σ → Bool
  read : Nat → Bytes → Option Bytes
  refuses : Nat → Bytes → Bool
  attempt : σ → Bytes → σ × Bool
  errorHandler : Option (σ → σ × Bool)

inductive Call where
  | attempt (body : Bytes)
  | errorHandler
  deriving DecidableEq, Repr

def Call.attempted : Call → Option Bytes
  | .attempt body => some body
  | .errorHandler => none

structure Ended (σ : Type u) where
  state : σ
  calls : List Call
  rest : Bytes
  raised : Bool

/-- A reader over a file object: `read` and `StdinAsyncReader.readexactly` return
what is left when there is less. -/
def readFile (n : Nat) (stream : Bytes) : Option Bytes := some (stream.take n)

/-- `asyncio.StreamReader.readexactly` raises `IncompleteReadError` instead. -/
def readExactly (n : Nat) (stream : Bytes) : Option Bytes :=
  if n ≤ stream.length then some (stream.take n) else none

theorem readline_append (stream : Bytes) : (readline stream).1 ++ (readline stream).2 = stream := by
  induction stream with
  | nil => rfl
  | cons b bs ih =>
    rw [readline]
    split
    · rfl
    · rw [List.cons_append, ih]

theorem readline_shorter {stream : Bytes} (h : (readline stream).1 ≠ []) :
    (readline stream).2.length < stream.length := by
  have hlen := congrArg List.length (readline_append stream)
  have hpos := List.length_pos_iff.mpr h
  rw [List.length_append] at hlen
  omega

variable {σ : Type u}

/-- The `try` block: the state, the calls made, and whether an exception leaves it. -/
def handleBody (attempt : σ → Bytes → σ × Bool) (errorHandler : Option (σ → σ × Bool))
    (state : σ) (body : Bytes) : σ × List Call × Bool :=
  match attempt state body with
  | (state, false) => (state, [.attempt body], false)
  | (state, true) =>
    match errorHandler with
    | none => (state, [.attempt body], false)
    | some report =>
      let r := report state
      (r.1, [.attempt body, .errorHandler], r.2)

/-- What the loop knows of the content length after a header line. -/
def nextLength (contentLength : Nat) (header : Bytes) : Nat :=
  if contentLength = 0 then (contentLength? header).getD 0 else contentLength

def messageLoop (loop : Loop σ) (state : σ) (contentLength : Nat) (stream : Bytes) : Ended σ :=
  if loop.stopEvent state then ⟨state, [], stream, false⟩
  else if _h : (readline stream).1 = [] then ⟨state, [], stream, false⟩
  else if loop.refuses contentLength (readline stream).1 then
    ⟨state, [], (readline stream).2, true⟩
  else
    let header := (readline stream).1
    let rest := (readline stream).2
    let contentLength := nextLength contentLength header
    if contentLength ≠ 0 ∧ isBlank header then
      match loop.read contentLength rest with
      | none => ⟨state, [], rest, true⟩
      | some body =>
        if body = [] then ⟨state, [], rest, false⟩
        else
          let r := handleBody loop.attempt loop.errorHandler state body
          if r.2.2 then ⟨r.1, r.2.1, rest.drop body.length, true⟩
          else
            let ended := messageLoop loop r.1 0 (rest.drop body.length)
            { ended with calls := r.2.1 ++ ended.calls }
    else messageLoop loop state contentLength rest
termination_by stream.length
decreasing_by
  · have hrest := readline_shorter _h
    simp only [List.length_drop]
    omega
  · exact readline_shorter _h

/-- A reader without a limit on its lines, and digits that `int` takes. -/
def refusesNone : Nat → Bytes → Bool := fun _ _ => false

/-- The two public loops differ in the reader they are given. These take every header line;
`HeaderLimits` has the ones that some readers and `int` refuse. -/
def run (stopEvent : σ → Bool) (attempt : σ → Bytes → σ × Bool)
    (errorHandler : Option (σ → σ × Bool)) (state : σ) (stream : Bytes) : Ended σ :=
  messageLoop ⟨stopEvent, readFile, refusesNone, attempt, errorHandler⟩ state 0 stream

def runAsync (readexactly : Nat → Bytes → Option Bytes) (stopEvent : σ → Bool)
    (attempt : σ → Bytes → σ × Bool) (errorHandler : Option (σ → σ × Bool)) (state : σ)
    (stream : Bytes) : Ended σ :=
  messageLoop ⟨stopEvent, readexactly, refusesNone, attempt, errorHandler⟩ state 0 stream

/-- The messages of `run_websocket`, until there are no more: the state, the calls made, and
whether an exception leaves the loop. -/
def handleMessages (stopEvent : σ → Bool) (attempt : σ → Bytes → σ × Bool)
    (errorHandler : Option (σ → σ × Bool)) : σ → List Bytes → σ × List Call × Bool
  | state, [] => (state, [], false)
  | state, data :: rest =>
    if stopEvent state then (state, [], false)
    else
      let r := handleBody attempt errorHandler state data
      if r.2.2 then (r.1, r.2.1, true)
      else
        let t := handleMessages stopEvent attempt errorHandler r.1 rest
        (t.1, r.2.1 ++ t.2.1, t.2.2)

/-- `run_websocket` over the messages received until the connection is closed, where `set` is
what `stop_event.set()` does to the state. -/
def runWebsocket (set : σ → σ) (stopEvent : σ → Bool) (attempt : σ → Bytes → σ × Bool)
    (errorHandler : Option (σ → σ × Bool)) (state : σ) (messages : List Bytes) :
    σ × List Call × Bool :=
  let r := handleMessages stopEvent attempt errorHandler state messages
  if r.2.2 || stopEvent r.1 then r else (set r.1, r.2)

/-- A line of the stream: one `\n`, at its end. -/
def IsLine (line : Bytes) : Prop := ∃ content : Bytes, line = content ++ [0x0A] ∧ 0x0A ∉ content

/-- A header block with a body, or one that announces none. -/
inductive Block where
  | frame (headers : List Bytes) (blank : Bytes) (body : Bytes)
  | foreign (headers : List Bytes) (blank : Bytes)

namespace Block

def headers : Block → List Bytes
  | .frame headers _ _ => headers
  | .foreign headers _ => headers

def blank : Block → Bytes
  | .frame _ blank _ => blank
  | .foreign _ blank => blank

def body? : Block → Option Bytes
  | .frame _ _ body => some body
  | .foreign _ _ => none

def lines (block : Block) : List Bytes := block.headers ++ [block.blank]

def bytes (block : Block) : Bytes :=
  block.headers.flatten ++ block.blank ++ block.body?.getD []

/-- The first matching `Content-Length` of a frame is the length of its body, at
least one; a foreign block has none, or only zeros. -/
def Announces : Block → Prop
  | .frame headers _ body =>
    body ≠ [] ∧ (headers.filterMap contentLength?).head? = some body.length
  | .foreign headers _ => ∀ n ∈ headers.filterMap contentLength?, n = 0

structure WellFormed (block : Block) : Prop where
  lines : ∀ line ∈ block.headers, IsLine line ∧ [0x0D, 0x0A] <:+ line ∧ isBlank line = false
  blank : IsLine block.blank ∧ isBlank block.blank = true
  announces : block.Announces

end Block

/-- The bodies of the frames, in stream order. -/
def bodies (blocks : List Block) : List Bytes := blocks.filterMap Block.body?

/-- Every body attempted once, in order, the error handler after those that raised. -/
def handleAll (attempt : σ → Bytes → σ × Bool) (errorHandler : Option (σ → σ × Bool)) :
    σ → List Bytes → σ × List Call
  | state, [] => (state, [])
  | state, body :: rest =>
    let r := handleBody attempt errorHandler state body
    let t := handleAll attempt errorHandler r.1 rest
    (t.1, r.2.1 ++ t.2)

theorem readline_line {line rest : Bytes} (h : IsLine line) :
    readline (line ++ rest) = (line, rest) := by
  obtain ⟨content, rfl, hno⟩ := h
  induction content with
  | nil => simp [readline]
  | cons b bs ih =>
    simp only [List.mem_cons, not_or] at hno
    have ih := ih hno.2
    simp only [List.cons_append, List.append_assoc] at ih ⊢
    rw [readline, if_neg (Ne.symm hno.1), ih]

theorem isLine_ne_nil {line : Bytes} (h : IsLine line) : line ≠ [] := by
  obtain ⟨content, rfl, -⟩ := h
  simp

theorem takeWhile_digits {digits rest : Bytes} {b : UInt8} (hd : ∀ d ∈ digits, isDigit d = true)
    (hb : isDigit b = false) : (digits ++ b :: rest).takeWhile isDigit = digits := by
  rw [List.takeWhile_append_of_pos hd]
  simp [List.takeWhile, hb]

theorem contentLength?_digits {digits : Bytes} (hd : ∀ d ∈ digits, isDigit d = true)
    (hne : digits ≠ []) :
    contentLength? (contentLengthPrefix ++ (digits ++ [0x0D, 0x0A])) = some (digitsValue digits) := by
  have hdigits : (digits ++ [0x0D, 0x0A]).takeWhile isDigit = digits :=
    takeWhile_digits hd (by decide)
  simp only [contentLength?, List.take_left, List.drop_left, hdigits]
  rw [if_pos ⟨trivial, hne, trivial⟩]

theorem contentLength?_first {b : UInt8} (hb : b ≠ 0x43) (rest : Bytes) :
    contentLength? (b :: rest) = none := by
  unfold contentLength?
  rw [if_neg]
  rintro ⟨hfirst, -, -⟩
  apply hb
  simpa [contentLengthPrefix] using congrArg List.head? hfirst

/-- A blank line matches no `Content-Length` header. -/
theorem contentLength?_blank {line : Bytes} (h : isBlank line = true) :
    contentLength? line = none := by
  cases line with
  | nil => rfl
  | cons b bs =>
    apply contentLength?_first
    rintro rfl
    simp [isBlank] at h

/-- None of these header lines is refused, the content length known before them being `n`. -/
def Takes (refuses : Nat → Bytes → Bool) : Nat → List Bytes → Prop
  | _, [] => True
  | n, line :: lines => refuses n line = false ∧ Takes refuses (nextLength n line) lines

theorem takes_refusesNone (n : Nat) (lines : List Bytes) : Takes refusesNone n lines := by
  induction lines generalizing n with
  | nil => trivial
  | cons line lines ih => exact ⟨rfl, ih _⟩

theorem takes_append {refuses : Nat → Bytes → Bool} {n : Nat} {a b : List Bytes} :
    Takes refuses n (a ++ b) ↔ Takes refuses n a ∧ Takes refuses (a.foldl nextLength n) b := by
  induction a generalizing n with
  | nil => simp [Takes]
  | cons line a ih => simp only [List.cons_append, Takes, List.foldl_cons, ih, and_assoc]

section Headers

variable (loop : Loop σ) {state : σ} (hstop : loop.stopEvent state = false)
include hstop

/-- A header line only moves the content length. -/
theorem messageLoop_header (n : Nat) {line : Bytes} (rest : Bytes) (hline : IsLine line)
    (htakes : loop.refuses n line = false)
    (hblank : nextLength n line = 0 ∨ isBlank line = false) :
    messageLoop loop state n (line ++ rest) = messageLoop loop state (nextLength n line) rest := by
  rw [messageLoop]
  simp only [hstop, readline_line hline, htakes, Bool.false_eq_true, if_false,
    isLine_ne_nil hline, dite_false]
  rw [if_neg]
  rintro ⟨hn, hb⟩
  rcases hblank with hz | hf
  · exact hn hz
  · rw [hf] at hb
    cases hb

theorem messageLoop_headers (n : Nat) (headers : List Bytes) (rest : Bytes)
    (htakes : Takes loop.refuses n headers)
    (hlines : ∀ line ∈ headers, IsLine line ∧ isBlank line = false) :
    messageLoop loop state n (headers.flatten ++ rest) =
      messageLoop loop state (headers.foldl nextLength n) rest := by
  induction headers generalizing n with
  | nil => rfl
  | cons line headers ih =>
    obtain ⟨hline, hblank⟩ := hlines line List.mem_cons_self
    rw [List.flatten_cons, List.append_assoc,
      messageLoop_header loop hstop n _ hline htakes.1 (Or.inr hblank)]
    exact ih _ htakes.2 fun l hl => hlines l (List.mem_cons_of_mem line hl)

end Headers

theorem foldl_nextLength_pos (headers : List Bytes) {n : Nat} (h : n ≠ 0) :
    headers.foldl nextLength n = n := by
  induction headers with
  | nil => rfl
  | cons line headers ih => rw [List.foldl_cons, nextLength, if_neg h, ih]

/-- The first match wins, unless it is zero. -/
theorem foldl_nextLength (headers : List Bytes) :
    headers.foldl nextLength 0 =
      ((headers.filterMap contentLength?).find? fun n => n ≠ 0).getD 0 := by
  induction headers with
  | nil => rfl
  | cons line headers ih =>
    rw [List.foldl_cons, nextLength, if_pos rfl]
    cases hc : contentLength? line with
    | none =>
      rw [List.filterMap_cons_none hc]
      exact ih
    | some m =>
      rw [List.filterMap_cons_some hc]
      by_cases hm : m = 0
      · subst hm
        rw [List.find?_cons_of_neg (by simp)]
        exact ih
      · rw [List.find?_cons_of_pos (by simpa using hm)]
        exact foldl_nextLength_pos headers hm

theorem foldl_nextLength_first {headers : List Bytes} {n : Nat} (hn : n ≠ 0)
    (h : (headers.filterMap contentLength?).head? = some n) :
    headers.foldl nextLength 0 = n := by
  obtain ⟨rest, hrest⟩ := List.head?_eq_some_iff.mp h
  rw [foldl_nextLength, hrest, List.find?_cons_of_pos (by simpa using hn)]
  rfl

theorem foldl_nextLength_zero {headers : List Bytes}
    (h : ∀ n ∈ headers.filterMap contentLength?, n = 0) : headers.foldl nextLength 0 = 0 := by
  rw [foldl_nextLength, List.find?_eq_none.mpr]
  · rfl
  · intro n hn
    simpa using h n hn

/-- What the loop relies on: it is never stopped, the error handler returns, and
the reader hands over a body that is there. -/
structure Reliable (loop : Loop σ) : Prop where
  stop : ∀ state, loop.stopEvent state = false
  report : ∀ report, loop.errorHandler = some report → ∀ state, (report state).2 = false
  read : ∀ body rest, loop.read body.length (body ++ rest) = some body

variable {loop : Loop σ}

theorem handleBody_returns (h : Reliable loop) (state : σ) (body : Bytes) :
    (handleBody loop.attempt loop.errorHandler state body).2.2 = false := by
  unfold handleBody
  cases loop.attempt state body with
  | mk state raised =>
    cases raised with
    | false => rfl
    | true =>
      cases hreport : loop.errorHandler with
      | none => rfl
      | some report => exact h.report report hreport state

/-- The reader hands over a body that is there. -/
def ReadsBodies (loop : Loop σ) : Prop :=
  ∀ body rest, loop.read body.length (body ++ rest) = some body

/-- What the loop does with a frame's body and what follows it. -/
def afterBody (loop : Loop σ) (state : σ) (body rest : Bytes) : Ended σ :=
  let r := handleBody loop.attempt loop.errorHandler state body
  if r.2.2 then ⟨r.1, r.2.1, rest, true⟩
  else { messageLoop loop r.1 0 rest with calls := r.2.1 ++ (messageLoop loop r.1 0 rest).calls }

/-- At the blank line behind its headers a frame's body is read and handled, and
the loop is back where it started unless the error handler raised. -/
theorem messageLoop_body (hread : ReadsBodies loop) {state : σ}
    (hstop : loop.stopEvent state = false) {blank body : Bytes} (rest : Bytes)
    (hline : IsLine blank) (htakes : loop.refuses body.length blank = false)
    (hblank : isBlank blank = true) (hbody : body ≠ []) :
    messageLoop loop state body.length (blank ++ (body ++ rest)) = afterBody loop state body rest := by
  have hpos : body.length ≠ 0 := by simpa using hbody
  have hnext : nextLength body.length blank = body.length := if_neg hpos
  rw [messageLoop]
  simp only [hstop, readline_line hline, htakes, Bool.false_eq_true, if_false,
    isLine_ne_nil hline, dite_false, hnext]
  rw [if_pos ⟨hpos, hblank⟩, hread]
  simp only [if_neg hbody, List.drop_left, afterBody]

theorem messageLoop_block (hread : ReadsBodies loop) {state : σ}
    (hstop : loop.stopEvent state = false) {block : Block} (hb : block.WellFormed)
    (htakes : Takes loop.refuses 0 block.lines) (rest : Bytes) :
    messageLoop loop state 0 (block.bytes ++ rest) =
      match block.body? with
      | none => messageLoop loop state 0 rest
      | some body => afterBody loop state body rest := by
  obtain ⟨hlines, hlast, -⟩ := takes_append.mp htakes
  have hheaders := messageLoop_headers loop hstop 0 block.headers
    (block.blank ++ (block.body?.getD [] ++ rest)) hlines fun l hl =>
      ⟨(hb.lines l hl).1, (hb.lines l hl).2.2⟩
  have hannounces := hb.announces
  cases block with
  | frame headers blank body =>
    simp only [Block.bytes, Block.headers, Block.blank, Block.body?, Option.getD_some,
      List.append_assoc] at hheaders hlast ⊢
    have hpos : body.length ≠ 0 := by simpa using hannounces.1
    rw [foldl_nextLength_first hpos hannounces.2] at hlast
    rw [hheaders, foldl_nextLength_first hpos hannounces.2]
    exact messageLoop_body hread hstop rest hb.blank.1 hlast hb.blank.2 hannounces.1
  | foreign headers blank =>
    simp only [Block.bytes, Block.headers, Block.blank, Block.body?, Option.getD_none,
      List.append_assoc, List.nil_append] at hheaders hlast ⊢
    rw [foldl_nextLength_zero hannounces] at hlast
    have hnone : contentLength? blank = none := contentLength?_blank hb.blank.2
    have hzero : nextLength 0 blank = 0 := by
      simp only [nextLength, hnone, if_true, Option.getD_none]
    have hblank := messageLoop_header loop hstop 0 rest hb.blank.1 hlast (Or.inl hzero)
    simp only [Block.blank, hzero] at hblank
    rw [hheaders, foldl_nextLength_zero hannounces, hblank]

theorem messageLoop_stopped {state : σ} (hstop : loop.stopEvent state = true) (n : Nat)
    (stream : Bytes) : messageLoop loop state n stream = ⟨state, [], stream, false⟩ := by
  rw [messageLoop, if_pos hstop]

theorem messageLoop_nil (loop : Loop σ) (state : σ) (n : Nat) :
    messageLoop loop state n [] = ⟨state, [], [], false⟩ := by
  rw [messageLoop]
  simp [readline]

theorem bodies_cons (block : Block) (blocks : List Block) :
    bodies (block :: blocks) = block.body?.toList ++ bodies blocks := by
  simp only [bodies, List.filterMap_cons]
  cases block.body? <;> rfl

theorem handleMessages_stopped {stopEvent : σ → Bool} {state : σ} (hstop : stopEvent state = true)
    (attempt : σ → Bytes → σ × Bool) (errorHandler : Option (σ → σ × Bool)) (messages : List Bytes) :
    handleMessages stopEvent attempt errorHandler state messages = (state, [], false) := by
  cases messages with
  | nil => rfl
  | cons data rest => rw [handleMessages, if_pos hstop]

/-- Over a stream of blocks the framed loops treat the bodies as `run_websocket` treats the
messages it receives. -/
theorem messageLoop_eq_handleMessages (hread : ReadsBodies loop) (state : σ) {blocks : List Block}
    (hb : ∀ block ∈ blocks, block.WellFormed)
    (htakes : ∀ block ∈ blocks, Takes loop.refuses 0 block.lines) :
    let ended := messageLoop loop state 0 (blocks.flatMap Block.bytes)
    (ended.state, ended.calls, ended.raised) =
      handleMessages loop.stopEvent loop.attempt loop.errorHandler state (bodies blocks) := by
  induction blocks generalizing state with
  | nil =>
    simp only [List.flatMap_nil, messageLoop_nil]
    rfl
  | cons block blocks ih =>
    have ih := fun s => ih s (fun b hmem => hb b (List.mem_cons_of_mem block hmem))
      (fun b hmem => htakes b (List.mem_cons_of_mem block hmem))
    cases hstop : loop.stopEvent state with
    | true =>
      rw [handleMessages_stopped hstop]
      simp only [messageLoop_stopped hstop]
    | false =>
      rw [List.flatMap_cons, messageLoop_block hread hstop (hb block List.mem_cons_self)
        (htakes block List.mem_cons_self), bodies_cons]
      cases block.body? with
      | none => exact ih state
      | some body =>
        simp only [Option.toList_some, List.singleton_append, handleMessages, hstop, afterBody,
          Bool.false_eq_true, if_false]
        split
        · rfl
        · rw [← ih]

theorem handleAll_append (attempt : σ → Bytes → σ × Bool) (errorHandler : Option (σ → σ × Bool))
    (state : σ) (a b : List Bytes) :
    handleAll attempt errorHandler state (a ++ b) =
      ((handleAll attempt errorHandler (handleAll attempt errorHandler state a).1 b).1,
        (handleAll attempt errorHandler state a).2 ++
          (handleAll attempt errorHandler (handleAll attempt errorHandler state a).1 b).2) := by
  induction a generalizing state with
  | nil => rfl
  | cons body a ih => simp only [List.cons_append, handleAll, ih, List.append_assoc]

theorem attempted_handleAll (attempt : σ → Bytes → σ × Bool) (errorHandler : Option (σ → σ × Bool))
    (state : σ) (bodies : List Bytes) :
    (handleAll attempt errorHandler state bodies).2.filterMap Call.attempted = bodies := by
  induction bodies generalizing state with
  | nil => rfl
  | cons body bodies ih =>
    have hone : (handleBody attempt errorHandler state body).2.1.filterMap Call.attempted =
        [body] := by
      unfold handleBody
      split
      · rfl
      · cases errorHandler <;> rfl
    rw [handleAll, List.filterMap_append, hone, ih]
    rfl

/-- The loop invariant over a whole stream: at every block boundary the content
length is zero and exactly the earlier bodies have been handled. -/
theorem messageLoop_blocks_append (h : Reliable loop) (state : σ) {blocks : List Block}
    (hb : ∀ block ∈ blocks, block.WellFormed)
    (htakes : ∀ block ∈ blocks, Takes loop.refuses 0 block.lines) (rest : Bytes) :
    messageLoop loop state 0 (blocks.flatMap Block.bytes ++ rest) =
      { messageLoop loop (handleAll loop.attempt loop.errorHandler state (bodies blocks)).1 0 rest with
        calls := (handleAll loop.attempt loop.errorHandler state (bodies blocks)).2 ++
          (messageLoop loop
            (handleAll loop.attempt loop.errorHandler state (bodies blocks)).1 0 rest).calls } := by
  induction blocks generalizing state with
  | nil => rfl
  | cons block blocks ih =>
    have ih := fun s => ih s (fun b hmem => hb b (List.mem_cons_of_mem block hmem))
      (fun b hmem => htakes b (List.mem_cons_of_mem block hmem))
    rw [List.flatMap_cons, List.append_assoc,
      messageLoop_block h.read (h.stop state) (hb block List.mem_cons_self)
        (htakes block List.mem_cons_self), bodies_cons,
      handleAll_append]
    cases block.body? with
    | none =>
      simp only [Option.toList_none, handleAll]
      rw [ih, List.nil_append]
    | some body =>
      simp only [Option.toList_some, handleAll, afterBody, handleBody_returns h, Bool.false_eq_true,
        if_false]
      rw [ih]
      simp only [List.append_nil, List.append_assoc]

theorem messageLoop_blocks (h : Reliable loop) (state : σ) {blocks : List Block}
    (hb : ∀ block ∈ blocks, block.WellFormed)
    (htakes : ∀ block ∈ blocks, Takes loop.refuses 0 block.lines) :
    messageLoop loop state 0 (blocks.flatMap Block.bytes) =
      ⟨(handleAll loop.attempt loop.errorHandler state (bodies blocks)).1,
        (handleAll loop.attempt loop.errorHandler state (bodies blocks)).2, [], false⟩ := by
  have hblocks := messageLoop_blocks_append h state hb htakes []
  rw [List.append_nil] at hblocks
  simp only [hblocks, messageLoop_nil, List.append_nil]

theorem reliable_readFile {stopEvent : σ → Bool} (refuses : Nat → Bytes → Bool)
    (attempt : σ → Bytes → σ × Bool) {report : σ → σ × Bool}
    (hstop : ∀ state, stopEvent state = false) (hreport : ∀ state, (report state).2 = false) :
    Reliable ⟨stopEvent, readFile, refuses, attempt, some report⟩ :=
  ⟨hstop, fun r hr => Option.some.inj hr ▸ hreport, fun body rest => by simp [readFile]⟩

theorem reliable_readExactly {stopEvent : σ → Bool} (refuses : Nat → Bytes → Bool)
    (attempt : σ → Bytes → σ × Bool) {report : σ → σ × Bool}
    (hstop : ∀ state, stopEvent state = false) (hreport : ∀ state, (report state).2 = false) :
    Reliable ⟨stopEvent, readExactly, refuses, attempt, some report⟩ :=
  ⟨hstop, fun r hr => Option.some.inj hr ▸ hreport, fun body rest => by simp [readExactly]⟩

def sampleFrame : Block :=
  .frame [contentLengthPrefix ++ [0x32, 0x0D, 0x0A]] [0x0D, 0x0A] [0x7B, 0x7D]

theorem sampleFrame_wellFormed : sampleFrame.WellFormed := by
  refine ⟨?_, ⟨⟨[0x0D], rfl, by decide⟩, by decide⟩, by decide, by decide⟩
  intro line hline
  obtain rfl := List.mem_singleton.mp hline
  exact ⟨⟨contentLengthPrefix ++ [0x32, 0x0D], rfl, by decide⟩, by decide, by decide⟩

end Pygls.MessageLoop
