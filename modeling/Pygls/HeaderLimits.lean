import Pygls.MessageLoop

/-!
# Header lines that are refused

Two limits stand outside the `try` block of the loops. `int` takes no more than 4300 digits,
leading zeros included, and the `readline` of an `asyncio.StreamReader` raises when more than
64 KiB come before the end of the line. Either exception leaves the loop.
-/

namespace Pygls.MessageLoop

set_option autoImplicit false

universe u

variable {σ : Type u}

/-- What `sys.get_int_max_str_digits()` is by default. -/
def maxStrDigits : Nat := 4300

/-- The limit of the streams that `start_server`, `open_connection` and
`create_subprocess_exec` make. -/
def streamLimit : Nat := 65536

/-- `match.group(1)` -/
def contentDigits (header : Bytes) : Bytes :=
  (header.drop contentLengthPrefix.length).takeWhile isDigit

/-- `int(match.group(1))` raises. It is called while no content length is known. -/
def overDigits (contentLength : Nat) (header : Bytes) : Bool :=
  contentLength = 0 && (contentLength? header).isSome &&
    maxStrDigits < (contentDigits header).length

/-- `StreamReader.readline` raises. What is left in its buffer then is not read any more. -/
def overLimit (header : Bytes) : Bool := streamLimit < (header.takeWhile (· ≠ 0x0A)).length

structure AsyncReader where
  readexactly : Nat → Bytes → Option Bytes
  overruns : Bytes → Bool

def stdinAsyncReader : AsyncReader := ⟨readFile, fun _ => false⟩

def streamReader : AsyncReader := ⟨readExactly, overLimit⟩

/-- A header line ends the loop over this reader. -/
def AsyncReader.refuses (reader : AsyncReader) (contentLength : Nat) (header : Bytes) : Bool :=
  reader.overruns header || overDigits contentLength header

def limitedRun (stopEvent : σ → Bool) (attempt : σ → Bytes → σ × Bool)
    (errorHandler : Option (σ → σ × Bool)) (state : σ) (stream : Bytes) : Ended σ :=
  messageLoop ⟨stopEvent, readFile, overDigits, attempt, errorHandler⟩ state 0 stream

def limitedRunAsync (reader : AsyncReader) (stopEvent : σ → Bool)
    (attempt : σ → Bytes → σ × Bool) (errorHandler : Option (σ → σ × Bool)) (state : σ)
    (stream : Bytes) : Ended σ :=
  messageLoop ⟨stopEvent, reader.readexactly, reader.refuses, attempt, errorHandler⟩ state 0 stream

/-- The limits only ever end a loop: one that returns has done what it does without them. -/
theorem messageLoop_of_returned (loop : Loop σ) (state : σ) (n : Nat) (stream : Bytes)
    (h : (messageLoop loop state n stream).raised = false) :
    messageLoop { loop with refuses := refusesNone } state n stream =
      messageLoop loop state n stream := by
  fun_induction messageLoop loop state n stream with
  | case1 state n stream hstop => rw [messageLoop, if_pos hstop]
  | case2 state n stream hstop hend => rw [messageLoop, if_neg hstop, dif_pos hend]
  | case3 | case4 | case6 => cases h
  | case5 state n stream hstop hend htakes header rest next hdue hread =>
    rw [messageLoop]
    simp [hstop, hend, refusesNone, header, rest, next, hdue, hread]
  | case7 state n stream hstop hend _ header rest next hdue body hread hbody r hreturned ended ih =>
    rw [messageLoop]
    simp [hstop, hend, refusesNone, header, rest, next, hdue, hread, hbody, r, hreturned, ih h,
      ended]
  | case8 state n stream hstop hend htakes header rest next hdue ih =>
    rw [messageLoop]
    simp [hstop, hend, refusesNone, header, rest, next, hdue, ih h]

theorem messageLoop_refused (loop : Loop σ) {state : σ} (hstop : loop.stopEvent state = false)
    {n : Nat} {line : Bytes} (hline : IsLine line) (hrefused : loop.refuses n line = true)
    (rest : Bytes) : messageLoop loop state n (line ++ rest) = ⟨state, [], rest, true⟩ := by
  rw [messageLoop]
  simp only [hstop, readline_line hline, hrefused, Bool.false_eq_true, if_false,
    isLine_ne_nil hline, dite_false, if_true]

section Refused

variable {stopEvent : σ → Bool} {attempt : σ → Bytes → σ × Bool}
  {errorHandler : Option (σ → σ × Bool)} {state : σ} (hstop : stopEvent state = false)
  {line : Bytes} (hline : IsLine line) (rest : Bytes)
include hstop hline

theorem limitedRun_refused (hrefused : overDigits 0 line = true) :
    limitedRun stopEvent attempt errorHandler state (line ++ rest) = ⟨state, [], rest, true⟩ :=
  messageLoop_refused ⟨stopEvent, readFile, overDigits, attempt, errorHandler⟩ hstop hline hrefused
    rest

theorem limitedRunAsync_refused {reader : AsyncReader} (hrefused : reader.refuses 0 line = true) :
    limitedRunAsync reader stopEvent attempt errorHandler state (line ++ rest) =
      ⟨state, [], rest, true⟩ :=
  messageLoop_refused ⟨stopEvent, reader.readexactly, reader.refuses, attempt, errorHandler⟩ hstop
    hline hrefused rest

end Refused

/-- A block with a refused line does not let the loop return. -/
theorem raised_of_not_takes (loop : Loop σ) {state : σ} (hstop : loop.stopEvent state = false)
    {n : Nat} {headers : List Bytes} {blank : Bytes} (rest : Bytes)
    (hlines : ∀ line ∈ headers, IsLine line ∧ isBlank line = false) (hblank : IsLine blank)
    (hrefused : ¬ Takes loop.refuses n (headers ++ [blank])) :
    (messageLoop loop state n (headers.flatten ++ (blank ++ rest))).raised = true := by
  induction headers generalizing n with
  | nil =>
    have hlast : loop.refuses n blank = true := by simpa [Takes] using hrefused
    rw [List.flatten_nil, List.nil_append, messageLoop_refused loop hstop hblank hlast]
  | cons line headers ih =>
    obtain ⟨hline, hnot⟩ := hlines line List.mem_cons_self
    rw [List.flatten_cons, List.append_assoc]
    cases hrefuses : loop.refuses n line with
    | true => rw [messageLoop_refused loop hstop hline hrefuses]
    | false =>
      rw [messageLoop_header loop hstop n _ hline hrefuses (Or.inr hnot)]
      apply ih fun l hl => hlines l (List.mem_cons_of_mem line hl)
      intro htakes
      apply hrefused
      exact ⟨hrefuses, htakes⟩

theorem takes_of_returned {loop : Loop σ} (h : Reliable loop) (state : σ) {blocks : List Block}
    (hb : ∀ block ∈ blocks, block.WellFormed)
    (hreturned : (messageLoop loop state 0 (blocks.flatMap Block.bytes)).raised = false) :
    ∀ block ∈ blocks, Takes loop.refuses 0 block.lines := by
  induction blocks generalizing state with
  | nil => simp
  | cons block blocks ih =>
    have hblock := hb block List.mem_cons_self
    have ih := fun s => ih s fun b hmem => hb b (List.mem_cons_of_mem block hmem)
    rw [List.flatMap_cons] at hreturned
    by_cases htakes : Takes loop.refuses 0 block.lines
    · rw [messageLoop_block h.read (h.stop state) hblock htakes] at hreturned
      have hrest : ∀ b ∈ blocks, Takes loop.refuses 0 b.lines := by
        cases hbody : block.body? with
        | none =>
          rw [hbody] at hreturned
          exact ih state hreturned
        | some body =>
          rw [hbody] at hreturned
          simp only [afterBody, handleBody_returns h, Bool.false_eq_true, if_false] at hreturned
          exact ih _ hreturned
      intro b hmem
      rcases List.mem_cons.mp hmem with rfl | hmem
      · exact htakes
      · exact hrest b hmem
    · have hraised := raised_of_not_takes loop (h.stop state)
        (block.body?.getD [] ++ blocks.flatMap Block.bytes)
        (fun line hl => ⟨(hblock.lines line hl).1, (hblock.lines line hl).2.2⟩) hblock.blank.1 htakes
      simp only [Block.bytes, List.append_assoc] at hreturned
      rw [hraised] at hreturned
      cases hreturned

/-- A loop stays in sync over a stream of blocks if and only if it refuses none of their lines. -/
theorem messageLoop_blocks_iff {loop : Loop σ} (h : Reliable loop) (state : σ)
    {blocks : List Block} (hb : ∀ block ∈ blocks, block.WellFormed) :
    messageLoop loop state 0 (blocks.flatMap Block.bytes) =
        ⟨(handleAll loop.attempt loop.errorHandler state (bodies blocks)).1,
          (handleAll loop.attempt loop.errorHandler state (bodies blocks)).2, [], false⟩ ↔
      ∀ block ∈ blocks, Takes loop.refuses 0 block.lines := by
  constructor
  · intro hended
    apply takes_of_returned h state hb
    rw [hended]
  · intro htakes
    exact messageLoop_blocks h state hb htakes

/-- Over a stream of frames and foreign header blocks each loop attempts every body once and in
order, reports exactly the attempts that raised and ends at the end of the stream, if and only
if no header line up to there is over a limit. -/
theorem loops_stay_in_sync_iff (stopEvent : σ → Bool) (attempt : σ → Bytes → σ × Bool)
    (report : σ → σ × Bool) (hstop : ∀ state, stopEvent state = false)
    (hreport : ∀ state, (report state).2 = false) (state : σ) (blocks : List Block)
    (hblocks : ∀ block ∈ blocks, block.WellFormed) :
    let handled := handleAll attempt (some report) state (bodies blocks)
    let stream := blocks.flatMap Block.bytes
    (limitedRun stopEvent attempt (some report) state stream = ⟨handled.1, handled.2, [], false⟩ ↔
        ∀ block ∈ blocks, Takes overDigits 0 block.lines) ∧
      (limitedRunAsync stdinAsyncReader stopEvent attempt (some report) state stream =
          ⟨handled.1, handled.2, [], false⟩ ↔
        ∀ block ∈ blocks, Takes stdinAsyncReader.refuses 0 block.lines) ∧
      (limitedRunAsync streamReader stopEvent attempt (some report) state stream =
          ⟨handled.1, handled.2, [], false⟩ ↔
        ∀ block ∈ blocks, Takes streamReader.refuses 0 block.lines) := by
  intro handled stream
  refine ⟨?_, ?_, ?_⟩
  · exact messageLoop_blocks_iff (reliable_readFile overDigits attempt hstop hreport) state hblocks
  · exact messageLoop_blocks_iff
      (reliable_readFile stdinAsyncReader.refuses attempt hstop hreport) state hblocks
  · exact messageLoop_blocks_iff
      (reliable_readExactly streamReader.refuses attempt hstop hreport) state hblocks

/-- Two frames whose handling raises: both are attempted and both are reported. -/
theorem loops_stay_in_sync_raising :
    limitedRun (fun _ => false) (fun n _ => (n + 1, true)) (some fun n => (n, false)) 0
        (sampleFrame.bytes ++ sampleFrame.bytes) =
      ⟨2, [.attempt [0x7B, 0x7D], .errorHandler, .attempt [0x7B, 0x7D], .errorHandler], [],
        false⟩ := by
  have hblocks : ∀ block ∈ [sampleFrame, sampleFrame], block = sampleFrame := by simp
  apply (loops_stay_in_sync_iff (fun _ => false) (fun n _ => (n + 1, true)) (fun n => (n, false))
    (fun _ => rfl) (fun _ => rfl) 0 [sampleFrame, sampleFrame] ?_).1.mpr
  · intro block hblock
    rw [hblocks block hblock]
    exact ⟨by decide, by decide, trivial⟩
  · intro block hblock
    rw [hblocks block hblock]
    exact sampleFrame_wellFormed

/-- The length of the frame is two, after 4300 zeros. -/
def paddedHeader : Bytes :=
  contentLengthPrefix ++ (List.replicate maxStrDigits 0x30 ++ [0x32] ++ [0x0D, 0x0A])

/-- A header that is none of ours, of 64 KiB and its end. -/
def longHeader : Bytes := List.replicate streamLimit 0x41 ++ [0x0D, 0x0A]

def paddedFrame : Block := .frame [paddedHeader] [0x0D, 0x0A] [0x7B, 0x7D]

def longLineFrame : Block :=
  .frame [longHeader, contentLengthPrefix ++ [0x32, 0x0D, 0x0A]] [0x0D, 0x0A] [0x7B, 0x7D]

theorem digitsValue_padded (k : Nat) (digits : Bytes) :
    digitsValue (List.replicate k 0x30 ++ digits) = digitsValue digits := by
  induction k with
  | zero => rfl
  | succ k ih =>
    rw [List.replicate_succ, List.cons_append]
    exact ih

theorem isDigit_padded {k : Nat} : ∀ d ∈ List.replicate k 0x30 ++ [0x32], isDigit d = true := by
  intro d hd
  simp only [List.mem_append, List.mem_replicate, List.mem_singleton] at hd
  rcases hd with ⟨-, rfl⟩ | rfl
  · rfl
  · rfl

theorem contentLength?_padded : contentLength? paddedHeader = some 2 := by
  rw [paddedHeader, contentLength?_digits isDigit_padded (by simp), digitsValue_padded]
  rfl

theorem header_wellFormed {content : Bytes} {b : UInt8} (hlf : 0x0A ∉ content) (hb : b ∈ content)
    (hblank : isBlank [b] = false) :
    let line := content ++ [0x0D, 0x0A]
    IsLine line ∧ [0x0D, 0x0A] <:+ line ∧ isBlank line = false := by
  intro line
  refine ⟨⟨content ++ [0x0D], ?_, ?_⟩, List.suffix_append _ _, ?_⟩
  · simp [line]
  · simpa using hlf
  · apply List.all_eq_false.mpr
    refine ⟨b, List.mem_append_left _ hb, ?_⟩
    simpa [isBlank] using hblank

theorem paddedHeader_wellFormed :
    IsLine paddedHeader ∧ [0x0D, 0x0A] <:+ paddedHeader ∧ isBlank paddedHeader = false := by
  have hlf : 0x0A ∉ contentLengthPrefix ++ (List.replicate maxStrDigits 0x30 ++ [0x32]) := by
    simp [contentLengthPrefix]
  have hheader := header_wellFormed hlf (b := 0x43) (by simp [contentLengthPrefix]) (by decide)
  simpa only [paddedHeader, List.append_assoc] using hheader

theorem longHeader_wellFormed :
    IsLine longHeader ∧ [0x0D, 0x0A] <:+ longHeader ∧ isBlank longHeader = false := by
  have hlf : (0x0A : UInt8) ∉ List.replicate streamLimit 0x41 := by simp
  have hb : (0x41 : UInt8) ∈ List.replicate streamLimit 0x41 :=
    List.mem_replicate.mpr ⟨by decide, rfl⟩
  exact header_wellFormed hlf hb (by decide)

theorem contentLength?_longHeader : contentLength? longHeader = none := by
  have hlimit : streamLimit = 65535 + 1 := rfl
  rw [longHeader, hlimit, List.replicate_succ, List.cons_append]
  exact contentLength?_first (by decide) _

theorem paddedFrame_wellFormed : paddedFrame.WellFormed := by
  refine ⟨?_, sampleFrame_wellFormed.blank, by decide, ?_⟩
  · intro line hline
    obtain rfl := List.mem_singleton.mp hline
    exact paddedHeader_wellFormed
  · rw [List.filterMap_cons_some contentLength?_padded]
    rfl

theorem longLineFrame_wellFormed : longLineFrame.WellFormed := by
  have hsample := sampleFrame_wellFormed
  refine ⟨?_, hsample.blank, by decide, ?_⟩
  · intro line hline
    rcases List.mem_cons.mp hline with rfl | hline
    · exact longHeader_wellFormed
    · exact hsample.lines line hline
  · rw [List.filterMap_cons_none contentLength?_longHeader]
    exact hsample.announces.2

theorem overDigits_paddedHeader : overDigits 0 paddedHeader = true := by
  have hdigits : contentDigits paddedHeader = List.replicate maxStrDigits 0x30 ++ [0x32] := by
    rw [contentDigits, paddedHeader, List.drop_left]
    exact takeWhile_digits isDigit_padded (by decide)
  rw [overDigits, contentLength?_padded, hdigits]
  simp

theorem overLimit_longHeader : overLimit longHeader = true := by
  rw [overLimit, longHeader, List.takeWhile_append_of_pos]
  · simp
  · intro b hb
    rw [List.eq_of_mem_replicate hb]
    rfl

/-- The loops end at the first header line, and neither frame is attempted. -/
theorem long_headers_end_the_loops :
    let attempt : Nat → Bytes → Nat × Bool := fun n _ => (n + 1, false)
    let report : Nat → Nat × Bool := fun n => (n, false)
    (paddedFrame.WellFormed ∧
      limitedRun (fun _ => false) attempt (some report) 0 (paddedFrame.bytes ++ sampleFrame.bytes) =
        ⟨0, [], [0x0D, 0x0A, 0x7B, 0x7D] ++ sampleFrame.bytes, true⟩ ∧
      limitedRunAsync stdinAsyncReader (fun _ => false) attempt (some report) 0
          (paddedFrame.bytes ++ sampleFrame.bytes) =
        ⟨0, [], [0x0D, 0x0A, 0x7B, 0x7D] ++ sampleFrame.bytes, true⟩) ∧
    longLineFrame.WellFormed ∧
      limitedRunAsync streamReader (fun _ => false) attempt (some report) 0
          (longLineFrame.bytes ++ sampleFrame.bytes) =
        ⟨0, [], sampleFrame.bytes ++ sampleFrame.bytes, true⟩ := by
  intro attempt report
  have hpadded := paddedHeader_wellFormed.1
  have hlong := longHeader_wellFormed.1
  have hframe : paddedFrame.bytes ++ sampleFrame.bytes =
      paddedHeader ++ ([0x0D, 0x0A, 0x7B, 0x7D] ++ sampleFrame.bytes) := by
    simp [paddedFrame, Block.bytes, Block.headers, Block.blank, Block.body?]
  have hlongFrame : longLineFrame.bytes ++ sampleFrame.bytes =
      longHeader ++ (sampleFrame.bytes ++ sampleFrame.bytes) := by
    simp [longLineFrame, sampleFrame, Block.bytes, Block.headers, Block.blank, Block.body?]
  have hstdin : stdinAsyncReader.refuses 0 paddedHeader = true := by
    rw [AsyncReader.refuses, overDigits_paddedHeader, Bool.or_true]
  have hstream : streamReader.refuses 0 longHeader = true := by
    have hoverruns : streamReader.overruns = overLimit := rfl
    rw [AsyncReader.refuses, hoverruns, overLimit_longHeader, Bool.true_or]
  refine ⟨⟨paddedFrame_wellFormed, ?_, ?_⟩, longLineFrame_wellFormed, ?_⟩
  · rw [hframe]
    exact limitedRun_refused rfl hpadded _ overDigits_paddedHeader
  · rw [hframe]
    exact limitedRunAsync_refused rfl hpadded _ hstdin
  · rw [hlongFrame]
    exact limitedRunAsync_refused rfl hlong _ hstream

end Pygls.MessageLoop
