import Pygls.MessageLoop

/-!
# Streams that end early

A stream of frames may be cut off at any byte. `cut` splits what arrived into the
complete blocks and the block it was cut in. The loop reads on in that block until
a line is empty; if it knows a content length by then it asks for a body that is
not all there, and there the two readers differ.
-/

namespace Pygls.Truncation

open MessageLoop

set_option autoImplicit false

universe u v

variable {σ : Type u} {μ : Type v}

/-- The complete blocks among the first `k` bytes, and the block that is cut with the
number of its bytes that arrived. -/
def cut : List Block → Nat → List Block × Option (Block × Nat)
  | [], _ => ([], none)
  | block :: blocks, k =>
    if block.bytes.length ≤ k then
      let r := cut blocks (k - block.bytes.length)
      (block :: r.1, r.2)
    else ([], some (block, k))

/-- With `k` bytes of the header lines and what follows them, the loop gets to a line that
looks empty and knows a content length, `n` being the one known so far. -/
def bodyDue : Nat → List Bytes → Nat → Bool
  | n, [], k => 0 < k && n ≠ 0
  | n, line :: lines, k =>
    if line.length ≤ k then bodyDue (nextLength n line) lines (k - line.length)
    else 0 < k && n ≠ 0 && isBlank (line.take k)

/-- The bytes of the body among the first `k` bytes of a block. -/
def leftover (block : Block) (k : Nat) : Bytes :=
  (block.body?.getD []).take (k - block.headers.flatten.length - block.blank.length)

/-- What the loop does once it has asked for `n` bytes of the rest. -/
def afterRead (loop : Loop σ) (state : σ) (n : Nat) (rest : Bytes) : MessageLoop.Ended σ :=
  match loop.read n rest with
  | none => ⟨state, [], rest, true⟩
  | some body =>
    if body = [] then ⟨state, [], rest, false⟩
    else
      let r := handleBody loop.attempt loop.errorHandler state body
      if r.2.2 then ⟨r.1, r.2.1, rest.drop body.length, true⟩
      else
        { messageLoop loop r.1 0 (rest.drop body.length) with
          calls := r.2.1 ++ (messageLoop loop r.1 0 (rest.drop body.length)).calls }

/-- The protocol as the loop uses it: `json.loads` with its hook, which raises or returns a
message, and `handle_message`. The error handler only sees the server's state. -/
structure Dispatcher (σ : Type u) (μ : Type v) where
  stopEvent : σ → Bool
  decode : σ → Bytes → σ × Option μ
  handle : σ → μ → σ × Bool
  errorHandler : σ → σ × Bool

namespace Dispatcher

/-- The `try` block, with the messages dispatched so far. -/
def attempt (d : Dispatcher σ μ) (p : σ × List μ) (body : Bytes) : (σ × List μ) × Bool :=
  match d.decode p.1 body with
  | (state, none) => ((state, p.2), true)
  | (state, some message) =>
    (((d.handle state message).1, p.2 ++ [message]), (d.handle state message).2)

def report (d : Dispatcher σ μ) (p : σ × List μ) : (σ × List μ) × Bool :=
  (((d.errorHandler p.1).1, p.2), (d.errorHandler p.1).2)

def loop (d : Dispatcher σ μ) (read : Nat → Bytes → Option Bytes) : Loop (σ × List μ) :=
  ⟨fun p => d.stopEvent p.1, read, refusesNone, d.attempt, some d.report⟩

def runAsync (d : Dispatcher σ μ) (readexactly : Nat → Bytes → Option Bytes) (state : σ)
    (stream : Bytes) : MessageLoop.Ended (σ × List μ) :=
  MessageLoop.runAsync readexactly (fun p => d.stopEvent p.1) d.attempt (some d.report) (state, [])
    stream

theorem runAsync_eq (d : Dispatcher σ μ) (readexactly : Nat → Bytes → Option Bytes) (state : σ)
    (stream : Bytes) :
    d.runAsync readexactly state stream = messageLoop (d.loop readexactly) (state, []) 0 stream := rfl

/-- The state and the dispatched messages after the bodies of the blocks. -/
def dispatch (d : Dispatcher σ μ) (state : σ) (blocks : List Block) : σ × List μ :=
  (handleAll d.attempt (some d.report) (state, []) (bodies blocks)).1

end Dispatcher

/-- The loop returned at the end of the stream and has dispatched these messages. -/
structure EndsCleanly (ended : MessageLoop.Ended (σ × List μ)) (dispatched : List μ) : Prop where
  returned : ended.raised = false
  consumed : ended.rest = []
  messages : ended.state.2 = dispatched

theorem cut_spec (blocks : List Block) (k : Nat) :
    (blocks.flatMap Block.bytes).take k = (cut blocks k).1.flatMap Block.bytes ++
        ((cut blocks k).2.elim [] fun p => p.1.bytes.take p.2) ∧
      (∀ block ∈ (cut blocks k).1, block ∈ blocks) ∧
      ∀ p, (cut blocks k).2 = some p → p.1 ∈ blocks ∧ p.2 < p.1.bytes.length := by
  induction blocks generalizing k with
  | nil => exact ⟨by simp [cut], nofun, nofun⟩
  | cons block blocks ih =>
    rw [cut]
    split
    · rename_i hle
      obtain ⟨htake, hin, hcut⟩ := ih (k - block.bytes.length)
      refine ⟨?_, ?_, ?_⟩
      · rw [List.flatMap_cons, List.take_append, List.take_of_length_le hle, htake]
        simp
      · intro b hb
        rcases List.mem_cons.mp hb with rfl | hb
        · exact List.mem_cons_self
        · exact List.mem_cons_of_mem block (hin b hb)
      · intro p hp
        obtain ⟨hmem, hlt⟩ := hcut p hp
        exact ⟨List.mem_cons_of_mem block hmem, hlt⟩
    · rename_i hlt
      refine ⟨?_, nofun, ?_⟩
      · rw [List.flatMap_cons, List.take_append_of_le_length (by omega)]
        rfl
      · rintro p ⟨⟩
        exact ⟨List.mem_cons_self, Nat.lt_of_not_le hlt⟩

theorem readline_no_lf {q : Bytes} (h : 0x0A ∉ q) : readline q = (q, []) := by
  induction q with
  | nil => rfl
  | cons b q ih =>
    simp only [List.mem_cons, not_or] at h
    rw [readline, if_neg (Ne.symm h.1), ih h.2]

theorem contentLength?_no_lf {q : Bytes} (h : 0x0A ∉ q) : contentLength? q = none := by
  unfold contentLength?
  rw [if_neg]
  rintro ⟨-, -, hend⟩
  apply h
  apply List.mem_of_mem_drop (i := contentLengthPrefix.length)
  apply List.mem_of_mem_drop
    (i := ((q.drop contentLengthPrefix.length).takeWhile isDigit).length)
  rw [hend]
  decide

theorem nextLength_no_lf (n : Nat) {q : Bytes} (h : 0x0A ∉ q) : nextLength n q = n := by
  unfold nextLength
  split
  · rename_i hn
    rw [contentLength?_no_lf h, hn]
    rfl
  · rfl

theorem isBlank_take {line : Bytes} (h : isBlank line = true) (k : Nat) :
    isBlank (line.take k) = true := by
  apply List.all_eq_true.mpr
  intro b hb
  exact List.all_eq_true.mp h b (List.mem_of_mem_take hb)

/-- A proper part of a line has no line feed. -/
theorem lf_not_mem_take {line : Bytes} (h : IsLine line) {k : Nat} (hk : k < line.length) :
    0x0A ∉ line.take k := by
  obtain ⟨content, rfl, hno⟩ := h
  rw [List.length_append, List.length_singleton] at hk
  rw [List.take_append_of_le_length (by omega)]
  intro hin
  exact hno (List.mem_of_mem_take hin)

section Fragment

variable (loop : Loop σ) {state : σ} (hstop : loop.stopEvent state = false)
  (hany : loop.refuses = refusesNone)
include hstop hany

/-- At a blank line the body is asked for, however much of it is there. -/
theorem messageLoop_blank {n : Nat} (hn : n ≠ 0) {blank : Bytes} (hline : IsLine blank)
    (hblank : isBlank blank = true) (rest : Bytes) :
    messageLoop loop state n (blank ++ rest) = afterRead loop state n rest := by
  have hnext : nextLength n blank = n := if_neg hn
  rw [messageLoop]
  simp only [hstop, hany, refusesNone, readline_line hline, Bool.false_eq_true, if_false,
    isLine_ne_nil hline, dite_false, hnext]
  rw [if_pos ⟨hn, hblank⟩]
  rfl

/-- The last line of a stream that does not end in a line feed. -/
theorem messageLoop_last (n : Nat) {q : Bytes} (hq : q ≠ []) (hlf : 0x0A ∉ q) :
    messageLoop loop state n q =
      if n ≠ 0 ∧ isBlank q = true then afterRead loop state n [] else ⟨state, [], [], false⟩ := by
  rw [messageLoop]
  simp only [hstop, hany, refusesNone, readline_no_lf hlf, Bool.false_eq_true, if_false, hq,
    dite_false, nextLength_no_lf n hlf]
  split
  · rfl
  · exact messageLoop_nil loop state n

/-- The stream ends among the header lines. -/
theorem messageLoop_cut_headers (n : Nat) {headers : List Bytes} {k : Nat}
    (hlines : ∀ line ∈ headers, IsLine line ∧ isBlank line = false)
    (hk : k < headers.flatten.length) :
    (bodyDue n headers k = false →
      messageLoop loop state n (headers.flatten.take k) = ⟨state, [], [], false⟩) ∧
    (bodyDue n headers k = true →
      ∃ m, 0 < m ∧ messageLoop loop state n (headers.flatten.take k) = afterRead loop state m []) := by
  induction headers generalizing n k with
  | nil => exact absurd hk (Nat.not_lt_zero k)
  | cons line headers ih =>
    obtain ⟨hline, hblank⟩ := hlines line List.mem_cons_self
    rw [bodyDue, List.flatten_cons, List.take_append]
    split
    · rename_i hle
      rw [List.take_of_length_le hle,
        messageLoop_header loop hstop n _ hline (by rw [hany]; rfl) (Or.inr hblank)]
      apply ih
      · exact fun l hl => hlines l (List.mem_cons_of_mem line hl)
      · rw [List.flatten_cons, List.length_append] at hk
        omega
    · rename_i hlt
      rw [Nat.sub_eq_zero_of_le (by omega), List.take_zero, List.append_nil]
      cases k with
      | zero => exact ⟨fun _ => messageLoop_nil loop state n, nofun⟩
      | succ k =>
        have hq : line.take (k + 1) ≠ [] := by
          apply List.ne_nil_of_length_pos
          rw [List.length_take]
          omega
        have hlast := messageLoop_last loop hstop hany n hq (lf_not_mem_take hline (by omega))
        rw [hlast]
        constructor
        · intro hdue
          rw [if_neg]
          rintro ⟨hn, hb⟩
          simp [hn, hb] at hdue
        · intro hdue
          simp only [Bool.and_eq_true, decide_eq_true_eq] at hdue
          exact ⟨n, Nat.pos_of_ne_zero hdue.1.2, if_pos ⟨hdue.1.2, hdue.2⟩⟩

end Fragment

theorem bodyDue_behind (n : Nat) (headers : List Bytes) {k : Nat}
    (hk : headers.flatten.length ≤ k) :
    bodyDue n headers k =
      (0 < k - headers.flatten.length && headers.foldl nextLength n ≠ 0) := by
  induction headers generalizing n k with
  | nil => rfl
  | cons line headers ih =>
    rw [List.flatten_cons, List.length_append] at hk
    rw [bodyDue, if_pos (by omega), ih _ (by omega), List.foldl_cons, List.flatten_cons,
      List.length_append, Nat.sub_sub]

theorem leftover_eq_nil {block : Block} {k : Nat}
    (hk : k ≤ block.headers.flatten.length + block.blank.length) : leftover block k = [] := by
  rw [leftover, Nat.sub_sub, Nat.sub_eq_zero_of_le hk, List.take_zero]

/-- What the loop does with a block that is cut. -/
theorem messageLoop_fragment (loop : Loop σ) {state : σ} (hstop : loop.stopEvent state = false)
    (hany : loop.refuses = refusesNone)
    {block : Block} (hb : block.WellFormed) {k : Nat} (hk : k < block.bytes.length) :
    (bodyDue 0 block.headers k = false → leftover block k = [] ∧
      messageLoop loop state 0 (block.bytes.take k) = ⟨state, [], [], false⟩) ∧
    (bodyDue 0 block.headers k = true → ∃ n, (leftover block k).length < n ∧
      messageLoop loop state 0 (block.bytes.take k) =
        afterRead loop state n (leftover block k)) := by
  have hlines : ∀ line ∈ block.headers, IsLine line ∧ isBlank line = false :=
    fun line hline => ⟨(hb.lines line hline).1, (hb.lines line hline).2.2⟩
  have htakes : Takes loop.refuses 0 block.headers := by
    rw [hany]
    exact takes_refusesNone 0 block.headers
  have hbytes : block.bytes =
      block.headers.flatten ++ (block.blank ++ block.body?.getD []) := by
    rw [Block.bytes, List.append_assoc]
  rcases Nat.lt_or_ge k block.headers.flatten.length with hin | hout
  · have hnone : leftover block k = [] := leftover_eq_nil (by omega)
    have hcut := messageLoop_cut_headers loop hstop hany 0 hlines hin
    rw [hnone, hbytes, List.take_append_of_le_length (by omega)]
    exact ⟨fun hdue => ⟨rfl, hcut.1 hdue⟩, fun hdue => hcut.2 hdue⟩
  · obtain ⟨i, rfl⟩ := Nat.exists_eq_add_of_le hout
    have hi : i < block.blank.length + (block.body?.getD []).length := by
      rw [hbytes, List.length_append, List.length_append] at hk
      omega
    rw [bodyDue_behind 0 _ hout, Nat.add_sub_cancel_left, hbytes, List.take_length_add_append,
      messageLoop_headers loop hstop 0 block.headers _ htakes hlines]
    generalize hn : block.headers.foldl nextLength 0 = n
    rcases Nat.eq_zero_or_pos i with rfl | hpos
    · refine ⟨fun _ => ⟨leftover_eq_nil (by omega), ?_⟩, fun hdue => absurd hdue Bool.false_ne_true⟩
      rw [List.take_zero]
      exact messageLoop_nil loop state n
    rcases Nat.lt_or_ge i block.blank.length with hblank | hbody
    · -- part of the blank line arrived: it looks empty too
      have hnone : leftover block (block.headers.flatten.length + i) = [] :=
        leftover_eq_nil (by omega)
      have hq : block.blank.take i ≠ [] := by
        apply List.ne_nil_of_length_pos
        rw [List.length_take]
        omega
      rw [hnone, List.take_append_of_le_length (by omega),
        messageLoop_last loop hstop hany n hq (lf_not_mem_take hb.blank.1 hblank),
        isBlank_take hb.blank.2]
      by_cases hzero : n = 0
      · simp [hzero]
      · refine ⟨?_, fun _ => ⟨n, Nat.pos_of_ne_zero hzero, if_pos ⟨hzero, rfl⟩⟩⟩
        simp [hzero, hpos]
    · obtain ⟨j, rfl⟩ := Nat.exists_eq_add_of_le hbody
      have hleft : leftover block (block.headers.flatten.length + (block.blank.length + j)) =
          (block.body?.getD []).take j := by
        rw [leftover]
        congr 1
        omega
      rw [hleft, List.take_length_add_append]
      have hannounces := hb.announces
      cases block with
      | foreign headers blank =>
        simp only [Block.body?, Option.getD_none, List.length_nil, Block.blank] at hi
        omega
      | frame headers blank body =>
        simp only [Block.headers, Block.blank, Block.body?, Option.getD_some] at hn hi ⊢
        have hlen : body.length ≠ 0 := by simpa using hannounces.1
        obtain rfl : body.length = n := by
          rw [← hn]
          exact (foldl_nextLength_first hlen hannounces.2).symm
        refine ⟨?_, fun _ => ⟨body.length, ?_, ?_⟩⟩
        · have hsome : 0 < blank.length + j := hpos
          simp [hlen, hsome]
        · rw [List.length_take]
          omega
        · exact messageLoop_blank loop hstop hany hlen hb.blank.1 hb.blank.2 _

section Readers

variable {d : Dispatcher σ μ} (hreport : ∀ state, (d.errorHandler state).2 = false)
include hreport

/-- An attempt at a body dispatches the message it decodes to, if any. -/
theorem handleBody_messages (p : σ × List μ) (body : Bytes) :
    (handleBody d.attempt (some d.report) p body).1.2 = p.2 ++ (d.decode p.1 body).2.toList ∧
      (handleBody d.attempt (some d.report) p body).2.2 = false := by
  unfold handleBody Dispatcher.attempt
  cases d.decode p.1 body with
  | mk state decoded =>
    cases decoded with
    | none => exact ⟨(List.append_nil p.2).symm, hreport state⟩
    | some message =>
      simp only
      cases hraised : (d.handle state message).2 with
      | false => exact ⟨rfl, rfl⟩
      | true => exact ⟨rfl, hreport _⟩

variable (hstop : ∀ state, d.stopEvent state = false)
include hstop

theorem reliable {read : Nat → Bytes → Option Bytes} (hread : ReadsBodies (d.loop read)) :
    Reliable (d.loop read) := by
  refine ⟨fun p => hstop p.1, ?_, hread⟩
  rintro report ⟨⟩ p
  exact hreport p.1

/-- The stream is what arrived of the complete blocks, and of the one that is cut. -/
theorem runAsync_cut (read : Nat → Bytes → Option Bytes) (hread : ReadsBodies (d.loop read))
    (state : σ) {blocks : List Block} (hblocks : ∀ block ∈ blocks, block.WellFormed) (k : Nat) :
    let ended := d.runAsync read state ((blocks.flatMap Block.bytes).take k)
    let last := messageLoop (d.loop read) (d.dispatch state (cut blocks k).1) 0
      ((cut blocks k).2.elim [] fun p => p.1.bytes.take p.2)
    ended.state = last.state ∧ ended.rest = last.rest ∧ ended.raised = last.raised := by
  obtain ⟨htake, hcomplete, -⟩ := cut_spec blocks k
  have hloop := messageLoop_blocks_append (reliable hreport hstop hread) (state, [])
    (fun block hblock => hblocks block (hcomplete block hblock))
    (fun block _ => takes_refusesNone 0 block.lines)
    ((cut blocks k).2.elim [] fun p => p.1.bytes.take p.2)
  rw [← htake] at hloop
  rw [Dispatcher.runAsync_eq, hloop]
  exact ⟨rfl, rfl, rfl⟩

end Readers

/-- A body that is asked for and not all there: the two readers. -/
theorem afterRead_readExactly {d : Dispatcher σ μ} (p : σ × List μ) {n : Nat} {rest : Bytes}
    (hlt : rest.length < n) : (afterRead (d.loop readExactly) p n rest).raised = true := by
  simp only [afterRead, Dispatcher.loop, readExactly, if_neg (Nat.not_le.mpr hlt)]

theorem afterRead_readFile {d : Dispatcher σ μ} (hreport : ∀ state, (d.errorHandler state).2 = false)
    (p : σ × List μ) {n : Nat} {rest : Bytes} (hlt : rest.length < n) :
    (afterRead (d.loop readFile) p n rest).raised = false ∧
      (afterRead (d.loop readFile) p n rest).rest = [] ∧
      (afterRead (d.loop readFile) p n rest).state.2 =
        if rest = [] then p.2 else p.2 ++ (d.decode p.1 rest).2.toList := by
  obtain ⟨hmessages, hreturns⟩ := handleBody_messages hreport p rest
  have hread : (d.loop readFile).read n rest = some rest := by
    simp [Dispatcher.loop, readFile, List.take_of_length_le (Nat.le_of_lt hlt)]
  rw [afterRead, hread]
  simp only
  split
  · rename_i hnil
    exact ⟨rfl, hnil, rfl⟩
  · simp only [Dispatcher.loop, hreturns, Bool.false_eq_true, if_false, List.drop_length]
    rw [messageLoop_nil]
    exact ⟨rfl, rfl, hmessages⟩

section Cut

variable {d : Dispatcher σ μ} (hstop : ∀ state, d.stopEvent state = false)
  (hreport : ∀ state, (d.errorHandler state).2 = false) (state : σ) {blocks : List Block}
  (hblocks : ∀ block ∈ blocks, block.WellFormed) (k : Nat)
include hstop hreport hblocks

/-- At a block boundary nothing is left to do; in a block that is cut either no body is
asked for, or one that is not all there. -/
theorem runAsync_cases (read : Nat → Bytes → Option Bytes) (hread : ReadsBodies (d.loop read)) :
    let ended := d.runAsync read state ((blocks.flatMap Block.bytes).take k)
    let handled := d.dispatch state (cut blocks k).1
    ((∀ block j, (cut blocks k).2 = some (block, j) →
        bodyDue 0 block.headers j = false ∧ leftover block j = []) ∧
      ended.state = handled ∧ ended.rest = [] ∧ ended.raised = false) ∨
    ∃ block j n, (cut blocks k).2 = some (block, j) ∧ bodyDue 0 block.headers j = true ∧
      (leftover block j).length < n ∧
      ended.state = (afterRead (d.loop read) handled n (leftover block j)).state ∧
      ended.rest = (afterRead (d.loop read) handled n (leftover block j)).rest ∧
      ended.raised = (afterRead (d.loop read) handled n (leftover block j)).raised := by
  intro ended handled
  have hended := runAsync_cut hreport hstop read hread state hblocks k
  obtain ⟨-, -, hcut⟩ := cut_spec blocks k
  cases hlast : (cut blocks k).2 with
  | none =>
    simp only [hlast, Option.elim_none, messageLoop_nil] at hended
    exact Or.inl ⟨nofun, hended⟩
  | some p =>
    obtain ⟨block, j⟩ := p
    obtain ⟨hin, hj⟩ := hcut (block, j) hlast
    obtain ⟨hidle, hasked⟩ :=
      messageLoop_fragment (d.loop read) (hstop handled.1) rfl (hblocks block hin) hj
    simp only [hlast, Option.elim_some] at hended
    cases hdue : bodyDue 0 block.headers j with
    | false =>
      obtain ⟨hleft, hloop⟩ := hidle hdue
      rw [hloop] at hended
      refine Or.inl ⟨?_, hended⟩
      rintro b i ⟨⟩
      exact ⟨hdue, hleft⟩
    | true =>
      obtain ⟨n, hlt, hloop⟩ := hasked hdue
      rw [hloop] at hended
      exact Or.inr ⟨block, j, n, rfl, hdue, hlt, hended⟩

theorem endsCleanly_readFile_iff :
    let handled := d.dispatch state (cut blocks k).1
    EndsCleanly (d.runAsync readFile state ((blocks.flatMap Block.bytes).take k)) handled.2 ↔
      ∀ block j, (cut blocks k).2 = some (block, j) →
        leftover block j = [] ∨ (d.decode handled.1 (leftover block j)).2 = none := by
  intro handled
  have hread : ReadsBodies (d.loop readFile) := by simp [ReadsBodies, Dispatcher.loop, readFile]
  rcases runAsync_cases hstop hreport state hblocks k readFile hread with
    ⟨hleft, hstate, hrest, hraised⟩ | ⟨block, j, n, hlast, -, hlt, hstate, hrest, hraised⟩
  · constructor
    · intro _ block j hlast
      exact Or.inl (hleft block j hlast).2
    · intro _
      exact ⟨hraised, hrest, congrArg Prod.snd hstate⟩
  · obtain ⟨hreturned, hconsumed, hmessages⟩ := afterRead_readFile hreport handled hlt
    constructor
    · rintro hclean b i hb
      rw [hlast] at hb
      cases hb
      by_cases hnil : leftover block j = []
      · exact Or.inl hnil
      · have hsame := hclean.messages
        rw [hstate, hmessages, if_neg hnil] at hsame
        right
        cases hdecoded : (d.decode handled.1 (leftover block j)).2 with
        | none => rfl
        | some message =>
          rw [hdecoded] at hsame
          simp at hsame
    · intro hnone
      refine ⟨hraised.trans hreturned, hrest.trans hconsumed, ?_⟩
      rw [hstate, hmessages]
      rcases hnone block j hlast with hnil | hnone
      · exact if_pos hnil
      · rw [hnone]
        simp

theorem endsCleanly_readExactly_iff :
    EndsCleanly (d.runAsync readExactly state ((blocks.flatMap Block.bytes).take k))
        (d.dispatch state (cut blocks k).1).2 ↔
      ∀ block j, (cut blocks k).2 = some (block, j) → bodyDue 0 block.headers j = false := by
  have hread : ReadsBodies (d.loop readExactly) := by
    simp [ReadsBodies, Dispatcher.loop, readExactly]
  rcases runAsync_cases hstop hreport state hblocks k readExactly hread with
    ⟨hleft, hstate, hrest, hraised⟩ | ⟨block, j, n, hlast, hdue, hlt, -, -, hraised⟩
  · constructor
    · intro _ block j hlast
      exact (hleft block j hlast).1
    · intro _
      exact ⟨hraised, hrest, congrArg Prod.snd hstate⟩
  · constructor
    · intro hclean
      have hfalse := hclean.returned
      rw [hraised, afterRead_readExactly _ hlt] at hfalse
      cases hfalse
    · intro hnone
      rw [hnone block j hlast] at hdue
      cases hdue

/-- On every stream of frames cut at any byte: with `StdinAsyncReader` the loop ends cleanly
unless the part of the body that arrived is itself decoded, with `asyncio.StreamReader`
unless a body had been asked for. -/
theorem truncated_stream_ends_cleanly :
    (EndsCleanly (d.runAsync readFile state ((blocks.flatMap Block.bytes).take k))
        (d.dispatch state (cut blocks k).1).2 ↔
      ∀ block j, (cut blocks k).2 = some (block, j) →
        leftover block j = [] ∨
          (d.decode (d.dispatch state (cut blocks k).1).1 (leftover block j)).2 = none) ∧
    (EndsCleanly (d.runAsync readExactly state ((blocks.flatMap Block.bytes).take k))
        (d.dispatch state (cut blocks k).1).2 ↔
      ∀ block j, (cut blocks k).2 = some (block, j) → bodyDue 0 block.headers j = false) :=
  ⟨endsCleanly_readFile_iff hstop hreport state hblocks k,
    endsCleanly_readExactly_iff hstop hreport state hblocks k⟩

end Cut

/-- Bodies decode if they are `{}`, with or without a space behind it. -/
def sampleDispatcher : Dispatcher Unit Bytes where
  stopEvent := fun _ => false
  decode := fun state body =>
    (state, if body = [0x7B, 0x7D] ∨ body = [0x7B, 0x7D, 0x20] then some body else none)
  handle := fun state _ => (state, false)
  errorHandler := fun state => (state, false)

/-- The frame of `{} `. -/
def spacedFrame : Block :=
  .frame [contentLengthPrefix ++ [0x33, 0x0D, 0x0A]] [0x0D, 0x0A] [0x7B, 0x7D, 0x20]

theorem spacedFrame_wellFormed : spacedFrame.WellFormed := by
  refine ⟨?_, ⟨⟨[0x0D], rfl, by decide⟩, by decide⟩, by decide, by decide⟩
  intro line hline
  obtain rfl := List.mem_singleton.mp hline
  exact ⟨⟨contentLengthPrefix ++ [0x33, 0x0D], rfl, by decide⟩, by decide, by decide⟩

theorem spacedFrames_wellFormed : ∀ block ∈ [spacedFrame, spacedFrame], block.WellFormed := by
  intro block hblock
  obtain rfl : block = spacedFrame := by simpa using hblock
  exact spacedFrame_wellFormed

/-- Two frames of 24 bytes, cut inside the second header. -/
theorem truncated_stream_ends_cleanly_header :
    EndsCleanly (sampleDispatcher.runAsync readExactly ()
      (([spacedFrame, spacedFrame].flatMap Block.bytes).take 30)) [[0x7B, 0x7D, 0x20]] := by
  obtain ⟨-, hexact⟩ := truncated_stream_ends_cleanly (d := sampleDispatcher) (fun _ => rfl)
    (fun _ => rfl) () spacedFrames_wellFormed 30
  apply hexact.mpr
  rintro block j ⟨⟩
  decide

/-- Cut behind `{}` in the second body, `asyncio.StreamReader` makes `run_async` raise and
`StdinAsyncReader` makes it dispatch what arrived. -/
theorem truncated_streams_end_badly :
    ¬ EndsCleanly (sampleDispatcher.runAsync readExactly ()
        (([spacedFrame, spacedFrame].flatMap Block.bytes).take 47)) [[0x7B, 0x7D, 0x20]] ∧
      ¬ EndsCleanly (sampleDispatcher.runAsync readFile ()
        (([spacedFrame, spacedFrame].flatMap Block.bytes).take 47)) [[0x7B, 0x7D, 0x20]] := by
  have hlast : (cut [spacedFrame, spacedFrame] 47).2 = some (spacedFrame, 23) := rfl
  constructor
  · intro hclean
    have hdue := (endsCleanly_readExactly_iff (d := sampleDispatcher) (fun _ => rfl) (fun _ => rfl)
      () spacedFrames_wellFormed 47).mp hclean spacedFrame 23 hlast
    exact absurd hdue (by decide)
  · intro hclean
    have hnone := (endsCleanly_readFile_iff (d := sampleDispatcher) (fun _ => rfl) (fun _ => rfl)
      () spacedFrames_wellFormed 47).mp hclean spacedFrame 23 hlast
    exact absurd hnone (by decide)

end Pygls.Truncation
