import Pygls.Json
import Pygls.MessageLoop

/-!
# Writing frames

`_send_data` with `include_headers=True`. The header counts the characters of
the JSON text while the reader counts bytes; the two agree because the text is
ASCII.
-/

namespace Pygls.Framing

open Json MessageLoop

set_option autoImplicit false

/-- `bytes((n,))` -/
def byte (n : Nat) : UInt8 := UInt8.ofNat n

/-- `str.encode("utf-8")`, which refuses lone surrogates. -/
def encodeChar (c : CodePoint) : Option Bytes :=
  let n := c.val
  if n < 0x80 then some [byte n]
  else if n < 0x800 then some [byte (0xC0 + n / 0x40), byte (0x80 + n % 0x40)]
  else if n < 0x10000 then
    if 0xD800 ≤ n ∧ n < 0xE000 then none
    else some [byte (0xE0 + n / 0x1000), byte (0x80 + n / 0x40 % 0x40), byte (0x80 + n % 0x40)]
  else
    some [byte (0xF0 + n / 0x40000), byte (0x80 + n / 0x1000 % 0x40), byte (0x80 + n / 0x40 % 0x40),
      byte (0x80 + n % 0x40)]

def encode : Str → Option Bytes
  | [] => some []
  | c :: cs => (encodeChar c).bind fun b => (encode cs).map (b ++ ·)

def contentTypeHeader : Str :=
  lit ['C', 'o', 'n', 't', 'e', 'n', 't', '-', 'T', 'y', 'p', 'e', ':', ' ', 'a', 'p', 'p', 'l',
    'i', 'c', 'a', 't', 'i', 'o', 'n', '/', 'v', 's', 'c', 'o', 'd', 'e', '-', 'j', 's', 'o', 'n',
    'r', 'p', 'c', ';', ' ', 'c', 'h', 'a', 'r', 's', 'e', 't', '=', 'u', 't', 'f', '-', '8',
    '\r', '\n']

def contentLengthHeader (n : Nat) : Str :=
  lit ['C', 'o', 'n', 't', 'e', 'n', 't', '-', 'L', 'e', 'n', 'g', 't', 'h', ':', ' '] ++
    decimal n ++ lit ['\r', '\n']

def header (body : Str) : Str :=
  contentLengthHeader body.length ++ contentTypeHeader ++ lit ['\r', '\n']

/-- The message objects handed to `_send_data` are `attrs` instances: always
truthy, and serialised through their unstructured form. -/
structure Message where
  unstructured : PyValue

def Message.toPyValue (m : Message) : PyValue := .attrs m.unstructured

/-- The JSON body; `none` where `json.dumps` raises. -/
def body? (m : Message) : Option Str := dumps m.toPyValue

/-- The bytes `_send_data` writes; `none` where it writes nothing. -/
def sendData (includeHeaders : Bool) (m : Message) : Option Bytes :=
  (body? m).bind fun body => encode (if includeHeaders then header body ++ body else body)

/-- ASCII text as bytes. -/
def asciiBytes (s : Str) : Bytes := s.map fun c => byte c.val

theorem encode_ascii {s : Str} (h : IsAscii s) : encode s = some (asciiBytes s) := by
  induction s with
  | nil => rfl
  | cons c cs ih =>
    have hc : c.val < 0x80 := h c List.mem_cons_self
    have ih := ih fun d hd => h d (List.mem_cons_of_mem c hd)
    simp [encode, encodeChar, hc, ih, asciiBytes]

theorem asciiBytes_append (a b : Str) : asciiBytes (a ++ b) = asciiBytes a ++ asciiBytes b :=
  List.map_append

theorem length_asciiBytes (s : Str) : (asciiBytes s).length = s.length := List.length_map _

theorem isAscii_contentLengthHeader (n : Nat) : IsAscii (contentLengthHeader n) :=
  isAscii_append (isAscii_append (isAscii_lit rfl) (isAscii_decimal n))
    (isAscii_lit rfl)

theorem isAscii_contentTypeHeader : IsAscii contentTypeHeader := isAscii_lit rfl

theorem isAscii_header (body : Str) : IsAscii (header body) :=
  isAscii_append (isAscii_append (isAscii_contentLengthHeader _) isAscii_contentTypeHeader)
    (isAscii_lit rfl)

theorem asciiBytes_decimal (n : Nat) :
    asciiBytes (decimal n) = (Nat.toDigits 10 n).map fun c => byte c.toNat := by
  simp only [asciiBytes, decimal, lit, List.map_map]
  apply List.map_congr_left
  intro c hc
  have hd := digit_range hc
  simp only [Function.comp, Fin.val_ofNat]
  rw [Nat.mod_eq_of_lt (by omega)]

theorem isDigit_asciiBytes_decimal (n : Nat) : ∀ b ∈ asciiBytes (decimal n), isDigit b = true := by
  intro b hb
  rw [asciiBytes_decimal] at hb
  obtain ⟨c, hc, rfl⟩ := List.mem_map.mp hb
  have hd := digit_range hc
  simp only [isDigit, byte, Bool.and_eq_true, decide_eq_true_eq, UInt8.le_iff_toNat_le,
    UInt8.toNat_ofNat', UInt8.reduceToNat]
  omega

/-- Reading back the digits gives the number. -/
theorem digitsValue_decimal (n : Nat) : digitsValue (asciiBytes (decimal n)) = n := by
  have hfold : ∀ (l : List Char) (init : Nat), (∀ c ∈ l, 48 ≤ c.toNat ∧ c.toNat ≤ 57) →
      (l.map fun c => byte c.toNat).foldl (fun n b => 10 * n + (b.toNat - 48)) init =
        Nat.ofDigitChars 10 l init := by
    intro l
    induction l with
    | nil => intro init _; simp
    | cons c l ih =>
      intro init hl
      have hc := hl c List.mem_cons_self
      have hb : (byte c.toNat).toNat = c.toNat := by
        simp only [byte, UInt8.toNat_ofNat']
        omega
      rw [List.map_cons, List.foldl_cons, Nat.ofDigitChars_cons, hb,
        ih _ fun d hd => hl d (List.mem_cons_of_mem c hd)]
      rfl
  rw [digitsValue, asciiBytes_decimal, hfold _ 0 fun c hc => digit_range hc,
    Nat.ofDigitChars_ten_toDigits]

theorem contentLength?_header (n : Nat) :
    contentLength? (asciiBytes (contentLengthHeader n)) = some n := by
  have hbytes : asciiBytes (contentLengthHeader n) =
      contentLengthPrefix ++ (asciiBytes (decimal n) ++ [0x0D, 0x0A]) := by
    rw [contentLengthHeader, asciiBytes_append, asciiBytes_append, List.append_assoc]
    rfl
  have hne : asciiBytes (decimal n) ≠ [] := by
    rw [asciiBytes_decimal]
    simp [Nat.toDigits_ne_nil]
  rw [hbytes, contentLength?_digits (isDigit_asciiBytes_decimal n) hne, digitsValue_decimal]

/-- What is written for one JSON text. -/
def frameOf (body : Str) : Block :=
  .frame [asciiBytes (contentLengthHeader body.length), asciiBytes contentTypeHeader]
    (asciiBytes (lit ['\r', '\n'])) (asciiBytes body)

theorem lf_not_mem_digits (n : Nat) : (0x0A : UInt8) ∉ asciiBytes (decimal n) := by
  intro h
  have hd := isDigit_asciiBytes_decimal n _ h
  exact absurd hd (by decide)

theorem isLine_contentLengthHeader (n : Nat) : IsLine (asciiBytes (contentLengthHeader n)) := by
  refine ⟨contentLengthPrefix ++ asciiBytes (decimal n) ++ [0x0D], ?_, ?_⟩
  · rw [contentLengthHeader, asciiBytes_append, asciiBytes_append]
    simp only [List.append_assoc]
    rfl
  · simp only [List.mem_append, lf_not_mem_digits, or_false]
    decide

theorem frameOf_wellFormed {body : Str} (hne : body ≠ []) : (frameOf body).WellFormed := by
  refine ⟨?_, ⟨⟨[0x0D], rfl, by decide⟩, rfl⟩, ?_, ?_⟩
  · intro line hline
    simp only [frameOf, Block.headers, List.mem_cons, List.not_mem_nil, or_false] at hline
    rcases hline with rfl | rfl
    · refine ⟨isLine_contentLengthHeader _, ?_, ?_⟩
      · refine ⟨contentLengthPrefix ++ asciiBytes (decimal body.length), ?_⟩
        rw [contentLengthHeader, asciiBytes_append, asciiBytes_append]
        rfl
      · rw [contentLengthHeader, asciiBytes_append, asciiBytes_append]
        rfl
    · exact ⟨⟨asciiBytes (contentTypeHeader.dropLast), by decide, by decide⟩, by decide, by decide⟩
  · simpa [asciiBytes] using hne
  · simp only [List.filterMap_cons, contentLength?_header, List.head?_cons, length_asciiBytes]

theorem sendData_eq {m : Message} {body : Str} (h : body? m = some body) :
    sendData true m = some (frameOf body).bytes := by
  have hascii : IsAscii (header body ++ body) :=
    isAscii_append (isAscii_header body) (isAscii_dumps h)
  rw [sendData, h, Option.bind_some, if_pos rfl, encode_ascii hascii]
  simp only [frameOf, Block.bytes, Block.headers, Block.blank, Block.body?, header,
    asciiBytes_append, List.flatten_cons, List.flatten_nil, List.append_assoc, Option.getD_some,
    List.nil_append]

/-- Every list of messages is read back body by body, and every announced length
is the number of bytes of its encoded body. -/
theorem loops_read_back_bodies {σ : Type} (messages : List Message) (stopEvent : σ → Bool)
    (attempt : σ → Bytes → σ × Bool) (report : σ → σ × Bool)
    (hstop : ∀ state, stopEvent state = false) (hreport : ∀ state, (report state).2 = false)
    (state : σ) :
    let stream := (messages.filterMap (sendData true)).flatten
    let jsonBodies := messages.filterMap fun m => (body? m).bind encode
    ((run stopEvent attempt (some report) state stream).calls.filterMap Call.attempted =
        jsonBodies ∧
      (run stopEvent attempt (some report) state stream).rest = []) ∧
    (∀ read, read = readFile ∨ read = readExactly →
      (runAsync read stopEvent attempt (some report) state stream).calls.filterMap
          Call.attempted = jsonBodies ∧
        (runAsync read stopEvent attempt (some report) state stream).rest = []) ∧
    (∀ m ∈ messages, ∀ body, body? m = some body → ∃ encoded, encode body = some encoded ∧
      contentLength? (asciiBytes (contentLengthHeader body.length)) = some encoded.length ∧
      sendData true m = some (asciiBytes (header body) ++ encoded)) := by
  intro stream jsonBodies
  have hstream : stream = ((messages.filterMap body?).map frameOf).flatMap Block.bytes := by
    simp only [stream, List.flatMap_def]
    congr 1
    rw [List.map_filterMap, List.map_filterMap]
    apply List.filterMap_congr
    intro m _
    cases h : body? m with
    | none => simp [sendData, h]
    | some body => simp [sendData_eq h]
  have hbodies : bodies ((messages.filterMap body?).map frameOf) = jsonBodies := by
    simp only [bodies, jsonBodies, List.filterMap_map, List.filterMap_filterMap]
    apply List.filterMap_congr
    intro m _
    cases h : body? m with
    | none => rfl
    | some body => exact (encode_ascii (isAscii_dumps h)).symm
  have hblocks : ∀ block ∈ (messages.filterMap body?).map frameOf, block.WellFormed := by
    intro block hblock
    obtain ⟨body, hbody, rfl⟩ := List.mem_map.mp hblock
    obtain ⟨m, -, hm⟩ := List.mem_filterMap.mp hbody
    exact frameOf_wellFormed (dumps_ne_nil hm)
  have hfile := messageLoop_blocks (reliable_readFile refusesNone attempt hstop hreport) state
    hblocks fun block _ => takes_refusesNone 0 block.lines
  have hexact := messageLoop_blocks (reliable_readExactly refusesNone attempt hstop hreport) state
    hblocks fun block _ => takes_refusesNone 0 block.lines
  rw [← hstream, hbodies] at hfile hexact
  have hcalls := attempted_handleAll attempt (some report) state jsonBodies
  refine ⟨?_, ?_, ?_⟩
  · rw [MessageLoop.run, hfile]
    exact ⟨hcalls, rfl⟩
  · rintro read (rfl | rfl)
    · rw [runAsync, hfile]
      exact ⟨hcalls, rfl⟩
    · rw [runAsync, hexact]
      exact ⟨hcalls, rfl⟩
  · intro m _ body hbody
    have hascii := isAscii_dumps hbody
    refine ⟨asciiBytes body, encode_ascii hascii, ?_, ?_⟩
    · rw [contentLength?_header, length_asciiBytes]
    · rw [sendData, hbody, Option.bind_some, if_pos rfl,
        encode_ascii (isAscii_append (isAscii_header body) hascii), asciiBytes_append]

/-- A payload with a quote, a line break and a character outside the BMP. -/
theorem loops_read_back_bodies_escaped :
    (run (fun _ => false) (fun n _ => (n + 1, false)) (some fun n => (n, false)) 0
        (([⟨.str [0x22, 0x0A, 0x1F600]⟩] : List Message).filterMap (sendData true)).flatten).calls.filterMap
          Call.attempted =
      [asciiBytes (lit ['"', '\\', '"', '\\', 'n', '\\', 'u', 'd', '8', '3', 'd', '\\', 'u', 'd', 'e',
        '0', '0', '"'])] :=
  (loops_read_back_bodies [⟨.str [0x22, 0x0A, 0x1F600]⟩] (fun _ => false) (fun n _ => (n + 1, false))
    (fun n => (n, false)) (fun _ => rfl) (fun _ => rfl) 0).1.1.trans (by decide)

end Pygls.Framing
