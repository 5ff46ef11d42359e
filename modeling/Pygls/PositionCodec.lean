import Pygls.Lines

/-!
# Converting client positions

The codec of `position_codec.py`. A conversion may write to the position object
it is given (`position.character = _client_end_of_line - 1`), so the functions
return the caller's object as they leave it next to their result.
-/

namespace Pygls

set_option autoImplicit false

structure Position where
  line : Nat
  character : Nat
  deriving DecidableEq, Repr

structure Range where
  start : Position
  stop : Position
  deriving DecidableEq, Repr

/-- The values `PositionCodec` accepts: the three kinds, and anything else it is handed. -/
inductive Encoding where
  | utf8
  | utf16
  | utf32
  | unknown (value : Option Str)
  deriving DecidableEq, Repr

namespace PositionCodec

open Lines

def isCharBeyondMultilingualPlane (char : CodePoint) : Bool := 0xFFFF < char.val

def utf16UnitOffset (chars : Str) : Nat :=
  (chars.map fun ch => if isCharBeyondMultilingualPlane ch then 1 else 0).sum

def utf8Bytes (char : CodePoint) : Nat :=
  if char.val < 0x80 then 1
  else if char.val < 0x800 then 2
  else if char.val < 0x10000 then 3
  else 4

def clientNumUnits (encoding : Encoding) (chars : Str) : Nat :=
  match encoding with
  | .utf32 => chars.length
  | .utf8 => (chars.map utf8Bytes).sum
  | _ => chars.length + utf16UnitOffset chars

/-- How far the search loop moves the client index for one character. -/
def clientStep (encoding : Encoding) (char : CodePoint) : Nat :=
  match encoding with
  | .utf8 => utf8Bytes char
  | .utf16 => if isCharBeyondMultilingualPlane char then 2 else 1
  | _ => 1

/-- The `while True` loop over the rest of the line. -/
def search (encoding : Encoding) (character : Nat) : Str → Nat → Nat → Nat
  | [], _, utf32Index => utf32Index
  | c :: cs, clientIndex, utf32Index =>
    if clientIndex < character then
      search encoding character cs (clientIndex + clientStep encoding c) (utf32Index + 1)
    else utf32Index

/-- The converted position, and the caller's position object afterwards. -/
def positionFromClientUnits (encoding : Encoding) (lines : List Str) (position : Position) :
    Position × Position :=
  if lines.length = 0 then (⟨0, 0⟩, position)
  else
    match lines[position.line]? with
    | none => (⟨lines.length - 1, clientNumUnits encoding (lines.getLast?.getD [])⟩, position)
    | some original =>
      let line := replaceCrLf original
      let clientLen := clientNumUnits encoding line
      if clientLen = 0 then (⟨position.line, 0⟩, position)
      else
        let position :=
          if position.character > clientLen then ⟨position.line, clientLen - 1⟩ else position
        (⟨position.line, search encoding position.character line 0 0⟩, position)

def rangeFromClientUnits (encoding : Encoding) (lines : List Str) (range : Range) :
    Range × Range :=
  let start := positionFromClientUnits encoding lines range.start
  let stop := positionFromClientUnits encoding lines range.stop
  (⟨start.1, stop.1⟩, ⟨start.2, stop.2⟩)

def positionToClientUnits (encoding : Encoding) (lines : List Str) (position : Position) :
    Position :=
  match lines[position.line]? with
  | some line => ⟨position.line, clientNumUnits encoding (line.take position.character)⟩
  | none => ⟨lines.length, 0⟩

/-- The three encodings a client can negotiate. -/
def Negotiable (encoding : Encoding) : Prop :=
  encoding = .utf8 ∨ encoding = .utf16 ∨ encoding = .utf32

theorem clientNumUnits_nil (encoding : Encoding) : clientNumUnits encoding [] = 0 := by
  cases encoding <;> rfl

theorem utf8Bytes_pos (c : CodePoint) : 0 < utf8Bytes c := by
  unfold utf8Bytes
  split <;> [skip; split <;> [skip; split]] <;> omega

theorem clientStep_pos (encoding : Encoding) (c : CodePoint) : 0 < clientStep encoding c := by
  cases encoding with
  | utf8 => exact utf8Bytes_pos c
  | utf16 => simp only [clientStep]; split <;> omega
  | utf32 => exact Nat.one_pos
  | unknown => exact Nat.one_pos

/-- For a negotiable encoding the loop counts what `client_num_units` counts. -/
theorem clientNumUnits_cons {encoding : Encoding} (h : Negotiable encoding)
    (c : CodePoint) (cs : Str) :
    clientNumUnits encoding (c :: cs) = clientStep encoding c + clientNumUnits encoding cs := by
  rcases h with rfl | rfl | rfl
  · simp [clientNumUnits, clientStep]
  · simp only [clientNumUnits, utf16UnitOffset, clientStep, List.length_cons, List.map_cons,
      List.sum_cons]
    split <;> omega
  · simp [clientNumUnits, clientStep]; omega

theorem clientNumUnits_append {encoding : Encoding} (h : Negotiable encoding) (a b : Str) :
    clientNumUnits encoding (a ++ b) = clientNumUnits encoding a + clientNumUnits encoding b := by
  induction a with
  | nil => simp [clientNumUnits_nil]
  | cons c a ih => simp only [List.cons_append, clientNumUnits_cons h, ih]; omega

theorem length_le_clientNumUnits (encoding : Encoding) (chars : Str) :
    chars.length ≤ clientNumUnits encoding chars := by
  cases encoding with
  | utf8 =>
    induction chars with
    | nil => simp
    | cons c cs ih =>
      have hc := utf8Bytes_pos c
      simp only [clientNumUnits, List.map_cons, List.sum_cons, List.length_cons] at ih ⊢
      omega
  | utf16 => exact Nat.le_add_right _ _
  | utf32 => exact Nat.le_refl _
  | unknown => exact Nat.le_add_right _ _

/-- Searching for the length of a prefix stops right behind that prefix. -/
theorem search_prefix {encoding : Encoding} (h : Negotiable encoding) (pre rest : Str)
    (clientIndex utf32Index : Nat) :
    search encoding (clientIndex + clientNumUnits encoding pre) (pre ++ rest)
      clientIndex utf32Index = utf32Index + pre.length := by
  induction pre generalizing clientIndex utf32Index with
  | nil => cases rest <;> simp [search, clientNumUnits_nil]
  | cons c pre ih =>
    have hpos := clientStep_pos encoding c
    have hcons := clientNumUnits_cons h c pre
    have hlt : clientIndex < clientIndex + clientNumUnits encoding (c :: pre) := by omega
    simp only [List.cons_append, search, if_pos hlt]
    rw [hcons, ← Nat.add_assoc, ih]
    simp only [List.length_cons]
    omega

/-- A boundary inside the text of a line is converted exactly and nothing is written. -/
theorem positionFromClientUnits_boundary {encoding : Encoding} (h : Negotiable encoding)
    {text : Str} {i : Nat} {line pre : Str} (hl : (splitlines text)[i]? = some line)
    (hpre : pre.IsPrefix (body line)) :
    positionFromClientUnits encoding (splitlines text) ⟨i, clientNumUnits encoding pre⟩ =
      (⟨i, pre.length⟩, ⟨i, clientNumUnits encoding pre⟩) := by
  have hi : i < (splitlines text).length := (List.getElem?_eq_some_iff.mp hl).1
  obtain ⟨b, t, rfl, hb, ht, hne⟩ := splitlines_line text line (List.mem_of_getElem? hl)
  rw [body_append hb ht] at hpre
  obtain ⟨post, rfl⟩ := hpre
  have hrep : replaceCrLf (pre ++ post ++ t) = pre ++ (post ++ replaceCrLf t) := by
    rw [replaceCrLf_append t hb, List.append_assoc]
  have hlen := clientNumUnits_append h pre (post ++ replaceCrLf t)
  have hsearch := search_prefix h pre (post ++ replaceCrLf t) 0 0
  simp only [Nat.zero_add] at hsearch
  unfold positionFromClientUnits
  rw [if_neg (by omega), hl]
  simp only [hrep]
  split
  · rename_i hzero
    have hp : pre.length = 0 := by
      have := length_le_clientNumUnits encoding pre
      omega
    rw [hp]
  · rw [if_neg (by omega), hsearch]

theorem search_le (encoding : Encoding) (character : Nat) (cs : Str) (clientIndex utf32Index : Nat) :
    search encoding character cs clientIndex utf32Index ≤ utf32Index + cs.length := by
  induction cs generalizing clientIndex utf32Index with
  | nil => exact Nat.le_refl _
  | cons c cs ih =>
    rw [search, List.length_cons]
    split
    · have hle := ih (clientIndex + clientStep encoding c) (utf32Index + 1)
      omega
    · omega

theorem le_search (encoding : Encoding) (character : Nat) (cs : Str) (clientIndex utf32Index : Nat) :
    utf32Index ≤ search encoding character cs clientIndex utf32Index := by
  induction cs generalizing clientIndex utf32Index with
  | nil => exact Nat.le_refl _
  | cons c cs ih =>
    rw [search]
    split
    · have hle := ih (clientIndex + clientStep encoding c) (utf32Index + 1)
      omega
    · exact Nat.le_refl _

/-- The loop gets further for a larger offset. -/
theorem search_mono (encoding : Encoding) {c d : Nat} (hcd : c ≤ d) (cs : Str)
    (clientIndex utf32Index : Nat) :
    search encoding c cs clientIndex utf32Index ≤ search encoding d cs clientIndex utf32Index := by
  induction cs generalizing clientIndex utf32Index with
  | nil => exact Nat.le_refl _
  | cons char cs ih =>
    rw [search]
    split
    · rename_i hlt
      rw [search, if_pos (by omega)]
      exact ih _ _
    · exact le_search encoding d (char :: cs) clientIndex utf32Index

/-- A position is moved to the last line at most, and its column stays on its line. -/
theorem positionFromClientUnits_line_eq (encoding : Encoding) {lines : List Str} (hne : lines ≠ [])
    (position : Position) :
    (positionFromClientUnits encoding lines position).1.line =
      min position.line (lines.length - 1) := by
  have hpos := List.length_pos_iff.mpr hne
  unfold positionFromClientUnits
  rw [if_neg (by omega)]
  split
  · rename_i hnone
    have hge := List.getElem?_eq_none_iff.mp hnone
    simp only
    omega
  · rename_i line hsome
    have hlt := (List.getElem?_eq_some_iff.mp hsome).1
    simp only
    split
    · simp only
      omega
    · split <;> simp only <;> omega

/-- Behind the last line the column is the length of that line in client units. -/
theorem positionFromClientUnits_past (encoding : Encoding) {lines : List Str} (hne : lines ≠ [])
    {position : Position} (hl : lines.length ≤ position.line) :
    positionFromClientUnits encoding lines position =
      (⟨lines.length - 1, clientNumUnits encoding (lines.getLast hne)⟩, position) := by
  have hpos := List.length_pos_iff.mpr hne
  unfold positionFromClientUnits
  rw [if_neg (by omega), List.getElem?_eq_none_iff.mpr hl, List.getLast?_eq_some_getLast hne]
  rfl

theorem positionFromClientUnits_character_le_replaced (encoding : Encoding) {lines : List Str}
    {position : Position} {line : Str} (hline : lines[position.line]? = some line) :
    (positionFromClientUnits encoding lines position).1.character ≤ (replaceCrLf line).length := by
  have hlt := (List.getElem?_eq_some_iff.mp hline).1
  unfold positionFromClientUnits
  rw [if_neg (by omega), hline]
  simp only
  split
  · exact Nat.zero_le _
  · exact Nat.le_trans (search_le encoding _ (replaceCrLf line) 0 0) (by omega)

theorem positionFromClientUnits_character_le (encoding : Encoding) {lines : List Str}
    {position : Position} {line : Str} (hline : lines[position.line]? = some line) :
    (positionFromClientUnits encoding lines position).1.character ≤ line.length :=
  Nat.le_trans (positionFromClientUnits_character_le_replaced encoding hline)
    (length_replaceCrLf_le line)

/-- What a conversion writes into the position does not change the next conversion. -/
theorem positionFromClientUnits_again (encoding : Encoding) (lines : List Str)
    (position : Position) :
    (positionFromClientUnits encoding lines (positionFromClientUnits encoding lines position).2).1 =
      (positionFromClientUnits encoding lines position).1 := by
  by_cases hzero : lines.length = 0
  · simp only [positionFromClientUnits, if_pos hzero]
  · cases hline : lines[position.line]? with
    | none => simp only [positionFromClientUnits, if_neg hzero, hline]
    | some line =>
      by_cases hlen : clientNumUnits encoding (replaceCrLf line) = 0
      · simp only [positionFromClientUnits, if_neg hzero, hline, if_pos hlen]
      · by_cases hbehind : position.character > clientNumUnits encoding (replaceCrLf line)
        · have hinside : ¬ clientNumUnits encoding (replaceCrLf line) - 1 >
              clientNumUnits encoding (replaceCrLf line) := by omega
          simp only [positionFromClientUnits, if_neg hzero, hline, if_neg hlen, if_pos hbehind,
            if_neg hinside]
        · simp only [positionFromClientUnits, if_neg hzero, hline, if_neg hlen, if_neg hbehind]

theorem positionFromClientUnits_snd_line (encoding : Encoding) (lines : List Str)
    (position : Position) :
    (positionFromClientUnits encoding lines position).2.line = position.line := by
  unfold positionFromClientUnits
  split
  · rfl
  · split
    · rfl
    · simp only
      split
      · rfl
      · split <;> rfl

/-- The loop stops at the first index whose prefix is long enough. -/
theorem search_least {encoding : Encoding} (h : Negotiable encoding) (character : Nat) (cs : Str)
    (clientIndex utf32Index : Nat)
    (hin : character ≤ clientIndex + clientNumUnits encoding cs) :
    ∃ c, search encoding character cs clientIndex utf32Index = utf32Index + c ∧ c ≤ cs.length ∧
      character ≤ clientIndex + clientNumUnits encoding (cs.take c) ∧
      ∀ d, character ≤ clientIndex + clientNumUnits encoding (cs.take d) → c ≤ d := by
  induction cs generalizing clientIndex utf32Index with
  | nil =>
    refine ⟨0, rfl, Nat.le_refl 0, ?_, fun d _ => Nat.zero_le d⟩
    rw [List.take_nil]
    exact hin
  | cons char cs ih =>
    rw [search]
    split
    · rename_i hlt
      rw [clientNumUnits_cons h, ← Nat.add_assoc] at hin
      obtain ⟨c, hc, hlen, hreach, hleast⟩ := ih _ (utf32Index + 1) hin
      refine ⟨c + 1, by omega, by simpa using hlen, ?_, ?_⟩
      · rw [List.take_succ_cons, clientNumUnits_cons h]
        omega
      · intro d hd
        cases d with
        | zero =>
          rw [List.take_zero, clientNumUnits_nil] at hd
          omega
        | succ d =>
          rw [List.take_succ_cons, clientNumUnits_cons h] at hd
          have hle := hleast d (by omega)
          omega
    · rename_i hge
      refine ⟨0, rfl, Nat.zero_le _, ?_, fun d _ => Nat.zero_le d⟩
      rw [List.take_zero, clientNumUnits_nil]
      omega

/-- One unit short of the end, the loop stops before a last character of one unit and
behind a wider one. -/
theorem search_short {encoding : Encoding} (h : Negotiable encoding) (pre : Str) (c : CodePoint) :
    search encoding (clientNumUnits encoding (pre ++ [c]) - 1) (pre ++ [c]) 0 0 =
      if clientNumUnits encoding [c] = 1 then pre.length else pre.length + 1 := by
  have hunits := clientNumUnits_append h pre [c]
  split
  · rename_i hone
    have hstop := search_prefix h pre [c] 0 0
    rw [Nat.zero_add, Nat.zero_add] at hstop
    rw [hunits, hone, Nat.add_sub_cancel, hstop]
  · rename_i hwide
    have hlen := length_le_clientNumUnits encoding [c]
    rw [List.length_singleton] at hlen
    obtain ⟨r, hr, hle, hreach, -⟩ := search_least h
      (clientNumUnits encoding (pre ++ [c]) - 1) (pre ++ [c]) 0 0 (by omega)
    rw [List.length_append, List.length_singleton] at hle
    have hbehind : pre.length < r := by
      by_contra hin
      rw [List.take_append_of_le_length (Nat.le_of_not_lt hin)] at hreach
      have hpre := clientNumUnits_append h (pre.take r) (pre.drop r)
      rw [List.take_append_drop] at hpre
      omega
    omega

theorem clientNumUnits_take_lt {encoding : Encoding} (h : Negotiable encoding) (chars : Str)
    {c d : Nat} (hcd : c < d) (hd : d ≤ chars.length) :
    clientNumUnits encoding (chars.take c) < clientNumUnits encoding (chars.take d) := by
  induction chars generalizing c d with
  | nil =>
    rw [List.length_nil] at hd
    omega
  | cons char chars ih =>
    cases d with
    | zero => omega
    | succ d =>
      have hpos := clientStep_pos encoding char
      rw [List.take_succ_cons, clientNumUnits_cons h]
      cases c with
      | zero =>
        rw [List.take_zero, clientNumUnits_nil]
        omega
      | succ c =>
        have hlt := ih (c := c) (d := d) (by omega) (by simpa using hd)
        rw [List.take_succ_cons, clientNumUnits_cons h]
        omega

/-- `\r` and `\n` have the same length, so a prefix that ends inside `\r\n` is as long as
the line that has only the `\n`. -/
theorem clientNumUnits_take_finalLf {encoding : Encoding} (h : Negotiable encoding) {line : Str}
    (hline : CrLfAtEnd line) {c : Nat} (hc : c ≤ (finalLf line).length) :
    clientNumUnits encoding (line.take c) = clientNumUnits encoding ((finalLf line).take c) := by
  rw [← replaceCrLf_eq_finalLf hline] at hc ⊢
  rcases replaceCrLf_cases hline with ⟨b, hb, hrep⟩ | ⟨-, hrep⟩
  · rw [hrep] at hc ⊢
    rw [hb]
    rcases Nat.lt_or_ge b.length c with hlt | hle
    · obtain rfl : c = b.length + 1 := by
        rw [List.length_append, List.length_singleton] at hc
        omega
      have hunits : clientNumUnits encoding [cr] = clientNumUnits encoding [lf] := by
        rcases h with rfl | rfl | rfl <;> decide
      rw [List.take_length_add_append, List.take_length_add_append, clientNumUnits_append h,
        clientNumUnits_append h]
      exact congrArg _ hunits
    · rw [List.take_append_of_le_length hle, List.take_append_of_le_length hle]
  · rw [hrep]

/-- What the conversion does to a position on a line, as long as it does not lie behind it. -/
theorem positionFromClientUnits_line {encoding : Encoding} (h : Negotiable encoding)
    {lines : List Str} {i u : Nat} {line : Str} (hi : lines[i]? = some line)
    (hu : u ≤ clientNumUnits encoding (replaceCrLf line)) :
    positionFromClientUnits encoding lines ⟨i, u⟩ =
      (⟨i, search encoding u (replaceCrLf line) 0 0⟩, ⟨i, u⟩) := by
  have hlt := (List.getElem?_eq_some_iff.mp hi).1
  unfold positionFromClientUnits
  rw [if_neg (by omega), hi]
  simp only
  split
  · rename_i hzero
    obtain ⟨c, hc, -, -, hleast⟩ := search_least h u (replaceCrLf line) 0 0 (by omega)
    obtain rfl : c = 0 := Nat.le_zero.mp (hleast 0 (by omega))
    rw [hc]
  · rw [if_neg (by omega)]

/-- What it does to a position behind a line: it moves it to one unit before the end, in the
caller's object too. -/
theorem positionFromClientUnits_behind {encoding : Encoding} {lines : List Str} {i u : Nat}
    {line : Str} (hi : lines[i]? = some line)
    (hpos : 0 < clientNumUnits encoding (replaceCrLf line))
    (hu : clientNumUnits encoding (replaceCrLf line) < u) :
    positionFromClientUnits encoding lines ⟨i, u⟩ =
      (⟨i, search encoding (clientNumUnits encoding (replaceCrLf line) - 1) (replaceCrLf line) 0 0⟩,
        ⟨i, clientNumUnits encoding (replaceCrLf line) - 1⟩) := by
  have hlt := (List.getElem?_eq_some_iff.mp hi).1
  unfold positionFromClientUnits
  rw [if_neg (by omega), hi]
  simp only
  rw [if_neg (by omega), if_pos hu]

theorem positionFromClientUnits_least {encoding : Encoding} (h : Negotiable encoding)
    {lines : List Str} {i u : Nat} {line : Str} (hi : lines[i]? = some line)
    (hline : CrLfAtEnd line) (hu : u ≤ clientNumUnits encoding (finalLf line)) :
    ∃ c, (positionFromClientUnits encoding lines ⟨i, u⟩).1 = ⟨i, c⟩ ∧
      c ≤ (finalLf line).length ∧ u ≤ clientNumUnits encoding ((finalLf line).take c) ∧
      ∀ d, u ≤ clientNumUnits encoding ((finalLf line).take d) → c ≤ d := by
  rw [← replaceCrLf_eq_finalLf hline] at hu ⊢
  obtain ⟨c, hc, hlen, hreach, hleast⟩ := search_least h u (replaceCrLf line) 0 0 (by omega)
  simp only [Nat.zero_add] at hc hreach hleast
  exact ⟨c, by rw [positionFromClientUnits_line h hi hu, hc], hlen, hreach, hleast⟩

theorem clientNumUnits_take_le {encoding : Encoding} (h : Negotiable encoding) (chars : Str)
    (c : Nat) : clientNumUnits encoding (chars.take c) ≤ clientNumUnits encoding chars := by
  conv_rhs => rw [← List.take_append_drop c chars, clientNumUnits_append h]
  exact Nat.le_add_right _ _

theorem positionToClientUnits_finalLf {encoding : Encoding} (h : Negotiable encoding)
    {lines : List Str} {i : Nat} {line : Str} (hi : lines[i]? = some line) (hline : CrLfAtEnd line)
    {c : Nat} (hc : c ≤ (finalLf line).length) :
    positionToClientUnits encoding lines ⟨i, c⟩ =
      ⟨i, clientNumUnits encoding ((finalLf line).take c)⟩ := by
  simp only [positionToClientUnits, hi, clientNumUnits_take_finalLf h hline hc]

/-- A column goes to the client and comes back. -/
theorem positionFromClientUnits_toClientUnits {encoding : Encoding} (h : Negotiable encoding)
    {lines : List Str} {i : Nat} {line : Str} (hi : lines[i]? = some line) (hline : CrLfAtEnd line)
    {c : Nat} (hc : c ≤ (finalLf line).length) :
    (positionFromClientUnits encoding lines
      (positionToClientUnits encoding lines ⟨i, c⟩)).1 = ⟨i, c⟩ := by
  obtain ⟨d, hd, hlen, hreach, hleast⟩ :=
    positionFromClientUnits_least h hi hline (clientNumUnits_take_le h (finalLf line) c)
  have hdc : d ≤ c := hleast c (Nat.le_refl _)
  -- a shorter prefix would be strictly shorter in client units
  obtain rfl : d = c := by
    apply Nat.le_antisymm hdc
    by_contra hlt
    have hless := clientNumUnits_take_lt h (finalLf line) (Nat.lt_of_not_le hlt) hc
    omega
  rw [positionToClientUnits_finalLf h hi hline hc, hd]

/-- A client offset becomes the least index whose prefix reaches it. So every index is the
image of its own offset, and offsets grow with the index. -/
theorem position_conversion_rounds_up {encoding : Encoding} (h : Negotiable encoding)
    {lines : List Str} (hlines : ∀ line ∈ lines, CrLfAtEnd line) {i : Nat} {line : Str}
    (hi : lines[i]? = some line) :
    (∀ u, u ≤ clientNumUnits encoding (finalLf line) →
      ∃ c, (positionFromClientUnits encoding lines ⟨i, u⟩).1 = ⟨i, c⟩ ∧
        c ≤ (finalLf line).length ∧ u ≤ clientNumUnits encoding ((finalLf line).take c) ∧
        ∀ d, u ≤ clientNumUnits encoding ((finalLf line).take d) → c ≤ d) ∧
      (∀ c, c ≤ (finalLf line).length →
        (positionFromClientUnits encoding lines
          (positionToClientUnits encoding lines ⟨i, c⟩)).1 = ⟨i, c⟩) ∧
      ∀ c d, c < d → d ≤ (finalLf line).length →
        (positionToClientUnits encoding lines ⟨i, c⟩).character <
          (positionToClientUnits encoding lines ⟨i, d⟩).character := by
  have hline : CrLfAtEnd line := hlines line (List.mem_of_getElem? hi)
  refine ⟨fun u hu => positionFromClientUnits_least h hi hline hu, ?_, ?_⟩
  · intro c hc
    exact positionFromClientUnits_toClientUnits h hi hline hc
  · intro c d hcd hd
    rw [positionToClientUnits_finalLf h hi hline (by omega),
      positionToClientUnits_finalLf h hi hline hd]
    exact clientNumUnits_take_lt h (finalLf line) hcd hd

/-- In `a😋\r\n` the UTF-16 offset 2 lies inside the second character. -/
theorem position_conversion_rounds_up_surrogate :
    (positionFromClientUnits .utf16 [[0x61, 0x1F60B, cr, lf]] ⟨0, 2⟩).1 = ⟨0, 2⟩ ∧
      (positionFromClientUnits .utf16 [[0x61, 0x1F60B, cr, lf]]
        (positionToClientUnits .utf16 [[0x61, 0x1F60B, cr, lf]] ⟨0, 3⟩)).1 = ⟨0, 3⟩ := by
  have hlines : ∀ line ∈ [([0x61, 0x1F60B, cr, lf] : Str)], CrLfAtEnd line := by
    intro line hline
    rw [List.mem_singleton.mp hline]
    exact @crLfAtEnd_of_mem [0x61, 0x1F60B, cr, lf] _ (by decide)
  obtain ⟨hround, hback, -⟩ := position_conversion_rounds_up (Or.inr (Or.inl rfl)) hlines
    (i := 0) rfl
  obtain ⟨c, hc, -, hreach, hleast⟩ := hround 2 (by decide)
  obtain rfl : c = 2 := by
    have hle := hleast 2 (by decide)
    rcases c with - | - | c
    · exact absurd hreach (by decide)
    · exact absurd hreach (by decide)
    · omega
  exact ⟨hc, hback 3 (by decide)⟩

end PositionCodec

end Pygls
