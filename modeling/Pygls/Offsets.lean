import Mathlib.Data.Set.Function
import Pygls.TextSync

/-!
# Offsets and places

`offset_at_position` over the whole document: on the positions of its code points
it counts them, in order. On an existing line it never leaves the text; behind
the last line it adds client units to code points, and may.
-/

namespace Pygls.Offsets

open Lines PositionCodec TextDocument TextSync

set_option autoImplicit false

/-- The `k`th code point of the text stands on line `p.line` in column `p.character`. -/
def FallsAt (lines : List Str) (k : Nat) (p : Position) : Prop :=
  ∃ line, lines[p.line]? = some line ∧ p.character < line.length ∧
    k = (lines.take p.line).flatten.length + p.character

/-- What a client calls the places of the code points. -/
def clientPositions (encoding : Encoding) (source : Str) : Set Position :=
  { q | ∃ k p, FallsAt (splitlines source) k p ∧
    q = positionToClientUnits encoding (splitlines source) p }

def StrictlyBefore (p q : Position) : Prop :=
  p.line < q.line ∨ (p.line = q.line ∧ p.character < q.character)

/-- Every character takes one unit. -/
def Narrow (encoding : Encoding) (chars : Str) : Prop :=
  ∀ c ∈ chars, clientNumUnits encoding [c] = 1

theorem strictlyBefore_trichotomy (p q : Position) :
    StrictlyBefore p q ∨ p = q ∨ StrictlyBefore q p := by
  obtain ⟨i, c⟩ := p
  obtain ⟨j, d⟩ := q
  simp only [StrictlyBefore, Position.mk.injEq]
  omega

theorem strictlyBefore_of_before {p q : Position} (hle : Before p q) (hne : p ≠ q) :
    StrictlyBefore p q := by
  rcases strictlyBefore_trichotomy p q with hlt | heq | hgt
  · exact hlt
  · exact absurd heq hne
  · simp only [Before, StrictlyBefore] at hle hgt
    omega

theorem flatten_take_succ {lines : List Str} {i : Nat} {line : Str} (hi : lines[i]? = some line) :
    (lines.take (i + 1)).flatten.length = (lines.take i).flatten.length + line.length := by
  rw [List.take_add_one, hi]
  simp

/-- Everything on a line comes before the lines below it. -/
theorem flatten_take_lt {lines : List Str} {i j : Nat} {line : Str} (hi : lines[i]? = some line)
    (hij : i < j) :
    (lines.take i).flatten.length + line.length ≤ (lines.take j).flatten.length := by
  rw [← flatten_take_succ hi]
  obtain ⟨rest, hrest⟩ := List.take_prefix_take_left (l := lines) hij
  rw [← hrest, List.flatten_append, List.length_append]
  exact Nat.le_add_right _ _

theorem flatten_take_le (lines : List Str) (i : Nat) :
    (lines.take i).flatten.length ≤ lines.flatten.length := by
  conv_rhs => rw [← List.take_append_drop i lines, List.flatten_append, List.length_append]
  exact Nat.le_add_right _ _

theorem fallsAt_lt {lines : List Str} {k l : Nat} {p q : Position} (hp : FallsAt lines k p)
    (hq : FallsAt lines l q) (hlt : StrictlyBefore p q) : k < l := by
  obtain ⟨line, hline, hcol, rfl⟩ := hp
  obtain ⟨line', hline', hcol', rfl⟩ := hq
  rcases hlt with hlines | ⟨hlines, hcols⟩
  · have hle := flatten_take_lt hline hlines
    omega
  · rw [hlines]
    omega

theorem fallsAt_unique {lines : List Str} {k : Nat} {p q : Position} (hp : FallsAt lines k p)
    (hq : FallsAt lines k q) : p = q := by
  rcases strictlyBefore_trichotomy p q with hlt | heq | hgt
  · exact absurd (fallsAt_lt hp hq hlt) (Nat.lt_irrefl k)
  · exact heq
  · exact absurd (fallsAt_lt hq hp hgt) (Nat.lt_irrefl k)

theorem exists_fallsAt (lines : List Str) {k : Nat} (hk : k < lines.flatten.length) :
    ∃ p, FallsAt lines k p := by
  induction lines generalizing k with
  | nil => exact absurd hk (Nat.not_lt_zero k)
  | cons line lines ih =>
    rw [List.flatten_cons, List.length_append] at hk
    rcases Nat.lt_or_ge k line.length with hin | hout
    · exact ⟨⟨0, k⟩, line, rfl, hin, by simp⟩
    · obtain ⟨p, line', hline', hcol, hk'⟩ := ih (k := k - line.length) (by omega)
      refine ⟨⟨p.line + 1, p.character⟩, line', by simpa using hline', hcol, ?_⟩
      simp only [List.take_succ_cons, List.flatten_cons, List.length_append]
      omega

theorem fallsAt_lt_length {lines : List Str} {k : Nat} {p : Position} (hp : FallsAt lines k p) :
    k < lines.flatten.length := by
  obtain ⟨line, hline, hcol, rfl⟩ := hp
  have hlt := flatten_take_lt hline (Nat.lt_add_one p.line)
  have hle := flatten_take_le lines (p.line + 1)
  omega

theorem offset_eq (lines : List Str) (p : Position) :
    offset lines p = (lines.take p.line).flatten.length + p.character := by
  rw [offset, sum_lengths, Nat.add_comm]

theorem length_le_finalLf (line : Str) : line.length ≤ (finalLf line).length + 1 := by
  unfold finalLf
  split
  · simp only [List.length_append, List.length_dropLast, List.length_singleton]
    omega
  · omega

/-- The position of a code point leads back to its index. -/
theorem offsetAtPosition_fallsAt {encoding : Encoding} (h : Negotiable encoding) {source : Str}
    {k : Nat} {p : Position} (hp : FallsAt (splitlines source) k p) :
    offsetAtPosition encoding source (positionToClientUnits encoding (splitlines source) p) = k := by
  obtain ⟨line, hline, hcol, rfl⟩ := hp
  have hlen := length_le_finalLf line
  have hback := positionFromClientUnits_toClientUnits h hline
    (crLfAtEnd_of_mem (List.mem_of_getElem? hline)) (c := p.character) (by omega)
  rw [offsetAtPosition, hback, offset_eq]

theorem positionToClientUnits_line (encoding : Encoding) {lines : List Str} {k : Nat} {p : Position}
    (hp : FallsAt lines k p) : (positionToClientUnits encoding lines p).line = p.line := by
  obtain ⟨line, hline, -⟩ := hp
  simp only [positionToClientUnits, hline]

theorem positionToClientUnits_character_lt {encoding : Encoding} (h : Negotiable encoding)
    {lines : List Str} {k l : Nat} {p q : Position} (hp : FallsAt lines k p)
    (hq : FallsAt lines l q) (hlines : p.line = q.line) (hlt : p.character < q.character) :
    (positionToClientUnits encoding lines p).character <
      (positionToClientUnits encoding lines q).character := by
  obtain ⟨line, hline, hcol, -⟩ := hp
  obtain ⟨line', hline', hcol', -⟩ := hq
  rw [hlines, hline'] at hline
  obtain rfl := Option.some.inj hline
  simp only [positionToClientUnits, hlines, hline']
  exact clientNumUnits_take_lt h line' hlt (Nat.le_of_lt hcol')

/-- Going to the client and back keeps the order of places both ways. -/
theorem strictlyBefore_of_client {encoding : Encoding} (h : Negotiable encoding)
    {lines : List Str} {k l : Nat} {p q : Position} (hp : FallsAt lines k p)
    (hq : FallsAt lines l q) (hlt : StrictlyBefore (positionToClientUnits encoding lines p)
      (positionToClientUnits encoding lines q)) : StrictlyBefore p q := by
  rcases strictlyBefore_trichotomy p q with hbefore | rfl | hafter
  · exact hbefore
  · simp only [StrictlyBefore] at hlt
    omega
  · have hline := positionToClientUnits_line encoding hp
    have hline' := positionToClientUnits_line encoding hq
    simp only [StrictlyBefore, hline, hline'] at hlt
    rcases hafter with hlines | ⟨hlines, hcols⟩
    · omega
    · have hless := positionToClientUnits_character_lt h hq hp hlines hcols
      omega

/-- Offsets enumerate the document: each code point has one place, its client position has
its index as offset, and offsets grow with the position. -/
theorem offsets_enumerate_the_document {encoding : Encoding} (h : Negotiable encoding)
    (source : Str) :
    (∀ k, k < source.length → ∃! p, FallsAt (splitlines source) k p) ∧
      (∀ k p, k < source.length → FallsAt (splitlines source) k p →
        offsetAtPosition encoding source
          (positionToClientUnits encoding (splitlines source) p) = k) ∧
      Set.BijOn (offsetAtPosition encoding source) (clientPositions encoding source)
        { k | k < source.length } ∧
      ∀ p ∈ clientPositions encoding source, ∀ q ∈ clientPositions encoding source,
        Before p q → p ≠ q → offsetAtPosition encoding source p < offsetAtPosition encoding source q := by
  have hfalls : ∀ k, k < source.length → ∃ p, FallsAt (splitlines source) k p := by
    intro k hk
    apply exists_fallsAt
    rw [flatten_splitlines]
    exact hk
  refine ⟨?_, fun k p _ hp => offsetAtPosition_fallsAt h hp, ⟨?_, ?_, ?_⟩, ?_⟩
  · intro k hk
    obtain ⟨p, hp⟩ := hfalls k hk
    exact ⟨p, hp, fun q hq => fallsAt_unique hq hp⟩
  · rintro _ ⟨k, p, hp, rfl⟩
    have hlt := fallsAt_lt_length hp
    rw [flatten_splitlines] at hlt
    have hoff := offsetAtPosition_fallsAt h hp
    exact hoff.trans_lt hlt
  · rintro _ ⟨k, p, hp, rfl⟩ _ ⟨l, q, hq, rfl⟩ heq
    rw [offsetAtPosition_fallsAt h hp, offsetAtPosition_fallsAt h hq] at heq
    obtain rfl := heq
    rw [fallsAt_unique hp hq]
  · intro k hk
    obtain ⟨p, hp⟩ := hfalls k hk
    exact ⟨_, ⟨k, p, hp, rfl⟩, offsetAtPosition_fallsAt h hp⟩
  · rintro _ ⟨k, p, hp, rfl⟩ _ ⟨l, q, hq, rfl⟩ hle hne
    rw [offsetAtPosition_fallsAt h hp, offsetAtPosition_fallsAt h hq]
    exact fallsAt_lt hp hq (strictlyBefore_of_client h hp hq (strictlyBefore_of_before hle hne))

/-- In `😋\r\nb` the letter has index 3, and UTF-16 calls its place `(1, 0)`. -/
theorem offsets_enumerate_the_document_astral :
    FallsAt (splitlines [0x1F60B, cr, lf, 0x62]) 3 ⟨1, 0⟩ ∧
      offsetAtPosition .utf16 [0x1F60B, cr, lf, 0x62]
        (positionToClientUnits .utf16 (splitlines [0x1F60B, cr, lf, 0x62]) ⟨1, 0⟩) = 3 := by
  have hfalls : FallsAt (splitlines [0x1F60B, cr, lf, 0x62]) 3 ⟨1, 0⟩ :=
    ⟨[0x62], by decide, by decide, by decide⟩
  have hall := offsets_enumerate_the_document (Or.inr (Or.inl rfl)) [0x1F60B, cr, lf, 0x62]
  exact ⟨hfalls, hall.2.1 3 ⟨1, 0⟩ (by decide) hfalls⟩

theorem clientNumUnits_eq_length_iff {encoding : Encoding} (h : Negotiable encoding) (chars : Str) :
    clientNumUnits encoding chars = chars.length ↔ Narrow encoding chars := by
  induction chars with
  | nil => simp [Narrow, clientNumUnits_nil]
  | cons c chars ih =>
    have hle := length_le_clientNumUnits encoding chars
    have hstep := clientStep_pos encoding c
    have hone : clientNumUnits encoding [c] = clientStep encoding c := by
      rw [clientNumUnits_cons h, clientNumUnits_nil, Nat.add_zero]
    simp only [Narrow, List.forall_mem_cons, hone] at ih ⊢
    rw [← ih, clientNumUnits_cons h, List.length_cons]
    omega

/-- On an existing line the offset stays inside that line. -/
theorem offsetAtPosition_le_end (encoding : Encoding) {source : Str} {position : Position}
    (hl : position.line < (splitlines source).length) :
    offsetAtPosition encoding source position ≤
      ((splitlines source).take (position.line + 1)).flatten.length := by
  have hline := List.getElem?_eq_getElem hl
  have hne : splitlines source ≠ [] := List.length_pos_iff.mp (by omega)
  have hrow := positionFromClientUnits_line_eq encoding hne position
  have hcol := positionFromClientUnits_character_le encoding hline
  rw [offsetAtPosition, offset_eq, hrow, Nat.min_eq_left (by omega), flatten_take_succ hline]
  omega

theorem offsetAtPosition_le {encoding : Encoding} {source : Str} {position : Position}
    (hl : position.line < (splitlines source).length) :
    offsetAtPosition encoding source position ≤ source.length := by
  have hend := offsetAtPosition_le_end encoding hl
  have htotal := flatten_take_le (splitlines source) (position.line + 1)
  rw [flatten_splitlines] at htotal
  exact Nat.le_trans hend htotal

theorem offsetAtPosition_past (encoding : Encoding) {source : Str} {position : Position}
    (hne : splitlines source ≠ []) (hl : (splitlines source).length ≤ position.line) :
    offsetAtPosition encoding source position + ((splitlines source).getLast hne).length =
      source.length + clientNumUnits encoding ((splitlines source).getLast hne) := by
  have htext := length_splitlines_last hne
  rw [offsetAtPosition, positionFromClientUnits_past encoding hne hl, offset_eq]
  dsimp only
  omega

/-- Behind the last line the offset is the length of the text if the last line has only
characters of one unit. -/
theorem offset_stays_iff {encoding : Encoding} (h : Negotiable encoding) (source : Str)
    {position : Position} (hl : (splitlines source).length ≤ position.line) :
    offsetAtPosition encoding source position = source.length ↔
      Narrow encoding ((splitlines source).getLast?.getD []) := by
  by_cases hne : splitlines source = []
  · obtain rfl := splitlines_eq_nil hne
    refine iff_of_true rfl ?_
    intro c hc
    exact absurd hc List.not_mem_nil
  · have hoff := offsetAtPosition_past encoding hne hl
    rw [List.getLast?_eq_some_getLast hne, Option.getD_some, ← clientNumUnits_eq_length_iff h]
    omega

/-- An offset leaves the text exactly for a position behind the last line of a text whose
last line has a character of several units. -/
theorem offset_stays_in_the_document {encoding : Encoding} (h : Negotiable encoding) (source : Str)
    (position : Position) :
    (0 ≤ offsetAtPosition encoding source position ∧
        offsetAtPosition encoding source position ≤ source.length ∧
        ((splitlines source).length ≤ position.line →
          offsetAtPosition encoding source position = source.length)) ↔
      position.line < (splitlines source).length ∨
        Narrow encoding ((splitlines source).getLast?.getD []) := by
  rcases Nat.lt_or_ge position.line (splitlines source).length with hin | hout
  · refine iff_of_true ⟨Nat.zero_le _, offsetAtPosition_le hin, ?_⟩ (Or.inl hin)
    intro hout
    omega
  have hiff := offset_stays_iff h source hout
  constructor
  · intro hstays
    exact Or.inr (hiff.mp (hstays.2.2 hout))
  · rintro (hin | hnarrow)
    · omega
    · have heq := hiff.mpr hnarrow
      exact ⟨Nat.zero_le _, Nat.le_of_eq heq, fun _ => heq⟩

/-- `😋\n` has two code points, but in UTF-16 the place behind it has offset 3. -/
theorem offset_leaves_the_document :
    (splitlines [0x1F60B, lf]).length ≤ (⟨1, 0⟩ : Position).line ∧
      offsetAtPosition .utf16 [0x1F60B, lf] ⟨1, 0⟩ = 3 ∧
      ¬ offsetAtPosition .utf16 [0x1F60B, lf] ⟨1, 0⟩ ≤ ([0x1F60B, lf] : Str).length := by
  decide

/-- The same text in UTF-32, behind its last line. -/
theorem offset_stays_in_the_document_utf32 :
    offsetAtPosition .utf32 [0x1F60B, lf] ⟨7, 5⟩ = ([0x1F60B, lf] : Str).length := by
  have hnarrow : Narrow .utf32 ((splitlines [0x1F60B, lf]).getLast?.getD []) := by
    intro c _
    rfl
  have hiff := offset_stays_in_the_document (Or.inr (Or.inr rfl)) [0x1F60B, lf] ⟨7, 5⟩
  exact (hiff.mpr (Or.inr hnarrow)).2.2 (by decide)

end Pygls.Offsets
