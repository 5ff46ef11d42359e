import Pygls.Json
import Pygls.Lib.Utf
import Pygls.PositionCodec

/-!
# The units of a client

`client_num_units` against the real UTF-8, UTF-16 and UTF-32, and the two places
of the codec that choose a unit: `client_num_units` and the search loop of
`position_from_client_units`, which fall back to different ones.
-/

namespace Pygls

open Lib Lines

set_option autoImplicit false

/-- How the codec takes the value it is constructed with: the kinds are strings. -/
def Encoding.ofValue : Option Str → Encoding
  | none => .unknown none
  | some value =>
    if value = lit ['u', 't', 'f', '-', '8'] then .utf8
    else if value = lit ['u', 't', 'f', '-', '1', '6'] then .utf16
    else if value = lit ['u', 't', 'f', '-', '3', '2'] then .utf32
    else .unknown (some value)

namespace PositionCodec

def codePoint (c : Char) : CodePoint := ⟨c.toNat, by
  have hvalid := c.valid
  simp only [UInt32.isValidChar, Nat.isValidChar] at hvalid
  change c.val.toNat < 0x110000
  omega⟩

def ofChars (s : List Char) : Str := s.map codePoint

/-- The counts are the lengths of an encoding: they add up, and a text is cut between two
characters at the count of a prefix. -/
structure Measures {U : Type} (encoding : Encoding) (units : Char → List U) : Prop where
  length : ∀ s, clientNumUnits encoding (ofChars s) = (Utf.encode units s).length
  append : ∀ a b, clientNumUnits encoding (a ++ b) =
    clientNumUnits encoding a + clientNumUnits encoding b
  cut : ∀ s k, (Utf.encode units s).splitAt (clientNumUnits encoding ((ofChars s).take k)) =
    (Utf.encode units (s.take k), Utf.encode units (s.drop k))

theorem measures_of_step {U : Type} {encoding : Encoding} {units : Char → List U}
    (h : Negotiable encoding) (hstep : ∀ c, clientStep encoding (codePoint c) = (units c).length) :
    Measures encoding units := by
  have hlength : ∀ s, clientNumUnits encoding (ofChars s) = (Utf.encode units s).length := by
    intro s
    induction s with
    | nil => exact clientNumUnits_nil encoding
    | cons c s ih =>
      rw [Utf.encode_cons, List.length_append, ← ih, ← hstep]
      exact clientNumUnits_cons h (codePoint c) (ofChars s)
  refine ⟨hlength, clientNumUnits_append h, ?_⟩
  intro s k
  have htake : (ofChars s).take k = ofChars (s.take k) := List.map_take.symm
  rw [htake, hlength]
  exact Utf.splitAt_encode units s k

/-- `client_num_units` counts the units of the real encodings. -/
theorem units_are_encoding_lengths :
    Measures .utf8 Utf.utf8 ∧ Measures .utf16 Utf.utf16 ∧ Measures .utf32 Utf.utf32 := by
  refine ⟨?_, ?_, ?_⟩
  · apply measures_of_step (.inl rfl)
    intro c
    rw [Utf.length_utf8]
    rfl
  · apply measures_of_step (.inr (.inl rfl))
    intro c
    rw [Utf.length_utf16]
    by_cases hplane : c.toNat < 0x10000
    · have hin : isCharBeyondMultilingualPlane (codePoint c) = false :=
        decide_eq_false (Nat.not_lt.mpr (Nat.le_of_lt_succ hplane))
      rw [clientStep, hin, if_neg Bool.false_ne_true, if_pos hplane]
    · have hbeyond : isCharBeyondMultilingualPlane (codePoint c) = true :=
        decide_eq_true (Nat.lt_of_succ_le (Nat.not_lt.mp hplane))
      rw [clientStep, hbeyond, if_pos rfl, if_neg hplane]
  · apply measures_of_step (.inr (.inr rfl))
    intro c
    rfl

/-- The search loop advances over each character by what it counts as. -/
def StepsAgree (encoding : Encoding) (line : Str) : Prop :=
  ∀ c ∈ line, clientStep encoding c = clientNumUnits encoding [c]

/-- Every column of the line comes back from the client. -/
def Undoes (encoding : Encoding) (line : Str) : Prop :=
  ∀ (lines : List Str) (i c : Nat), lines[i]? = some line → c ≤ line.length →
    (positionFromClientUnits encoding lines
      (positionToClientUnits encoding lines ⟨i, c⟩)).1 = ⟨i, c⟩

/-- Every column that does not lie behind a `\r\n`, for which one direction counts one character
and the other two. -/
def UndoesText (encoding : Encoding) (line : Str) : Prop :=
  ∀ (lines : List Str) (i c : Nat), lines[i]? = some line → c ≤ line.length →
    ¬[cr, lf] <:+: line.take c →
      (positionFromClientUnits encoding lines
        (positionToClientUnits encoding lines ⟨i, c⟩)).1 = ⟨i, c⟩

theorem negotiable_or_unknown (encoding : Encoding) :
    Negotiable encoding ∨ ∃ value, encoding = .unknown value := by
  cases encoding with
  | utf8 => exact .inl (.inl rfl)
  | utf16 => exact .inl (.inr (.inl rfl))
  | utf32 => exact .inl (.inr (.inr rfl))
  | unknown value => exact .inr ⟨value, rfl⟩

/-- Up to the first `\r\n` the line and the line the search goes through have prefixes of the
same lengths. -/
theorem clientNumUnits_take_replaceCrLf {encoding : Encoding} (h : Negotiable encoding)
    (line : Str) (n : Nat) (hn : n ≤ line.length) (hcut : ¬[cr, lf] <:+: line.take n) :
    n ≤ (replaceCrLf line).length ∧
      clientNumUnits encoding (line.take n) =
        clientNumUnits encoding ((replaceCrLf line).take n) := by
  fun_induction replaceCrLf line generalizing n with
  | case1 => exact ⟨hn, rfl⟩
  | case2 c => exact ⟨hn, rfl⟩
  | case3 c d cs hcrlf ih =>
    obtain ⟨rfl, rfl⟩ := hcrlf
    match n with
    | 0 => exact ⟨Nat.zero_le _, rfl⟩
    | 1 =>
      refine ⟨Nat.succ_le_succ (Nat.zero_le _), ?_⟩
      rcases h with rfl | rfl | rfl <;> rfl
    | n + 2 =>
      exfalso
      apply hcut
      exact ⟨[], cs.take n, rfl⟩
  | case4 c d cs hne ih =>
    match n with
    | 0 => exact ⟨Nat.zero_le _, rfl⟩
    | n + 1 =>
      have hrest : ¬[cr, lf] <:+: (d :: cs).take n := by
        intro hinside
        apply hcut
        rw [List.take_succ_cons]
        exact List.infix_cons hinside
      obtain ⟨hle, hunits⟩ := ih n (Nat.le_of_succ_le_succ hn) hrest
      refine ⟨Nat.succ_le_succ hle, ?_⟩
      rw [List.take_succ_cons, List.take_succ_cons, clientNumUnits_cons h, clientNumUnits_cons h,
        hunits]

theorem undoesText_of_negotiable {encoding : Encoding} (h : Negotiable encoding) (line : Str) :
    UndoesText encoding line := by
  intro lines i c hi hc hcut
  obtain ⟨hle, hunits⟩ := clientNumUnits_take_replaceCrLf h line c hc hcut
  have hto : positionToClientUnits encoding lines ⟨i, c⟩ =
      ⟨i, clientNumUnits encoding ((replaceCrLf line).take c)⟩ := by
    simp only [positionToClientUnits, hi, hunits]
  have hsearch := search_prefix h ((replaceCrLf line).take c) ((replaceCrLf line).drop c) 0 0
  rw [List.take_append_drop, Nat.zero_add, Nat.zero_add, List.length_take, Nat.min_eq_left hle]
    at hsearch
  rw [hto, positionFromClientUnits_line h hi (clientNumUnits_take_le h _ c), hsearch]

/-- Within the plane the two fallbacks count alike, as code points. -/
theorem clientNumUnits_unknown {value : Option Str} {chars : Str}
    (h : ∀ c ∈ chars, isCharBeyondMultilingualPlane c = false) :
    clientNumUnits (.unknown value) chars = clientNumUnits .utf32 chars := by
  have hzero : utf16UnitOffset chars = 0 := by
    induction chars with
    | nil => rfl
    | cons c cs ih =>
      obtain ⟨hc, hcs⟩ := List.forall_mem_cons.mp h
      rw [utf16UnitOffset, List.map_cons, List.sum_cons, hc, if_neg Bool.false_ne_true,
        Nat.zero_add]
      exact ih hcs
  simp only [clientNumUnits, hzero, Nat.add_zero]

theorem search_unknown (value : Option Str) (character : Nat) (cs : Str)
    (clientIndex utf32Index : Nat) :
    search (.unknown value) character cs clientIndex utf32Index =
      search .utf32 character cs clientIndex utf32Index := by
  induction cs generalizing clientIndex utf32Index with
  | nil => rfl
  | cons c cs ih =>
    rw [search, search, ih]
    rfl

theorem replaceCrLf_subset (line : Str) : replaceCrLf line ⊆ line := by
  fun_induction replaceCrLf line with
  | case1 => exact List.Subset.refl _
  | case2 c => exact List.Subset.refl _
  | case3 c d cs hcrlf ih =>
    rw [hcrlf.1, hcrlf.2]
    intro x hx
    rcases List.mem_cons.mp hx with rfl | hx
    · exact List.mem_cons_of_mem _ List.mem_cons_self
    · exact List.mem_cons_of_mem _ (List.mem_cons_of_mem _ (ih hx))
  | case4 c d cs hne ih => exact List.cons_subset_cons c ih

/-- On a line within the plane a value that is none of the kinds works as UTF-32 does. -/
theorem undoesText_of_plane (value : Option Str) {line : Str}
    (h : ∀ c ∈ line, isCharBeyondMultilingualPlane c = false) :
    UndoesText (.unknown value) line := by
  intro lines i c hi hc hcut
  have hto : positionToClientUnits (.unknown value) lines ⟨i, c⟩ =
      positionToClientUnits .utf32 lines ⟨i, c⟩ := by
    simp only [positionToClientUnits, hi]
    rw [clientNumUnits_unknown fun d hd => h d (List.mem_of_mem_take hd)]
  have hfrom : ∀ u, positionFromClientUnits (.unknown value) lines ⟨i, u⟩ =
      positionFromClientUnits .utf32 lines ⟨i, u⟩ := by
    intro u
    have hunits : clientNumUnits (.unknown value) (replaceCrLf line) =
        clientNumUnits .utf32 (replaceCrLf line) :=
      clientNumUnits_unknown fun d hd => h d (replaceCrLf_subset line hd)
    simp only [positionFromClientUnits, hi, hunits, search_unknown]
  have hline : positionToClientUnits .utf32 lines ⟨i, c⟩ =
      ⟨i, clientNumUnits .utf32 (line.take c)⟩ := by
    simp only [positionToClientUnits, hi]
  have hundo := undoesText_of_negotiable (.inr (.inr rfl)) line lines i c hi hc hcut
  rw [hline] at hundo
  rw [hto, hline, hfrom, hundo]

theorem stepsAgree_and_undoesText_iff (value : Option Str) (line : Str) :
    StepsAgree (.ofValue value) line ∧ UndoesText (.ofValue value) line ↔
      Negotiable (.ofValue value) ∨ ∀ c ∈ line, isCharBeyondMultilingualPlane c = false := by
  rcases negotiable_or_unknown (.ofValue value) with h | ⟨value', hvalue⟩
  · refine iff_of_true ⟨?_, undoesText_of_negotiable h line⟩ (.inl h)
    intro c _
    rw [clientNumUnits_cons h, clientNumUnits_nil, Nat.add_zero]
  · rw [hvalue]
    constructor
    · rintro ⟨hstep, -⟩
      refine .inr fun c hc => ?_
      have hunits := hstep c hc
      cases hplane : isCharBeyondMultilingualPlane c with
      | false => rfl
      | true => simp [clientStep, clientNumUnits, utf16UnitOffset, hplane] at hunits
    · intro h
      have hplane : ∀ c ∈ line, isCharBeyondMultilingualPlane c = false := by
        rcases h with h | h
        · rcases h with h | h | h <;> cases h
        · exact h
      refine ⟨?_, undoesText_of_plane value' hplane⟩
      intro c hc
      rw [clientNumUnits_unknown]
      · rfl
      · intro d hd
        rw [List.mem_singleton.mp hd]
        exact hplane c hc

theorem length_replaceCrLf_lt {line : Str} (h : [cr, lf] <:+: line) :
    (replaceCrLf line).length < line.length := by
  fun_induction replaceCrLf line with
  | case1 =>
    have hle := h.length_le
    simp at hle
  | case2 c =>
    have hle := h.length_le
    simp at hle
  | case3 c d cs hcrlf ih =>
    have hle := length_replaceCrLf_le cs
    simp only [List.length_cons]
    omega
  | case4 c d cs hne ih =>
    have hrest : [cr, lf] <:+: d :: cs := by
      rcases List.infix_cons_iff.mp h with hstart | hrest
      · obtain ⟨t, ht⟩ := hstart
        cases ht
        exact absurd ⟨rfl, rfl⟩ hne
      · exact hrest
    have hlt := ih hrest
    simp only [List.length_cons] at hlt ⊢
    omega

/-- The end of the line comes back only where there is no `\r\n` to be replaced. -/
theorem undoes_iff (encoding : Encoding) (line : Str) :
    Undoes encoding line ↔ UndoesText encoding line ∧ ¬[cr, lf] <:+: line := by
  constructor
  · intro hundoes
    refine ⟨fun lines i c hi hc _ => hundoes lines i c hi hc, ?_⟩
    intro hinside
    have hend := hundoes [line] 0 line.length rfl (Nat.le_refl _)
    have hlt := length_replaceCrLf_lt hinside
    have hle := @positionFromClientUnits_character_le_replaced encoding [line]
      (positionToClientUnits encoding [line] ⟨0, line.length⟩) line rfl
    rw [hend] at hle
    exact absurd hlt (Nat.not_lt.mpr hle)
  · rintro ⟨htext, hnone⟩ lines i c hi hc
    apply htext lines i c hi hc
    intro hinside
    exact hnone (hinside.trans (List.take_prefix c line).isInfix)

/-- Both directions of the codec use the same unit, and undo each other, just if the encoding is
one of the three kinds or no character of the line lies beyond the plane; behind a `\r\n` they
never do. -/
theorem codec_directions_agree_iff (value : Option Str) (line : Str) :
    (StepsAgree (.ofValue value) line ∧ UndoesText (.ofValue value) line ↔
      Negotiable (.ofValue value) ∨ ∀ c ∈ line, isCharBeyondMultilingualPlane c = false) ∧
    (StepsAgree (.ofValue value) line ∧ Undoes (.ofValue value) line ↔
      (Negotiable (.ofValue value) ∨ ∀ c ∈ line, isCharBeyondMultilingualPlane c = false) ∧
        ¬[cr, lf] <:+: line) := by
  have htext := stepsAgree_and_undoesText_iff value line
  refine ⟨htext, ?_⟩
  rw [undoes_iff, ← and_assoc, htext]

/-- Without an encoding `😋` counts two units and is stepped over as one. -/
theorem no_encoding_disagrees :
    let line : Str := [0x1F60B, 0x61]
    clientStep (.ofValue none) 0x1F60B = 1 ∧ clientNumUnits (.ofValue none) [0x1F60B] = 2 ∧
      (positionFromClientUnits (.ofValue none) [line]
        (positionToClientUnits (.ofValue none) [line] ⟨0, 1⟩)).1 = ⟨0, 2⟩ := by
  decide

end PositionCodec

end Pygls
