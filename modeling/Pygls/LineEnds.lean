import Pygls.Offsets

/-!
# The ends of lines

A client offset behind the end of a line is set back to one unit before the end
of the line, its terminator included. That is the end of the text when there is a
terminator; the offset right behind the terminator is not set back at all.
-/

namespace Pygls.LineEnds

open Lines PositionCodec TextDocument TextSync Offsets

set_option autoImplicit false

/-- The characters that end a line in the protocol. -/
def isClientBreak (c : CodePoint) : Bool := c = lf ∨ c = cr

/-- The terminators of the protocol, and none. -/
def ClientTerminator (t : Str) : Prop := t = [] ∨ t = [lf] ∨ t = [cr] ∨ t = [cr, lf]

/-- A line without its `\n`, `\r\n` or `\r`. -/
def withoutTerminator (line : Str) : Str :=
  if [cr, lf] <:+ line then line.dropLast.dropLast
  else if [lf] <:+ line ∨ [cr] <:+ line then line.dropLast
  else line

/-- `p` lies right behind a line that ends in a character of one unit, `q` further out. -/
def Overtakes (encoding : Encoding) (lines : List Str) (p q : Position) : Prop :=
  p.line = q.line ∧ p.character < q.character ∧
    ∃ line c, lines[p.line]? = some line ∧ line.getLast? = some c ∧
      clientNumUnits encoding [c] = 1 ∧ p.character = clientNumUnits encoding (replaceCrLf line)

/-- Cutting off up to two characters leaves a beginning of the line. -/
theorem cut_le {two one : Prop} [Decidable two] [Decidable one] (line : Str) :
    (if two then line.dropLast.dropLast else if one then line.dropLast else line) <+: line := by
  split
  · exact (List.dropLast_prefix _).trans (List.dropLast_prefix line)
  · split
    · exact List.dropLast_prefix line
    · exact List.prefix_rfl

theorem not_suffix {b : Str} (hb : ∀ c ∈ b, isClientBreak c = false) {d : CodePoint}
    (hd : isClientBreak d = true) : ¬ [d] <:+ b := by
  intro hsuffix
  rw [hb d (hsuffix.subset List.mem_cons_self)] at hd
  cases hd

theorem withoutTerminator_append {b t : Str} (hb : ∀ c ∈ b, isClientBreak c = false)
    (ht : ClientTerminator t) : withoutTerminator (b ++ t) = b := by
  have hlf : ¬ [lf] <:+ b := not_suffix hb (by decide)
  have hcr : ¬ [cr] <:+ b := not_suffix hb (by decide)
  have hcrlf : ∀ c, [cr, lf] <:+ b ++ [c] → False := by
    rintro c ⟨a, ha⟩
    rw [show [cr, lf] = [cr] ++ [lf] from rfl, ← List.append_assoc] at ha
    exact hcr ⟨a, List.append_inj_left' ha rfl⟩
  unfold withoutTerminator
  rcases ht with rfl | rfl | rfl | rfl
  · have hnone : ¬ [cr, lf] <:+ b := fun hsuffix =>
      hlf ((List.suffix_append [cr] [lf]).trans hsuffix)
    rw [List.append_nil, if_neg hnone, if_neg (not_or.mpr ⟨hlf, hcr⟩)]
  · rw [if_neg (hcrlf lf), if_pos (Or.inl (List.suffix_append b _)), List.dropLast_concat]
  · rw [if_neg (hcrlf cr), if_pos (Or.inr (List.suffix_append b _)), List.dropLast_concat]
  · rw [if_pos (List.suffix_append b _)]
    simp

theorem isLineBreak_of_client {c : CodePoint} (h : isClientBreak c = true) :
    isLineBreak c = true := by
  rcases of_decide_eq_true h with rfl | rfl
  · exact isLineBreak_lf
  · exact isLineBreak_cr

theorem not_client_of_not_break {b : Str} (hb : ∀ c ∈ b, isLineBreak c = false) :
    ∀ c ∈ b, isClientBreak c = false := by
  intro c hc
  by_contra hclient
  have hbreak := isLineBreak_of_client (Bool.eq_true_of_not_eq_false hclient)
  rw [hb c hc] at hbreak
  cases hbreak

/-- A line has one of the three terminators, which the codec sees as one character, or its
whole text is kept. -/
theorem withoutTerminator_cases {text line : Str} (hmem : line ∈ splitlines text) :
    (∃ t, (t = lf ∨ t = cr) ∧ replaceCrLf line = withoutTerminator line ++ [t] ∧
        withoutTerminator line ≠ line) ∨
      (replaceCrLf line = line ∧ withoutTerminator line = line) := by
  obtain ⟨b, t, rfl, hb, ht, hne⟩ := splitlines_line text line hmem
  have hrep := replaceCrLf_append t hb
  have hclient := not_client_of_not_break hb
  rcases ht with rfl | ⟨c, hc, rfl⟩ | rfl
  · refine Or.inr ⟨hrep, ?_⟩
    rw [withoutTerminator_append hclient (Or.inl rfl), List.append_nil]
  · by_cases hend : isClientBreak c = true
    · refine Or.inl ⟨c, of_decide_eq_true hend, ?_⟩
      rcases of_decide_eq_true hend with rfl | rfl
      · rw [hrep, withoutTerminator_append hclient (Or.inr (Or.inl rfl))]
        simp [replaceCrLf]
      · rw [hrep, withoutTerminator_append hclient (Or.inr (Or.inr (Or.inl rfl)))]
        simp [replaceCrLf]
    · -- the other line boundaries of Python belong to the text
      refine Or.inr ⟨hrep, ?_⟩
      have hall : ∀ d ∈ b ++ [c], isClientBreak d = false := by
        intro d hd
        rcases List.mem_append.mp hd with hd | hd
        · exact hclient d hd
        · rw [List.mem_singleton.mp hd]
          exact Bool.eq_false_of_not_eq_true hend
      have hkeep := withoutTerminator_append hall (Or.inl rfl)
      rw [List.append_nil] at hkeep
      exact hkeep
  · refine Or.inl ⟨lf, Or.inl rfl, ?_⟩
    rw [hrep, withoutTerminator_append hclient (Or.inr (Or.inr (Or.inr rfl)))]
    simp [replaceCrLf]

/-- What the codec sees of a line ends in the character the line ends in. -/
theorem replaceCrLf_last {text line : Str} (hmem : line ∈ splitlines text) :
    ∃ pre c, replaceCrLf line = pre ++ [c] ∧ line.getLast? = some c := by
  obtain ⟨-, -, -, -, -, hne⟩ := splitlines_line text line hmem
  rcases replaceCrLf_cases (crLfAtEnd_of_mem hmem) with ⟨b, hb, hrep⟩ | ⟨-, hrep⟩
  · refine ⟨b, lf, hrep, ?_⟩
    rw [hb]
    simp
  · refine ⟨line.dropLast, line.getLast hne, ?_, List.getLast?_eq_some_getLast hne⟩
    rw [hrep, List.dropLast_concat_getLast]

theorem clientNumUnits_terminator {encoding : Encoding} (h : Negotiable encoding) {t : CodePoint}
    (ht : t = lf ∨ t = cr) : clientNumUnits encoding [t] = 1 := by
  rcases ht with rfl | rfl <;> rcases h with rfl | rfl | rfl <;> decide

theorem search_all {encoding : Encoding} (h : Negotiable encoding) (chars : Str) :
    search encoding (clientNumUnits encoding chars) chars 0 0 = chars.length := by
  have hstop := search_prefix h chars [] 0 0
  rw [List.append_nil, Nat.zero_add, Nat.zero_add] at hstop
  exact hstop

/-- Behind the end of a line: the end of its text, unless the offset lies right behind the
terminator, or there is none and the text ends in a character of one unit. -/
theorem past_end_of_line {encoding : Encoding} (h : Negotiable encoding) {text line : Str}
    {i character : Nat} (hi : (splitlines text)[i]? = some line)
    (hpast : clientNumUnits encoding (withoutTerminator line) < character) :
    (positionFromClientUnits encoding (splitlines text) ⟨i, character⟩).1 =
        ⟨i, (withoutTerminator line).length⟩ ↔
      if withoutTerminator line = line then
        ∃ c, line.getLast? = some c ∧ clientNumUnits encoding [c] ≠ 1
      else character ≠ clientNumUnits encoding (withoutTerminator line) + 1 := by
  have hmem := List.mem_of_getElem? hi
  rcases withoutTerminator_cases hmem with ⟨t, ht, hrep, hcut⟩ | ⟨hrep, hwhole⟩
  · have hone := clientNumUnits_terminator h ht
    have hunits : clientNumUnits encoding (replaceCrLf line) =
        clientNumUnits encoding (withoutTerminator line) + 1 := by
      rw [hrep, clientNumUnits_append h, hone]
    rw [if_neg hcut]
    by_cases hnext : character = clientNumUnits encoding (withoutTerminator line) + 1
    · -- right behind the terminator nothing is set back
      refine iff_of_false ?_ (not_not.mpr hnext)
      rw [positionFromClientUnits_line h hi (by omega), hnext, ← hunits, search_all h, hrep]
      simp
    · refine iff_of_true ?_ hnext
      rw [positionFromClientUnits_behind hi (by omega) (by omega), hrep, search_short h, if_pos hone]
  · obtain ⟨pre, c, hpre, hlast⟩ := replaceCrLf_last hmem
    have hunits := congrArg (clientNumUnits encoding) hpre
    have hlen := length_le_clientNumUnits encoding (pre ++ [c])
    rw [List.length_append, List.length_singleton] at hlen
    rw [hwhole] at hpast ⊢
    rw [hrep] at hunits hpre
    rw [if_pos rfl, positionFromClientUnits_behind hi (by rw [hrep]; omega) (by rw [hrep]; omega),
      hrep, hlast, hpre, search_short h]
    simp only [Option.some.injEq, exists_eq_left', Position.mk.injEq, true_and,
      List.length_append, List.length_singleton]
    split <;> simp_all

/-- A client at the end of the unterminated line `ab` asks for column 100. -/
theorem past_end_of_line_fails :
    (splitlines [0x61, 0x62])[0]? = some [0x61, 0x62] ∧
      clientNumUnits .utf16 (withoutTerminator [0x61, 0x62]) < 100 ∧
      (positionFromClientUnits .utf16 (splitlines [0x61, 0x62]) ⟨0, 100⟩).1 = ⟨0, 1⟩ ∧
      (positionFromClientUnits .utf16 (splitlines [0x61, 0x62]) ⟨0, 100⟩).1 ≠
        ⟨0, (withoutTerminator [0x61, 0x62]).length⟩ := by
  decide

/-- The line `x\r\n` of the tests. -/
theorem past_end_of_line_crlf :
    (positionFromClientUnits .utf16 (splitlines [0x78, cr, lf]) ⟨0, 10⟩).1 = ⟨0, 1⟩ := by
  have hline : (splitlines [0x78, cr, lf])[0]? = some [0x78, cr, lf] := by decide
  exact (past_end_of_line (Or.inr (Or.inl rfl)) hline (by decide)).mpr (by decide)

/-- On one line the order is lost only when the clamp steps back over the end. -/
theorem character_le_iff {encoding : Encoding} (h : Negotiable encoding) {text line : Str}
    {i c d : Nat} (hi : (splitlines text)[i]? = some line) (hcd : c ≤ d) :
    (positionFromClientUnits encoding (splitlines text) ⟨i, c⟩).1.character ≤
        (positionFromClientUnits encoding (splitlines text) ⟨i, d⟩).1.character ↔
      ¬ Overtakes encoding (splitlines text) ⟨i, c⟩ ⟨i, d⟩ := by
  obtain ⟨pre, last, hpre, hlast⟩ := replaceCrLf_last (List.mem_of_getElem? hi)
  have hlen := length_le_clientNumUnits encoding (replaceCrLf line)
  rw [hpre, List.length_append, List.length_singleton] at hlen
  have hover : Overtakes encoding (splitlines text) ⟨i, c⟩ ⟨i, d⟩ ↔
      c < d ∧ clientNumUnits encoding [last] = 1 ∧
        c = clientNumUnits encoding (replaceCrLf line) := by
    simp [Overtakes, hi, hlast]
  rw [hover, hpre]
  rcases Nat.lt_or_ge (clientNumUnits encoding (pre ++ [last])) d with hd | hd
  · rw [positionFromClientUnits_behind (u := d) hi (by rw [hpre]; omega) (by rw [hpre]; omega), hpre]
    rcases Nat.lt_trichotomy c (clientNumUnits encoding (pre ++ [last])) with hc | rfl | hc
    · rw [positionFromClientUnits_line h hi (by rw [hpre]; omega), hpre]
      exact iff_of_true (search_mono encoding (by omega) _ 0 0) (by omega)
    · rw [positionFromClientUnits_line h hi (by rw [hpre]), hpre, search_all h, search_short h,
        List.length_append, List.length_singleton]
      dsimp only
      split <;> omega
    · rw [positionFromClientUnits_behind hi (by rw [hpre]; omega) (by rw [hpre]; omega), hpre]
      exact iff_of_true (Nat.le_refl _) (by omega)
  · rw [positionFromClientUnits_line h hi (by rw [hpre]; omega),
      positionFromClientUnits_line h hi (by rw [hpre]; omega), hpre]
    exact iff_of_true (search_mono encoding hcd _ 0 0) (by omega)

/-- A position on the last line is never moved behind a position below it. -/
theorem character_le_past {encoding : Encoding} {lines : List Str} {p q : Position}
    (hp : p.line + 1 = lines.length) (hq : lines.length ≤ q.line) :
    (positionFromClientUnits encoding lines p).1.character ≤
      (positionFromClientUnits encoding lines q).1.character := by
  have hne : lines ≠ [] := List.length_pos_iff.mp (by omega)
  have hline : lines[p.line]? = some (lines.getLast hne) := by
    rw [← List.getLast?_eq_some_getLast hne, List.getLast?_eq_getElem?, ← hp, Nat.add_sub_cancel]
  have hcol := positionFromClientUnits_character_le encoding hline
  have hlen := length_le_clientNumUnits encoding (lines.getLast hne)
  rw [positionFromClientUnits_past encoding hne hq]
  exact Nat.le_trans hcol hlen

theorem before_iff {encoding : Encoding} (h : Negotiable encoding) (text : Str) {p q : Position}
    (hle : Before p q) :
    Before (positionFromClientUnits encoding (splitlines text) p).1
        (positionFromClientUnits encoding (splitlines text) q).1 ↔
      ¬ Overtakes encoding (splitlines text) p q := by
  by_cases hne : splitlines text = []
  · have hover : ¬ Overtakes encoding (splitlines text) p q := by
      rintro ⟨-, -, line, -, hline, -⟩
      rw [hne] at hline
      cases hline
    refine iff_of_true (Or.inr ?_) hover
    simp [positionFromClientUnits, hne]
  have hpl := positionFromClientUnits_line_eq encoding hne p
  have hql := positionFromClientUnits_line_eq encoding hne q
  have hlen := List.length_pos_iff.mpr hne
  rcases hle with hlt | ⟨hlines, hcols⟩
  · -- different lines: they may meet on the last one
    have hover : ¬ Overtakes encoding (splitlines text) p q := fun ho => by
      have := ho.1
      omega
    refine iff_of_true ?_ hover
    rcases Nat.lt_trichotomy (p.line + 1) (splitlines text).length with hp | hp | hp
    · exact Or.inl (by omega)
    · exact Or.inr ⟨by omega, character_le_past hp (by omega)⟩
    · refine Or.inr ⟨by omega, ?_⟩
      rw [positionFromClientUnits_past encoding hne (show (splitlines text).length ≤ p.line by omega),
        positionFromClientUnits_past encoding hne (show (splitlines text).length ≤ q.line by omega)]
  · obtain ⟨i, c⟩ := p
    obtain ⟨j, d⟩ := q
    obtain rfl : i = j := hlines
    have hsame : Before (positionFromClientUnits encoding (splitlines text) ⟨i, c⟩).1
        (positionFromClientUnits encoding (splitlines text) ⟨i, d⟩).1 ↔
        (positionFromClientUnits encoding (splitlines text) ⟨i, c⟩).1.character ≤
          (positionFromClientUnits encoding (splitlines text) ⟨i, d⟩).1.character := by
      simp [Before, hpl, hql]
    rw [hsame]
    cases hline : (splitlines text)[i]? with
    | some line => exact character_le_iff h hline hcols
    | none =>
      have hout := List.getElem?_eq_none_iff.mp hline
      have hover : ¬ Overtakes encoding (splitlines text) ⟨i, c⟩ ⟨i, d⟩ := by
        rintro ⟨-, -, line, -, hsome, -⟩
        rw [hline] at hsome
        cases hsome
      refine iff_of_true ?_ hover
      rw [positionFromClientUnits_past encoding hne hout,
        positionFromClientUnits_past encoding hne hout]

/-- Offsets follow the order of positions that lie on their lines. -/
theorem offset_le {lines : List Str} {p q : Position} (hp : InLine lines p) (hq : InLine lines q)
    (hle : Before p q) : offset lines p ≤ offset lines q := by
  obtain ⟨line, hline, hcol⟩ := hp
  obtain ⟨line', hline', -⟩ := hq
  rw [offset_eq, offset_eq]
  rcases hle with hlt | ⟨hlines, hcols⟩
  · have hbound := (List.getElem?_eq_some_iff.mp hline').1
    have hbelow := flatten_take_lt hline hlt
    omega
  · rw [hlines]
    omega

/-- Conversion keeps the order of two positions, a range stays a range, and an edit keeps a
front part and a later rest of the text, exactly when the first position is not right behind a
line that ends in a character of one unit with the second one further out. -/
theorem conversion_keeps_order {encoding : Encoding} (h : Negotiable encoding) (text : Str)
    {p q : Position} (hle : Before p q) :
    (Before (positionFromClientUnits encoding (splitlines text) p).1
          (positionFromClientUnits encoding (splitlines text) q).1 ∧
        Before (rangeFromClientUnits encoding (splitlines text) ⟨p, q⟩).1.start
          (rangeFromClientUnits encoding (splitlines text) ⟨p, q⟩).1.stop ∧
        ∀ new, ∃ a b, a ≤ b ∧
          (applyIncrementalChange encoding text ⟨p, q⟩ new).1 =
            text.take a ++ new ++ text.drop b) ↔
      ¬ Overtakes encoding (splitlines text) p q := by
  have hiff := before_iff h text hle
  constructor
  · intro hkept
    exact hiff.mp hkept.1
  · intro hover
    have hbefore := hiff.mpr hover
    refine ⟨hbefore, hbefore, ?_⟩
    intro new
    have hlines : p.line ≤ q.line := by
      rcases hle with hlt | ⟨heq, -⟩ <;> omega
    refine ⟨offsetAtPosition encoding text p, offsetAtPosition encoding text q, ?_,
      applyIncrementalChange_splice encoding text new hlines⟩
    by_cases hne : splitlines text = []
    · simp [offsetAtPosition, positionFromClientUnits, hne]
    · exact offset_le (inLine_positionFromClientUnits encoding hne p)
        (inLine_positionFromClientUnits encoding hne q) hbefore

/-- Deleting from the end of `ab` to column 100 of the same line doubles the `b`. -/
theorem conversion_loses_order :
    Before ⟨0, 2⟩ ⟨0, 100⟩ ∧
      (positionFromClientUnits .utf16 (splitlines [0x61, 0x62]) ⟨0, 2⟩).1 = ⟨0, 2⟩ ∧
      (positionFromClientUnits .utf16 (splitlines [0x61, 0x62]) ⟨0, 100⟩).1 = ⟨0, 1⟩ ∧
      ¬ Before (positionFromClientUnits .utf16 (splitlines [0x61, 0x62]) ⟨0, 2⟩).1
        (positionFromClientUnits .utf16 (splitlines [0x61, 0x62]) ⟨0, 100⟩).1 ∧
      (applyIncrementalChange .utf16 [0x61, 0x62] ⟨⟨0, 2⟩, ⟨0, 100⟩⟩ []).1 =
        [0x61, 0x62, 0x62] := by
  decide

/-- In `ab` the offsets 1 and 100 keep their order. -/
theorem conversion_keeps_order_inside :
    Before (positionFromClientUnits .utf16 (splitlines [0x61, 0x62]) ⟨0, 1⟩).1
      (positionFromClientUnits .utf16 (splitlines [0x61, 0x62]) ⟨0, 100⟩).1 := by
  have hover : ¬ Overtakes .utf16 (splitlines [0x61, 0x62]) ⟨0, 1⟩ ⟨0, 100⟩ := by
    rintro ⟨-, -, line, c, hline, -, -, hend⟩
    obtain rfl : [0x61, 0x62] = line := Option.some.inj hline
    exact absurd hend (by decide)
  exact ((conversion_keeps_order (Or.inr (Or.inl rfl)) [0x61, 0x62] (by decide)).mpr hover).1

end Pygls.LineEnds
