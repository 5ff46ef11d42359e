import Pygls.LineEnds
import Pygls.Lib.Regex

/-!
# Words

`word_at_position`: the word is glued from the first match of one pattern in the
line up to the column and the last match of another in the rest of the line.
-/

namespace Pygls

set_option autoImplicit false

namespace TextDocument

open Lines PositionCodec

/-- `[A-Za-z_0-9]` -/
def isWordChar (c : CodePoint) : Bool :=
  (0x41 ≤ c.val ∧ c.val ≤ 0x5A) ∨ (0x61 ≤ c.val ∧ c.val ≤ 0x7A) ∨ c.val = 0x5F ∨
    (0x30 ≤ c.val ∧ c.val ≤ 0x39)

/-- `^[A-Za-z_0-9]*` -/
def reEndWord : Lib.Regex.Pattern CodePoint := [.start, .star isWordChar]

/-- `[A-Za-z_0-9]*$` -/
def reStartWord : Lib.Regex.Pattern CodePoint := [.star isWordChar, .stop]

/-- The word, or `none` for the `IndexError` of a pattern without match, and the caller's
position object afterwards. -/
def wordAtPosition (encoding : Encoding) (source : Str) (clientPosition : Position)
    (reStartWord reEndWord : Lib.Regex.Pattern CodePoint) : Option Str × Position :=
  let lines := splitlines source
  if lines.length ≤ clientPosition.line then (some [], clientPosition)
  else
    let serverPosition := positionFromClientUnits encoding lines clientPosition
    let word := do
      let line ← lines[serverPosition.1.line]?
      let mStart ← (Lib.Regex.findall lf reStartWord (line.take serverPosition.1.character)).head?
      let mEnd ← (Lib.Regex.findall lf reEndWord (line.drop serverPosition.1.character)).getLast?
      return mStart ++ mEnd
    (word, serverPosition.2)

end TextDocument

namespace Words

open Lines PositionCodec TextDocument

/-- A line without its `\n` or `\r\n`. -/
def withoutNewline (line : Str) : Str :=
  if [cr, lf] <:+ line then line.dropLast.dropLast
  else if [lf] <:+ line then line.dropLast
  else line

/-- `row[a:b]` is a word around column `c` that cannot be made longer. -/
structure IsWordAt (row : Str) (c a b : Nat) : Prop where
  left : a ≤ c
  right : c ≤ b
  inside : b ≤ row.length
  word : ∀ ch ∈ (row.drop a).take (b - a), isWordChar ch = true
  before : ∀ ch, 0 < a → row[a - 1]? = some ch → isWordChar ch = false
  after : ∀ ch, row[b]? = some ch → isWordChar ch = false

theorem IsWordAt.char {row : Str} {c a b k : Nat} (h : IsWordAt row c a b) (hak : a ≤ k)
    (hkb : k < b) : ∃ ch, row[k]? = some ch ∧ isWordChar ch = true := by
  have hlt : k < row.length := Nat.lt_of_lt_of_le hkb h.inside
  refine ⟨row[k], List.getElem?_eq_getElem hlt, h.word _ ?_⟩
  apply List.mem_of_getElem? (i := k - a)
  rw [List.getElem?_take_of_lt (by omega), List.getElem?_drop, Nat.add_sub_cancel' hak]
  exact List.getElem?_eq_getElem hlt

theorem IsWordAt.left_le {line : Str} {c a b a' b' : Nat} (h : IsWordAt line c a b)
    (h' : IsWordAt line c a' b') : a' ≤ a := by
  by_contra hlt
  have hleft := h'.left
  have hright := h.right
  obtain ⟨ch, hch, hword⟩ := h.char (k := a' - 1) (by omega) (by omega)
  rw [h'.before ch (by omega) hch] at hword
  cases hword

theorem IsWordAt.right_le {line : Str} {c a b a' b' : Nat} (h : IsWordAt line c a b)
    (h' : IsWordAt line c a' b') : b ≤ b' := by
  by_contra hlt
  have hleft := h.left
  have hright := h'.right
  obtain ⟨ch, hch, hword⟩ := h.char (k := b') (by omega) (by omega)
  rw [h'.after ch hch] at hword
  cases hword

theorem IsWordAt.unique {line : Str} {c a b a' b' : Nat} (h : IsWordAt line c a b)
    (h' : IsWordAt line c a' b') : a' = a ∧ b' = b :=
  ⟨Nat.le_antisymm (h.left_le h') (h'.left_le h), Nat.le_antisymm (h'.right_le h) (h.right_le h')⟩

/-- Two runs of word characters that meet at the column and go no further. -/
theorem isWordAt_split {front run run' rest : Str}
    (hfront : ∀ ch, front.getLast? = some ch → isWordChar ch = false)
    (hrun : ∀ ch ∈ run ++ run', isWordChar ch = true)
    (hrest : ∀ ch, rest.head? = some ch → isWordChar ch = false) :
    IsWordAt (front ++ ((run ++ run') ++ rest)) (front.length + run.length) front.length
        (front.length + (run ++ run').length) ∧
      ((front ++ ((run ++ run') ++ rest)).drop front.length).take
        (front.length + (run ++ run').length - front.length) = run ++ run' := by
  have hslice : ((front ++ ((run ++ run') ++ rest)).drop front.length).take
      (front.length + (run ++ run').length - front.length) = run ++ run' := by
    rw [List.drop_left, Nat.add_sub_cancel_left, List.take_left]
  refine ⟨⟨Nat.le_add_right _ _, ?_, ?_, ?_, ?_, ?_⟩, hslice⟩
  · rw [List.length_append]
    omega
  · simp only [List.length_append]
    omega
  · rw [hslice]
    exact hrun
  · intro ch hpos hch
    rw [List.getElem?_append_left (by omega), ← List.getLast?_eq_getElem?] at hch
    exact hfront ch hch
  · intro ch hch
    rw [← List.append_assoc, ← List.length_append, List.getElem?_append_right (Nat.le_refl _),
      Nat.sub_self, ← List.head?_eq_getElem?] at hch
    exact hrest ch hch

/-- Around a column: the last run before it and the first run behind it. -/
theorem isWordAt_column {line : Str} {c : Nat} (hc : c ≤ line.length) :
    ∃ a b, IsWordAt line c a b ∧ (line.drop a).take (b - a) =
      (line.take c).rtakeWhile isWordChar ++ (line.drop c).takeWhile isWordChar := by
  have hfront := List.rdropWhile_append_rtakeWhile (p := isWordChar) (l := line.take c)
  have hrest := List.takeWhile_append_dropWhile (p := isWordChar) (l := line.drop c)
  have hsplit : (line.take c).rdropWhile isWordChar ++
      (((line.take c).rtakeWhile isWordChar ++ (line.drop c).takeWhile isWordChar) ++
        (line.drop c).dropWhile isWordChar) = line := by
    rw [List.append_assoc, hrest, ← List.append_assoc, hfront, List.take_append_drop]
  have hcol : ((line.take c).rdropWhile isWordChar).length +
      ((line.take c).rtakeWhile isWordChar).length = c := by
    rw [← List.length_append, hfront, List.length_take_of_le hc]
  have hbefore : ∀ ch, ((line.take c).rdropWhile isWordChar).getLast? = some ch →
      isWordChar ch = false := by
    intro ch hch
    have hne : (line.take c).rdropWhile isWordChar ≠ [] := by
      intro hnil
      rw [hnil] at hch
      cases hch
    have hnot := List.rdropWhile_last_not isWordChar (line.take c) hne
    rw [List.getLast?_eq_some_getLast hne] at hch
    cases hch
    exact Bool.eq_false_iff.mpr hnot
  have hrun : ∀ ch ∈ (line.take c).rtakeWhile isWordChar ++ (line.drop c).takeWhile isWordChar,
      isWordChar ch = true := by
    intro ch hch
    rcases List.mem_append.mp hch with hch | hch
    · exact List.mem_rtakeWhile_imp hch
    · exact List.mem_takeWhile_imp hch
  have hafter : ∀ ch, ((line.drop c).dropWhile isWordChar).head? = some ch →
      isWordChar ch = false := by
    intro ch hch
    have hhead := List.head?_dropWhile_not isWordChar (line.drop c)
    rw [hch] at hhead
    exact hhead
  obtain ⟨hat, hslice⟩ := isWordAt_split hbefore hrun hafter
  rw [hsplit, hcol] at hat
  rw [hsplit] at hslice
  exact ⟨_, _, hat, hslice⟩

theorem withoutNewline_le (line : Str) : withoutNewline line <+: line := LineEnds.cut_le line

/-- A `\n` can only end a line. -/
theorem lf_not_mem_withoutNewline {text line : Str} (hmem : line ∈ splitlines text) :
    lf ∉ withoutNewline line := by
  obtain ⟨b, t, rfl, hb, ht, -⟩ := splitlines_line text line hmem
  have hnot : lf ∉ b := by
    intro hlf
    have hbreak := hb lf hlf
    rw [isLineBreak_lf] at hbreak
    cases hbreak
  unfold withoutNewline
  rcases ht with rfl | ⟨c, hc, rfl⟩ | rfl
  · rw [List.append_nil]
    split
    · exact fun hlf => hnot (List.dropLast_subset _ (List.dropLast_subset _ hlf))
    · split
      · exact fun hlf => hnot (List.dropLast_subset _ hlf)
      · exact hnot
  · split
    · rw [List.dropLast_concat]
      exact fun hlf => hnot (List.dropLast_subset _ hlf)
    · split
      · rw [List.dropLast_concat]
        exact hnot
      · rename_i hend
        intro hlf
        rcases List.mem_append.mp hlf with hlf | hlf
        · exact hnot hlf
        · rw [← List.mem_singleton.mp hlf] at hend
          exact hend (List.suffix_append b _)
  · rw [if_pos (List.suffix_append b _)]
    simpa using hnot

theorem take_getLast?_ne_lf {text line : Str} (hmem : line ∈ splitlines text) {c : Nat}
    (hc : c ≤ (withoutNewline line).length) : (line.take c).getLast? ≠ some lf := by
  intro hlast
  apply lf_not_mem_withoutNewline hmem
  have htake : line.take c = (withoutNewline line).take c := by
    obtain ⟨more, hmore⟩ := withoutNewline_le line
    conv_lhs => rw [← hmore, List.take_append_of_le_length hc]
  rw [htake] at hlast
  exact List.take_subset c _ (List.mem_of_getLast? hlast)

/-- Both patterns match the empty text, so both searches find something. -/
theorem word_exists (first second : Str) :
    ∃ mStart mEnd, (Lib.Regex.findall lf reStartWord first).head? = some mStart ∧
      (Lib.Regex.findall lf reEndWord second).getLast? = some mEnd := by
  have hstart : Lib.Regex.findall lf reStartWord first ≠ [] := by
    apply Lib.Regex.findall_ne_nil
    intro total
    rw [reStartWord, Lib.Regex.matchAt_starStop total isWordChar (by simp)]
    exact Option.some_ne_none _
  have hend : Lib.Regex.findall lf reEndWord second = [second.takeWhile isWordChar] :=
    Lib.Regex.findall_startStar lf isWordChar second
  refine ⟨_, second.takeWhile isWordChar, List.head?_eq_some_head hstart, ?_⟩
  rw [hend]
  rfl

/-- `word_at_position` never raises, finds nothing on a line that does not exist, and else
returns the longest word around the column. -/
theorem word_is_maximal (encoding : Encoding) (source : Str) (position : Position) :
    (∃ word, (wordAtPosition encoding source position reStartWord reEndWord).1 = some word) ∧
      ((splitlines source).length ≤ position.line →
        (wordAtPosition encoding source position reStartWord reEndWord).1 = some []) ∧
      ∀ line c, (splitlines source)[position.line]? = some line →
        (positionFromClientUnits encoding (splitlines source) position).1 = ⟨position.line, c⟩ →
        c ≤ (withoutNewline line).length →
        ∃ a b, IsWordAt line c a b ∧ (∀ a' b', IsWordAt line c a' b' → a' = a ∧ b' = b) ∧
          (wordAtPosition encoding source position reStartWord reEndWord).1 =
            some ((line.drop a).take (b - a)) := by
  refine ⟨?_, ?_, ?_⟩
  · rcases Nat.lt_or_ge position.line (splitlines source).length with hin | hout
    · have hne : splitlines source ≠ [] := List.length_pos_iff.mp (by omega)
      have hrow := positionFromClientUnits_line_eq encoding hne position
      have hlt : (positionFromClientUnits encoding (splitlines source) position).1.line <
          (splitlines source).length := by omega
      obtain ⟨mStart, mEnd, hstart, hend⟩ := word_exists
        ((splitlines source)[(positionFromClientUnits encoding (splitlines source) position).1.line].take
          (positionFromClientUnits encoding (splitlines source) position).1.character)
        ((splitlines source)[(positionFromClientUnits encoding (splitlines source) position).1.line].drop
          (positionFromClientUnits encoding (splitlines source) position).1.character)
      refine ⟨mStart ++ mEnd, ?_⟩
      rw [wordAtPosition, if_neg (by omega)]
      simp [List.getElem?_eq_getElem hlt, hstart, hend]
    · exact ⟨[], by rw [wordAtPosition, if_pos hout]⟩
  · intro hout
    rw [wordAtPosition, if_pos hout]
  · intro line c hline hconv hc
    have hmem := List.mem_of_getElem? hline
    have hlt := (List.getElem?_eq_some_iff.mp hline).1
    have hcol : c ≤ line.length := Nat.le_trans hc (withoutNewline_le line).length_le
    have hstart := Lib.Regex.head?_findall_starStop isWordChar (take_getLast?_ne_lf hmem hc)
    have hend := Lib.Regex.findall_startStar lf isWordChar (line.drop c)
    have hword : (wordAtPosition encoding source position reStartWord reEndWord).1 =
        some ((line.take c).rtakeWhile isWordChar ++ (line.drop c).takeWhile isWordChar) := by
      rw [wordAtPosition, if_neg (by omega)]
      simp only [hconv, hline, Option.bind_eq_bind, Option.bind_some]
      rw [reStartWord, hstart, reEndWord, hend]
      rfl
    obtain ⟨a, b, hat, hslice⟩ := isWordAt_column hcol
    refine ⟨a, b, hat, fun a' b' h' => hat.unique h', ?_⟩
    rw [hword, hslice]

/-- In `foo bar` the column between `b` and `a` lies in `bar`. -/
theorem word_is_maximal_bar :
    (wordAtPosition .utf16 [0x66, 0x6F, 0x6F, 0x20, 0x62, 0x61, 0x72] ⟨0, 5⟩
      reStartWord reEndWord).1 = some [0x62, 0x61, 0x72] := by
  have hall := word_is_maximal .utf16 [0x66, 0x6F, 0x6F, 0x20, 0x62, 0x61, 0x72] ⟨0, 5⟩
  obtain ⟨a, b, -, hunique, hword⟩ := hall.2.2 [0x66, 0x6F, 0x6F, 0x20, 0x62, 0x61, 0x72] 5
    (by decide) (by decide) (by decide)
  have hbar : IsWordAt [0x66, 0x6F, 0x6F, 0x20, 0x62, 0x61, 0x72] 5 4 7 := by
    refine ⟨by decide, by decide, by decide, List.all_eq_true.mp (by decide), ?_, ?_⟩
    · intro ch _ hch
      cases hch
      rfl
    · intro ch hch
      cases hch
  obtain ⟨rfl, rfl⟩ := hunique 4 7 hbar
  exact hword

end Words

end Pygls
