import Pygls.PositionCodec

/-!
# Text documents

`text_document.py`: the stored text, the three ways a change is applied and the
offset of a client position. A document without stored text reads its file, so
everything that looks at the text takes the disk as a parameter and may raise.
-/

namespace Pygls

set_option autoImplicit false

abbrev Uri := Str

/-- The exceptions of the document store. -/
inductive StoreError where
  | keyError (key : Uri)
  | osError (uri : Uri)
  | runtimeError
  deriving DecidableEq, Repr

/-- `pathlib.Path(path).read_text` at the path of a URI. -/
abbrev Disk := Uri → Except StoreError Str

inductive SyncKind where
  | none
  | full
  | incremental
  deriving DecidableEq, Repr

inductive ContentChange where
  | changePartial (range : Range) (text : Str)
  | wholeDocument (text : Str)
  deriving DecidableEq, Repr

structure TextDocument where
  uri : Uri
  stored : Option Str
  version : Option Int
  languageId : Option Str
  syncKind : SyncKind
  encoding : Encoding
  deriving DecidableEq

namespace TextDocument

open Lines PositionCodec

def source (disk : Disk) (doc : TextDocument) : Except StoreError Str :=
  match doc.stored with
  | some text => .ok text
  | none => disk doc.uri

/-- The `for i, line in enumerate(lines)` loop of `_apply_incremental_change`. -/
def editLoop (range : Range) (text : Str) : Nat → List Str → Str
  | _, [] => []
  | i, line :: rest =>
    (if i < range.start.line then line
      else if i > range.stop.line then line
      else
        (if i = range.start.line then line.take range.start.character ++ text else []) ++
        (if i = range.stop.line then line.drop range.stop.character else [])) ++
    editLoop range text (i + 1) rest

/-- The new text, and the caller's range object as the conversion leaves it. -/
def applyIncrementalChange (encoding : Encoding) (source : Str) (changeRange : Range)
    (text : Str) : Str × Range :=
  let lines := splitlines source
  let range := rangeFromClientUnits encoding lines changeRange
  if range.1.start.line = lines.length then (source ++ text, range.2)
  else (editLoop range.1 text 0 lines, range.2)

/-- `apply_change`: the document and the change object afterwards. -/
def applyChange (disk : Disk) (doc : TextDocument) (change : ContentChange) :
    Except StoreError (TextDocument × ContentChange) :=
  match change, doc.syncKind with
  | .changePartial range text, .incremental =>
    (doc.source disk).map fun old =>
      let r := applyIncrementalChange doc.encoding old range text
      ({ doc with stored := some r.1 }, .changePartial r.2 text)
  | _, .none => .ok (doc, change)
  | .changePartial _ text, .full => .ok ({ doc with stored := some text }, change)
  | .wholeDocument text, _ => .ok ({ doc with stored := some text }, change)

/-- `col + sum(len(line) for line in lines[:row])` -/
def offset (lines : List Str) (position : Position) : Nat :=
  position.character + ((lines.take position.line).map List.length).sum

def offsetAtPosition (encoding : Encoding) (source : Str) (position : Position) : Nat :=
  offset (splitlines source) (positionFromClientUnits encoding (splitlines source) position).1

/-- A column that stays inside its line, or that lies on the last line. -/
def InLine (lines : List Str) (position : Position) : Prop :=
  ∃ line, lines[position.line]? = some line ∧
    (position.character ≤ line.length ∨ position.line + 1 = lines.length)

theorem offset_zero (line : Str) (lines : List Str) (c : Nat) :
    offset (line :: lines) ⟨0, c⟩ = c := by simp [offset]

theorem offset_succ (line : Str) (lines : List Str) (r c : Nat) :
    offset (line :: lines) ⟨r + 1, c⟩ = line.length + offset lines ⟨r, c⟩ := by
  simp [offset]; omega

theorem inLine_succ {line : Str} {lines : List Str} {r c : Nat}
    (h : InLine (line :: lines) ⟨r + 1, c⟩) : InLine lines ⟨r, c⟩ := by
  obtain ⟨l, hl, hc⟩ := h
  refine ⟨l, by simpa using hl, ?_⟩
  simpa using hc

/-- On its own line a position cuts the text where it cuts the line. -/
theorem take_drop_first {line : Str} {lines : List Str} {c : Nat}
    (h : InLine (line :: lines) ⟨0, c⟩) :
    (line :: lines).flatten.take c = line.take c ∧
      (line :: lines).flatten.drop c = line.drop c ++ lines.flatten := by
  obtain ⟨l, hl, hc⟩ := h
  obtain rfl : line = l := by simpa using hl
  rcases hc with hc | hc
  · exact ⟨by simp [List.take_append_of_le_length hc], by simp [List.drop_append_of_le_length hc]⟩
  · obtain rfl : lines = [] := by simpa using hc
    simp

/-- Behind the range every line is copied. -/
theorem editLoop_after (range : Range) (text : Str) (lines : List Str) (i : Nat)
    (hs : range.start.line < i) (he : range.stop.line < i) :
    editLoop range text i lines = lines.flatten := by
  induction lines generalizing i with
  | nil => rfl
  | cons line lines ih =>
    rw [editLoop, if_neg (by omega), if_pos he, ih (i + 1) (by omega) (by omega)]
    rfl

/-- Inside the range only the rest of its last line survives. -/
theorem editLoop_inside (range : Range) (text : Str) (lines : List Str) (i d : Nat)
    (hs : range.start.line < i) (he : range.stop.line = i + d)
    (hin : InLine lines ⟨d, range.stop.character⟩) :
    editLoop range text i lines =
      lines.flatten.drop (offset lines ⟨d, range.stop.character⟩) := by
  induction lines generalizing i d with
  | nil => obtain ⟨l, hl, -⟩ := hin; simp at hl
  | cons line lines ih =>
    rw [editLoop, if_neg (by omega), if_neg (by omega), if_neg (by omega)]
    cases d with
    | zero =>
      rw [if_pos (by omega), editLoop_after range text lines (i + 1) (by omega) (by omega),
        offset_zero, (take_drop_first hin).2, List.nil_append]
    | succ d =>
      rw [if_neg (by omega), ih (i + 1) d (by omega) (by omega) (inLine_succ hin), offset_succ,
        List.flatten_cons, List.drop_length_add_append]
      rfl

/-- The loop replaces the text between the two offsets of the range. -/
theorem editLoop_splice (range : Range) (text : Str) (lines : List Str) (i s d : Nat)
    (hs : range.start.line = i + s) (he : range.stop.line = i + d) (hsd : s ≤ d)
    (hin : InLine lines ⟨s, range.start.character⟩)
    (hin' : InLine lines ⟨d, range.stop.character⟩) :
    editLoop range text i lines =
      lines.flatten.take (offset lines ⟨s, range.start.character⟩) ++ text ++
        lines.flatten.drop (offset lines ⟨d, range.stop.character⟩) := by
  induction lines generalizing i s d with
  | nil => obtain ⟨l, hl, -⟩ := hin; simp at hl
  | cons line lines ih =>
    cases s with
    | succ s =>
      cases d with
      | zero => omega
      | succ d =>
        rw [editLoop, if_pos (by omega), ih (i + 1) s d (by omega) (by omega) (by omega)
          (inLine_succ hin) (inLine_succ hin'), offset_succ, offset_succ, List.flatten_cons,
          List.take_length_add_append, List.drop_length_add_append]
        simp only [List.append_assoc]
    | zero =>
      rw [editLoop, if_neg (by omega), if_neg (by omega), if_pos (by omega), offset_zero,
        (take_drop_first hin).1]
      cases d with
      | zero =>
        rw [if_pos (by omega), editLoop_after range text lines (i + 1) (by omega) (by omega),
          offset_zero, (take_drop_first hin').2]
        simp
      | succ d =>
        rw [if_neg (by omega), editLoop_inside range text lines (i + 1) d (by omega) (by omega)
          (inLine_succ hin'), offset_succ, List.flatten_cons, List.drop_length_add_append]
        simp

theorem inLine_positionFromClientUnits (encoding : Encoding) {lines : List Str} (hne : lines ≠ [])
    (position : Position) : InLine lines (positionFromClientUnits encoding lines position).1 := by
  have hpos := List.length_pos_iff.mpr hne
  have hline := positionFromClientUnits_line_eq encoding hne position
  cases hl : lines[position.line]? with
  | some line =>
    have hlt := (List.getElem?_eq_some_iff.mp hl).1
    refine ⟨line, ?_, Or.inl (positionFromClientUnits_character_le encoding hl)⟩
    rw [hline, Nat.min_eq_left (by omega)]
    exact hl
  | none =>
    have hge := List.getElem?_eq_none_iff.mp hl
    refine ⟨lines[lines.length - 1], ?_, Or.inr ?_⟩
    · rw [hline, Nat.min_eq_right (by omega)]
      exact List.getElem?_eq_getElem (by omega)
    · rw [hline]
      omega

/-- The line-by-line rewrite and the sum of line lengths agree on where the range lies. -/
theorem applyIncrementalChange_splice (encoding : Encoding) (old : Str) {range : Range} (text : Str)
    (hlines : range.start.line ≤ range.stop.line) :
    (applyIncrementalChange encoding old range text).1 =
      old.take (offsetAtPosition encoding old range.start) ++ text ++
        old.drop (offsetAtPosition encoding old range.stop) := by
  by_cases hne : splitlines old = []
  · obtain rfl := splitlines_eq_nil hne
    simp [applyIncrementalChange, rangeFromClientUnits, positionFromClientUnits, splitlines]
  have hpos := List.length_pos_iff.mpr hne
  have hstart := positionFromClientUnits_line_eq encoding hne range.start
  have hstop := positionFromClientUnits_line_eq encoding hne range.stop
  have hedit := editLoop_splice (rangeFromClientUnits encoding (splitlines old) range).1 text
    (splitlines old) 0 _ _ (Nat.zero_add _).symm (Nat.zero_add _).symm
    (by simp only [rangeFromClientUnits]; omega)
    (inLine_positionFromClientUnits encoding hne range.start)
    (inLine_positionFromClientUnits encoding hne range.stop)
  have hinside : (rangeFromClientUnits encoding (splitlines old) range).1.start.line ≠
      (splitlines old).length := by
    simp only [rangeFromClientUnits]
    omega
  simp only [applyIncrementalChange, if_neg hinside]
  rw [hedit, flatten_splitlines]
  rfl

theorem offsetAtPosition_again (encoding : Encoding) (source : Str) (position : Position) :
    offsetAtPosition encoding source
        (positionFromClientUnits encoding (splitlines source) position).2 =
      offsetAtPosition encoding source position := by
  unfold offsetAtPosition
  rw [positionFromClientUnits_again]

/-- An incremental edit replaces what lies between the offsets of its range, whatever the
positions are. The offsets may have been asked for before, with the range's own positions,
which the conversion writes to. -/
theorem incremental_edit_is_a_splice (disk : Disk) {doc : TextDocument} {old : Str}
    (hkind : doc.syncKind = .incremental) (hsource : doc.source disk = .ok old)
    {range : Range} (text : Str) (hlines : range.start.line ≤ range.stop.line) :
    ∀ given ∈ [range, (rangeFromClientUnits doc.encoding (splitlines old) range).2],
      ∃ r, doc.applyChange disk (.changePartial given text) = .ok r ∧
        r.1.source disk = .ok (old.take (offsetAtPosition doc.encoding old range.start) ++ text ++
          old.drop (offsetAtPosition doc.encoding old range.stop)) := by
  have applied : ∀ given : Range, given.start.line ≤ given.stop.line →
      ∃ r, doc.applyChange disk (.changePartial given text) = .ok r ∧
        r.1.source disk = .ok (old.take (offsetAtPosition doc.encoding old given.start) ++ text ++
          old.drop (offsetAtPosition doc.encoding old given.stop)) := by
    intro given hgiven
    simp only [applyChange, hkind, hsource, Except.map]
    refine ⟨_, rfl, ?_⟩
    simp only [source, applyIncrementalChange_splice doc.encoding old text hgiven]
  intro given hgiven
  rcases List.mem_cons.mp hgiven with rfl | hgiven
  · exact applied given hlines
  · rw [List.mem_singleton.mp hgiven, ← offsetAtPosition_again doc.encoding old range.start,
      ← offsetAtPosition_again doc.encoding old range.stop]
    apply applied
    simp only [rangeFromClientUnits, positionFromClientUnits_snd_line]
    exact hlines

/-- Typing `x` behind the end of the line `a` in `a\nb`: the clamped column is one short. -/
theorem incremental_edit_is_a_splice_clamped :
    let doc : TextDocument := ⟨[], some [0x61, lf, 0x62], none, none, .incremental, .utf8⟩
    let range : Range := ⟨⟨0, 7⟩, ⟨0, 7⟩⟩
    let disk : Disk := fun uri => .error (.osError uri)
    ∃ r, doc.applyChange disk (.changePartial range [0x78]) = .ok r ∧
      r.1.source disk = .ok [0x61, 0x78, lf, 0x62] := by
  intro doc range disk
  exact @incremental_edit_is_a_splice disk doc [0x61, lf, 0x62] rfl rfl range [0x78] (Nat.le_refl _)
    range List.mem_cons_self

end TextDocument

end Pygls
