import Pygls.Updates
import Pygls.Words

/-!
# What a conversion leaves of its argument

The codec sets the `character` of the position it is given when that lies behind
the line. The object is the caller's: an edit shares it with the parameters of the
notification, which the user's handler gets to see afterwards.
-/

namespace Pygls

set_option autoImplicit false

namespace TextDocument

open Lines PositionCodec

/-- `offset_at_position`: the offset, and the caller's position object afterwards. -/
def offsetAtPositionCall (encoding : Encoding) (source : Str) (clientPosition : Position) :
    Nat × Position :=
  (offsetAtPosition encoding source clientPosition,
    (positionFromClientUnits encoding (splitlines source) clientPosition).2)

end TextDocument

/-- `lsp_text_document__did_change`: the workspace, and the params the user's handler is
called with unless an update raised. -/
def Workspace.didChange (disk : Disk) (ws : Workspace)
    (textDocument : VersionedTextDocumentIdentifier) (contentChanges : List ContentChange) :
    Workspace × Except StoreError (VersionedTextDocumentIdentifier × List ContentChange) :=
  match Workspace.updateTextDocuments disk textDocument ws contentChanges with
  | (ws, _, some e) => (ws, .error e)
  | (ws, contentChanges, none) => (ws, .ok (textDocument, contentChanges))

namespace Arguments

open Lines PositionCodec TextDocument

/-- A position behind an existing line that is not empty. -/
def BehindLine (encoding : Encoding) (lines : List Str) (p : Position) : Prop :=
  ∃ line, lines[p.line]? = some line ∧ 0 < clientNumUnits encoding (replaceCrLf line) ∧
    clientNumUnits encoding (replaceCrLf line) < p.character

/-- An incremental change with an end behind its line, in the text it is applied to. -/
def Behind (disk : Disk) (doc : TextDocument) (change : ContentChange) : Prop :=
  ∃ range text old, change = .changePartial range text ∧ doc.syncKind = .incremental ∧
    doc.source disk = .ok old ∧ (BehindLine doc.encoding (splitlines old) range.start ∨
      BehindLine doc.encoding (splitlines old) range.stop)

/-- No change lies behind a line of the document as the changes before it leave it. -/
def AllInside (disk : Disk) (textDocument : VersionedTextDocumentIdentifier) :
    Workspace → List ContentChange → Prop
  | _, [] => True
  | ws, change :: rest =>
    (∀ doc, ws.textDocuments.get? textDocument.uri = some doc → ¬ Behind disk doc change) ∧
      ∀ r, ws.updateTextDocument disk textDocument change = .ok r →
        AllInside disk textDocument r.1 rest

theorem position_kept_iff (encoding : Encoding) (lines : List Str) (p : Position) :
    (positionFromClientUnits encoding lines p).2 = p ↔ ¬ BehindLine encoding lines p := by
  constructor
  · rintro hkept ⟨line, hline, hpos, hbehind⟩
    rw [show p = ⟨p.line, p.character⟩ from rfl,
      positionFromClientUnits_behind (u := p.character) hline hpos hbehind] at hkept
    have hchar := congrArg Position.character hkept
    dsimp only at hchar
    omega
  · intro hinside
    unfold positionFromClientUnits
    split
    · rfl
    · cases hline : lines[p.line]? with
      | none => rfl
      | some line =>
        dsimp only
        split
        · rfl
        · rename_i hpos
          rw [if_neg]
          intro hbehind
          exact hinside ⟨line, hline, Nat.pos_of_ne_zero hpos, hbehind⟩

theorem range_kept_iff (encoding : Encoding) (lines : List Str) (range : Range) :
    (rangeFromClientUnits encoding lines range).2 = range ↔
      ¬ (BehindLine encoding lines range.start ∨ BehindLine encoding lines range.stop) := by
  rw [not_or, ← position_kept_iff, ← position_kept_iff]
  constructor
  · intro hkept
    exact ⟨congrArg Range.start hkept, congrArg Range.stop hkept⟩
  · rintro ⟨hstart, hstop⟩
    simp only [rangeFromClientUnits, hstart, hstop]

theorem word_kept_iff (encoding : Encoding) (source : Str) (p : Position)
    (reStart reEnd : Lib.Regex.Pattern CodePoint) :
    (wordAtPosition encoding source p reStart reEnd).2 = p ↔
      ¬ BehindLine encoding (splitlines source) p := by
  rw [← position_kept_iff]
  rcases Nat.lt_or_ge p.line (splitlines source).length with hin | hout
  · rw [wordAtPosition, if_neg (Nat.not_le_of_lt hin)]
  · have hkept : (positionFromClientUnits encoding (splitlines source) p).2 = p := by
      apply (position_kept_iff encoding (splitlines source) p).mpr
      rintro ⟨line, hline, -⟩
      have hlt := (List.getElem?_eq_some_iff.mp hline).1
      omega
    rw [wordAtPosition, if_pos hout]
    exact iff_of_true rfl hkept

theorem change_kept_iff (disk : Disk) {doc doc' : TextDocument} {change change' : ContentChange}
    (h : doc.applyChange disk change = .ok (doc', change')) :
    change' = change ↔ ¬ Behind disk doc change := by
  -- only an incremental change of an incremental document is converted
  have hother : (doc.syncKind ≠ .incremental ∨ ∃ text, change = .wholeDocument text) →
      ¬ Behind disk doc change := by
    rintro hplain ⟨range, text, old, rfl, hkind, -⟩
    rcases hplain with hkind' | ⟨_, hwhole⟩
    · exact hkind' hkind
    · cases hwhole
  unfold applyChange at h
  split at h
  · rename_i range text hkind
    cases hsource : doc.source disk with
    | error e =>
      rw [hsource] at h
      cases h
    | ok old =>
      rw [hsource] at h
      cases h
      have hbehind : Behind disk doc (.changePartial range text) ↔
          BehindLine doc.encoding (splitlines old) range.start ∨
            BehindLine doc.encoding (splitlines old) range.stop := by
        constructor
        · rintro ⟨range', text', old', hchange, -, hsource', hends⟩
          cases hchange
          rw [hsource] at hsource'
          cases hsource'
          exact hends
        · intro hends
          exact ⟨range, text, old, rfl, hkind, hsource, hends⟩
      rw [hbehind, ← range_kept_iff, ContentChange.changePartial.injEq, and_iff_left rfl]
      unfold applyIncrementalChange
      dsimp only
      split
      · rfl
      · rfl
  · rename_i hkind
    cases h
    exact iff_of_true rfl (hother (Or.inl (by rw [hkind]; exact fun hne => by cases hne)))
  · rename_i hkind
    cases h
    exact iff_of_true rfl (hother (Or.inl (by rw [hkind]; exact fun hne => by cases hne)))
  · cases h
    exact iff_of_true rfl (hother (Or.inr ⟨_, rfl⟩))

theorem changes_kept_iff (disk : Disk) (textDocument : VersionedTextDocumentIdentifier)
    (ws : Workspace) (changes : List ContentChange) :
    (Workspace.updateTextDocuments disk textDocument ws changes).2.1 = changes ↔
      AllInside disk textDocument ws changes := by
  induction changes generalizing ws with
  | nil => exact iff_of_true rfl trivial
  | cons change rest ih =>
    cases hget : ws.textDocuments.get? textDocument.uri with
    | none =>
      have herror : ws.updateTextDocument disk textDocument change =
          .error (.keyError textDocument.uri) := by
        simp only [Workspace.updateTextDocument, hget]
      simp [Workspace.updateTextDocuments, AllInside, herror, hget]
    | some doc =>
      cases happly : doc.applyChange disk change with
      | error e =>
        have herror : ws.updateTextDocument disk textDocument change = .error e := by
          simp only [Workspace.updateTextDocument, hget, happly, Except.map]
        have hinside : ¬ Behind disk doc change := by
          rintro ⟨range, text, old, rfl, hkind, hsource, -⟩
          simp [applyChange, hkind, hsource, Except.map] at happly
        simp [Workspace.updateTextDocuments, AllInside, herror, hget, hinside]
      | ok r =>
        obtain ⟨doc', change'⟩ := r
        have hkept := change_kept_iff disk happly
        have hok : ∃ ws', ws.updateTextDocument disk textDocument change = .ok (ws', change') := by
          simp [Workspace.updateTextDocument, hget, happly, Except.map]
        obtain ⟨ws', hok⟩ := hok
        simp [Workspace.updateTextDocuments, AllInside, hok, hget, hkept, ih]

/-- A caller's positions, ranges and changes are left as they were exactly when none of them
lies behind an existing line, in the text it is used with. -/
theorem callers_positions_kept_iff (disk : Disk) (encoding : Encoding) :
    (∀ lines p, (positionFromClientUnits encoding lines p).2 = p ↔
        ¬ BehindLine encoding lines p) ∧
      (∀ lines range, (rangeFromClientUnits encoding lines range).2 = range ↔
        ¬ (BehindLine encoding lines range.start ∨ BehindLine encoding lines range.stop)) ∧
      (∀ source p, (offsetAtPositionCall encoding source p).2 = p ↔
        ¬ BehindLine encoding (splitlines source) p) ∧
      (∀ source p reStart reEnd, (wordAtPosition encoding source p reStart reEnd).2 = p ↔
        ¬ BehindLine encoding (splitlines source) p) ∧
      (∀ doc change r, TextDocument.applyChange disk doc change = .ok r →
        (r.2 = change ↔ ¬ Behind disk doc change)) ∧
      ∀ ws textDocument changes ws' handed,
        Workspace.didChange disk ws textDocument changes = (ws', .ok handed) →
        (handed = (textDocument, changes) ↔ AllInside disk textDocument ws changes) := by
  refine ⟨position_kept_iff encoding, range_kept_iff encoding, ?_, word_kept_iff encoding, ?_, ?_⟩
  · intro source p
    exact position_kept_iff encoding (splitlines source) p
  · intro doc change r hr
    exact change_kept_iff disk hr
  · intro ws textDocument changes ws' handed hhanded
    have hkept := changes_kept_iff disk textDocument ws changes
    unfold Workspace.didChange at hhanded
    split at hhanded
    · cases hhanded
    · rename_i hupdates
      cases hhanded
      rw [← hkept, hupdates, Prod.mk.injEq, and_iff_right rfl]

/-- One open document with the text `a\n`. -/
def sampleWorkspace : Workspace :=
  (Workspace.new .incremental [] .utf16).putTextDocument ⟨[0x75], [], 0, [0x61, lf]⟩ none

/-- `x` is typed in column 9 of the first line; the handler is told column 1. -/
theorem callers_positions_written :
    (positionFromClientUnits .utf16 [[0x61, lf]] ⟨0, 9⟩).2 = ⟨0, 1⟩ ∧
      (positionFromClientUnits .utf16 [[0x61, lf]] ⟨0, 9⟩).2 ≠ ⟨0, 9⟩ ∧
      ((Workspace.didChange (fun uri => .error (.osError uri)) sampleWorkspace ⟨[0x75], 1⟩
        [.changePartial ⟨⟨0, 9⟩, ⟨0, 9⟩⟩ [0x78]]).2.toOption =
          some (⟨[0x75], 1⟩, [.changePartial ⟨⟨0, 1⟩, ⟨0, 1⟩⟩ [0x78]])) ∧
      ContentChange.changePartial ⟨⟨0, 1⟩, ⟨0, 1⟩⟩ [0x78] ≠
        ContentChange.changePartial ⟨⟨0, 9⟩, ⟨0, 9⟩⟩ [0x78] :=
  ⟨by decide, by decide, rfl, by decide⟩

/-- In column 1 nothing is written. -/
theorem callers_positions_kept_inside :
    (positionFromClientUnits .utf16 [[0x61, lf]] ⟨0, 1⟩).2 = ⟨0, 1⟩ := by
  apply ((callers_positions_kept_iff (fun uri => .error (.osError uri)) .utf16).1 _ _).mpr
  rintro ⟨line, hline, -, hbehind⟩
  cases hline
  exact absurd hbehind (by decide)

end Arguments

end Pygls
