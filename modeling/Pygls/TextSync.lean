import Mathlib.Logic.Function.Basic
import Pygls.Lib.Run
import Pygls.Updates

/-!
# The server's text is the client's text

The reference client keeps a text for every open URI and edits it by code-point
offsets; it knows nothing of line loops or columns. A notification it cannot
send (a closed document, a position that is not in the text) has no step.
-/

namespace Pygls.TextSync

open Lib Lines PositionCodec TextDocument

set_option autoImplicit false

abbrev Client := Uri → Option Str

/-- The code-point offset a client means by a position: a boundary in the text of
a line, or the place behind the last terminator. -/
def clientOffset (encoding : Encoding) (text : Str) (position : Position) : Option Nat :=
  match (splitlines text)[position.line]? with
  | some line =>
    ((List.range ((body line).length + 1)).find? fun k =>
        clientNumUnits encoding ((body line).take k) = position.character).map
      fun k => ((splitlines text).take position.line).flatten.length + k
  | none =>
    if position.line = (splitlines text).length ∧ position.character = 0 ∧
        (text = [] ∨ endsLine text) then
      some text.length
    else none

def Before (p q : Position) : Prop :=
  p.line < q.line ∨ (p.line = q.line ∧ p.character ≤ q.character)

instance (p q : Position) : Decidable (Before p q) := inferInstanceAs (Decidable (_ ∨ _))

def clientEdit (encoding : Encoding) (text : Str) : ContentChange → Option Str
  | .wholeDocument new => some new
  | .changePartial range new =>
    if Before range.start range.stop then
      (clientOffset encoding text range.start).bind fun a =>
        (clientOffset encoding text range.stop).map fun b => text.take a ++ new ++ text.drop b
    else none

def clientStep (encoding : Encoding) (client : Client) : TextNotification → Option Client
  | .didOpen item => some (Function.update client item.uri (some item.text))
  | .didChange textDocument changes =>
    (client textDocument.uri).bind fun text =>
      (changes.foldlM (clientEdit encoding) text).map fun new =>
        Function.update client textDocument.uri (some new)
  | .didClose uri => (client uri).map fun _ => Function.update client uri none

def serverStep (disk : Disk) (ws : Workspace) (notification : TextNotification) :
    Option Workspace :=
  some (notification.update disk ws).1

/-- What a converted position says about where the text is cut. -/
structure Cuts (text : Str) (position : Position) (a : Nat) : Prop where
  inLine : InLine (splitlines text) position
  take : text.take (offset (splitlines text) position) = text.take a
  drop : text.drop (offset (splitlines text) position) = text.drop a

theorem sum_lengths (lines : List Str) : (lines.map List.length).sum = lines.flatten.length := by
  rw [List.length_flatten]

theorem cuts_inside {encoding : Encoding} (h : Negotiable encoding) {text line : Str}
    {position : Position} {a : Nat} (hl : (splitlines text)[position.line]? = some line)
    (ha : clientOffset encoding text position = some a) :
    Cuts text (positionFromClientUnits encoding (splitlines text) position).1 a ∧
      (positionFromClientUnits encoding (splitlines text) position).1.line = position.line := by
  simp only [clientOffset, hl, Option.map_eq_some_iff] at ha
  obtain ⟨k, hk, rfl⟩ := ha
  have hunits := List.find?_some hk
  have hmem := List.mem_range.mp (List.mem_of_find?_eq_some hk)
  simp only [decide_eq_true_eq] at hunits
  have hpos := positionFromClientUnits_boundary h hl (List.take_prefix k (body line))
  rw [hunits] at hpos
  have hlen : ((body line).take k).length = k := List.length_take_of_le (by omega)
  rw [hlen] at hpos
  have hbody : (body line).length ≤ line.length := (List.takeWhile_prefix _).length_le
  rw [show position = ⟨position.line, position.character⟩ from rfl, hpos]
  have hoff : offset (splitlines text) ⟨position.line, k⟩ =
      ((splitlines text).take position.line).flatten.length + k := by
    simp only [offset, sum_lengths]
    omega
  refine ⟨⟨⟨line, hl, Or.inl ?_⟩, by rw [hoff], by rw [hoff]⟩, rfl⟩
  show k ≤ line.length
  omega

/-- The place behind the last terminator is converted to a column of the last line
that is at or past its end. -/
theorem cuts_end {encoding : Encoding} {text : Str} {position : Position} {a : Nat}
    (hne : splitlines text ≠ []) (hl : (splitlines text)[position.line]? = none)
    (ha : clientOffset encoding text position = some a) :
    Cuts text (positionFromClientUnits encoding (splitlines text) position).1 a ∧
      (positionFromClientUnits encoding (splitlines text) position).1.line + 1 =
        (splitlines text).length := by
  simp only [clientOffset, hl] at ha
  split at ha
  · obtain rfl := Option.some.inj ha
    have hpos : 0 < (splitlines text).length := List.length_pos_iff.mpr hne
    have hlast : (splitlines text)[(splitlines text).length - 1]? =
        some ((splitlines text).getLast hne) := by
      rw [← List.getLast?_eq_getElem?, List.getLast?_eq_some_getLast hne]
    have hlen := length_le_clientNumUnits encoding ((splitlines text).getLast hne)
    have htext := length_splitlines_last hne
    rw [positionFromClientUnits_past encoding hne (List.getElem?_eq_none_iff.mp hl)]
    have hoff : text.length ≤ offset (splitlines text)
        ⟨(splitlines text).length - 1,
          clientNumUnits encoding ((splitlines text).getLast hne)⟩ := by
      simp only [offset, sum_lengths]
      omega
    refine ⟨⟨⟨_, hlast, Or.inr ?_⟩, ?_, ?_⟩, ?_⟩
    · exact Nat.sub_add_cancel hpos
    · rw [List.take_of_length_le hoff, List.take_length]
    · rw [List.drop_eq_nil_of_le hoff, List.drop_length]
    · exact Nat.sub_add_cancel hpos
  · cases ha

theorem clientOffset_line {encoding : Encoding} {text : Str} {position : Position} {a : Nat}
    (ha : clientOffset encoding text position = some a) :
    position.line ≤ (splitlines text).length := by
  unfold clientOffset at ha
  split at ha
  · rename_i hl
    exact Nat.le_of_lt (List.getElem?_eq_some_iff.mp hl).1
  · split at ha
    · rename_i hend
      exact Nat.le_of_eq hend.1
    · cases ha

/-- An edit the reference client can make is the edit the server makes. -/
theorem applyIncrementalChange_eq {encoding : Encoding} (h : Negotiable encoding) {text : Str}
    (new : Str) {range : Range} {a b : Nat} (hle : Before range.start range.stop)
    (ha : clientOffset encoding text range.start = some a)
    (hb : clientOffset encoding text range.stop = some b) :
    (applyIncrementalChange encoding text range new).1 = text.take a ++ new ++ text.drop b := by
  by_cases hne : splitlines text = []
  · obtain rfl := splitlines_eq_nil hne
    simp [applyIncrementalChange, rangeFromClientUnits, positionFromClientUnits, splitlines]
  have hpos : 0 < (splitlines text).length := List.length_pos_iff.mpr hne
  have hbound := clientOffset_line ha
  have hbound' := clientOffset_line hb
  have hline : range.start.line ≤ range.stop.line := by
    rcases hle with hlt | ⟨heq, -⟩ <;> omega
  -- a start behind the last line forces the end there too
  have hcuts : Cuts text (positionFromClientUnits encoding (splitlines text) range.start).1 a ∧
      Cuts text (positionFromClientUnits encoding (splitlines text) range.stop).1 b ∧
      (positionFromClientUnits encoding (splitlines text) range.start).1.line ≤
        (positionFromClientUnits encoding (splitlines text) range.stop).1.line := by
    cases hs : (splitlines text)[range.start.line]? with
    | some line =>
      obtain ⟨hcs, hls⟩ := cuts_inside h hs ha
      have hlt := (List.getElem?_eq_some_iff.mp hs).1
      cases he : (splitlines text)[range.stop.line]? with
      | some line' =>
        obtain ⟨hce, hl'⟩ := cuts_inside h he hb
        exact ⟨hcs, hce, by omega⟩
      | none =>
        obtain ⟨hce, hl'⟩ := cuts_end hne he hb
        exact ⟨hcs, hce, by omega⟩
    | none =>
      obtain ⟨hcs, hls⟩ := cuts_end hne hs ha
      have hge := List.getElem?_eq_none_iff.mp hs
      have he : (splitlines text)[range.stop.line]? = none :=
        List.getElem?_eq_none_iff.mpr (by omega)
      obtain ⟨hce, hl'⟩ := cuts_end hne he hb
      exact ⟨hcs, hce, by omega⟩
  obtain ⟨hcs, hce, hlines⟩ := hcuts
  obtain ⟨line, hl, -⟩ := hcs.inLine
  have hlt := (List.getElem?_eq_some_iff.mp hl).1
  have hedit := editLoop_splice (rangeFromClientUnits encoding (splitlines text) range).1 new
    (splitlines text) 0 _ _ (Nat.zero_add _).symm (Nat.zero_add _).symm hlines hcs.inLine hce.inLine
  have hstart : (rangeFromClientUnits encoding (splitlines text) range).1.start.line ≠
      (splitlines text).length := by
    change (positionFromClientUnits encoding (splitlines text) range.start).1.line ≠ _
    omega
  simp only [applyIncrementalChange, if_neg hstart]
  rw [hedit, flatten_splitlines]
  exact congrArg₂ (fun x y => x ++ new ++ y) hcs.take hce.drop

/-- A document the server holds for an open URI. -/
structure Holds (encoding : Encoding) (text : Str) (doc : TextDocument) : Prop where
  stored : doc.stored = some text
  kind : doc.syncKind = .incremental
  codec : doc.encoding = encoding

structure Synced (encoding : Encoding) (client : Client) (ws : Workspace) : Prop where
  kind : ws.syncKind = .incremental
  codec : ws.encoding = encoding
  closed : ∀ uri, client uri = none → ws.textDocuments.get? uri = none
  opened : ∀ uri text, client uri = some text →
    ∃ doc, ws.textDocuments.get? uri = some doc ∧ Holds encoding text doc

theorem applyChange_holds (disk : Disk) {encoding : Encoding} (h : Negotiable encoding)
    {text new : Str} {doc : TextDocument} {change : ContentChange} (hdoc : Holds encoding text doc)
    (hedit : clientEdit encoding text change = some new) :
    ∃ r, doc.applyChange disk change = .ok r ∧ Holds encoding new r.1 := by
  cases change with
  | wholeDocument t =>
    obtain rfl := Option.some.inj hedit
    refine ⟨({ doc with stored := some t }, .wholeDocument t), ?_, ⟨rfl, hdoc.kind, hdoc.codec⟩⟩
    simp [applyChange, hdoc.kind]
  | changePartial range t =>
    simp only [clientEdit] at hedit
    split at hedit
    · rename_i hle
      obtain ⟨a, ha, hedit⟩ := Option.bind_eq_some_iff.mp hedit
      obtain ⟨b, hb, rfl⟩ := Option.map_eq_some_iff.mp hedit
      have hsplice := applyIncrementalChange_eq h t hle ha hb
      rw [← hdoc.codec] at hsplice
      refine ⟨({ doc with stored := some (applyIncrementalChange doc.encoding text range t).1 },
        .changePartial (applyIncrementalChange doc.encoding text range t).2 t), ?_, ?_⟩
      · simp only [applyChange, hdoc.kind, source, hdoc.stored, Except.map]
      · exact ⟨congrArg some hsplice, hdoc.kind, hdoc.codec⟩
    · cases hedit

theorem update_holds (disk : Disk) {encoding : Encoding} (h : Negotiable encoding)
    {ws : Workspace} {id : VersionedTextDocumentIdentifier} {doc : TextDocument}
    {change : ContentChange} {text new : Str} (hget : ws.textDocuments.get? id.uri = some doc)
    (hdoc : Holds encoding text doc) (hedit : clientEdit encoding text change = some new) :
    ∃ doc' change', Holds encoding new doc' ∧ ws.updateTextDocument disk id change =
      .ok ({ ws with textDocuments := ws.textDocuments.set id.uri doc' }, change') := by
  obtain ⟨r, hr, hholds⟩ := applyChange_holds disk h hdoc hedit
  refine ⟨{ r.1 with version := id.version }, r.2, ⟨hholds.stored, hholds.kind, hholds.codec⟩, ?_⟩
  simp only [Workspace.updateTextDocument, hget, hr, Except.map]

/-- The loop over the changes of one notification writes one document. -/
theorem updates_holds (disk : Disk) {encoding : Encoding} (h : Negotiable encoding)
    {id : VersionedTextDocumentIdentifier} (changes : List ContentChange) {ws : Workspace}
    {doc : TextDocument} {text new : Str} (hget : ws.textDocuments.get? id.uri = some doc)
    (hdoc : Holds encoding text doc)
    (hedits : changes.foldlM (clientEdit encoding) text = some new) :
    ∃ doc', Holds encoding new doc' ∧
      (Workspace.updateTextDocuments disk id ws changes).1.textDocuments.get? id.uri = some doc' ∧
      (∀ uri, uri ≠ id.uri →
        (Workspace.updateTextDocuments disk id ws changes).1.textDocuments.get? uri =
          ws.textDocuments.get? uri) ∧
      (Workspace.updateTextDocuments disk id ws changes).1.syncKind = ws.syncKind ∧
      (Workspace.updateTextDocuments disk id ws changes).1.encoding = ws.encoding := by
  induction changes generalizing ws doc text with
  | nil =>
    obtain rfl := Option.some.inj hedits
    exact ⟨doc, hdoc, hget, fun _ _ => rfl, rfl, rfl⟩
  | cons change changes ih =>
    obtain ⟨mid, hmid, hrest⟩ := Option.bind_eq_some_iff.mp hedits
    obtain ⟨doc', change', hdoc', hr⟩ := update_holds disk h hget hdoc hmid
    have hget' : ({ ws with textDocuments := ws.textDocuments.set id.uri doc' } :
        Workspace).textDocuments.get? id.uri = some doc' := Dict.get?_set_self _ _ _
    obtain ⟨last, hlast, hgetlast, hother, hkind, hcodec⟩ := ih hget' hdoc' hrest
    simp only [Workspace.updateTextDocuments, hr]
    refine ⟨last, hlast, hgetlast, ?_, hkind, hcodec⟩
    intro uri huri
    rw [hother uri huri]
    exact Dict.get?_set_ne _ _ huri

/-- One notification keeps the server at the client's text. -/
theorem serverStep_synced (disk : Disk) {encoding : Encoding} (h : Negotiable encoding)
    {client client' : Client} {ws : Workspace} {n : TextNotification}
    (hs : Synced encoding client ws) (hn : clientStep encoding client n = some client') :
    Synced encoding client' (n.update disk ws).1 := by
  cases n with
  | didOpen item =>
    obtain rfl := Option.some.inj hn
    refine ⟨hs.kind, hs.codec, ?_, ?_⟩
    · intro uri hnone
      by_cases huri : uri = item.uri
      · simp [huri] at hnone
      · rw [Function.update_of_ne huri] at hnone
        exact (Dict.get?_set_ne _ _ huri).trans (hs.closed uri hnone)
    · intro uri text hsome
      by_cases huri : uri = item.uri
      · subst huri
        rw [Function.update_self] at hsome
        exact ⟨_, Dict.get?_set_self _ _ _, hsome, hs.kind, hs.codec⟩
      · rw [Function.update_of_ne huri] at hsome
        obtain ⟨doc, hget, hdoc⟩ := hs.opened uri text hsome
        exact ⟨doc, (Dict.get?_set_ne _ _ huri).trans hget, hdoc⟩
  | didChange id changes =>
    obtain ⟨text, htext, hn⟩ := Option.bind_eq_some_iff.mp hn
    obtain ⟨new, hnew, rfl⟩ := Option.map_eq_some_iff.mp hn
    obtain ⟨doc, hget, hdoc⟩ := hs.opened _ text htext
    obtain ⟨doc', hdoc', hget', hother, hkind, hcodec⟩ :=
      updates_holds disk h changes hget hdoc hnew
    refine ⟨hkind.trans hs.kind, hcodec.trans hs.codec, ?_, ?_⟩
    · intro uri hnone
      by_cases huri : uri = id.uri
      · simp [huri] at hnone
      · rw [Function.update_of_ne huri] at hnone
        exact (hother uri huri).trans (hs.closed uri hnone)
    · intro uri t hsome
      by_cases huri : uri = id.uri
      · subst huri
        rw [Function.update_self] at hsome
        obtain rfl := Option.some.inj hsome
        exact ⟨doc', hget', hdoc'⟩
      · rw [Function.update_of_ne huri] at hsome
        obtain ⟨d, hd, hhold⟩ := hs.opened uri t hsome
        exact ⟨d, (hother uri huri).trans hd, hhold⟩
  | didClose closed =>
    obtain ⟨_, _, rfl⟩ := Option.map_eq_some_iff.mp hn
    refine ⟨hs.kind, hs.codec, ?_, ?_⟩
    · intro uri hnone
      by_cases huri : uri = closed
      · subst huri
        exact Dict.get?_pop_self _ _
      · rw [Function.update_of_ne huri] at hnone
        exact (Dict.get?_pop_ne _ huri).trans (hs.closed uri hnone)
    · intro uri text hsome
      by_cases huri : uri = closed
      · simp [huri] at hsome
      · rw [Function.update_of_ne huri] at hsome
        obtain ⟨doc, hget, hdoc⟩ := hs.opened uri text hsome
        exact ⟨doc, (Dict.get?_pop_ne _ huri).trans hget, hdoc⟩

theorem foldl_addFolder (folders : List WorkspaceFolder) (ws : Workspace) :
    (folders.foldl Workspace.addFolder ws).textDocuments = ws.textDocuments ∧
      (folders.foldl Workspace.addFolder ws).syncKind = ws.syncKind ∧
      (folders.foldl Workspace.addFolder ws).encoding = ws.encoding := by
  induction folders generalizing ws with
  | nil => exact ⟨rfl, rfl, rfl⟩
  | cons folder folders ih => exact ih (ws.addFolder folder)

theorem new_synced (folders : List WorkspaceFolder) (encoding : Encoding) :
    Synced encoding (fun _ => none) (Workspace.new .incremental folders encoding) := by
  obtain ⟨hdocs, hkind, hcodec⟩ :=
    foldl_addFolder folders ⟨.incremental, encoding, .empty, .empty, .empty, .empty⟩
  refine ⟨hkind, hcodec, ?_, ?_⟩
  · intro uri _
    rw [Workspace.new, hdocs]
    rfl
  · intro uri text htext
    cases htext

theorem updates_get?_ne (disk : Disk) (id : VersionedTextDocumentIdentifier)
    (changes : List ContentChange) (ws : Workspace) {uri : Uri} (h : uri ≠ id.uri) :
    (Workspace.updateTextDocuments disk id ws changes).1.textDocuments.get? uri =
      ws.textDocuments.get? uri := by
  induction changes generalizing ws with
  | nil => rfl
  | cons change changes ih =>
    cases hget : ws.textDocuments.get? id.uri with
    | none => simp only [Workspace.updateTextDocuments, Workspace.updateTextDocument, hget]
    | some doc =>
      cases hr : doc.applyChange disk change with
      | error e =>
        simp only [Workspace.updateTextDocuments, Workspace.updateTextDocument, hget, hr, Except.map]
      | ok r =>
        simp only [Workspace.updateTextDocuments, Workspace.updateTextDocument, hget, hr, Except.map]
        rw [ih]
        exact Dict.get?_set_ne _ _ h

/-- A notification leaves every document but its own alone. -/
theorem update_get?_ne (disk : Disk) (ws : Workspace) (n : TextNotification) {uri : Uri}
    (h : uri ≠ n.uri) :
    (n.update disk ws).1.textDocuments.get? uri = ws.textDocuments.get? uri := by
  cases n with
  | didOpen item => exact Dict.get?_set_ne _ _ h
  | didChange id changes => exact updates_get?_ne disk id changes ws h
  | didClose closed => exact Dict.get?_pop_ne _ h

/-- After every prefix of a run the client can make, every open document has the
client's text, whatever is on disk; no closed one is kept; and the next
notification touches only its own document. -/
theorem source_eq_client_text (disk : Disk) (folders : List WorkspaceFolder) {encoding : Encoding}
    (hencoding : Negotiable encoding) {notifications before after : List TextNotification}
    {final : Client} (hrun : run (clientStep encoding) (fun _ => none) notifications = some final)
    (hfirst : notifications = before ++ after) :
    ∃ client ws, run (clientStep encoding) (fun _ => none) before = some client ∧
      run (serverStep disk) (Workspace.new .incremental folders encoding) before = some ws ∧
      (∀ uri text, client uri = some text → (ws.getTextDocument uri).source disk = .ok text) ∧
      (∀ uri, client uri = none → ws.textDocuments.get? uri = none) ∧
      (∀ (n : TextNotification) (uri : Uri), uri ≠ n.uri →
        (n.update disk ws).1.textDocuments.get? uri = ws.textDocuments.get? uri) := by
  subst hfirst
  rw [run_append] at hrun
  obtain ⟨client, hclient, -⟩ := Option.bind_eq_some_iff.mp hrun
  have hkeep : ∀ c ws n c', Synced encoding c ws → clientStep encoding c n = some c' →
      ∃ ws', serverStep disk ws n = some ws' ∧ Synced encoding c' ws' :=
    fun c ws n c' hs hn => ⟨_, rfl, serverStep_synced disk hencoding hs hn⟩
  obtain ⟨ws, hws, hsynced⟩ := run_simulation hkeep (new_synced folders encoding) hclient
  refine ⟨client, ws, hclient, hws, ?_, hsynced.closed, ?_⟩
  · intro uri text htext
    obtain ⟨doc, hget, hdoc⟩ := hsynced.opened uri text htext
    simp only [Workspace.getTextDocument, hget, Option.getD_some, source, hdoc.stored]
  · intro n uri huri
    exact update_get?_ne disk ws n huri

/-- `a\n` is opened and `b` is typed behind its terminator. -/
theorem source_eq_client_text_append :
    let disk : Disk := fun uri => .error (.osError uri)
    let edits : List TextNotification :=
      [.didOpen ⟨[0x75], [], 0, [0x61, 0x0A]⟩,
        .didChange ⟨[0x75], 1⟩ [.changePartial ⟨⟨1, 0⟩, ⟨1, 0⟩⟩ [0x62]]]
    ∃ ws, run (serverStep disk) (Workspace.new .incremental [] .utf16) edits = some ws ∧
      (ws.getTextDocument [0x75]).source disk = .ok [0x61, 0x0A, 0x62] := by
  intro disk edits
  obtain ⟨client, ws, hclient, hws, hopen, -⟩ :=
    source_eq_client_text disk [] (Or.inr (Or.inl rfl)) (rfl : run (clientStep .utf16) _ edits = _)
      (List.append_nil edits).symm
  refine ⟨ws, hws, hopen _ _ ?_⟩
  obtain rfl := Option.some.inj hclient
  rfl

end Pygls.TextSync
