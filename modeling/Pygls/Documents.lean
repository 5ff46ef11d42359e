import Pygls.TextSync

/-!
# One document among others

What a document becomes depends on the messages about it and on nothing else that
happens in the workspace: not on the other documents, on notebooks that do not have
it as a cell, or on folders. So the workspace holds one machine for every document.
-/

namespace Pygls.Documents

open Lib TextDocument

set_option autoImplicit false

/-- The text documents that a message names. -/
def names : WorkspaceMessage → List Uri
  | .text notification => [notification.uri]
  | .notebookDidOpen _ cells => cells.map TextDocumentItem.uri
  | .notebookDidChange params =>
    match params.cells with
    | none => []
    | some changes =>
      (changes.cellStructure.elim [] fun change =>
          (change.didOpen.getD []).map TextDocumentItem.uri ++ change.didClose.getD []) ++
        (changes.textContent.getD []).map fun text => text.document.uri
  | .notebookDidClose _ cells => cells
  | .didChangeFolders _ _ => []

/-- The changes of one notification in one document, up to the first exception. -/
def applyChanges (disk : Disk) (version : Int) : TextDocument → List ContentChange → TextDocument
  | doc, [] => doc
  | doc, change :: rest =>
    match doc.applyChange disk change with
    | .error _ => doc
    | .ok r => applyChanges disk version { r.1 with version := some version } rest

/-- A document of its own, `none` while it is not open. -/
def step (disk : Disk) (kind : SyncKind) (encoding : Encoding) :
    Option TextDocument → TextNotification → Option TextDocument
  | _, .didOpen item =>
    some ⟨item.uri, some item.text, some item.version, some item.languageId, kind, encoding⟩
  | doc, .didChange textDocument changes =>
    doc.map fun doc => applyChanges disk textDocument.version doc changes
  | _, .didClose _ => none

/-- What is left of a run for one document. -/
def about (uri : Uri) : WorkspaceMessage → Option TextNotification
  | .text notification => if notification.uri = uri then some notification else none
  | _ => none

/-- The document and what new documents get are as they were. -/
structure Frame (uri : Uri) (ws ws' : Workspace) : Prop where
  document : ws'.textDocuments.get? uri = ws.textDocuments.get? uri
  syncKind : ws'.syncKind = ws.syncKind
  encoding : ws'.encoding = ws.encoding

namespace Frame

variable {uri : Uri} {ws ws' ws'' : Workspace}

theorem refl (uri : Uri) (ws : Workspace) : Frame uri ws ws := ⟨rfl, rfl, rfl⟩

theorem trans (h : Frame uri ws ws') (h' : Frame uri ws' ws'') : Frame uri ws ws'' :=
  ⟨h'.document.trans h.document, h'.syncKind.trans h.syncKind, h'.encoding.trans h.encoding⟩

theorem putTextDocument (ws : Workspace) {item : TextDocumentItem} (h : uri ≠ item.uri)
    (notebookUri : Option Uri) : Frame uri ws (ws.putTextDocument item notebookUri) := by
  unfold Workspace.putTextDocument
  cases notebookUri with
  | none => exact ⟨Dict.get?_set_ne _ _ h, rfl, rfl⟩
  | some notebook =>
    dsimp only
    split
    · exact ⟨Dict.get?_set_ne _ _ h, rfl, rfl⟩
    · exact ⟨Dict.get?_set_ne _ _ h, rfl, rfl⟩

theorem putTextDocuments (ws : Workspace) {items : List TextDocumentItem}
    (h : uri ∉ items.map TextDocumentItem.uri) (notebookUri : Option Uri) :
    Frame uri ws (items.foldl (fun ws item => ws.putTextDocument item notebookUri) ws) := by
  induction items generalizing ws with
  | nil => exact refl uri ws
  | cons item items ih =>
    rw [List.map_cons, List.mem_cons, not_or] at h
    exact (putTextDocument ws h.1 notebookUri).trans (ih _ h.2)

theorem removeTextDocument (ws : Workspace) {closed : Uri} (h : uri ≠ closed) :
    Frame uri ws (ws.removeTextDocument closed) :=
  ⟨Dict.get?_pop_ne _ h, rfl, rfl⟩

theorem removeTextDocuments (ws : Workspace) {uris : List Uri} (h : uri ∉ uris) :
    Frame uri ws (uris.foldl Workspace.removeTextDocument ws) := by
  induction uris generalizing ws with
  | nil => exact refl uri ws
  | cons closed uris ih =>
    rw [List.mem_cons, not_or] at h
    exact (removeTextDocument ws h.1).trans (ih _ h.2)

theorem updateTextDocuments (disk : Disk) (ws : Workspace) {id : VersionedTextDocumentIdentifier}
    (h : uri ≠ id.uri) (changes : List ContentChange) :
    Frame uri ws (Workspace.updateTextDocuments disk id ws changes).1 := by
  induction changes generalizing ws with
  | nil => exact refl uri ws
  | cons change changes ih =>
    cases hget : ws.textDocuments.get? id.uri with
    | none =>
      simp only [Workspace.updateTextDocuments, Workspace.updateTextDocument, hget]
      exact refl uri ws
    | some doc =>
      cases hr : doc.applyChange disk change with
      | error e =>
        simp only [Workspace.updateTextDocuments, Workspace.updateTextDocument, hget, hr,
          Except.map]
        exact refl uri ws
      | ok r =>
        simp only [Workspace.updateTextDocuments, Workspace.updateTextDocument, hget, hr,
          Except.map]
        have hone : Frame uri ws { ws with
            textDocuments :=
              ws.textDocuments.set id.uri { r.1 with version := some id.version } } :=
          ⟨Dict.get?_set_ne _ _ h, rfl, rfl⟩
        exact hone.trans (ih _)

theorem updateCellContents (disk : Disk) (ws : Workspace) {contents : List CellContentChange}
    (h : uri ∉ contents.map fun text => text.document.uri) :
    Frame uri ws (Workspace.updateCellContents disk ws contents).1 := by
  induction contents generalizing ws with
  | nil => exact refl uri ws
  | cons content contents ih =>
    rw [List.map_cons, List.mem_cons, not_or] at h
    have hone := updateTextDocuments disk ws h.1 content.changes
    rw [Workspace.updateCellContents]
    split
    · rename_i heq
      rw [heq] at hone
      exact hone
    · rename_i heq
      rw [heq] at hone
      exact hone.trans (ih _ h.2)

theorem updateNotebookDocument (disk : Disk) (ws : Workspace) {params : DidChangeNotebookParams}
    (h : uri ∉ names (.notebookDidChange params)) :
    Frame uri ws (ws.updateNotebookDocument disk params).1 := by
  unfold Workspace.updateNotebookDocument
  cases ws.notebookDocuments.get? params.uri with
  | none => exact refl uri ws
  | some notebook =>
    dsimp only
    simp only [names] at h
    cases hcells : params.cells with
    | none => exact ⟨rfl, rfl, rfl⟩
    | some changes =>
      simp only [hcells, List.mem_append, not_or] at h
      obtain ⟨hstructure, hcontent⟩ := h
      dsimp only
      refine Frame.trans ?_ (updateCellContents disk _ hcontent)
      cases hchange : changes.cellStructure with
      | none => exact ⟨rfl, rfl, rfl⟩
      | some change =>
        simp only [hchange, Option.elim_some, List.mem_append, not_or] at hstructure
        unfold Workspace.updateCellStructure
        dsimp only
        refine Frame.trans ?_ (removeTextDocuments _ hstructure.2)
        refine Frame.trans ?_ (putTextDocuments _ hstructure.1 (some params.uri))
        exact ⟨rfl, rfl, rfl⟩

theorem changeFolders (ws : Workspace) (added removed : List WorkspaceFolder) :
    Frame uri ws (WorkspaceMessage.changeFolders ws added removed) := by
  fun_induction WorkspaceMessage.changeFolders ws added removed with
  | case1 ws => exact refl uri ws
  | case2 ws add added ih =>
    have hadd : Frame uri ws (ws.addFolder add) := ⟨rfl, rfl, rfl⟩
    exact hadd.trans ih
  | case3 ws remove removed ih =>
    have hremove : Frame uri ws (ws.removeFolder remove.uri) := ⟨rfl, rfl, rfl⟩
    exact hremove.trans ih
  | case4 ws add added remove removed ih =>
    have hboth : Frame uri ws ((ws.addFolder add).removeFolder remove.uri) := ⟨rfl, rfl, rfl⟩
    exact hboth.trans ih

theorem update (disk : Disk) (ws : Workspace) {message : WorkspaceMessage}
    (h : uri ∉ names message) : Frame uri ws (message.update disk ws).1 := by
  cases message with
  | text notification =>
    have hne : uri ≠ notification.uri := fun heq => h (List.mem_singleton.mpr heq)
    cases notification with
    | didOpen item => exact putTextDocument ws hne none
    | didChange id changes => exact updateTextDocuments disk ws hne changes
    | didClose closed => exact removeTextDocument ws hne
  | notebookDidOpen notebook cells =>
    refine Frame.trans ?_ (putTextDocuments _ h (some notebook.uri))
    exact ⟨rfl, rfl, rfl⟩
  | notebookDidChange params => exact updateNotebookDocument disk ws h
  | notebookDidClose notebookUri cells =>
    refine Frame.trans ?_ (removeTextDocuments _ h)
    exact ⟨rfl, rfl, rfl⟩
  | didChangeFolders added removed => exact changeFolders ws _ _

end Frame

/-! ### The document's own messages -/

theorem updateTextDocuments_own (disk : Disk) (ws : Workspace)
    (id : VersionedTextDocumentIdentifier) (changes : List ContentChange) :
    (Workspace.updateTextDocuments disk id ws changes).1.textDocuments.get? id.uri =
        (ws.textDocuments.get? id.uri).map (applyChanges disk id.version · changes) ∧
      (Workspace.updateTextDocuments disk id ws changes).1.syncKind = ws.syncKind ∧
      (Workspace.updateTextDocuments disk id ws changes).1.encoding = ws.encoding := by
  induction changes generalizing ws with
  | nil =>
    refine ⟨?_, rfl, rfl⟩
    simp only [Workspace.updateTextDocuments, applyChanges, Option.map_id']
  | cons change changes ih =>
    cases hget : ws.textDocuments.get? id.uri with
    | none =>
      simp only [Workspace.updateTextDocuments, Workspace.updateTextDocument, hget]
      exact ⟨rfl, trivial, trivial⟩
    | some doc =>
      cases hr : doc.applyChange disk change with
      | error e =>
        simp only [Workspace.updateTextDocuments, Workspace.updateTextDocument, hget, hr,
          Except.map, applyChanges, Option.map_some]
        exact ⟨trivial, trivial, trivial⟩
      | ok r =>
        simp only [Workspace.updateTextDocuments, Workspace.updateTextDocument, hget, hr,
          Except.map, applyChanges, Option.map_some]
        obtain ⟨hdoc, hkind, hencoding⟩ := ih { ws with
            textDocuments := ws.textDocuments.set id.uri { r.1 with version := some id.version } }
        refine ⟨?_, hkind, hencoding⟩
        rw [hdoc, Dict.get?_set_self]
        rfl

theorem update_own (disk : Disk) (ws : Workspace) (notification : TextNotification) :
    (notification.update disk ws).1.textDocuments.get? notification.uri =
        step disk ws.syncKind ws.encoding (ws.textDocuments.get? notification.uri) notification ∧
      (notification.update disk ws).1.syncKind = ws.syncKind ∧
      (notification.update disk ws).1.encoding = ws.encoding := by
  cases notification with
  | didOpen item => exact ⟨Dict.get?_set_self _ _ _, rfl, rfl⟩
  | didChange id changes => exact updateTextDocuments_own disk ws id changes
  | didClose closed => exact ⟨Dict.get?_pop_self _ _, rfl, rfl⟩

theorem about_eq_some {uri : Uri} {message : WorkspaceMessage} {notification : TextNotification}
    (h : about uri message = some notification) :
    message = .text notification ∧ notification.uri = uri := by
  unfold about at h
  split at h
  · split at h
    · cases h
      exact ⟨rfl, ‹_›⟩
    · cases h
  · cases h

/-- One step of the workspace is a step of every document's own machine, or none. -/
theorem get?_foldl (disk : Disk) (ws : Workspace) (messages : List WorkspaceMessage) (uri : Uri)
    (hplain : ∀ message ∈ messages, uri ∈ names message → (about uri message).isSome) :
    (messages.foldl (fun ws message => (message.update disk ws).1) ws).textDocuments.get? uri =
      (messages.filterMap (about uri)).foldl (step disk ws.syncKind ws.encoding)
        (ws.textDocuments.get? uri) := by
  induction messages generalizing ws with
  | nil => rfl
  | cons message messages ih =>
    obtain ⟨hfirst, hrest⟩ := List.forall_mem_cons.mp hplain
    rw [List.foldl_cons, ih _ hrest]
    cases habout : about uri message with
    | some notification =>
      obtain ⟨rfl, rfl⟩ := about_eq_some habout
      obtain ⟨hdoc, hkind, hencoding⟩ := update_own disk ws notification
      rw [List.filterMap_cons_some habout, List.foldl_cons, WorkspaceMessage.update, hdoc, hkind,
        hencoding]
    | none =>
      have hnames : uri ∉ names message := by
        intro hin
        have hsome := hfirst hin
        rw [habout] at hsome
        cases hsome
      have hframe := Frame.update disk ws hnames
      rw [List.filterMap_cons_none habout, hframe.document, hframe.syncKind, hframe.encoding]

theorem new_fields (kind : SyncKind) (folders : List WorkspaceFolder) (encoding : Encoding) :
    (∀ uri, (Workspace.new kind folders encoding).textDocuments.get? uri = none) ∧
      (Workspace.new kind folders encoding).syncKind = kind ∧
      (Workspace.new kind folders encoding).encoding = encoding := by
  obtain ⟨hdocs, hkind, hencoding⟩ :=
    TextSync.foldl_addFolder folders ⟨kind, encoding, .empty, .empty, .empty, .empty⟩
  refine ⟨?_, hkind, hencoding⟩
  intro uri
  rw [Workspace.new, hdocs]
  rfl

/-- Every document is a machine of its own: whatever the workspace has been told in the meantime
about other documents, notebooks and folders, it is what its own notifications have made of it. -/
theorem documents_are_independent (disk : Disk) (kind : SyncKind) (folders : List WorkspaceFolder)
    (encoding : Encoding) (messages : List WorkspaceMessage) (uri : Uri)
    (hplain : ∀ message ∈ messages, uri ∈ names message → (about uri message).isSome) :
    (messages.foldl (fun ws message => (message.update disk ws).1)
        (Workspace.new kind folders encoding)).textDocuments.get? uri =
      (messages.filterMap (about uri)).foldl (step disk kind encoding) none := by
  obtain ⟨hnone, hkind, hencoding⟩ := new_fields kind folders encoding
  rw [get?_foldl disk _ messages uri hplain, hnone, hkind, hencoding]

/-- A text, a notebook whose cell it is not, another text and a change of the first. -/
theorem documents_are_independent_notebook :
    let disk : Disk := fun uri => .error (.osError uri)
    let messages : List WorkspaceMessage :=
      [.text (.didOpen ⟨[0x75], [], 0, [0x61]⟩),
        .notebookDidOpen ⟨[0x6E], [], 0, [], none⟩ [⟨[0x63], [], 0, [0x62]⟩],
        .text (.didClose [0x63]),
        .text (.didChange ⟨[0x75], 1⟩ [.changePartial ⟨⟨0, 1⟩, ⟨0, 1⟩⟩ [0x64]])]
    (messages.foldl (fun ws message => (message.update disk ws).1)
        (Workspace.new .incremental [] .utf8)).textDocuments.get? [0x75] =
      some ⟨[0x75], some [0x61, 0x64], some 1, some [], .incremental, .utf8⟩ := by
  intro disk messages
  have hplain : ∀ message ∈ messages, [0x75] ∈ names message → (about [0x75] message).isSome := by
    decide
  rw [documents_are_independent disk .incremental [] .utf8 messages [0x75] hplain]
  rfl

/-! ### Without increments -/

def ContentChange.text : ContentChange → Str
  | .changePartial _ text => text
  | .wholeDocument text => text

/-- The text of a document that is synchronized fully or not at all. -/
def plainText (kind : SyncKind) : Option Str → TextNotification → Option Str
  | _, .didOpen item => some item.text
  | text, .didChange _ changes =>
    if kind = .none then text
    else text.map fun text => (changes.getLast?.map ContentChange.text).getD text
  | _, .didClose _ => none

/-- The document has this text and is of this kind; without text it is not open. -/
def HasText (kind : SyncKind) (doc : Option TextDocument) (text : Option Str) : Prop :=
  doc.map (fun doc => (doc.stored, doc.syncKind)) = text.map fun text => (some text, kind)

theorem hasText_bind {kind : SyncKind} {doc : Option TextDocument} {text : Option Str}
    (h : HasText kind doc text) : doc.bind TextDocument.stored = text := by
  cases doc with
  | none =>
    cases text with
    | none => rfl
    | some text => cases h
  | some doc =>
    cases text with
    | none => cases h
    | some text =>
      simp only [HasText, Option.map_some, Option.some.injEq, Prod.mk.injEq] at h
      exact h.1

theorem applyChanges_none (disk : Disk) (version : Int) (doc : TextDocument)
    (changes : List ContentChange) (h : doc.syncKind = .none) :
    (applyChanges disk version doc changes).stored = doc.stored ∧
      (applyChanges disk version doc changes).syncKind = .none := by
  induction changes generalizing doc with
  | nil => exact ⟨rfl, h⟩
  | cons change changes ih =>
    have hr : doc.applyChange disk change = .ok (doc, change) := by
      cases change with
      | changePartial range text => simp only [applyChange, h]
      | wholeDocument text => simp only [applyChange, h]
    simp only [applyChanges, hr]
    exact ih { doc with version := some version } h

theorem applyChanges_full (disk : Disk) (version : Int) (doc : TextDocument)
    (changes : List ContentChange) (h : doc.syncKind = .full) :
    (applyChanges disk version doc changes).stored =
        ((changes.getLast?.map ContentChange.text).or doc.stored) ∧
      (applyChanges disk version doc changes).syncKind = .full := by
  induction changes generalizing doc with
  | nil => exact ⟨rfl, h⟩
  | cons change changes ih =>
    have hr : doc.applyChange disk change =
        .ok ({ doc with stored := some (ContentChange.text change) }, change) := by
      cases change with
      | changePartial range text => simp only [applyChange, h, ContentChange.text]
      | wholeDocument text => simp only [applyChange, h, ContentChange.text]
    obtain ⟨hstored, hkind⟩ := ih
      { doc with stored := some (ContentChange.text change), version := some version } h
    simp only [applyChanges, hr]
    refine ⟨?_, hkind⟩
    rw [hstored]
    cases changes with
    | nil => rfl
    | cons next rest => simp [List.getLast?_cons]

theorem hasText_step (disk : Disk) {kind : SyncKind} (hkind : kind ≠ .incremental)
    (encoding : Encoding) {doc : Option TextDocument} {text : Option Str}
    (h : HasText kind doc text) (notification : TextNotification) :
    HasText kind (step disk kind encoding doc notification) (plainText kind text notification) := by
  cases notification with
  | didOpen item => rfl
  | didClose uri => rfl
  | didChange id changes =>
    cases doc with
    | none =>
      cases text with
      | none => simp [HasText, step, plainText]
      | some text => cases h
    | some doc =>
      cases text with
      | none => cases h
      | some text =>
        simp only [HasText, Option.map_some, Option.some.injEq, Prod.mk.injEq] at h
        obtain ⟨hstored, rfl⟩ := h
        cases hdoc : doc.syncKind with
        | none =>
          obtain ⟨hsame, hkept⟩ := applyChanges_none disk id.version doc changes hdoc
          simp only [HasText, step, plainText, Option.map_some, if_pos, hsame, hkept, hstored]
        | full =>
          obtain ⟨hlast, hkept⟩ := applyChanges_full disk id.version doc changes hdoc
          have hne : SyncKind.full ≠ SyncKind.none := by decide
          simp only [HasText, step, plainText, Option.map_some, if_neg hne, hlast, hkept, hstored]
          cases changes.getLast? with
          | none => rfl
          | some change => rfl
        | incremental => exact absurd hdoc hkind

/-- With full synchronization a document has the text that came last, ranges or not; with none
it keeps the text it was opened with. -/
theorem texts_without_increments (disk : Disk) {kind : SyncKind} (hkind : kind ≠ .incremental)
    (folders : List WorkspaceFolder) (encoding : Encoding) (messages : List WorkspaceMessage)
    (uri : Uri)
    (hplain : ∀ message ∈ messages, uri ∈ names message → (about uri message).isSome) :
    ((messages.foldl (fun ws message => (message.update disk ws).1)
        (Workspace.new kind folders encoding)).textDocuments.get? uri).bind TextDocument.stored =
      (messages.filterMap (about uri)).foldl (plainText kind) none := by
  obtain ⟨hnone, hsync, hencoding⟩ := new_fields kind folders encoding
  rw [get?_foldl disk _ messages uri hplain, hnone, hsync, hencoding]
  apply hasText_bind
  have run : ∀ (notifications : List TextNotification) (doc : Option TextDocument)
      (text : Option Str), HasText kind doc text →
      HasText kind (notifications.foldl (step disk kind encoding) doc)
        (notifications.foldl (plainText kind) text) := by
    intro notifications
    induction notifications with
    | nil => exact fun _ _ h => h
    | cons notification notifications ih =>
      intro doc text h
      exact ih _ _ (hasText_step disk hkind encoding h notification)
  exact run _ none none rfl

/-- A client that sends a range to a server with full synchronization. -/
theorem texts_without_increments_range :
    let disk : Disk := fun uri => .error (.osError uri)
    let messages : List WorkspaceMessage :=
      [.text (.didOpen ⟨[0x75], [], 0, [0x61]⟩),
        .text (.didChange ⟨[0x75], 1⟩ [.wholeDocument [0x62], .changePartial ⟨⟨0, 0⟩, ⟨0, 0⟩⟩ [0x63]])]
    ((messages.foldl (fun ws message => (message.update disk ws).1)
        (Workspace.new .full [] .utf16)).textDocuments.get? [0x75]).bind TextDocument.stored =
      some [0x63] := by
  intro disk messages
  have hplain : ∀ message ∈ messages, [0x75] ∈ names message → (about [0x75] message).isSome := by
    decide
  have hkind : SyncKind.full ≠ .incremental := by decide
  rw [texts_without_increments disk hkind [] .utf16 messages [0x75] hplain]
  rfl

end Pygls.Documents
