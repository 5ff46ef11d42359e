import Pygls.Workspace

/-!
# Built-in workspace updates

What the built-in handlers of `language_server.py` do to the workspace before
they yield to the user's handler for the same method. Only a document without
stored text reads its file, and no open document is without: the updates do not
depend on the disk.
-/

namespace Pygls

set_option autoImplicit false

inductive TextNotification where
  | didOpen (item : TextDocumentItem)
  | didChange (textDocument : VersionedTextDocumentIdentifier) (changes : List ContentChange)
  | didClose (uri : Uri)

inductive WorkspaceMessage where
  | text (notification : TextNotification)
  | notebookDidOpen (notebook : NotebookDocument) (cellTextDocuments : List TextDocumentItem)
  | notebookDidChange (params : DidChangeNotebookParams)
  | notebookDidClose (notebookUri : Uri) (cellTextDocuments : List Uri)
  | didChangeFolders (added removed : Option (List WorkspaceFolder))

namespace TextNotification

def uri : TextNotification → Uri
  | .didOpen item => item.uri
  | .didChange textDocument _ => textDocument.uri
  | .didClose uri => uri

def update (disk : Disk) (ws : Workspace) : TextNotification → Workspace × Option StoreError
  | .didOpen item => (ws.putTextDocument item none, none)
  | .didChange textDocument changes =>
    let r := Workspace.updateTextDocuments disk textDocument ws changes
    (r.1, r.2.2)
  | .didClose uri => (ws.removeTextDocument uri, none)

end TextNotification

namespace WorkspaceMessage

/-- The loop over `zip_longest(added_folders, removed_folders)`. -/
def changeFolders : Workspace → List WorkspaceFolder → List WorkspaceFolder → Workspace
  | ws, [], [] => ws
  | ws, add :: added, [] => changeFolders (ws.addFolder add) added []
  | ws, [], remove :: removed => changeFolders (ws.removeFolder remove.uri) [] removed
  | ws, add :: added, remove :: removed =>
    changeFolders ((ws.addFolder add).removeFolder remove.uri) added removed

def update (disk : Disk) (ws : Workspace) : WorkspaceMessage → Workspace × Option StoreError
  | .text notification => notification.update disk ws
  | .notebookDidOpen notebook cells => (ws.putNotebookDocument notebook cells, none)
  | .notebookDidChange params => ws.updateNotebookDocument disk params
  | .notebookDidClose uri cells => (ws.removeNotebookDocument uri cells, none)
  | .didChangeFolders added removed => (changeFolders ws (added.getD []) (removed.getD []), none)

end WorkspaceMessage

/-- Every open document has its text in memory. -/
def Stored (ws : Workspace) : Prop :=
  ∀ (uri : Uri) (doc : TextDocument), ws.textDocuments.get? uri = some doc → doc.stored ≠ none

/-- A document whose text is in memory is changed without a look at the disk. -/
theorem applyChange_stored {doc : TextDocument} (h : doc.stored ≠ none) (disk disk' : Disk)
    (change : ContentChange) :
    doc.applyChange disk change = doc.applyChange disk' change ∧
      ∀ r, doc.applyChange disk change = .ok r → r.1.stored ≠ none := by
  obtain ⟨old, hold⟩ := Option.ne_none_iff_exists'.mp h
  have hsource : ∀ d : Disk, doc.source d = .ok old := by
    intro d
    rw [TextDocument.source, hold]
  unfold TextDocument.applyChange
  rw [hsource, hsource]
  refine ⟨rfl, ?_⟩
  intro r hr
  split at hr
  · cases hr
    exact Option.some_ne_none _
  · cases hr
    exact h
  · cases hr
    exact Option.some_ne_none _
  · cases hr
    exact Option.some_ne_none _

namespace Stored

variable {ws : Workspace}

theorem congr (h : Stored ws) {ws' : Workspace} (heq : ws'.textDocuments = ws.textDocuments) :
    Stored ws' := by
  intro uri doc hdoc
  rw [heq] at hdoc
  exact h uri doc hdoc

theorem set (h : Stored ws) {ws' : Workspace} {uri : Uri} {doc : TextDocument}
    (hdoc : doc.stored ≠ none) (heq : ws'.textDocuments = ws.textDocuments.set uri doc) :
    Stored ws' := by
  intro uri' doc' hdoc'
  rw [heq, Lib.Dict.get?_set] at hdoc'
  split at hdoc'
  · cases hdoc'
    exact hdoc
  · exact h uri' doc' hdoc'

theorem addFolders (h : Stored ws) (folders : List WorkspaceFolder) :
    Stored (folders.foldl Workspace.addFolder ws) := by
  induction folders generalizing ws with
  | nil => exact h
  | cons folder folders ih =>
    refine ih ?_
    exact h.congr rfl

theorem new (syncKind : SyncKind) (folders : List WorkspaceFolder) (encoding : Encoding) :
    Stored (Workspace.new syncKind folders encoding) := by
  refine addFolders ?_ folders
  intro uri doc hdoc
  cases hdoc

theorem putTextDocument (h : Stored ws) (item : TextDocumentItem) (notebookUri : Option Uri) :
    Stored (ws.putTextDocument item notebookUri) := by
  have hdocs : (ws.putTextDocument item notebookUri).textDocuments = ws.textDocuments.set item.uri
      (ws.createTextDocument item.uri item.text item.version item.languageId) := by
    unfold Workspace.putTextDocument
    cases notebookUri with
    | none => rfl
    | some uri =>
      dsimp only
      split
      · rfl
      · rfl
  refine h.set ?_ hdocs
  exact Option.some_ne_none item.text

theorem putTextDocuments (h : Stored ws) (items : List TextDocumentItem) (notebookUri : Option Uri) :
    Stored (items.foldl (fun ws cell => ws.putTextDocument cell notebookUri) ws) := by
  induction items generalizing ws with
  | nil => exact h
  | cons item items ih => exact ih (h.putTextDocument item notebookUri)

theorem removeTextDocument (h : Stored ws) (uri : Uri) : Stored (ws.removeTextDocument uri) := by
  intro uri' doc hdoc
  rw [Workspace.removeTextDocument, Lib.Dict.get?_pop] at hdoc
  split at hdoc
  · cases hdoc
  · exact h uri' doc hdoc

theorem removeTextDocuments (h : Stored ws) (uris : List Uri) :
    Stored (uris.foldl Workspace.removeTextDocument ws) := by
  induction uris generalizing ws with
  | nil => exact h
  | cons uri uris ih => exact ih (h.removeTextDocument uri)

theorem updateCellStructure (h : Stored ws) (uri : Uri) (notebook : NotebookDocument)
    (change : CellChangeStructure) : Stored (ws.updateCellStructure uri notebook change) := by
  have hset : Stored (ws.setNotebook uri
      { notebook with cells := Workspace.spliceCells notebook.cells change.array }) := h.congr rfl
  exact (hset.putTextDocuments _ _).removeTextDocuments _

theorem changeFolders (h : Stored ws) (added removed : List WorkspaceFolder) :
    Stored (WorkspaceMessage.changeFolders ws added removed) := by
  induction ws, added, removed using WorkspaceMessage.changeFolders.induct with
  | case1 ws =>
    rw [WorkspaceMessage.changeFolders]
    exact h
  | case2 ws add added ih =>
    rw [WorkspaceMessage.changeFolders]
    exact ih (h.congr rfl)
  | case3 ws remove removed ih =>
    rw [WorkspaceMessage.changeFolders]
    exact ih (h.congr rfl)
  | case4 ws add added remove removed ih =>
    rw [WorkspaceMessage.changeFolders]
    exact ih (h.congr rfl)

variable (disk disk' : Disk)

theorem updateTextDocument (h : Stored ws) (textDoc : VersionedTextDocumentIdentifier)
    (change : ContentChange) :
    ws.updateTextDocument disk textDoc change = ws.updateTextDocument disk' textDoc change ∧
      ∀ r, ws.updateTextDocument disk textDoc change = .ok r → Stored r.1 := by
  unfold Workspace.updateTextDocument
  cases hdoc : ws.textDocuments.get? textDoc.uri with
  | none => exact ⟨rfl, nofun⟩
  | some doc =>
    obtain ⟨heq, hstored⟩ := applyChange_stored (h textDoc.uri doc hdoc) disk disk' change
    dsimp only
    rw [← heq]
    refine ⟨rfl, ?_⟩
    intro r hr
    cases happly : doc.applyChange disk change with
    | error e =>
      rw [happly] at hr
      cases hr
    | ok s =>
      rw [happly] at hr
      cases hr
      refine h.set ?_ rfl
      exact hstored s happly

theorem updateTextDocuments (h : Stored ws) (textDoc : VersionedTextDocumentIdentifier)
    (changes : List ContentChange) :
    Workspace.updateTextDocuments disk textDoc ws changes =
        Workspace.updateTextDocuments disk' textDoc ws changes ∧
      Stored (Workspace.updateTextDocuments disk textDoc ws changes).1 := by
  induction changes generalizing ws with
  | nil => exact ⟨rfl, h⟩
  | cons change changes ih =>
    obtain ⟨heq, hstored⟩ := h.updateTextDocument disk disk' textDoc change
    simp only [Workspace.updateTextDocuments, ← heq]
    cases hup : ws.updateTextDocument disk textDoc change with
    | error e => exact ⟨rfl, h⟩
    | ok r =>
      obtain ⟨hrest, hdone⟩ := ih (hstored r hup)
      dsimp only
      rw [← hrest]
      exact ⟨rfl, hdone⟩

theorem updateCellContents (h : Stored ws) (contents : List CellContentChange) :
    Workspace.updateCellContents disk ws contents = Workspace.updateCellContents disk' ws contents ∧
      Stored (Workspace.updateCellContents disk ws contents).1 := by
  induction contents generalizing ws with
  | nil => exact ⟨rfl, h⟩
  | cons content contents ih =>
    obtain ⟨heq, hstored⟩ := h.updateTextDocuments disk disk' content.document content.changes
    simp only [Workspace.updateCellContents, ← heq]
    split
    · rename_i hup
      rw [hup] at hstored
      exact ⟨rfl, hstored⟩
    · rename_i hup
      rw [hup] at hstored
      exact ih hstored

theorem updateNotebookDocument (h : Stored ws) (params : DidChangeNotebookParams) :
    ws.updateNotebookDocument disk params = ws.updateNotebookDocument disk' params ∧
      Stored (ws.updateNotebookDocument disk params).1 := by
  unfold Workspace.updateNotebookDocument
  cases ws.notebookDocuments.get? params.uri with
  | none => exact ⟨rfl, h⟩
  | some notebook =>
    dsimp only
    cases params.cells with
    | none => exact ⟨rfl, h.congr rfl⟩
    | some changes =>
      refine updateCellContents disk disk' ?_ _
      cases changes.cellStructure with
      | none => exact h.congr rfl
      | some change =>
        refine updateCellStructure ?_ _ _ _
        exact h.congr rfl

/-- No built-in update depends on the disk. -/
theorem update (h : Stored ws) (message : WorkspaceMessage) :
    message.update disk ws = message.update disk' ws ∧ Stored (message.update disk ws).1 := by
  cases message with
  | text notification =>
    cases notification with
    | didOpen item => exact ⟨rfl, h.putTextDocument item none⟩
    | didChange textDoc changes =>
      obtain ⟨heq, hstored⟩ := h.updateTextDocuments disk disk' textDoc changes
      simp only [WorkspaceMessage.update, TextNotification.update, ← heq]
      exact ⟨trivial, hstored⟩
    | didClose uri => exact ⟨rfl, h.removeTextDocument uri⟩
  | notebookDidOpen notebook cells =>
    have hset : Stored { ws with
        notebookDocuments := ws.notebookDocuments.set notebook.uri notebook } := h.congr rfl
    exact ⟨rfl, hset.putTextDocuments cells (some notebook.uri)⟩
  | notebookDidChange params => exact h.updateNotebookDocument disk disk' params
  | notebookDidClose uri cells =>
    have hpop : Stored { ws with notebookDocuments := ws.notebookDocuments.pop uri } := h.congr rfl
    exact ⟨rfl, hpop.removeTextDocuments cells⟩
  | didChangeFolders added removed => exact ⟨rfl, h.changeFolders _ _⟩

end Stored

end Pygls
