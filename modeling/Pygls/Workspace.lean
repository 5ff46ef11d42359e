import Pygls.Json
import Pygls.Lib.Dict
import Pygls.TextDocument

/-!
# The workspace

`workspace.py`: open text documents, open notebooks, the map from cell documents
to their notebook, and the workspace folders. An update that raises half way
leaves what it has already written, so it returns the workspace next to the
exception. Parameters of the updates are the fields the code reads.
-/

namespace Pygls

open Lib

set_option autoImplicit false

/-- An `LSPObject`; an empty one is falsy. -/
abbrev Metadata := List (Str × Json)

inductive NotebookCellKind where
  | markup
  | code
  deriving DecidableEq

structure ExecutionSummary where
  executionOrder : Nat
  success : Option Bool
  deriving DecidableEq

structure NotebookCell where
  kind : NotebookCellKind
  document : Uri
  metadata : Option Metadata
  executionSummary : Option ExecutionSummary

structure NotebookDocument where
  uri : Uri
  notebookType : Str
  version : Int
  cells : List NotebookCell
  metadata : Option Metadata

structure WorkspaceFolder where
  uri : Uri
  name : Str
  deriving DecidableEq

structure TextDocumentItem where
  uri : Uri
  languageId : Str
  version : Int
  text : Str
  deriving DecidableEq

structure VersionedTextDocumentIdentifier where
  uri : Uri
  version : Int
  deriving DecidableEq

structure NotebookCellArrayChange where
  start : Nat
  deleteCount : Nat
  cells : Option (List NotebookCell)

structure CellChangeStructure where
  array : NotebookCellArrayChange
  didOpen : Option (List TextDocumentItem)
  didClose : Option (List Uri)

structure CellContentChange where
  document : VersionedTextDocumentIdentifier
  changes : List ContentChange

structure CellChanges where
  cellStructure : Option CellChangeStructure
  data : Option (List NotebookCell)
  textContent : Option (List CellContentChange)

structure DidChangeNotebookParams where
  uri : Uri
  version : Int
  metadata : Option Metadata
  cells : Option CellChanges

structure Workspace where
  syncKind : SyncKind
  encoding : Encoding
  textDocuments : Dict Uri TextDocument
  notebookDocuments : Dict Uri NotebookDocument
  cellInNotebook : Dict Uri Uri
  folders : Dict Uri WorkspaceFolder

namespace Workspace

def addFolder (ws : Workspace) (folder : WorkspaceFolder) : Workspace :=
  { ws with folders := ws.folders.set folder.uri folder }

def removeFolder (ws : Workspace) (folderUri : Uri) : Workspace :=
  { ws with folders := ws.folders.pop folderUri }

/-- `Workspace(...)` -/
def new (syncKind : SyncKind) (workspaceFolders : List WorkspaceFolder) (encoding : Encoding) :
    Workspace :=
  workspaceFolders.foldl addFolder ⟨syncKind, encoding, .empty, .empty, .empty, .empty⟩

/-- The URI is one that `urllib` can split: for some other texts (`http://[x`) it raises
`ValueError`. -/
def createTextDocument (ws : Workspace) (docUri : Uri) (source : Option Str)
    (version : Option Int) (languageId : Option Str) : TextDocument :=
  ⟨docUri, source, version, languageId, ws.syncKind, ws.encoding⟩

def getNotebookDocument (ws : Workspace) (notebookUri cellUri : Option Uri) :
    Option NotebookDocument :=
  match notebookUri, cellUri with
  | some uri, _ => ws.notebookDocuments.get? uri
  | none, some uri => (ws.cellInNotebook.get? uri).bind ws.notebookDocuments.get?
  | none, none => none

def getTextDocument (ws : Workspace) (docUri : Uri) : TextDocument :=
  (ws.textDocuments.get? docUri).getD (ws.createTextDocument docUri none none none)

/-- An empty notebook URI is falsy, so it registers no cell. -/
def putTextDocument (ws : Workspace) (item : TextDocumentItem) (notebookUri : Option Uri) :
    Workspace :=
  let doc := ws.createTextDocument item.uri item.text item.version item.languageId
  let ws := { ws with textDocuments := ws.textDocuments.set item.uri doc }
  match notebookUri with
  | some uri =>
    if uri = [] then ws else { ws with cellInNotebook := ws.cellInNotebook.set item.uri uri }
  | none => ws

def putNotebookDocument (ws : Workspace) (notebook : NotebookDocument)
    (cellTextDocuments : List TextDocumentItem) : Workspace :=
  cellTextDocuments.foldl (fun ws cell => ws.putTextDocument cell (some notebook.uri))
    { ws with notebookDocuments := ws.notebookDocuments.set notebook.uri notebook }

def removeTextDocument (ws : Workspace) (docUri : Uri) : Workspace :=
  { ws with
    textDocuments := ws.textDocuments.pop docUri
    cellInNotebook := ws.cellInNotebook.pop docUri }

def removeNotebookDocument (ws : Workspace) (notebookUri : Uri)
    (cellTextDocuments : List Uri) : Workspace :=
  cellTextDocuments.foldl removeTextDocument
    { ws with notebookDocuments := ws.notebookDocuments.pop notebookUri }

/-- The workspace, and the change object as the position codec leaves it. -/
def updateTextDocument (disk : Disk) (ws : Workspace) (textDoc : VersionedTextDocumentIdentifier)
    (change : ContentChange) : Except StoreError (Workspace × ContentChange) :=
  match ws.textDocuments.get? textDoc.uri with
  | none => .error (.keyError textDoc.uri)
  | some doc =>
    (doc.applyChange disk change).map fun r =>
      ({ ws with
          textDocuments := ws.textDocuments.set textDoc.uri { r.1 with version := textDoc.version } },
        r.2)

/-- `for change in changes: update_text_document(text_doc, change)`, up to the first exception. -/
def updateTextDocuments (disk : Disk) (textDoc : VersionedTextDocumentIdentifier) :
    Workspace → List ContentChange → Workspace × List ContentChange × Option StoreError
  | ws, [] => (ws, [], none)
  | ws, change :: rest =>
    match ws.updateTextDocument disk textDoc change with
    | .error e => (ws, change :: rest, some e)
    | .ok (ws, change) =>
      let r := updateTextDocuments disk textDoc ws rest
      (r.1, change :: r.2.1, r.2.2)

def updateCellContents (disk : Disk) :
    Workspace → List CellContentChange → Workspace × Option StoreError
  | ws, [] => (ws, none)
  | ws, text :: rest =>
    match updateTextDocuments disk text.document ws text.changes with
    | (ws, _, some e) => (ws, some e)
    | (ws, _, none) => updateCellContents disk ws rest

/-- Write the data to the last cell with its document: later cells win in `nb_cells`. -/
def writeCellData (cells : List NotebookCell) (data : NotebookCell) : List NotebookCell :=
  match cells with
  | [] => []
  | cell :: rest =>
    if cell.document = data.document ∧ ∀ c ∈ rest, c.document ≠ data.document then
      { cell with
        kind := data.kind
        metadata := data.metadata
        executionSummary := data.executionSummary } :: rest
    else cell :: writeCellData rest data

def spliceCells (cells : List NotebookCell) (array : NotebookCellArrayChange) :
    List NotebookCell :=
  cells.take array.start ++ array.cells.getD [] ++ cells.drop (array.start + array.deleteCount)

def setNotebook (ws : Workspace) (uri : Uri) (notebook : NotebookDocument) : Workspace :=
  { ws with notebookDocuments := ws.notebookDocuments.set uri notebook }

/-- The `structure` part of a notebook change: splice, then open, then close. -/
def updateCellStructure (ws : Workspace) (uri : Uri) (notebook : NotebookDocument)
    (change : CellChangeStructure) : Workspace :=
  let ws := ws.setNotebook uri { notebook with cells := spliceCells notebook.cells change.array }
  let ws := (change.didOpen.getD []).foldl
    (fun ws cell => ws.putTextDocument cell (some uri)) ws
  (change.didClose.getD []).foldl removeTextDocument ws

/-- `if params.change.metadata`: absent and empty metadata are both falsy. -/
def writeMetadata (notebook : NotebookDocument) (metadata : Option Metadata) : NotebookDocument :=
  match metadata with
  | some (entry :: rest) => { notebook with metadata := some (entry :: rest) }
  | _ => notebook

def updateNotebookDocument (disk : Disk) (ws : Workspace) (params : DidChangeNotebookParams) :
    Workspace × Option StoreError :=
  match ws.notebookDocuments.get? params.uri with
  | none => (ws, some (.keyError params.uri))
  | some notebook =>
    let notebook := writeMetadata { notebook with version := params.version } params.metadata
    let ws := ws.setNotebook params.uri notebook
    match params.cells with
    | none => (ws, none)
    | some changes =>
      let notebook :=
        { notebook with cells := (changes.data.getD []).foldl writeCellData notebook.cells }
      let ws := ws.setNotebook params.uri notebook
      let ws := match changes.cellStructure with
        | none => ws
        | some change => ws.updateCellStructure params.uri notebook change
      updateCellContents disk ws (changes.textContent.getD [])

end Workspace

end Pygls
