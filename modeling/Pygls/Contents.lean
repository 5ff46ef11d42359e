import Pygls.Lib.Latest
import Pygls.Notebooks

/-!
# The parts of a notebook change

`update_notebook_document` summed up part by part: what becomes of the notebook,
of the cell map and of the documents up to the text content, and what the text
content makes of the documents that are open then. The loops over the text
content stop at the first document that is not open.
-/

namespace Pygls

open Lib

set_option autoImplicit false

namespace DidChangeNotebookParams

def data (params : DidChangeNotebookParams) : List NotebookCell :=
  (params.cells.bind CellChanges.data).getD []

def array (params : DidChangeNotebookParams) : Option NotebookCellArrayChange :=
  (params.cells.bind CellChanges.cellStructure).map CellChangeStructure.array

def didOpen (params : DidChangeNotebookParams) : List TextDocumentItem :=
  ((params.cells.bind CellChanges.cellStructure).bind CellChangeStructure.didOpen).getD []

def didClose (params : DidChangeNotebookParams) : List Uri :=
  ((params.cells.bind CellChanges.cellStructure).bind CellChangeStructure.didClose).getD []

def textContent (params : DidChangeNotebookParams) : List CellContentChange :=
  (params.cells.bind CellChanges.textContent).getD []

end DidChangeNotebookParams

namespace Workspace

abbrev Documents := Uri → Option TextDocument

def documents (ws : Workspace) : Documents := ws.textDocuments.get?

/-- The changes of one entry, each followed by the entry's version. -/
def edit (disk : Disk) (version : Int) : TextDocument → List ContentChange → TextDocument
  | doc, [] => doc
  | doc, change :: rest =>
    match doc.applyChange disk change with
    | .error _ => doc
    | .ok r => edit disk version { r.1 with version := version } rest

/-- The entries before the first one that raises: one with a change for a document that is not
open. -/
def applied (docs : Documents) (contents : List CellContentChange) : List CellContentChange :=
  contents.takeWhile fun entry => entry.changes.isEmpty || (docs entry.document.uri).isSome

/-- What the entries make of the document of a URI. -/
def editAll (disk : Disk) (uri : Uri) (contents : List CellContentChange) (doc : TextDocument) :
    TextDocument :=
  match contents with
  | [] => doc
  | entry :: rest =>
    editAll disk uri rest
      (if entry.document.uri = uri then edit disk entry.document.version doc entry.changes
        else doc)

def changedCells (cells : List NotebookCell) (params : DidChangeNotebookParams) :
    List NotebookCell :=
  params.array.elim (params.data.foldl writeCellData cells)
    (spliceCells (params.data.foldl writeCellData cells))

def changedNotebook (notebook : NotebookDocument) (params : DidChangeNotebookParams) :
    NotebookDocument :=
  { writeMetadata notebook params.metadata with
    version := params.version
    cells := changedCells notebook.cells params }

/-- The cell map when the text content of a notebook change is reached. -/
def cellMapAt (ws : Workspace) (params : DidChangeNotebookParams) (uri : Uri) : Option Uri :=
  if uri ∈ params.didClose then none
  else if uri ∈ params.didOpen.map TextDocumentItem.uri ∧ params.uri ≠ [] then some params.uri
  else ws.cellInNotebook.get? uri

/-- The documents when the text content of a notebook change is reached. -/
def documentsAt (ws : Workspace) (params : DidChangeNotebookParams) : Documents := fun uri =>
  if uri ∈ params.didClose then none
  else (latest uri (params.didOpen.map fun item =>
    (item.uri, ws.createTextDocument item.uri item.text item.version item.languageId))).or
      (ws.documents uri)

variable {disk : Disk} {ws : Workspace}

theorem documents_putTextDocument (ws : Workspace) (item : TextDocumentItem)
    (notebookUri : Option Uri) :
    (ws.putTextDocument item notebookUri).textDocuments = ws.textDocuments.set item.uri
      (ws.createTextDocument item.uri item.text item.version item.languageId) := by
  unfold putTextDocument
  cases notebookUri with
  | none => rfl
  | some uri =>
    dsimp only
    split
    · rfl
    · rfl

theorem createTextDocument_putTextDocument (ws : Workspace) (item : TextDocumentItem)
    (notebookUri : Option Uri) :
    (ws.putTextDocument item notebookUri).createTextDocument = ws.createTextDocument := by
  unfold putTextDocument
  cases notebookUri with
  | none => rfl
  | some uri =>
    dsimp only
    split
    · rfl
    · rfl

theorem documents_putTextDocuments (ws : Workspace) (items : List TextDocumentItem)
    (notebookUri : Option Uri) (uri : Uri) :
    (items.foldl (fun ws cell => ws.putTextDocument cell notebookUri) ws).documents uri =
      (latest uri (items.map fun item =>
        (item.uri, ws.createTextDocument item.uri item.text item.version item.languageId))).or
          (ws.documents uri) := by
  induction items generalizing ws with
  | nil => rfl
  | cons item items ih =>
    rw [List.foldl_cons, ih, createTextDocument_putTextDocument, List.map_cons, latest,
      Option.or_assoc, documents, documents_putTextDocument, Dict.get?_set]
    by_cases h : uri = item.uri
    · rw [if_pos h, if_pos h.symm, Option.some_or]
    · rw [if_neg h, if_neg (Ne.symm h), Option.none_or]
      rfl

theorem cells_putTextDocuments (ws : Workspace) (items : List TextDocumentItem)
    (notebookUri : Uri) :
    let ws' := items.foldl (fun ws item => ws.putTextDocument item (some notebookUri)) ws
    ws'.notebookDocuments = ws.notebookDocuments ∧
      ∀ uri, ws'.cellInNotebook.get? uri =
        if uri ∈ items.map TextDocumentItem.uri ∧ notebookUri ≠ [] then some notebookUri
        else ws.cellInNotebook.get? uri := by
  by_cases hne : notebookUri = []
  · rw [hne]
    induction items generalizing ws with
    | nil => exact ⟨rfl, fun uri => (if_neg fun h => h.2 rfl).symm⟩
    | cons item items ih =>
      obtain ⟨hnotebooks, hcells⟩ := ih (ws.putTextDocument item (some []))
      refine ⟨hnotebooks, ?_⟩
      intro uri
      rw [List.foldl_cons, hcells, if_neg fun h => h.2 rfl, if_neg fun h => h.2 rfl]
      rfl
  · obtain ⟨hnotebooks, hcells, -⟩ := Notebooks.foldl_putTextDocument hne items ws
    refine ⟨hnotebooks, ?_⟩
    intro uri
    rw [hcells]
    simp only [hne, ne_eq, not_false_eq_true, and_true]

theorem edit_stored {doc : TextDocument} (h : doc.stored ≠ none) (version : Int)
    (changes : List ContentChange) : (edit disk version doc changes).stored ≠ none := by
  induction changes generalizing doc with
  | nil => exact h
  | cons change rest ih =>
    rw [edit]
    split
    · exact h
    · rename_i r hr
      refine ih ?_
      exact (applyChange_stored h disk disk change).2 r hr

/-- A document whose text is in memory takes every change. -/
theorem applyChange_ok {doc : TextDocument} (h : doc.stored ≠ none) (disk : Disk)
    (change : ContentChange) : ∃ r, doc.applyChange disk change = .ok r := by
  obtain ⟨old, hold⟩ := Option.ne_none_iff_exists'.mp h
  have hsource : doc.source disk = .ok old := by rw [TextDocument.source, hold]
  unfold TextDocument.applyChange
  rw [hsource]
  split
  · exact ⟨_, rfl⟩
  · exact ⟨_, rfl⟩
  · exact ⟨_, rfl⟩
  · exact ⟨_, rfl⟩

/-- A document that is open takes all the changes of an entry. -/
theorem updateTextDocuments_open (disk : Disk) (h : Stored ws)
    {textDoc : VersionedTextDocumentIdentifier}
    {doc : TextDocument} (hdoc : ws.textDocuments.get? textDoc.uri = some doc)
    (changes : List ContentChange) :
    (updateTextDocuments disk textDoc ws changes).2.2 = none ∧
      ∀ uri, (updateTextDocuments disk textDoc ws changes).1.documents uri =
        if textDoc.uri = uri then some (edit disk textDoc.version doc changes)
        else ws.documents uri := by
  induction changes generalizing ws doc with
  | nil =>
    refine ⟨rfl, ?_⟩
    intro uri
    split
    · rename_i huri
      rw [← huri]
      exact hdoc
    · rfl
  | cons change rest ih =>
    have hstored := (h.updateTextDocument disk disk textDoc change).2
    obtain ⟨r, hr⟩ := applyChange_ok (h textDoc.uri doc hdoc) disk change
    have hup : ws.updateTextDocument disk textDoc change = .ok
        ({ ws with textDocuments :=
            ws.textDocuments.set textDoc.uri { r.1 with version := textDoc.version } }, r.2) := by
      rw [updateTextDocument, hdoc]
      dsimp only
      rw [hr]
      rfl
    obtain ⟨hnone, hdocs⟩ := ih (hstored _ hup) (Dict.get?_set_self _ _ _)
    rw [updateTextDocuments, hup]
    refine ⟨hnone, ?_⟩
    intro uri
    dsimp only
    rw [hdocs, edit, hr]
    split
    · rfl
    · rename_i hne
      exact Dict.get?_set_ne _ _ (Ne.symm hne)

theorem updateTextDocuments_closed (disk : Disk) {textDoc : VersionedTextDocumentIdentifier}
    (hdoc : ws.textDocuments.get? textDoc.uri = none) (changes : List ContentChange) :
    (updateTextDocuments disk textDoc ws changes).1 = ws ∧
      ((updateTextDocuments disk textDoc ws changes).2.2 = none ↔ changes = []) := by
  cases changes with
  | nil => exact ⟨rfl, iff_of_true rfl rfl⟩
  | cons change rest =>
    have hup : ws.updateTextDocument disk textDoc change = .error (.keyError textDoc.uri) := by
      rw [updateTextDocument, hdoc]
    rw [updateTextDocuments, hup]
    exact ⟨rfl, iff_of_false (Option.some_ne_none _) (List.cons_ne_nil _ _)⟩

theorem applied_congr {docs docs' : Documents} (h : ∀ uri, (docs uri).isSome = (docs' uri).isSome)
    (contents : List CellContentChange) : applied docs contents = applied docs' contents := by
  unfold applied
  congr 1
  funext entry
  rw [h]

theorem updateCellContents_cons (disk : Disk) (ws : Workspace) (entry : CellContentChange)
    (rest : List CellContentChange) :
    updateCellContents disk ws (entry :: rest) =
      let r := updateTextDocuments disk entry.document ws entry.changes
      match r.2.2 with
      | some e => (r.1, some e)
      | none => updateCellContents disk r.1 rest := by
  rw [updateCellContents]
  dsimp only
  split
  · rename_i hr
    rw [hr]
  · rename_i hr
    rw [hr]

theorem applied_cons {docs : Documents} {entry : CellContentChange}
    (h : entry.changes = [] ∨ (docs entry.document.uri).isSome = true)
    (rest : List CellContentChange) :
    applied docs (entry :: rest) = entry :: applied docs rest := by
  rw [applied, List.takeWhile_cons, if_pos]
  · rfl
  · rw [Bool.or_eq_true, List.isEmpty_iff]
    exact h

theorem applied_cons_raises {docs : Documents} {entry : CellContentChange}
    (hchanges : entry.changes ≠ []) (hclosed : docs entry.document.uri = none)
    (rest : List CellContentChange) : applied docs (entry :: rest) = [] := by
  rw [applied, List.takeWhile_cons, hclosed]
  simp [hchanges]

/-- An entry without changes, or for another document, leaves a document as it is. -/
theorem editAll_cons_other (disk : Disk) {uri : Uri} {entry : CellContentChange}
    (h : entry.changes = [] ∨ entry.document.uri ≠ uri) (rest : List CellContentChange)
    (doc : TextDocument) : editAll disk uri (entry :: rest) doc = editAll disk uri rest doc := by
  rw [editAll]
  rcases h with h | h
  · rw [h, edit, ite_self]
  · rw [if_neg h]

/-- The loop over the text content: what becomes of every document, and when it raises. -/
theorem updateCellContents_documents (disk : Disk) (h : Stored ws)
    (contents : List CellContentChange) :
    (∀ uri, (updateCellContents disk ws contents).1.documents uri =
      (ws.documents uri).map (editAll disk uri (applied ws.documents contents))) ∧
    ((updateCellContents disk ws contents).2 = none ↔
      applied ws.documents contents = contents) := by
  induction contents generalizing ws with
  | nil =>
    refine ⟨?_, iff_of_true rfl rfl⟩
    intro uri
    exact Option.map_id'.symm
  | cons entry rest ih =>
    have hkept := (h.updateTextDocuments disk disk entry.document entry.changes).2
    rw [updateCellContents_cons]
    cases hdoc : ws.textDocuments.get? entry.document.uri with
    | none =>
      obtain ⟨hsame, hraise⟩ := updateTextDocuments_closed disk hdoc entry.changes
      have hclosed : ws.documents entry.document.uri = none := hdoc
      dsimp only
      rw [hsame]
      cases he : (updateTextDocuments disk entry.document ws entry.changes).2.2 with
      | none =>
        have hchanges := hraise.mp he
        obtain ⟨hdocs, hnone⟩ := ih h
        rw [applied_cons (.inl hchanges)]
        refine ⟨?_, ?_⟩
        · intro uri
          rw [hdocs]
          refine congrArg (fun f => (ws.documents uri).map f) ?_
          funext doc
          exact (editAll_cons_other disk (.inl hchanges) _ doc).symm
        · rw [hnone, List.cons_inj_right]
      | some e =>
        have hchanges : entry.changes ≠ [] := by
          intro hnil
          rw [hraise.mpr hnil] at he
          cases he
        rw [applied_cons_raises hchanges hclosed]
        refine ⟨?_, iff_of_false (Option.some_ne_none e) (List.cons_ne_nil entry rest).symm⟩
        intro uri
        exact Option.map_id'.symm
    | some doc =>
      obtain ⟨hnone, hdocs⟩ := updateTextDocuments_open disk h hdoc entry.changes
      have hopen : ws.documents entry.document.uri = some doc := hdoc
      have happ : applied ws.documents (entry :: rest) = entry :: applied ws.documents rest :=
        applied_cons (.inr (Option.isSome_of_eq_some hopen)) rest
      have hsome : ∀ uri, ((updateTextDocuments disk entry.document ws entry.changes).1.documents
          uri).isSome = (ws.documents uri).isSome := by
        intro uri
        rw [hdocs]
        split
        · rename_i huri
          rw [← huri, hopen]
          rfl
        · rfl
      obtain ⟨hrest, hend⟩ := ih hkept
      dsimp only
      rw [hnone, happ, ← applied_congr hsome]
      refine ⟨?_, ?_⟩
      · intro uri
        rw [hrest, hdocs]
        by_cases huri : entry.document.uri = uri
        · rw [if_pos huri, ← huri, hopen, Option.map_some, Option.map_some, editAll, if_pos rfl]
        · rw [if_neg huri]
          refine congrArg (fun f => (ws.documents uri).map f) ?_
          funext doc'
          exact (editAll_cons_other disk (.inr huri) _ doc').symm
      · rw [hend, List.cons_inj_right]

theorem stored_documentsAt (h : Stored ws) (params : DidChangeNotebookParams) {ws' : Workspace}
    (hdocs : ∀ uri, ws'.documents uri = documentsAt ws params uri) : Stored ws' := by
  intro uri doc hdoc
  have hat : documentsAt ws params uri = some doc := (hdocs uri).symm.trans hdoc
  rw [documentsAt] at hat
  split at hat
  · cases hat
  · rw [latest_map uri TextDocumentItem.uri, Option.or_eq_some_iff] at hat
    rcases hat with hat | ⟨-, hat⟩
    · obtain ⟨item, -, rfl⟩ := Option.map_eq_some_iff.mp hat
      exact Option.some_ne_none item.text
    · exact h uri doc hat

theorem updateCellStructure_parts (ws : Workspace) (uri : Uri) (notebook : NotebookDocument)
    (change : CellChangeStructure) :
    let ws' := ws.updateCellStructure uri notebook change
    ws'.notebookDocuments = ws.notebookDocuments.set uri
        { notebook with cells := spliceCells notebook.cells change.array } ∧
      (∀ u, ws'.cellInNotebook.get? u =
        if u ∈ change.didClose.getD [] then none
        else if u ∈ (change.didOpen.getD []).map TextDocumentItem.uri ∧ uri ≠ [] then some uri
        else ws.cellInNotebook.get? u) ∧
      ∀ u, ws'.documents u =
        if u ∈ change.didClose.getD [] then none
        else (latest u ((change.didOpen.getD []).map fun item =>
          (item.uri, ws.createTextDocument item.uri item.text item.version item.languageId))).or
            (ws.documents u) := by
  intro ws'
  obtain ⟨hnotebooks, hcells, htexts⟩ := Notebooks.foldl_removeTextDocument
    (change.didClose.getD []) ((change.didOpen.getD []).foldl
      (fun ws cell => ws.putTextDocument cell (some uri)) (ws.setNotebook uri
        { notebook with cells := spliceCells notebook.cells change.array }))
  obtain ⟨hnotebooks', hcells'⟩ := cells_putTextDocuments (ws.setNotebook uri
    { notebook with cells := spliceCells notebook.cells change.array })
    (change.didOpen.getD []) uri
  refine ⟨hnotebooks.trans hnotebooks', ?_, ?_⟩
  · intro u
    exact (hcells u).trans (congrArg _ (hcells' u))
  · intro u
    exact (htexts u).trans (congrArg _ (documents_putTextDocuments _ _ _ u))

theorem writeMetadata_version (notebook : NotebookDocument) (version : Int)
    (metadata : Option Metadata) :
    writeMetadata { notebook with version := version } metadata =
      { writeMetadata notebook metadata with version := version } := by
  unfold writeMetadata
  split
  · rfl
  · rfl

theorem writeMetadata_cells (notebook : NotebookDocument) (metadata : Option Metadata) :
    (writeMetadata notebook metadata).cells = notebook.cells := by
  unfold writeMetadata
  split
  · rfl
  · rfl

/-- Up to the text content nothing is looked up but the notebook. -/
theorem updateNotebookDocument_contents (disk : Disk) {params : DidChangeNotebookParams}
    {notebook : NotebookDocument} (h : ws.notebookDocuments.get? params.uri = some notebook) :
    ∃ ws', ws.updateNotebookDocument disk params =
        updateCellContents disk ws' params.textContent ∧
      (∀ uri, ws'.notebookDocuments.get? uri =
        if uri = params.uri then some (changedNotebook notebook params)
        else ws.notebookDocuments.get? uri) ∧
      (∀ uri, ws'.cellInNotebook.get? uri = cellMapAt ws params uri) ∧
      ∀ uri, ws'.documents uri = documentsAt ws params uri := by
  obtain ⟨uri, version, metadata, cells⟩ := params
  rw [updateNotebookDocument, h, changedNotebook, changedCells,
    ← writeMetadata_cells notebook metadata]
  dsimp only
  rw [writeMetadata_version]
  rcases cells with _ | ⟨_ | change, data, textContent⟩
  · refine ⟨_, rfl, ?_, fun u => rfl, fun u => rfl⟩
    intro u
    exact Dict.get?_set _ _ _ _
  · refine ⟨_, rfl, ?_, fun u => rfl, fun u => rfl⟩
    intro u
    dsimp only [setNotebook]
    rw [Dict.get?_set, Dict.get?_set]
    split
    · rfl
    · rfl
  · obtain ⟨hnotebooks, hmap, hdocs⟩ := updateCellStructure_parts
      ((ws.setNotebook uri { writeMetadata notebook metadata with version := version }).setNotebook
        uri { writeMetadata notebook metadata with
          version := version
          cells := (data.getD []).foldl writeCellData (writeMetadata notebook metadata).cells }) uri
      { writeMetadata notebook metadata with
        version := version
        cells := (data.getD []).foldl writeCellData (writeMetadata notebook metadata).cells } change
    refine ⟨_, rfl, ?_, hmap, hdocs⟩
    intro u
    dsimp only at hnotebooks ⊢
    rw [hnotebooks]
    dsimp only [setNotebook]
    rw [Dict.get?_set, Dict.get?_set, Dict.get?_set]
    split
    · rfl
    · rfl

end Workspace

end Pygls
