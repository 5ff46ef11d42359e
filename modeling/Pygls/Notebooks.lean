import Mathlib.Logic.Function.Basic
import Pygls.Lib.Run
import Pygls.Updates

/-!
# Cells and their notebooks

A client keeps the cell documents of every notebook it has open. `Conforms` says
which notifications it may send; nothing in it looks at the server. The server
spreads the same knowledge over `_notebook_documents`, `_cell_in_notebook` and
`_text_documents`, and `Member` says how the four hang together.
-/

namespace Pygls.Notebooks

open Lib Workspace

set_option autoImplicit false

abbrev Client := Uri → Option (List Uri)

namespace Client

def cells (client : Client) (uri : Uri) : List Uri := (client uri).getD []

def isCell (client : Client) (u : Uri) : Prop := ∃ uri, u ∈ client.cells uri

/-- The cells of a notebook after a change of its array. -/
def splice (cells : List Uri) (array : NotebookCellArrayChange) : List Uri :=
  cells.take array.start ++ (array.cells.getD []).map NotebookCell.document ++
    cells.drop (array.start + array.deleteCount)

def cellsAfter (cells : List Uri) (params : DidChangeNotebookParams) : List Uri :=
  match params.cells.bind CellChanges.cellStructure with
  | none => cells
  | some change => splice cells change.array

def after (client : Client) : WorkspaceMessage → Client
  | .text _ => client
  | .notebookDidOpen notebook _ =>
    Function.update client notebook.uri (some (notebook.cells.map NotebookCell.document))
  | .notebookDidChange params =>
    Function.update client params.uri ((client params.uri).map fun cells => cellsAfter cells params)
  | .notebookDidClose uri _ => Function.update client uri none
  | .didChangeFolders _ _ => client

theorem update_cellsAfter {client : Client} {params : DidChangeNotebookParams} {cells : List Uri}
    (hopen : client params.uri = some cells)
    (hnone : params.cells.bind CellChanges.cellStructure = none) :
    Function.update client params.uri (some (cellsAfter cells params)) = client := by
  have hkeep : cellsAfter cells params = cells := by rw [cellsAfter, hnone]
  rw [hkeep, ← hopen]
  exact Function.update_eq_self params.uri client

end Client

/-- A change of the array opens exactly the cells that enter it, which no other notebook
has, and closes exactly those that leave it. -/
structure ConformsStructure (client : Client) (cells : List Uri) (change : CellChangeStructure) :
    Prop where
  didOpen : ∀ u, u ∈ (change.didOpen.getD []).map TextDocumentItem.uri ↔
    u ∈ Client.splice cells change.array ∧ u ∉ cells
  didClose : ∀ u, u ∈ change.didClose.getD [] ↔ u ∈ cells ∧ u ∉ Client.splice cells change.array
  entering : ∀ u, u ∈ Client.splice cells change.array → u ∉ cells → ¬ client.isCell u

/-- What a client may send. Plain documents are not cells; a notebook is opened once and
with one document for each cell. -/
def Conforms (client : Client) : WorkspaceMessage → Prop
  | .text notification => ¬ client.isCell notification.uri
  | .notebookDidOpen notebook items =>
    notebook.uri ≠ [] ∧ client notebook.uri = none ∧
      (items.map TextDocumentItem.uri).Perm (notebook.cells.map NotebookCell.document) ∧
      ∀ cell ∈ notebook.cells, ¬ client.isCell cell.document
  | .notebookDidChange params =>
    ∃ cells, client params.uri = some cells ∧
      (∀ change, params.cells.bind CellChanges.cellStructure = some change →
        ConformsStructure client cells change) ∧
      ∀ contents, params.cells.bind CellChanges.textContent = some contents →
        ∀ content ∈ contents, content.document.uri ∈ Client.cellsAfter cells params
  | .notebookDidClose uri uris => ∃ cells, client uri = some cells ∧ ∀ u, u ∈ uris ↔ u ∈ cells
  | .didChangeFolders _ _ => True

/-- Client and server take the same notification. -/
def step (disk : Disk) (p : Client × Workspace) (m : WorkspaceMessage) :
    Option (Client × Workspace) :=
  some (p.1.after m, (m.update disk p.2).1)

structure Member (client : Client) (ws : Workspace) : Prop where
  notebooks : ∀ uri, (ws.notebookDocuments.get? uri).map
    (fun notebook => notebook.cells.map NotebookCell.document) = client uri
  nonempty : ∀ uri, client uri ≠ none → uri ≠ []
  mapped : ∀ u uri, ws.cellInNotebook.get? u = some uri ↔ u ∈ client.cells uri
  present : ∀ u, client.isCell u → (ws.textDocuments.get? u).isSome = true

/-- The parts of the workspace that text edits leave alone. -/
structure SameCells (ws ws' : Workspace) : Prop where
  notebooks : ws'.notebookDocuments = ws.notebookDocuments
  cells : ws'.cellInNotebook = ws.cellInNotebook
  texts : ∀ u, (ws.textDocuments.get? u).isSome = true → (ws'.textDocuments.get? u).isSome = true

namespace SameCells

theorem refl (ws : Workspace) : SameCells ws ws := ⟨rfl, rfl, fun _ h => h⟩

theorem trans {ws ws' ws'' : Workspace} (h : SameCells ws ws') (h' : SameCells ws' ws'') :
    SameCells ws ws'' :=
  ⟨h'.notebooks.trans h.notebooks, h'.cells.trans h.cells, fun u hu => h'.texts u (h.texts u hu)⟩

end SameCells

theorem updateTextDocument_same {disk : Disk} {ws ws' : Workspace}
    {textDoc : VersionedTextDocumentIdentifier} {change change' : ContentChange}
    (h : ws.updateTextDocument disk textDoc change = .ok (ws', change')) : SameCells ws ws' := by
  unfold updateTextDocument at h
  split at h
  · cases h
  · rename_i doc hdoc
    cases hr : doc.applyChange disk change with
    | error e =>
      rw [hr] at h
      cases h
    | ok r =>
      rw [hr] at h
      cases h
      refine ⟨rfl, rfl, ?_⟩
      intro u hu
      rw [Dict.get?_set]
      split
      · rfl
      · exact hu

theorem updateTextDocuments_same (disk : Disk) (textDoc : VersionedTextDocumentIdentifier)
    (ws : Workspace) (changes : List ContentChange) :
    SameCells ws (updateTextDocuments disk textDoc ws changes).1 := by
  induction changes generalizing ws with
  | nil => exact .refl ws
  | cons change changes ih =>
    rw [updateTextDocuments]
    cases hr : ws.updateTextDocument disk textDoc change with
    | error e => exact .refl ws
    | ok r => exact (updateTextDocument_same hr).trans (ih r.1)

theorem updateCellContents_same (disk : Disk) (ws : Workspace) (contents : List CellContentChange) :
    SameCells ws (updateCellContents disk ws contents).1 := by
  induction contents generalizing ws with
  | nil => exact .refl ws
  | cons content contents ih =>
    have hsame := updateTextDocuments_same disk content.document ws content.changes
    rw [updateCellContents]
    split
    · rename_i ws' changes e heq
      rw [heq] at hsame
      exact hsame
    · rename_i ws' changes heq
      rw [heq] at hsame
      exact hsame.trans (ih ws')

theorem changeFolders_same (ws : Workspace) (added removed : List WorkspaceFolder) :
    SameCells ws (WorkspaceMessage.changeFolders ws added removed) := by
  induction ws, added, removed using WorkspaceMessage.changeFolders.induct with
  | case1 ws =>
    rw [WorkspaceMessage.changeFolders]
    exact .refl ws
  | case2 ws add added ih =>
    rw [WorkspaceMessage.changeFolders]
    exact ⟨ih.notebooks, ih.cells, ih.texts⟩
  | case3 ws remove removed ih =>
    rw [WorkspaceMessage.changeFolders]
    exact ⟨ih.notebooks, ih.cells, ih.texts⟩
  | case4 ws add added remove removed ih =>
    rw [WorkspaceMessage.changeFolders]
    exact ⟨ih.notebooks, ih.cells, ih.texts⟩

theorem foldl_addFolder_same (folders : List WorkspaceFolder) (ws : Workspace) :
    SameCells ws (folders.foldl addFolder ws) := by
  induction folders generalizing ws with
  | nil => exact .refl ws
  | cons folder folders ih =>
    have hrest := ih (ws.addFolder folder)
    exact ⟨hrest.notebooks, hrest.cells, hrest.texts⟩

/-- What opening the documents of a notebook's cells does. -/
theorem foldl_putTextDocument {uri : Uri} (huri : uri ≠ []) (items : List TextDocumentItem)
    (ws : Workspace) :
    let ws' := items.foldl (fun ws item => ws.putTextDocument item (some uri)) ws
    ws'.notebookDocuments = ws.notebookDocuments ∧
      (∀ u, ws'.cellInNotebook.get? u =
        if u ∈ items.map TextDocumentItem.uri then some uri else ws.cellInNotebook.get? u) ∧
      ∀ u, u ∈ items.map TextDocumentItem.uri ∨ (ws.textDocuments.get? u).isSome = true →
        (ws'.textDocuments.get? u).isSome = true := by
  induction items generalizing ws with
  | nil => exact ⟨rfl, fun u => rfl, fun u hu => hu.resolve_left List.not_mem_nil⟩
  | cons item items ih =>
    obtain ⟨hnotebooks, hcells, htexts⟩ := ih (ws.putTextDocument item (some uri))
    simp only [putTextDocument, if_neg huri] at hnotebooks hcells htexts
    simp only [List.foldl_cons, putTextDocument, if_neg huri]
    refine ⟨hnotebooks, ?_, ?_⟩
    · intro u
      rw [hcells u, Dict.get?_set]
      by_cases hu : u = item.uri
      · simp [hu]
      · simp [hu]
    · intro u hu
      apply htexts u
      rw [Dict.get?_set]
      split
      · exact Or.inr rfl
      · rename_i hne
        simpa [hne] using hu

theorem foldl_removeTextDocument (uris : List Uri) (ws : Workspace) :
    let ws' := uris.foldl removeTextDocument ws
    ws'.notebookDocuments = ws.notebookDocuments ∧
      (∀ u, ws'.cellInNotebook.get? u = if u ∈ uris then none else ws.cellInNotebook.get? u) ∧
      ∀ u, ws'.textDocuments.get? u = if u ∈ uris then none else ws.textDocuments.get? u := by
  induction uris generalizing ws with
  | nil => exact ⟨rfl, fun u => rfl, fun u => rfl⟩
  | cons uri uris ih =>
    obtain ⟨hnotebooks, hcells, htexts⟩ := ih (ws.removeTextDocument uri)
    refine ⟨hnotebooks, ?_, ?_⟩
    · intro u
      rw [List.foldl_cons, hcells u]
      simp only [removeTextDocument, Dict.get?_pop]
      by_cases hu : u = uri
      · simp [hu]
      · simp [hu]
    · intro u
      rw [List.foldl_cons, htexts u]
      simp only [removeTextDocument, Dict.get?_pop]
      by_cases hu : u = uri
      · simp [hu]
      · simp [hu]

/-- Cell data never moves a cell or changes its document. -/
theorem documents_writeCellData (cells : List NotebookCell) (data : NotebookCell) :
    (writeCellData cells data).map NotebookCell.document = cells.map NotebookCell.document := by
  induction cells with
  | nil => rfl
  | cons cell cells ih =>
    rw [writeCellData]
    split
    · rfl
    · rw [List.map_cons, List.map_cons, ih]

theorem documents_foldl_writeCellData (data cells : List NotebookCell) :
    (data.foldl writeCellData cells).map NotebookCell.document =
      cells.map NotebookCell.document := by
  induction data generalizing cells with
  | nil => rfl
  | cons d data ih => rw [List.foldl_cons, ih, documents_writeCellData]

theorem documents_spliceCells (cells : List NotebookCell) (array : NotebookCellArrayChange) :
    (spliceCells cells array).map NotebookCell.document =
      Client.splice (cells.map NotebookCell.document) array := by
  simp [spliceCells, Client.splice, List.map_take, List.map_drop]

namespace Member

variable {client : Client} {ws ws' : Workspace}

theorem congr (h : Member client ws) (hsame : SameCells ws ws') : Member client ws' := by
  constructor
  case notebooks =>
    rw [hsame.notebooks]
    exact h.notebooks
  case nonempty => exact h.nonempty
  case mapped =>
    rw [hsame.cells]
    exact h.mapped
  case present =>
    intro u hu
    exact hsame.texts u (h.present u hu)

theorem cells_unique (h : Member client ws) {u uri uri' : Uri} (hu : u ∈ client.cells uri)
    (hu' : u ∈ client.cells uri') : uri = uri' := by
  have heq := (h.mapped u uri).mpr hu
  rw [(h.mapped u uri').mpr hu'] at heq
  exact (Option.some.inj heq).symm

/-- The cells of one notebook are replaced: those that enter are mapped to it and have a
document, those that leave lose both. Opening and closing are the cases without old or
new cells. -/
theorem replace (h : Member client ws) {uri : Uri} (huri : uri ≠ []) {new : Option (List Uri)}
    (hnotebooks : ∀ v, (ws'.notebookDocuments.get? v).map
      (fun notebook => notebook.cells.map NotebookCell.document) = Function.update client uri new v)
    (hcells : ∀ u, ws'.cellInNotebook.get? u =
      if u ∈ client.cells uri ∧ u ∉ new.getD [] then none
      else if u ∈ new.getD [] ∧ u ∉ client.cells uri then some uri
      else ws.cellInNotebook.get? u)
    (htexts : ∀ u, ¬ (u ∈ client.cells uri ∧ u ∉ new.getD []) →
      (u ∈ new.getD [] ∧ u ∉ client.cells uri) ∨ (ws.textDocuments.get? u).isSome = true →
        (ws'.textDocuments.get? u).isSome = true)
    (hentering : ∀ u, u ∈ new.getD [] → u ∉ client.cells uri → ¬ client.isCell u) :
    Member (Function.update client uri new) ws' := by
  have hself : Client.cells (Function.update client uri new) uri = new.getD [] := by
    rw [Client.cells, Function.update_self]
  have hother : ∀ v, v ≠ uri → Client.cells (Function.update client uri new) v = client.cells v := by
    intro v hv
    rw [Client.cells, Function.update_of_ne hv]
    rfl
  -- a cell of another notebook neither enters nor leaves this one
  have apart : ∀ u v, v ≠ uri → u ∈ client.cells v → u ∉ client.cells uri ∧ u ∉ new.getD [] := by
    intro u v hv hu
    have hleft : u ∉ client.cells uri := fun hin => hv (h.cells_unique hu hin)
    exact ⟨hleft, fun hin => hentering u hin hleft ⟨v, hu⟩⟩
  constructor
  case notebooks => exact hnotebooks
  case nonempty =>
    intro v hv
    by_cases hvu : v = uri
    · rw [hvu]
      exact huri
    · rw [Function.update_of_ne hvu] at hv
      exact h.nonempty v hv
  case mapped =>
    intro u v
    rw [hcells u]
    by_cases hvu : v = uri
    · subst hvu
      rw [hself]
      split
      · rename_i hleaves
        refine iff_of_false ?_ hleaves.2
        intro heq
        cases heq
      · rename_i hstays
        split
        · rename_i henters
          exact ⟨fun _ => henters.1, fun _ => rfl⟩
        · rename_i hnew
          rw [h.mapped u v]
          constructor
          · intro hin
            by_contra hout
            exact hstays ⟨hin, hout⟩
          · intro hin
            by_contra hout
            exact hnew ⟨hin, hout⟩
    · rw [hother v hvu]
      split
      · rename_i hleaves
        refine iff_of_false ?_ fun hin => (apart u v hvu hin).1 hleaves.1
        intro heq
        cases heq
      · split
        · rename_i henters
          constructor
          · intro heq
            exact absurd (Option.some.inj heq).symm hvu
          · intro hin
            exact absurd henters.1 (apart u v hvu hin).2
        · exact h.mapped u v
  case present =>
    rintro u ⟨v, hu⟩
    by_cases hvu : v = uri
    · subst hvu
      rw [hself] at hu
      apply htexts u (fun hleaves => hleaves.2 hu)
      by_cases hold : u ∈ client.cells v
      · exact Or.inr (h.present u ⟨v, hold⟩)
      · exact Or.inl ⟨hu, hold⟩
    · rw [hother v hvu] at hu
      exact htexts u (fun hleaves => (apart u v hvu hu).1 hleaves.1) (Or.inr (h.present u ⟨v, hu⟩))

theorem putTextDocument (h : Member client ws) (item : TextDocumentItem) :
    Member client (ws.putTextDocument item none) := by
  refine h.congr ⟨rfl, rfl, ?_⟩
  intro u hu
  simp only [Workspace.putTextDocument, Dict.get?_set]
  split
  · rfl
  · exact hu

theorem removeTextDocument (h : Member client ws) {uri : Uri} (hcell : ¬ client.isCell uri) :
    Member client (ws.removeTextDocument uri) := by
  have hnone : ws.cellInNotebook.get? uri = none := by
    cases hget : ws.cellInNotebook.get? uri with
    | none => rfl
    | some v => exact absurd ⟨v, (h.mapped uri v).mp hget⟩ hcell
  refine { h with mapped := ?_, present := ?_ }
  · intro u v
    simp only [Workspace.removeTextDocument, Dict.pop_of_get?_none hnone]
    exact h.mapped u v
  · intro u hu
    have hne : u ≠ uri := by
      rintro rfl
      exact hcell hu
    simp only [Workspace.removeTextDocument, Dict.get?_pop_ne _ hne]
    exact h.present u hu

theorem didOpen (h : Member client ws) {notebook : NotebookDocument} {items : List TextDocumentItem}
    (hc : Conforms client (.notebookDidOpen notebook items)) :
    Member (client.after (.notebookDidOpen notebook items)) (ws.putNotebookDocument notebook items) := by
  obtain ⟨huri, hclosed, hperm, hfree⟩ := hc
  have hold : client.cells notebook.uri = [] := by rw [Client.cells, hclosed]; rfl
  obtain ⟨hnotebooks, hcells, htexts⟩ := foldl_putTextDocument huri items
    { ws with notebookDocuments := ws.notebookDocuments.set notebook.uri notebook }
  apply h.replace huri
  · intro v
    rw [putNotebookDocument, hnotebooks, Dict.get?_set, Function.update_apply]
    split
    · rfl
    · exact h.notebooks v
  · intro u
    rw [putNotebookDocument, hcells u]
    simp [hold, hperm.mem_iff]
  · intro u _ hu
    rw [putNotebookDocument]
    apply htexts u
    simpa [hold, hperm.mem_iff] using hu
  · intro u hu _
    obtain ⟨cell, hcell, rfl⟩ := List.mem_map.mp hu
    exact hfree cell hcell

theorem didClose (h : Member client ws) {uri : Uri} {uris : List Uri}
    (hc : Conforms client (.notebookDidClose uri uris)) :
    Member (client.after (.notebookDidClose uri uris)) (ws.removeNotebookDocument uri uris) := by
  obtain ⟨cells, hopen, hall⟩ := hc
  have hold : client.cells uri = cells := by rw [Client.cells, hopen]; rfl
  obtain ⟨hnotebooks, hcells, htexts⟩ := foldl_removeTextDocument uris
    { ws with notebookDocuments := ws.notebookDocuments.pop uri }
  apply h.replace (h.nonempty uri (by rw [hopen]; simp))
  · intro v
    rw [removeNotebookDocument, hnotebooks, Dict.get?_pop, Function.update_apply]
    split
    · rfl
    · exact h.notebooks v
  · intro u
    rw [removeNotebookDocument, hcells u]
    simp [hold, hall u]
  · intro u hstays hu
    rw [removeNotebookDocument, htexts u]
    simp only [hold, Option.getD_none, List.not_mem_nil, not_false_eq_true, and_true, false_and,
      false_or] at hstays hu
    rw [if_neg (fun hin => hstays ((hall u).mp hin))]
    exact hu
  · intro u hu _
    cases hu

/-- A notebook is written back with the cells it had. -/
theorem setNotebook (h : Member client ws) {uri : Uri} {notebook : NotebookDocument}
    (hcells : client uri = some (notebook.cells.map NotebookCell.document)) :
    Member client (ws.setNotebook uri notebook) := by
  refine { h with notebooks := ?_ }
  intro v
  rw [Workspace.setNotebook, Dict.get?_set]
  split
  · rename_i hv
    rw [hv, hcells]
    rfl
  · exact h.notebooks v

theorem updateCellStructure (h : Member client ws) {uri : Uri} {notebook : NotebookDocument}
    {change : CellChangeStructure}
    (hopen : client uri = some (notebook.cells.map NotebookCell.document))
    (hc : ConformsStructure client (notebook.cells.map NotebookCell.document) change) :
    Member (Function.update client uri
        (some (Client.splice (notebook.cells.map NotebookCell.document) change.array)))
      (ws.updateCellStructure uri notebook change) := by
  have huri : uri ≠ [] := h.nonempty uri (by rw [hopen]; simp)
  have hold : client.cells uri = notebook.cells.map NotebookCell.document := by
    rw [Client.cells, hopen]
    rfl
  obtain ⟨hnotebooks, hcells, htexts⟩ := foldl_putTextDocument huri (change.didOpen.getD [])
    (ws.setNotebook uri { notebook with cells := spliceCells notebook.cells change.array })
  obtain ⟨hnotebooks', hcells', htexts'⟩ := foldl_removeTextDocument (change.didClose.getD [])
    ((change.didOpen.getD []).foldl (fun ws item => ws.putTextDocument item (some uri))
      (ws.setNotebook uri { notebook with cells := spliceCells notebook.cells change.array }))
  apply h.replace huri
  · intro v
    rw [Workspace.updateCellStructure, hnotebooks', hnotebooks, Workspace.setNotebook, Dict.get?_set,
      Function.update_apply]
    split
    · rw [Option.map_some, documents_spliceCells]
    · exact h.notebooks v
  · intro u
    rw [Workspace.updateCellStructure, hcells' u, hcells u, hold]
    simp only [hc.didOpen u, hc.didClose u, Option.getD_some]
    rfl
  · intro u hstays hu
    rw [hold, Option.getD_some] at hstays hu
    rw [Workspace.updateCellStructure, htexts' u, if_neg (fun hin => hstays ((hc.didClose u).mp hin))]
    apply htexts u
    rw [hc.didOpen u]
    exact hu
  · intro u hu hout
    rw [hold] at hout
    exact hc.entering u hu hout

theorem didChange (h : Member client ws) {params : DidChangeNotebookParams} (disk : Disk)
    (hc : Conforms client (.notebookDidChange params)) :
    Member (client.after (.notebookDidChange params)) (ws.updateNotebookDocument disk params).1 := by
  obtain ⟨cells, hopen, hstructure, -⟩ := hc
  obtain ⟨notebook, hget, rfl⟩ := Option.map_eq_some_iff.mp ((h.notebooks params.uri).trans hopen)
  have hmeta : (writeMetadata { notebook with version := params.version } params.metadata).cells =
      notebook.cells := by
    unfold writeMetadata
    split <;> rfl
  simp only [updateNotebookDocument, hget, Client.after, hopen, Option.map_some]
  generalize writeMetadata { notebook with version := params.version } params.metadata = written
    at hmeta ⊢
  have hwritten : Member client (ws.setNotebook params.uri written) :=
    h.setNotebook (by rw [hmeta]; exact hopen)
  cases hcells : params.cells with
  | none =>
    rw [Client.update_cellsAfter hopen (by rw [hcells]; rfl)]
    exact hwritten
  | some changes =>
    simp only
    generalize hfilled : ({ written with
      cells := (changes.data.getD []).foldl writeCellData written.cells } : NotebookDocument) = filled
    have hdata : filled.cells.map NotebookCell.document =
        notebook.cells.map NotebookCell.document := by
      rw [← hfilled, documents_foldl_writeCellData, hmeta]
    have hmember : Member client ((ws.setNotebook params.uri written).setNotebook params.uri filled) :=
      hwritten.setNotebook (by rw [hdata]; exact hopen)
    refine Member.congr ?_ (updateCellContents_same disk _ _)
    cases hchange : changes.cellStructure with
    | none =>
      rw [Client.update_cellsAfter hopen (by rw [hcells, Option.bind_some, hchange])]
      exact hmember
    | some change =>
      have hafter : Client.cellsAfter (notebook.cells.map NotebookCell.document) params =
          Client.splice (notebook.cells.map NotebookCell.document) change.array := by
        rw [Client.cellsAfter, hcells, Option.bind_some, hchange]
      have hconforms := hstructure change (by rw [hcells, Option.bind_some, hchange])
      rw [hafter, ← hdata]
      rw [← hdata] at hopen hconforms
      exact hmember.updateCellStructure hopen hconforms

theorem step {disk : Disk} {p p' : Client × Workspace} {m : WorkspaceMessage}
    (h : Member p.1 p.2) (hc : Conforms p.1 m) (hstep : Notebooks.step disk p m = some p') :
    Member p'.1 p'.2 := by
  cases hstep
  cases m with
  | text notification =>
    cases notification with
    | didOpen item => exact h.putTextDocument item
    | didChange id changes => exact h.congr (updateTextDocuments_same disk id p.2 changes)
    | didClose uri => exact h.removeTextDocument hc
  | notebookDidOpen notebook items => exact h.didOpen hc
  | notebookDidChange params => exact h.didChange disk hc
  | notebookDidClose uri uris => exact h.didClose hc
  | didChangeFolders added removed =>
    exact h.congr (changeFolders_same p.2 (added.getD []) (removed.getD []))

theorem init (kind : SyncKind) (folders : List WorkspaceFolder) (encoding : Encoding) :
    Member (fun _ => none) (Workspace.new kind folders encoding) := by
  have hempty : Member (fun _ => none) ⟨kind, encoding, .empty, .empty, .empty, .empty⟩ := by
    constructor
    case notebooks => exact fun _ => rfl
    case nonempty => exact fun _ h => absurd rfl h
    case mapped => exact fun _ _ => ⟨nofun, nofun⟩
    case present =>
      rintro u ⟨uri, hu⟩
      cases hu
  exact hempty.congr (foldl_addFolder_same folders _)

theorem cells_eq (h : Member client ws) {uri : Uri} {notebook : NotebookDocument}
    (hget : ws.notebookDocuments.get? uri = some notebook) :
    client.cells uri = notebook.cells.map NotebookCell.document := by
  rw [Client.cells, ← h.notebooks uri, hget]
  rfl

/-- The lookup by cell finds a notebook exactly for its current cells. -/
theorem getNotebookDocument_iff (h : Member client ws) (u : Uri) (notebook : NotebookDocument) :
    ws.getNotebookDocument none (some u) = some notebook ↔
      ∃ uri, ws.notebookDocuments.get? uri = some notebook ∧
        u ∈ notebook.cells.map NotebookCell.document := by
  constructor
  · intro hfound
    obtain ⟨uri, hcell, hget⟩ := Option.bind_eq_some_iff.mp hfound
    exact ⟨uri, hget, h.cells_eq hget ▸ (h.mapped u uri).mp hcell⟩
  · rintro ⟨uri, hget, hu⟩
    apply Option.bind_eq_some_iff.mpr
    exact ⟨uri, (h.mapped u uri).mpr (h.cells_eq hget ▸ hu), hget⟩

theorem closed (h : Member client ws) {uri : Uri} {uris : List Uri} {notebook : NotebookDocument}
    (hc : Conforms client (.notebookDidClose uri uris))
    (hget : ws.notebookDocuments.get? uri = some notebook) :
    (ws.removeNotebookDocument uri uris).notebookDocuments.get? uri = none ∧
      (∀ u ∈ notebook.cells.map NotebookCell.document,
        (ws.removeNotebookDocument uri uris).textDocuments.get? u = none ∧
          (ws.removeNotebookDocument uri uris).cellInNotebook.get? u = none) ∧
      ∀ u, (ws.removeNotebookDocument uri uris).cellInNotebook.get? u ≠ some uri := by
  have hafter := h.didClose hc
  obtain ⟨cells, hopen, hall⟩ := hc
  have hcells : notebook.cells.map NotebookCell.document = cells := by
    rw [← h.cells_eq hget, Client.cells, hopen]
    rfl
  obtain ⟨hnotebooks, hmap, htexts⟩ := foldl_removeTextDocument uris
    { ws with notebookDocuments := ws.notebookDocuments.pop uri }
  refine ⟨?_, ?_, ?_⟩
  · rw [removeNotebookDocument, hnotebooks]
    exact Dict.get?_pop_self _ _
  · intro u hu
    have hin : u ∈ uris := (hall u).mpr (hcells ▸ hu)
    rw [removeNotebookDocument, htexts u, hmap u, if_pos hin, if_pos hin]
    exact ⟨rfl, rfl⟩
  · intro u hu
    have hnone := (hafter.mapped u uri).mp hu
    rw [Client.cells, Client.after, Function.update_self] at hnone
    cases hnone

end Member

/-- In every state a conforming client can bring the workspace to, the lookup by cell
finds a notebook exactly for its current cells, each of which has a document, and
closing a notebook leaves nothing of it behind. -/
theorem cells_belong_to_their_notebook (disk : Disk) (kind : SyncKind)
    (folders : List WorkspaceFolder) (encoding : Encoding) {messages : List WorkspaceMessage}
    {client : Client} {ws : Workspace}
    (hconforms : Meets (step disk) (fun p m => Conforms p.1 m)
      (fun _ => none, Workspace.new kind folders encoding) messages)
    (hrun : run (step disk) (fun _ => none, Workspace.new kind folders encoding) messages =
      some (client, ws)) :
    (∀ uri, (ws.notebookDocuments.get? uri).map
      (fun notebook => notebook.cells.map NotebookCell.document) = client uri) ∧
    (∀ u notebook, ws.getNotebookDocument none (some u) = some notebook ↔
      ∃ uri, ws.notebookDocuments.get? uri = some notebook ∧
        u ∈ notebook.cells.map NotebookCell.document) ∧
    (∀ uri notebook, ws.notebookDocuments.get? uri = some notebook →
      ∀ u ∈ notebook.cells.map NotebookCell.document,
        (ws.textDocuments.get? u).isSome = true) ∧
    ∀ uri uris notebook, Conforms client (.notebookDidClose uri uris) →
      ws.notebookDocuments.get? uri = some notebook →
      (ws.removeNotebookDocument uri uris).notebookDocuments.get? uri = none ∧
        (∀ u ∈ notebook.cells.map NotebookCell.document,
          (ws.removeNotebookDocument uri uris).textDocuments.get? u = none ∧
            (ws.removeNotebookDocument uri uris).cellInNotebook.get? u = none) ∧
        ∀ u, (ws.removeNotebookDocument uri uris).cellInNotebook.get? u ≠ some uri := by
  have hmember : Member client ws :=
    run_invariant (I := fun p => Member p.1 p.2) (fun _ _ _ h hc hs => h.step hc hs)
      (Member.init kind folders encoding) hconforms hrun
  refine ⟨hmember.notebooks, hmember.getNotebookDocument_iff, ?_, ?_⟩
  · intro uri notebook hget u hu
    exact hmember.present u ⟨uri, hmember.cells_eq hget ▸ hu⟩
  · intro uri uris notebook hc hget
    exact hmember.closed hc hget

/-- Notebook `n` is opened with cell `a`, which is then replaced by cell `b`. -/
def sampleMessages : List WorkspaceMessage :=
  [.notebookDidOpen ⟨[0x6E], [], 0, [⟨.code, [0x61], none, none⟩], none⟩ [⟨[0x61], [], 0, []⟩],
    .notebookDidChange ⟨[0x6E], 1, none,
      some ⟨some ⟨⟨0, 1, some [⟨.code, [0x62], none, none⟩]⟩, some [⟨[0x62], [], 0, []⟩],
        some [[0x61]]⟩, none, none⟩⟩]

theorem sampleMessages_conform (disk : Disk) :
    Meets (step disk) (fun p m => Conforms p.1 m)
      (fun _ => none, Workspace.new .incremental [] .utf16) sampleMessages := by
  have hfree : ∀ u, ¬ Client.isCell (fun _ => none) u := by
    rintro u ⟨uri, hu⟩
    cases hu
  refine meets_cons rfl ⟨by decide, rfl, by decide, fun cell _ => hfree _⟩ ?_
  refine meets_cons rfl ⟨[[0x61]], rfl, ?_, ?_⟩ trivial
  · intro change hchange
    obtain rfl := Option.some.inj hchange
    refine ⟨?_, ?_, ?_⟩
    · intro u
      simp only [Option.getD_some, List.map_cons, List.map_nil, List.mem_cons, List.not_mem_nil,
        or_false, Client.splice, List.take_zero, List.nil_append, Nat.zero_add,
        List.drop_succ_cons, List.drop_nil, List.append_nil, iff_self_and]
      rintro rfl
      decide
    · intro u
      simp only [Option.getD_some, List.map_cons, List.map_nil, List.mem_cons, List.not_mem_nil,
        or_false, Client.splice, List.take_zero, List.nil_append, Nat.zero_add,
        List.drop_succ_cons, List.drop_nil, List.append_nil, iff_self_and]
      rintro rfl
      decide
    · intro u hu _
      obtain rfl : u = [0x62] := by simpa [Client.splice] using hu
      rintro ⟨uri, hin⟩
      simp only [Client.cells, Client.after, Function.update_apply] at hin
      split at hin
      · exact absurd hin (by decide)
      · cases hin
  · intro contents hcontents
    cases hcontents

theorem cells_belong_to_their_notebook_replaced :
    ∃ client ws, run (step fun uri => .error (.osError uri))
        (fun _ => none, Workspace.new .incremental [] .utf16) sampleMessages = some (client, ws) ∧
      ws.getNotebookDocument none (some [0x61]) = none ∧
      (∃ notebook, ws.getNotebookDocument none (some [0x62]) = some notebook) ∧
      (ws.removeNotebookDocument [0x6E] [[0x62]]).textDocuments.get? [0x62] = none := by
  obtain ⟨⟨client, ws⟩, hrun⟩ : ∃ p, run (step fun uri => .error (.osError uri))
      (fun _ => none, Workspace.new .incremental [] .utf16) sampleMessages = some p := ⟨_, rfl⟩
  obtain ⟨hclient, hfound, -, hclosed⟩ := cells_belong_to_their_notebook _ .incremental [] .utf16
    (sampleMessages_conform _) hrun
  have hcells : client [0x6E] = some [[0x62]] := by
    obtain rfl := (Prod.mk.inj (Option.some.inj hrun)).1
    rfl
  have hothers : ∀ uri, uri ≠ [0x6E] → client uri = none := by
    intro uri huri
    obtain rfl := (Prod.mk.inj (Option.some.inj hrun)).1
    simp [Client.after, Function.update_of_ne huri]
  obtain ⟨notebook, hget, hdocs⟩ := Option.map_eq_some_iff.mp ((hclient [0x6E]).trans hcells)
  refine ⟨client, ws, hrun, ?_, ⟨notebook, ?_⟩, ?_⟩
  · cases hold : ws.getNotebookDocument none (some [0x61]) with
    | none => rfl
    | some other =>
      obtain ⟨uri, hother, hin⟩ := (hfound [0x61] other).mp hold
      have heq := hclient uri
      rw [hother] at heq
      by_cases huri : uri = [0x6E]
      · rw [huri, hcells] at heq
        have hdocs' : other.cells.map NotebookCell.document = [[0x62]] := Option.some.inj heq
        rw [hdocs'] at hin
        exact absurd hin (by decide)
      · rw [hothers uri huri] at heq
        cases heq
  · exact (hfound [0x62] notebook).mpr ⟨_, hget, by rw [hdocs]; decide⟩
  · obtain ⟨-, htexts, -⟩ := hclosed [0x6E] [[0x62]] notebook ⟨_, hcells, fun u => Iff.rfl⟩ hget
    exact (htexts [0x62] (by rw [hdocs]; decide)).1

end Pygls.Notebooks
