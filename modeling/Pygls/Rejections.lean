import Mathlib.Data.List.TakeWhile
import Pygls.Contents

/-!
# Notebook changes that are rejected

A notebook change raises in two places: before anything is written, where the
notebook is unknown, and in the text content, where everything that comes before
has been written. Then the workspace is what it was only if all of that was
there already.
-/

namespace Pygls.Rejections

open Lib Workspace

set_option autoImplicit false

/-- Two workspaces with the same notebooks, the same documents and the same cell map. -/
structure Same (ws ws' : Workspace) : Prop where
  notebooks : ∀ uri, ws'.notebookDocuments.get? uri = ws.notebookDocuments.get? uri
  cellMap : ∀ uri, ws'.cellInNotebook.get? uri = ws.cellInNotebook.get? uri
  documents : ∀ uri, ws'.documents uri = ws.documents uri

/-- An entry of the text content has a change for a document that is not open by then. -/
def Raises (ws : Workspace) (params : DidChangeNotebookParams) : Prop :=
  ∃ entry ∈ params.textContent, entry.changes ≠ [] ∧
    documentsAt ws params entry.document.uri = none

/-- Nothing that stands before the entry that raises is new to the workspace. -/
structure Idle (disk : Disk) (ws : Workspace) (notebook : NotebookDocument)
    (params : DidChangeNotebookParams) : Prop where
  version : params.version = notebook.version
  metadata : ∀ entry rest, params.metadata = some (entry :: rest) →
    notebook.metadata = some (entry :: rest)
  cells : changedCells notebook.cells params = notebook.cells
  closed : ∀ uri ∈ params.didClose,
    ws.documents uri = none ∧ ws.cellInNotebook.get? uri = none
  mapped : ∀ uri ∈ params.didOpen.map TextDocumentItem.uri, uri ∉ params.didClose →
    params.uri ≠ [] → ws.cellInNotebook.get? uri = some params.uri
  edited : ∀ uri doc, documentsAt ws params uri = some doc → ws.documents uri =
    some (editAll disk uri (applied (documentsAt ws params) params.textContent) doc)

variable {disk : Disk} {ws : Workspace} {params : DidChangeNotebookParams}
  {notebook : NotebookDocument}

theorem applied_eq_iff (docs : Documents) (contents : List CellContentChange) :
    applied docs contents = contents ↔
      ¬ ∃ entry ∈ contents, entry.changes ≠ [] ∧ docs entry.document.uri = none := by
  rw [applied, List.takeWhile_eq_self_iff]
  constructor
  · rintro h ⟨entry, hmem, hchanges, hclosed⟩
    have hgoes := h entry hmem
    rw [hclosed, Option.isSome_none, Bool.or_false, List.isEmpty_iff] at hgoes
    exact hchanges hgoes
  · intro h entry hmem
    rw [Bool.or_eq_true, List.isEmpty_iff, Option.isSome_iff_ne_none]
    by_contra hnot
    obtain ⟨hchanges, hclosed⟩ := not_or.mp hnot
    exact h ⟨entry, hmem, hchanges, not_not.mp hclosed⟩

/-- When the call raises. -/
theorem raises_iff (h : Stored ws) (hopen : ws.notebookDocuments.get? params.uri = some notebook) :
    (ws.updateNotebookDocument disk params).2 ≠ none ↔ Raises ws params := by
  obtain ⟨ws', hupdate, -, -, hdocs⟩ := updateNotebookDocument_contents disk hopen
  have hfun : ws'.documents = documentsAt ws params := funext hdocs
  have hstored : Stored ws' := stored_documentsAt h params hdocs
  rw [hupdate, Ne, (updateCellContents_documents disk hstored params.textContent).2, hfun,
    applied_eq_iff, not_not]
  exact Iff.rfl

theorem changedNotebook_eq_iff :
    changedNotebook notebook params = notebook ↔
      params.version = notebook.version ∧
      (∀ entry rest, params.metadata = some (entry :: rest) →
        notebook.metadata = some (entry :: rest)) ∧
      changedCells notebook.cells params = notebook.cells := by
  have hmetadata : (writeMetadata notebook params.metadata).metadata = notebook.metadata ↔
      ∀ entry rest, params.metadata = some (entry :: rest) →
        notebook.metadata = some (entry :: rest) := by
    rcases params.metadata with _ | _ | ⟨entry, rest⟩
    · exact iff_of_true rfl nofun
    · exact iff_of_true rfl nofun
    · constructor
      · intro h entry' rest' heq
        rw [← heq]
        exact h.symm
      · intro h
        exact (h entry rest rfl).symm
  rw [← hmetadata]
  constructor
  · intro h
    have hversion := congrArg NotebookDocument.version h
    have hmeta := congrArg NotebookDocument.metadata h
    have hcells := congrArg NotebookDocument.cells h
    exact ⟨hversion, hmeta, hcells⟩
  · rintro ⟨hversion, hmeta, hcells⟩
    have hkept : ∀ m, (writeMetadata notebook m).uri = notebook.uri ∧
        (writeMetadata notebook m).notebookType = notebook.notebookType := by
      intro m
      unfold writeMetadata
      split
      · exact ⟨rfl, rfl⟩
      · exact ⟨rfl, rfl⟩
    obtain ⟨huri, htype⟩ := hkept params.metadata
    rw [changedNotebook, hversion, hmeta, hcells, huri, htype]

theorem cellMapAt_eq_iff :
    (∀ uri, cellMapAt ws params uri = ws.cellInNotebook.get? uri) ↔
      (∀ uri ∈ params.didClose, ws.cellInNotebook.get? uri = none) ∧
      ∀ uri ∈ params.didOpen.map TextDocumentItem.uri, uri ∉ params.didClose →
        params.uri ≠ [] → ws.cellInNotebook.get? uri = some params.uri := by
  constructor
  · intro h
    refine ⟨?_, ?_⟩
    · intro uri hmem
      rw [← h uri, cellMapAt, if_pos hmem]
    · intro uri hmem hnot hne
      rw [← h uri, cellMapAt, if_neg hnot, if_pos ⟨hmem, hne⟩]
  · rintro ⟨hclosed, hopened⟩ uri
    rw [cellMapAt]
    split
    · rename_i hmem
      exact (hclosed uri hmem).symm
    · rename_i hnot
      split
      · rename_i hmem
        exact (hopened uri hmem.1 hnot hmem.2).symm
      · rfl

theorem documents_eq_iff (contents : List CellContentChange) :
    (∀ uri, (documentsAt ws params uri).map (editAll disk uri contents) = ws.documents uri) ↔
      (∀ uri ∈ params.didClose, ws.documents uri = none) ∧
      ∀ uri doc, documentsAt ws params uri = some doc →
        ws.documents uri = some (editAll disk uri contents doc) := by
  constructor
  · intro h
    refine ⟨?_, ?_⟩
    · intro uri hmem
      rw [← h uri, documentsAt, if_pos hmem]
      rfl
    · intro uri doc hdoc
      rw [← h uri, hdoc]
      rfl
  · rintro ⟨hclosed, hedited⟩ uri
    cases hdoc : documentsAt ws params uri with
    | some doc => exact (hedited uri doc hdoc).symm
    | none =>
      rw [documentsAt] at hdoc
      split at hdoc
      · rename_i hmem
        exact (hclosed uri hmem).symm
      · exact (Option.or_eq_none_iff.mp hdoc).2.symm

/-- A change of a known notebook leaves the workspace as it was just if, up to the entry that
raises, it says nothing new. -/
theorem same_iff_idle (h : Stored ws)
    (hopen : ws.notebookDocuments.get? params.uri = some notebook) :
    Same ws (ws.updateNotebookDocument disk params).1 ↔ Idle disk ws notebook params := by
  obtain ⟨ws', hupdate, hnotebooks, hcellMap, hdocs⟩ :=
    updateNotebookDocument_contents disk hopen
  have hfun : ws'.documents = documentsAt ws params := funext hdocs
  have hstored : Stored ws' := stored_documentsAt h params hdocs
  have hsame := Notebooks.updateCellContents_same disk ws' params.textContent
  have hedit := (updateCellContents_documents disk hstored params.textContent).1
  rw [hfun] at hedit
  rw [hupdate]
  constructor
  · rintro ⟨hn, hc, hd⟩
    have hnotebook := hn params.uri
    rw [hsame.notebooks, hnotebooks, if_pos rfl, hopen] at hnotebook
    obtain ⟨hversion, hmetadata, hcells⟩ :=
      changedNotebook_eq_iff.mp (Option.some.inj hnotebook)
    have hmap : ∀ uri, cellMapAt ws params uri = ws.cellInNotebook.get? uri := by
      intro uri
      rw [← hcellMap, ← hsame.cells]
      exact hc uri
    obtain ⟨hclosed, hmapped⟩ := cellMapAt_eq_iff.mp hmap
    obtain ⟨hclosed', hedited⟩ := (documents_eq_iff _).mp fun uri => (hedit uri).symm.trans (hd uri)
    exact ⟨hversion, hmetadata, hcells, fun uri hmem => ⟨hclosed' uri hmem, hclosed uri hmem⟩,
      hmapped, hedited⟩
  · intro hidle
    refine ⟨?_, ?_, ?_⟩
    · intro uri
      rw [hsame.notebooks, hnotebooks]
      split
      · rename_i huri
        rw [huri, hopen,
          changedNotebook_eq_iff.mpr ⟨hidle.version, hidle.metadata, hidle.cells⟩]
      · rfl
    · intro uri
      rw [hsame.cells, hcellMap]
      exact cellMapAt_eq_iff.mpr ⟨fun uri hmem => (hidle.closed uri hmem).2, hidle.mapped⟩ uri
    · intro uri
      rw [hedit]
      exact (documents_eq_iff _).mpr ⟨fun uri hmem => (hidle.closed uri hmem).1, hidle.edited⟩ uri

/-- A notebook change that raises leaves the workspace as it was just if its notebook is unknown
or nothing that stands before the entry that raises is new. -/
theorem rejected_change_iff (disk : Disk) (h : Stored ws) (params : DidChangeNotebookParams) :
    ((ws.updateNotebookDocument disk params).2 ≠ none →
      Same ws (ws.updateNotebookDocument disk params).1) ↔
    ∀ notebook, ws.notebookDocuments.get? params.uri = some notebook →
      Raises ws params → Idle disk ws notebook params := by
  cases hopen : ws.notebookDocuments.get? params.uri with
  | none =>
    refine iff_of_true (fun _ => ?_) nofun
    have hupdate : ws.updateNotebookDocument disk params = (ws, some (.keyError params.uri)) := by
      rw [updateNotebookDocument, hopen]
    rw [hupdate]
    exact ⟨fun _ => rfl, fun _ => rfl, fun _ => rfl⟩
  | some notebook =>
    rw [raises_iff h hopen, same_iff_idle h hopen]
    constructor
    · rintro hidle _ ⟨⟩
      exact hidle
    · intro hidle
      exact hidle notebook rfl

/-- A workspace with an empty notebook, and a change of its version that goes on to a document
that is not open. -/
def sampleWorkspace : Workspace :=
  { Workspace.new .incremental [] .utf16 with
    notebookDocuments := Dict.empty.set [0x6E] ⟨[0x6E], [], 1, [], none⟩ }

def sampleChange (version : Int) : DidChangeNotebookParams :=
  ⟨[0x6E], version, none, some ⟨none, none, some [⟨⟨[0x63], 1⟩, [.wholeDocument []]⟩]⟩⟩

theorem stored_sampleWorkspace : Stored sampleWorkspace :=
  (Stored.new .incremental [] .utf16).congr rfl

theorem rejected_change_repeated :
    let disk : Disk := fun uri => .error (.osError uri)
    Same sampleWorkspace (sampleWorkspace.updateNotebookDocument disk (sampleChange 1)).1 := by
  intro disk
  refine (rejected_change_iff disk stored_sampleWorkspace (sampleChange 1)).mpr ?_ ?_
  · intro notebook hnotebook _
    cases hnotebook
    exact ⟨rfl, nofun, rfl, nofun, nofun, nofun⟩
  · intro hnone
    cases hnone

/-- The notebook has the version of a change that was rejected. -/
theorem rejected_change_written :
    let disk : Disk := fun uri => .error (.osError uri)
    let r := sampleWorkspace.updateNotebookDocument disk (sampleChange 2)
    r.2 ≠ none ∧ ¬ Same sampleWorkspace r.1 := by
  intro disk r
  refine ⟨nofun, ?_⟩
  intro hsame
  have hversion := congrArg (fun notebook => notebook.map NotebookDocument.version)
    (hsame.notebooks [0x6E])
  cases hversion

end Pygls.Rejections
