import Pygls.Contents
import Pygls.Lib.Run

/-!
# The history of a notebook

What a notebook is after a sequence of changes, told from the changes alone: a
cell is kept as it was inserted, next to all the cell data that has arrived
since. The server keeps the outcome only, overwriting the notebook's attributes
and the cells' in place.
-/

namespace Pygls.NotebookHistory

open Lib Workspace

set_option autoImplicit false

/-- A cell with the attributes of an entry. -/
def written (cell data : NotebookCell) : NotebookCell :=
  { cell with
    kind := data.kind
    metadata := data.metadata
    executionSummary := data.executionSummary }

/-- The last of the entries that is about a document. -/
def lastAbout (document : Uri) (data : List NotebookCell) : Option NotebookCell :=
  latest document (data.map fun entry => (entry.document, entry))

def noted (data : List NotebookCell) (cell : NotebookCell) : NotebookCell :=
  (lastAbout cell.document data).elim cell (written cell)

/-- A cell as it was inserted, and the cell data that has arrived since. -/
structure Slot where
  inserted : NotebookCell
  arrived : List NotebookCell

namespace Slot

def cell (slot : Slot) : NotebookCell := noted slot.arrived slot.inserted

def note (data : List NotebookCell) (slot : Slot) : Slot :=
  { slot with arrived := slot.arrived ++ data }

end Slot

def inserted (cells : List NotebookCell) : List Slot := cells.map fun cell => ⟨cell, []⟩

def splice (slots : List Slot) (array : NotebookCellArrayChange) : List Slot :=
  slots.take array.start ++ inserted (array.cells.getD []) ++
    slots.drop (array.start + array.deleteCount)

/-- Data that comes with a splice is for the cells the splice finds. -/
def after (slots : List Slot) (params : DidChangeNotebookParams) : List Slot :=
  params.array.elim (slots.map (Slot.note params.data)) (splice (slots.map (Slot.note params.data)))

/-- The notebook is what the changes say, each attribute by the last that wrote it. -/
structure LastWritten (initial : NotebookDocument) (past : List DidChangeNotebookParams)
    (notebook : NotebookDocument) : Prop where
  version : notebook.version =
    (past.getLast?.map DidChangeNotebookParams.version).getD initial.version
  metadata : notebook.metadata =
    (past.filterMap DidChangeNotebookParams.metadata).getLast?.or initial.metadata
  cells : notebook.cells = (past.foldl after (inserted initial.cells)).map Slot.cell

/-- The changes of one notebook. -/
def about (uri : Uri) (past : List DidChangeNotebookParams) : List DidChangeNotebookParams :=
  past.filter fun params => params.uri = uri

/-- The cell at an index is still in the notebook after the splice. -/
def Survives (array : Option NotebookCellArrayChange) (i : Nat) : Prop :=
  ∀ a, array = some a → i < a.start ∨ a.start + a.deleteCount ≤ i

/-- The change has no empty metadata, unless the notebook has it already, and no data for a
document that two of its cells have, unless the first of them has it already or goes away. -/
structure Lands (notebook : NotebookDocument) (params : DidChangeNotebookParams) : Prop where
  metadata : params.metadata = some [] → notebook.metadata = some []
  cells : ∀ i cell, notebook.cells[i]? = some cell → Survives params.array i →
    cell.document ∈ (notebook.cells.drop (i + 1)).map NotebookCell.document →
      noted params.data cell = cell

theorem about_concat (uri : Uri) (past : List DidChangeNotebookParams)
    (params : DidChangeNotebookParams) :
    about uri (past ++ [params]) =
      if params.uri = uri then about uri past ++ [params] else about uri past := by
  rw [about, List.filter_append, about]
  split
  · rename_i huri
    simp [huri]
  · rename_i huri
    simp [huri]

theorem noted_nil (cell : NotebookCell) : noted [] cell = cell := rfl

theorem noted_document (data : List NotebookCell) (cell : NotebookCell) :
    (noted data cell).document = cell.document := by
  unfold noted
  cases lastAbout cell.document data with
  | none => rfl
  | some entry => rfl

theorem lastAbout_append (document : Uri) (data data' : List NotebookCell) :
    lastAbout document (data ++ data') =
      (lastAbout document data').or (lastAbout document data) := by
  rw [lastAbout, List.map_append, latest_append]
  rfl

/-- Later data overwrites earlier data altogether. -/
theorem noted_append (data data' : List NotebookCell) (cell : NotebookCell) :
    noted (data ++ data') cell = noted data' (noted data cell) := by
  have hdocument := noted_document data cell
  rw [noted, lastAbout_append, noted.eq_1 data', hdocument]
  cases lastAbout cell.document data' with
  | none => rfl
  | some entry =>
    unfold noted
    cases lastAbout cell.document data with
    | none => rfl
    | some entry' => rfl

theorem cell_note (data : List NotebookCell) (slot : Slot) :
    (slot.note data).cell = noted data slot.cell :=
  noted_append slot.arrived data slot.inserted

theorem map_cell_inserted (cells : List NotebookCell) : (inserted cells).map Slot.cell = cells := by
  rw [inserted, List.map_map]
  exact List.map_id cells

/-- What the history makes of the cells. -/
theorem map_cell_after (slots : List Slot) (params : DidChangeNotebookParams) :
    (after slots params).map Slot.cell =
      params.array.elim ((slots.map Slot.cell).map (noted params.data))
        (spliceCells ((slots.map Slot.cell).map (noted params.data))) := by
  have hnoted : (slots.map (Slot.note params.data)).map Slot.cell =
      (slots.map Slot.cell).map (noted params.data) := by
    rw [List.map_map, List.map_map]
    exact List.map_congr_left fun slot _ => cell_note params.data slot
  unfold after
  cases params.array with
  | none => exact hnoted
  | some array =>
    dsimp only [Option.elim_some]
    rw [splice, List.map_append, List.map_append, map_cell_inserted, List.map_take, List.map_drop,
      hnoted]
    rfl

theorem noted_singleton (entry cell : NotebookCell) :
    noted [entry] cell = if cell.document = entry.document then written cell entry else cell := by
  rw [noted, lastAbout, List.map_singleton, latest_singleton]
  by_cases h : cell.document = entry.document
  · rw [if_pos h, if_pos h.symm]
    rfl
  · rw [if_neg h, if_neg (Ne.symm h)]
    rfl

/-- One entry goes to the last cell with its document. -/
theorem writeCellData_getElem? (cells : List NotebookCell) (entry : NotebookCell) (i : Nat) :
    (writeCellData cells entry)[i]? = cells[i]?.map fun cell =>
      if cell.document ∈ (cells.drop (i + 1)).map NotebookCell.document then cell
      else noted [entry] cell := by
  induction cells generalizing i with
  | nil => rfl
  | cons first rest ih =>
    rw [writeCellData]
    split
    · rename_i h
      obtain ⟨hfirst, hrest⟩ := h
      cases i with
      | zero =>
        have hnot : first.document ∉
            ((first :: rest).drop (0 + 1)).map NotebookCell.document := by
          intro hmem
          obtain ⟨cell, hcell, hdocument⟩ := List.mem_map.mp hmem
          exact hrest cell hcell (hdocument.trans hfirst)
        rw [List.getElem?_cons_zero, List.getElem?_cons_zero, Option.map_some]
        rw [if_neg hnot, noted_singleton, if_pos hfirst]
        rfl
      | succ i =>
        rw [List.getElem?_cons_succ, List.getElem?_cons_succ]
        cases hcell : rest[i]? with
        | none => rfl
        | some cell =>
          have hne := hrest cell (List.mem_of_getElem? hcell)
          rw [Option.map_some, noted_singleton, if_neg hne, ite_self]
    · rename_i h
      cases i with
      | zero =>
        rw [List.getElem?_cons_zero, List.getElem?_cons_zero, Option.map_some]
        split
        · rfl
        · rename_i hnot
          have hne : first.document ≠ entry.document := by
            intro heq
            refine h ⟨heq, fun cell hcell hdocument => hnot ?_⟩
            exact List.mem_map.mpr ⟨cell, hcell, hdocument.trans heq.symm⟩
          rw [noted_singleton, if_neg hne]
      | succ i =>
        rw [List.getElem?_cons_succ, List.getElem?_cons_succ, ih]
        rfl

/-- So does a list of entries, one after the other. -/
theorem foldl_writeCellData_getElem? (data cells : List NotebookCell) (i : Nat) :
    (data.foldl writeCellData cells)[i]? = cells[i]?.map fun cell =>
      if cell.document ∈ (cells.drop (i + 1)).map NotebookCell.document then cell
      else noted data cell := by
  induction data generalizing cells with
  | nil =>
    rw [List.foldl_nil]
    cases cells[i]? with
    | none => rfl
    | some cell => rw [Option.map_some, noted_nil, ite_self]
  | cons entry data ih =>
    have hdrop : ((writeCellData cells entry).drop (i + 1)).map NotebookCell.document =
        (cells.drop (i + 1)).map NotebookCell.document := by
      rw [List.map_drop, Notebooks.documents_writeCellData, List.map_drop]
    rw [List.foldl_cons, ih, writeCellData_getElem?, hdrop]
    cases cells[i]? with
    | none => rfl
    | some cell =>
      rw [Option.map_some, Option.map_some, Option.map_some]
      by_cases h : cell.document ∈ (cells.drop (i + 1)).map NotebookCell.document
      · rw [if_pos h, if_pos h, if_pos h]
      · rw [if_neg h, if_neg h, noted_document, if_neg h, ← noted_append]
        rfl

theorem foldl_writeCellData_length (data cells : List NotebookCell) :
    (data.foldl writeCellData cells).length = cells.length := by
  have hmap := congrArg List.length (Notebooks.documents_foldl_writeCellData data cells)
  rwa [List.length_map, List.length_map] at hmap

/-- Two lists of one length are spliced to the same just if they agree where the splice keeps
them. -/
theorem splice_eq_iff {cells cells' : List NotebookCell} (h : cells.length = cells'.length)
    (array : Option NotebookCellArrayChange) :
    array.elim cells (spliceCells cells) = array.elim cells' (spliceCells cells') ↔
      ∀ i, Survives array i → cells[i]? = cells'[i]? := by
  cases array with
  | none =>
    refine ⟨fun heq i _ => congrArg (·[i]?) heq, fun heq => ?_⟩
    exact List.ext_getElem? fun i => heq i nofun
  | some a =>
    dsimp only [Option.elim_some, spliceCells]
    have hlen : (cells.take a.start ++ a.cells.getD []).length =
        (cells'.take a.start ++ a.cells.getD []).length := by
      rw [List.length_append, List.length_append, List.length_take, List.length_take, h]
    constructor
    · intro heq i hi
      obtain ⟨hfront, hdrop⟩ := List.append_inj heq hlen
      have htake := List.append_cancel_right hfront
      rcases hi a rfl with hlt | hge
      · rw [← List.getElem?_take_of_lt hlt, htake, List.getElem?_take_of_lt hlt]
      · obtain ⟨d, rfl⟩ := Nat.exists_eq_add_of_le hge
        rw [← List.getElem?_drop, hdrop, List.getElem?_drop]
    · intro heq
      have htake : cells.take a.start = cells'.take a.start := by
        refine List.ext_getElem? fun i => ?_
        rw [List.getElem?_take, List.getElem?_take]
        split
        · rename_i hlt
          refine heq i fun b hb => .inl ?_
          cases hb
          exact hlt
        · rfl
      have hdrop : cells.drop (a.start + a.deleteCount) =
          cells'.drop (a.start + a.deleteCount) := by
        refine List.ext_getElem? fun i => ?_
        rw [List.getElem?_drop, List.getElem?_drop]
        refine heq _ fun b hb => .inr ?_
        cases hb
        exact Nat.le_add_right _ _
      rw [htake, hdrop]

/-- The server's cells are those of the history just if no data is for a document that two of
them have. -/
theorem changedCells_eq_iff (cells : List NotebookCell) (params : DidChangeNotebookParams) :
    changedCells cells params = params.array.elim (cells.map (noted params.data))
        (spliceCells (cells.map (noted params.data))) ↔
      ∀ i cell, cells[i]? = some cell → Survives params.array i →
        cell.document ∈ (cells.drop (i + 1)).map NotebookCell.document →
          noted params.data cell = cell := by
  have hlen : (params.data.foldl writeCellData cells).length =
      (cells.map (noted params.data)).length := by
    rw [foldl_writeCellData_length, List.length_map]
  rw [changedCells, splice_eq_iff hlen]
  constructor
  · intro h i cell hcell hi hmem
    have heq := h i hi
    rw [foldl_writeCellData_getElem?, List.getElem?_map, hcell, Option.map_some, Option.map_some,
      if_pos hmem] at heq
    exact (Option.some.inj heq).symm
  · intro h i hi
    rw [foldl_writeCellData_getElem?, List.getElem?_map]
    cases hcell : cells[i]? with
    | none => rfl
    | some cell =>
      rw [Option.map_some, Option.map_some]
      split
      · rename_i hmem
        rw [h i cell hcell hi hmem]
      · rfl

theorem writeMetadata_eq_iff (notebook : NotebookDocument) (metadata : Option Metadata) :
    (writeMetadata notebook metadata).metadata = metadata.or notebook.metadata ↔
      (metadata = some [] → notebook.metadata = some []) := by
  rcases metadata with _ | _ | ⟨entry, rest⟩
  · exact iff_of_true rfl nofun
  · exact ⟨fun h _ => h, fun h => h rfl⟩
  · exact iff_of_true rfl nofun

/-- A change keeps the notebook to its history just if all that it carries lands. -/
theorem lastWritten_changed_iff {initial notebook : NotebookDocument}
    {past : List DidChangeNotebookParams} (h : LastWritten initial past notebook)
    (params : DidChangeNotebookParams) :
    LastWritten initial (past ++ [params]) (changedNotebook notebook params) ↔
      Lands notebook params := by
  have hversion : (changedNotebook notebook params).version =
      ((past ++ [params]).getLast?.map DidChangeNotebookParams.version).getD initial.version := by
    rw [List.getLast?_concat]
    rfl
  have hmetadata : (changedNotebook notebook params).metadata =
      ((past ++ [params]).filterMap DidChangeNotebookParams.metadata).getLast?.or
        initial.metadata ↔ (params.metadata = some [] → notebook.metadata = some []) := by
    have hlast : ((past ++ [params]).filterMap DidChangeNotebookParams.metadata).getLast?.or
        initial.metadata = params.metadata.or notebook.metadata := by
      rw [List.filterMap_append, List.getLast?_append, Option.or_assoc, ← h.metadata]
      cases hparams : params.metadata with
      | none => rw [List.filterMap_cons_none hparams]; rfl
      | some metadata => rw [List.filterMap_cons_some hparams]; rfl
    rw [hlast]
    exact writeMetadata_eq_iff notebook params.metadata
  have hcells : (changedNotebook notebook params).cells =
      ((past ++ [params]).foldl after (inserted initial.cells)).map Slot.cell ↔
        ∀ i cell, notebook.cells[i]? = some cell → Survives params.array i →
          cell.document ∈ (notebook.cells.drop (i + 1)).map NotebookCell.document →
            noted params.data cell = cell := by
    rw [List.foldl_append, List.foldl_cons, List.foldl_nil, map_cell_after, ← h.cells]
    exact changedCells_eq_iff notebook.cells params
  constructor
  · intro hlast
    exact ⟨hmetadata.mp hlast.metadata, hcells.mp hlast.cells⟩
  · intro hlands
    exact ⟨hversion, hmetadata.mpr hlands.metadata, hcells.mpr hlands.cells⟩

/-- The text content of a change leaves the notebooks alone, even where it raises. -/
theorem notebook_update (disk : Disk) (ws : Workspace) (params : DidChangeNotebookParams)
    (uri : Uri) :
    (ws.updateNotebookDocument disk params).1.notebookDocuments.get? uri =
      if params.uri = uri then
        (ws.notebookDocuments.get? uri).map fun notebook => changedNotebook notebook params
      else ws.notebookDocuments.get? uri := by
  cases hnotebook : ws.notebookDocuments.get? params.uri with
  | none =>
    rw [updateNotebookDocument, hnotebook]
    by_cases huri : params.uri = uri
    · rw [if_pos huri, ← huri, hnotebook]
      rfl
    · rw [if_neg huri]
  | some notebook =>
    obtain ⟨ws', hupdate, hnotebooks, -⟩ := updateNotebookDocument_contents disk hnotebook
    rw [hupdate, (Notebooks.updateCellContents_same disk ws' params.textContent).notebooks,
      hnotebooks]
    by_cases huri : params.uri = uri
    · rw [if_pos huri, if_pos huri.symm, ← huri, hnotebook]
      rfl
    · rw [if_neg huri, if_neg (Ne.symm huri)]

/-- For a notebook that is open, in every state that a sequence of notebook changes reaches its
attributes are those written last, just if all that the changes of it carry lands. -/
theorem attributes_follow_the_last_writer_iff (disk : Disk) {ws : Workspace} {uri : Uri}
    {initial : NotebookDocument} (hopen : ws.notebookDocuments.get? uri = some initial)
    (changes : List DidChangeNotebookParams) :
    let reached := fun past : List DidChangeNotebookParams =>
      past.foldl (fun ws params => (ws.updateNotebookDocument disk params).1) ws
    (∀ past, past <+: changes → ∃ notebook,
        (reached past).notebookDocuments.get? uri = some notebook ∧
        LastWritten initial (about uri past) notebook) ↔
      ∀ past params, past ++ [params] <+: changes → params.uri = uri →
        ∀ notebook, (reached past).notebookDocuments.get? uri = some notebook →
          Lands notebook params := by
  intro reached
  have hexact : ∀ (past : List DidChangeNotebookParams) (ws : Workspace)
      (params : DidChangeNotebookParams),
      (∃ notebook, ws.notebookDocuments.get? uri = some notebook ∧
        LastWritten initial (about uri past) notebook) →
      ((∃ notebook, (ws.updateNotebookDocument disk params).1.notebookDocuments.get? uri =
            some notebook ∧
          LastWritten initial (about uri (past ++ [params])) notebook) ↔
        (params.uri = uri → ∀ notebook, ws.notebookDocuments.get? uri = some notebook →
          Lands notebook params)) := by
    rintro past ws params ⟨notebook, hnotebook, hlast⟩
    rw [notebook_update, hnotebook, about_concat]
    by_cases huri : params.uri = uri
    · rw [if_pos huri, if_pos huri]
      constructor
      · rintro ⟨notebook', heq, hlast'⟩ - notebook'' heq''
        cases heq
        cases heq''
        exact (lastWritten_changed_iff hlast params).mp hlast'
      · intro hlands
        exact ⟨_, rfl, (lastWritten_changed_iff hlast params).mpr (hlands huri notebook rfl)⟩
    · rw [if_neg huri, if_neg huri]
      exact iff_of_true ⟨notebook, rfl, hlast⟩ fun h => absurd h huri
  refine foldl_keeps_iff hexact ⟨initial, hopen, ?_⟩ changes
  exact ⟨rfl, rfl, (map_cell_inserted initial.cells).symm⟩

/-- A workspace with a notebook of one cell. -/
def sampleWorkspace (metadata : Option Metadata) : Workspace :=
  { Workspace.new .incremental [] .utf16 with
    notebookDocuments := Dict.empty.set [0x6E] ⟨[0x6E], [], 1, [⟨.code, [0x63], none, none⟩], metadata⟩ }

theorem attributes_follow_the_last_writer_cell :
    let disk : Disk := fun uri => .error (.osError uri)
    let change : DidChangeNotebookParams :=
      ⟨[0x6E], 2, some [([0x6B], .null)], some ⟨none, some [⟨.markup, [0x63], none, none⟩], none⟩⟩
    ∀ past, past <+: [change] → ∃ notebook,
      (past.foldl (fun ws params => (ws.updateNotebookDocument disk params).1)
        (sampleWorkspace none)).notebookDocuments.get? [0x6E] = some notebook ∧
      LastWritten ⟨[0x6E], [], 1, [⟨.code, [0x63], none, none⟩], none⟩ (about [0x6E] past)
        notebook := by
  intro disk change
  refine (attributes_follow_the_last_writer_iff disk rfl [change]).mpr ?_
  intro past params hpre _ notebook hnotebook
  have hlen := hpre.length_le
  rw [List.length_append, List.length_singleton, List.length_singleton] at hlen
  obtain rfl : past = [] := List.length_eq_zero_iff.mp (by omega)
  obtain ⟨rfl, -⟩ := List.cons_prefix_cons.mp hpre
  cases hnotebook
  refine ⟨nofun, ?_⟩
  intro i cell _ _ hmem
  cases i with
  | zero => cases hmem
  | succ i => cases hmem

/-- Empty metadata is taken for none: the old metadata stays. -/
theorem empty_metadata_ignored :
    let disk : Disk := fun uri => .error (.osError uri)
    let ws := sampleWorkspace (some [([0x6B], .null)])
    let change : DidChangeNotebookParams := ⟨[0x6E], 2, some [], none⟩
    ¬ ∃ notebook, (ws.updateNotebookDocument disk change).1.notebookDocuments.get? [0x6E] =
        some notebook ∧
      LastWritten ⟨[0x6E], [], 1, [⟨.code, [0x63], none, none⟩], some [([0x6B], .null)]⟩ [change]
        notebook := by
  rintro disk ws change ⟨notebook, hnotebook, hlast⟩
  have hmetadata := hlast.metadata
  cases hnotebook
  cases hmetadata

end Pygls.NotebookHistory
