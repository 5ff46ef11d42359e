import Pygls.Contents
import Pygls.Folders
import Pygls.Lib.Run

/-!
# Versions

A client tells the version of a document in the item that opens it and next to
every list of changes. The server writes the version down when it opens the
document and after each single change, so what an entry without changes carries
is lost, and so is what comes behind an entry that raises.
-/

namespace Pygls.Versions

open Lib Workspace

set_option autoImplicit false

def carried (contents : List CellContentChange) : List (Uri × Int) :=
  contents.map fun entry => (entry.document.uri, entry.document.version)

def openedAt (items : List TextDocumentItem) : List (Uri × Int) :=
  items.map fun item => (item.uri, item.version)

/-- The documents a message is about, each with the version it carries. -/
def mentions : WorkspaceMessage → List (Uri × Int)
  | .text (.didOpen item) => openedAt [item]
  | .text (.didChange textDocument changes) => carried [⟨textDocument, changes⟩]
  | .text (.didClose _) => []
  | .notebookDidOpen _ items => openedAt items
  | .notebookDidChange params => openedAt params.didOpen ++ carried params.textContent
  | .notebookDidClose _ _ => []
  | .didChangeFolders _ _ => []

/-- Every open document has the version last carried for it. -/
def Follows (docs : Documents) (past : List (Uri × Int)) : Prop :=
  ∀ uri doc, docs uri = some doc → ∃ v, latest uri past = some v ∧ doc.version = some v

/-- The entries that change a document: those with a change, up to the first that raises. -/
def effective (docs : Documents) (contents : List CellContentChange) : List CellContentChange :=
  (applied docs contents).filter fun entry => !entry.changes.isEmpty

/-- What the last entry about an open document carries is what the last effective one carries,
or, without any, the version that the document has. -/
def Current (docs : Documents) (contents : List CellContentChange) : Prop :=
  ∀ uri doc v, docs uri = some doc → latest uri (carried contents) = some v →
    (latest uri (carried (effective docs contents))).or doc.version = some v

/-- A message that leaves no version behind. A change of a notebook that is not open changes no
document. -/
def UpToDate (ws : Workspace) : WorkspaceMessage → Prop
  | .text (.didChange textDocument changes) => Current ws.documents [⟨textDocument, changes⟩]
  | .notebookDidChange params =>
    match ws.notebookDocuments.get? params.uri with
    | some _ => Current (documentsAt ws params) params.textContent
    | none => ∀ uri doc v, ws.documents uri = some doc →
        latest uri (openedAt params.didOpen ++ carried params.textContent) = some v →
          doc.version = some v
  | _ => True

variable {disk : Disk} {ws : Workspace} {past : List (Uri × Int)}

theorem Follows.congr {docs docs' : Documents} (h : ∀ uri, docs' uri = docs uri) :
    Follows docs' past ↔ Follows docs past := by
  obtain rfl : docs' = docs := funext h
  exact Iff.rfl

theorem edit_version {doc : TextDocument} (h : doc.stored ≠ none) (version : Int)
    {changes : List ContentChange} (hne : changes ≠ []) :
    (edit disk version doc changes).version = some version := by
  induction changes generalizing doc with
  | nil => exact absurd rfl hne
  | cons change rest ih =>
    obtain ⟨r, hr⟩ := applyChange_ok h disk change
    have hstored := (applyChange_stored h disk disk change).2 r hr
    rw [edit, hr]
    dsimp only
    cases rest with
    | nil => rfl
    | cons change' rest => exact ih hstored (List.cons_ne_nil change' rest)

theorem latest_carried_cons (uri : Uri) (entry : CellContentChange)
    (contents : List CellContentChange) :
    latest uri (carried (entry :: contents)) = (latest uri (carried contents)).or
      (if entry.document.uri = uri then some entry.document.version else none) := rfl

/-- The version of a document after the entries is that of the last one with a change. -/
theorem editAll_version {doc : TextDocument} (h : doc.stored ≠ none) (uri : Uri)
    (contents : List CellContentChange) :
    (editAll disk uri contents doc).version =
      (latest uri (carried (contents.filter fun entry => !entry.changes.isEmpty))).or
        doc.version := by
  induction contents generalizing doc with
  | nil => rfl
  | cons entry rest ih =>
    rw [editAll]
    by_cases huri : entry.document.uri = uri
    · rw [if_pos huri, ih (edit_stored h _ _)]
      cases hchanges : entry.changes with
      | nil =>
        rw [List.filter_cons_of_neg (by rw [hchanges]; decide)]
        rfl
      | cons change changes =>
        rw [List.filter_cons_of_pos (by rw [hchanges]; rfl), latest_carried_cons, if_pos huri,
          Option.or_assoc, Option.some_or, edit_version h _ (List.cons_ne_nil _ _)]
    · rw [if_neg huri, ih h, List.filter_cons]
      split
      · rw [latest_carried_cons, if_neg huri, Option.or_none]
      · rfl

theorem latest_carried_sublist {contents contents' : List CellContentChange} {uri : Uri}
    (h : contents'.Sublist contents) (hnone : latest uri (carried contents) = none) :
    latest uri (carried contents') = none := by
  rw [latest_eq_none_iff] at hnone ⊢
  intro hmem
  exact hnone (((h.map _).map _).subset hmem)

/-- The loop over the text content keeps the versions just if it leaves none behind. -/
theorem follows_contents_iff (disk : Disk) (h : Stored ws) (hf : Follows ws.documents past)
    (contents : List CellContentChange) :
    Follows (updateCellContents disk ws contents).1.documents (past ++ carried contents) ↔
      Current ws.documents contents := by
  have hdocs := (updateCellContents_documents disk h contents).1
  constructor
  · intro hafter uri doc v hdoc hv
    have hdoc' := hdocs uri
    rw [hdoc, Option.map_some] at hdoc'
    obtain ⟨v', hv', hversion⟩ := hafter uri _ hdoc'
    rw [latest_append, hv, Option.some_or] at hv'
    rw [editAll_version (h uri doc hdoc), ← hv'] at hversion
    exact hversion
  · intro hcurrent uri doc' hdoc'
    rw [hdocs, Option.map_eq_some_iff] at hdoc'
    obtain ⟨doc, hdoc, rfl⟩ := hdoc'
    rw [editAll_version (h uri doc hdoc), latest_append]
    cases hv : latest uri (carried contents) with
    | some v => exact ⟨v, rfl, hcurrent uri doc v hdoc hv⟩
    | none =>
      have hsub : (effective ws.documents contents).Sublist contents :=
        (List.filter_sublist).trans (List.takeWhile_sublist _)
      have hnone := latest_carried_sublist hsub hv
      rw [effective] at hnone
      rw [hnone, Option.none_or, Option.none_or]
      exact hf uri doc hdoc

theorem follows_opened (hf : Follows ws.documents past) (items : List TextDocumentItem)
    {docs : Documents} (hdocs : ∀ uri, docs uri = (latest uri (items.map fun item =>
      (item.uri, ws.createTextDocument item.uri item.text item.version item.languageId))).or
        (ws.documents uri)) : Follows docs (past ++ openedAt items) := by
  intro uri doc hdoc
  rw [hdocs, latest_map uri TextDocumentItem.uri, Option.or_eq_some_iff] at hdoc
  rw [latest_append, openedAt, latest_map uri TextDocumentItem.uri]
  rcases hdoc with hdoc | ⟨hnone, hdoc⟩
  · obtain ⟨item, hitem, rfl⟩ := Option.map_eq_some_iff.mp hdoc
    rw [hitem]
    exact ⟨item.version, rfl, rfl⟩
  · rw [Option.map_eq_none_iff.mp hnone]
    exact hf uri doc hdoc

theorem Follows.removed {docs docs' : Documents} (hf : Follows docs past) (uris : List Uri)
    (h : ∀ uri, docs' uri = if uri ∈ uris then none else docs uri) : Follows docs' past := by
  intro uri doc hdoc
  rw [h] at hdoc
  split at hdoc
  · cases hdoc
  · exact hf uri doc hdoc

theorem follows_documentsAt (hf : Follows ws.documents past) (params : DidChangeNotebookParams) :
    Follows (documentsAt ws params) (past ++ openedAt params.didOpen) := by
  have hopened := follows_opened hf params.didOpen (fun _ => rfl)
  exact hopened.removed params.didClose fun _ => rfl

theorem follows_notebookDidChange_iff (h : Stored ws) (hf : Follows ws.documents past)
    (params : DidChangeNotebookParams) :
    Follows (ws.updateNotebookDocument disk params).1.documents
      (past ++ mentions (.notebookDidChange params)) ↔
        UpToDate ws (.notebookDidChange params) := by
  rw [UpToDate]
  cases hnotebook : ws.notebookDocuments.get? params.uri with
  | none =>
    rw [updateNotebookDocument, hnotebook]
    constructor
    · intro hafter uri doc v hdoc hv
      obtain ⟨v', hv', hversion⟩ := hafter uri doc hdoc
      rw [latest_append, mentions, hv, Option.some_or] at hv'
      rw [hversion, hv']
    · intro hcurrent uri doc hdoc
      obtain ⟨v, hv, hversion⟩ := hf uri doc hdoc
      rw [latest_append, mentions]
      cases hv' : latest uri (openedAt params.didOpen ++ carried params.textContent) with
      | none => exact ⟨v, hv, hversion⟩
      | some v' => exact ⟨v', rfl, hcurrent uri doc v' hdoc hv'⟩
  | some notebook =>
    obtain ⟨ws', hupdate, -, -, hdocs⟩ := updateNotebookDocument_contents disk hnotebook
    have hreached : Follows ws'.documents (past ++ openedAt params.didOpen) :=
      (Follows.congr hdocs).mpr (follows_documentsAt hf params)
    rw [hupdate, mentions, ← List.append_assoc,
      follows_contents_iff disk (stored_documentsAt h params hdocs) hreached]
    obtain hfun : ws'.documents = documentsAt ws params := funext hdocs
    rw [hfun]

theorem updateCellContents_single (disk : Disk) (ws : Workspace) (entry : CellContentChange) :
    (updateCellContents disk ws [entry]).1 =
      (updateTextDocuments disk entry.document ws entry.changes).1 := by
  rw [updateCellContents_cons]
  dsimp only
  split
  · rfl
  · rfl

/-- A message keeps the versions just if it leaves none behind. -/
theorem follows_update_iff (h : Stored ws) (hf : Follows ws.documents past)
    (m : WorkspaceMessage) :
    Follows (m.update disk ws).1.documents (past ++ mentions m) ↔ UpToDate ws m := by
  cases m with
  | text notification =>
    cases notification with
    | didOpen item =>
      refine iff_of_true (follows_opened hf [item] fun uri => ?_) trivial
      exact documents_putTextDocuments ws [item] none uri
    | didChange textDocument changes =>
      have hiff := follows_contents_iff disk h hf [⟨textDocument, changes⟩]
      rw [updateCellContents_single] at hiff
      exact hiff
    | didClose uri =>
      refine iff_of_true ?_ trivial
      rw [mentions, List.append_nil]
      refine hf.removed [uri] ?_
      exact (Notebooks.foldl_removeTextDocument [uri] ws).2.2
  | notebookDidOpen notebook items =>
    have hset : Follows { ws with
        notebookDocuments := ws.notebookDocuments.set notebook.uri notebook }.documents past := hf
    refine iff_of_true (follows_opened hset items ?_) trivial
    exact documents_putTextDocuments _ items (some notebook.uri)
  | notebookDidChange params => exact follows_notebookDidChange_iff h hf params
  | notebookDidClose uri uris =>
    refine iff_of_true ?_ trivial
    rw [mentions, List.append_nil]
    refine hf.removed uris ?_
    exact (Notebooks.foldl_removeTextDocument uris _).2.2
  | didChangeFolders added removed =>
    refine iff_of_true ?_ trivial
    rw [mentions, List.append_nil, WorkspaceMessage.update, Folders.changeFolders_frame]
    exact hf

theorem follows_new (kind : SyncKind) (folders : List WorkspaceFolder) (encoding : Encoding) :
    Follows (Workspace.new kind folders encoding).documents [] := by
  have hempty : ∀ (ws : Workspace) (folders : List WorkspaceFolder),
      (folders.foldl addFolder ws).textDocuments = ws.textDocuments := by
    intro ws folders
    induction folders generalizing ws with
    | nil => rfl
    | cons folder folders ih => exact ih (ws.addFolder folder)
  intro uri doc hdoc
  rw [documents, Workspace.new, hempty] at hdoc
  cases hdoc

/-- In every state that a run of workspace messages reaches, each open document has the version
last carried for it, just if no message of the run leaves a version behind. -/
theorem versions_follow_the_client_iff (disk : Disk) (kind : SyncKind)
    (folders : List WorkspaceFolder) (encoding : Encoding) (messages : List WorkspaceMessage) :
    let reached := fun past : List WorkspaceMessage =>
      past.foldl (fun ws m => (m.update disk ws).1) (Workspace.new kind folders encoding)
    (∀ past, past <+: messages → Follows (reached past).documents (past.flatMap mentions)) ↔
      ∀ past m, past ++ [m] <+: messages → UpToDate (reached past) m := by
  intro reached
  have hexact : ∀ (past : List WorkspaceMessage) (ws : Workspace) (m : WorkspaceMessage),
      Stored ws ∧ Follows ws.documents (past.flatMap mentions) →
        (Stored (m.update disk ws).1 ∧
          Follows (m.update disk ws).1.documents ((past ++ [m]).flatMap mentions) ↔
            UpToDate ws m) := by
    rintro past ws m ⟨hstored, hf⟩
    rw [List.flatMap_append, List.flatMap_singleton, ← follows_update_iff hstored hf m]
    exact and_iff_right (hstored.update disk disk m).2
  rw [← foldl_keeps_iff hexact
    ⟨Stored.new kind folders encoding, follows_new kind folders encoding⟩ messages]
  have hstored : ∀ past, Stored (reached past) := by
    intro past
    induction past using List.reverseRecOn with
    | nil => exact Stored.new kind folders encoding
    | append_singleton past m ih =>
      dsimp only [reached]
      rw [List.foldl_append]
      exact (ih.update disk disk m).2
  exact forall_congr' fun past => forall_congr' fun _ => (and_iff_right (hstored past)).symm

/-- A change of the version alone: the document keeps the version it was opened with. -/
theorem version_left_behind :
    let ws := Workspace.new .incremental [] .utf16
    let disk : Disk := fun uri => .error (.osError uri)
    let messages : List WorkspaceMessage :=
      [.text (.didOpen ⟨[0x61], [], 1, []⟩), .text (.didChange ⟨[0x61], 2⟩ [])]
    ¬ Follows (messages.foldl (fun ws m => (m.update disk ws).1) ws).documents
      (messages.flatMap mentions) := by
  intro ws disk messages h
  obtain ⟨v, hv, hversion⟩ := h [0x61] _ rfl
  cases hv
  cases hversion

end Pygls.Versions
