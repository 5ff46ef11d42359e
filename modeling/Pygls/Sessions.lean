import Pygls.Announcements
import Pygls.Folders
import Pygls.Schedules
import Pygls.TextSync
import Pygls.Units
import Pygls.Uris

/-!
# Sessions

What `initialize` settles and what stays settled: the encoding that is announced and the one
that the workspace counts in, the features that are announced and the ones that can be called.
A session is a run of segments, each of which is on the stack alone. `lsp_initialize` has two
of them, before and behind the user's handler.
-/

namespace Pygls.Sessions

open Lib Decoding Routing Features Capabilities

set_option autoImplicit false

/-- What a server is made of. `builtinFeatures` are the names that
`_register_builtin_features` has found. -/
structure Settings (C T : Type) where
  lsprotocol : LspTypes C
  optionTypes : OptionTypes (Options C) T
  isWin : Bool
  refuses : List Char → Bool
  builtinFeatures : List Method
  textDocumentSyncKind : SyncKind
  notebookDocumentSync : Value C

structure InitializeParams (C : Type) where
  capabilities : Value C
  rootPath : Option (List Char)
  rootUri : Option (List Char)
  workspaceFolders : Option (List WorkspaceFolder)

/-- The attributes of a workspace that say where it is. -/
structure Root where
  uri : Option (List Char)
  scheme : Option (List Char)
  path : Option (List Char)

/-- `lsp_initialize` behind its first segment, with its locals. -/
structure Generator (C : Type) where
  params : InitializeParams C
  positionEncoding : Str
  finished : Bool

/-- `results` are the capabilities in the results of `initialize`, with the generators that
have made them. -/
structure Session (C : Type) where
  fm : Features.FeatureManager C (Options C)
  clientCapabilities : Option (Value C)
  root : Option Root
  workspace : Option Workspace
  generators : List (Generator C)
  results : List (Nat × ServerCapabilities C)

/-- `resume` is the last segment of `lsp_initialize`: there is no handler of the user, or it has
ended. -/
inductive Event (C : Type) where
  | initializeRequest (params : InitializeParams C)
  | resume (generator : Nat)
  | register (call : Registration C (Options C))
  | thread (f : Function C)
  | notification (message : WorkspaceMessage) (disk : Disk)

variable {C T : Type}

namespace Settings

variable (c : Settings C T)

/-- `Workspace.__init__` up to the documents. -/
def root : Option (List Char) → Except Uris.UriError Root
  | none => .ok ⟨none, none, none⟩
  | some uri =>
    match Uris.urlparse c.refuses uri with
    | .error e => .error e
    | .ok parts => (Uris.toFsPath c.refuses c.isWin uri).map fun path =>
        ⟨some uri, some parts.scheme, path⟩

/-- `root_path` only counts where there is no `root_uri`. -/
def rootOf (params : InitializeParams C) : Except Uris.UriError Root :=
  match params.rootPath, params.rootUri with
  | some path, none =>
    match Uris.fromFsPath c.isWin path with
    | .error e => .error e
    | .ok uri => c.root (some uri)
  | _, uri => c.root uri

end Settings

def Session.init (fm : Features.FeatureManager C (Options C)) : Session C :=
  ⟨fm, none, none, none, [], []⟩

variable (c : Settings C T)

namespace Session

/-- The first segment of `lsp_initialize`. -/
def lspInitialize (s : Session C) (params : InitializeParams C) :
    Session C × Option Uris.UriError :=
  let s := { s with clientCapabilities := some params.capabilities }
  let positionEncoding := choosePositionEncoding params.capabilities
  match c.rootOf params with
  | .error e => (s, some e)
  | .ok root =>
    ({ s with
        root := some root
        workspace := some (Workspace.new c.textDocumentSyncKind (params.workspaceFolders.getD [])
          (.ofValue (some positionEncoding)))
        generators := s.generators ++ [⟨params, positionEncoding, false⟩] }, none)

/-- `set({**self.fm.features, **self.fm.builtin_features}.keys())`, in some order. -/
def features (s : Session C) : List Method :=
  s.fm.tables.features.entries.map Prod.fst ++ c.builtinFeatures

/-- What the builder is given of the server. -/
def inputs (s : Session C) (clientCapabilities : Value C) : Inputs C where
  clientCapabilities := clientCapabilities
  features := s.features c
  commands := s.fm.tables.commands.entries.map Prod.fst
  textDocumentSyncKind := c.textDocumentSyncKind
  notebookDocumentSync := c.notebookDocumentSync

/-- `_get_handler`, as far as there is one. -/
def hasHandler (s : Session C) (method : Method) : Bool :=
  method ∈ c.builtinFeatures || (s.fm.tables.features.get? method).isSome

variable [LE C] [DecidableLE C]

/-- The last segment of `lsp_initialize`. The builder writes to the options of the features. That
the capabilities have a JSON text, for `logger.debug`, is taken for granted. -/
def lspInitializeEnd (s : Session C) (k : Nat) (g : Generator C) (clientCapabilities : Value C) :
    Session C :=
  let b := (ServerCapabilitiesBuilder.new (s.inputs c clientCapabilities)
    s.fm.tables.featureOptions g.positionEncoding).build c.lsprotocol
  { s with
    fm := { s.fm with tables := { s.fm.tables with featureOptions := b.featureOptions } }
    generators := s.generators.set k { g with finished := true }
    results := s.results ++ [(k, b.serverCap)] }

theorem lspInitializeEnd_workspace (s : Session C) (k : Nat) (g : Generator C)
    (clientCapabilities : Value C) :
    (s.lspInitializeEnd c k g clientCapabilities).workspace = s.workspace := by
  rw [lspInitializeEnd]

end Session

variable [LE C] [DecidableLE C]

def step (s : Session C) : Event C → Option (Session C)
  | .initializeRequest params => some (s.lspInitialize c params).1
  | .resume k =>
    match s.generators[k]?, s.clientCapabilities with
    | some g, some clientCapabilities =>
      if g.finished then none else some (s.lspInitializeEnd c k g clientCapabilities)
    | _, _ => none
  | .register call => some { s with fm := (s.fm.register c.optionTypes call).1 }
  | .thread f => some { s with fm := (s.fm.thread f).1 }
  | .notification message disk =>
    some { s with workspace := s.workspace.map fun ws => (message.update disk ws).1 }

/-- A change leaves alone what the document was made with. -/
theorem applyChange_keeps {disk : Disk} {doc : TextDocument} {change : ContentChange}
    {r : TextDocument × ContentChange} (h : doc.applyChange disk change = .ok r) :
    r.1.syncKind = doc.syncKind ∧ r.1.encoding = doc.encoding := by
  unfold TextDocument.applyChange at h
  split at h
  · cases hsource : doc.source disk with
    | error e =>
      rw [hsource] at h
      cases h
    | ok old =>
      rw [hsource] at h
      cases h
      exact ⟨rfl, rfl⟩
  · cases h
    exact ⟨rfl, rfl⟩
  · cases h
    exact ⟨rfl, rfl⟩
  · cases h
    exact ⟨rfl, rfl⟩

/-- Every open document is synchronised as the workspace is and counts as it does. -/
structure Uniform (kind : SyncKind) (encoding : Encoding) (ws : Workspace) : Prop where
  sync : ws.syncKind = kind
  units : ws.encoding = encoding
  documents : ∀ uri doc, ws.textDocuments.get? uri = some doc →
    doc.syncKind = kind ∧ doc.encoding = encoding

namespace Uniform

variable {kind : SyncKind} {encoding : Encoding} {ws ws' : Workspace}

theorem of_write (h : Uniform kind encoding ws) (hkind : ws'.syncKind = ws.syncKind)
    (hencoding : ws'.encoding = ws.encoding)
    (hdocs : ∀ uri doc, ws'.textDocuments.get? uri = some doc →
      (doc.syncKind = kind ∧ doc.encoding = encoding) ∨ ws.textDocuments.get? uri = some doc) :
    Uniform kind encoding ws' := by
  refine ⟨hkind.trans h.sync, hencoding.trans h.units, ?_⟩
  intro uri doc hdoc
  rcases hdocs uri doc hdoc with hnew | hold
  · exact hnew
  · exact h.documents uri doc hold

/-- One document is written. -/
theorem set (h : Uniform kind encoding ws) {uri : Uri} {doc : TextDocument}
    (hdoc : doc.syncKind = kind ∧ doc.encoding = encoding) (hkind : ws'.syncKind = ws.syncKind)
    (hencoding : ws'.encoding = ws.encoding)
    (heq : ws'.textDocuments = ws.textDocuments.set uri doc) : Uniform kind encoding ws' := by
  apply h.of_write hkind hencoding
  intro uri' doc' hdoc'
  rw [heq, Dict.get?_set] at hdoc'
  split at hdoc'
  · cases hdoc'
    exact .inl hdoc
  · exact .inr hdoc'

theorem congr (h : Uniform kind encoding ws) (hkind : ws'.syncKind = ws.syncKind)
    (hencoding : ws'.encoding = ws.encoding) (heq : ws'.textDocuments = ws.textDocuments) :
    Uniform kind encoding ws' := by
  apply h.of_write hkind hencoding
  intro uri doc hdoc
  rw [heq] at hdoc
  exact .inr hdoc

theorem new (folders : List WorkspaceFolder) (kind : SyncKind) (encoding : Encoding) :
    Uniform kind encoding (Workspace.new kind folders encoding) := by
  obtain ⟨hdocs, hkind, hencoding⟩ :=
    TextSync.foldl_addFolder folders ⟨kind, encoding, .empty, .empty, .empty, .empty⟩
  refine ⟨hkind, hencoding, ?_⟩
  intro uri doc hdoc
  rw [Workspace.new, hdocs] at hdoc
  cases hdoc

theorem putTextDocument (h : Uniform kind encoding ws) (item : TextDocumentItem)
    (notebookUri : Option Uri) : Uniform kind encoding (ws.putTextDocument item notebookUri) := by
  have hdoc : (ws.createTextDocument item.uri item.text item.version item.languageId).syncKind =
      kind ∧ (ws.createTextDocument item.uri item.text item.version item.languageId).encoding =
        encoding := ⟨h.sync, h.units⟩
  unfold Workspace.putTextDocument
  cases notebookUri with
  | none => exact h.set hdoc rfl rfl rfl
  | some uri =>
    dsimp only
    split
    · exact h.set hdoc rfl rfl rfl
    · exact h.set hdoc rfl rfl rfl

theorem putTextDocuments (h : Uniform kind encoding ws) (items : List TextDocumentItem)
    (notebookUri : Option Uri) :
    Uniform kind encoding
      (items.foldl (fun ws cell => ws.putTextDocument cell notebookUri) ws) := by
  induction items generalizing ws with
  | nil => exact h
  | cons item items ih => exact ih (h.putTextDocument item notebookUri)

theorem removeTextDocument (h : Uniform kind encoding ws) (uri : Uri) :
    Uniform kind encoding (ws.removeTextDocument uri) := by
  refine h.of_write rfl rfl ?_
  intro uri' doc hdoc
  rw [Workspace.removeTextDocument, Dict.get?_pop] at hdoc
  split at hdoc
  · cases hdoc
  · exact .inr hdoc

theorem removeTextDocuments (h : Uniform kind encoding ws) (uris : List Uri) :
    Uniform kind encoding (uris.foldl Workspace.removeTextDocument ws) := by
  induction uris generalizing ws with
  | nil => exact h
  | cons uri uris ih => exact ih (h.removeTextDocument uri)

theorem updateTextDocuments (h : Uniform kind encoding ws) (disk : Disk)
    (textDoc : VersionedTextDocumentIdentifier) (changes : List ContentChange) :
    Uniform kind encoding (Workspace.updateTextDocuments disk textDoc ws changes).1 := by
  induction changes generalizing ws with
  | nil => exact h
  | cons change changes ih =>
    cases hget : ws.textDocuments.get? textDoc.uri with
    | none =>
      simp only [Workspace.updateTextDocuments, Workspace.updateTextDocument, hget]
      exact h
    | some doc =>
      cases hr : doc.applyChange disk change with
      | error e =>
        simp only [Workspace.updateTextDocuments, Workspace.updateTextDocument, hget, hr,
          Except.map]
        exact h
      | ok r =>
        simp only [Workspace.updateTextDocuments, Workspace.updateTextDocument, hget, hr,
          Except.map]
        have hkeeps : r.1.syncKind = doc.syncKind ∧ r.1.encoding = doc.encoding :=
          applyChange_keeps hr
        obtain ⟨hkind, hencoding⟩ := h.documents textDoc.uri doc hget
        refine ih (h.set ?_ rfl rfl rfl)
        exact ⟨hkeeps.1.trans hkind, hkeeps.2.trans hencoding⟩

theorem updateCellContents (h : Uniform kind encoding ws) (disk : Disk)
    (contents : List CellContentChange) :
    Uniform kind encoding (Workspace.updateCellContents disk ws contents).1 := by
  induction contents generalizing ws with
  | nil => exact h
  | cons content contents ih =>
    have hone := h.updateTextDocuments disk content.document content.changes
    rw [Workspace.updateCellContents]
    split
    · rename_i heq
      rw [heq] at hone
      exact hone
    · rename_i heq
      rw [heq] at hone
      exact ih hone

theorem updateNotebookDocument (h : Uniform kind encoding ws) (disk : Disk)
    (params : DidChangeNotebookParams) :
    Uniform kind encoding (ws.updateNotebookDocument disk params).1 := by
  unfold Workspace.updateNotebookDocument
  cases ws.notebookDocuments.get? params.uri with
  | none => exact h
  | some notebook =>
    dsimp only
    cases params.cells with
    | none => exact h.congr rfl rfl rfl
    | some changes =>
      apply updateCellContents
      cases changes.cellStructure with
      | none => exact h.congr rfl rfl rfl
      | some change =>
        apply removeTextDocuments
        apply putTextDocuments
        exact h.congr rfl rfl rfl

theorem changeFolders (h : Uniform kind encoding ws) (added removed : List WorkspaceFolder) :
    Uniform kind encoding (WorkspaceMessage.changeFolders ws added removed) := by
  rw [Folders.changeFolders_frame]
  exact h.congr rfl rfl rfl

theorem update (h : Uniform kind encoding ws) (disk : Disk) (message : WorkspaceMessage) :
    Uniform kind encoding (message.update disk ws).1 := by
  cases message with
  | text notification =>
    cases notification with
    | didOpen item => exact h.putTextDocument item none
    | didChange textDoc changes => exact h.updateTextDocuments disk textDoc changes
    | didClose uri => exact h.removeTextDocument uri
  | notebookDidOpen notebook cells =>
    apply putTextDocuments
    exact h.congr rfl rfl rfl
  | notebookDidChange params => exact h.updateNotebookDocument disk params
  | notebookDidClose uri cells =>
    apply removeTextDocuments
    exact h.congr rfl rfl rfl
  | didChangeFolders added removed => exact h.changeFolders _ _

end Uniform

/-- No registration is lost. -/
def Keeps {O : Type} (m m' : Features.FeatureManager C O) : Prop :=
  ∀ regType name handler, m.registered regType name = some handler →
    m'.registered regType name = some handler

namespace Keeps

variable {O : Type} {m m' : Features.FeatureManager C O}

omit [LE C] [DecidableLE C] in
theorem of_tables (h : m'.tables = m.tables) : Keeps m m' := by
  intro regType name handler hreg
  rw [← hreg]
  cases regType with
  | command => exact congrArg (fun tables => tables.commands.get? name) h
  | feature => exact congrArg (fun tables => tables.features.get? name) h

omit [LE C] [DecidableLE C] in
theorem featureOptions (m : Features.FeatureManager C O) (options : Dict Str O) :
    Keeps m { m with tables := { m.tables with featureOptions := options } } := by
  intro regType name handler hreg
  cases regType with
  | command => exact hreg
  | feature => exact hreg

/-- A handler goes under a name that was free. -/
theorem of_registers {f : Features.Function C} {name : Str} {regType : RegisteredType}
    (hfree : m.registered regType name = none)
    (h : FeatureManager.Registers m m' f name regType) : Keeps m m' := by
  intro regType' name' handler hreg
  rw [h.registered]
  split
  · rename_i hsame
    obtain ⟨rfl, rfl⟩ := hsame
    rw [hfree] at hreg
    cases hreg
  · exact hreg

theorem register (types : OptionTypes O T) (m : Features.FeatureManager C O)
    (call : Registration C O) : Keeps m (m.register types call).1 := by
  cases call with
  | command name f =>
    rw [FeatureManager.register]
    rcases FeatureManager.command_cases m name f with ⟨e, heq⟩ | ⟨n, m', -, hfree, heq, hreg⟩
    · rw [heq]
      exact of_tables rfl
    · rw [heq]
      exact of_registers hfree hreg
  | feature name options f =>
    rw [FeatureManager.register]
    rcases FeatureManager.feature_cases types m name options f with ⟨-, e, heq⟩ |
      ⟨n, m', e, -, hfree, -, heq, hreg⟩ | ⟨n, m', -, hfree, -, heq, hreg⟩
    · rw [heq]
      exact of_tables rfl
    · rw [heq]
      exact of_registers hfree hreg
    · rw [heq]
      exact of_registers hfree hreg

omit [LE C] [DecidableLE C] in
theorem thread (m : Features.FeatureManager C O) (f : Features.Function C) :
    Keeps m (m.thread f).1 := by
  apply of_tables
  unfold FeatureManager.thread
  split
  · rfl
  · split
    · split
      · rfl
      · rfl
    · rfl

end Keeps

omit [LE C] [DecidableLE C] in
theorem mem_features_iff (s : Session C) (method : Method) :
    method ∈ s.features c ↔ s.hasHandler c method = true := by
  simp only [Session.features, Session.hasHandler, List.mem_append, Dict.mem_keys_iff,
    Bool.or_eq_true, decide_eq_true_eq]
  exact or_comm

omit [LE C] [DecidableLE C] in
theorem hasHandler_keeps {s t : Session C} (h : Keeps s.fm t.fm) {method : Method}
    (hs : s.hasHandler c method = true) : t.hasHandler c method = true := by
  simp only [Session.hasHandler, Bool.or_eq_true] at hs ⊢
  apply hs.imp_right
  intro hfeature
  obtain ⟨handler, hget⟩ := Option.isSome_iff_exists.mp hfeature
  exact Option.isSome_iff_exists.mpr ⟨handler, h .feature method handler hget⟩

/-- Whatever the capabilities announce has a handler. -/
structure Serves (s : Session C) (caps : ServerCapabilities C) : Prop where
  announced : ∀ r ∈ announcements, r.Shows (caps r.target) →
    s.hasHandler c r.method = true ∧ s.hasHandler c r.host = true
  tokens : caps .semanticTokensProvider ≠ .null →
    ∃ method ∈ ServerCapabilitiesBuilder.semanticTokensProviders, s.hasHandler c method = true
  commands : ∃ names : List Str, getattr (text "commands") (caps .executeCommandProvider) =
    some (.list (names.map .str)) ∧ ∀ name ∈ names, (s.fm.tables.commands.get? name).isSome = true

namespace Serves

variable {c}

omit [LE C] [DecidableLE C] in
theorem keeps {s t : Session C} {caps : ServerCapabilities C} (h : Serves c s caps)
    (hkeeps : Keeps s.fm t.fm) : Serves c t caps := by
  constructor
  case announced =>
    intro r hr hshows
    obtain ⟨hmethod, hhost⟩ := h.announced r hr hshows
    exact ⟨hasHandler_keeps c hkeeps hmethod, hasHandler_keeps c hkeeps hhost⟩
  case tokens =>
    intro hne
    obtain ⟨method, hmem, hmethod⟩ := h.tokens hne
    exact ⟨method, hmem, hasHandler_keeps c hkeeps hmethod⟩
  case commands =>
    obtain ⟨names, hnames, hall⟩ := h.commands
    refine ⟨names, hnames, ?_⟩
    intro name hname
    obtain ⟨handler, hget⟩ := Option.isSome_iff_exists.mp (hall name hname)
    exact Option.isSome_iff_exists.mpr ⟨handler, hkeeps .command name handler hget⟩

end Serves

/-- The capabilities of one generator announce what there is at its end. -/
theorem serves_built (s : Session C) (clientCapabilities : Value C) (positionEncoding : Str) :
    Serves c s ((ServerCapabilitiesBuilder.new (s.inputs c clientCapabilities)
      s.fm.tables.featureOptions positionEncoding).build c.lsprotocol).serverCap := by
  constructor
  case announced =>
    intro r hr hshows
    rw [ServerCapabilitiesBuilder.announced_iff_due _ _ _ _ hr] at hshows
    obtain ⟨hmethod, hhost, -⟩ := hshows
    exact ⟨(mem_features_iff c s r.method).mp hmethod, (mem_features_iff c s r.host).mp hhost⟩
  case tokens =>
    intro hne
    have htokens := ServerCapabilitiesBuilder.semanticTokens_announced c.lsprotocol
      (s.inputs c clientCapabilities) s.fm.tables.featureOptions positionEncoding
    cases hgiven : ServerCapabilitiesBuilder.semanticTokensGiven (s.inputs c clientCapabilities)
        s.fm.tables.featureOptions with
    | none =>
      rw [hgiven] at htokens
      exact absurd htokens hne
    | some o =>
      have hmem : ∀ method, method ∈ (s.inputs c clientCapabilities).features →
          s.hasHandler c method = true := fun method => (mem_features_iff c s method).mp
      rcases ServerCapabilitiesBuilder.exists_of_given _ _ hgiven with h | h | h
      · exact ⟨_, by simp [ServerCapabilitiesBuilder.semanticTokensProviders], hmem _ h⟩
      · exact ⟨_, by simp [ServerCapabilitiesBuilder.semanticTokensProviders], hmem _ h⟩
      · exact ⟨_, by simp [ServerCapabilitiesBuilder.semanticTokensProviders], hmem _ h⟩
  case commands =>
    refine ⟨s.fm.tables.commands.entries.map Prod.fst,
      ServerCapabilitiesBuilder.executeCommand_announced _ _ _ _, ?_⟩
    intro name hname
    exact (Dict.mem_keys_iff _ name).mp hname

/-- What a step does to a session: `lsp_initialize` starts or gives up, or ends, or a
registration or the workspace goes on. -/
theorem step_keeps {s t : Session C} {e : Event C} (h : step c s e = some t) :
    Keeps s.fm t.fm ∧
      ∀ k caps, (k, caps) ∈ t.results → (k, caps) ∈ s.results ∨ Serves c s caps := by
  cases e with
  | initializeRequest params =>
    cases h
    unfold Session.lspInitialize
    dsimp only
    split
    · exact ⟨Keeps.of_tables rfl, fun k caps hmem => .inl hmem⟩
    · exact ⟨Keeps.of_tables rfl, fun k caps hmem => .inl hmem⟩
  | resume k =>
    simp only [step] at h
    split at h
    · rename_i g clientCapabilities hg hcaps
      split at h
      · cases h
      · cases h
        refine ⟨Keeps.featureOptions s.fm _, ?_⟩
        intro k' caps hmem
        rcases List.mem_append.mp hmem with hold | hnew
        · exact .inl hold
        · cases List.mem_singleton.mp hnew
          exact .inr (serves_built c s clientCapabilities g.positionEncoding)
    · cases h
  | register call =>
    cases h
    exact ⟨Keeps.register c.optionTypes s.fm call, fun k caps hmem => .inl hmem⟩
  | thread f =>
    cases h
    exact ⟨Keeps.thread s.fm f, fun k caps hmem => .inl hmem⟩
  | notification message disk =>
    cases h
    exact ⟨Keeps.of_tables rfl, fun k caps hmem => .inl hmem⟩

theorem serves_of_run {fm : Features.FeatureManager C (Options C)} {es : List (Event C)}
    {t : Session C} (h : run (step c) (Session.init fm) es = some t) {k : Nat}
    {caps : ServerCapabilities C} (hmem : (k, caps) ∈ t.results) : Serves c t caps := by
  refine run_invariant
    (I := fun t => ∀ k caps, (k, caps) ∈ t.results → Serves c t caps) ?_ ?_
    (meets_true (step c) _ es) h k caps hmem
  · intro s e t hs _ hstep k caps hmem
    obtain ⟨hkeeps, hresults⟩ := step_keeps c hstep
    rcases hresults k caps hmem with hold | hnew
    · exact (hs k caps hold).keeps hkeeps
    · exact hnew.keeps hkeeps
  · intro k caps hmem
    cases hmem

/-- A program of one class, with options that are never asked for. -/
def sampleSettings : Settings Nat Unit where
  lsprotocol := ⟨0, 0, 0, 0, 0, 0, 0, 0, 0, 0, 0, 0, 0, 0, 0, 0, fun _ => []⟩
  optionTypes :=
    { saveOptions := ()
      semanticTokens := ()
      fileOperations := ()
      methodToTypes := fun _ => none
      typeName := fun _ => []
      allTypesMap := fun _ => none
      truthy := fun _ => false
      unstructure := fun _ _ => .ok () }
  isWin := false
  refuses := fun _ => false
  builtinFeatures := Schedules.builtinMethods
  textDocumentSyncKind := .incremental
  notebookDocumentSync := .null

def sampleFeatures : Features.FeatureManager Nat (Options Nat) :=
  ⟨⟨.empty, .empty, .empty⟩, 0, fun _ => ⟨none, none, false⟩, 0⟩

/-- A client that would rather count in UTF-8. -/
def sampleParams : InitializeParams Nat where
  capabilities := .object (.lsp 0)
    [(text "general", .object (.lsp 0)
      [(text "position_encodings", .list [.str utf8, .str utf16])])]
  rootPath := none
  rootUri := none
  workspaceFolders := none

def sampleHover : Event Nat :=
  .register (.feature (some textDocumentHover) ⟨0, []⟩ ⟨0, false, ⟨[], none, [], none⟩, true⟩)

/-- Whatever a client has been told stays callable, however many features and commands come
later; and the answer announces the features that are there when it is made. This second part
leaves commands and semantic tokens out. -/
theorem announced_features_are_served {fm : Features.FeatureManager C (Options C)}
    {es : List (Event C)} {t : Session C} (h : run (step c) (Session.init fm) es = some t) :
    (∀ k caps, (k, caps) ∈ t.results → Serves c t caps) ∧
    ∀ k u, step c t (.resume k) = some u → ∃ caps clientCapabilities,
      u.results = t.results ++ [(k, caps)] ∧ t.clientCapabilities = some clientCapabilities ∧
      ∀ r ∈ announcements, t.hasHandler c r.method = true → t.hasHandler c r.host = true →
        (r.needsOptions = true → t.fm.tables.featureOptions.get? r.method ≠ none) →
        (∀ field ∈ r.clientField,
          truthy (getCapability clientCapabilities field .null) = true) →
        r.Shows (caps r.target) := by
  refine ⟨fun k caps hmem => serves_of_run c h hmem, ?_⟩
  intro k u hu
  simp only [step] at hu
  split at hu
  · rename_i g clientCapabilities hg hcaps
    split at hu
    · cases hu
    · cases hu
      refine ⟨_, clientCapabilities, rfl, hcaps, ?_⟩
      intro r hr hmethod hhost hoptions hfield
      rw [ServerCapabilitiesBuilder.announced_iff_due _ _ _ _ hr]
      exact ⟨(mem_features_iff c t r.method).mpr hmethod, (mem_features_iff c t r.host).mpr hhost,
        hoptions, hfield⟩
  · cases hu

/-- A command comes when the answer is out. -/
theorem announced_features_are_served_hover :
    ∃ t caps, run (step sampleSettings) (Session.init sampleFeatures)
      [sampleHover, .initializeRequest sampleParams, .resume 0,
        .register (.command (some [0x61]) ⟨1, false, ⟨[], none, [], none⟩, true⟩)] = some t ∧
      (0, caps) ∈ t.results ∧ Serves sampleSettings t caps := by
  obtain ⟨t, ht, hmem⟩ : ∃ t, run (step sampleSettings) (Session.init sampleFeatures)
      [sampleHover, .initializeRequest sampleParams, .resume 0,
        .register (.command (some [0x61]) ⟨1, false, ⟨[], none, [], none⟩, true⟩)] = some t ∧
      ∃ caps, (0, caps) ∈ t.results := ⟨_, rfl, _, List.mem_singleton.mpr rfl⟩
  obtain ⟨caps, hcaps⟩ := hmem
  exact ⟨t, caps, ht, hcaps, (announced_features_are_served sampleSettings ht).1 0 caps hcaps⟩

/-- A unit that both sides know: the client has named it, or it is the one that every client
has to know. -/
def Understood (clientCapabilities : Value C) (encoding : Str) : Prop :=
  encoding ∈ supportedEncodings ∧ (encoding = utf16 ∨ ∃ encodings,
    reduceGetattr [text "general", text "position_encodings"] clientCapabilities =
      some (.list encodings) ∧ .str encoding ∈ encodings)

omit [LE C] [DecidableLE C] in
theorem asStr_eq_some {v : Value C} {s : Str} (h : asStr v = some s) : v = .str s := by
  cases v with
  | str t =>
    cases h
    rfl
  | _ => cases h

omit [LE C] [DecidableLE C] in
theorem getattr_of_attr {name : Str} {v w : Value C} (h : attr name v = w) (hne : w ≠ .null) :
    getattr name v = some w := by
  unfold attr at h
  cases hget : getattr name v with
  | none =>
    rw [hget] at h
    exact absurd h.symm hne
  | some x =>
    rw [hget] at h
    exact congrArg some h

omit [LE C] [DecidableLE C] in
theorem choosePositionEncoding_understood (clientCapabilities : Value C) :
    Understood clientCapabilities (choosePositionEncoding clientCapabilities) := by
  have hdefault : Understood clientCapabilities utf16 :=
    ⟨by simp [supportedEncodings], .inl rfl⟩
  unfold choosePositionEncoding
  split
  · exact hdefault
  · rename_i general hgeneral
    split
    · rename_i encodings hencodings
      cases hfind : (encodings.filterMap asStr).find? fun encoding =>
          encoding ∈ supportedEncodings with
      | none => exact hdefault
      | some encoding =>
        have hsupported := List.find?_some hfind
        obtain ⟨v, hv, hstr⟩ := List.mem_filterMap.mp (List.mem_of_find?_eq_some hfind)
        refine ⟨of_decide_eq_true hsupported, .inr ⟨encodings, ?_, asStr_eq_some hstr ▸ hv⟩⟩
        rw [reduceGetattr_cons, getattr_of_attr rfl hgeneral, Option.bind_some, reduceGetattr_one]
        apply getattr_of_attr hencodings
        intro hnull
        cases hnull
    · exact hdefault

theorem negotiable_of_supported {encoding : Str} (h : encoding ∈ supportedEncodings) :
    PositionCodec.Negotiable (.ofValue (some encoding)) := by
  simp only [supportedEncodings, List.mem_cons, List.not_mem_nil, or_false] at h
  rcases h with rfl | rfl | rfl
  · exact .inl rfl
  · exact .inr (.inl rfl)
  · exact .inr (.inr rfl)

/-- Every answer announces the encoding of its own request, and the workspace counts in that of
the last one that got as far. -/
structure Negotiated (s : Session C) : Prop where
  chosen : ∀ g ∈ s.generators,
    g.positionEncoding = choosePositionEncoding g.params.capabilities
  answers : ∀ k caps, (k, caps) ∈ s.results → ∃ g, s.generators[k]? = some g ∧
    caps .positionEncoding = .str g.positionEncoding
  none : s.generators = [] → s.workspace = none
  workspace : ∀ g, s.generators.getLast? = some g → ∃ ws, s.workspace = some ws ∧
    Uniform c.textDocumentSyncKind (.ofValue (some g.positionEncoding)) ws

namespace Negotiated

variable {c} {s t : Session C}

omit [LE C] [DecidableLE C] in
theorem init (fm : Features.FeatureManager C (Options C)) : Negotiated c (Session.init fm) := by
  constructor
  case chosen =>
    intro g hg
    cases hg
  case answers =>
    intro k caps hmem
    cases hmem
  case none => exact fun _ => rfl
  case workspace =>
    intro g hg
    cases hg

omit [LE C] [DecidableLE C] in
theorem congr (h : Negotiated c s) (hgenerators : t.generators = s.generators)
    (hresults : t.results = s.results) (hws : t.workspace = s.workspace) : Negotiated c t := by
  constructor
  case chosen => exact hgenerators ▸ h.chosen
  case answers =>
    rw [hgenerators, hresults]
    exact h.answers
  case none =>
    rw [hgenerators, hws]
    exact h.none
  case workspace =>
    rw [hgenerators, hws]
    exact h.workspace

omit [LE C] [DecidableLE C] in
theorem initializeRequest (h : Negotiated c s) (params : InitializeParams C) :
    Negotiated c (s.lspInitialize c params).1 := by
  unfold Session.lspInitialize
  dsimp only
  split
  · exact h.congr rfl rfl rfl
  · constructor
    case chosen =>
      intro g hg
      rcases List.mem_append.mp hg with hold | hnew
      · exact h.chosen g hold
      · cases List.mem_singleton.mp hnew
        rfl
    case answers =>
      intro k caps hmem
      obtain ⟨g, hg, hcaps⟩ := h.answers k caps hmem
      have hlt := (List.getElem?_eq_some_iff.mp hg).1
      exact ⟨g, (List.getElem?_append_left hlt).trans hg, hcaps⟩
    case none =>
      intro hnil
      simp at hnil
    case workspace =>
      intro g hg
      rw [List.getLast?_concat] at hg
      cases hg
      exact ⟨_, rfl, Uniform.new _ _ _⟩

omit [LE C] [DecidableLE C] in
/-- The generator that ends is marked, and keeps its locals. -/
theorem locals_set {generators : List (Generator C)} {k : Nat} {g : Generator C}
    (hg : generators[k]? = some g) (i : Nat) :
    (generators.set k { g with finished := true })[i]?.map
        (fun g => (g.params, g.positionEncoding)) =
      generators[i]?.map fun g => (g.params, g.positionEncoding) := by
  rw [List.getElem?_set]
  split
  · rename_i heq
    obtain rfl := heq
    rw [hg, if_pos (List.getElem?_eq_some_iff.mp hg).1]
    rfl
  · rfl

omit [LE C] [DecidableLE C] in
theorem finish (h : Negotiated c s) {k : Nat} {g : Generator C} {caps : ServerCapabilities C}
    (hg : s.generators[k]? = some g) (hcaps : caps .positionEncoding = .str g.positionEncoding)
    (hgenerators : t.generators = s.generators.set k { g with finished := true })
    (hresults : t.results = s.results ++ [(k, caps)]) (hws : t.workspace = s.workspace) :
    Negotiated c t := by
  have hlocals := locals_set hg
  rw [← hgenerators] at hlocals
  have hlength : t.generators.length = s.generators.length := by
    rw [hgenerators, List.length_set]
  constructor
  case chosen =>
    intro g' hmem
    obtain ⟨i, hi⟩ := List.mem_iff_getElem?.mp hmem
    have hi' := hlocals i
    rw [hi] at hi'
    obtain ⟨g₀, hg₀, heq⟩ := Option.map_eq_some_iff.mp hi'.symm
    obtain ⟨hparams, hencoding⟩ := Prod.mk.inj heq
    rw [← hencoding, ← hparams]
    exact h.chosen g₀ (List.mem_of_getElem? hg₀)
  case answers =>
    intro k' caps' hmem
    have hlift : ∀ g₀, s.generators[k']? = some g₀ →
        ∃ g', t.generators[k']? = some g' ∧ g'.positionEncoding = g₀.positionEncoding := by
      intro g₀ hg₀
      have hi' := hlocals k'
      rw [hg₀] at hi'
      obtain ⟨g', hg', heq⟩ := Option.map_eq_some_iff.mp hi'
      exact ⟨g', hg', (Prod.mk.inj heq).2⟩
    rw [hresults] at hmem
    rcases List.mem_append.mp hmem with hold | hnew
    · obtain ⟨g₀, hg₀, hcaps'⟩ := h.answers k' caps' hold
      obtain ⟨g', hg', heq⟩ := hlift g₀ hg₀
      exact ⟨g', hg', heq ▸ hcaps'⟩
    · cases List.mem_singleton.mp hnew
      obtain ⟨g', hg', heq⟩ := hlift g hg
      exact ⟨g', hg', heq ▸ hcaps⟩
  case none =>
    intro hnil
    rw [hws]
    apply h.none
    rw [← List.length_eq_zero_iff] at hnil ⊢
    exact hlength.symm.trans hnil
  case workspace =>
    intro g' hlast
    have hi' := hlocals (t.generators.length - 1)
    rw [← List.getLast?_eq_getElem?, hlast, hlength, ← List.getLast?_eq_getElem?] at hi'
    obtain ⟨g₀, hg₀, heq⟩ := Option.map_eq_some_iff.mp hi'.symm
    obtain ⟨ws, hget, huniform⟩ := h.workspace g₀ hg₀
    exact ⟨ws, hws.trans hget, (Prod.mk.inj heq).2 ▸ huniform⟩

theorem step {e : Event C} (h : Negotiated c s) (hstep : Sessions.step c s e = some t) :
    Negotiated c t := by
  cases e with
  | initializeRequest params =>
    cases hstep
    exact h.initializeRequest params
  | resume k =>
    simp only [Sessions.step] at hstep
    split at hstep
    · rename_i g clientCapabilities hg hcaps
      split at hstep
      · cases hstep
      · cases hstep
        refine h.finish hg ?_ rfl rfl (s.lspInitializeEnd_workspace c k g clientCapabilities)
        exact ServerCapabilitiesBuilder.positionEncoding_announced _ _ _ _
    · cases hstep
  | register call =>
    cases hstep
    exact h.congr rfl rfl rfl
  | thread f =>
    cases hstep
    exact h.congr rfl rfl rfl
  | notification message disk =>
    cases hstep
    refine ⟨h.chosen, h.answers, ?_, ?_⟩
    · intro hnil
      exact congrArg (Option.map _) (h.none hnil)
    · intro g hg
      obtain ⟨ws, hws, huniform⟩ := h.workspace g hg
      exact ⟨_, congrArg (Option.map _) hws, huniform.update disk message⟩

theorem of_run {fm : Features.FeatureManager C (Options C)} {es : List (Event C)}
    (h : run (Sessions.step c) (Session.init fm) es = some t) : Negotiated c t :=
  run_invariant (fun _ _ _ hs _ hstep => step hs hstep) (init fm)
    (meets_true (Sessions.step c) _ es) h

end Negotiated

/-- The encoding that an answer announces is one that both sides know, the one the client's
request asks for, and as long as no other request comes in it is the one that the workspace and
all documents count in. -/
theorem announced_encoding_is_used {fm : Features.FeatureManager C (Options C)}
    {es : List (Event C)} {t : Session C} (h : run (step c) (Session.init fm) es = some t) :
    (∀ k caps, (k, caps) ∈ t.results → ∃ g encoding, t.generators[k]? = some g ∧
      caps .positionEncoding = .str encoding ∧ Understood g.params.capabilities encoding ∧
      PositionCodec.Negotiable (.ofValue (some encoding)) ∧
      (k + 1 = t.generators.length → ∃ ws, t.workspace = some ws ∧
        Uniform c.textDocumentSyncKind (.ofValue (some encoding)) ws)) ∧
    (t.workspace = none ↔ t.generators = []) := by
  have hnegotiated := Negotiated.of_run h
  constructor
  · intro k caps hmem
    obtain ⟨g, hg, hcaps⟩ := hnegotiated.answers k caps hmem
    have hunderstood := choosePositionEncoding_understood g.params.capabilities
    rw [← hnegotiated.chosen g (List.mem_of_getElem? hg)] at hunderstood
    refine ⟨g, g.positionEncoding, hg, hcaps, hunderstood,
      negotiable_of_supported hunderstood.1, ?_⟩
    intro hlast
    apply hnegotiated.workspace
    rw [List.getLast?_eq_getElem?, ← hlast, Nat.add_sub_cancel]
    exact hg
  · constructor
    · intro hnone
      cases hlast : t.generators.getLast? with
      | none => exact List.getLast?_eq_none_iff.mp hlast
      | some g =>
        obtain ⟨ws, hws, -⟩ := hnegotiated.workspace g hlast
        rw [hws] at hnone
        cases hnone
    · exact hnegotiated.none

theorem announced_encoding_is_used_utf8 :
    ∃ t caps encoding, run (step sampleSettings) (Session.init sampleFeatures)
      [.initializeRequest sampleParams, .resume 0] = some t ∧ (0, caps) ∈ t.results ∧
      caps .positionEncoding = .str encoding ∧
      Understood sampleParams.capabilities encoding ∧
      ∃ ws, t.workspace = some ws ∧ Uniform .incremental (.ofValue (some encoding)) ws := by
  obtain ⟨t, ht, hmem, hlength, hparams⟩ :
      ∃ t, run (step sampleSettings) (Session.init sampleFeatures)
        [.initializeRequest sampleParams, .resume 0] = some t ∧ (∃ caps, (0, caps) ∈ t.results) ∧
        t.generators.length = 1 ∧ ∀ g, t.generators[0]? = some g → g.params = sampleParams := by
    refine ⟨_, rfl, ⟨_, List.mem_singleton.mpr rfl⟩, rfl, ?_⟩
    intro g hg
    cases hg
    rfl
  obtain ⟨caps, hcaps⟩ := hmem
  obtain ⟨g, encoding, hg, hposition, hunderstood, -, hws⟩ :=
    (announced_encoding_is_used sampleSettings ht).1 0 caps hcaps
  rw [hparams g hg] at hunderstood
  exact ⟨t, caps, encoding, ht, hcaps, hposition, hunderstood, hws hlength.symm⟩

namespace Event

/-- The message about a text document that an event is, if it is one. -/
def text? : Event C → Option TextNotification
  | .notification (.text message) _ => some message
  | _ => none

/-- No other `initialize` request, and no notebook, whose cells are documents too. -/
def Plain : Event C → Prop
  | .initializeRequest _ => False
  | .resume _ => True
  | .register _ => True
  | .thread _ => True
  | .notification (.text _) _ => True
  | .notification (.didChangeFolders _ _) _ => True
  | .notification _ _ => False

end Event

/-- The workspace has the texts of the client, in the encoding of one generator. -/
structure Follows (encoding : Str) (k : Nat) (client : TextSync.Client) (s : Session C) : Prop where
  synced : ∃ ws, s.workspace = some ws ∧
    TextSync.Synced (.ofValue (some encoding)) client ws
  generator : s.generators[k]?.map Generator.positionEncoding = some encoding

theorem synced_changeFolders {encoding : Encoding} {client : TextSync.Client} {ws : Workspace}
    (h : TextSync.Synced encoding client ws) (added removed : List WorkspaceFolder) :
    TextSync.Synced encoding client (WorkspaceMessage.changeFolders ws added removed) := by
  rw [Folders.changeFolders_frame]
  exact ⟨h.kind, h.codec, h.closed, h.opened⟩

namespace Follows

variable {c} {encoding : Str} {k : Nat} {client client' : TextSync.Client} {s t : Session C}

/-- The events of a session besides the notifications do not touch the texts. -/
theorem step {e : Event C} (h : Follows encoding k client s)
    (hsupported : encoding ∈ supportedEncodings) (hplain : e.Plain) (hstep : Sessions.step c s e = some t)
    (hclient : run (TextSync.clientStep (.ofValue (some encoding))) client e.text?.toList =
      some client') : Follows encoding k client' t := by
  obtain ⟨ws, hws, hsynced⟩ := h.synced
  cases e with
  | initializeRequest params => exact absurd hplain id
  | resume k' =>
    cases hclient
    simp only [Sessions.step] at hstep
    split at hstep
    · rename_i g clientCapabilities hg hcaps
      split at hstep
      · cases hstep
      · cases hstep
        refine ⟨⟨ws, (s.lspInitializeEnd_workspace ..).trans hws, hsynced⟩, ?_⟩
        have hlocals := congrArg (Option.map Prod.snd) (Negotiated.locals_set hg k)
        rw [Option.map_map, Option.map_map] at hlocals
        exact hlocals.trans h.generator
    · cases hstep
  | register call =>
    cases hclient
    cases hstep
    exact ⟨⟨ws, hws, hsynced⟩, h.generator⟩
  | thread f =>
    cases hclient
    cases hstep
    exact ⟨⟨ws, hws, hsynced⟩, h.generator⟩
  | notification message disk =>
    cases hstep
    refine ⟨⟨(message.update disk ws).1, congrArg (Option.map _) hws, ?_⟩, h.generator⟩
    cases message with
    | text notification =>
      obtain ⟨client₁, hone, hnil⟩ := run_cons_iff.mp hclient
      cases hnil
      exact TextSync.serverStep_synced disk (negotiable_of_supported hsupported) hsynced hone
    | didChangeFolders added removed =>
      cases hclient
      exact synced_changeFolders hsynced _ _
    | notebookDidOpen notebook cells => exact absurd hplain id
    | notebookDidChange params => exact absurd hplain id
    | notebookDidClose uri cells => exact absurd hplain id

theorem of_run {es : List (Event C)} (h : Follows encoding k client s)
    (hsupported : encoding ∈ supportedEncodings) (hplain : ∀ e ∈ es, e.Plain)
    (hrun : run (Sessions.step c) s es = some t)
    (hclient : run (TextSync.clientStep (.ofValue (some encoding))) client
      (es.filterMap Event.text?) = some client') : Follows encoding k client' t := by
  induction es generalizing s client with
  | nil =>
    cases hrun
    cases hclient
    exact h
  | cons e es ih =>
    obtain ⟨mid, hmid, hrest⟩ := run_cons_iff.mp hrun
    have hsplit : (e :: es).filterMap Event.text? = e.text?.toList ++ es.filterMap Event.text? := by
      rw [List.filterMap_cons]
      cases e.text? with
      | none => rfl
      | some notification => rfl
    rw [hsplit, run_append] at hclient
    obtain ⟨client₁, hone, hclients⟩ := Option.bind_eq_some_iff.mp hclient
    have hnext := h.step hsupported (hplain e List.mem_cons_self) hmid hone
    exact ih hnext (fun e' he' => hplain e' (List.mem_cons_of_mem e he')) hrest hclients

end Follows

/-- A client that counts in the encoding its answer announces, and lines as
`TextDocument.lines` does, finds its texts on the server. It may send its notifications before
the answer, and whatever is registered in the meantime. -/
theorem texts_follow_the_announced_encoding {fm : Features.FeatureManager C (Options C)}
    {past es : List (Event C)} {s t : Session C} {params : InitializeParams C} {root : Root}
    {client : TextSync.Client} (hkind : c.textDocumentSyncKind = .incremental)
    (hpast : run (step c) (Session.init fm) past = some s) (hroot : c.rootOf params = .ok root)
    (hplain : ∀ e ∈ es, e.Plain)
    (hrun : run (step c) s (.initializeRequest params :: es) = some t)
    (hclient : run (TextSync.clientStep
      (.ofValue (some (choosePositionEncoding params.capabilities)))) (fun _ => none)
      (es.filterMap Event.text?) = some client) :
    (∃ ws, t.workspace = some ws ∧
      (∀ uri text disk, client uri = some text →
        (ws.getTextDocument uri).source disk = .ok text) ∧
      ∀ uri, client uri = none → ws.textDocuments.get? uri = none) ∧
    ∀ caps, (s.generators.length, caps) ∈ t.results →
      caps .positionEncoding = .str (choosePositionEncoding params.capabilities) := by
  have hunderstood := choosePositionEncoding_understood params.capabilities
  obtain ⟨mid, hmid, hrest⟩ := run_cons_iff.mp hrun
  have hstart : Follows (choosePositionEncoding params.capabilities) s.generators.length
      (fun _ => none) mid := by
    cases hmid
    unfold Session.lspInitialize
    dsimp only
    rw [hroot]
    refine ⟨⟨_, rfl, ?_⟩, ?_⟩
    · rw [hkind]
      exact TextSync.new_synced _ _
    · rw [List.getElem?_concat_length]
      rfl
  obtain ⟨⟨ws, hws, hsynced⟩, hgenerator⟩ :=
    hstart.of_run hunderstood.1 hplain hrest hclient
  refine ⟨⟨ws, hws, ?_, hsynced.closed⟩, ?_⟩
  · intro uri text disk htext
    obtain ⟨doc, hget, hdoc⟩ := hsynced.opened uri text htext
    simp only [Workspace.getTextDocument, hget, Option.getD_some, TextDocument.source, hdoc.stored]
  · intro caps hmem
    have hall : run (step c) (Session.init fm) (past ++ .initializeRequest params :: es) =
        some t := by
      rw [run_append, hpast]
      exact hrun
    obtain ⟨g, hg, hcaps⟩ := (Negotiated.of_run hall).answers _ caps hmem
    rw [hg] at hgenerator
    rw [hcaps, ← Option.some.inj hgenerator]

/-- Behind an accented letter, which is two bytes of UTF-8. -/
theorem texts_follow_the_announced_encoding_utf8 :
    let disk : Disk := fun uri => .error (.osError uri)
    let edits : List (Event Nat) :=
      [.notification (.text (.didOpen ⟨[0x75], [], 0, [0xE9, 0x63]⟩)) disk, .resume 0,
        .notification (.text (.didChange ⟨[0x75], 1⟩
          [.changePartial ⟨⟨0, 2⟩, ⟨0, 2⟩⟩ [0x62]])) disk]
    ∃ s t ws, run (step sampleSettings) (Session.init sampleFeatures) [sampleHover] = some s ∧
      run (step sampleSettings) s (.initializeRequest sampleParams :: edits) = some t ∧
      t.workspace = some ws ∧ (ws.getTextDocument [0x75]).source disk = .ok [0xE9, 0x62, 0x63] := by
  intro disk edits
  obtain ⟨s, hs⟩ : ∃ s, run (step sampleSettings) (Session.init sampleFeatures) [sampleHover] =
      some s := ⟨_, rfl⟩
  obtain ⟨t, ht⟩ : ∃ t, run (step sampleSettings) s (.initializeRequest sampleParams :: edits) =
      some t := by
    cases hs
    exact ⟨_, rfl⟩
  have hplain : ∀ e ∈ edits, e.Plain := by
    intro e he
    simp only [edits, List.mem_cons, List.not_mem_nil, or_false] at he
    rcases he with rfl | rfl | rfl
    · trivial
    · trivial
    · trivial
  obtain ⟨client, hclient, htext⟩ : ∃ client, run (TextSync.clientStep
      (.ofValue (some (choosePositionEncoding sampleParams.capabilities)))) (fun _ => none)
        (edits.filterMap Event.text?) = some client ∧
      client [0x75] = some [0xE9, 0x62, 0x63] := by
    refine ⟨_, by with_unfolding_all rfl, by with_unfolding_all rfl⟩
  have hroot : sampleSettings.rootOf sampleParams = .ok ⟨none, none, none⟩ := rfl
  obtain ⟨⟨ws, hws, hsource, -⟩, -⟩ :=
    texts_follow_the_announced_encoding sampleSettings rfl hs hroot hplain ht hclient
  exact ⟨s, t, ws, hs, ht, hws, hsource _ _ _ htext⟩

end Pygls.Sessions
