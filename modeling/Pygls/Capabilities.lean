import Mathlib.Logic.Function.Basic
import Pygls.Features
import Pygls.Routing
import Pygls.Schedules

/-!
# Server capabilities

`capabilities.py`: what the server tells the client that it can do, from what the client
can do and the features that are registered. Every `_with_…` step of the builder writes
one attribute of `server_cap`, and some write to the options that the feature was
registered with.
-/

namespace Pygls.Capabilities

open Lib Decoding Routing

set_option autoImplicit false

def textDocumentWillSave : Method := text "textDocument/willSave"
def textDocumentWillSaveWaitUntil : Method := text "textDocument/willSaveWaitUntil"
def textDocumentDidSave : Method := text "textDocument/didSave"
def textDocumentCompletion : Method := text "textDocument/completion"
def textDocumentHover : Method := text "textDocument/hover"
def textDocumentSignatureHelp : Method := text "textDocument/signatureHelp"
def textDocumentDeclaration : Method := text "textDocument/declaration"
def textDocumentDefinition : Method := text "textDocument/definition"
def textDocumentTypeDefinition : Method := text "textDocument/typeDefinition"
def textDocumentInlayHint : Method := text "textDocument/inlayHint"
def inlayHintResolve : Method := text "inlayHint/resolve"
def textDocumentImplementation : Method := text "textDocument/implementation"
def textDocumentReferences : Method := text "textDocument/references"
def textDocumentDocumentHighlight : Method := text "textDocument/documentHighlight"
def textDocumentDocumentSymbol : Method := text "textDocument/documentSymbol"
def textDocumentCodeAction : Method := text "textDocument/codeAction"
def textDocumentCodeLens : Method := text "textDocument/codeLens"
def codeLensResolve : Method := text "codeLens/resolve"
def textDocumentDocumentLink : Method := text "textDocument/documentLink"
def documentLinkResolve : Method := text "documentLink/resolve"
def textDocumentDocumentColor : Method := text "textDocument/documentColor"
def textDocumentFormatting : Method := text "textDocument/formatting"
def textDocumentRangeFormatting : Method := text "textDocument/rangeFormatting"
def textDocumentOnTypeFormatting : Method := text "textDocument/onTypeFormatting"
def textDocumentRename : Method := text "textDocument/rename"
def textDocumentPrepareRename : Method := text "textDocument/prepareRename"
def textDocumentFoldingRange : Method := text "textDocument/foldingRange"
def textDocumentSelectionRange : Method := text "textDocument/selectionRange"
def textDocumentPrepareCallHierarchy : Method := text "textDocument/prepareCallHierarchy"
def textDocumentPrepareTypeHierarchy : Method := text "textDocument/prepareTypeHierarchy"
def textDocumentSemanticTokensFull : Method := text "textDocument/semanticTokens/full"
def textDocumentSemanticTokensFullDelta : Method := text "textDocument/semanticTokens/full/delta"
def textDocumentSemanticTokensRange : Method := text "textDocument/semanticTokens/range"
def textDocumentLinkedEditingRange : Method := text "textDocument/linkedEditingRange"
def textDocumentMoniker : Method := text "textDocument/moniker"
def workspaceSymbol : Method := text "workspace/symbol"
def workspaceSymbolResolve : Method := text "workspaceSymbol/resolve"
def workspaceWillCreateFiles : Method := text "workspace/willCreateFiles"
def workspaceDidCreateFiles : Method := text "workspace/didCreateFiles"
def workspaceWillDeleteFiles : Method := text "workspace/willDeleteFiles"
def workspaceDidDeleteFiles : Method := text "workspace/didDeleteFiles"
def workspaceWillRenameFiles : Method := text "workspace/willRenameFiles"
def workspaceDidRenameFiles : Method := text "workspace/didRenameFiles"
def textDocumentDiagnostic : Method := text "textDocument/diagnostic"
def workspaceDiagnostic : Method := text "workspace/diagnostic"
def textDocumentInlineValue : Method := text "textDocument/inlineValue"
def textDocumentInlineCompletion : Method := text "textDocument/inlineCompletion"

/-- An instance of one of the options classes of `lsprotocol`. -/
structure Options (C : Type) where
  cls : C
  attributes : Entries C

namespace Options

variable {C : Type}

def value (o : Options C) : Value C := .object (.lsp o.cls) o.attributes

def setattr (o : Options C) (name : Str) (v : Value C) : Options C :=
  { o with attributes := Dict.insert name v o.attributes }

end Options

/-- The classes of `lsprotocol` that the builder makes instances of or asks for, and the names
of the attributes of a class's instances. -/
structure LspTypes (C : Type) where
  completionOptions : C
  signatureHelpOptions : C
  inlayHintOptions : C
  codeLensOptions : C
  documentLinkOptions : C
  renameOptions : C
  executeCommandOptions : C
  semanticTokensFullDelta : C
  semanticTokensOptions : C
  semanticTokensRegistrationOptions : C
  workspaceSymbolOptions : C
  fileOperationOptions : C
  workspaceFoldersServerCapabilities : C
  workspaceOptions : C
  diagnosticOptions : C
  textDocumentSyncOptions : C
  names : C → List Str

/-- An instance, with keyword arguments; an attribute that is not given is `None`. -/
def LspTypes.new {C : Type} (types : LspTypes C) (cls : C) (arguments : Entries C) : Options C :=
  arguments.foldl (fun o argument => o.setattr argument.1 argument.2)
    ⟨cls, (types.names cls).map fun name => (name, .null)⟩

variable {C : Type}

def truthy : Value C → Bool
  | .null => false
  | .bool b => b
  | .int n => n ≠ 0
  | .float x => x.text ∉ [text "0.0", text "-0.0"]
  | .str s => !s.isEmpty
  | .list items => !items.isEmpty
  | .dict entries => !entries.isEmpty
  | .namedtuple _ fields => !fields.isEmpty
  | .object _ _ => true

/-- `v and w` -/
def both (v w : Value C) : Value C := if truthy v then w else v

/-- `v or None` -/
def orNone (v : Value C) : Value C := if truthy v then v else .null

/-- An attribute that the instance is known to have. -/
def attr (name : Str) (v : Value C) : Value C := (getattr name v).getD .null

/-- `reduce(getattr, field.split("."), capabilities)`; `none` is the `AttributeError`. -/
def reduceGetattr (names : List Str) (capabilities : Value C) : Option (Value C) :=
  names.foldlM (fun v name => getattr name v) capabilities

def getCapability (capabilities : Value C) (field : Str) (default : Value C) : Value C :=
  match reduceGetattr (field.splitOn (Fin.ofNat 0x110000 '.'.toNat)) capabilities with
  | none => default
  | some .null => default
  | some value => value

def utf8 : Str := lit ['u', 't', 'f', '-', '8']
def utf16 : Str := lit ['u', 't', 'f', '-', '1', '6']
def utf32 : Str := lit ['u', 't', 'f', '-', '3', '2']

/-- `_SUPPORTED_ENCODINGS` -/
def supportedEncodings : List Str := [utf8, utf16, utf32]

def asStr : Value C → Option Str
  | .str s => some s
  | _ => none

/-- The first of the client's encodings that is supported. -/
def choosePositionEncoding (clientCapabilities : Value C) : Str :=
  match attr (text "general") clientCapabilities with
  | .null => utf16
  | general =>
    match attr (text "position_encodings") general with
    | .list encodings =>
      ((encodings.filterMap asStr).find? fun encoding => encoding ∈ supportedEncodings).getD utf16
    | _ => utf16

/-- The attributes of `ServerCapabilities` that the builder writes. -/
inductive Attribute where
  | positionEncoding
  | textDocumentSync
  | notebookDocumentSync
  | completionProvider
  | hoverProvider
  | signatureHelpProvider
  | declarationProvider
  | definitionProvider
  | typeDefinitionProvider
  | inlayHintProvider
  | implementationProvider
  | referencesProvider
  | documentHighlightProvider
  | documentSymbolProvider
  | codeActionProvider
  | codeLensProvider
  | documentLinkProvider
  | colorProvider
  | documentFormattingProvider
  | documentRangeFormattingProvider
  | documentOnTypeFormattingProvider
  | renameProvider
  | foldingRangeProvider
  | executeCommandProvider
  | selectionRangeProvider
  | callHierarchyProvider
  | typeHierarchyProvider
  | semanticTokensProvider
  | linkedEditingRangeProvider
  | monikerProvider
  | workspaceSymbolProvider
  | workspace
  | diagnosticProvider
  | inlineValueProvider
  | inlineCompletionProvider
  deriving DecidableEq

abbrev ServerCapabilities (C : Type) := Attribute → Value C

/-- What the builder is given and only reads. -/
structure Inputs (C : Type) where
  clientCapabilities : Value C
  features : List Method
  commands : List Str
  textDocumentSyncKind : SyncKind
  notebookDocumentSync : Value C

structure ServerCapabilitiesBuilder (C : Type) extends Inputs C where
  featureOptions : Dict Str (Options C)
  serverCap : ServerCapabilities C

/-- The value of an enumeration member of `TextDocumentSyncKind`. -/
def syncKindValue : SyncKind → Int
  | .none => 0
  | .full => 1
  | .incremental => 2

namespace ServerCapabilitiesBuilder

/-- `ServerCapabilitiesBuilder(...)` -/
def new (inputs : Inputs C) (featureOptions : Dict Str (Options C)) (positionEncoding : Str) :
    ServerCapabilitiesBuilder C :=
  { inputs with
    featureOptions := featureOptions
    serverCap := Function.update (fun _ => .null) .positionEncoding (.str positionEncoding) }

/-- `none` is `None`, for the default as well. -/
def providerOptions (b : ServerCapabilitiesBuilder C) (feature : Method)
    (default : Option (Value C)) : Option (Value C) :=
  if feature ∈ b.features then ((b.featureOptions.get? feature).map Options.value).or default
  else none

/-- `if value is not None: self.server_cap.… = value` -/
def setServerCap (b : ServerCapabilitiesBuilder C) (a : Attribute) (value : Option (Value C)) :
    ServerCapabilitiesBuilder C :=
  match value with
  | none => b
  | some v => { b with serverCap := Function.update b.serverCap a v }

/-- The attributes of the text document synchronisation. -/
def textDocumentSyncOptions (types : LspTypes C) (b : ServerCapabilitiesBuilder C) : Options C :=
  types.new types.textDocumentSyncOptions
    [(text "open_close", .bool (textDocumentDidOpen ∈ b.features ||
        textDocumentDidClose ∈ b.features)),
      (text "change", .int (syncKindValue b.textDocumentSyncKind)),
      (text "will_save", both (getCapability b.clientCapabilities
        (text "text_document.synchronization.will_save") .null)
        (.bool (textDocumentWillSave ∈ b.features))),
      (text "will_save_wait_until", both (getCapability b.clientCapabilities
        (text "text_document.synchronization.will_save_wait_until") .null)
        (.bool (textDocumentWillSaveWaitUntil ∈ b.features))),
      (text "save", (b.providerOptions textDocumentDidSave (some (.bool true))).getD (.bool false))]

def withTextDocumentSync (types : LspTypes C) (b : ServerCapabilitiesBuilder C) :=
  b.setServerCap .textDocumentSync (some (b.textDocumentSyncOptions types).value)

/-- Not written for a client without support for notebooks. -/
def notebookSync (b : ServerCapabilitiesBuilder C) : Option (Value C) :=
  match attr (text "notebook_document") b.clientCapabilities with
  | .null => none
  | _ => some b.notebookDocumentSync

def withNotebookDocumentSync (b : ServerCapabilitiesBuilder C) :=
  b.setServerCap .notebookDocumentSync b.notebookSync

def withCompletion (types : LspTypes C) (b : ServerCapabilitiesBuilder C) :=
  b.setServerCap .completionProvider (b.providerOptions textDocumentCompletion
    (some (types.new types.completionOptions []).value))

def withHover (b : ServerCapabilitiesBuilder C) :=
  b.setServerCap .hoverProvider (b.providerOptions textDocumentHover (some (.bool true)))

def withSignatureHelp (types : LspTypes C) (b : ServerCapabilitiesBuilder C) :=
  b.setServerCap .signatureHelpProvider (b.providerOptions textDocumentSignatureHelp
    (some (types.new types.signatureHelpOptions []).value))

def withDeclaration (b : ServerCapabilitiesBuilder C) :=
  b.setServerCap .declarationProvider (b.providerOptions textDocumentDeclaration
    (some (.bool true)))

def withDefinition (b : ServerCapabilitiesBuilder C) :=
  b.setServerCap .definitionProvider (b.providerOptions textDocumentDefinition (some (.bool true)))

def withTypeDefinition (b : ServerCapabilitiesBuilder C) :=
  b.setServerCap .typeDefinitionProvider (b.providerOptions textDocumentTypeDefinition
    (some (.bool true)))

/-- `value.… = flag in self.features`, written to the options that were registered or to the
default, and then to the capabilities. No two features with such a flag share one object of
options. -/
def withFlag (b : ServerCapabilitiesBuilder C) (feature : Method) (default : Options C)
    (name : Str) (flag : Method) (a : Attribute) : ServerCapabilitiesBuilder C :=
  if feature ∈ b.features then
    match b.featureOptions.get? feature with
    | some options =>
      let value := options.setattr name (.bool (flag ∈ b.features))
      { b.setServerCap a (some value.value) with
        featureOptions := b.featureOptions.set feature value }
    | none => b.setServerCap a (some (default.setattr name (.bool (flag ∈ b.features))).value)
  else b

def withInlayHints (types : LspTypes C) (b : ServerCapabilitiesBuilder C) :=
  b.withFlag textDocumentInlayHint (types.new types.inlayHintOptions []) (text "resolve_provider")
    inlayHintResolve .inlayHintProvider

def withImplementation (b : ServerCapabilitiesBuilder C) :=
  b.setServerCap .implementationProvider (b.providerOptions textDocumentImplementation
    (some (.bool true)))

def withReferences (b : ServerCapabilitiesBuilder C) :=
  b.setServerCap .referencesProvider (b.providerOptions textDocumentReferences (some (.bool true)))

def withDocumentHighlight (b : ServerCapabilitiesBuilder C) :=
  b.setServerCap .documentHighlightProvider (b.providerOptions textDocumentDocumentHighlight
    (some (.bool true)))

def withDocumentSymbol (b : ServerCapabilitiesBuilder C) :=
  b.setServerCap .documentSymbolProvider (b.providerOptions textDocumentDocumentSymbol
    (some (.bool true)))

def withCodeAction (b : ServerCapabilitiesBuilder C) :=
  b.setServerCap .codeActionProvider (b.providerOptions textDocumentCodeAction (some (.bool true)))

def withCodeLens (types : LspTypes C) (b : ServerCapabilitiesBuilder C) :=
  b.withFlag textDocumentCodeLens (types.new types.codeLensOptions []) (text "resolve_provider")
    codeLensResolve .codeLensProvider

def withDocumentLink (types : LspTypes C) (b : ServerCapabilitiesBuilder C) :=
  b.withFlag textDocumentDocumentLink (types.new types.documentLinkOptions [])
    (text "resolve_provider") documentLinkResolve .documentLinkProvider

def withColor (b : ServerCapabilitiesBuilder C) :=
  b.setServerCap .colorProvider (b.providerOptions textDocumentDocumentColor (some (.bool true)))

def withDocumentFormatting (b : ServerCapabilitiesBuilder C) :=
  b.setServerCap .documentFormattingProvider (b.providerOptions textDocumentFormatting
    (some (.bool true)))

def withDocumentRangeFormatting (b : ServerCapabilitiesBuilder C) :=
  b.setServerCap .documentRangeFormattingProvider (b.providerOptions textDocumentRangeFormatting
    (some (.bool true)))

/-- Only with options: there is no default. -/
def withDocumentOnTypeFormatting (b : ServerCapabilitiesBuilder C) :=
  b.setServerCap .documentOnTypeFormattingProvider (b.providerOptions textDocumentOnTypeFormatting
    none)

/-- `RenameOptions` only for a client that states `prepare_support`. -/
def renameOptions (types : LspTypes C) (b : ServerCapabilitiesBuilder C) : Option (Value C) :=
  if textDocumentRename ∈ b.features then
    let clientPrepareSupport := getCapability b.clientCapabilities
      (text "text_document.rename.prepare_support") (.bool false)
    if truthy clientPrepareSupport then
      some (types.new types.renameOptions
        [(text "prepare_provider", .bool (textDocumentPrepareRename ∈ b.features))]).value
    else some (.bool true)
  else none

def withRename (types : LspTypes C) (b : ServerCapabilitiesBuilder C) :=
  b.setServerCap .renameProvider (b.renameOptions types)

def withFoldingRange (b : ServerCapabilitiesBuilder C) :=
  b.setServerCap .foldingRangeProvider (b.providerOptions textDocumentFoldingRange
    (some (.bool true)))

def executeCommandOptions (types : LspTypes C) (b : ServerCapabilitiesBuilder C) : Options C :=
  types.new types.executeCommandOptions [(text "commands", .list (b.commands.map .str))]

def withExecuteCommand (types : LspTypes C) (b : ServerCapabilitiesBuilder C) :=
  b.setServerCap .executeCommandProvider (some (b.executeCommandOptions types).value)

def withSelectionRange (b : ServerCapabilitiesBuilder C) :=
  b.setServerCap .selectionRangeProvider (b.providerOptions textDocumentSelectionRange
    (some (.bool true)))

def withCallHierarchy (b : ServerCapabilitiesBuilder C) :=
  b.setServerCap .callHierarchyProvider (b.providerOptions textDocumentPrepareCallHierarchy
    (some (.bool true)))

def withTypeHierarchy (b : ServerCapabilitiesBuilder C) :=
  b.setServerCap .typeHierarchyProvider (b.providerOptions textDocumentPrepareTypeHierarchy
    (some (.bool true)))

def semanticTokensProviders : List Method :=
  [textDocumentSemanticTokensFull, textDocumentSemanticTokensFullDelta,
    textDocumentSemanticTokensRange]

variable [LE C] [DecidableLE C]

/-- `isinstance(value, types.SemanticTokensRegistrationOptions)` -/
def isRegistration (types : LspTypes C) : Value C → Bool
  | .object (.lsp cls) _ => cls ≤ types.semanticTokensRegistrationOptions
  | _ => false

/-- With the legend that one of the features was registered with. -/
def semanticTokensOptions (types : LspTypes C) (b : ServerCapabilitiesBuilder C)
    (legend : Value C) : Options C :=
  let fullSupport : Value C :=
    if textDocumentSemanticTokensFullDelta ∈ b.features then
      (types.new types.semanticTokensFullDelta [(text "delta", .bool true)]).value
    else .bool (textDocumentSemanticTokensFull ∈ b.features)
  types.new types.semanticTokensOptions
    [(text "legend", legend), (text "full", orNone fullSupport),
      (text "range", orNone (.bool (textDocumentSemanticTokensRange ∈ b.features)))]

/-- The loop over the providers: the options of the first that has some. -/
def semanticTokensValue (b : ServerCapabilitiesBuilder C) : Option (Value C) :=
  semanticTokensProviders.findSome? fun provider => b.providerOptions provider none

def semanticTokens (types : LspTypes C) (b : ServerCapabilitiesBuilder C) : Option (Value C) :=
  match b.semanticTokensValue with
  | none => none
  | some value =>
    if isRegistration types value then some value
    else
      let options := (b.semanticTokensOptions types value).value
      if truthy (attr (text "full") options) || truthy (attr (text "range") options) then
        some options
      else none

def withSemanticTokens (types : LspTypes C) (b : ServerCapabilitiesBuilder C) :=
  b.setServerCap .semanticTokensProvider (b.semanticTokens types)

def withLinkedEditingRange (b : ServerCapabilitiesBuilder C) :=
  b.setServerCap .linkedEditingRangeProvider (b.providerOptions textDocumentLinkedEditingRange
    (some (.bool true)))

def withMoniker (b : ServerCapabilitiesBuilder C) :=
  b.setServerCap .monikerProvider (b.providerOptions textDocumentMoniker (some (.bool true)))

def withWorkspaceSymbol (types : LspTypes C) (b : ServerCapabilitiesBuilder C) :=
  b.withFlag workspaceSymbol (types.new types.workspaceSymbolOptions []) (text "resolve_provider")
    workspaceSymbolResolve .workspaceSymbolProvider

def operations : List (Method × Str) :=
  [(workspaceWillCreateFiles, text "will_create"), (workspaceDidCreateFiles, text "did_create"),
    (workspaceWillDeleteFiles, text "will_delete"), (workspaceDidDeleteFiles, text "did_delete"),
    (workspaceWillRenameFiles, text "will_rename"), (workspaceDidRenameFiles, text "did_rename")]

/-- The options of the file operations that the client supports. -/
def fileOperations (types : LspTypes C) (b : ServerCapabilitiesBuilder C) : Options C :=
  operations.foldl (fun options operation =>
    if truthy (getCapability b.clientCapabilities
        (text "workspace.file_operations." ++ operation.2) .null) then
      options.setattr operation.2 ((b.providerOptions operation.1 none).getD .null)
    else options) (types.new types.fileOperationOptions [])

def workspaceOptions (types : LspTypes C) (b : ServerCapabilitiesBuilder C) : Options C :=
  types.new types.workspaceOptions
    [(text "workspace_folders", (types.new types.workspaceFoldersServerCapabilities
      [(text "supported", .bool true), (text "change_notifications", .bool true)]).value),
      (text "file_operations", (b.fileOperations types).value)]

def withWorkspaceCapabilities (types : LspTypes C) (b : ServerCapabilitiesBuilder C) :=
  b.setServerCap .workspace (some (b.workspaceOptions types).value)

def withDiagnosticProvider (types : LspTypes C) (b : ServerCapabilitiesBuilder C) :=
  b.withFlag textDocumentDiagnostic
    (types.new types.diagnosticOptions [(text "inter_file_dependencies", .bool false),
      (text "workspace_diagnostics", .bool false)])
    (text "workspace_diagnostics") workspaceDiagnostic .diagnosticProvider

def withInlineValueProvider (b : ServerCapabilitiesBuilder C) :=
  b.setServerCap .inlineValueProvider (b.providerOptions textDocumentInlineValue
    (some (.bool true)))

/-- Only with options: there is no default. -/
def withInlineCompletionProvider (b : ServerCapabilitiesBuilder C) :=
  b.setServerCap .inlineCompletionProvider (b.providerOptions textDocumentInlineCompletion none)

/-- The steps of `build`, in their order. -/
def steps (types : LspTypes C) : List (ServerCapabilitiesBuilder C → ServerCapabilitiesBuilder C) :=
  [withTextDocumentSync types, withNotebookDocumentSync, withCompletion types, withHover,
    withSignatureHelp types, withDeclaration, withDefinition, withTypeDefinition,
    withInlayHints types, withImplementation, withReferences, withDocumentHighlight,
    withDocumentSymbol, withCodeAction, withCodeLens types, withDocumentLink types, withColor,
    withDocumentFormatting, withDocumentRangeFormatting, withDocumentOnTypeFormatting,
    withRename types, withFoldingRange, withExecuteCommand types, withSelectionRange,
    withCallHierarchy, withTypeHierarchy, withSemanticTokens types, withLinkedEditingRange,
    withMoniker, withWorkspaceSymbol types, withWorkspaceCapabilities types,
    withDiagnosticProvider types, withInlineValueProvider, withInlineCompletionProvider]

/-- The builder after the chain; what `build` returns is its `serverCap`. -/
def build (types : LspTypes C) (b : ServerCapabilitiesBuilder C) : ServerCapabilitiesBuilder C :=
  (steps types).foldl (fun b step => step b) b

end ServerCapabilitiesBuilder

end Pygls.Capabilities
