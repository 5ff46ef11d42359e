import Mathlib.Data.List.Perm.Basic
import Pygls.Capabilities
import Pygls.Lib.Footprint
import Pygls.Lib.Latest

/-!
# What the capabilities announce

A client reads the capabilities as the methods that it may call. Each step of the builder
decides over its own attribute, so what is announced can be told step by step, and the
order of the steps does not matter.
-/

namespace Pygls.Capabilities

open Lib Decoding Routing

set_option autoImplicit false

variable {C : Type}

theorem lit_injective : Function.Injective lit := by
  refine List.map_injective_iff.mpr ?_
  intro c d h
  have hlt : ∀ c : Char, c.toNat < 0x110000 := by
    intro c
    have hvalid := c.valid
    simp only [UInt32.isValidChar, Nat.isValidChar] at hvalid
    change c.val.toNat < 0x110000
    omega
  have hval := congrArg Fin.val h
  simp only [Fin.ofNat, Nat.mod_eq_of_lt (hlt c), Nat.mod_eq_of_lt (hlt d)] at hval
  exact Char.toNat_inj.mp hval

theorem text_injective : Function.Injective text := by
  intro s t h
  unfold text at h
  exact String.toList_injective (lit_injective h)

theorem text_inj {s t : String} : text s = text t ↔ s = t := text_injective.eq_iff

/-- The client may call `method` where what it finds at the path is truthy. -/
structure Announcement where
  target : Attribute
  path : List Str
  method : Method
  host : Method
  needsOptions : Bool
  clientField : Option Str

namespace Announcement

def Shows (r : Announcement) (v : Value C) : Prop := (reduceGetattr r.path v).any truthy = true

/-- The method and the feature that it belongs to are registered, with options where there is
no default, and the client says that it can deal with it. -/
def Due (r : Announcement) (inputs : Inputs C) (options : Dict Str (Options C)) : Prop :=
  r.method ∈ inputs.features ∧ r.host ∈ inputs.features ∧
    (r.needsOptions = true → options.get? r.method ≠ none) ∧
    ∀ field ∈ r.clientField, truthy (getCapability inputs.clientCapabilities field .null) = true

theorem not_shows_null (r : Announcement) : ¬r.Shows (.null : Value C) := by
  intro h
  cases hpath : r.path with
  | nil =>
    rw [Shows, hpath] at h
    cases h
  | cons name names =>
    rw [Shows, hpath] at h
    cases h

end Announcement

theorem getattr_setattr (o : Options C) (name name' : Str) (v : Value C) :
    getattr name (o.setattr name' v).value =
      if name = name' then some v else getattr name o.value :=
  Dict.lookup_insert name' name v o.attributes

theorem getattr_foldl_setattr (arguments : Entries C) (o : Options C) (name : Str) :
    getattr name (arguments.foldl (fun o argument => o.setattr argument.1 argument.2) o).value =
      (latest name arguments).or (getattr name o.value) := by
  induction arguments generalizing o with
  | nil => rfl
  | cons argument arguments ih =>
    rw [List.foldl_cons, ih, getattr_setattr, latest, Option.or_assoc]
    congr 1
    by_cases h : name = argument.1
    · rw [if_pos h, if_pos h.symm]
      rfl
    · rw [if_neg h, if_neg (Ne.symm h)]
      rfl

/-- An argument is found again. -/
theorem getattr_new (types : LspTypes C) (cls : C) {arguments : Entries C} {name : Str}
    {v : Value C} (h : latest name arguments = some v) :
    getattr name (types.new cls arguments).value = some v := by
  rw [LspTypes.new, getattr_foldl_setattr, h]
  rfl

/-- What is not given is `None`. -/
theorem not_truthy_default (types : LspTypes C) (cls : C) (name : Str) :
    (getattr name (types.new cls []).value).any truthy = false := by
  change (Dict.lookup name ((types.names cls).map fun name => (name, .null))).any truthy = false
  induction types.names cls with
  | nil => rfl
  | cons name' names ih =>
    rw [List.map_cons, Dict.lookup]
    split
    · rfl
    · exact ih

theorem truthy_value (o : Options C) : truthy o.value = true := rfl

theorem truthy_null : truthy (.null : Value C) = false := rfl

theorem truthy_bool (b : Bool) : truthy (.bool b : Value C) = b := rfl

theorem truthy_attr (name : Str) (v : Value C) :
    truthy (attr name v) = (getattr name v).any truthy := by
  unfold attr
  cases getattr name v <;> rfl

theorem truthy_both (v w : Value C) : truthy (both v w) = (truthy v && truthy w) := by
  unfold both
  split <;> simp_all

/-- Whether a capability is truthy does not depend on a falsy default. -/
theorem truthy_getCapability (capabilities : Value C) (field : Str) :
    truthy (getCapability capabilities field (.bool false)) =
      truthy (getCapability capabilities field .null) := by
  unfold getCapability
  split <;> rfl

theorem reduceGetattr_cons (name : Str) (names : List Str) (v : Value C) :
    reduceGetattr (name :: names) v = (getattr name v).bind (reduceGetattr names) := by
  simp only [reduceGetattr, List.foldlM_cons]
  rfl

theorem reduceGetattr_nil : reduceGetattr [] = (some : Value C → Option (Value C)) := rfl

theorem reduceGetattr_one (name : Str) (v : Value C) : reduceGetattr [name] v = getattr name v := by
  rw [reduceGetattr_cons, reduceGetattr_nil, Option.bind_fun_some]

theorem setServerCap_self {b : ServerCapabilitiesBuilder C} {a : Attribute}
    (h : b.serverCap a = .null) (value : Option (Value C)) :
    (b.setServerCap a value).serverCap a = value.getD .null := by
  cases value with
  | none => exact h
  | some v => simp [ServerCapabilitiesBuilder.setServerCap]

inductive Cell where
  | inputs
  | options (feature : Method)
  | serverCap (a : Attribute)

abbrev Cell.Value (C : Type) : Cell → Type
  | .inputs => Inputs C
  | .options _ => Option (Options C)
  | .serverCap _ => Decoding.Value C

def cell : ∀ i : Cell, ServerCapabilitiesBuilder C → i.Value C
  | .inputs, b => b.toInputs
  | .options feature, b => b.featureOptions.get? feature
  | .serverCap a, b => b.serverCap a

/-- A step of the builder, with its attribute, the features whose options it looks up, and what
it announces. -/
structure Step (C : Type) where
  target : Attribute
  features : List Method
  announcements : List Announcement
  act : ServerCapabilitiesBuilder C → ServerCapabilitiesBuilder C
  inputs : ∀ b, (act b).toInputs = b.toInputs
  options : ∀ b feature, feature ∉ features →
    (act b).featureOptions.get? feature = b.featureOptions.get? feature
  others : ∀ b a, a ≠ target → (act b).serverCap a = b.serverCap a
  determined : ∀ b b', b.toInputs = b'.toInputs →
    (∀ feature ∈ features, b.featureOptions.get? feature = b'.featureOptions.get? feature) →
    b.serverCap target = b'.serverCap target →
    (act b).serverCap target = (act b').serverCap target ∧
      ∀ feature ∈ features,
        (act b).featureOptions.get? feature = (act b').featureOptions.get? feature
  again : ∀ b b' : ServerCapabilitiesBuilder C,
    (act { b' with featureOptions := (act b).featureOptions }).serverCap target =
      (act { b' with featureOptions := b.featureOptions }).serverCap target
  due : ∀ b, b.serverCap target = .null → ∀ r ∈ announcements, r.target = target ∧
    (r.Shows ((act b).serverCap target) ↔ r.Due b.toInputs b.featureOptions)

namespace Step

def owns (step : Step C) : Cell → Prop
  | .inputs => False
  | .options feature => feature ∈ step.features
  | .serverCap a => a = step.target

def task (step : Step C) : Task (@cell C) where
  act := step.act
  owns := step.owns
  uses i := i = .inputs
  frame b i hi := by
    cases i with
    | inputs => exact step.inputs b
    | options feature => exact step.options b feature hi
    | serverCap a => exact step.others b a hi
  determined b b' h i hi := by
    have hafter := step.determined b b' (h .inputs (Or.inr rfl))
      (fun feature hf => h (.options feature) (Or.inl hf))
      (h (.serverCap step.target) (Or.inl rfl))
    cases i with
    | inputs => exact absurd hi id
    | options feature => exact hafter.2 feature hi
    | serverCap a =>
      rw [show a = step.target from hi]
      exact hafter.1

theorem apart {step step' : Step C} (ha : step.target ≠ step'.target)
    (hf : List.Disjoint step.features step'.features) : Task.Apart step.task step'.task := by
  have away : ∀ {s s' : Step C}, s.target ≠ s'.target →
      List.Disjoint s.features s'.features → ∀ i, s.task.owns i ∨ s.task.uses i → ¬s'.owns i := by
    intro s s' ha hf i hi hi'
    cases i with
    | inputs => exact hi'
    | options feature =>
      rcases hi with hi | hi
      · exact hf hi hi'
      · cases hi
    | serverCap a =>
      rcases hi with hi | hi
      · exact ha (hi.symm.trans hi')
      · cases hi
  exact ⟨away ha hf, away ha.symm fun _ hx hx' => hf hx' hx⟩

/-- What is computed from the inputs and the options of the features. -/
def Reads {A : Type} (value : ServerCapabilitiesBuilder C → A) (features : List Method) : Prop :=
  ∀ b b', b.toInputs = b'.toInputs →
    (∀ feature ∈ features, b.featureOptions.get? feature = b'.featureOptions.get? feature) →
    value b = value b'

theorem reads_providerOptions (feature : Method) (default : Option (Value C)) :
    Reads (fun b => b.providerOptions feature default) [feature] := by
  intro b b' hin hopt
  have hfeatures : b.features = b'.features := congrArg Inputs.features hin
  simp only [ServerCapabilitiesBuilder.providerOptions, hfeatures,
    hopt feature (List.mem_singleton.mpr rfl)]

def assign (target : Attribute) (features : List Method) (announcements : List Announcement)
    (value : ServerCapabilitiesBuilder C → Option (Value C)) (h : Reads value features)
    (due : ∀ b, ∀ r ∈ announcements, r.target = target ∧
      ((∃ v, value b = some v ∧ r.Shows v) ↔ r.Due b.toInputs b.featureOptions)) :
    Step C where
  target := target
  features := features
  announcements := announcements
  act b := b.setServerCap target (value b)
  inputs b := by
    cases hv : value b <;> simp [ServerCapabilitiesBuilder.setServerCap]
  options b feature hf := by
    cases hv : value b <;> simp [ServerCapabilitiesBuilder.setServerCap]
  others b a ha := by
    cases hv : value b <;> simp [ServerCapabilitiesBuilder.setServerCap, ha]
  determined b b' hin hopt htarget := by
    rw [h b b' hin hopt]
    cases hv : value b' with
    | none => exact ⟨htarget, hopt⟩
    | some v => exact ⟨by simp [ServerCapabilitiesBuilder.setServerCap], hopt⟩
  again b b' := by
    have hsame : (b.setServerCap target (value b)).featureOptions = b.featureOptions := by
      cases value b <;> rfl
    rw [hsame]
  due b hnull r hr := by
    obtain ⟨htarget, hdue⟩ := due b r hr
    refine ⟨htarget, Iff.trans ?_ hdue⟩
    cases hv : value b with
    | none =>
      simp only [ServerCapabilitiesBuilder.setServerCap, hnull, reduceCtorEq, false_and,
        exists_false, iff_false]
      exact r.not_shows_null
    | some v => simp [ServerCapabilitiesBuilder.setServerCap]

/-- A provider of one feature. -/
def provider (target : Attribute) (feature : Method) (default : Option (Value C))
    (hdefault : ∀ v ∈ default, truthy v = true) : Step C :=
  assign target [feature] [⟨target, [], feature, feature, default.isNone, none⟩]
    (fun b => b.providerOptions feature default) (reads_providerOptions feature default) (by
    intro b r hr
    rw [List.mem_singleton.mp hr]
    refine ⟨rfl, ?_⟩
    simp only [ServerCapabilitiesBuilder.providerOptions, Announcement.Shows, Announcement.Due]
    by_cases hfeature : feature ∈ b.features
    · cases hopt : b.featureOptions.get? feature with
      | some options => simp [hfeature, reduceGetattr, truthy_value]
      | none =>
        cases default with
        | some v => simpa [hfeature, reduceGetattr] using hdefault v rfl
        | none => simp [hfeature]
    · simp [hfeature])

def flag (feature : Method) (default : Options C) (name : Str) (flag : Method)
    (target : Attribute) : Step C where
  target := target
  features := [feature]
  announcements := [⟨target, [], feature, feature, false, none⟩,
    ⟨target, [name], flag, feature, false, none⟩]
  act b := b.withFlag feature default name flag target
  inputs b := by
    unfold ServerCapabilitiesBuilder.withFlag
    split
    · split
      · rfl
      · rfl
    · rfl
  options b feature' hf := by
    unfold ServerCapabilitiesBuilder.withFlag
    split
    · split
      · exact Dict.get?_set_ne _ _ (List.ne_of_not_mem_cons hf)
      · rfl
    · rfl
  others b a ha := by
    unfold ServerCapabilitiesBuilder.withFlag
    split
    · split
      · exact Function.update_of_ne ha _ _
      · exact Function.update_of_ne ha _ _
    · rfl
  determined b b' hin hopt htarget := by
    have hfeatures : b.features = b'.features := congrArg Inputs.features hin
    have hfeature := hopt feature (List.mem_singleton.mpr rfl)
    unfold ServerCapabilitiesBuilder.withFlag
    rw [hfeatures, hfeature]
    split
    · split
      · refine ⟨?_, ?_⟩
        · simp [ServerCapabilitiesBuilder.setServerCap]
        · intro feature' hf
          rw [List.mem_singleton.mp hf, Dict.get?_set_self, Dict.get?_set_self]
      · refine ⟨?_, ?_⟩
        · simp [ServerCapabilitiesBuilder.setServerCap]
        · intro feature' hf
          rw [List.mem_singleton.mp hf]
          exact hfeature
    · exact ⟨htarget, hopt⟩
  again b b' := by
    by_cases hfeature : feature ∈ b'.features
    · by_cases hbefore : feature ∈ b.features
      · cases hopt : b.featureOptions.get? feature with
        | none =>
          simp [ServerCapabilitiesBuilder.withFlag, ServerCapabilitiesBuilder.setServerCap,
            hfeature, hbefore, hopt]
        | some options =>
          simp [ServerCapabilitiesBuilder.withFlag, ServerCapabilitiesBuilder.setServerCap,
            hfeature, hbefore, hopt, Options.setattr, Dict.insert_insert]
      · simp only [ServerCapabilitiesBuilder.withFlag, if_neg hbefore]
    · simp only [ServerCapabilitiesBuilder.withFlag, if_neg hfeature]
  due b hnull r hr := by
    have hvalue : feature ∈ b.features → ∃ o : Options C,
        (b.withFlag feature default name flag target).serverCap target =
          (o.setattr name (.bool (flag ∈ b.features))).value := by
      intro hfeature
      unfold ServerCapabilitiesBuilder.withFlag
      rw [if_pos hfeature]
      cases b.featureOptions.get? feature with
      | none => exact ⟨default, by simp [ServerCapabilitiesBuilder.setServerCap]⟩
      | some options => exact ⟨options, by simp [ServerCapabilitiesBuilder.setServerCap]⟩
    have hplain : feature ∉ b.features →
        (b.withFlag feature default name flag target).serverCap target = .null := by
      intro hfeature
      rw [ServerCapabilitiesBuilder.withFlag, if_neg hfeature, hnull]
    simp only [List.mem_cons, List.not_mem_nil, or_false] at hr
    by_cases hfeature : feature ∈ b.features
    · obtain ⟨o, ho⟩ := hvalue hfeature
      rw [ho]
      rcases hr with rfl | rfl
      · simp [Announcement.Shows, Announcement.Due, hfeature, reduceGetattr, truthy_value]
      · simp [Announcement.Shows, Announcement.Due, hfeature, reduceGetattr, getattr_setattr,
          truthy]
    · rw [hplain hfeature]
      rcases hr with rfl | rfl
      · exact ⟨rfl, iff_of_false (Announcement.not_shows_null _) fun h => hfeature h.1⟩
      · exact ⟨rfl, iff_of_false (Announcement.not_shows_null _) fun h => hfeature h.2.1⟩

theorem reads_textDocumentSync (types : LspTypes C) :
    Reads (fun b => some (b.textDocumentSyncOptions types).value) [textDocumentDidSave] := by
  intro b b' hin hopt
  have hsave := reads_providerOptions textDocumentDidSave (some (.bool true)) b b' hin hopt
  cases b
  cases b'
  cases hin
  simp only at hsave
  simp only [ServerCapabilitiesBuilder.textDocumentSyncOptions, hsave]

/-- What depends on the inputs alone. -/
theorem reads_inputs {A : Type} {value : ServerCapabilitiesBuilder C → A} (f : Inputs C → A)
    (h : ∀ b, value b = f b.toInputs) : Reads value [] := by
  intro b b' hin _
  rw [h, h, hin]

theorem reads_fileOperations (types : LspTypes C) :
    Reads (fun b => some (b.workspaceOptions types).value)
      (ServerCapabilitiesBuilder.operations.map Prod.fst) := by
  intro b b' hin hopt
  have hclient : b.clientCapabilities = b'.clientCapabilities :=
    congrArg Inputs.clientCapabilities hin
  have hoperations : b.fileOperations types = b'.fileOperations types := by
    refine List.foldl_ext _ _ _ ?_
    intro options operation hop
    have hprovider := reads_providerOptions operation.1 none b b' hin ?_
    · simp only at hprovider
      rw [hclient, hprovider]
    · intro feature hf
      rw [List.mem_singleton.mp hf]
      exact hopt operation.1 (List.mem_map_of_mem hop)
  simp only [ServerCapabilitiesBuilder.workspaceOptions, hoperations]

def simple (target : Attribute) (feature : Method) : Step C :=
  provider target feature (some (.bool true)) (by simp [truthy_bool])

def textDocumentSync (types : LspTypes C) : Step C :=
  assign .textDocumentSync [textDocumentDidSave]
    [⟨.textDocumentSync, [text "will_save"], textDocumentWillSave, textDocumentWillSave, false,
        some (text "text_document.synchronization.will_save")⟩,
      ⟨.textDocumentSync, [text "will_save_wait_until"], textDocumentWillSaveWaitUntil,
        textDocumentWillSaveWaitUntil, false,
        some (text "text_document.synchronization.will_save_wait_until")⟩,
      ⟨.textDocumentSync, [text "save"], textDocumentDidSave, textDocumentDidSave, false, none⟩]
    _ (reads_textDocumentSync types) (by
    intro b r hr
    simp only [List.mem_cons, List.not_mem_nil, or_false] at hr
    simp only [Option.some.injEq, exists_eq_left']
    rcases hr with rfl | rfl | rfl
    · refine ⟨rfl, ?_⟩
      rw [Announcement.Shows, reduceGetattr_one, ServerCapabilitiesBuilder.textDocumentSyncOptions,
        getattr_new types _ (by simp only [latest, text_inj]; rfl)]
      simp [truthy_both, truthy_bool, Announcement.Due, and_comm]
    · refine ⟨rfl, ?_⟩
      rw [Announcement.Shows, reduceGetattr_one, ServerCapabilitiesBuilder.textDocumentSyncOptions,
        getattr_new types _ (by simp only [latest, text_inj]; rfl)]
      simp [truthy_both, truthy_bool, Announcement.Due, and_comm]
    · refine ⟨rfl, ?_⟩
      rw [Announcement.Shows, reduceGetattr_one, ServerCapabilitiesBuilder.textDocumentSyncOptions,
        getattr_new types _ (by simp only [latest, text_inj]; rfl)]
      by_cases hsave : textDocumentDidSave ∈ b.features
      · cases hopt : b.featureOptions.get? textDocumentDidSave <;>
          simp [ServerCapabilitiesBuilder.providerOptions, Announcement.Due, hsave, hopt,
            truthy_bool, truthy_value]
      · simp [ServerCapabilitiesBuilder.providerOptions, Announcement.Due, hsave, truthy_bool])

def notebookDocumentSync : Step C :=
  assign .notebookDocumentSync [] [] _
    (reads_inputs (fun i => (ServerCapabilitiesBuilder.new i .empty []).notebookSync)
      fun _ => rfl) (by simp)

def rename (types : LspTypes C) : Step C :=
  assign .renameProvider []
    [⟨.renameProvider, [], textDocumentRename, textDocumentRename, false, none⟩,
      ⟨.renameProvider, [text "prepare_provider"], textDocumentPrepareRename, textDocumentRename,
        false, some (text "text_document.rename.prepare_support")⟩]
    (fun b => b.renameOptions types)
    (reads_inputs (fun i => (ServerCapabilitiesBuilder.new i .empty []).renameOptions types)
      fun _ => rfl) (by
    intro b r hr
    simp only [List.mem_cons, List.not_mem_nil, or_false] at hr
    simp only [ServerCapabilitiesBuilder.renameOptions, truthy_getCapability]
    by_cases hrename : textDocumentRename ∈ b.features
    · cases hclient : truthy (getCapability b.clientCapabilities
          (text "text_document.rename.prepare_support") .null) with
      | true =>
        rcases hr with rfl | rfl
        · simp [Announcement.Shows, Announcement.Due, hrename, reduceGetattr, truthy_value]
        · have hprepare : getattr (text "prepare_provider") (types.new types.renameOptions
              [(text "prepare_provider", .bool (textDocumentPrepareRename ∈ b.features))]).value =
                some (.bool (textDocumentPrepareRename ∈ b.features)) :=
            getattr_new types _ (by rw [latest_singleton, if_pos rfl])
          simp [Announcement.Shows, Announcement.Due, hrename, hclient, reduceGetattr_one,
            hprepare, truthy_bool]
      | false =>
        rcases hr with rfl | rfl
        · simp [Announcement.Shows, Announcement.Due, hrename, reduceGetattr, truthy_bool]
        · simp [Announcement.Shows, Announcement.Due, hrename, hclient, reduceGetattr_one,
            getattr]
    · rcases hr with rfl | rfl
      · simp [Announcement.Due, hrename]
      · simp [Announcement.Due, hrename])

/-- An operation writes under its own name. -/
theorem getattr_operations (b : ServerCapabilitiesBuilder C) (operations : List (Method × Str))
    (hnames : (operations.map Prod.snd).Nodup) (o : Options C) {operation : Method × Str}
    (hop : operation ∈ operations) :
    getattr operation.2 (operations.foldl (fun options operation =>
      if truthy (getCapability b.clientCapabilities
          (text "workspace.file_operations." ++ operation.2) .null) then
        options.setattr operation.2 ((b.providerOptions operation.1 none).getD .null)
      else options) o).value =
    if truthy (getCapability b.clientCapabilities
        (text "workspace.file_operations." ++ operation.2) .null) then
      some ((b.providerOptions operation.1 none).getD .null)
    else getattr operation.2 o.value := by
  have others : ∀ (operations : List (Method × Str)) (o : Options C),
      operation.2 ∉ operations.map Prod.snd →
      getattr operation.2 (operations.foldl (fun options operation =>
        if truthy (getCapability b.clientCapabilities
            (text "workspace.file_operations." ++ operation.2) .null) then
          options.setattr operation.2 ((b.providerOptions operation.1 none).getD .null)
        else options) o).value = getattr operation.2 o.value := by
    intro operations
    induction operations with
    | nil => exact fun _ _ => rfl
    | cons other operations ih =>
      intro o hother
      obtain ⟨hne, hrest⟩ := not_or.mp (mt List.mem_cons.mpr hother)
      rw [List.foldl_cons, ih _ hrest]
      split
      · rw [getattr_setattr, if_neg hne]
      · rfl
  induction operations generalizing o with
  | nil => cases hop
  | cons first operations ih =>
    obtain ⟨hfirst, hnames⟩ := List.nodup_cons.mp hnames
    rw [List.foldl_cons]
    rcases List.mem_cons.mp hop with rfl | hop
    · rw [others _ _ hfirst]
      split
      · rw [getattr_setattr, if_pos rfl]
      · rfl
    · rw [ih hnames _ hop]
      have hne : operation.2 ≠ first.2 := by
        intro heq
        rw [← heq] at hfirst
        exact hfirst (List.mem_map_of_mem hop)
      split
      · rfl
      · split
        · rw [getattr_setattr, if_neg hne]
        · rfl

def fileOperation (operation : Method × Str) : Announcement :=
  ⟨.workspace, [text "file_operations", operation.2], operation.1, operation.1, true,
    some (text "workspace.file_operations." ++ operation.2)⟩

def workspace (types : LspTypes C) : Step C :=
  assign .workspace (ServerCapabilitiesBuilder.operations.map Prod.fst)
    (ServerCapabilitiesBuilder.operations.map fileOperation) _ (reads_fileOperations types) (by
    intro b r hr
    obtain ⟨operation, hop, rfl⟩ := List.mem_map.mp hr
    refine ⟨rfl, ?_⟩
    have hnames : (ServerCapabilitiesBuilder.operations.map Prod.snd).Nodup := by
      change (List.map text ["will_create", "did_create", "will_delete", "did_delete",
        "will_rename", "did_rename"]).Nodup
      exact List.Nodup.map text_injective (by decide)
    have hoperation : getattr operation.2 (b.fileOperations types).value =
        if truthy (getCapability b.clientCapabilities
            (text "workspace.file_operations." ++ operation.2) .null) then
          some ((b.providerOptions operation.1 none).getD .null)
        else getattr operation.2 (types.new types.fileOperationOptions []).value :=
      getattr_operations b _ hnames _ hop
    have hoptions : getattr (text "file_operations") (b.workspaceOptions types).value =
        some (b.fileOperations types).value :=
      getattr_new types _ (by simp only [latest, text_inj]; rfl)
    simp only [Option.some.injEq, exists_eq_left', Announcement.Shows, fileOperation,
      reduceGetattr_cons, reduceGetattr_nil, hoptions, Option.bind_some, Option.bind_fun_some,
      hoperation]
    cases hclient : truthy (getCapability b.clientCapabilities
        (text "workspace.file_operations." ++ operation.2) .null) with
    | false => simp [Announcement.Due, hclient, not_truthy_default]
    | true =>
      by_cases hmethod : operation.1 ∈ b.features
      · cases hopt : b.featureOptions.get? operation.1 <;>
          simp [ServerCapabilitiesBuilder.providerOptions, Announcement.Due, hclient, hmethod,
            hopt, truthy_null, truthy_value]
      · simp [ServerCapabilitiesBuilder.providerOptions, Announcement.Due, hmethod, truthy_null])

def executeCommand (types : LspTypes C) : Step C :=
  assign .executeCommandProvider [] [] _
    (reads_inputs (fun i => some
      ((ServerCapabilitiesBuilder.new i .empty []).executeCommandOptions types).value)
      fun _ => rfl) (by simp)

theorem executeCommand_act (types : LspTypes C) (b : ServerCapabilitiesBuilder C) :
    (executeCommand types).act b = b.withExecuteCommand types := rfl

theorem executeCommand_target (types : LspTypes C) :
    (executeCommand types).target = .executeCommandProvider := rfl

variable [LE C] [DecidableLE C]

theorem reads_semanticTokens (types : LspTypes C) :
    Reads (fun b => b.semanticTokens types)
      ServerCapabilitiesBuilder.semanticTokensProviders := by
  intro b b' hin hopt
  have hprovider : ∀ provider ∈ ServerCapabilitiesBuilder.semanticTokensProviders,
      b.providerOptions provider none = b'.providerOptions provider none := by
    intro provider hp
    refine reads_providerOptions provider none b b' hin ?_
    intro feature hf
    rw [List.mem_singleton.mp hf]
    exact hopt provider hp
  have hvalue : b.semanticTokensValue = b'.semanticTokensValue := by
    simp only [ServerCapabilitiesBuilder.semanticTokensProviders, List.forall_mem_cons]
      at hprovider
    simp only [ServerCapabilitiesBuilder.semanticTokensValue,
      ServerCapabilitiesBuilder.semanticTokensProviders, List.findSome?_cons, List.findSome?_nil,
      hprovider]
  have hfeatures : b.features = b'.features := congrArg Inputs.features hin
  have hoptions : b.semanticTokensOptions types = b'.semanticTokensOptions types := by
    funext legend
    simp only [ServerCapabilitiesBuilder.semanticTokensOptions, hfeatures]
  simp only [ServerCapabilitiesBuilder.semanticTokens, hvalue, hoptions]

/-- What it announces depends on the options, see `semanticTokens_announced`. -/
def semanticTokens (types : LspTypes C) : Step C :=
  assign .semanticTokensProvider _ [] _ (reads_semanticTokens types) (by simp)

theorem semanticTokens_act (types : LspTypes C) (b : ServerCapabilitiesBuilder C) :
    (semanticTokens types).act b = b.withSemanticTokens types := rfl

theorem semanticTokens_target (types : LspTypes C) :
    (semanticTokens types).target = .semanticTokensProvider := rfl

/-- The steps of `build`, with what they touch. -/
def all (types : LspTypes C) : List (Step C) :=
  [textDocumentSync types, notebookDocumentSync,
    provider .completionProvider textDocumentCompletion
      (some (types.new types.completionOptions []).value) (by simp [truthy_value]),
    simple .hoverProvider textDocumentHover,
    provider .signatureHelpProvider textDocumentSignatureHelp
      (some (types.new types.signatureHelpOptions []).value) (by simp [truthy_value]),
    simple .declarationProvider textDocumentDeclaration,
    simple .definitionProvider textDocumentDefinition,
    simple .typeDefinitionProvider textDocumentTypeDefinition,
    flag textDocumentInlayHint (types.new types.inlayHintOptions []) (text "resolve_provider")
      inlayHintResolve .inlayHintProvider,
    simple .implementationProvider textDocumentImplementation,
    simple .referencesProvider textDocumentReferences,
    simple .documentHighlightProvider textDocumentDocumentHighlight,
    simple .documentSymbolProvider textDocumentDocumentSymbol,
    simple .codeActionProvider textDocumentCodeAction,
    flag textDocumentCodeLens (types.new types.codeLensOptions []) (text "resolve_provider")
      codeLensResolve .codeLensProvider,
    flag textDocumentDocumentLink (types.new types.documentLinkOptions [])
      (text "resolve_provider") documentLinkResolve .documentLinkProvider,
    simple .colorProvider textDocumentDocumentColor,
    simple .documentFormattingProvider textDocumentFormatting,
    simple .documentRangeFormattingProvider textDocumentRangeFormatting,
    provider .documentOnTypeFormattingProvider textDocumentOnTypeFormatting none nofun,
    rename types, simple .foldingRangeProvider textDocumentFoldingRange, executeCommand types,
    simple .selectionRangeProvider textDocumentSelectionRange,
    simple .callHierarchyProvider textDocumentPrepareCallHierarchy,
    simple .typeHierarchyProvider textDocumentPrepareTypeHierarchy, semanticTokens types,
    simple .linkedEditingRangeProvider textDocumentLinkedEditingRange,
    simple .monikerProvider textDocumentMoniker,
    flag workspaceSymbol (types.new types.workspaceSymbolOptions []) (text "resolve_provider")
      workspaceSymbolResolve .workspaceSymbolProvider,
    workspace types,
    flag textDocumentDiagnostic
      (types.new types.diagnosticOptions [(text "inter_file_dependencies", .bool false),
        (text "workspace_diagnostics", .bool false)])
      (text "workspace_diagnostics") workspaceDiagnostic .diagnosticProvider,
    simple .inlineValueProvider textDocumentInlineValue,
    provider .inlineCompletionProvider textDocumentInlineCompletion none nofun]

theorem acts (types : LspTypes C) :
    (all types).map Step.act = ServerCapabilitiesBuilder.steps types := rfl

/-- All attributes but the position encoding are written, each by one step. -/
theorem targets (types : LspTypes C) :
    ((all types).map Step.target).Nodup ∧
      Attribute.positionEncoding ∉ (all types).map Step.target := by
  have htargets : (all types).map Step.target =
      [.textDocumentSync, .notebookDocumentSync, .completionProvider, .hoverProvider,
        .signatureHelpProvider, .declarationProvider, .definitionProvider,
        .typeDefinitionProvider, .inlayHintProvider, .implementationProvider,
        .referencesProvider, .documentHighlightProvider, .documentSymbolProvider,
        .codeActionProvider, .codeLensProvider, .documentLinkProvider, .colorProvider,
        .documentFormattingProvider, .documentRangeFormattingProvider,
        .documentOnTypeFormattingProvider, .renameProvider, .foldingRangeProvider,
        .executeCommandProvider, .selectionRangeProvider, .callHierarchyProvider,
        .typeHierarchyProvider, .semanticTokensProvider, .linkedEditingRangeProvider,
        .monikerProvider, .workspaceSymbolProvider, .workspace, .diagnosticProvider,
        .inlineValueProvider, .inlineCompletionProvider] := rfl
  rw [htargets]
  decide

theorem target_ne_positionEncoding {types : LspTypes C} {step : Step C}
    (hstep : step ∈ all types) : step.target ≠ .positionEncoding := by
  intro heq
  refine (targets types).2 ?_
  rw [← heq]
  exact List.mem_map_of_mem hstep

theorem features_nodup (types : LspTypes C) : ((all types).flatMap Step.features).Nodup := by
  change (List.map text ["textDocument/didSave", "textDocument/completion", "textDocument/hover",
    "textDocument/signatureHelp", "textDocument/declaration", "textDocument/definition",
    "textDocument/typeDefinition", "textDocument/inlayHint", "textDocument/implementation",
    "textDocument/references", "textDocument/documentHighlight", "textDocument/documentSymbol",
    "textDocument/codeAction", "textDocument/codeLens", "textDocument/documentLink",
    "textDocument/documentColor", "textDocument/formatting", "textDocument/rangeFormatting",
    "textDocument/onTypeFormatting", "textDocument/foldingRange", "textDocument/selectionRange",
    "textDocument/prepareCallHierarchy", "textDocument/prepareTypeHierarchy",
    "textDocument/semanticTokens/full", "textDocument/semanticTokens/full/delta",
    "textDocument/semanticTokens/range", "textDocument/linkedEditingRange",
    "textDocument/moniker", "workspace/symbol", "workspace/willCreateFiles",
    "workspace/didCreateFiles", "workspace/willDeleteFiles", "workspace/didDeleteFiles",
    "workspace/willRenameFiles", "workspace/didRenameFiles", "textDocument/diagnostic",
    "textDocument/inlineValue", "textDocument/inlineCompletion"]).Nodup
  refine List.Nodup.map text_injective ?_
  decide

theorem pairwise_apart (types : LspTypes C) :
    ((all types).map Step.task).Pairwise Task.Apart := by
  rw [List.pairwise_map]
  have htargets := List.pairwise_map.mp (targets types).1
  have hfeatures := (List.nodup_flatMap.mp (features_nodup types)).2
  exact htargets.imp₂ (fun _ _ ha hf => apart ha hf) hfeatures

end Step

namespace ServerCapabilitiesBuilder

variable [LE C] [DecidableLE C] (types : LspTypes C) (b : ServerCapabilitiesBuilder C)

theorem build_eq_perform :
    b.build types = Task.perform ((Step.all types).map Step.task) b := by
  rw [build, Task.perform, ← Step.acts, List.foldl_map, List.foldl_map]
  rfl

/-- Each step decides over what it touches, whatever the others do. -/
theorem build_of_step {step : Step C} (hstep : step ∈ Step.all types) :
    (b.build types).serverCap step.target = (step.act b).serverCap step.target ∧
      ∀ feature ∈ step.features, (b.build types).featureOptions.get? feature =
        (step.act b).featureOptions.get? feature := by
  have hmem : step.task ∈ (Step.all types).map Step.task := List.mem_map_of_mem hstep
  have hcell : ∀ i, step.owns i → cell i (b.build types) = cell i (step.act b) := by
    intro i hi
    rw [build_eq_perform]
    exact Task.perform_of_owned (Step.pairwise_apart types) hmem hi b
  exact ⟨hcell (.serverCap step.target) rfl, fun feature hf => hcell (.options feature) hf⟩

theorem build_of_no_step {a : Attribute} (ha : ¬∃ step ∈ Step.all types, step.target = a) :
    (b.build types).serverCap a = b.serverCap a := by
  have hno : ∀ t ∈ (Step.all types).map Step.task, ¬t.owns (.serverCap a) := by
    intro t ht hi
    obtain ⟨step, hstep, rfl⟩ := List.mem_map.mp ht
    exact ha ⟨step, hstep, (show a = step.target from hi).symm⟩
  rw [build_eq_perform]
  exact Task.perform_of_not_owned hno b

/-- The steps of the chain may come in any order. And what they write to the registered
options does not change what a later client is told. -/
theorem capabilities_in_any_order :
    (∀ order, (steps types).Perm order →
      (order.foldl (fun b step => step b) b).serverCap = (b.build types).serverCap ∧
      ∀ feature, (order.foldl (fun b step => step b) b).featureOptions.get? feature =
        (b.build types).featureOptions.get? feature) ∧
    ∀ b' : ServerCapabilitiesBuilder C,
      (build types { b' with featureOptions := (b.build types).featureOptions }).serverCap =
        (build types { b' with featureOptions := b.featureOptions }).serverCap := by
  constructor
  · intro order hperm
    rw [← Step.acts] at hperm
    obtain ⟨all', rfl, hall⟩ :=
      (congrFun (congrFun (List.eq_map_comp_perm Step.act) order) (Step.all types)).mpr hperm.symm
    have hcell := Task.perform_perm (Step.pairwise_apart types) (hall.symm.map Step.task) b
    have hperform : (all'.map Step.act).foldl (fun b step => step b) b =
        Task.perform (all'.map Step.task) b := by
      rw [Task.perform, List.foldl_map, List.foldl_map]
      rfl
    rw [hperform, build_eq_perform]
    exact ⟨funext fun a => hcell (.serverCap a), fun feature => hcell (.options feature)⟩
  · intro b'
    funext a
    by_cases ha : ∃ step ∈ Step.all types, step.target = a
    · obtain ⟨step, hstep, rfl⟩ := ha
      have hoptions := (build_of_step types b hstep).2
      generalize (b.build types).featureOptions = options at hoptions ⊢
      rw [(build_of_step types _ hstep).1, (build_of_step types _ hstep).1]
      refine Eq.trans ?_ (step.again b b')
      exact (step.determined { b' with featureOptions := options }
        { b' with featureOptions := (step.act b).featureOptions } rfl hoptions rfl).1
    · rw [build_of_no_step types _ ha, build_of_no_step types _ ha]

end ServerCapabilitiesBuilder

/-- A feature of its own. -/
def Announcement.plain (target : Attribute) (method : Method) : Announcement :=
  ⟨target, [], method, method, false, none⟩

/-- A feature that says on the options of another that it is there, too. -/
def Announcement.member (target : Attribute) (name : Str) (method host : Method) : Announcement :=
  ⟨target, [name], method, host, false, none⟩

def announcements : List Announcement :=
  [⟨.textDocumentSync, [text "will_save"], textDocumentWillSave, textDocumentWillSave, false,
      some (text "text_document.synchronization.will_save")⟩,
    ⟨.textDocumentSync, [text "will_save_wait_until"], textDocumentWillSaveWaitUntil,
      textDocumentWillSaveWaitUntil, false,
      some (text "text_document.synchronization.will_save_wait_until")⟩,
    .member .textDocumentSync (text "save") textDocumentDidSave textDocumentDidSave,
    .plain .completionProvider textDocumentCompletion,
    .plain .hoverProvider textDocumentHover,
    .plain .signatureHelpProvider textDocumentSignatureHelp,
    .plain .declarationProvider textDocumentDeclaration,
    .plain .definitionProvider textDocumentDefinition,
    .plain .typeDefinitionProvider textDocumentTypeDefinition,
    .plain .inlayHintProvider textDocumentInlayHint,
    .member .inlayHintProvider (text "resolve_provider") inlayHintResolve textDocumentInlayHint,
    .plain .implementationProvider textDocumentImplementation,
    .plain .referencesProvider textDocumentReferences,
    .plain .documentHighlightProvider textDocumentDocumentHighlight,
    .plain .documentSymbolProvider textDocumentDocumentSymbol,
    .plain .codeActionProvider textDocumentCodeAction,
    .plain .codeLensProvider textDocumentCodeLens,
    .member .codeLensProvider (text "resolve_provider") codeLensResolve textDocumentCodeLens,
    .plain .documentLinkProvider textDocumentDocumentLink,
    .member .documentLinkProvider (text "resolve_provider") documentLinkResolve
      textDocumentDocumentLink,
    .plain .colorProvider textDocumentDocumentColor,
    .plain .documentFormattingProvider textDocumentFormatting,
    .plain .documentRangeFormattingProvider textDocumentRangeFormatting,
    ⟨.documentOnTypeFormattingProvider, [], textDocumentOnTypeFormatting,
      textDocumentOnTypeFormatting, true, none⟩,
    .plain .renameProvider textDocumentRename,
    ⟨.renameProvider, [text "prepare_provider"], textDocumentPrepareRename, textDocumentRename,
      false, some (text "text_document.rename.prepare_support")⟩,
    .plain .foldingRangeProvider textDocumentFoldingRange,
    .plain .selectionRangeProvider textDocumentSelectionRange,
    .plain .callHierarchyProvider textDocumentPrepareCallHierarchy,
    .plain .typeHierarchyProvider textDocumentPrepareTypeHierarchy,
    .plain .linkedEditingRangeProvider textDocumentLinkedEditingRange,
    .plain .monikerProvider textDocumentMoniker,
    .plain .workspaceSymbolProvider workspaceSymbol,
    .member .workspaceSymbolProvider (text "resolve_provider") workspaceSymbolResolve
      workspaceSymbol] ++
  ServerCapabilitiesBuilder.operations.map Step.fileOperation ++
  [.plain .diagnosticProvider textDocumentDiagnostic,
    .member .diagnosticProvider (text "workspace_diagnostics") workspaceDiagnostic
      textDocumentDiagnostic,
    .plain .inlineValueProvider textDocumentInlineValue,
    ⟨.inlineCompletionProvider, [], textDocumentInlineCompletion, textDocumentInlineCompletion,
      true, none⟩]

namespace ServerCapabilitiesBuilder

variable [LE C] [DecidableLE C] (types : LspTypes C) (inputs : Inputs C)
  (options : Dict Str (Options C)) (positionEncoding : Str)

omit [LE C] [DecidableLE C] in
theorem new_serverCap {a : Attribute} (ha : a ≠ .positionEncoding) :
    (new inputs options positionEncoding).serverCap a = .null := by
  simp [new, ha]

theorem announcements_eq : announcements = (Step.all types).flatMap Step.announcements := rfl

theorem announced_iff_due {r : Announcement} (hr : r ∈ announcements) :
    r.Shows (((new inputs options positionEncoding).build types).serverCap r.target) ↔
      r.Due inputs options := by
  rw [announcements_eq types] at hr
  obtain ⟨step, hstep, hr⟩ := List.mem_flatMap.mp hr
  have hnull := new_serverCap inputs options positionEncoding
    (Step.target_ne_positionEncoding hstep)
  obtain ⟨htarget, hdue⟩ := step.due _ hnull r hr
  rw [htarget, (build_of_step types _ hstep).1]
  exact hdue

/-- The options of the first of the three features that was registered with some. -/
def semanticTokensGiven : Option (Options C) :=
  semanticTokensProviders.findSome? fun feature =>
    if feature ∈ inputs.features then options.get? feature else none

omit [LE C] [DecidableLE C] in
theorem semanticTokensValue_eq : (new inputs options positionEncoding).semanticTokensValue =
    (semanticTokensGiven inputs options).map Options.value := by
  have hone : ∀ feature, (new inputs options positionEncoding).providerOptions feature none =
      (if feature ∈ inputs.features then options.get? feature else none).map Options.value := by
    intro feature
    by_cases hfeature : feature ∈ inputs.features
    · simp [providerOptions, new, hfeature]
    · simp [providerOptions, new, hfeature]
  simp only [semanticTokensValue, semanticTokensGiven, hone, List.map_findSome?]
  rfl

omit [LE C] [DecidableLE C] in
theorem exists_of_given {o : Options C} (h : semanticTokensGiven inputs options = some o) :
    textDocumentSemanticTokensFull ∈ inputs.features ∨
      textDocumentSemanticTokensFullDelta ∈ inputs.features ∨
      textDocumentSemanticTokensRange ∈ inputs.features := by
  obtain ⟨feature, hmem, hsome⟩ := List.exists_of_findSome?_eq_some h
  have hfeature : feature ∈ inputs.features := by
    by_contra hno
    rw [if_neg hno] at hsome
    cases hsome
  simp only [semanticTokensProviders, List.mem_cons, List.not_mem_nil, or_false] at hmem
  rcases hmem with rfl | rfl | rfl
  · exact .inl hfeature
  · exact .inr (.inl hfeature)
  · exact .inr (.inr hfeature)

/-- How the tokens are announced with a legend. The delta implies the full tokens, whether
there is a feature for these or not. -/
structure TokensAnnounced (legend : Options C) (caps : Value C) : Prop where
  legend : getattr (text "legend") caps = some legend.value
  full : (reduceGetattr [text "full"] caps).any truthy = true ↔
    textDocumentSemanticTokensFull ∈ inputs.features ∨
      textDocumentSemanticTokensFullDelta ∈ inputs.features
  delta : (reduceGetattr [text "full", text "delta"] caps).any truthy = true ↔
    textDocumentSemanticTokensFullDelta ∈ inputs.features
  range : (reduceGetattr [text "range"] caps).any truthy = true ↔
    textDocumentSemanticTokensRange ∈ inputs.features

omit [LE C] [DecidableLE C] in
theorem tokensAnnounced (legend : Options C) : TokensAnnounced inputs legend
    ((new inputs options positionEncoding).semanticTokensOptions types legend.value).value := by
  have hattr : ∀ (name : Str) (v : Value C), latest name
      [(text "legend", legend.value),
        (text "full", orNone (if textDocumentSemanticTokensFullDelta ∈ inputs.features then
          (types.new types.semanticTokensFullDelta [(text "delta", .bool true)]).value
          else .bool (textDocumentSemanticTokensFull ∈ inputs.features))),
        (text "range", orNone (.bool (textDocumentSemanticTokensRange ∈ inputs.features)))] =
        some v →
      getattr name ((new inputs options positionEncoding).semanticTokensOptions types
        legend.value).value = some v := fun name v h => getattr_new types _ h
  have hfull := hattr (text "full") _ (by simp only [latest, text_inj]; rfl)
  have hrange := hattr (text "range") _ (by simp only [latest, text_inj]; rfl)
  constructor
  case legend => exact hattr _ _ (by simp only [latest, text_inj]; rfl)
  case full =>
    rw [reduceGetattr_one, hfull]
    by_cases hdelta : textDocumentSemanticTokensFullDelta ∈ inputs.features
    · simp [hdelta, orNone, truthy_value]
    · by_cases h : textDocumentSemanticTokensFull ∈ inputs.features <;>
        simp [hdelta, h, orNone, truthy_bool, truthy_null]
  case delta =>
    rw [reduceGetattr_cons, hfull, Option.bind_some, reduceGetattr_one]
    by_cases hdelta : textDocumentSemanticTokensFullDelta ∈ inputs.features
    · have htrue : getattr (text "delta")
          (types.new types.semanticTokensFullDelta [(text "delta", .bool true)]).value =
            some (.bool true) := getattr_new types _ (by rw [latest_singleton, if_pos rfl])
      simp [hdelta, orNone, truthy_value, htrue, truthy_bool]
    · by_cases h : textDocumentSemanticTokensFull ∈ inputs.features <;>
        simp [hdelta, h, orNone, truthy_bool, getattr]
  case range =>
    rw [reduceGetattr_one, hrange]
    by_cases h : textDocumentSemanticTokensRange ∈ inputs.features <;>
      simp [h, orNone, truthy_bool, truthy_null]

/-- The semantic tokens are announced if one of the features was registered with options. -/
theorem semanticTokens_announced :
    match semanticTokensGiven inputs options with
    | none => ((new inputs options positionEncoding).build types).serverCap
        .semanticTokensProvider = .null
    | some o =>
      if isRegistration types o.value then
        ((new inputs options positionEncoding).build types).serverCap .semanticTokensProvider =
          o.value
      else TokensAnnounced inputs o (((new inputs options positionEncoding).build types).serverCap
        .semanticTokensProvider) := by
  have hstep : Step.semanticTokens types ∈ Step.all types := by
    simp only [Step.all, List.mem_cons, true_or, or_true]
  have hcap := (build_of_step types (new inputs options positionEncoding) hstep).1
  have hnull : (new inputs options positionEncoding).serverCap .semanticTokensProvider = .null :=
    new_serverCap inputs options positionEncoding (by decide)
  rw [Step.semanticTokens_act, Step.semanticTokens_target, withSemanticTokens,
    setServerCap_self hnull] at hcap
  have hvalue := semanticTokensValue_eq inputs options positionEncoding
  rw [semanticTokens, hvalue] at hcap
  cases hgiven : semanticTokensGiven inputs options with
  | none =>
    rw [hgiven] at hcap
    exact hcap
  | some o =>
    rw [hgiven] at hcap
    dsimp only [Option.map_some] at hcap ⊢
    split
    · rename_i hreg
      rw [hcap, if_pos hreg, Option.getD_some]
    · rename_i hreg
      have htokens := tokensAnnounced types inputs options positionEncoding o
      rw [hcap, if_neg hreg, if_pos, Option.getD_some]
      · exact htokens
      · have hfull := htokens.full
        have hrange := htokens.range
        rw [reduceGetattr_one] at hfull hrange
        rw [truthy_attr, truthy_attr, Bool.or_eq_true, hfull, hrange]
        rcases exists_of_given inputs options hgiven with h | h | h
        · exact .inl (.inl h)
        · exact .inl (.inr h)
        · exact .inr h

theorem executeCommand_announced : getattr (text "commands")
    (((new inputs options positionEncoding).build types).serverCap .executeCommandProvider) =
      some (.list (inputs.commands.map .str)) := by
  have hstep : Step.executeCommand types ∈ Step.all types := by
    simp only [Step.all, List.mem_cons, true_or, or_true]
  have hcap := (build_of_step types (new inputs options positionEncoding) hstep).1
  have hnull : (new inputs options positionEncoding).serverCap .executeCommandProvider = .null :=
    new_serverCap inputs options positionEncoding (by decide)
  rw [Step.executeCommand_act, Step.executeCommand_target, withExecuteCommand,
    setServerCap_self hnull, Option.getD_some] at hcap
  rw [hcap]
  exact getattr_new types _ (by rw [latest_singleton, if_pos rfl]; rfl)

theorem positionEncoding_announced :
    ((new inputs options positionEncoding).build types).serverCap .positionEncoding =
      .str positionEncoding := by
  rw [build_of_no_step]
  · rfl
  · rintro ⟨step, hstep, htarget⟩
    exact Step.target_ne_positionEncoding hstep htarget

/-- The capabilities announce a method exactly where it is registered, and where what else it
needs is there. The semantic tokens are the exception: the full tokens are announced with
their delta, although there may be no feature for them. -/
theorem capabilities_announce_what_is_registered :
    (∀ r ∈ announcements,
      (r.Shows (((new inputs options positionEncoding).build types).serverCap r.target) ↔
        r.Due inputs options)) ∧
    (match semanticTokensGiven inputs options with
      | none => ((new inputs options positionEncoding).build types).serverCap
          .semanticTokensProvider = .null
      | some o =>
        if isRegistration types o.value then
          ((new inputs options positionEncoding).build types).serverCap .semanticTokensProvider =
            o.value
        else TokensAnnounced inputs o (((new inputs options positionEncoding).build types).serverCap
          .semanticTokensProvider)) ∧
    getattr (text "commands")
      (((new inputs options positionEncoding).build types).serverCap .executeCommandProvider) =
        some (.list (inputs.commands.map .str)) ∧
    ((new inputs options positionEncoding).build types).serverCap .positionEncoding =
      .str positionEncoding :=
  ⟨fun _ hr => announced_iff_due types inputs options positionEncoding hr,
    semanticTokens_announced types inputs options positionEncoding,
    executeCommand_announced types inputs options positionEncoding,
    positionEncoding_announced types inputs options positionEncoding⟩

end ServerCapabilitiesBuilder

end Pygls.Capabilities
