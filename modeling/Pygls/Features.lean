import Pygls.Exceptions
import Pygls.Lib.Dict
import Pygls.Lib.Run

/-!
# The feature manager

`feature_manager.py` and the lookups of `lsp/__init__.py` it uses. Decorators set
attributes on the function they are given and on the wrapper they register, so
both are objects with an identity; the attributes of all of them are part of the
state. `C` are the classes of the program, with `issubclass` as their order.
-/

namespace Pygls.Features

open Lib

set_option autoImplicit false

/-- Positional-only and positional-or-keyword parameters are treated alike. -/
inductive ParameterKind where
  | positional
  | varPositional
  | keywordOnly
  | varKeyword
  deriving DecidableEq

/-- What a type hint is: a class, or something else (`Optional[int]`, a type variable) with the classes
that `issubclass` says are below it. It raises where a hint that is no class is to be below one. -/
inductive TypeHint (C : Type) where
  | cls (c : C)
  | special (covers : C → Bool)

/-- A parameter with its entry in `typing.get_type_hints(f)`. -/
structure Parameter (C : Type) where
  name : Str
  hasDefault : Bool
  hint : Option (TypeHint C)

structure Signature (C : Type) where
  positional : List (Parameter C)
  varPositional : Option (Parameter C)
  keywordOnly : List (Parameter C)
  varKeyword : Option (Parameter C)

/-- `inspect.signature(f).parameters` -/
def Signature.parameters {C : Type} (sig : Signature C) : List (ParameterKind × Parameter C) :=
  sig.positional.map (.positional, ·) ++ sig.varPositional.toList.map (.varPositional, ·) ++
    sig.keywordOnly.map (.keywordOnly, ·) ++ sig.varKeyword.toList.map (.varKeyword, ·)

/-- A function object; `get_type_hints` raises on it where a name does not resolve. -/
structure Function (C : Type) where
  id : Nat
  coroutine : Bool
  signature : Signature C
  hintsResolve : Bool

def paramLs : Str := lit ['l', 's']

variable {C : Type} [LE C] [DecidableLE C]

def TypeHint.above (actualType : C) : TypeHint C → Bool
  | .cls c => actualType ≤ c
  | .special covers => covers actualType

/-- Every exception counts as a no. -/
def hasLsParamOrAnnotation (f : Function C) (actualType : C) : Bool :=
  match f.signature.parameters with
  | [] => false
  | p :: _ =>
    if p.2.name = paramLs then true
    else f.hintsResolve && p.2.hint.any (TypeHint.above actualType)

inductive RegisteredType where
  | command
  | feature
  deriving DecidableEq

/-- A function, or one of the wrappers made of it. -/
inductive ObjectId where
  | function (id : Nat)
  | wrapper (index : Nat)
  deriving DecidableEq

/-- What is registered. A wrapper has its function as `func`. -/
inductive Handler (C : Type) where
  | function (f : Function C)
  | wrapper (index : Nat) (func : Function C)

def Handler.objectId : Handler C → ObjectId
  | .function f => .function f.id
  | .wrapper index _ => .wrapper index

structure Attributes where
  regName : Option Str
  regType : Option RegisteredType
  executeInThread : Bool

inductive RegistrationError where
  | validationError (message : Str)
  | commandAlreadyRegistered (name : Str)
  | featureAlreadyRegistered (name : Str)
  | methodTypeNotRegistered (method : Str)
  | typeError
  | attributeError
  | keyError (name : Str)
  | threadDecoratorError

/-- The types of method options: those that `METHOD_TO_OPTIONS` names, `METHOD_TO_TYPES[·][3]` and
`ALL_TYPES_MAP` of `lsprotocol`, and `converter.unstructure(options, type)`. -/
structure OptionTypes (O T : Type) where
  saveOptions : T
  semanticTokens : T
  fileOperations : T
  methodToTypes : Str → Option (Option T)
  typeName : T → Str
  allTypesMap : Str → Option T
  truthy : O → Bool
  unstructure : O → T → Except RegistrationError Unit

/-- `text.replace(pattern, "")` -/
def deleteAll (pattern : Str) : Nat → Str → Str
  | 0, s => s
  | _ + 1, [] => []
  | fuel + 1, c :: s =>
    if pattern.isPrefixOf (c :: s) then deleteAll pattern fuel ((c :: s).drop pattern.length)
    else c :: deleteAll pattern fuel s

namespace OptionTypes

variable {O T : Type}

def methodToOptions (types : OptionTypes O T) (method : Str) : Option T :=
  if method = text "textDocument/didSave" then some types.saveOptions
  else if method ∈ [text "textDocument/semanticTokens/full",
      text "textDocument/semanticTokens/full/delta",
      text "textDocument/semanticTokens/range"] then some types.semanticTokens
  else if method ∈ [text "workspace/didCreateFiles", text "workspace/didDeleteFiles",
      text "workspace/didRenameFiles", text "workspace/willCreateFiles",
      text "workspace/willDeleteFiles", text "workspace/willRenameFiles"] then
    some types.fileOperations
  else none

def getMethodRegistrationOptionsType (types : OptionTypes O T) (method : Str) :
    Except RegistrationError (Option T) :=
  match types.methodToTypes method with
  | none => .error (.methodTypeNotRegistered method)
  | some registrationType => .ok registrationType

def getMethodOptionsType (types : OptionTypes O T) (method : Str) :
    Except RegistrationError (Option T) :=
  match types.methodToOptions method with
  | some optionsType => .ok (some optionsType)
  | none =>
    match types.getMethodRegistrationOptionsType method with
    | .error e => .error e
    | .ok none => .ok none
    | .ok (some registrationType) =>
      let name := types.typeName registrationType
      match types.allTypesMap (deleteAll (text "Registration") name.length name) with
      | none => .error (.methodTypeNotRegistered method)
      | some optionsType => .ok (some optionsType)

/-- Only a `TypeError` of the converter is a no; what else it raises comes through. -/
def isInstance (types : OptionTypes O T) (options : O) (type : T) :
    Except RegistrationError Bool :=
  match types.unstructure options type with
  | .ok () => .ok true
  | .error .typeError => .ok false
  | .error e => .error e

/-- The steps of `feature` behind `if options:`, up to the table of options. -/
def checkOptions (types : OptionTypes O T) (name : Str) (options : O) :
    Except RegistrationError Unit :=
  match types.getMethodOptionsType name with
  | .error e => .error e
  | .ok none => .ok ()
  | .ok (some optionsType) =>
    match types.isInstance options optionsType with
    | .error e => .error e
    | .ok true => .ok ()
    | .ok false => .error .typeError

end OptionTypes

/-- The characters that `str.strip()` takes away. -/
def isSpace (c : CodePoint) : Bool :=
  (9 ≤ c.val && c.val ≤ 13) || (28 ≤ c.val && c.val ≤ 32) || (0x2000 ≤ c.val && c.val ≤ 0x200A) ||
    c ∈ ([0x85, 0xA0, 0x1680, 0x2028, 0x2029, 0x202F, 0x205F, 0x3000] : List CodePoint)

/-- `name.strip() == ""` -/
def blank (name : Str) : Bool := name.all isSpace

structure Tables (C O : Type) where
  features : Dict Str (Handler C)
  commands : Dict Str (Handler C)
  featureOptions : Dict Str O

/-- The tables of a manager, the class of its server, and the attributes of all functions and
wrappers. -/
structure FeatureManager (C O : Type) where
  tables : Tables C O
  serverType : C
  attributes : ObjectId → Attributes
  wrappers : Nat

namespace FeatureManager

variable {O T : Type}

def setAttributes (m : FeatureManager C O) (object : ObjectId) (attributes : Attributes) :
    FeatureManager C O :=
  { m with attributes := fun o => if o = object then attributes else m.attributes o }

def assignHelpAttrs (m : FeatureManager C O) (object : ObjectId) (regName : Str)
    (regType : RegisteredType) : FeatureManager C O :=
  m.setAttributes object
    { m.attributes object with regName := some regName, regType := some regType }

def assignThreadAttr (m : FeatureManager C O) (object : ObjectId) : FeatureManager C O :=
  m.setAttributes object { m.attributes object with executeInThread := true }

def isThreadFunction (m : FeatureManager C O) (handler : Handler C) : Bool :=
  (m.attributes handler.objectId).executeInThread

/-- A wrapper is a new object; only that of a plain function takes over the mark. -/
def wrapWithServer (m : FeatureManager C O) (f : Function C) : FeatureManager C O × Handler C :=
  if hasLsParamOrAnnotation f m.serverType then
    let marked := !f.coroutine && m.isThreadFunction (.function f)
    ({ m.setAttributes (.wrapper m.wrappers) ⟨none, none, marked⟩ with wrappers := m.wrappers + 1 },
      .wrapper m.wrappers f)
  else (m, .function f)

/-- What both decorators do up to the table: the function's attributes, the wrapper, and the
wrapper's attributes. -/
def prepare (m : FeatureManager C O) (f : Function C) (name : Str) (regType : RegisteredType) :
    FeatureManager C O × Handler C :=
  let r := (m.assignHelpAttrs (.function f.id) name regType).wrapWithServer f
  (r.1.assignHelpAttrs r.2.objectId name regType, r.2)

def setCommand (m : FeatureManager C O) (name : Str) (handler : Handler C) : FeatureManager C O :=
  { m with tables := { m.tables with commands := m.tables.commands.set name handler } }

def setFeature (m : FeatureManager C O) (name : Str) (handler : Handler C) : FeatureManager C O :=
  { m with tables := { m.tables with features := m.tables.features.set name handler } }

def setFeatureOptions (m : FeatureManager C O) (name : Str) (options : O) : FeatureManager C O :=
  { m with tables :=
    { m.tables with featureOptions := m.tables.featureOptions.set name options } }

def command (m : FeatureManager C O) (commandName : Option Str) (f : Function C) :
    FeatureManager C O × Option RegistrationError :=
  match commandName with
  | none => (m, some (.validationError (text "Command name is required.")))
  | some name =>
    if blank name then (m, some (.validationError (text "Command name is required.")))
    else if (m.tables.commands.get? name).isSome then (m, some (.commandAlreadyRegistered name))
    else
      let r := m.prepare f name .command
      (r.1.setCommand name r.2, none)

def feature (types : OptionTypes O T) (m : FeatureManager C O) (featureName : Option Str)
    (options : O) (f : Function C) : FeatureManager C O × Option RegistrationError :=
  match featureName with
  | none => (m, some (.validationError (text "Feature name is required.")))
  | some name =>
    if blank name then (m, some (.validationError (text "Feature name is required.")))
    else if (m.tables.features.get? name).isSome then (m, some (.featureAlreadyRegistered name))
    else
      let r := m.prepare f name .feature
      let m := r.1.setFeature name r.2
      if types.truthy options then
        match types.checkOptions name options with
        | .error e => (m, some e)
        | .ok () => (m.setFeatureOptions name options, none)
      else (m, none)

/-- `self.features[name]`, or `self.commands[name]` -/
def registered (m : FeatureManager C O) (regType : RegisteredType) (name : Str) :
    Option (Handler C) :=
  match regType with
  | .feature => m.tables.features.get? name
  | .command => m.tables.commands.get? name

/-- A function without the attributes of a registration is marked itself. -/
def thread (m : FeatureManager C O) (f : Function C) :
    FeatureManager C O × Option RegistrationError :=
  if f.coroutine then (m, some .threadDecoratorError)
  else
    match (m.attributes (.function f.id)).regName, (m.attributes (.function f.id)).regType with
    | some name, some regType =>
      match m.registered regType name with
      | none => (m, some (.keyError name))
      | some handler => (m.assignThreadAttr handler.objectId, none)
    | _, _ => (m.assignThreadAttr (.function f.id), none)

end FeatureManager

/-- A decorator applied to a function. -/
inductive Registration (C O : Type) where
  | command (name : Option Str) (f : Function C)
  | feature (name : Option Str) (options : O) (f : Function C)

namespace FeatureManager

variable {O T : Type}

def register (types : OptionTypes O T) (m : FeatureManager C O) :
    Registration C O → FeatureManager C O × Option RegistrationError
  | .command name f => m.command name f
  | .feature name options f => m.feature types name options f

/-- The options of a feature that gets as far as its table pass their check. -/
def Checked (types : OptionTypes O T) (m : FeatureManager C O) : Registration C O → Prop
  | .command _ _ => True
  | .feature name options _ => ∀ n, name = some n → blank n = false →
      m.tables.features.get? n = none → types.truthy options = true →
        types.checkOptions n options = .ok ()

/-- What an accepted decorator does: the attributes are set, and the handler is in its table. -/
structure Registers (m m' : FeatureManager C O) (f : Function C) (name : Str)
    (regType : RegisteredType) : Prop where
  attributes : m'.attributes = (m.prepare f name regType).1.attributes
  wrappers : m'.wrappers = (m.prepare f name regType).1.wrappers
  serverType : m'.serverType = m.serverType
  registered : ∀ regType' name', m'.registered regType' name' =
    if regType' = regType ∧ name' = name then some (m.prepare f name regType).2
    else m.registered regType' name'

theorem prepare_frame (m : FeatureManager C O) (f : Function C) (name : Str)
    (regType : RegisteredType) :
    (m.prepare f name regType).1.tables = m.tables ∧
      (m.prepare f name regType).1.serverType = m.serverType := by
  unfold prepare wrapWithServer
  dsimp only
  split
  · exact ⟨rfl, rfl⟩
  · exact ⟨rfl, rfl⟩

theorem registers_command (m : FeatureManager C O) (f : Function C) (name : Str) :
    Registers m ((m.prepare f name .command).1.setCommand name (m.prepare f name .command).2) f
      name .command := by
  obtain ⟨htables, hserver⟩ := prepare_frame m f name .command
  refine ⟨rfl, rfl, hserver, ?_⟩
  intro regType' name'
  cases regType' with
  | command =>
    rw [registered, setCommand, htables, Dict.get?_set]
    simp only [true_and]
    rfl
  | feature =>
    rw [registered, setCommand, htables, if_neg (by rintro ⟨h, -⟩; cases h)]
    rfl

theorem registers_feature (m : FeatureManager C O) (f : Function C) (name : Str) :
    Registers m ((m.prepare f name .feature).1.setFeature name (m.prepare f name .feature).2) f
      name .feature := by
  obtain ⟨htables, hserver⟩ := prepare_frame m f name .feature
  refine ⟨rfl, rfl, hserver, ?_⟩
  intro regType' name'
  cases regType' with
  | command =>
    rw [registered, setFeature, htables, if_neg (by rintro ⟨h, -⟩; cases h)]
    rfl
  | feature =>
    rw [registered, setFeature, htables, Dict.get?_set]
    simp only [true_and]
    rfl

theorem Registers.options {m m' : FeatureManager C O} {f : Function C} {name : Str}
    {regType : RegisteredType} (h : Registers m m' f name regType) (name' : Str) (options : O) :
    Registers m (m'.setFeatureOptions name' options) f name regType := by
  refine ⟨h.attributes, h.wrappers, h.serverType, ?_⟩
  intro regType' name''
  rw [← h.registered]
  cases regType' with
  | command => rfl
  | feature => rfl

/-- A command is refused before anything is written, or it is registered. -/
theorem command_cases (m : FeatureManager C O) (name : Option Str) (f : Function C) :
    (∃ e, m.command name f = (m, some e)) ∨
      ∃ n m', name = some n ∧ m.registered .command n = none ∧ m.command name f = (m', none) ∧
        Registers m m' f n .command := by
  cases name with
  | none => exact .inl ⟨_, rfl⟩
  | some n =>
    unfold command
    dsimp only
    split
    · exact .inl ⟨_, rfl⟩
    · split
      · exact .inl ⟨_, rfl⟩
      · rename_i hfree
        exact .inr ⟨n, _, rfl, Option.not_isSome_iff_eq_none.mp hfree, rfl,
          registers_command m f n⟩

/-- A feature is refused before anything is written, or when its handler is in the table, or it
is registered. -/
theorem feature_cases (types : OptionTypes O T) (m : FeatureManager C O) (name : Option Str)
    (options : O) (f : Function C) :
    (m.Checked types (.feature name options f) ∧
      ∃ e, m.feature types name options f = (m, some e)) ∨
    (∃ n m' e, name = some n ∧ m.registered .feature n = none ∧
      ¬ m.Checked types (.feature name options f) ∧
      m.feature types name options f = (m', some e) ∧ Registers m m' f n .feature) ∨
    (∃ n m', name = some n ∧ m.registered .feature n = none ∧
      m.Checked types (.feature name options f) ∧
      m.feature types name options f = (m', none) ∧ Registers m m' f n .feature) := by
  cases name with
  | none => exact .inl ⟨nofun, _, rfl⟩
  | some n =>
    unfold feature
    dsimp only
    by_cases hblank : blank n = true
    · rw [if_pos hblank]
      refine .inl ⟨?_, _, rfl⟩
      rintro n' ⟨⟩ hnot
      rw [hblank] at hnot
      cases hnot
    · rw [if_neg hblank]
      cases hfree : m.tables.features.get? n with
      | some handler =>
        rw [Option.isSome_some, if_pos rfl]
        refine .inl ⟨?_, _, rfl⟩
        rintro n' ⟨⟩ - hnone
        rw [hfree] at hnone
        cases hnone
      | none =>
        rw [Option.isSome_none, if_neg Bool.false_ne_true]
        have hregisters := registers_feature m f n
        by_cases htruthy : types.truthy options = true
        · rw [if_pos htruthy]
          cases hcheck : types.checkOptions n options with
          | error e =>
            refine .inr (.inl ⟨n, _, e, rfl, hfree, ?_, rfl, hregisters⟩)
            intro hchecked
            rw [hchecked n rfl (Bool.eq_false_iff.mpr hblank) hfree htruthy] at hcheck
            cases hcheck
          | ok checked =>
            refine .inr (.inr ⟨n, _, rfl, hfree, ?_, rfl, hregisters.options n options⟩)
            rintro n' ⟨⟩ - - -
            exact hcheck
        · rw [if_neg htruthy]
          refine .inr (.inr ⟨n, _, rfl, hfree, ?_, rfl, hregisters⟩)
          rintro n' ⟨⟩ - - h
          exact absurd h htruthy

/-- Where the options are checked before the table is written, or pass, a call that raises leaves
no trace at all. -/
theorem register_of_checked {types : OptionTypes O T} {m : FeatureManager C O}
    {call : Registration C O} (h : m.Checked types call)
    (hraise : (m.register types call).2 ≠ none) :
    (m.register types call).1 = m := by
  cases call with
  | command name f =>
    rw [register] at hraise ⊢
    rcases command_cases m name f with ⟨e, heq⟩ | ⟨n, m', -, -, heq, -⟩
    · rw [heq]
    · rw [heq] at hraise
      exact absurd rfl hraise
  | feature name options f =>
    rw [register] at hraise ⊢
    rcases feature_cases types m name options f with ⟨-, e, heq⟩ | ⟨n, m', e, -, -, hnot, -, -⟩ |
      ⟨n, m', -, -, -, heq, -⟩
    · rw [heq]
    · exact absurd h hnot
    · rw [heq] at hraise
      exact absurd rfl hraise

theorem register_failed_iff (types : OptionTypes O T) (m : FeatureManager C O)
    (call : Registration C O) :
    ((m.register types call).2 ≠ none → (m.register types call).1.tables = m.tables) ↔
      m.Checked types call := by
  refine ⟨fun hkept => ?_, fun h hraise => congrArg tables (register_of_checked h hraise)⟩
  cases call with
  | command name f => trivial
  | feature name options f =>
    rw [register] at hkept
    rcases feature_cases types m name options f with ⟨hchecked, -⟩ |
      ⟨n, m', e, -, hfree, -, heq, hregisters⟩ | ⟨n, m', -, -, hchecked, -⟩
    · exact hchecked
    · rw [heq] at hkept
      have htables := hkept (Option.some_ne_none e)
      have hnew := hregisters.registered .feature n
      rw [if_pos ⟨rfl, rfl⟩, registered, htables] at hnew
      rw [registered, hnew] at hfree
      cases hfree
    · exact hchecked

/-- In a run of registrations no call that raises leaves a trace in the tables, just if the
options of every feature that gets as far as its table pass their check. -/
theorem failed_registrations_iff (types : OptionTypes O T) (m : FeatureManager C O)
    (calls : List (Registration C O)) :
    let reached := fun past : List (Registration C O) =>
      past.foldl (fun m call => (m.register types call).1) m
    (∀ past call, past ++ [call] <+: calls → ((reached past).register types call).2 ≠ none →
      ((reached past).register types call).1.tables = (reached past).tables) ↔
    ∀ past call, past ++ [call] <+: calls → (reached past).Checked types call := by
  intro reached
  refine forall_congr' fun past => forall_congr' fun call => forall_congr' fun _ => ?_
  exact register_failed_iff types (reached past) call

end FeatureManager

/-- A manager nothing is registered with, in a program whose only class is the server's. -/
def sampleManager : FeatureManager Nat Bool :=
  ⟨⟨.empty, .empty, .empty⟩, 0, fun _ => ⟨none, none, false⟩, 0⟩

/-- `lsprotocol` as far as a custom method goes: it has no types for it. -/
def sampleTypes : OptionTypes Bool Unit where
  saveOptions := ()
  semanticTokens := ()
  fileOperations := ()
  methodToTypes := fun _ => none
  typeName := fun _ => []
  allTypesMap := fun _ => none
  truthy := id
  unstructure := fun _ _ => .ok ()

def sampleFunction (parameters : List (Parameter Nat)) : Function Nat :=
  ⟨0, false, ⟨parameters, none, [], none⟩, true⟩

theorem sampleTypes_checkOptions :
    sampleTypes.checkOptions [0x61] true = .error (.methodTypeNotRegistered [0x61]) := by
  have hnone : sampleTypes.methodToOptions [0x61] = none := by
    simp [OptionTypes.methodToOptions, text, lit]
  rw [OptionTypes.checkOptions, OptionTypes.getMethodOptionsType, hnone]
  rfl

/-- Options for a custom method: the call raises, and the name is taken from then on. -/
theorem failed_registration_stays :
    let r := sampleManager.register sampleTypes (.feature (some [0x61]) true (sampleFunction []))
    r.2 ≠ none ∧ r.1.tables ≠ sampleManager.tables ∧
      (r.1.register sampleTypes (.feature (some [0x61]) false (sampleFunction []))).2 ≠ none := by
  intro r
  have hr : r = ((sampleManager.prepare (sampleFunction []) [0x61] .feature).1.setFeature [0x61]
      (sampleManager.prepare (sampleFunction []) [0x61] .feature).2,
        some (.methodTypeNotRegistered [0x61])) := by
    change FeatureManager.feature sampleTypes sampleManager (some [0x61]) true (sampleFunction []) =
      _
    have htruthy : sampleTypes.truthy true = true := rfl
    rw [FeatureManager.feature]
    dsimp only
    rw [if_neg (by decide), if_neg (by decide), if_pos htruthy, sampleTypes_checkOptions]
  rw [hr]
  refine ⟨nofun, ?_, nofun⟩
  intro htables
  have hsize := congrArg (fun tables => tables.features.size) htables
  cases hsize

end Pygls.Features
