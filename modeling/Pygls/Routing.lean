import Pygls.Decoding

/-!
# Routing messages

`handle_message` up to the handler it calls. The kind of a message is decided twice: by
the members of the dictionary in `structure_message`, and by the attributes of the
instance here. A generic message that carries its payload gets the same kind both times.
-/

namespace Pygls.Routing

open Lib Decoding

set_option autoImplicit false

variable {C : Type}

/-- The handler that is called, with its arguments. -/
inductive Routed (C : Type) where
  | request (id method params : Value C)
  | notification (method params : Value C)
  | result (id result : Value C)
  | error (id error : Value C)

/-- `getattr(value, name)`, for the names that `handle_message` asks for. -/
def getattr (name : Str) : Value C → Option (Value C)
  | .object _ attributes => Dict.lookup name attributes
  | .namedtuple _ fields => Dict.lookup name fields
  | _ => none

def isStr (s : Str) : Value C → Bool
  | .str t => s = t
  | _ => false

def attributeError : PyExc := .other (text "AttributeError")

/-- The `isinstance` checks: a protocol class asks for its attributes, whatever they hold. -/
def route (message : Value C) : Except PyExc (Routed C) :=
  match getattr idKey message, getattr methodKey message, getattr paramsKey message,
    getattr resultKey message, getattr errorKey message with
  | some id, some method, some params, _, _ => .ok (.request id method params)
  | none, some method, some params, _, _ => .ok (.notification method params)
  | some id, _, _, some result, _ => .ok (.result id result)
  | some id, _, _, none, some error => .ok (.error id error)
  | _, _, _, _, _ => .error attributeError

/-- `handle_message`; `none` where it returns without calling a handler. -/
def handleMessage (shutdown : Bool) (message : Value C) : Except PyExc (Option (Routed C)) :=
  match getattr jsonrpcKey message with
  | none => .error attributeError
  | some v =>
    if !isStr version v then .ok none
    else if shutdown && !isStr exitMethod ((getattr methodKey message).getD (.str [])) then
      .ok none
    else (route message).map some

/-- A valid message of JSON-RPC 2.0; its `jsonrpc` member is left out. -/
inductive Sent (C : Type) where
  | request (id : Value C) (method : Str) (params : Option (Value C))
  | notification (method : Str) (params : Option (Value C))
  | result (id result : Value C)
  | error (id : Value C) (error : Entries C)

/-- A string, a number or null. -/
def IsId : Value C → Prop
  | .null => True
  | .int _ => True
  | .float _ => True
  | .str _ => True
  | _ => False

structure IsError (error : Entries C) : Prop where
  code : ∃ n, Dict.lookup codeKey error = some (.int n)
  message : ∃ s, Dict.lookup messageKey error = some (.str s)
  names : ∀ k, k ∉ [codeKey, messageKey, dataKey] → Dict.lookup k error = none

/-- The `ResponseError` with the members of an error object. -/
def responseError (error : Entries C) : Value C :=
  .object .responseError
    [(codeKey, (Dict.lookup codeKey error).getD .null),
      (messageKey, (Dict.lookup messageKey error).getD .null),
      (dataKey, (Dict.lookup dataKey error).getD .null)]

namespace Sent

def Valid : Sent C → Prop
  | .request id _ _ => IsId id
  | .notification _ _ => True
  | .result id _ => IsId id
  | .error id e => IsId id ∧ IsError e

def member (name : Str) : Option (Value C) → Entries C
  | none => []
  | some v => [(name, v)]

def members : Sent C → Entries C
  | .request id method params =>
    (jsonrpcKey, .str version) :: (idKey, id) :: (methodKey, .str method) :: member paramsKey params
  | .notification method params =>
    (jsonrpcKey, .str version) :: (methodKey, .str method) :: member paramsKey params
  | .result id value => [(jsonrpcKey, .str version), (idKey, id), (resultKey, value)]
  | .error id e => [(jsonrpcKey, .str version), (idKey, id), (errorKey, .dict e)]

/-- The dictionary has these members, in any order. -/
def Represents (data : Entries C) (sent : Sent C) : Prop :=
  ∀ k, Dict.lookup k data = Dict.lookup k sent.members

/-- What the handler of its kind is owed; `none` where `_dict_to_object` raises. -/
def routed (py : Python C) : Sent C → Option (Routed C)
  | .request id method params =>
    (params.elim (some .null) py.dictToObject).map (.request id (.str method))
  | .notification method params =>
    (params.elim (some .null) py.dictToObject).map (.notification (.str method))
  | .result id value => (py.dictToObject value).map (.result id)
  | .error id e => some (.error id (responseError e))

/-- A request or a notification has its `params`. -/
def HasParams : Sent C → Prop
  | .request _ _ params => params ≠ none
  | .notification _ params => params ≠ none
  | _ => True

/-- No type is registered for the method or the id. -/
def Untyped (codec : Codec C) (d : Decoder C) : Sent C → Prop
  | .request _ method _ => codec.getMessageType (.str method) = some none
  | .notification method _ => codec.getMessageType (.str method) = some none
  | .result id _ => ∀ k, codec.hashed id = some (some k) → (d.resultTypes.get? k).join = none
  | .error _ _ => True

end Sent

/-- `lsprotocol` structures a `ResponseErrorMessage` field by field. -/
def StructuresErrors (lsprotocol : Cls C → Entries C → Except StructureError (Entries C)) : Prop :=
  ∀ id error data, (Sent.error id error).Valid → (Sent.error id error).Represents data →
    lsprotocol .responseErrorMessage data =
      .ok [(idKey, id), (jsonrpcKey, .str version), (errorKey, responseError error)]

theorem construct_ok {fields : List Str} {obj : Entries C}
    (h : ∀ k, Dict.lookup k obj = none ↔ k ∉ fields) : Python.construct fields obj = .ok obj := by
  have hmem : ∀ k, k ∈ obj.map Prod.fst ↔ k ∈ fields := by
    intro k
    rw [← not_iff_not, ← h k, Dict.lookup_eq_none_iff]
  rw [Python.construct, if_pos]
  exact ⟨fun k hk => (hmem k).mpr hk, fun k hk => (hmem k).mp hk⟩

/-- A class without defaults cannot be instantiated without one of its fields. -/
theorem construct_missing {fields : List Str} {obj : Entries C} {k : Str} (hk : k ∈ fields)
    (h : Dict.lookup k obj = none) : Python.construct fields obj = .error .other := by
  rw [Python.construct, if_neg]
  rintro ⟨hall, -⟩
  exact (Dict.lookup_eq_none_iff k obj).mp h (hall k hk)

theorem fieldStructureHook_ok {py : Python C} {key : Str} {fields : List Str} {obj : Entries C}
    {v o : Value C} (hv : Dict.lookup key obj = some v) (ho : py.dictToObject v = some o)
    (h : ∀ k, Dict.lookup k obj = none ↔ k ∉ fields) :
    py.fieldStructureHook key fields obj = .ok (Dict.insert key o obj) := by
  have hmem : key ∈ fields := by
    by_contra hkey
    rw [(h key).mpr hkey] at hv
    cases hv
  have hins : ∀ k, Dict.lookup k (Dict.insert key o obj) = none ↔ k ∉ fields := by
    intro k
    rw [Dict.lookup_insert]
    by_cases hk : k = key
    · subst hk
      simp [hmem]
    · rw [if_neg hk, h k]
  rw [Python.fieldStructureHook, hv]
  dsimp only
  rw [ho]
  exact construct_ok hins

theorem fieldStructureHook_missing {py : Python C} {key : Str} {fields : List Str}
    {obj : Entries C} (hkey : key ∈ fields) (h : Dict.lookup key obj = none) :
    py.fieldStructureHook key fields obj = .error .other := by
  rw [Python.fieldStructureHook, h]
  exact construct_missing hkey h

theorem handleMessage_running {message : Value C} (h : getattr jsonrpcKey message = some (.str version)) :
    handleMessage false message = (route message).map some := by
  rw [handleMessage, h]
  rfl

section Kinds

variable {codec : Codec C} {d : Decoder C} {data : Entries C}

/-- `structure_message` chooses the class by the members of the dictionary. -/
theorem structureMessage_snd (h : Dict.lookup jsonrpcKey data = some (.str version)) :
    (codec.structureMessage d data).2 = (codec.interpret d.resultTypes data).2 := by
  have hne : Dict.lookup jsonrpcKey data ≠ none := by
    rw [h]
    exact Option.some_ne_none _
  rw [codec.structureMessage_of_message hne]

theorem structureAs_ok {cls : Cls C} {attributes : Entries C}
    (h : codec.convert cls data = .ok attributes) :
    codec.structureAs cls data = .ok (.object cls attributes) := by
  rw [Codec.structureAs, h]

theorem structureAs_error {cls : Cls C} (h : codec.convert cls data = .error .other) :
    codec.structureAs cls data = .error (.init .internalError [] 0 .none) := by
  rw [Codec.structureAs, h]

theorem interpret_request {id : Value C} {method : Str} {params : Option (Value C)}
    (h : (Sent.request id method params).Represents data)
    (hm : codec.getMessageType (.str method) = some none) :
    (codec.interpret d.resultTypes data).2 = codec.structureAs .request data := by
  have hid : Dict.lookup idKey data = some id := h idKey
  have herror : Dict.lookup errorKey data = none := by
    rw [h errorKey]
    cases params <;> rfl
  have hmethod : Dict.lookup methodKey data = some (.str method) := h methodKey
  rw [Codec.interpret, hid]
  dsimp only
  rw [herror, hmethod]
  dsimp only
  rw [Codec.structureTyped, hm]
  rfl

theorem interpret_notification {method : Str} {params : Option (Value C)}
    (h : (Sent.notification method params).Represents data)
    (hm : codec.getMessageType (.str method) = some none) :
    (codec.interpret d.resultTypes data).2 = codec.structureAs .notification data := by
  have hid : Dict.lookup idKey data = none := by
    rw [h idKey]
    cases params <;> rfl
  have hmethod : Dict.lookup methodKey data = some (.str method) := h methodKey
  rw [Codec.interpret, hid]
  dsimp only
  rw [hmethod, Option.getD_some, Codec.structureTyped, hm]
  rfl

theorem interpret_result {id value : Value C} (h : (Sent.result id value).Represents data)
    (hid : IsId id)
    (ht : ∀ k, codec.hashed id = some (some k) → (d.resultTypes.get? k).join = none) :
    (codec.interpret d.resultTypes data).2 = codec.structureAs .response data := by
  have hlookup : Dict.lookup idKey data = some id := h idKey
  have herror : Dict.lookup errorKey data = none := h errorKey
  have hmethod : Dict.lookup methodKey data = none := h methodKey
  obtain ⟨key, hkey⟩ : ∃ key, codec.hashed id = some key := by
    cases id <;> first | exact ⟨_, rfl⟩ | cases hid
  rw [Codec.interpret, hlookup]
  dsimp only
  rw [herror, hmethod]
  dsimp only
  rw [hkey]
  cases key with
  | none => rfl
  | some k =>
    have hnone : (Codec.popType d.resultTypes (some k)).1 = none := ht k hkey
    simp only [hnone, Option.elim_none, not_true, ne_eq, if_false]

theorem interpret_error {id : Value C} {error : Entries C}
    (h : (Sent.error id error).Represents data) :
    (codec.interpret d.resultTypes data).2 = codec.structureAs .responseErrorMessage data := by
  have hid : Dict.lookup idKey data = some id := h idKey
  have herror : Dict.lookup errorKey data = some (.dict error) := h errorKey
  rw [Codec.interpret, hid]
  dsimp only
  rw [herror]
  rfl

end Kinds

/-- Structured to an instance that `handle_message` hands to the handler owed. -/
def Delivered (codec : Codec C) (d : Decoder C) (data : Entries C) (r : Routed C) : Prop :=
  ∃ message, (codec.structureMessage d data).2 = .ok message ∧
    handleMessage false message = .ok (some r)

section Delivery

variable {codec : Codec C} {d : Decoder C} {data : Entries C} {sent : Sent C}

theorem Sent.Represents.jsonrpc (h : sent.Represents data) :
    Dict.lookup jsonrpcKey data = some (.str version) := by
  rw [h jsonrpcKey]
  cases sent <;> rfl

theorem delivered_of_convert {cls : Cls C} {attributes : Entries C} {r : Routed C}
    (hdata : sent.Represents data)
    (hcls : (codec.interpret d.resultTypes data).2 = codec.structureAs cls data)
    (hconv : codec.convert cls data = .ok attributes)
    (hversion : Dict.lookup jsonrpcKey attributes = some (.str version))
    (hroute : route (.object cls attributes) = .ok r) : Delivered codec d data r := by
  refine ⟨.object cls attributes, ?_, ?_⟩
  · rw [structureMessage_snd hdata.jsonrpc, hcls, structureAs_ok hconv]
  · have hattr : getattr jsonrpcKey (.object cls attributes) = some (.str version) := hversion
    rw [handleMessage_running hattr, hroute]
    rfl

theorem not_delivered_of_convert {cls : Cls C} {r : Routed C} (hdata : sent.Represents data)
    (hcls : (codec.interpret d.resultTypes data).2 = codec.structureAs cls data)
    (hconv : codec.convert cls data = .error .other) : ¬Delivered codec d data r := by
  rintro ⟨message, hmessage, -⟩
  rw [structureMessage_snd hdata.jsonrpc, hcls, structureAs_error hconv] at hmessage
  cases hmessage

/-- The classes name the fields in an order of their own, with `jsonrpc` inside. -/
theorem mem_members_iff (before after : List Str)
    (h : sent.members.map Prod.fst = jsonrpcKey :: (before ++ after)) (k : Str) :
    k ∈ sent.members.map Prod.fst ↔ k ∈ before ++ jsonrpcKey :: after := by
  rw [h]
  exact List.perm_middle.symm.mem_iff

/-- What the hooks of the generic classes do with a message that has their payload. -/
theorem delivered_of_hook {cls : Cls C} {py : Python C} {key : Str} {fields : List Str}
    {v o : Value C} {r : Routed C} (hdata : sent.Represents data)
    (hcls : (codec.interpret d.resultTypes data).2 = codec.structureAs cls data)
    (hconv : codec.convert cls = py.fieldStructureHook key fields)
    (hv : Dict.lookup key sent.members = some v) (ho : py.dictToObject v = some o)
    (hfields : ∀ k, k ∈ sent.members.map Prod.fst ↔ k ∈ fields) (hkey : jsonrpcKey ≠ key)
    (hroute : ∀ attributes : Entries C,
      (∀ k, Dict.lookup k attributes = if k = key then some o else Dict.lookup k sent.members) →
      route (.object cls attributes) = .ok r) :
    Delivered codec d data r := by
  have hnames : ∀ k, Dict.lookup k data = none ↔ k ∉ fields := by
    intro k
    rw [hdata k, Dict.lookup_eq_none_iff, hfields k]
  have hok : codec.convert cls data = .ok (Dict.insert key o data) := by
    rw [hconv]
    exact fieldStructureHook_ok ((hdata key).trans hv) ho hnames
  have hversion : Dict.lookup jsonrpcKey (Dict.insert key o data) = some (.str version) := by
    rw [Dict.lookup_insert, if_neg hkey]
    exact hdata.jsonrpc
  refine delivered_of_convert hdata hcls hok hversion ?_
  apply hroute
  intro k
  rw [Dict.lookup_insert, hdata k]

end Delivery

section Main

variable {codec : Codec C} {d : Decoder C} {data : Entries C} {py : Python C}
  {lsprotocol : Cls C → Entries C → Except StructureError (Entries C)}
  (hconv : codec.convert = py.defaultConverter lsprotocol)

include hconv

theorem request_delivered_iff {id : Value C} {method : Str} {params : Option (Value C)}
    {r : Routed C} (hdata : (Sent.request id method params).Represents data)
    (hm : codec.getMessageType (.str method) = some none)
    (hr : (Sent.request id method params).routed py = some r) :
    Delivered codec d data r ↔ params ≠ none := by
  have hcls := interpret_request (d := d) hdata hm
  have hhook : codec.convert .request =
      py.fieldStructureHook paramsKey [idKey, methodKey, jsonrpcKey, paramsKey] := by
    rw [hconv]
    rfl
  cases params with
  | none =>
    have hmissing : codec.convert .request data = .error .other := by
      rw [hhook]
      exact fieldStructureHook_missing (by simp) (hdata paramsKey)
    simpa using not_delivered_of_convert hdata hcls hmissing
  | some p =>
    obtain ⟨o, ho, rfl⟩ := Option.map_eq_some_iff.mp hr
    refine iff_of_true ?_ (Option.some_ne_none p)
    apply delivered_of_hook hdata hcls hhook rfl ho _ (by decide)
    · intro attributes hattr
      simp only [route, getattr, hattr]
      rfl
    · exact mem_members_iff [idKey, methodKey] [paramsKey] rfl

theorem notification_delivered_iff {method : Str} {params : Option (Value C)}
    {r : Routed C} (hdata : (Sent.notification method params).Represents data)
    (hm : codec.getMessageType (.str method) = some none)
    (hr : (Sent.notification method params).routed py = some r) :
    Delivered codec d data r ↔ params ≠ none := by
  have hcls := interpret_notification (d := d) hdata hm
  have hhook : codec.convert .notification =
      py.fieldStructureHook paramsKey [methodKey, jsonrpcKey, paramsKey] := by
    rw [hconv]
    rfl
  cases params with
  | none =>
    have hmissing : codec.convert .notification data = .error .other := by
      rw [hhook]
      exact fieldStructureHook_missing (by simp) (hdata paramsKey)
    simpa using not_delivered_of_convert hdata hcls hmissing
  | some p =>
    obtain ⟨o, ho, rfl⟩ := Option.map_eq_some_iff.mp hr
    refine iff_of_true ?_ (Option.some_ne_none p)
    apply delivered_of_hook hdata hcls hhook rfl ho _ (by decide)
    · intro attributes hattr
      simp only [route, getattr, hattr]
      rfl
    · exact mem_members_iff [methodKey] [paramsKey] rfl

theorem result_delivered {id value : Value C} {r : Routed C}
    (hdata : (Sent.result id value).Represents data) (hid : IsId id)
    (ht : ∀ k, codec.hashed id = some (some k) → (d.resultTypes.get? k).join = none)
    (hr : (Sent.result id value).routed py = some r) : Delivered codec d data r := by
  have hhook : codec.convert .response =
      py.fieldStructureHook resultKey [idKey, jsonrpcKey, resultKey] := by
    rw [hconv]
    rfl
  obtain ⟨o, ho, rfl⟩ := Option.map_eq_some_iff.mp hr
  apply delivered_of_hook hdata (interpret_result hdata hid ht) hhook rfl ho _ (by decide)
  · intro attributes hattr
    simp only [route, getattr, hattr]
    rfl
  · exact mem_members_iff [idKey] [resultKey] rfl

theorem error_delivered {id : Value C} {error : Entries C}
    (herrors : StructuresErrors lsprotocol) (hvalid : (Sent.error id error).Valid)
    (hdata : (Sent.error id error).Represents data) :
    Delivered codec d data (.error id (responseError error)) := by
  have hok : codec.convert .responseErrorMessage data =
      .ok [(idKey, id), (jsonrpcKey, .str version), (errorKey, responseError error)] := by
    rw [hconv]
    exact herrors id error data hvalid hdata
  exact delivered_of_convert hdata (interpret_error hdata) hok rfl rfl

end Main

/-- A valid generic message reaches the handler of its kind, with what was sent, exactly
when it is not a request or a notification without `params`. -/
theorem valid_message_is_routed (codec : Codec C) (d : Decoder C) (py : Python C)
    (lsprotocol : Cls C → Entries C → Except StructureError (Entries C))
    (hconv : codec.convert = py.defaultConverter lsprotocol)
    (herrors : StructuresErrors lsprotocol) (sent : Sent C) (hvalid : sent.Valid)
    (huntyped : sent.Untyped codec d) (data : Entries C) (hdata : sent.Represents data)
    (r : Routed C) (hr : sent.routed py = some r) :
    Delivered codec d data r ↔ sent.HasParams := by
  cases sent with
  | request id method params => exact request_delivered_iff hconv hdata huntyped hr
  | notification method params => exact notification_delivered_iff hconv hdata huntyped hr
  | result id value => exact iff_of_true (result_delivered hconv hdata hvalid huntyped hr) trivial
  | error id error =>
    cases hr
    exact iff_of_true (error_delivered hconv herrors hvalid hdata) trivial

/-- The part of `lsprotocol` that structures error responses. -/
def sampleLsprotocol : Cls Unit → Entries Unit → Except StructureError (Entries Unit)
  | .responseErrorMessage, data =>
    match Dict.lookup idKey data, Dict.lookup errorKey data with
    | some id, some (.dict e) =>
      .ok [(idKey, id), (jsonrpcKey, .str version), (errorKey, responseError e)]
    | _, _ => .error .classValidation
  | _, _ => .error .other

theorem structuresErrors_sample : StructuresErrors sampleLsprotocol := by
  intro id error data _ hdata
  have hid : Dict.lookup idKey data = some id := hdata idKey
  have herror : Dict.lookup errorKey data = some (.dict error) := hdata errorKey
  simp only [sampleLsprotocol, hid, herror]

def sampleCodec : Codec Unit :=
  { Codec.sampleCodec with convert := Codec.samplePython.defaultConverter sampleLsprotocol }

def sampleSent (params : Option (Value Unit)) : Sent Unit := .request (.int 1) [65] params

def sampleRouted (params : Value Unit) : Routed Unit := .request (.int 1) (.str [65]) params

theorem valid_message_is_routed_request :
    Delivered sampleCodec ⟨Dict.empty, []⟩ (sampleSent (some (.dict []))).members
      (sampleRouted (.namedtuple (lit ['O', 'b', 'j', 'e', 'c', 't']) [])) :=
  (valid_message_is_routed sampleCodec ⟨Dict.empty, []⟩ Codec.samplePython sampleLsprotocol rfl
    structuresErrors_sample (sampleSent (some (.dict []))) trivial rfl _ (fun _ => rfl) _ rfl).mpr
    (Option.some_ne_none _)

/-- The hook lets `params` be absent, the class it then instantiates does not. -/
theorem request_without_params_is_refused :
    (sampleSent none).Valid ∧ (sampleSent none).Untyped sampleCodec ⟨Dict.empty, []⟩ ∧
    (sampleSent none).routed Codec.samplePython = some (sampleRouted .null) ∧
    ¬Delivered sampleCodec ⟨Dict.empty, []⟩ (sampleSent none).members (sampleRouted .null) := by
  refine ⟨trivial, rfl, rfl, ?_⟩
  intro h
  have hconv : sampleCodec.convert = Codec.samplePython.defaultConverter sampleLsprotocol := rfl
  have hsent : (sampleSent none).Represents (sampleSent none).members := fun _ => rfl
  have hiff := request_delivered_iff hconv hsent rfl rfl (d := ⟨Dict.empty, []⟩)
  exact hiff.mp h rfl

end Pygls.Routing
