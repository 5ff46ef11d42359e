import Pygls.Protocol

/-!
# Decoding messages

`json.loads(body, object_hook=self.structure_message)` from the parsed text on, and
`handle_message` up to the handler it chooses. `object_hook` is called for every
object of the text, innermost first, with the dictionary its members decoded to.

A Python value of the decoder is a `Value`: what JSON can denote, the named tuples of
`_dict_to_object`, and instances of `attrs` classes. `C` are the message classes of
`lsprotocol`. A dictionary is the list of its entries, in order.
-/

namespace Pygls.Decoding

open Lib

set_option autoImplicit false

inductive Cls (C : Type) where
  | notification
  | request
  | response
  | responseErrorMessage
  | responseError
  | lsp (cls : C)
deriving DecidableEq

inductive Value (C : Type) where
  | null
  | bool (b : Bool)
  | int (n : Int)
  | float (x : FloatText)
  | str (s : Str)
  | list (items : List (Value C))
  | dict (entries : List (Str × Value C))
  | namedtuple (name : Str) (fields : List (Str × Value C))
  | object (cls : Cls C) (attributes : List (Str × Value C))

variable {C : Type}

abbrev Entries (C : Type) := List (Str × Value C)

def jsonrpcKey : Str := lit ['j', 's', 'o', 'n', 'r', 'p', 'c']
def idKey : Str := lit ['i', 'd']
def methodKey : Str := lit ['m', 'e', 't', 'h', 'o', 'd']
def paramsKey : Str := lit ['p', 'a', 'r', 'a', 'm', 's']
def resultKey : Str := lit ['r', 'e', 's', 'u', 'l', 't']
def errorKey : Str := lit ['e', 'r', 'r', 'o', 'r']
def codeKey : Str := lit ['c', 'o', 'd', 'e']
def messageKey : Str := lit ['m', 'e', 's', 's', 'a', 'g', 'e']
def dataKey : Str := lit ['d', 'a', 't', 'a']
def typeNameKey : Str := lit ['t', 'y', 'p', 'e', '_', 'n', 'a', 'm', 'e']

/-- `JsonRPCProtocol.VERSION` -/
def version : Str := lit ['2', '.', '0']

/-- What a converter raises: `ClassValidationError`, or anything else. -/
inductive StructureError where
  | classValidation
  | other

/-- A protocol as the decoder uses it. `getMessageType` is `none` where it raises,
`convert` gives the attributes of the instance, and `floatInt` is the integer a float is
equal to, if any. -/
structure Codec (C : Type) where
  getMessageType : Value C → Option (Option C)
  convert : Cls C → Entries C → Except StructureError (Entries C)
  floatInt : FloatText → Option Int

/-- `_result_types`, and every dictionary that was taken for a message. -/
structure Decoder (C : Type) where
  resultTypes : Dict MsgId (Option C)
  messages : List (Entries C)

/-- `dict(pairs)`: a later pair of the same name wins and stands where the first one stood. -/
def dictOf (pairs : Entries C) : Entries C :=
  pairs.foldl (fun d p => Dict.insert p.1 p.2 d) []

namespace Codec

/-- `self._converter.structure(data, cls)` under the `except` clauses. -/
def structureAs (codec : Codec C) (cls : Cls C) (data : Entries C) :
    Except JsonRpcException (Value C) :=
  match codec.convert cls data with
  | .ok attributes => .ok (.object cls attributes)
  | .error .classValidation => .error (.init .invalidParams [] 0 .none)
  | .error .other => .error (.init .internalError [] 0 .none)

/-- The key of `_result_types` that an id is equal to, if any; `none` for what cannot be
hashed. -/
def hashed (codec : Codec C) : Value C → Option (Option MsgId)
  | .null => some none
  | .bool b => some (some (.int (if b then 1 else 0)))
  | .int n => some (some (.int n))
  | .float x => some ((codec.floatInt x).map .int)
  | .str s => some (some (.str s))
  | .list _ => none
  | .dict _ => none
  | .namedtuple _ _ => none
  | .object _ _ => none

/-- `self._result_types.pop(id, None)` -/
def popType (types : Dict MsgId (Option C)) : Option MsgId → Option C × Dict MsgId (Option C)
  | none => (none, types)
  | some k => ((types.get? k).join, types.pop k)

def structureTyped (codec : Codec C) (method : Value C) (fallback : Cls C) (data : Entries C) :
    Except JsonRpcException (Value C) :=
  match codec.getMessageType method with
  | none => .error (.init .internalError [] 0 .none)
  | some t => codec.structureAs (t.elim fallback .lsp) data

/-- The `try` block of `structure_message`. -/
def interpret (codec : Codec C) (types : Dict MsgId (Option C)) (data : Entries C) :
    Dict MsgId (Option C) × Except JsonRpcException (Value C) :=
  match Dict.lookup idKey data with
  | some id =>
    if Dict.lookup errorKey data ≠ none then
      (types, codec.structureAs .responseErrorMessage data)
    else
      match Dict.lookup methodKey data with
      | some method => (types, codec.structureTyped method .request data)
      | none =>
        match codec.hashed id with
        | none => (types, .error (.init .internalError [] 0 .none))
        | some k =>
          let t := popType types k
          (t.2, codec.structureAs (t.1.elim .response .lsp) data)
  | none =>
    let method := (Dict.lookup methodKey data).getD (.str [])
    (types, codec.structureTyped method .notification data)

def structureMessage (codec : Codec C) (d : Decoder C) (data : Entries C) :
    Decoder C × Except JsonRpcException (Value C) :=
  if Dict.lookup jsonrpcKey data = none then (d, .ok (.dict data))
  else
    let r := codec.interpret d.resultTypes data
    (⟨r.1, d.messages ++ [data]⟩, r.2)

mutual

/-- `json.loads` with the hook, from the parsed text on. -/
def loads (codec : Codec C) : Decoder C → Json →
    Decoder C × Except JsonRpcException (Value C)
  | d, .null => (d, .ok .null)
  | d, .bool b => (d, .ok (.bool b))
  | d, .int n => (d, .ok (.int n))
  | d, .float x => (d, .ok (.float x))
  | d, .str s => (d, .ok (.str s))
  | d, .list items =>
    match loadsItems codec d items with
    | (d, .error e) => (d, .error e)
    | (d, .ok values) => (d, .ok (.list values))
  | d, .obj fields =>
    match loadsFields codec d fields with
    | (d, .error e) => (d, .error e)
    | (d, .ok pairs) => codec.structureMessage d (dictOf pairs)

def loadsItems (codec : Codec C) : Decoder C → List Json →
    Decoder C × Except JsonRpcException (List (Value C))
  | d, [] => (d, .ok [])
  | d, j :: js =>
    match loads codec d j with
    | (d, .error e) => (d, .error e)
    | (d, .ok value) =>
      match loadsItems codec d js with
      | (d, .error e) => (d, .error e)
      | (d, .ok values) => (d, .ok (value :: values))

/-- The members of an object, as the hook is about to be given them. -/
def loadsFields (codec : Codec C) : Decoder C → List (Str × Json) →
    Decoder C × Except JsonRpcException (Entries C)
  | d, [] => (d, .ok [])
  | d, (name, j) :: fields =>
    match loads codec d j with
    | (d, .error e) => (d, .error e)
    | (d, .ok value) =>
      match loadsFields codec d fields with
      | (d, .error e) => (d, .error e)
      | (d, .ok pairs) => (d, .ok ((name, value) :: pairs))

end

end Codec

/-- `json.loads` reads two escapes that form a surrogate pair as one character. -/
def joinSurrogates : Str → Str
  | [] => []
  | [c] => [c]
  | c :: c' :: s =>
    if 0xD800 ≤ c.val ∧ c.val < 0xDC00 ∧ 0xDC00 ≤ c'.val ∧ c'.val < 0xE000 then
      Fin.ofNat 0x110000 (0x10000 + (c.val - 0xD800) * 0x400 + (c'.val - 0xDC00)) ::
        joinSurrogates s
    else c :: joinSurrogates (c' :: s)

/-- `str()`, `name.isidentifier() and not iskeyword(name)`, and the normal form (NFKC) by which
Python compares the names of parameters. -/
structure Python (C : Type) where
  str : Value C → Str
  isName : Str → Bool
  normalize : Str → Str

namespace Python

/-- `namedtuple(…, rename=True)`; the keys of a dictionary are distinct already. -/
def fieldNames (py : Python C) (names : List Str) : List Str :=
  names.mapIdx fun index name =>
    if py.isName name && name.head? ≠ some (Fin.ofNat 0x110000 0x5F) then name
    else lit ['_'] ++ Json.decimal index

/-- The fields are the parameters of a lambda, so two of one normal form raise. -/
def namedtuple (py : Python C) (typeName : Str) (p : Entries C) : Option (Value C) :=
  let names := py.fieldNames (p.map Prod.fst)
  if py.isName typeName = true ∧ (names.map py.normalize).Nodup then
    some (.namedtuple typeName (names.zip (p.map Prod.snd)))
  else none

mutual

/-- A value through `json.dumps` and back, every object as a named tuple; `none` where it
raises. A tuple is written as a list, and an `attrs` instance cannot be written. -/
def reload (py : Python C) (typeName : Str) : Value C → Option (Value C)
  | .null => some .null
  | .bool b => some (.bool b)
  | .int n => some (.int n)
  | .float x => some (.float x)
  | .str s => some (.str (joinSurrogates s))
  | .list items => (reloadItems py typeName items).map .list
  | .dict entries =>
    (reloadEntries py typeName entries).bind fun p => py.namedtuple typeName (dictOf p)
  | .namedtuple _ fields =>
    (reloadEntries py typeName fields).map fun p => .list (p.map Prod.snd)
  | .object _ _ => none

def reloadItems (py : Python C) (typeName : Str) : List (Value C) → Option (List (Value C))
  | [] => some []
  | v :: vs => (reload py typeName v).bind fun w => (reloadItems py typeName vs).map (w :: ·)

def reloadEntries (py : Python C) (typeName : Str) : Entries C → Option (Entries C)
  | [] => some []
  | (name, v) :: es =>
    (reload py typeName v).bind fun w =>
      (reloadEntries py typeName es).map ((joinSurrogates name, w) :: ·)

end

/-- `_dict_to_object`. The interpreter's limits, to recursion and to the digits of an integer, are
left out. -/
def dictToObject (py : Python C) : Value C → Option (Value C)
  | .dict d =>
    let typeName := (Dict.lookup typeNameKey d).getD (.str (lit ['O', 'b', 'j', 'e', 'c', 't']))
    py.reload (py.str typeName) (.dict (Dict.remove typeNameKey d))
  | v => some v

/-- `cls(**obj)` for an `attrs` class with the given fields and no defaults. -/
def construct (fields : List Str) (obj : Entries C) : Except StructureError (Entries C) :=
  if (∀ k ∈ fields, k ∈ obj.map Prod.fst) ∧ ∀ k ∈ obj.map Prod.fst, k ∈ fields then .ok obj
  else .error .other

def fieldStructureHook (py : Python C) (key : Str) (fields : List Str) (obj : Entries C) :
    Except StructureError (Entries C) :=
  match Dict.lookup key obj with
  | none => construct fields obj
  | some v =>
    match py.dictToObject v with
    | none => .error .other
    | some o => construct fields (Dict.insert key o obj)

def paramsFieldStructureHook (py : Python C) := py.fieldStructureHook paramsKey

def resultFieldStructureHook (py : Python C) := py.fieldStructureHook resultKey

/-- `default_converter()`; `lsprotocol` is the converter of that package, which has the
classes that `pygls` registers no hook for. -/
def defaultConverter (py : Python C)
    (lsprotocol : Cls C → Entries C → Except StructureError (Entries C)) :
    Cls C → Entries C → Except StructureError (Entries C)
  | .request => py.paramsFieldStructureHook [idKey, methodKey, jsonrpcKey, paramsKey]
  | .response => py.resultFieldStructureHook [idKey, jsonrpcKey, resultKey]
  | .notification => py.paramsFieldStructureHook [methodKey, jsonrpcKey, paramsKey]
  | cls => lsprotocol cls

end Python

mutual

/-- The plain value that a JSON text denotes. -/
def plain : Json → Value C
  | .null => .null
  | .bool b => .bool b
  | .int n => .int n
  | .float x => .float x
  | .str s => .str s
  | .list items => .list (plainItems items)
  | .obj fields => .dict (dictOf (plainFields fields))

def plainItems : List Json → List (Value C)
  | [] => []
  | j :: js => plain j :: plainItems js

def plainFields : List (Str × Json) → Entries C
  | [] => []
  | (name, j) :: fields => (name, plain j) :: plainFields fields

end

mutual

/-- No object in the text has a member `jsonrpc`. -/
def Unmarked : Json → Prop
  | .list items => UnmarkedItems items
  | .obj fields => jsonrpcKey ∉ fields.map Prod.fst ∧ UnmarkedFields fields
  | _ => True

def UnmarkedItems : List Json → Prop
  | [] => True
  | j :: js => Unmarked j ∧ UnmarkedItems js

def UnmarkedFields : List (Str × Json) → Prop
  | [] => True
  | (_, j) :: fields => Unmarked j ∧ UnmarkedFields fields

end

theorem lookup_foldl_insert_none (k : Str) (pairs d : Entries C) :
    Dict.lookup k (pairs.foldl (fun d p => Dict.insert p.1 p.2 d) d) = none ↔
      k ∉ pairs.map Prod.fst ∧ Dict.lookup k d = none := by
  induction pairs generalizing d with
  | nil => simp
  | cons p pairs ih =>
    rw [List.foldl_cons, ih, Dict.lookup_insert]
    by_cases hk : k = p.1
    · simp [hk]
    · simp [hk]

theorem lookup_dictOf_none (k : Str) (pairs : Entries C) :
    Dict.lookup k (dictOf pairs) = none ↔ k ∉ pairs.map Prod.fst := by
  rw [dictOf, lookup_foldl_insert_none]
  simp [Dict.lookup]

theorem plainFields_names (fields : List (Str × Json)) :
    (plainFields fields : Entries C).map Prod.fst = fields.map Prod.fst := by
  induction fields with
  | nil => rfl
  | cons field fields ih => rw [plainFields, List.map_cons, List.map_cons, ih]

namespace Codec

variable (codec : Codec C)

theorem structureMessage_of_not_message {d : Decoder C} {data : Entries C}
    (h : Dict.lookup jsonrpcKey data = none) : codec.structureMessage d data = (d, .ok (.dict data)) := by
  rw [structureMessage, if_pos h]

theorem structureMessage_of_message {d : Decoder C} {data : Entries C}
    (h : Dict.lookup jsonrpcKey data ≠ none) :
    codec.structureMessage d data =
      (⟨(codec.interpret d.resultTypes data).1, d.messages ++ [data]⟩,
        (codec.interpret d.resultTypes data).2) := by
  rw [structureMessage, if_neg h]

/-- The hook's own effect on `_result_types`: at most the entry of the id it is given. -/
theorem interpret_resultTypes (types : Dict MsgId (Option C)) (data : Entries C) (k : MsgId)
    (hk : ∀ id, Dict.lookup idKey data = some id → codec.hashed id ≠ some (some k)) :
    (codec.interpret types data).1.get? k = types.get? k := by
  unfold interpret
  split
  · rename_i id hid
    split
    · rfl
    · split
      · rfl
      · split
        · rfl
        · rename_i key hkey
          cases key with
          | none => rfl
          | some j =>
            have hne : k ≠ j := by
              rintro rfl
              exact hk id hid hkey
            exact Dict.get?_pop_ne types hne
  · rfl

mutual

/-- A text without a member `jsonrpc` decodes to what it denotes, and no object of it is
taken for a message. -/
theorem loads_of_unmarked (d : Decoder C) :
    ∀ j : Json, Unmarked j → loads codec d j = (d, .ok (plain j))
  | .null, _ => rfl
  | .bool _, _ => rfl
  | .int _, _ => rfl
  | .float _, _ => rfl
  | .str _, _ => rfl
  | .list items, h => by
    rw [loads, loadsItems_of_unmarked d items h, plain]
  | .obj fields, h => by
    have hkey : Dict.lookup jsonrpcKey (dictOf (plainFields fields : Entries C)) = none := by
      rw [lookup_dictOf_none, plainFields_names]
      exact h.1
    rw [loads, loadsFields_of_unmarked d fields h.2]
    exact structureMessage_of_not_message codec hkey

theorem loadsItems_of_unmarked (d : Decoder C) :
    ∀ js : List Json, UnmarkedItems js → loadsItems codec d js = (d, .ok (plainItems js))
  | [], _ => rfl
  | j :: js, h => by
    rw [loadsItems, loads_of_unmarked d j h.1]
    dsimp only
    rw [loadsItems_of_unmarked d js h.2, plainItems]

theorem loadsFields_of_unmarked (d : Decoder C) :
    ∀ fields : List (Str × Json), UnmarkedFields fields →
      loadsFields codec d fields = (d, .ok (plainFields fields))
  | [], _ => rfl
  | (name, j) :: fields, h => by
    rw [loadsFields, loads_of_unmarked d j h.1]
    dsimp only
    rw [loadsFields_of_unmarked d fields h.2, plainFields]

end

theorem loadsFields_names {d d' : Decoder C} {fields : List (Str × Json)} {pairs : Entries C}
    (h : loadsFields codec d fields = (d', .ok pairs)) :
    pairs.map Prod.fst = fields.map Prod.fst := by
  induction fields generalizing d pairs with
  | nil =>
    rw [loadsFields] at h
    cases h
    rfl
  | cons field fields ih =>
    rw [loadsFields] at h
    split at h
    · cases h
    · split at h
      · cases h
      · rename_i heq
        cases h
        rw [List.map_cons, List.map_cons, ih heq]

end Codec

/-- From `d` to `d'` the messages taken only grow, and they do grow unless `p`. -/
def Grows (d d' : Decoder C) (p : Prop) : Prop :=
  d.messages.length ≤ d'.messages.length ∧ (¬p → d.messages.length < d'.messages.length)

namespace Grows

theorem refl (d : Decoder C) {p : Prop} (hp : p) : Grows d d p := ⟨Nat.le_refl _, fun h => absurd hp h⟩

theorem and {d d' d'' : Decoder C} {p q : Prop} (h : Grows d d' p) (h' : Grows d' d'' q) :
    Grows d d'' (p ∧ q) := by
  refine ⟨Nat.le_trans h.1 h'.1, fun hpq => ?_⟩
  by_cases hp : p
  · exact Nat.lt_of_le_of_lt h.1 (h'.2 fun hq => hpq ⟨hp, hq⟩)
  · exact Nat.lt_of_lt_of_le (h.2 hp) h'.1

theorem of_not {d d' : Decoder C} {p q : Prop} (h : Grows d d' p) (hp : ¬p) : Grows d d' q :=
  ⟨h.1, fun _ => h.2 hp⟩

end Grows

namespace Codec

variable (codec : Codec C)

theorem structureMessage_grows (d : Decoder C) (data : Entries C) :
    Grows d (codec.structureMessage d data).1 (Dict.lookup jsonrpcKey data = none) := by
  by_cases h : Dict.lookup jsonrpcKey data = none
  · rw [structureMessage_of_not_message codec h]
    exact Grows.refl d h
  · have hlt : d.messages.length < (codec.structureMessage d data).1.messages.length := by
      rw [structureMessage_of_message codec h]
      simp
    exact ⟨Nat.le_of_lt hlt, fun _ => hlt⟩

-- Only a message can fail to decode, so where decoding stops one was taken already.
mutual

theorem loads_grows (d : Decoder C) : ∀ j : Json, Grows d (loads codec d j).1 (Unmarked j)
  | .null => Grows.refl d trivial
  | .bool _ => Grows.refl d trivial
  | .int _ => Grows.refl d trivial
  | .float _ => Grows.refl d trivial
  | .str _ => Grows.refl d trivial
  | .list items => by
    have hitems := loadsItems_grows d items
    rw [loads]
    split <;> (rename_i heq; rw [heq] at hitems; exact hitems)
  | .obj fields => by
    have hfields := loadsFields_grows d fields
    rw [loads]
    split
    · rename_i heq
      have hmarked : ¬UnmarkedFields fields := by
        intro h
        rw [loadsFields_of_unmarked codec d fields h] at heq
        cases heq
      rw [heq] at hfields
      exact hfields.of_not hmarked
    · rename_i d' pairs heq
      rw [heq] at hfields
      have hhook := structureMessage_grows codec d' (dictOf pairs)
      rw [lookup_dictOf_none, loadsFields_names codec heq] at hhook
      have hboth := hfields.and hhook
      rwa [and_comm] at hboth

theorem loadsItems_grows (d : Decoder C) :
    ∀ js : List Json, Grows d (loadsItems codec d js).1 (UnmarkedItems js)
  | [] => Grows.refl d trivial
  | j :: js => by
    have hj := loads_grows d j
    rw [loadsItems]
    split
    · rename_i heq
      have hmarked : ¬Unmarked j := by
        intro h
        rw [loads_of_unmarked codec d j h] at heq
        cases heq
      rw [heq] at hj
      exact hj.of_not hmarked
    · rename_i d' _ heq
      rw [heq] at hj
      have hjs := loadsItems_grows d' js
      split <;> (rename_i heq'; rw [heq'] at hjs; exact hj.and hjs)

theorem loadsFields_grows (d : Decoder C) :
    ∀ fields : List (Str × Json), Grows d (loadsFields codec d fields).1 (UnmarkedFields fields)
  | [] => Grows.refl d trivial
  | (_, j) :: fields => by
    have hj := loads_grows d j
    rw [loadsFields]
    split
    · rename_i heq
      have hmarked : ¬Unmarked j := by
        intro h
        rw [loads_of_unmarked codec d j h] at heq
        cases heq
      rw [heq] at hj
      exact hj.of_not hmarked
    · rename_i d' _ heq
      rw [heq] at hj
      have hfields := loadsFields_grows d' fields
      split <;> (rename_i heq'; rw [heq'] at hfields; exact hj.and hfields)

end

/-- The members of an object decode to what they denote exactly when no object below it
has a member `jsonrpc`. -/
theorem loadsFields_plain_iff (d : Decoder C) (fields : List (Str × Json)) :
    loadsFields codec d fields = (d, .ok (plainFields fields)) ↔ UnmarkedFields fields := by
  constructor
  · intro h
    by_contra hmarked
    have hlt := (loadsFields_grows codec d fields).2 hmarked
    rw [h] at hlt
    exact Nat.lt_irrefl _ hlt
  · exact loadsFields_of_unmarked codec d fields

/-- Only the outermost object is taken for a message: its members decode to what they
denote, that is what the converter is handed, and `_result_types` changes at most for the
message's own id. -/
structure OnlyOutermost (d : Decoder C) (fields : List (Str × Json)) : Prop where
  members : loadsFields codec d fields = (d, .ok (plainFields fields))
  message : loads codec d (.obj fields) = codec.structureMessage d (dictOf (plainFields fields))
  messages : (loads codec d (.obj fields)).1.messages = d.messages ++ [dictOf (plainFields fields)]
  resultTypes : ∀ k,
    (∀ id, Dict.lookup idKey (dictOf (plainFields fields)) = some id →
      codec.hashed id ≠ some (some k)) →
    (loads codec d (.obj fields)).1.resultTypes.get? k = d.resultTypes.get? k

theorem payload_is_left_alone (d : Decoder C) (fields : List (Str × Json))
    (hmessage : jsonrpcKey ∈ fields.map Prod.fst) :
    OnlyOutermost codec d fields ↔ UnmarkedFields fields := by
  constructor
  · intro h
    exact (loadsFields_plain_iff codec d fields).mp h.members
  · intro h
    have hmembers := loadsFields_of_unmarked codec d fields h
    have hload : loads codec d (.obj fields) =
        codec.structureMessage d (dictOf (plainFields fields)) := by
      rw [loads, hmembers]
    have hkey : Dict.lookup jsonrpcKey (dictOf (plainFields fields : Entries C)) ≠ none := by
      rw [Ne, lookup_dictOf_none, plainFields_names]
      exact not_not_intro hmessage
    have hhook := structureMessage_of_message codec hkey (d := d)
    refine ⟨hmembers, hload, ?_, ?_⟩
    · rw [hload, hhook]
    · intro k hk
      rw [hload, hhook]
      exact interpret_resultTypes codec d.resultTypes _ k hk

/-- Python's `str` and names, on ASCII letters. -/
def samplePython : Python Unit where
  str := fun v => match v with
    | .str s => s
    | _ => []
  isName := fun s =>
    s ≠ [] && s.all fun c => (65 ≤ c.val && c.val ≤ 90) || (97 ≤ c.val && c.val ≤ 122)
  normalize := id

/-- A plain `JsonRPCProtocol` whose converter knows no class but the generic ones. -/
def sampleCodec : Codec Unit where
  getMessageType := fun _ => some none
  convert := samplePython.defaultConverter fun _ _ => .error .other
  floatInt := fun _ => none

def sampleRequest (params : Json) : List (Str × Json) :=
  [(jsonrpcKey, .str version), (idKey, .int 1), (methodKey, .str [65]), (paramsKey, params)]

theorem payload_is_left_alone_nested :
    OnlyOutermost sampleCodec ⟨Dict.empty, []⟩ (sampleRequest (.obj [(idKey, .obj [])])) :=
  (payload_is_left_alone sampleCodec ⟨Dict.empty, []⟩ _ (by decide)).mpr
    ⟨trivial, trivial, trivial, ⟨by decide, ⟨by decide, trivial⟩, trivial⟩, trivial⟩

/-- A command whose argument quotes a response: the outstanding request of that id loses its
result type. -/
theorem quoted_response_is_interpreted :
    let types := Dict.empty.set (.int 7) (some ())
    let quoted := Json.obj [(jsonrpcKey, .str version), (idKey, .int 7), (resultKey, .null)]
    jsonrpcKey ∈ (sampleRequest quoted).map Prod.fst ∧
    ¬OnlyOutermost sampleCodec ⟨types, []⟩ (sampleRequest quoted) ∧
    (loads sampleCodec ⟨types, []⟩ (.obj (sampleRequest quoted))).1.resultTypes.get? (.int 7) =
      none := by
  intro types quoted
  refine ⟨by decide, ?_, by decide⟩
  intro h
  have hunmarked := (loadsFields_plain_iff sampleCodec _ _).mp h.members
  exact hunmarked.2.2.2.1.1 (by decide)

end Codec

end Pygls.Decoding
