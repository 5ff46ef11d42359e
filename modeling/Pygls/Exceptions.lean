import Mathlib.Data.List.Find
import Pygls.Json

/-!
# Exceptions and response errors

`exceptions.py`: the classes `from_error` can build, and how an exception that
ended a handler becomes the `ResponseError` of its answer.
-/

namespace Pygls

set_option autoImplicit false

@[irreducible] def text (s : String) : Str := lit s.toList

structure ResponseError where
  code : Int
  message : Str
  data : PyValue

/-- `JsonRpcException` and the members of `_EXCEPTIONS`. -/
inductive ErrorClass where
  | jsonRpcException
  | internalError
  | invalidParams
  | invalidRequest
  | methodNotFound
  | parseError
  | requestCancelled
  | serverError
deriving DecidableEq

namespace ErrorClass

/-- The class attribute `CODE`; `JsonRpcServerError` inherits its base's. -/
def code : ErrorClass → Int
  | .jsonRpcException => -32603
  | .internalError => -32603
  | .invalidParams => -32602
  | .invalidRequest => -32600
  | .methodNotFound => -32601
  | .parseError => -32700
  | .requestCancelled => -32800
  | .serverError => -32603

def message : ErrorClass → Str
  | .jsonRpcException => []
  | .internalError => text "Internal Error"
  | .invalidParams => text "Invalid Params"
  | .invalidRequest => text "Invalid Request"
  | .methodNotFound => text "Method Not Found"
  | .parseError => text "Parse Error"
  | .requestCancelled => text "Request Cancelled"
  | .serverError => []

def supportsCode (c : ErrorClass) (code : Int) : Bool :=
  match c with
  | .serverError => -32099 ≤ code ∧ code ≤ -32000
  | c => c.code = code

def exceptions : List ErrorClass :=
  [.internalError, .invalidParams, .invalidRequest, .methodNotFound, .parseError,
    .requestCancelled, .serverError]

/-- The codes of the classes with a message of their own. -/
def namedCodes : List Int := [-32603, -32602, -32600, -32601, -32700, -32800]

theorem supportsCode_iff (c : ErrorClass) (code : Int) :
    c.supportsCode code = true ↔
      (c = .serverError ∧ -32099 ≤ code ∧ code ≤ -32000) ∨ (c ≠ .serverError ∧ c.code = code) := by
  cases c with
  | serverError => simp [supportsCode]
  | _ => simp [supportsCode]

theorem code_injective : ∀ c ∈ exceptions, ∀ c' ∈ exceptions,
    c ≠ .serverError → c' ≠ .serverError → c.code = c'.code → c = c' := by decide

theorem code_not_reserved : ∀ c ∈ exceptions,
    c ≠ .serverError → ¬(-32099 ≤ c.code ∧ c.code ≤ -32000) := by decide

/-- No code is supported by two classes. -/
theorem supportsCode_unique {c c' : ErrorClass} (hc : c ∈ exceptions) (hc' : c' ∈ exceptions)
    {code : Int} (h : c.supportsCode code = true) (h' : c'.supportsCode code = true) : c = c' := by
  rw [supportsCode_iff] at h h'
  rcases h with ⟨rfl, hrange⟩ | ⟨hne, rfl⟩
  · rcases h' with ⟨rfl, -⟩ | ⟨hne', rfl⟩
    · rfl
    · exact absurd hrange (code_not_reserved c' hc' hne')
  · rcases h' with ⟨rfl, hrange⟩ | ⟨hne', hcode⟩
    · exact absurd hrange (code_not_reserved c hc hne)
    · exact code_injective c hc c' hc' hne hne' hcode.symm

theorem supportsCode_of_find? {order : List ErrorClass} {c : ErrorClass} {code : Int}
    (h : order.find? (·.supportsCode code) = some c) : c.supportsCode code = true := by
  have hsome := List.find?_some h
  exact hsome

theorem find?_supportsCode {order : List ErrorClass} (h : order.Perm exceptions) (code : Int) :
    order.find? (·.supportsCode code) = exceptions.find? (·.supportsCode code) := by
  refine List.find?_eq_find?_of_perm h ?_
  rintro c ⟨hc, hcode⟩ c' ⟨hc', hcode'⟩
  exact supportsCode_unique (h.subset hc) (h.subset hc') hcode hcode'

theorem code_mem_namedCodes : ∀ c ∈ exceptions, c ≠ .serverError → c.code ∈ namedCodes := by
  decide

theorem message_ne_nil {c : ErrorClass} (h : c ≠ .jsonRpcException) (h' : c ≠ .serverError) :
    c.message ≠ [] := by
  cases c with
  | jsonRpcException => exact absurd rfl h
  | serverError => exact absurd rfl h'
  | _ => simp [message, text, lit]

theorem code_ne_zero (c : ErrorClass) : c.code ≠ 0 := by
  cases c with
  | _ => decide

end ErrorClass

structure JsonRpcException where
  cls : ErrorClass
  code : Int
  message : Str
  data : PyValue

namespace JsonRpcException

/-- `__init__`: an empty message and a zero code are falsy, so the class's own stand in. -/
def init (cls : ErrorClass) (message : Str) (code : Int) (data : PyValue) : JsonRpcException where
  cls := cls
  code := if code = 0 then cls.code else code
  message := if message = [] then cls.message else message
  data := data

def toResponseError (e : JsonRpcException) : ResponseError := ⟨e.code, e.message, e.data⟩

/-- `from_error`, with the order in which the set of classes is iterated. -/
def fromErrorIn (order : List ErrorClass) (error : ResponseError) : JsonRpcException :=
  match order.find? (·.supportsCode error.code) with
  | some cls => init cls error.message error.code error.data
  | none => init .jsonRpcException error.message error.code error.data

def fromError (error : ResponseError) : JsonRpcException := fromErrorIn ErrorClass.exceptions error

/-- `cls(message, code, data)`: that of `JsonRpcServerError` raises for a code it does not
support. -/
def construct (cls : ErrorClass) (message : Str) (code : Int) (data : PyValue) :
    Option JsonRpcException :=
  if cls = .serverError ∧ cls.supportsCode code = false then none
  else some (init cls message code data)

/-- `from_error` with the exception that a constructor may raise. -/
def raisingFromErrorIn (order : List ErrorClass) (error : ResponseError) :
    Option JsonRpcException :=
  match order.find? (·.supportsCode error.code) with
  | some cls => construct cls error.message error.code error.data
  | none => construct .jsonRpcException error.message error.code error.data

theorem raisingFromErrorIn_eq (order : List ErrorClass) (error : ResponseError) :
    raisingFromErrorIn order error = some (fromErrorIn order error) := by
  unfold raisingFromErrorIn fromErrorIn construct
  split
  · rename_i cls hfind
    rw [ErrorClass.supportsCode_of_find? hfind, if_neg (by rintro ⟨-, h⟩; cases h)]
  · rw [if_neg (by rintro ⟨h, -⟩; cases h)]

theorem fromErrorIn_perm {order : List ErrorClass} (h : order.Perm ErrorClass.exceptions)
    (error : ResponseError) : fromErrorIn order error = fromError error := by
  rw [fromError, fromErrorIn, fromErrorIn, ErrorClass.find?_supportsCode h]

theorem init_survives_iff (cls : ErrorClass) (error : ResponseError) :
    (init cls error.message error.code error.data).toResponseError = error ↔
      error.code ≠ 0 ∧ (error.message = [] → cls.message = []) := by
  obtain ⟨code, message, data⟩ := error
  rw [init, toResponseError, ResponseError.mk.injEq]
  constructor
  · rintro ⟨hcode, hmessage, -⟩
    refine ⟨?_, ?_⟩
    · rintro rfl
      exact cls.code_ne_zero hcode
    · rintro rfl
      exact hmessage
  · rintro ⟨hcode, hmessage⟩
    refine ⟨if_neg hcode, ?_, rfl⟩
    by_cases hempty : message = []
    · exact (if_pos hempty).trans ((hmessage hempty).trans hempty.symm)
    · exact if_neg hempty

/-- The class for a code has a message just if the code is one of those listed. -/
theorem message_fromError (error : ResponseError) :
    (fromError error).cls.message = [] ↔ error.code ∉ ErrorClass.namedCodes := by
  obtain ⟨code, message, data⟩ := error
  by_cases hnamed : code ∈ ErrorClass.namedCodes
  · refine iff_of_false ?_ (not_not_intro hnamed)
    simp only [ErrorClass.namedCodes, List.mem_cons, List.not_mem_nil, or_false] at hnamed
    rcases hnamed with rfl | rfl | rfl | rfl | rfl | rfl <;>
      exact ErrorClass.message_ne_nil nofun nofun
  · refine iff_of_true ?_ hnamed
    unfold fromError fromErrorIn
    split
    · rename_i cls hfind
      have hcode := (ErrorClass.supportsCode_iff cls code).mp
        (ErrorClass.supportsCode_of_find? hfind)
      rcases hcode with ⟨rfl, -⟩ | ⟨hne, rfl⟩
      · rfl
      · exact absurd (ErrorClass.code_mem_namedCodes cls (List.mem_of_find?_eq_some hfind) hne)
          hnamed
    · rfl

/-- `from_error` never raises and does not depend on the order of the set; the error comes back
just if its code is not zero, and its message is not empty where the class has one. -/
theorem error_survives_iff (error : ResponseError) :
    (∀ order : List ErrorClass, order.Perm ErrorClass.exceptions →
      raisingFromErrorIn order error = some (fromError error)) ∧
    ((∀ order : List ErrorClass, order.Perm ErrorClass.exceptions →
      (raisingFromErrorIn order error).map toResponseError = some error) ↔
        error.code ≠ 0 ∧ (error.message = [] → error.code ∉ ErrorClass.namedCodes)) := by
  have hall : ∀ order : List ErrorClass, order.Perm ErrorClass.exceptions →
      raisingFromErrorIn order error = some (fromError error) := by
    intro order horder
    rw [raisingFromErrorIn_eq, fromErrorIn_perm horder]
  refine ⟨hall, ?_⟩
  have hinit : fromError error =
      init (fromError error).cls error.message error.code error.data := by
    unfold fromError fromErrorIn
    split
    · rfl
    · rfl
  have hback : (∀ order : List ErrorClass, order.Perm ErrorClass.exceptions →
      (raisingFromErrorIn order error).map toResponseError = some error) ↔
        (fromError error).toResponseError = error := by
    constructor
    · intro h
      have h' := h _ (List.Perm.refl _)
      rw [hall _ (List.Perm.refl _)] at h'
      exact Option.some.inj h'
    · intro h order horder
      rw [hall order horder, Option.map_some, h]
  rw [hback, hinit, init_survives_iff, message_fromError]

/-- A code of zero comes back as that of an internal error. -/
theorem zero_code_replaced :
    let error : ResponseError := ⟨0, [0x61], .none⟩
    let back := (raisingFromErrorIn ErrorClass.exceptions error).map toResponseError
    back = some ⟨-32603, [0x61], .none⟩ ∧ back ≠ some error := by
  intro error back
  have hback : back = some ⟨-32603, [0x61], .none⟩ := by
    dsimp only [back]
    rw [raisingFromErrorIn_eq]
    rfl
  refine ⟨hback, ?_⟩
  rw [hback]
  intro h
  have hcode := congrArg ResponseError.code (Option.some.inj h)
  exact absurd hcode (by decide)

end JsonRpcException

/-- The exceptions the protocol tells apart, all of them instances of `Exception`, as that of
`concurrent.futures` for a cancelled future is. Handlers that end with any other `BaseException`
are in `Exits`. -/
inductive PyExc where
  | jsonRpc (e : JsonRpcException)
  | stopIteration (value : PyValue)
  | cancelledError
  | invalidStateError
  | brokenPipeError
  | runtimeError
  | typeError
  | other (name : Str)

/-- `format_exception_only` and `format_tb` for an exception. -/
abbrev Traceback := PyExc → Str × List Str

namespace PyExc

/-- `JsonRpcInternalError.of(sys.exc_info())` -/
def internalError (tb : Traceback) (e : PyExc) : JsonRpcException :=
  .init .internalError (tb e).1 0
    (.dict [(.str (text "traceback"), .list ((tb e).2.map .str))])

/-- The error a request is answered with when `e` ended it. -/
def toResponseError (tb : Traceback) : PyExc → ResponseError
  | .jsonRpc e => e.toResponseError
  | e => (internalError tb e).toResponseError

end PyExc

def methodNotFound (method : Str) : JsonRpcException :=
  .init .methodNotFound (ErrorClass.methodNotFound.message ++ text ": " ++ method) 0 .none

theorem toJsonItems_map_str (lines : List Str) :
    Json.toJsonItems (lines.map .str) = some (lines.map .str) := by
  induction lines with
  | nil => rfl
  | cons l ls ih => simp [Json.toJsonItems, Json.toJson, ih]

/-- A traceback is text, so an internal error can always be written. -/
theorem toJson_internalError (tb : Traceback) (e : PyExc) :
    ∃ j, Json.toJson (PyExc.internalError tb e).data = some j := by
  simp [PyExc.internalError, JsonRpcException.init, Json.toJson, Json.toJsonEntries, Json.keyText,
    toJsonItems_map_str]

theorem toResponseError_code (tb : Traceback) {e : PyExc} (h : ∀ j, e ≠ .jsonRpc j) :
    (PyExc.toResponseError tb e).code = -32603 := by
  cases e with
  | jsonRpc j => exact absurd rfl (h j)
  | _ => rfl

end Pygls
