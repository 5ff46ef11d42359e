import Pygls.Features

/-!
# The arguments of a command

`_prepare_command_arguments` of `language_server.py`: the values a client sends
with `workspace/executeCommand` are handed to the parameters of the command's
function in turn. Beside it stand Python's own rule of which calls a signature
takes, and the test by which the decorator decides to inject the server.
-/

namespace Pygls.CommandArguments

open Features

set_option autoImplicit false

variable {C V : Type}

/-- What a handler is called with: a value as `converter.structure(value, ptype)` makes it, or
the value itself. -/
inductive Argument (C V : Type) where
  | structured (value : V) (ptype : Option (TypeHint C))
  | given (value : V)

/-- The exceptions of the function. `expected` is the `TypeError` whose text is
`Expected {parameters} arguments, got {arguments}`. -/
inductive ArgumentsError where
  | typeHints
  | notClass
  | structuring
  | expected (parameters arguments : Nat)

/-- The loop over the parameters: what it appends to `args`, and the values that are left. -/
def consume (converts : V → Option (TypeHint C) → Bool) (error : ArgumentsError) :
    List (ParameterKind × Parameter C) → List V →
      Except ArgumentsError (List (Argument C V) × List V)
  | [], values => .ok ([], values)
  | (.varPositional, _) :: parameters, values =>
    (consume converts error parameters []).map fun r => (values.map .given ++ r.1, r.2)
  | _ :: _, [] => .error error
  | (_, p) :: parameters, value :: values =>
    if converts value p.hint then
      (consume converts error parameters values).map fun r =>
        (.structured value p.hint :: r.1, r.2)
    else .error .structuring

/-- `issubclass(ptype, LanguageServer)` raises where the hint is no class. -/
def isServer [LE C] [DecidableLE C] (languageServer : C) :
    TypeHint C → Except ArgumentsError Bool
  | .cls c => .ok (c ≤ languageServer)
  | .special _ => .error .notClass

/-- Whether the first parameter is passed over, as the one the server has been injected for. -/
def foundLs [LE C] [DecidableLE C] (languageServer : C) (f : Function C) :
    Except ArgumentsError Bool :=
  if f.hintsResolve then
    match f.signature.parameters with
    | [] => .ok false
    | p :: _ =>
      if p.2.name = paramLs then .ok true
      else
        match p.2.hint with
        | none => .ok false
        | some ptype => isServer languageServer ptype
  else .error .typeHints

/-- `f` is the function of the handler, its `func` where it is a wrapper. -/
def prepareCommandArguments [LE C] [DecidableLE C] (converts : V → Option (TypeHint C) → Bool)
    (languageServer : C) (f : Function C) (arguments : Option (List V)) :
    Except ArgumentsError (List (Argument C V)) :=
  match arguments with
  | none => .ok []
  | some values =>
    match foundLs languageServer f with
    | .error e => .error e
    | .ok found =>
      let parameters := f.signature.parameters.drop found.toNat
      let error := .expected parameters.length values.length
      match consume converts error parameters values with
      | .error e => .error e
      | .ok (args, []) => .ok args
      | .ok (_, _ :: _) => .error error

/-- Python's rule for a call with `n` positional arguments and no keyword arguments. -/
def CanBind (sig : Signature C) (n : Nat) : Prop :=
  (n ≤ sig.positional.length ∨ sig.varPositional ≠ none) ∧
    (∀ i p, n ≤ i → sig.positional[i]? = some p → p.hasDefault = true) ∧
    ∀ p ∈ sig.keywordOnly, p.hasDefault = true

/-- The values in order, each structured for the parameter at its place, the rest unchanged. -/
def handOut : List (Parameter C) → List V → List (Argument C V)
  | [], values => values.map .given
  | _ :: _, [] => []
  | p :: parameters, value :: values => .structured value p.hint :: handOut parameters values

/-- The loop takes this many values for a signature: one for every parameter, or, with `*args`,
any number from that of the positional parameters on, if nothing comes behind `*args`. -/
def Accepts (sig : Signature C) (n : Nat) : Prop :=
  match sig.varPositional with
  | some _ => sig.positional.length ≤ n ∧ sig.keywordOnly = [] ∧ sig.varKeyword = none
  | none => n = sig.parameters.length

/-- The parameters that the loop takes a value for. -/
def named (sig : Signature C) : List (Parameter C) :=
  match sig.varPositional with
  | some _ => sig.positional
  | none => sig.positional ++ sig.keywordOnly ++ sig.varKeyword.toList

/-- A signature without its first parameter. -/
def rest (sig : Signature C) : Signature C :=
  match sig.positional, sig.varPositional, sig.keywordOnly with
  | _ :: positional, _, _ => { sig with positional := positional }
  | [], some _, _ => { sig with varPositional := none }
  | [], none, _ :: keywordOnly => { sig with keywordOnly := keywordOnly }
  | [], none, [] => { sig with varKeyword := none }

theorem parameters_rest (sig : Signature C) : (rest sig).parameters = sig.parameters.drop 1 := by
  obtain ⟨_ | ⟨p, positional⟩, _ | varPositional, _ | ⟨k, keywordOnly⟩, _ | varKeyword⟩ := sig
  all_goals rfl

theorem handOut_getElem? (parameters : List (Parameter C)) (values : List V) (i : Nat) :
    (handOut parameters values)[i]? = values[i]?.map fun value =>
      (parameters[i]?).elim (.given value) fun p => .structured value p.hint := by
  induction parameters generalizing values i with
  | nil =>
    rw [handOut, List.getElem?_map]
    rfl
  | cons p parameters ih =>
    cases values with
    | nil => rfl
    | cons value values =>
      cases i with
      | zero => rfl
      | succ i => exact ih values i

/-- Handing out fixes the hint used at every place that has a value. -/
theorem handOut_eq_iff (parameters parameters' : List (Parameter C)) (values : List V) :
    handOut parameters values = handOut parameters' values ↔
      ∀ i < values.length, (parameters[i]?).map Parameter.hint =
        (parameters'[i]?).map Parameter.hint := by
  constructor
  · intro h i hi
    have heq : (handOut parameters values)[i]? = (handOut parameters' values)[i]? := by rw [h]
    rw [handOut_getElem?, handOut_getElem?, List.getElem?_eq_getElem hi, Option.map_some,
      Option.map_some, Option.some.injEq] at heq
    cases hp : parameters[i]? with
    | none =>
      cases hp' : parameters'[i]? with
      | none => rfl
      | some p' =>
        rw [hp, hp'] at heq
        cases heq
    | some p =>
      cases hp' : parameters'[i]? with
      | none =>
        rw [hp, hp'] at heq
        cases heq
      | some p' =>
        rw [hp, hp', Option.elim_some, Option.elim_some, Argument.structured.injEq] at heq
        rw [Option.map_some, Option.map_some, heq.2]
  · intro h
    refine List.ext_getElem? fun i => ?_
    rw [handOut_getElem?, handOut_getElem?]
    cases hvalue : values[i]? with
    | none => rfl
    | some value =>
      have hi := h i (List.getElem?_eq_some_iff.mp hvalue).1
      cases hp : parameters[i]? with
      | none =>
        rw [hp, Option.map_none] at hi
        rw [Option.map_eq_none_iff.mp hi.symm]
      | some p =>
        rw [hp, Option.map_some] at hi
        obtain ⟨p', hp', hhint⟩ := Option.map_eq_some_iff.mp hi.symm
        rw [hp', Option.map_some, Option.map_some, Option.elim_some, Option.elim_some, hhint]

/-- A parameter that is not `*args` takes one value. -/
theorem consume_cons (converts : V → Option (TypeHint C) → Bool) (error : ArgumentsError)
    {p : ParameterKind × Parameter C} (h : p.1 ≠ .varPositional)
    (parameters : List (ParameterKind × Parameter C)) (value : V) (values : List V) :
    consume converts error (p :: parameters) (value :: values) =
      if converts value p.2.hint then
        (consume converts error parameters values).map fun r =>
          (.structured value p.2.hint :: r.1, r.2)
      else .error .structuring := by
  obtain ⟨kind, p⟩ := p
  cases kind with
  | varPositional => exact absurd rfl h
  | positional => rfl
  | keywordOnly => rfl
  | varKeyword => rfl

theorem consume_cons_nil (converts : V → Option (TypeHint C) → Bool) (error : ArgumentsError)
    {p : ParameterKind × Parameter C} (h : p.1 ≠ .varPositional)
    (parameters : List (ParameterKind × Parameter C)) :
    consume converts error (p :: parameters) [] = .error error := by
  obtain ⟨kind, p⟩ := p
  cases kind with
  | varPositional => exact absurd rfl h
  | positional => rfl
  | keywordOnly => rfl
  | varKeyword => rfl

/-- A loop without `*args` that goes through has appended a value for every parameter. -/
theorem consume_length {converts : V → Option (TypeHint C) → Bool} {error : ArgumentsError}
    {parameters : List (ParameterKind × Parameter C)} (h : ∀ p ∈ parameters, p.1 ≠ .varPositional)
    {values : List V} {r : List (Argument C V) × List V}
    (hr : consume converts error parameters values = .ok r) :
    r.1.length = parameters.length := by
  induction parameters generalizing values r with
  | nil =>
    cases hr
    rfl
  | cons p parameters ih =>
    obtain ⟨hp, hparameters⟩ := List.forall_mem_cons.mp h
    cases values with
    | nil =>
      rw [consume_cons_nil converts error hp] at hr
      cases hr
    | cons value values =>
      rw [consume_cons converts error hp] at hr
      split at hr
      · cases hrest : consume converts error parameters values with
        | error e =>
          rw [hrest] at hr
          cases hr
        | ok r' =>
          rw [hrest] at hr
          cases hr
          exact congrArg Nat.succ (ih hparameters hrest)
      · cases hr

/-- Parameters that are not `*args` take one value each. -/
theorem consume_append_ok (error : ArgumentsError)
    {parameters more : List (ParameterKind × Parameter C)}
    (h : ∀ p ∈ parameters, p.1 ≠ .varPositional) {values : List V}
    (hlen : parameters.length ≤ values.length) {r : List (Argument C V) × List V}
    (hr : consume (fun _ _ => true) error more (values.drop parameters.length) = .ok r) :
    consume (fun _ _ => true) error (parameters ++ more) values =
      .ok (handOut (parameters.map Prod.snd) (values.take parameters.length) ++ r.1, r.2) := by
  induction parameters generalizing values with
  | nil => exact hr
  | cons p parameters ih =>
    obtain ⟨hp, hparameters⟩ := List.forall_mem_cons.mp h
    cases values with
    | nil => exact absurd hlen (Nat.not_succ_le_zero _)
    | cons value values =>
      rw [List.cons_append, consume_cons _ error hp, if_pos rfl,
        ih hparameters (Nat.le_of_succ_le_succ hlen) hr]
      rfl

/-- Without enough values for them, or for what comes behind them, the loop raises. -/
theorem consume_append_error (error : ArgumentsError)
    {parameters more : List (ParameterKind × Parameter C)}
    (h : ∀ p ∈ parameters, p.1 ≠ .varPositional) {values : List V}
    (herror : values.length < parameters.length ∨
      consume (fun _ _ => true) error more (values.drop parameters.length) = .error error) :
    consume (fun _ _ => true) error (parameters ++ more) values = .error error := by
  induction parameters generalizing values with
  | nil => exact herror.resolve_left (Nat.not_lt_zero _)
  | cons p parameters ih =>
    obtain ⟨hp, hparameters⟩ := List.forall_mem_cons.mp h
    cases values with
    | nil => exact consume_cons_nil _ error hp _
    | cons value values =>
      have hrest : consume (fun _ _ => true) error (parameters ++ more) values = .error error :=
        ih hparameters (herror.imp_left Nat.lt_of_succ_lt_succ)
      rw [List.cons_append, consume_cons _ error hp, if_pos rfl, hrest]
      rfl

theorem handOut_split (parameters : List (Parameter C)) (values : List V)
    (hlen : parameters.length ≤ values.length) :
    handOut parameters (values.take parameters.length) ++
      (values.drop parameters.length).map .given = handOut parameters values := by
  induction parameters generalizing values with
  | nil => rfl
  | cons p parameters ih =>
    cases values with
    | nil => exact absurd hlen (Nat.not_succ_le_zero _)
    | cons value values =>
      exact congrArg _ (ih values (Nat.le_of_succ_le_succ hlen))

theorem ne_varPositional_of_mem_map (kind : ParameterKind) (h : kind ≠ .varPositional)
    (parameters : List (Parameter C)) :
    ∀ p ∈ parameters.map (kind, ·), p.1 ≠ .varPositional := by
  intro p hp
  obtain ⟨q, -, rfl⟩ := List.mem_map.mp hp
  exact h

/-- Without `*args` the loop takes as many values as there are parameters. -/
theorem consume_fixed (error : ArgumentsError) {parameters : List (ParameterKind × Parameter C)}
    (h : ∀ p ∈ parameters, p.1 ≠ .varPositional) (values : List V) :
    (values.length = parameters.length → consume (fun _ _ => true) error parameters values =
      .ok (handOut (parameters.map Prod.snd) values, [])) ∧
    (values.length ≠ parameters.length →
      consume (fun _ _ => true) error parameters values = .error error ∨
        ∃ args value left, consume (fun _ _ => true) error parameters values =
          .ok (args, value :: left)) := by
  rw [← List.append_nil parameters]
  constructor
  · intro hlen
    rw [List.append_nil] at hlen
    have hle := Nat.le_of_eq hlen
    rw [consume_append_ok error h (Nat.le_of_eq hlen.symm) rfl, List.append_nil, List.append_nil,
      List.take_of_length_le hle, List.drop_of_length_le hle]
  · intro hne
    rw [List.append_nil] at hne
    rcases Nat.lt_or_gt_of_ne hne with hlt | hgt
    · exact .inl (consume_append_error error h (.inl hlt))
    · right
      rw [consume_append_ok error h (Nat.le_of_lt hgt) rfl]
      cases hdrop : values.drop parameters.length with
      | nil => exact absurd (List.drop_eq_nil_iff.mp hdrop) (Nat.not_le.mpr hgt)
      | cons value left => exact ⟨_, value, left, rfl⟩

/-- With `*args` it takes all values, and has none for what comes behind. -/
theorem consume_var (error : ArgumentsError) {front back : List (ParameterKind × Parameter C)}
    (hfront : ∀ p ∈ front, p.1 ≠ .varPositional) (hback : ∀ p ∈ back, p.1 ≠ .varPositional)
    (v : Parameter C) (values : List V) :
    (front.length ≤ values.length → back = [] →
      consume (fun _ _ => true) error (front ++ (.varPositional, v) :: back) values =
        .ok (handOut (front.map Prod.snd) values, [])) ∧
    (values.length < front.length ∨ back ≠ [] →
      consume (fun _ _ => true) error (front ++ (.varPositional, v) :: back) values =
        .error error) := by
  constructor
  · rintro hlen rfl
    rw [consume_append_ok error hfront hlen rfl]
    dsimp only
    have hsplit := handOut_split (front.map Prod.snd) values (by rwa [List.length_map])
    rw [List.length_map] at hsplit
    rw [List.append_nil, hsplit]
  · intro h
    refine consume_append_error error hfront (h.imp_right fun hne => ?_)
    cases back with
    | nil => exact absurd rfl hne
    | cons p back =>
      have hp := (List.forall_mem_cons.mp hback).1
      rw [consume, consume_cons_nil _ error hp]
      rfl

/-- The parameters behind `*args`. -/
def behind (sig : Signature C) : List (ParameterKind × Parameter C) :=
  sig.keywordOnly.map (.keywordOnly, ·) ++ sig.varKeyword.toList.map (.varKeyword, ·)

theorem parameters_split (sig : Signature C) :
    sig.parameters = sig.positional.map (.positional, ·) ++
      (sig.varPositional.toList.map (.varPositional, ·) ++ behind sig) := by
  simp [Signature.parameters, behind]

theorem behind_ne_varPositional (sig : Signature C) :
    ∀ p ∈ behind sig, p.1 ≠ .varPositional := by
  intro p hp
  rcases List.mem_append.mp hp with hp | hp
  · exact ne_varPositional_of_mem_map .keywordOnly nofun sig.keywordOnly p hp
  · exact ne_varPositional_of_mem_map .varKeyword nofun sig.varKeyword.toList p hp

theorem behind_eq_nil_iff (sig : Signature C) :
    behind sig = [] ↔ sig.keywordOnly = [] ∧ sig.varKeyword = none := by
  simp [behind]

/-- What the loop over a whole signature comes to. -/
theorem consume_parameters (error : ArgumentsError) (sig : Signature C) (values : List V) :
    (Accepts sig values.length →
      consume (fun _ _ => true) error sig.parameters values =
        .ok (handOut (named sig) values, [])) ∧
    (¬ Accepts sig values.length →
      consume (fun _ _ => true) error sig.parameters values = .error error ∨
        ∃ args value left, consume (fun _ _ => true) error sig.parameters values =
          .ok (args, value :: left)) := by
  have hfront := ne_varPositional_of_mem_map .positional nofun sig.positional
  have hback := behind_ne_varPositional sig
  rw [parameters_split]
  unfold Accepts named
  cases hv : sig.varPositional with
  | some v =>
    obtain ⟨hok, herror⟩ := consume_var error hfront hback v values
    have hparameters : (sig.positional.map (ParameterKind.positional, ·)).map Prod.snd =
        sig.positional := by
      rw [List.map_map]
      exact List.map_id sig.positional
    rw [List.length_map, hparameters, behind_eq_nil_iff] at hok
    rw [List.length_map, Ne, behind_eq_nil_iff] at herror
    constructor
    · rintro ⟨hlen, hlast⟩
      exact hok hlen hlast
    · intro hnot
      refine .inl (herror ?_)
      by_contra hboth
      obtain ⟨hlen, hlast⟩ := not_or.mp hboth
      exact hnot ⟨Nat.not_lt.mp hlen, not_not.mp hlast⟩
  | none =>
    have hall : ∀ p ∈ sig.positional.map (ParameterKind.positional, ·) ++ behind sig,
        p.1 ≠ .varPositional :=
      fun p hp => (List.mem_append.mp hp).elim (hfront p) (hback p)
    have hparameters : sig.parameters =
        sig.positional.map (ParameterKind.positional, ·) ++ behind sig := by
      rw [parameters_split, hv]
      rfl
    have hnamed : (sig.positional.map (ParameterKind.positional, ·) ++ behind sig).map Prod.snd =
        sig.positional ++ sig.keywordOnly ++ sig.varKeyword.toList := by
      simp [behind, Function.comp_def]
    dsimp only
    rw [hparameters, ← hnamed]
    exact consume_fixed error hall values

/-- A signature and a number of arguments for which the loop agrees with Python: no default is
needed, and there is no parameter behind the positional ones, or too few or too many values to
fill it. -/
def Filled (sig : Signature C) (n : Nat) : Prop :=
  (CanBind sig n → sig.positional.length ≤ n ∧ sig.keywordOnly = [] ∧ sig.varKeyword = none) ∧
    (sig.varPositional = none → sig.keywordOnly ≠ [] ∨ sig.varKeyword ≠ none →
      n ≠ sig.parameters.length)

/-- The loop over `sig'` takes the numbers of values that Python binds to `sig`, and structures each
of them with the same hint. -/
def Alike (sig sig' : Signature C) (n : Nat) : Prop :=
  (CanBind sig n ↔ Accepts sig' n) ∧
    (Accepts sig' n → ∀ i < n, ((named sig')[i]?).map Parameter.hint =
      (sig.positional[i]?).map Parameter.hint)

theorem length_parameters (sig : Signature C) :
    sig.parameters.length = sig.positional.length + sig.varPositional.toList.length +
      sig.keywordOnly.length + sig.varKeyword.toList.length := by
  simp [Signature.parameters, Nat.add_assoc]

theorem named_eq_positional {sig : Signature C} (hkw : sig.keywordOnly = [])
    (hvk : sig.varKeyword = none) : named sig = sig.positional := by
  unfold named
  split
  · rfl
  · rw [hkw, hvk, List.append_nil]
    exact List.append_nil _

/-- Without parameters behind the positional ones, Python binds what the loop accepts. -/
theorem canBind_of_accepts {sig : Signature C} {n : Nat} (hkw : sig.keywordOnly = [])
    (hvk : sig.varKeyword = none) (h : Accepts sig n) : CanBind sig n := by
  have hcount : sig.positional.length ≤ n ∧
      (n ≤ sig.positional.length ∨ sig.varPositional ≠ none) := by
    unfold Accepts at h
    split at h
    · rename_i v hv
      rw [hv]
      exact ⟨h.1, .inr nofun⟩
    · rename_i hv
      rw [length_parameters, hv, hkw, hvk] at h
      exact ⟨Nat.le_of_eq h.symm, .inl (Nat.le_of_eq h)⟩
  refine ⟨hcount.2, ?_, ?_⟩
  · intro i p hi hp
    have hlt := (List.getElem?_eq_some_iff.mp hp).1
    exact absurd hlt (by omega)
  · intro p hp
    rw [hkw] at hp
    cases hp

theorem behind_pos {sig : Signature C} (h : sig.keywordOnly ≠ [] ∨ sig.varKeyword ≠ none) :
    0 < sig.keywordOnly.length + sig.varKeyword.toList.length := by
  rcases h with hkw | hvk
  · have hpos := List.length_pos_iff.mpr hkw
    omega
  · obtain ⟨p, hp⟩ := Option.ne_none_iff_exists'.mp hvk
    rw [hp, Option.toList_some, List.length_singleton]
    omega

theorem alike_of_filled {sig : Signature C} {n : Nat} (h : Filled sig n) : Alike sig sig n := by
  obtain ⟨hneeds, hcount⟩ := h
  have hplain : Accepts sig n → sig.keywordOnly = [] ∧ sig.varKeyword = none := by
    intro haccepts
    unfold Accepts at haccepts
    split at haccepts
    · exact haccepts.2
    · rename_i hv
      by_contra hnot
      exact hcount hv (Classical.not_and_iff_not_or_not.mp hnot) haccepts
  refine ⟨⟨?_, ?_⟩, ?_⟩
  · intro hbind
    obtain ⟨hle, hkw, hvk⟩ := hneeds hbind
    unfold Accepts
    split
    · exact ⟨hle, hkw, hvk⟩
    · rename_i hv
      have hge := hbind.1.resolve_right fun hne => hne hv
      rw [length_parameters, hv, hkw, hvk]
      exact Nat.le_antisymm hge hle
  · intro haccepts
    obtain ⟨hkw, hvk⟩ := hplain haccepts
    exact canBind_of_accepts hkw hvk haccepts
  · intro haccepts i _
    obtain ⟨hkw, hvk⟩ := hplain haccepts
    rw [named_eq_positional hkw hvk]

theorem filled_of_alike {sig : Signature C} {n : Nat} (h : Alike sig sig n) : Filled sig n := by
  have hlen := length_parameters sig
  refine ⟨?_, ?_⟩
  · intro hbind
    have haccepts := h.1.mp hbind
    unfold Accepts at haccepts
    split at haccepts
    · exact haccepts
    · rename_i hv
      have hge := hbind.1.resolve_right fun hne => hne hv
      rw [hv, Option.toList_none, List.length_nil] at hlen
      have hnone : ¬ (sig.keywordOnly ≠ [] ∨ sig.varKeyword ≠ none) := by
        intro hbehind
        have hpos := behind_pos hbehind
        omega
      obtain ⟨hkw, hvk⟩ := not_or.mp hnone
      exact ⟨by omega, not_not.mp hkw, not_not.mp hvk⟩
  · intro hv hbehind hn
    have hpos := behind_pos hbehind
    have haccepts : Accepts sig n := by
      rw [Accepts, hv]
      exact hn
    have hge := (h.1.mpr haccepts).1.resolve_right fun hne => hne hv
    omega

theorem filled_iff (sig : Signature C) (n : Nat) : Filled sig n ↔ Alike sig sig n :=
  ⟨alike_of_filled, filled_of_alike⟩

/-- The signature that the values are handed out to. -/
def served (f : Function C) (found : Bool) : Signature C :=
  if found then rest f.signature else f.signature

theorem parameters_served (f : Function C) (found : Bool) :
    (served f found).parameters = f.signature.parameters.drop found.toNat := by
  cases found with
  | false => rfl
  | true => exact parameters_rest f.signature

variable [LE C] [DecidableLE C]

/-- The whole function, where every value can be structured. -/
theorem prepareCommandArguments_found {languageServer : C} {f : Function C} {found : Bool}
    (h : foundLs languageServer f = .ok found) (values : List V) :
    let r := prepareCommandArguments (fun _ _ => true) languageServer f (some values)
    (Accepts (served f found) values.length → r = .ok (handOut (named (served f found)) values)) ∧
      (¬ Accepts (served f found) values.length → ∃ e, r = .error e) := by
  intro r
  have hr : r = match consume (fun _ _ => true)
      (.expected (served f found).parameters.length values.length)
      (served f found).parameters values with
    | .error e => .error e
    | .ok (args, []) => .ok args
    | .ok (_, _ :: _) => .error (.expected (served f found).parameters.length values.length) := by
    rw [parameters_served]
    dsimp only [r]
    rw [prepareCommandArguments, h]
  obtain ⟨hok, herror⟩ := consume_parameters
    (.expected (served f found).parameters.length values.length) (served f found) values
  constructor
  · intro haccepts
    rw [hr, hok haccepts]
  · intro hnot
    rcases herror hnot with hconsume | ⟨args, value, left, hconsume⟩
    · rw [hr, hconsume]
      exact ⟨_, rfl⟩
    · rw [hr, hconsume]
      exact ⟨_, rfl⟩

/-- The values are accepted just if Python can bind as many, and each is handed to the parameter
that it binds to. -/
def Binds (languageServer : C) (f : Function C) (values : List V) : Prop :=
  let r := prepareCommandArguments (fun _ _ => true) languageServer f (some values)
  (CanBind f.signature values.length → r = .ok (handOut f.signature.positional values)) ∧
    (¬ CanBind f.signature values.length → ∃ e, r = .error e)

def Suits (languageServer : C) (f : Function C) (n : Nat) : Prop :=
  match foundLs languageServer f with
  | .error _ => ¬ CanBind f.signature n
  | .ok false => Filled f.signature n
  | .ok true => Alike f.signature (rest f.signature) n

/-- The loop over the signature it is served with binds as the function's own does. -/
theorem binds_iff_alike {languageServer : C} {f : Function C} {found : Bool}
    (h : foundLs languageServer f = .ok found) (values : List V) :
    Binds languageServer f values ↔ Alike f.signature (served f found) values.length := by
  obtain ⟨hok, herror⟩ := prepareCommandArguments_found h values
  constructor
  · rintro ⟨hbind, hraise⟩
    have hiff : CanBind f.signature values.length ↔ Accepts (served f found) values.length := by
      constructor
      · intro hcan
        by_contra hnot
        obtain ⟨e, he⟩ := herror hnot
        rw [hbind hcan] at he
        cases he
      · intro haccepts
        by_contra hnot
        obtain ⟨e, he⟩ := hraise hnot
        rw [hok haccepts] at he
        cases he
    refine ⟨hiff, fun haccepts => ?_⟩
    have heq := (hok haccepts).symm.trans (hbind (hiff.mpr haccepts))
    exact (handOut_eq_iff _ _ values).mp (Except.ok.inj heq)
  · rintro ⟨hiff, hsame⟩
    refine ⟨fun hcan => ?_, fun hnot => herror (mt hiff.mpr hnot)⟩
    have haccepts := hiff.mp hcan
    rw [hok haccepts, (handOut_eq_iff _ _ values).mpr (hsame haccepts)]

/-- `_prepare_command_arguments` accepts a list of values just if Python can bind them, and hands
each to its parameter, just if the signature needs no default and ends with its positional
parameters, up to the cases that `Suits` tells. -/
theorem arguments_bind_iff (languageServer : C) (f : Function C) (values : List V) :
    Binds languageServer f values ↔ Suits languageServer f values.length := by
  unfold Suits
  cases hfound : foundLs languageServer f with
  | error e =>
    have hr : prepareCommandArguments (fun _ _ => true) languageServer f (some values) =
        .error e := by
      rw [prepareCommandArguments, hfound]
    unfold Binds
    rw [hr]
    constructor
    · rintro ⟨hbind, -⟩ hcan
      cases hbind hcan
    · intro hnot
      exact ⟨fun hcan => absurd hcan hnot, fun _ => ⟨e, rfl⟩⟩
  | ok found =>
    rw [binds_iff_alike hfound]
    cases found with
    | false => exact (filled_iff f.signature values.length).symm
    | true => exact Iff.rfl

/-- A command with a default: Python can call it with one value, the loop asks for two. -/
theorem default_not_used :
    let f := sampleFunction [⟨[0x78], false, none⟩, ⟨[0x79], true, none⟩]
    hasLsParamOrAnnotation f 0 = false ∧ ¬ Binds 0 f [()] := by
  intro f
  refine ⟨by decide, ?_⟩
  rintro ⟨hbind, -⟩
  have hcan : CanBind f.signature 1 := by
    refine ⟨.inl (by decide), ?_, nofun⟩
    intro i p hi hp
    match i, hi with
    | 1, _ =>
      cases hp
      rfl
    | i + 2, _ => cases hp
  cases hbind hcan

/-- The class lies between the server's and `LanguageServer`, or it is neither above the one nor
below the other. -/
def Fits (serverType languageServer : C) : TypeHint C → Prop
  | .cls c => (serverType ≤ c ∧ c ≤ languageServer) ∨ (¬ serverType ≤ c ∧ ¬ c ≤ languageServer)
  | .special covers => covers serverType = false

/-- The decorator and the execution of a command treat its first parameter alike. -/
def FirstAlike (serverType languageServer : C) (f : Function C) (p : Parameter C) : Prop :=
  if p.name = paramLs then f.hintsResolve = true
  else f.hintsResolve = true → ∀ ptype, p.hint = some ptype →
    Fits serverType languageServer ptype

theorem found_iff_injected (serverType languageServer : C) {f : Function C}
    {kind : ParameterKind} {p : Parameter C} {more : List (ParameterKind × Parameter C)}
    (hp : f.signature.parameters = (kind, p) :: more) :
    (foundLs languageServer f = .ok true ↔ hasLsParamOrAnnotation f serverType = true) ↔
      FirstAlike serverType languageServer f p := by
  unfold foundLs hasLsParamOrAnnotation FirstAlike
  rw [hp]
  dsimp only
  by_cases hname : p.name = paramLs
  · rw [if_pos hname, if_pos hname, if_pos hname]
    cases f.hintsResolve with
    | false =>
      constructor
      · intro h
        cases h.mpr rfl
      · intro h
        cases h
    | true => exact iff_of_true (iff_of_true rfl rfl) rfl
  · rw [if_neg hname, if_neg hname, if_neg hname]
    cases f.hintsResolve with
    | false =>
      refine iff_of_true (iff_of_false ?_ ?_) ?_
      · intro h
        cases h
      · intro h
        cases h
      · intro h
        cases h
    | true =>
      rw [if_pos rfl, Bool.true_and]
      cases hhint : p.hint with
      | none =>
        refine iff_of_true (iff_of_false ?_ ?_) ?_
        · intro h
          cases h
        · intro h
          cases h
        · intro _ _ h
          cases h
      | some ptype =>
        have hfits : (∀ ptype', some ptype = some ptype' →
            Fits serverType languageServer ptype') ↔ Fits serverType languageServer ptype :=
          ⟨fun h => h ptype rfl, fun h ptype' heq => Option.some.inj heq ▸ h⟩
        rw [hfits, forall_prop_of_true rfl]
        cases ptype with
        | cls c =>
          have hfound : isServer languageServer (.cls c) = .ok true ↔ c ≤ languageServer := by
            rw [isServer, Except.ok.injEq, decide_eq_true_eq]
          have habove : (some (TypeHint.cls c)).any (TypeHint.above serverType) = true ↔
              serverType ≤ c := by
            rw [Option.any_some, TypeHint.above, decide_eq_true_eq]
          rw [hfound, habove, Fits]
          by_cases hc : c ≤ languageServer
          · simp only [hc, true_iff, and_true, not_true_eq_false, and_false, or_false]
          · simp only [hc, false_iff, and_false, not_false_eq_true, and_true, false_or]
        | special covers =>
          rw [Option.any_some, TypeHint.above, Fits, ← Bool.not_eq_true]
          constructor
          · intro h hcovers
            cases h.mpr hcovers
          · intro h
            refine iff_of_false ?_ h
            intro hok
            cases hok

theorem hasLsParamOrAnnotation_nil {f : Function C} (h : f.signature.parameters = [])
    (serverType : C) : hasLsParamOrAnnotation f serverType = false := by
  unfold hasLsParamOrAnnotation
  rw [h]

theorem foundLs_nil {f : Function C} (h : f.signature.parameters = []) (languageServer : C) :
    foundLs languageServer f ≠ .ok true := by
  unfold foundLs
  rw [h]
  split
  · nofun
  · nofun

/-- A function of positional parameters gets an argument for each that is not passed over. -/
theorem prepareCommandArguments_length {languageServer : C} {f : Function C} {found : Bool}
    (hfound : foundLs languageServer f = .ok found)
    (hpositional : ∀ p ∈ f.signature.parameters, p.1 = .positional)
    {converts : V → Option (TypeHint C) → Bool} {values : List V} {args : List (Argument C V)}
    (hargs : prepareCommandArguments converts languageServer f (some values) = .ok args) :
    found.toNat + args.length = f.signature.parameters.length := by
  have hlength : args.length = (f.signature.parameters.drop found.toNat).length := by
    rw [prepareCommandArguments, hfound] at hargs
    dsimp only at hargs
    split at hargs
    · cases hargs
    · rename_i heq
      cases hargs
      refine consume_length ?_ heq
      intro p hp hvar
      rw [hpositional p (List.mem_of_mem_drop hp)] at hvar
      cases hvar
    · cases hargs
  rw [hlength, List.length_drop]
  cases found with
  | false => exact Nat.zero_add _
  | true =>
    have hpos : 0 < f.signature.parameters.length := by
      rw [List.length_pos_iff]
      intro hnil
      exact foundLs_nil hnil languageServer hfound
    rw [Bool.toNat_true]
    omega

/-- The execution of a command leaves its first parameter out just if the decorator has injected
the server for it, just if the parameter's class fits; then a function of positional parameters
is called with one argument for each. -/
theorem server_injection_agrees_iff (serverType languageServer : C) (f : Function C) :
    ((foundLs languageServer f = .ok true ↔ hasLsParamOrAnnotation f serverType = true) ↔
      ∀ kind p more, f.signature.parameters = (kind, p) :: more →
        FirstAlike serverType languageServer f p) ∧
    ((foundLs languageServer f = .ok true ↔ hasLsParamOrAnnotation f serverType = true) →
      (∀ p ∈ f.signature.parameters, p.1 = .positional) →
        ∀ (converts : V → Option (TypeHint C) → Bool) (values : List V)
          (args : List (Argument C V)),
          prepareCommandArguments converts languageServer f (some values) = .ok args →
            args.length + (if hasLsParamOrAnnotation f serverType then 1 else 0) =
              f.signature.parameters.length) := by
  constructor
  · cases hparameters : f.signature.parameters with
    | nil =>
      refine iff_of_true ?_ nofun
      rw [hasLsParamOrAnnotation_nil hparameters]
      exact iff_of_false (foundLs_nil hparameters languageServer) nofun
    | cons first more =>
      obtain ⟨kind, p⟩ := first
      rw [found_iff_injected serverType languageServer hparameters]
      constructor
      · rintro h _ _ _ ⟨⟩
        exact h
      · intro h
        exact h kind p more rfl
  · intro hagree hpositional converts values args hargs
    cases hfound : foundLs languageServer f with
    | error e =>
      rw [prepareCommandArguments, hfound] at hargs
      cases hargs
    | ok found =>
      have hinjected : hasLsParamOrAnnotation f serverType = found := by
        rw [hfound] at hagree
        rw [Bool.eq_iff_iff, ← hagree, Except.ok.injEq]
      have hlength := prepareCommandArguments_length hfound hpositional hargs
      rw [hinjected, ← hlength, Nat.add_comm]
      cases found <;> rfl

/-- A first parameter of a base class of `LanguageServer`: the decorator injects the server, and
the execution of the command asks for a value too many. -/
theorem base_class_not_left_out :
    let f := sampleFunction [⟨[0x73], false, some (.cls 2)⟩]
    hasLsParamOrAnnotation f 1 = true ∧ foundLs 1 f = .ok false ∧
      prepareCommandArguments (fun _ _ => true) 1 f (some []) =
        (.error (.expected 1 0) : Except ArgumentsError (List (Argument Nat Unit))) ∧
      prepareCommandArguments (fun _ _ => true) 1 f (some [()]) =
        .ok [.structured () (some (.cls 2))] := by
  refine ⟨by decide, rfl, rfl, rfl⟩

end Pygls.CommandArguments
