import Pygls.Features

/-!
# Stacks of decorators

One function under any number of registrations, with `thread()` somewhere among
them. A function that gets the server injected has a wrapper of its own for each
registration; the mark of a thread is on the function, or on the wrapper that
was registered last.
-/

namespace Pygls.Features

open Lib

set_option autoImplicit false

variable {C O T : Type}

inductive Decorator (O : Type) where
  | command (name : Str)
  | feature (name : Str) (options : O)

namespace Decorator

def name : Decorator O → Str
  | .command name => name
  | .feature name _ => name

def regType : Decorator O → RegisteredType
  | .command _ => .command
  | .feature _ _ => .feature

def on (f : Function C) : Decorator O → Registration C O
  | .command name => .command (some name) f
  | .feature name options => .feature (some name) options f

end Decorator

namespace FeatureManager

def mark (m : FeatureManager C O) (object : ObjectId) : Bool :=
  (m.attributes object).executeInThread

theorem mark_setAttributes (m : FeatureManager C O) (object : ObjectId) (attributes : Attributes)
    (o : ObjectId) : (m.setAttributes object attributes).mark o =
      if o = object then attributes.executeInThread else m.mark o := by
  unfold mark setAttributes
  dsimp only
  split
  · rfl
  · rfl

theorem mark_assignHelpAttrs (m : FeatureManager C O) (object : ObjectId) (name : Str)
    (regType : RegisteredType) (o : ObjectId) :
    (m.assignHelpAttrs object name regType).mark o = m.mark o := by
  rw [assignHelpAttrs, mark_setAttributes]
  split
  · rename_i h
    rw [h]
    rfl
  · rfl

theorem names_assignHelpAttrs (m : FeatureManager C O) (object o : ObjectId) (name : Str)
    (regType : RegisteredType)
    (h : o = object ∨
      (m.attributes o).regName = some name ∧ (m.attributes o).regType = some regType) :
    ((m.assignHelpAttrs object name regType).attributes o).regName = some name ∧
      ((m.assignHelpAttrs object name regType).attributes o).regType = some regType := by
  unfold assignHelpAttrs setAttributes
  dsimp only
  split
  · exact ⟨rfl, rfl⟩
  · rename_i hne
    exact h.resolve_left hne

/-- The function's attributes name a registration. -/
def Names (m : FeatureManager C O) (f : Function C) (d : Decorator O) : Prop :=
  (m.attributes (.function f.id)).regName = some d.name ∧
    (m.attributes (.function f.id)).regType = some d.regType

/-- Every handler of these registrations executes in a thread. -/
def AllThreaded (m : FeatureManager C O) (ds : List (Decorator O)) : Prop :=
  ∀ d ∈ ds, ∃ handler, m.registered d.regType d.name = some handler ∧
    m.isThreadFunction handler = true

variable {types : OptionTypes O T} {f : Function C} {m m' : FeatureManager C O} {d : Decorator O}

theorem mark_assignThreadAttr (m : FeatureManager C O) (object o : ObjectId) :
    (m.assignThreadAttr object).mark o = if o = object then true else m.mark o :=
  mark_setAttributes m object _ o

/-- On a function that was never registered `thread()` marks the function. -/
theorem thread_fresh (hf : f.coroutine = false)
    (hfresh : m.attributes (.function f.id) = ⟨none, none, false⟩) :
    m.thread f = (m.assignThreadAttr (.function f.id), none) := by
  rw [thread, if_neg (by rw [hf]; exact Bool.false_ne_true), hfresh]

/-- On any other it marks the handler of the last registration. -/
theorem thread_registered (hf : f.coroutine = false) (hnames : m.Names f d) {handler : Handler C}
    (h : m.registered d.regType d.name = some handler) :
    m.thread f = (m.assignThreadAttr handler.objectId, none) := by
  rw [thread, if_neg (by rw [hf]; exact Bool.false_ne_true), hnames.1, hnames.2]
  dsimp only
  rw [h]

theorem not_allThreaded {ds : List (Decorator O)} {handler : Handler C} (hd : d ∈ ds)
    (hregistered : m.registered d.regType d.name = some handler)
    (hmark : m.mark handler.objectId = false) : ¬ m.AllThreaded ds := by
  intro hthreaded
  obtain ⟨handler', heq, hthread⟩ := hthreaded d hd
  rw [hregistered] at heq
  cases heq
  exact absurd (hthread.symm.trans hmark) Bool.noConfusion

variable [LE C] [DecidableLE C]

/-- One decorator, if it accepts its name and its options. -/
def decorate (types : OptionTypes O T) (f : Function C) (m : FeatureManager C O)
    (d : Decorator O) : Option (FeatureManager C O) :=
  match m.register types (d.on f) with
  | (m, none) => some m
  | (_, some _) => none

theorem decorate_registers (h : decorate types f m d = some m') :
    m.registered d.regType d.name = none ∧ Registers m m' f d.name d.regType := by
  unfold decorate at h
  split at h
  · rename_i heq
    cases h
    cases d with
    | command name =>
      rcases command_cases m (some name) f with ⟨e, herr⟩ | ⟨n, m', hname, hfree, hok, hreg⟩
      · rw [Decorator.on, register, herr] at heq
        cases heq
      · rw [Decorator.on, register, hok] at heq
        cases heq
        cases hname
        exact ⟨hfree, hreg⟩
    | feature name options =>
      rcases feature_cases types m (some name) options f with ⟨-, e, herr⟩ |
        ⟨n, m', e, -, -, -, herr, -⟩ | ⟨n, m', hname, hfree, -, hok, hreg⟩
      · rw [Decorator.on, register, herr] at heq
        cases heq
      · rw [Decorator.on, register, herr] at heq
        cases heq
      · rw [Decorator.on, register, hok] at heq
        cases heq
        cases hname
        exact ⟨hfree, hreg⟩
  · cases h

/-- What a registration does to the attributes of its function. -/
theorem prepare_names (m : FeatureManager C O) (f : Function C) (name : Str)
    (regType : RegisteredType) :
    ((m.prepare f name regType).1.attributes (.function f.id)).regName = some name ∧
      ((m.prepare f name regType).1.attributes (.function f.id)).regType = some regType := by
  refine names_assignHelpAttrs _ _ _ name regType (.inr ?_)
  unfold wrapWithServer
  split
  · exact names_assignHelpAttrs m (.function f.id) _ name regType (.inl rfl)
  · exact names_assignHelpAttrs m (.function f.id) _ name regType (.inl rfl)

/-- A function without a server parameter is registered itself. -/
theorem prepare_function (m : FeatureManager C O) {f : Function C}
    (h : hasLsParamOrAnnotation f m.serverType = false) (name : Str) (regType : RegisteredType) :
    (m.prepare f name regType).2 = .function f ∧
      ∀ o, (m.prepare f name regType).1.mark o = m.mark o := by
  have hwrap : (m.assignHelpAttrs (.function f.id) name regType).wrapWithServer f =
      (m.assignHelpAttrs (.function f.id) name regType, .function f) :=
    if_neg (by rw [Bool.not_eq_true]; exact h)
  rw [prepare, hwrap]
  refine ⟨rfl, ?_⟩
  intro o
  rw [mark_assignHelpAttrs, mark_assignHelpAttrs]

/-- A function with one has a new wrapper registered, which takes over its mark. -/
theorem prepare_wrapper (m : FeatureManager C O) {f : Function C} (hf : f.coroutine = false)
    (h : hasLsParamOrAnnotation f m.serverType = true) (name : Str) (regType : RegisteredType) :
    (m.prepare f name regType).2 = .wrapper m.wrappers f ∧
      (m.prepare f name regType).1.wrappers = m.wrappers + 1 ∧
      ∀ o, (m.prepare f name regType).1.mark o =
        if o = .wrapper m.wrappers then m.mark (.function f.id) else m.mark o := by
  have hmark := mark_assignHelpAttrs m (.function f.id) name regType
  have hinjected : hasLsParamOrAnnotation f
      (m.assignHelpAttrs (.function f.id) name regType).serverType = true := h
  rw [prepare, wrapWithServer, if_pos hinjected]
  refine ⟨rfl, rfl, ?_⟩
  intro o
  rw [mark_assignHelpAttrs, ← hmark (.function f.id), ← hmark o]
  have hset := mark_setAttributes (m.assignHelpAttrs (.function f.id) name regType)
    (.wrapper m.wrappers) ⟨none, none, (m.assignHelpAttrs (.function f.id) name regType).mark
      (.function f.id)⟩ o
  rw [hf]
  exact hset

/-- The handlers of a function without a server parameter are the function. -/
theorem run_function (hls : hasLsParamOrAnnotation f m.serverType = false)
    {ds : List (Decorator O)} (h : run (decorate types f) m ds = some m') :
    m'.serverType = m.serverType ∧ (∀ o, m'.mark o = m.mark o) ∧
      (∀ d ∈ ds, m'.registered d.regType d.name = some (.function f)) ∧
      ∀ regType name handler, m.registered regType name = some handler →
        m'.registered regType name = some handler := by
  induction ds generalizing m with
  | nil =>
    cases h
    exact ⟨rfl, fun _ => rfl, nofun, fun _ _ _ h => h⟩
  | cons d ds ih =>
    obtain ⟨m₁, hstep, hrest⟩ := run_cons_iff.mp h
    obtain ⟨hfree, hreg⟩ := decorate_registers hstep
    obtain ⟨hhandler, hmarks⟩ := prepare_function m hls d.name d.regType
    have hls₁ : hasLsParamOrAnnotation f m₁.serverType = false := by rw [hreg.serverType, hls]
    obtain ⟨hserver, hmark, hall, holder⟩ := ih hls₁ hrest
    refine ⟨hserver.trans hreg.serverType, ?_, ?_, ?_⟩
    · intro o
      rw [hmark, mark, hreg.attributes]
      exact hmarks o
    · intro d' hd'
      rcases List.mem_cons.mp hd' with rfl | hd'
      · refine holder _ _ _ ?_
        rw [hreg.registered, if_pos ⟨rfl, rfl⟩, hhandler]
      · exact hall d' hd'
    · intro regType name handler hold
      refine holder _ _ _ ?_
      rw [hreg.registered, if_neg ?_]
      · exact hold
      · rintro ⟨rfl, rfl⟩
        rw [hfree] at hold
        cases hold

/-- The handlers of a function with a server parameter are new wrappers, marked as the function
is. -/
theorem run_wrapper (hf : f.coroutine = false)
    (hls : hasLsParamOrAnnotation f m.serverType = true)
    {ds : List (Decorator O)} (h : run (decorate types f) m ds = some m') :
    m'.serverType = m.serverType ∧ m.wrappers ≤ m'.wrappers ∧
      (∀ o, (∀ i, m.wrappers ≤ i → o ≠ .wrapper i) → m'.mark o = m.mark o) ∧
      (∀ d ∈ ds, ∃ i, m.wrappers ≤ i ∧ i < m'.wrappers ∧
        m'.registered d.regType d.name = some (.wrapper i f) ∧
        m'.mark (.wrapper i) = m.mark (.function f.id)) ∧
      ∀ regType name handler, m.registered regType name = some handler →
        m'.registered regType name = some handler := by
  induction ds generalizing m with
  | nil =>
    cases h
    exact ⟨rfl, Nat.le_refl _, fun _ _ => rfl, nofun, fun _ _ _ h => h⟩
  | cons d ds ih =>
    obtain ⟨m₁, hstep, hrest⟩ := run_cons_iff.mp h
    obtain ⟨hfree, hreg⟩ := decorate_registers hstep
    obtain ⟨hhandler, hwrappers, hmarks⟩ := prepare_wrapper m hf hls d.name d.regType
    have hmarks₁ : ∀ o, m₁.mark o =
        if o = .wrapper m.wrappers then m.mark (.function f.id) else m.mark o := by
      intro o
      rw [mark, hreg.attributes]
      exact hmarks o
    have hcount : m₁.wrappers = m.wrappers + 1 := hreg.wrappers.trans hwrappers
    have hls₁ : hasLsParamOrAnnotation f m₁.serverType = true := by rw [hreg.serverType, hls]
    have hfunction : m₁.mark (.function f.id) = m.mark (.function f.id) := by
      rw [hmarks₁, if_neg nofun]
    obtain ⟨hserver, hgrow, hmark, hall, holder⟩ := ih hls₁ hrest
    refine ⟨hserver.trans hreg.serverType, by omega, ?_, ?_, ?_⟩
    · intro o ho
      rw [hmark o fun i hi => ho i (by omega), hmarks₁, if_neg (ho m.wrappers (Nat.le_refl _))]
    · intro d' hd'
      rcases List.mem_cons.mp hd' with rfl | hd'
      · refine ⟨m.wrappers, Nat.le_refl _, by omega, ?_, ?_⟩
        · refine holder _ _ _ ?_
          rw [hreg.registered, if_pos ⟨rfl, rfl⟩, hhandler]
        · rw [hmark _ ?_, hmarks₁, if_pos rfl]
          rintro i hi ⟨⟩
          omega
      · obtain ⟨i, hi, hlt, hregistered, hthreaded⟩ := hall d' hd'
        exact ⟨i, by omega, hlt, hregistered, hthreaded.trans hfunction⟩
    · intro regType name handler hold
      refine holder _ _ _ ?_
      rw [hreg.registered, if_neg ?_]
      · exact hold
      · rintro ⟨rfl, rfl⟩
        rw [hfree] at hold
        cases hold

/-- The attributes of the function are those of its last registration. -/
theorem run_names {ds : List (Decorator O)} (h : run (decorate types f) m ds = some m')
    (hlast : ds.getLast? = some d) : m'.Names f d := by
  induction ds generalizing m with
  | nil => cases hlast
  | cons d' ds ih =>
    obtain ⟨m₁, hstep, hrest⟩ := run_cons_iff.mp h
    cases ds with
    | nil =>
      obtain rfl : d' = d := Option.some.inj hlast
      cases hrest
      obtain ⟨-, hreg⟩ := decorate_registers hstep
      rw [Names, hreg.attributes]
      exact prepare_names m f d'.name d'.regType
    | cons d'' ds => exact ih hrest hlast

theorem allThreaded_function (hf : f.coroutine = false)
    (hfresh : m.attributes (.function f.id) = ⟨none, none, false⟩)
    (hls : hasLsParamOrAnnotation f m.serverType = false) {before after : List (Decorator O)}
    {m₁ m₃ : FeatureManager C O} (hbefore : run (decorate types f) m before = some m₁)
    (hafter : run (decorate types f) (m₁.thread f).1 after = some m₃) :
    m₃.AllThreaded (before ++ after) := by
  obtain ⟨hserver, hmark, hall, -⟩ := run_function hls hbefore
  have hthread : m₁.thread f = (m₁.assignThreadAttr (.function f.id), none) := by
    cases hlast : before.getLast? with
    | none =>
      rw [List.getLast?_eq_none_iff.mp hlast] at hbefore
      cases hbefore
      exact thread_fresh hf hfresh
    | some d =>
      have hmem : d ∈ before := List.mem_of_getLast? hlast
      exact thread_registered hf (run_names hbefore hlast) (hall d hmem)
  rw [hthread] at hafter
  have hls₁ : hasLsParamOrAnnotation f (m₁.assignThreadAttr (.function f.id)).serverType =
      false := by
    change hasLsParamOrAnnotation f m₁.serverType = false
    rw [hserver, hls]
  obtain ⟨-, hmark', hall', holder⟩ := run_function hls₁ hafter
  have hmarked : m₃.mark (.function f.id) = true := by
    rw [hmark', mark_assignThreadAttr, if_pos rfl]
  intro d hd
  refine ⟨.function f, ?_, hmarked⟩
  rcases List.mem_append.mp hd with hd | hd
  · exact holder _ _ _ (hall d hd)
  · exact hall' d hd

/-- Of two or more registrations the first has an earlier wrapper than the last, and it is not
marked. -/
theorem first_wrapper (hf : f.coroutine = false)
    (hls : hasLsParamOrAnnotation f m.serverType = true)
    (hunmarked : m.mark (.function f.id) = false) {d l : Decorator O} {ds : List (Decorator O)}
    (h : run (decorate types f) m (d :: ds) = some m') (hl : l ∈ ds) {i : Nat}
    (hregistered : m'.registered l.regType l.name = some (.wrapper i f)) :
    ∃ j, j ≠ i ∧ m'.registered d.regType d.name = some (.wrapper j f) ∧
      m'.mark (.wrapper j) = false := by
  obtain ⟨m₀, hfirst, hrest⟩ := run_cons_iff.mp h
  have hsingle : run (decorate types f) m [d] = some m₀ := run_cons_iff.mpr ⟨m₀, hfirst, rfl⟩
  obtain ⟨hserver, -, -, hall, -⟩ := run_wrapper hf hls hsingle
  obtain ⟨j, -, hj, hregistered₀, hmark₀⟩ := hall d List.mem_cons_self
  have hls₀ : hasLsParamOrAnnotation f m₀.serverType = true := by rw [hserver, hls]
  obtain ⟨-, -, hmark, hall', holder⟩ := run_wrapper hf hls₀ hrest
  obtain ⟨i', hi', -, hregistered', -⟩ := hall' l hl
  rw [hregistered] at hregistered'
  cases hregistered'
  refine ⟨j, by omega, holder _ _ _ hregistered₀, ?_⟩
  rw [hmark _ ?_, hmark₀, hunmarked]
  rintro k hk ⟨⟩
  omega

/-- With `thread()` under all registrations the wrappers take over the mark of the function. -/
theorem allThreaded_below (hf : f.coroutine = false)
    (hfresh : m.attributes (.function f.id) = ⟨none, none, false⟩)
    (hls : hasLsParamOrAnnotation f m.serverType = true) {after : List (Decorator O)}
    (hafter : run (decorate types f) (m.thread f).1 after = some m') : m'.AllThreaded after := by
  rw [thread_fresh hf hfresh] at hafter
  have hls₁ : hasLsParamOrAnnotation f
    (m.assignThreadAttr (.function f.id)).serverType = true := hls
  obtain ⟨-, -, -, hall, -⟩ := run_wrapper hf hls₁ hafter
  intro d hd
  obtain ⟨i, -, -, hregistered, hmark⟩ := hall d hd
  refine ⟨_, hregistered, ?_⟩
  rw [mark_assignThreadAttr, if_pos rfl] at hmark
  exact hmark

theorem allThreaded_wrapper_iff (hf : f.coroutine = false)
    (hfresh : m.attributes (.function f.id) = ⟨none, none, false⟩)
    (hls : hasLsParamOrAnnotation f m.serverType = true) {before after : List (Decorator O)}
    {m₁ m₃ : FeatureManager C O} (hbefore : run (decorate types f) m before = some m₁)
    (hafter : run (decorate types f) (m₁.thread f).1 after = some m₃) :
    m₃.AllThreaded (before ++ after) ↔ before = [] ∨ (before.length = 1 ∧ after = []) := by
  have hunmarked : m.mark (.function f.id) = false := congrArg Attributes.executeInThread hfresh
  cases before with
  | nil =>
    cases hbefore
    exact iff_of_true (allThreaded_below hf hfresh hls hafter) (.inl rfl)
  | cons d ds =>
    obtain ⟨l, hlast⟩ := Option.ne_none_iff_exists'.mp
      (mt List.getLast?_eq_none_iff.mp (List.cons_ne_nil d ds))
    obtain ⟨hserver, -, hmark, hall, -⟩ := run_wrapper hf hls hbefore
    obtain ⟨i, hi, -, hregistered, -⟩ := hall l (List.mem_of_getLast? hlast)
    rw [thread_registered hf (run_names hbefore hlast) hregistered] at hafter
    change run (decorate types f) (m₁.assignThreadAttr (.wrapper i)) after = some m₃ at hafter
    cases after with
    | cons d' ds' =>
      -- What is registered above `thread()` takes over the function's mark, and it has none.
      refine iff_of_false ?_ (by simp)
      have hls₁ : hasLsParamOrAnnotation f
          (m₁.assignThreadAttr (.wrapper i)).serverType = true := by
        change hasLsParamOrAnnotation f m₁.serverType = true
        rw [hserver, hls]
      obtain ⟨-, -, -, hall', -⟩ := run_wrapper hf hls₁ hafter
      obtain ⟨j, -, -, hregistered', hmark'⟩ := hall' d' List.mem_cons_self
      refine not_allThreaded (by simp) hregistered' (hmark'.trans ?_)
      rw [mark_assignThreadAttr, if_neg nofun, hmark (.function f.id) fun _ _ => nofun, hunmarked]
    | nil =>
      cases hafter
      cases ds with
      | nil =>
        refine iff_of_true ?_ (.inr ⟨rfl, rfl⟩)
        intro d' hd'
        obtain rfl : d = l := Option.some.inj hlast
        obtain rfl : d' = d := List.mem_singleton.mp hd'
        refine ⟨_, hregistered, ?_⟩
        exact (mark_assignThreadAttr m₁ (.wrapper i) (.wrapper i)).trans (if_pos rfl)
      | cons d' ds' =>
        refine iff_of_false ?_ (by simp)
        have hl : l ∈ d' :: ds' := by
          rw [List.getLast?_cons_cons] at hlast
          exact List.mem_of_getLast? hlast
        obtain ⟨j, hj, hfirst, hmark₁⟩ := first_wrapper hf hls hunmarked hbefore hl hregistered
        refine not_allThreaded (d := d) List.mem_cons_self hfirst ?_
        rw [mark_assignThreadAttr, if_neg (by rintro ⟨⟩; exact hj rfl)]
        exact hmark₁

/-- A function under a stack of registrations and `thread()` has all its handlers executed in
threads just if it has no server parameter, or `thread()` stands under all registrations, or over
a single one. -/
theorem decorator_order_iff (types : OptionTypes O T) (hf : f.coroutine = false)
    (hfresh : m.attributes (.function f.id) = ⟨none, none, false⟩)
    {before after : List (Decorator O)} {m₁ m₃ : FeatureManager C O}
    (hbefore : run (decorate types f) m before = some m₁)
    (hafter : run (decorate types f) (m₁.thread f).1 after = some m₃) :
    m₃.AllThreaded (before ++ after) ↔
      hasLsParamOrAnnotation f m.serverType = false ∨ before = [] ∨
        (before.length = 1 ∧ after = []) := by
  cases hls : hasLsParamOrAnnotation f m.serverType with
  | false =>
    refine iff_of_true ?_ (.inl rfl)
    exact allThreaded_function hf hfresh hls hbefore hafter
  | true =>
    rw [allThreaded_wrapper_iff hf hfresh hls hbefore hafter]
    exact ⟨.inr, fun h => h.resolve_left Bool.noConfusion⟩

theorem decorator_order_iff_plain :
    let f := sampleFunction []
    let before : List (Decorator Bool) := [.feature [0x61] false]
    let after : List (Decorator Bool) := [.command [0x62]]
    ∃ m₁ m₃, run (decorate sampleTypes f) sampleManager before = some m₁ ∧
      run (decorate sampleTypes f) (m₁.thread f).1 after = some m₃ ∧
      m₃.AllThreaded (before ++ after) := by
  intro f before after
  refine ⟨_, _, rfl, rfl, ?_⟩
  have hls : hasLsParamOrAnnotation f sampleManager.serverType = false := by decide
  exact (decorator_order_iff (f := f) (m := sampleManager) sampleTypes rfl rfl rfl rfl).mpr
    (.inl hls)

/-- Two commands of one function that takes the server, and `thread()` on top of both: only the
last is marked. -/
theorem first_command_not_threaded :
    let f := sampleFunction [⟨paramLs, false, none⟩]
    let before : List (Decorator Bool) := [.command [0x61], .command [0x62]]
    ∃ m₁, run (decorate sampleTypes f) sampleManager before = some m₁ ∧
      (m₁.thread f).2.isNone = true ∧ ¬ (m₁.thread f).1.AllThreaded before := by
  intro f before
  refine ⟨_, rfl, rfl, ?_⟩
  intro h
  obtain ⟨handler, hregistered, hmarked⟩ := h (.command [0x61]) List.mem_cons_self
  cases hregistered
  cases hmarked

end FeatureManager

end Pygls.Features
