import Mathlib.Data.List.Basic
import Mathlib.Logic.Relation

/-!
# Generators that call functions

A generator runs up to its next `yield`, which names a function and its arguments, and goes
on with the value it is sent. The function may itself be a generator. `Direct` runs a
generator with every yield replaced by a call. `Step` is a machine that holds the suspended
generators on a stack; what it does up to any point is the beginning of a direct run.
-/

namespace Lib

set_option autoImplicit false

universe u

/-- `F` are the functions, `M` the modes they are called in, `A` the arguments and `V` the
values. A function that is a generator gives its `body`. -/
inductive Gen (F M A V : Type u) where
  | ret (value : V)
  | yield (function : F) (mode : M) (args : A) (rest : V → Gen F M A V)
  | yieldGen (function : F) (args : A) (body : Gen F M A V) (rest : V → Gen F M A V)

inductive Act (F A V : Type u) where
  | called (function : F) (args : A)
  | returned (value : V)

namespace Gen

variable {F M A V : Type u}

/-- The calls and returns of a direct run, in their order, and its value. -/
inductive Direct : Gen F M A V → List (Act F A V) → V → Prop where
  | ret {v : V} : Direct (.ret v) [.returned v] v
  | yield {f : F} {m : M} {a : A} {rest : V → Gen F M A V} {w v : V} {acts : List (Act F A V)} :
      Direct (rest w) acts v →
      Direct (.yield f m a rest) (.called f a :: .returned w :: acts) v
  | yieldGen {f : F} {a : A} {body : Gen F M A V} {rest : V → Gen F M A V} {w v : V}
      {inner acts : List (Act F A V)} : Direct body inner w → Direct (rest w) acts v →
      Direct (.yieldGen f a body rest) (.called f a :: (inner ++ acts)) v

/-- The suspended generators go on, the innermost with the value `w`. -/
inductive Unwinds : List (V → Gen F M A V) → V → List (Act F A V) → V → Prop where
  | nil {v : V} : Unwinds [] v [] v
  | cons {rest : V → Gen F M A V} {frames : List (V → Gen F M A V)} {w x v : V}
      {inner acts : List (Act F A V)} : Direct (rest w) inner x → Unwinds frames x acts v →
      Unwinds (rest :: frames) w (inner ++ acts) v

/-- `waiting`: a function that is no generator has been called. `returning`: the innermost
call has returned. -/
inductive Config (F M A V : Type u) where
  | running (gen : Gen F M A V) (frames : List (V → Gen F M A V))
  | waiting (frames : List (V → Gen F M A V))
  | returning (value : V) (frames : List (V → Gen F M A V))

inductive Step : Config F M A V → List (Act F A V) → Config F M A V → Prop where
  | yield {f : F} {m : M} {a : A} {rest : V → Gen F M A V} {frames : List (V → Gen F M A V)} :
      Step (.running (.yield f m a rest) frames) [.called f a] (.waiting (rest :: frames))
  | yieldGen {f : F} {a : A} {body : Gen F M A V} {rest : V → Gen F M A V}
      {frames : List (V → Gen F M A V)} :
      Step (.running (.yieldGen f a body rest) frames) [.called f a]
        (.running body (rest :: frames))
  | ret {v : V} {frames : List (V → Gen F M A V)} :
      Step (.running (.ret v) frames) [.returned v] (.returning v frames)
  | answer {v : V} {frames : List (V → Gen F M A V)} :
      Step (.waiting frames) [.returned v] (.returning v frames)
  | resume {v : V} {rest : V → Gen F M A V} {frames : List (V → Gen F M A V)} :
      Step (.returning v (rest :: frames)) [] (.running (rest v) frames)

inductive Steps : Config F M A V → List (Act F A V) → Config F M A V → Prop where
  | refl (c : Config F M A V) : Steps c [] c
  | step {c d e : Config F M A V} {acts acts' : List (Act F A V)} : Steps c acts d →
      Step d acts' e → Steps c (acts ++ acts') e

theorem Steps.single {c d : Config F M A V} {acts : List (Act F A V)} (h : Step c acts d) :
    Steps c acts d := .step (.refl c) h

theorem Steps.trans {c d e : Config F M A V} {acts acts' : List (Act F A V)} (h : Steps c acts d)
    (h' : Steps d acts' e) : Steps c (acts ++ acts') e := by
  induction h' with
  | refl =>
    rw [List.append_nil]
    exact h
  | step _ hstep ih =>
    rw [← List.append_assoc]
    exact .step ih hstep

/-- The machine gets from `c` to `d`, by at least one step. -/
def Later (d c : Config F M A V) : Prop := Relation.TransGen (fun d c => ∃ acts, Step c acts d) d c

theorem Steps.later {c d : Config F M A V} {acts : List (Act F A V)} (h : Steps c acts d) :
    (c = d ∧ acts = []) ∨ Later d c := by
  induction h with
  | refl => exact Or.inl ⟨rfl, rfl⟩
  | step hsteps hstep ih =>
    right
    rcases ih with ⟨rfl, -⟩ | ih
    · exact .single ⟨_, hstep⟩
    · exact .head ⟨_, hstep⟩ ih

theorem Steps.later_of_ne {c d : Config F M A V} {acts : List (Act F A V)} (h : Steps c acts d)
    (hne : acts ≠ []) : Later d c := by
  rcases h.later with ⟨-, hnil⟩ | hlater
  · exact absurd hnil hne
  · exact hlater

/-- How a direct run goes on from the configuration, and its value. -/
def Config.Ends : Config F M A V → List (Act F A V) → V → Prop
  | .running g frames, acts, v =>
    ∃ w inner acts', Direct g inner w ∧ Unwinds frames w acts' v ∧ acts = inner ++ acts'
  | .waiting frames, acts, v => ∃ w acts', Unwinds frames w acts' v ∧ acts = .returned w :: acts'
  | .returning w frames, acts, v => Unwinds frames w acts v

theorem Step.ends {c d : Config F M A V} {acts : List (Act F A V)} (h : Step c acts d)
    {acts' : List (Act F A V)} {v : V} (hd : d.Ends acts' v) : c.Ends (acts ++ acts') v := by
  cases h with
  | yield =>
    obtain ⟨w, after, hunwinds, rfl⟩ := hd
    cases hunwinds with
    | @cons _ _ _ x _ inner acts hdirect hrest =>
      exact ⟨x, _, acts, .yield hdirect, hrest, by simp⟩
  | yieldGen =>
    obtain ⟨w, inner, after, hbody, hunwinds, rfl⟩ := hd
    cases hunwinds with
    | @cons _ _ _ x _ inner' acts hdirect hrest =>
      exact ⟨x, _, acts, .yieldGen hbody hdirect, hrest, by simp⟩
  | @ret w frames => exact ⟨w, [.returned w], acts', .ret, hd, rfl⟩
  | @answer w frames => exact ⟨w, acts', hd, rfl⟩
  | resume =>
    obtain ⟨w, inner, after, hdirect, hunwinds, rfl⟩ := hd
    have h := Unwinds.cons hdirect hunwinds
    exact h

theorem Steps.ends {c d : Config F M A V} {acts : List (Act F A V)} (h : Steps c acts d)
    {acts' : List (Act F A V)} {v : V} (hd : d.Ends acts' v) : c.Ends (acts ++ acts') v := by
  induction h generalizing acts' with
  | refl => exact hd
  | step _ hstep ih =>
    rw [List.append_assoc]
    exact ih (hstep.ends hd)

/-- The machine's run up to any point is the beginning of a direct run. -/
theorem Steps.direct {g : Gen F M A V} {c : Config F M A V} {acts acts' : List (Act F A V)} {v : V}
    (h : Steps (.running g []) acts c) (hc : c.Ends acts' v) : Direct g (acts ++ acts') v := by
  obtain ⟨w, inner, after, hdirect, hunwinds, heq⟩ := h.ends hc
  cases hunwinds
  rw [heq, List.append_nil]
  exact hdirect

section Nonempty

variable [Nonempty V]

/-- Functions may return anything, and a generator yields only finitely often. -/
theorem exists_direct (g : Gen F M A V) : ∃ acts v, Direct g acts v := by
  induction g with
  | ret v => exact ⟨_, v, .ret⟩
  | yield f m a rest ih =>
    obtain ⟨w⟩ := (inferInstance : Nonempty V)
    obtain ⟨acts, v, h⟩ := ih w
    exact ⟨_, v, .yield h⟩
  | yieldGen f a body rest hbody ih =>
    obtain ⟨inner, w, hinner⟩ := hbody
    obtain ⟨acts, v, h⟩ := ih w
    exact ⟨_, v, .yieldGen hinner h⟩

theorem exists_unwinds (frames : List (V → Gen F M A V)) (w : V) :
    ∃ acts v, Unwinds frames w acts v := by
  induction frames generalizing w with
  | nil => exact ⟨[], w, .nil⟩
  | cons rest frames ih =>
    obtain ⟨inner, x, hinner⟩ := exists_direct (rest w)
    obtain ⟨acts, v, h⟩ := ih x
    exact ⟨_, v, .cons hinner h⟩

theorem Config.exists_ends (c : Config F M A V) : ∃ acts v, c.Ends acts v := by
  cases c with
  | running g frames =>
    obtain ⟨inner, w, hinner⟩ := exists_direct g
    obtain ⟨acts, v, h⟩ := exists_unwinds frames w
    exact ⟨_, v, w, inner, acts, hinner, h, rfl⟩
  | waiting frames =>
    obtain ⟨w⟩ := (inferInstance : Nonempty V)
    obtain ⟨acts, v, h⟩ := exists_unwinds frames w
    exact ⟨_, v, w, acts, h, rfl⟩
  | returning w frames => exact exists_unwinds frames w

end Nonempty

section Termination

/-- The machine stops from every configuration in which the stack is the given one and the
innermost call has returned. -/
def Settles (frames : List (V → Gen F M A V)) : Prop :=
  ∀ v, Acc (fun d c : Config F M A V => ∃ acts, Step c acts d) (.returning v frames)

theorem acc_running (g : Gen F M A V) {frames : List (V → Gen F M A V)} (h : Settles frames) :
    Acc (fun d c : Config F M A V => ∃ acts, Step c acts d) (.running g frames) := by
  induction g generalizing frames with
  | ret v =>
    constructor
    rintro d ⟨acts, hstep⟩
    cases hstep
    exact h v
  | yield f m a rest ih =>
    constructor
    rintro d ⟨acts, hstep⟩
    cases hstep
    have hrest : Settles (rest :: frames) := by
      intro v
      constructor
      rintro d ⟨acts, hstep⟩
      cases hstep
      exact ih v h
    constructor
    rintro d ⟨acts, hstep⟩
    cases hstep
    exact hrest _
  | yieldGen f a body rest hbody ih =>
    constructor
    rintro d ⟨acts, hstep⟩
    cases hstep
    refine hbody ?_
    intro v
    constructor
    rintro d ⟨acts, hstep⟩
    cases hstep
    exact ih v h

theorem settles (frames : List (V → Gen F M A V)) : Settles frames := by
  induction frames with
  | nil =>
    intro v
    constructor
    rintro d ⟨acts, hstep⟩
    cases hstep
  | cons rest frames ih =>
    intro v
    constructor
    rintro d ⟨acts, hstep⟩
    cases hstep
    exact acc_running (rest v) ih

/-- Whatever the functions return, the machine stops. -/
theorem step_wellFounded :
    WellFounded fun d c : Config F M A V => ∃ acts, Step c acts d := by
  constructor
  intro c
  cases c with
  | running g frames => exact acc_running g (settles frames)
  | waiting frames =>
    constructor
    rintro d ⟨acts, hstep⟩
    cases hstep
    exact settles frames _
  | returning v frames => exact settles frames v

theorem later_wellFounded : WellFounded (Later : Config F M A V → Config F M A V → Prop) :=
  step_wellFounded.transGen

end Termination

end Gen

end Lib
