import Mathlib.Data.List.Induction

/-!
# Runs of a deterministic system

A system is a partial step function: `step s e` is `none` where event `e` cannot
happen in state `s`. `Meets` restricts the events a run may take, state by
state. The rules below are the only inductions over runs a development needs.
-/

namespace Lib

set_option autoImplicit false

universe u v w

variable {S : Type u} {E : Type v}

def run (step : S → E → Option S) : S → List E → Option S
  | s, [] => some s
  | s, e :: es => (step s e).bind fun t => run step t es

def Meets (step : S → E → Option S) (ok : S → E → Prop) : S → List E → Prop
  | _, [] => True
  | s, e :: es => ok s e ∧ ∀ t, step s e = some t → Meets step ok t es

theorem run_cons_iff {step : S → E → Option S} {s u : S} {e : E} {es : List E} :
    run step s (e :: es) = some u ↔ ∃ t, step s e = some t ∧ run step t es = some u :=
  Option.bind_eq_some_iff

theorem meets_cons {step : S → E → Option S} {ok : S → E → Prop} {s t : S} {e : E} {es : List E}
    (h : step s e = some t) (hok : ok s e) (hrest : Meets step ok t es) :
    Meets step ok s (e :: es) := by
  refine ⟨hok, fun u hu => ?_⟩
  rw [h] at hu
  exact Option.some.inj hu ▸ hrest

/-- No restriction at all. -/
theorem meets_true (step : S → E → Option S) (s : S) (es : List E) :
    Meets step (fun _ _ => True) s es := by
  induction es generalizing s with
  | nil => trivial
  | cons e es ih => exact ⟨trivial, fun t _ => ih t⟩

theorem run_append {step : S → E → Option S} (s : S) (es fs : List E) :
    run step s (es ++ fs) = (run step s es).bind fun t => run step t fs := by
  induction es generalizing s with
  | nil => rfl
  | cons e es ih =>
    simp only [List.cons_append, run]
    cases step s e with
    | none => rfl
    | some t => exact ih t

/-- A property kept by every permitted step holds in every state a run reaches. -/
theorem run_invariant {step : S → E → Option S} {ok : S → E → Prop} {I : S → Prop}
    (keep : ∀ s e t, I s → ok s e → step s e = some t → I t)
    {s t : S} {es : List E} (hs : I s) (hok : Meets step ok s es)
    (hrun : run step s es = some t) : I t := by
  induction es generalizing s with
  | nil => exact Option.some.inj hrun ▸ hs
  | cons e es ih =>
    obtain ⟨m, hm, hrest⟩ := run_cons_iff.mp hrun
    exact ih (keep s e m hs hok.1 hm) (hok.2 m hm) hrest

/-- The same for a property of the events taken so far and the state they lead to. -/
theorem run_history {step : S → E → Option S} {ok : S → E → Prop} {I : List E → S → Prop}
    (keep : ∀ past s e t, I past s → ok s e → step s e = some t → I (past ++ [e]) t)
    {s t : S} (past : List E) {es : List E} (hs : I past s) (hok : Meets step ok s es)
    (hrun : run step s es = some t) : I (past ++ es) t := by
  induction es generalizing s past with
  | nil =>
    rw [List.append_nil]
    exact Option.some.inj hrun ▸ hs
  | cons e es ih =>
    obtain ⟨m, hm, hrest⟩ := run_cons_iff.mp hrun
    have h := ih (past ++ [e]) (keep past s e m hs hok.1 hm) (hok.2 m hm) hrest
    rwa [List.append_assoc] at h

/-- Where the events that a step must not take to keep a property are known exactly, so are
the runs that keep it all along. -/
theorem run_keeps_iff {step : S → E → Option S} {ok : S → E → Prop} {P : S → Prop}
    (exact : ∀ s e t, P s → step s e = some t → (P t ↔ ok s e)) {s : S} (hs : P s) (es : List E) :
    (∀ fs t, fs <+: es → run step s fs = some t → P t) ↔
      Meets step (fun s e => step s e ≠ none → ok s e) s es := by
  induction es generalizing s with
  | nil =>
    refine iff_of_true ?_ trivial
    intro fs t hpre hrun
    rw [List.prefix_nil.mp hpre] at hrun
    exact Option.some.inj hrun ▸ hs
  | cons e es ih =>
    constructor
    · intro h
      have hstep : ∀ t, step s e = some t → P t := by
        intro t ht
        refine h [e] t ⟨es, rfl⟩ ?_
        rw [run, ht]
        rfl
      refine ⟨?_, ?_⟩
      · intro hne
        obtain ⟨t, ht⟩ := Option.ne_none_iff_exists'.mp hne
        exact (exact s e t hs ht).mp (hstep t ht)
      · intro t ht
        refine (ih (hstep t ht)).mp fun fs u hpre hrun => ?_
        exact h (e :: fs) u (List.cons_prefix_cons.mpr ⟨rfl, hpre⟩) (run_cons_iff.mpr ⟨t, ht, hrun⟩)
    · rintro ⟨hok, hrest⟩ fs u hpre hrun
      cases fs with
      | nil => exact Option.some.inj hrun ▸ hs
      | cons e' fs =>
        obtain ⟨rfl, hfs⟩ := List.cons_prefix_cons.mp hpre
        obtain ⟨t, ht, hu⟩ := run_cons_iff.mp hrun
        have hne : step s e' ≠ none := by
          rw [ht]
          exact Option.some_ne_none t
        have hP := (exact s e' t hs ht).mpr (hok hne)
        exact (ih hP).mpr (hrest t ht) fs u hfs hu

/-- The same for a total system and a property of the events so far and the state. -/
theorem foldl_keeps_iff {f : S → E → S} {ok : S → E → Prop} {P : List E → S → Prop}
    (exact : ∀ past s e, P past s → (P (past ++ [e]) (f s e) ↔ ok s e)) {s : S} (hs : P [] s)
    (es : List E) :
    (∀ past, past <+: es → P past (past.foldl f s)) ↔
      ∀ past e, past ++ [e] <+: es → ok (past.foldl f s) e := by
  constructor
  · intro h past e hpre
    have hafter := h (past ++ [e]) hpre
    rw [List.foldl_append] at hafter
    exact (exact past _ e (h past ((List.prefix_append past [e]).trans hpre))).mp hafter
  · intro h past
    induction past using List.reverseRecOn with
    | nil => exact fun _ => hs
    | append_singleton past e ih =>
      intro hpre
      rw [List.foldl_append]
      have hbefore := ih ((List.prefix_append past [e]).trans hpre)
      exact (exact past _ e hbefore).mpr (h past e hpre)

/-- Two systems driven by the same events stay related, if each step keeps them so. -/
theorem run_simulation {T : Type w} {step : S → E → Option S} {next : T → E → Option T}
    {R : S → T → Prop}
    (keep : ∀ s t e s', R s t → step s e = some s' → ∃ t', next t e = some t' ∧ R s' t')
    {s s' : S} {t : T} {es : List E} (hR : R s t) (hrun : run step s es = some s') :
    ∃ t', run next t es = some t' ∧ R s' t' := by
  induction es generalizing s t with
  | nil => exact ⟨t, rfl, Option.some.inj hrun ▸ hR⟩
  | cons e es ih =>
    obtain ⟨m, hm, hrest⟩ := run_cons_iff.mp hrun
    obtain ⟨n, hn, hmn⟩ := keep s t e m hR hm
    obtain ⟨t', ht, hR'⟩ := ih hmn hrest
    exact ⟨t', run_cons_iff.mpr ⟨n, hn, ht⟩, hR'⟩

end Lib
