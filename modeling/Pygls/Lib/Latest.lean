import Pygls.Lib.Dict

/-!
# The last writer

A history is a list of writes, the earliest first. `latest k` is the value last
written under `k`: what is left of `k` when every write overwrites the ones
before it.
-/

namespace Lib

set_option autoImplicit false

universe u v w

variable {K : Type u} {V : Type v} [DecidableEq K]

def latest (k : K) : List (K × V) → Option V
  | [] => none
  | w :: ws => (latest k ws).or (if w.1 = k then some w.2 else none)

theorem latest_append (k : K) (ws ws' : List (K × V)) :
    latest k (ws ++ ws') = (latest k ws').or (latest k ws) := by
  induction ws with
  | nil => rw [List.nil_append, latest, Option.or_none]
  | cons w ws ih => rw [List.cons_append, latest, ih, latest, Option.or_assoc]

theorem latest_singleton (k : K) (w : K × V) :
    latest k [w] = if w.1 = k then some w.2 else none := rfl

theorem latest_eq_none_iff (k : K) (ws : List (K × V)) :
    latest k ws = none ↔ k ∉ ws.map Prod.fst := by
  induction ws with
  | nil => exact iff_of_true rfl List.not_mem_nil
  | cons w ws ih =>
    rw [latest, Option.or_eq_none_iff, ih, List.map_cons, List.mem_cons, not_or]
    constructor
    · rintro ⟨hws, hw⟩
      refine ⟨?_, hws⟩
      rintro rfl
      rw [if_pos rfl] at hw
      cases hw
    · rintro ⟨hw, hws⟩
      exact ⟨hws, if_neg (Ne.symm hw)⟩

theorem mem_of_latest {k : K} {v : V} {ws : List (K × V)} (h : latest k ws = some v) :
    (k, v) ∈ ws := by
  induction ws with
  | nil => cases h
  | cons w ws ih =>
    rw [latest, Option.or_eq_some_iff] at h
    rcases h with h | ⟨-, h⟩
    · exact List.mem_cons_of_mem w (ih h)
    · split at h
      · rename_i hk
        cases h
        rw [← hk]
        exact List.mem_cons_self
      · cases h

theorem latest_map {A : Type w} (k : K) (key : A → K) (f : A → V) (as : List A) :
    latest k (as.map fun a => (key a, f a)) =
      (latest k (as.map fun a => (key a, a))).map f := by
  induction as with
  | nil => rfl
  | cons a as ih =>
    rw [List.map_cons, latest, ih, List.map_cons, latest, Option.map_or]
    split
    · rfl
    · rfl

theorem latest_eq_some_iff {ws : List (K × V)} (h : (ws.map Prod.fst).Nodup) (k : K) (v : V) :
    latest k ws = some v ↔ (k, v) ∈ ws := by
  refine ⟨mem_of_latest, ?_⟩
  induction ws with
  | nil => exact fun hmem => absurd hmem List.not_mem_nil
  | cons w ws ih =>
    obtain ⟨hw, hws⟩ := List.nodup_cons.mp h
    intro hmem
    rw [latest, Option.or_eq_some_iff]
    rcases List.mem_cons.mp hmem with rfl | hmem
    · exact .inr ⟨(latest_eq_none_iff k ws).mpr hw, if_pos rfl⟩
    · exact .inl (ih hws hmem)

/-- Writes under distinct keys may come in any order. -/
theorem latest_perm {ws ws' : List (K × V)} (h : (ws.map Prod.fst).Nodup) (hperm : ws.Perm ws')
    (k : K) : latest k ws = latest k ws' := by
  have h' : (ws'.map Prod.fst).Nodup := (hperm.map Prod.fst).nodup h
  apply Option.ext
  intro v
  rw [latest_eq_some_iff h, latest_eq_some_iff h', hperm.mem_iff]

end Lib
