import Mathlib.Data.List.Basic

/-!
# Tasks that keep to their own cells

A state is seen through its cells. A task owns some of them and uses others: it writes to
none but its own, and what it writes depends on those it owns or uses. Where no task
writes to what another owns or uses, they can be done in any order, and every cell is
what the one task that owns it makes of it.
-/

namespace Lib

set_option autoImplicit false

universe u v w

variable {S : Type w} {ι : Type u} {V : ι → Type v} {get : ∀ i, S → V i}

structure Task (get : ∀ i, S → V i) where
  act : S → S
  owns : ι → Prop
  uses : ι → Prop
  frame : ∀ s i, ¬owns i → get i (act s) = get i s
  determined : ∀ s s', (∀ i, owns i ∨ uses i → get i s = get i s') →
    ∀ i, owns i → get i (act s) = get i (act s')

namespace Task

/-- Neither writes to what the other owns or uses. -/
def Apart (t u : Task get) : Prop :=
  (∀ i, t.owns i ∨ t.uses i → ¬u.owns i) ∧ ∀ i, u.owns i ∨ u.uses i → ¬t.owns i

theorem Apart.symm {t u : Task get} (h : Apart t u) : Apart u t := ⟨h.2, h.1⟩

/-- The tasks one after the other. -/
def perform (tasks : List (Task get)) (s : S) : S := tasks.foldl (fun s t => t.act s) s

theorem perform_cons (t : Task get) (tasks : List (Task get)) (s : S) :
    perform (t :: tasks) s = perform tasks (t.act s) := rfl

theorem perform_of_not_owned {tasks : List (Task get)} {i : ι} (h : ∀ t ∈ tasks, ¬t.owns i)
    (s : S) : get i (perform tasks s) = get i s := by
  induction tasks generalizing s with
  | nil => rfl
  | cons t tasks ih =>
    rw [perform_cons, ih fun u hu => h u (List.mem_cons_of_mem t hu)]
    exact t.frame s i (h t List.mem_cons_self)

/-- A cell is written by its owner alone, who finds what it uses as it was at first. -/
theorem perform_of_owned {tasks : List (Task get)} (h : tasks.Pairwise Apart) {t : Task get}
    (ht : t ∈ tasks) {i : ι} (hi : t.owns i) (s : S) :
    get i (perform tasks s) = get i (t.act s) := by
  induction tasks generalizing s with
  | nil => cases ht
  | cons u tasks ih =>
    obtain ⟨hu, htasks⟩ := List.pairwise_cons.mp h
    rw [perform_cons]
    rcases List.mem_cons.mp ht with rfl | ht
    · refine perform_of_not_owned ?_ _
      intro u' hu'
      exact (hu u' hu').1 i (Or.inl hi)
    · rw [ih htasks ht]
      refine t.determined _ _ ?_ i hi
      intro j hj
      exact u.frame s j ((hu t ht).2 j hj)

theorem perform_perm {tasks tasks' : List (Task get)} (h : tasks.Pairwise Apart)
    (hperm : tasks.Perm tasks') (s : S) (i : ι) :
    get i (perform tasks' s) = get i (perform tasks s) := by
  have h' : tasks'.Pairwise Apart := hperm.pairwise h fun h => h.symm
  by_cases hown : ∃ t ∈ tasks, t.owns i
  · obtain ⟨t, ht, hi⟩ := hown
    rw [perform_of_owned h ht hi, perform_of_owned h' (hperm.mem_iff.mp ht) hi]
  · have hno : ∀ t ∈ tasks, ¬t.owns i := fun t ht hi => hown ⟨t, ht, hi⟩
    have hno' : ∀ t ∈ tasks', ¬t.owns i := fun t ht => hno t (hperm.mem_iff.mpr ht)
    rw [perform_of_not_owned hno, perform_of_not_owned hno']

end Task

end Lib
