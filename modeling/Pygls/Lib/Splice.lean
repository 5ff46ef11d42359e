import Mathlib.Data.List.Basic

/-!
# Edits of a list

An edit replaces a stretch of a list. Edits that lie behind one another may be made at
once, or one after the other from the last to the first.
-/

namespace Lib.Splice

set_option autoImplicit false

variable {α : Type}

structure Edit (α : Type) where
  start : Nat
  stop : Nat
  new : List α

def Edit.apply (e : Edit α) (l : List α) : List α := l.take e.start ++ e.new ++ l.drop e.stop

/-- What is behind a place, with all edits made at once. -/
def behind (l : List α) : Nat → List (Edit α) → List α
  | place, [] => l.drop place
  | place, e :: es => (l.drop place).take (e.start - place) ++ e.new ++ behind l e.stop es

/-- The list with all edits made at once. -/
def together (l : List α) (es : List (Edit α)) : List α := behind l 0 es

/-- Edits of a list of the given length that lie behind a place and behind one another. -/
def Apart (length : Nat) : Nat → List (Edit α) → Prop
  | place, [] => place ≤ length
  | place, e :: es => place ≤ e.start ∧ e.start ≤ e.stop ∧ Apart length e.stop es

theorem Apart.place_le {length : Nat} {place : Nat} {es : List (Edit α)}
    (h : Apart length place es) : place ≤ length := by
  induction es generalizing place with
  | nil => exact h
  | cons e es ih =>
    obtain ⟨hplace, horder, hrest⟩ := h
    have hle := ih hrest
    omega

/-- The last edit first: what is in front of the edits made stays where it is. -/
theorem foldr_apply {l : List α} {place : Nat} {es : List (Edit α)}
    (h : Apart l.length place es) : es.foldr Edit.apply l = l.take place ++ behind l place es := by
  induction es generalizing place with
  | nil => rw [List.foldr_nil, behind, List.take_append_drop]
  | cons e es ih =>
    obtain ⟨hplace, horder, hrest⟩ := h
    have hstop := hrest.place_le
    have htake : (l.take e.stop ++ behind l e.stop es).take e.start = l.take e.start := by
      rw [List.take_append_of_le_length (by rw [List.length_take]; omega), List.take_take,
        Nat.min_eq_left horder]
    have hdrop : (l.take e.stop ++ behind l e.stop es).drop e.stop = behind l e.stop es :=
      List.drop_left' (List.length_take_of_le hstop)
    have hfront : l.take place ++ (l.drop place).take (e.start - place) = l.take e.start := by
      rw [← List.take_add, Nat.add_sub_cancel' hplace]
    rw [List.foldr_cons, ih hrest, Edit.apply, htake, hdrop, behind, ← hfront]
    simp only [List.append_assoc]

theorem foldr_apply_eq_together {l : List α} {es : List (Edit α)} (h : Apart l.length 0 es) :
    es.foldr Edit.apply l = together l es := by
  rw [foldr_apply h, List.take_zero, List.nil_append, together]

end Lib.Splice
