import Mathlib.Data.List.DropRight
import Mathlib.Data.List.TakeWhile

/-!
# Backtracking search with anchors

Patterns of greedy repeated classes and the two anchors, in the order a
backtracking matcher tries them, and the loop that finds all matches from left to
right. A place in the subject is given by what is left of it and by the length of
the whole; `stop` also holds before a final newline.
-/

namespace Lib.Regex

set_option autoImplicit false

universe u

variable {α : Type u}

inductive Item (α : Type u) where
  | star (member : α → Bool)
  | start
  | stop

abbrev Pattern (α : Type u) := List (Item α)

theorem takeWhile_eq_self_of_all {member : α → Bool} {rest : List α} (h : rest.all member = true) :
    rest.takeWhile member = rest := by
  apply List.takeWhile_eq_self_iff.mpr
  intro x hx
  exact List.all_eq_true.mp h x hx

theorem length_takeWhile_lt {member : α → Bool} {rest : List α} (h : ¬ rest.all member = true) :
    (rest.takeWhile member).length < rest.length := by
  apply Nat.lt_of_le_of_ne (List.takeWhile_prefix member).length_le
  intro heq
  apply h
  rw [← (List.takeWhile_prefix member).eq_of_length heq]
  exact List.all_takeWhile

variable [DecidableEq α]

/-- The lengths of all matches at a place, in the order they are tried. -/
def ends (newline : α) (total : Nat) : Pattern α → List α → List Nat
  | [], _ => [0]
  | .start :: pattern, rest =>
    if rest.length = total then ends newline total pattern rest else []
  | .stop :: pattern, rest =>
    if rest = [] ∨ rest = [newline] then ends newline total pattern rest else []
  | .star member :: pattern, rest =>
    (List.range ((rest.takeWhile member).length + 1)).reverse.flatMap fun n =>
      (ends newline total pattern (rest.drop n)).map (n + ·)

/-- The match at a place; one that must advance is not empty. -/
def matchAt (newline : α) (total : Nat) (pattern : Pattern α) (mustAdvance : Bool)
    (rest : List α) : Option Nat :=
  (ends newline total pattern rest).find? fun n => !mustAdvance || n ≠ 0

/-- The first match at this place or behind it, and what is left after it. -/
def search (newline : α) (total : Nat) (pattern : Pattern α) (mustAdvance : Bool)
    (rest : List α) : Option (List α × List α) :=
  match matchAt newline total pattern mustAdvance rest with
  | some n => some (rest.take n, rest.drop n)
  | none =>
    match rest with
    | [] => none
    | _ :: rest => search newline total pattern false rest

theorem ends_le {newline : α} {total : Nat} {pattern : Pattern α} {rest : List α} {n : Nat}
    (h : n ∈ ends newline total pattern rest) : n ≤ rest.length := by
  induction pattern generalizing rest n with
  | nil =>
    rw [ends, List.mem_singleton] at h
    omega
  | cons item pattern ih =>
    cases item with
    | start =>
      rw [ends] at h
      split at h
      · exact ih h
      · exact absurd h List.not_mem_nil
    | stop =>
      rw [ends] at h
      split at h
      · exact ih h
      · exact absurd h List.not_mem_nil
    | star member =>
      rw [ends] at h
      obtain ⟨k, hk, hmem⟩ := List.mem_flatMap.mp h
      obtain ⟨m, hm, rfl⟩ := List.mem_map.mp hmem
      have hrun := (List.takeWhile_prefix (l := rest) member).length_le
      have hle := ih hm
      rw [List.mem_reverse, List.mem_range] at hk
      rw [List.length_drop] at hle
      omega

theorem matchAt_spec {newline : α} {total : Nat} {pattern : Pattern α} {mustAdvance : Bool}
    {rest : List α} {n : Nat} (h : matchAt newline total pattern mustAdvance rest = some n) :
    n ≤ rest.length ∧ (mustAdvance = true → n ≠ 0) := by
  refine ⟨ends_le (List.mem_of_find?_eq_some h), ?_⟩
  rintro rfl
  simpa using List.find?_some h

theorem search_found {newline : α} {total : Nat} {pattern : Pattern α} {mustAdvance : Bool}
    {rest : List α} {n : Nat} (h : matchAt newline total pattern mustAdvance rest = some n) :
    search newline total pattern mustAdvance rest = some (rest.take n, rest.drop n) := by
  rw [search.eq_def, h]

theorem search_nil {newline : α} {total : Nat} {pattern : Pattern α} {mustAdvance : Bool}
    (h : matchAt newline total pattern mustAdvance [] = none) :
    search newline total pattern mustAdvance [] = none := by
  rw [search, h]

theorem search_skip {newline : α} {total : Nat} {pattern : Pattern α} {mustAdvance : Bool} {c : α}
    {rest : List α} (h : matchAt newline total pattern mustAdvance (c :: rest) = none) :
    search newline total pattern mustAdvance (c :: rest) =
      search newline total pattern false rest := by
  rw [search, h]

/-- A search consumes something, or finds an empty match where it was allowed to. -/
theorem search_decreases {newline : α} {total : Nat} {pattern : Pattern α} {mustAdvance : Bool}
    {rest found left : List α}
    (h : search newline total pattern mustAdvance rest = some (found, left)) :
    left.length < rest.length ∨
      (left.length = rest.length ∧ found = [] ∧ mustAdvance = false) := by
  induction rest generalizing mustAdvance with
  | nil =>
    cases hmatch : matchAt newline total pattern mustAdvance [] with
    | none =>
      rw [search_nil hmatch] at h
      cases h
    | some n =>
      obtain ⟨hle, hpos⟩ := matchAt_spec hmatch
      obtain rfl : n = 0 := Nat.le_zero.mp hle
      rw [search_found hmatch] at h
      cases h
      exact Or.inr ⟨rfl, rfl, Bool.eq_false_iff.mpr fun htrue => hpos htrue rfl⟩
  | cons c rest ih =>
    cases hmatch : matchAt newline total pattern mustAdvance (c :: rest) with
    | none =>
      rw [search_skip hmatch] at h
      have hle := ih h
      rw [List.length_cons]
      omega
    | some n =>
      obtain ⟨hle, hpos⟩ := matchAt_spec hmatch
      rw [search_found hmatch] at h
      cases h
      rcases Nat.eq_zero_or_pos n with rfl | hn
      · exact Or.inr ⟨rfl, rfl, Bool.eq_false_iff.mpr fun htrue => hpos htrue rfl⟩
      · refine Or.inl ?_
        rw [List.length_drop]
        omega

/-- All matches from left to right; behind an empty one the next must advance. -/
def findallFrom (newline : α) (total : Nat) (pattern : Pattern α) (mustAdvance : Bool)
    (rest : List α) : List (List α) :=
  match _h : search newline total pattern mustAdvance rest with
  | none => []
  | some (found, left) => found :: findallFrom newline total pattern (found = []) left
termination_by (rest.length, if mustAdvance then 0 else 1)
decreasing_by
  rcases search_decreases _h with hlt | ⟨heq, rfl, rfl⟩
  · exact Prod.Lex.left _ _ hlt
  · rw [heq]
    exact Prod.Lex.right _ Nat.zero_lt_one

def findall (newline : α) (pattern : Pattern α) (subject : List α) : List (List α) :=
  findallFrom newline subject.length pattern false subject

theorem findallFrom_none {newline : α} {total : Nat} {pattern : Pattern α} {mustAdvance : Bool}
    {rest : List α} (h : search newline total pattern mustAdvance rest = none) :
    findallFrom newline total pattern mustAdvance rest = [] := by
  rw [findallFrom]
  split
  · rfl
  · rename_i heq
    rw [h] at heq
    cases heq

theorem findallFrom_some {newline : α} {total : Nat} {pattern : Pattern α} {mustAdvance : Bool}
    {rest found left : List α}
    (h : search newline total pattern mustAdvance rest = some (found, left)) :
    findallFrom newline total pattern mustAdvance rest =
      found :: findallFrom newline total pattern (found = []) left := by
  rw [findallFrom]
  split
  · rename_i heq
    rw [h] at heq
    cases heq
  · rename_i heq
    rw [h] at heq
    cases heq
    rfl

/-- A pattern that matches the empty rest is found in every subject. -/
theorem findall_ne_nil {newline : α} {pattern : Pattern α}
    (hempty : ∀ total, matchAt newline total pattern false [] ≠ none) (subject : List α) :
    findall newline pattern subject ≠ [] := by
  have hsearch : ∀ total rest, search newline total pattern false rest ≠ none := by
    intro total rest
    induction rest with
    | nil =>
      obtain ⟨n, hn⟩ := Option.ne_none_iff_exists'.mp (hempty total)
      rw [search_found hn]
      exact Option.some_ne_none _
    | cons c rest ih =>
      cases hmatch : matchAt newline total pattern false (c :: rest) with
      | some n =>
        rw [search_found hmatch]
        exact Option.some_ne_none _
      | none =>
        rw [search_skip hmatch]
        exact ih
  obtain ⟨⟨found, left⟩, hfound⟩ := Option.ne_none_iff_exists'.mp (hsearch subject.length subject)
  rw [findall, findallFrom_some hfound]
  exact List.cons_ne_nil _ _

theorem matchAt_head? (newline : α) (total : Nat) (pattern : Pattern α) (rest : List α) :
    matchAt newline total pattern false rest = (ends newline total pattern rest).head? := by
  unfold matchAt
  cases ends newline total pattern rest with
  | nil => rfl
  | cons n ns => rfl

/-- A class repeated up to the end matches all of what is left, or nothing. -/
theorem matchAt_starStop {newline : α} (total : Nat) (member : α → Bool) {rest : List α}
    (hlast : rest.getLast? ≠ some newline) :
    matchAt newline total [.star member, .stop] false rest =
      if rest.all member then some rest.length else none := by
  rw [matchAt_head?, ends]
  split
  · rename_i hall
    rw [takeWhile_eq_self_of_all hall, List.range_succ, List.reverse_append]
    simp [ends]
  · rename_i hall
    have hshort := length_takeWhile_lt hall
    rw [List.flatMap_eq_nil_iff.mpr]
    · rfl
    intro n hn
    rw [List.mem_reverse, List.mem_range] at hn
    -- neither the end nor the final newline is reached
    have hrest : ¬ (rest.drop n = [] ∨ rest.drop n = [newline]) := by
      rintro (hnil | hnewline)
      · have hlen := congrArg List.length hnil
        rw [List.length_drop, List.length_nil] at hlen
        omega
      · apply hlast
        rw [← List.take_append_drop n rest, hnewline, List.getLast?_concat]
    rw [ends, if_neg hrest, List.map_nil]

/-- The search skips what is in front of the last run of the class. -/
theorem search_starStop {newline : α} (total : Nat) (member : α → Bool) {front run : List α}
    (hrun : ∀ x ∈ run, member x = true) (hfront : ∀ x, front.getLast? = some x → member x = false)
    (hlast : (front ++ run).getLast? ≠ some newline) :
    search newline total [.star member, .stop] false (front ++ run) = some (run, []) := by
  induction front with
  | nil =>
    rw [List.nil_append] at hlast ⊢
    have hall : matchAt newline total [.star member, .stop] false run = some run.length := by
      rw [matchAt_starStop total member hlast, if_pos (List.all_eq_true.mpr hrun)]
    rw [search_found hall, List.take_length, List.drop_length]
  | cons c front ih =>
    have hnot : ¬ (c :: (front ++ run)).all member = true := by
      intro hall
      have hmem := List.getLast_mem (List.cons_ne_nil c front)
      have hin := List.all_eq_true.mp hall _ (List.mem_append_left run hmem)
      rw [hfront _ (List.getLast?_eq_some_getLast (List.cons_ne_nil c front))] at hin
      cases hin
    rw [List.cons_append] at hlast ⊢
    have hnone : matchAt newline total [.star member, .stop] false (c :: (front ++ run)) = none := by
      rw [matchAt_starStop total member hlast, if_neg hnot]
    rw [search_skip hnone]
    apply ih
    · intro x hx
      apply hfront x
      rw [List.getLast?_cons, hx]
      rfl
    · intro heq
      apply hlast
      rw [List.getLast?_cons, heq]
      rfl

/-- What is found first up to the end is the last run of the class. -/
theorem head?_findall_starStop {newline : α} (member : α → Bool) {subject : List α}
    (hlast : subject.getLast? ≠ some newline) :
    (findall newline [.star member, .stop] subject).head? = some (subject.rtakeWhile member) := by
  have hsplit : subject.rdropWhile member ++ subject.rtakeWhile member = subject :=
    List.rdropWhile_append_rtakeWhile
  have hfound : search newline subject.length [.star member, .stop] false subject =
      some (subject.rtakeWhile member, []) := by
    conv_lhs => rw [← hsplit]
    apply search_starStop
    · intro x hx
      exact List.mem_rtakeWhile_imp hx
    · intro x hx
      have hne : subject.rdropWhile member ≠ [] := by
        intro hnil
        rw [hnil] at hx
        cases hx
      have hnot := List.rdropWhile_last_not member subject hne
      rw [List.getLast?_eq_some_getLast hne] at hx
      cases hx
      exact Bool.eq_false_iff.mpr hnot
    · rw [hsplit]
      exact hlast
  rw [findall, findallFrom_some hfound]
  rfl

theorem search_start_none {newline : α} {total : Nat} {pattern : Pattern α} {mustAdvance : Bool}
    {rest : List α} (h : rest.length < total) :
    search newline total (.start :: pattern) mustAdvance rest = none := by
  have hnone : ∀ mustAdvance rest, rest.length < total →
      matchAt newline total (.start :: pattern) mustAdvance rest = none := by
    intro mustAdvance rest hlt
    rw [matchAt, ends, if_neg (Nat.ne_of_lt hlt)]
    rfl
  induction rest generalizing mustAdvance with
  | nil => exact search_nil (hnone mustAdvance [] h)
  | cons c rest ih =>
    rw [search_skip (hnone mustAdvance (c :: rest) h)]
    rw [List.length_cons] at h
    exact ih (by omega)

/-- A class repeated from the start is found once: the first run. -/
theorem findall_startStar (newline : α) (member : α → Bool) (subject : List α) :
    findall newline [.start, .star member] subject = [subject.takeWhile member] := by
  have hends : ends newline subject.length [.start, .star member] subject =
      (List.range ((subject.takeWhile member).length + 1)).reverse := by
    rw [ends, if_pos rfl, ends]
    simp [ends]
  have hfirst : matchAt newline subject.length [.start, .star member] false subject =
      some (subject.takeWhile member).length := by
    rw [matchAt_head?, hends, List.range_succ, List.reverse_append]
    rfl
  have hfound : search newline subject.length [.start, .star member] false subject =
      some (subject.takeWhile member, subject.drop (subject.takeWhile member).length) := by
    rw [search_found hfirst, ← List.prefix_iff_eq_take.mp (List.takeWhile_prefix member)]
  rw [findall, findallFrom_some hfound]
  congr 1
  apply findallFrom_none
  by_cases hnil : subject.takeWhile member = []
  · -- an empty first run is not found again, and no later place is the start
    have hnone : matchAt newline subject.length [.start, .star member] true subject = none := by
      rw [matchAt, hends, hnil]
      rfl
    rw [hnil, List.length_nil, List.drop_zero]
    cases subject with
    | nil => exact search_nil hnone
    | cons c rest =>
      refine (search_skip hnone).trans ?_
      exact search_start_none (Nat.lt_add_one rest.length)
  · apply search_start_none
    have hpos := List.length_pos_iff.mpr hnil
    have hle := (List.takeWhile_prefix (l := subject) member).length_le
    rw [List.length_drop]
    omega

end Lib.Regex
