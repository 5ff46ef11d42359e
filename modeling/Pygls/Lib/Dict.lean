import Mathlib.Data.List.Nodup

/-!
# Insertion-ordered dictionaries

A finite map as a list of entries with distinct keys. Overwriting keeps an
entry's place, a new key goes to the end, and removal keeps the order of what
is left. The distinctness of the keys is a field, so it is never an assumption.
-/

namespace Lib

set_option autoImplicit false

universe u v

structure Dict (K : Type u) (V : Type v) where
  entries : List (K × V)
  nodup : (entries.map Prod.fst).Nodup

namespace Dict

variable {K : Type u} {V : Type v} [DecidableEq K]

def lookup (k : K) : List (K × V) → Option V
  | [] => none
  | e :: es => if k = e.1 then some e.2 else lookup k es

def insert (k : K) (v : V) : List (K × V) → List (K × V)
  | [] => [(k, v)]
  | e :: es => if k = e.1 then (k, v) :: es else e :: insert k v es

def remove (k : K) : List (K × V) → List (K × V)
  | [] => []
  | e :: es => if k = e.1 then es else e :: remove k es

theorem keys_insert (k : K) (v : V) (es : List (K × V)) :
    (insert k v es).map Prod.fst =
      if k ∈ es.map Prod.fst then es.map Prod.fst else es.map Prod.fst ++ [k] := by
  induction es with
  | nil => simp [insert]
  | cons e es ih =>
    by_cases h : k = e.1
    · subst h
      simp [insert]
    · rw [insert, if_neg h, List.map_cons, List.map_cons, ih]
      simp only [List.mem_cons, h, false_or]
      split <;> simp

theorem insert_of_not_mem {k : K} (v : V) {es : List (K × V)} (h : k ∉ es.map Prod.fst) :
    insert k v es = es ++ [(k, v)] := by
  induction es with
  | nil => rfl
  | cons e es ih =>
    obtain ⟨hk, hes⟩ := not_or.mp (mt List.mem_cons.mpr h)
    rw [insert, if_neg hk, ih hes]
    rfl

theorem insert_insert (k : K) (v w : V) (es : List (K × V)) :
    insert k w (insert k v es) = insert k w es := by
  induction es with
  | nil => simp [insert]
  | cons e es ih =>
    by_cases h : k = e.1
    · simp [insert, h]
    · simp [insert, h, ih]

/-- Entries under new and distinct keys go to the end in their order. -/
theorem foldl_insert_of_nodup (es more : List (K × V))
    (h : ((es ++ more).map Prod.fst).Nodup) :
    more.foldl (fun es e => insert e.1 e.2 es) es = es ++ more := by
  induction more generalizing es with
  | nil => exact (List.append_nil es).symm
  | cons e more ih =>
    have hfresh : e.1 ∉ es.map Prod.fst := by
      rw [List.map_append, List.map_cons] at h
      intro he
      exact (List.nodup_append.mp h).2.2 _ he _ List.mem_cons_self rfl
    rw [List.append_cons] at h ⊢
    rw [List.foldl_cons, insert_of_not_mem e.2 hfresh, ih _ h]

theorem remove_sublist (k : K) (es : List (K × V)) : (remove k es).Sublist es := by
  induction es with
  | nil => exact List.Sublist.refl _
  | cons e es ih =>
    simp only [remove]
    split
    · exact List.sublist_cons_self e es
    · exact ih.cons_cons e

theorem insert_nodup (k : K) (v : V) {es : List (K × V)} (h : (es.map Prod.fst).Nodup) :
    ((insert k v es).map Prod.fst).Nodup := by
  rw [keys_insert]
  split
  · exact h
  · rename_i hk
    exact List.nodup_append.mpr ⟨h, by simp, by
      intro a ha b hb
      rw [List.mem_singleton.mp hb]
      intro hab
      exact hk (hab ▸ ha)⟩

def empty : Dict K V := ⟨[], List.nodup_nil⟩

def get? (d : Dict K V) (k : K) : Option V := lookup k d.entries

def set (d : Dict K V) (k : K) (v : V) : Dict K V :=
  ⟨insert k v d.entries, insert_nodup k v d.nodup⟩

def pop (d : Dict K V) (k : K) : Dict K V :=
  ⟨remove k d.entries, ((remove_sublist k d.entries).map Prod.fst).nodup d.nodup⟩

def size (d : Dict K V) : Nat := d.entries.length

theorem lookup_insert (k j : K) (v : V) (es : List (K × V)) :
    lookup j (insert k v es) = if j = k then some v else lookup j es := by
  induction es with
  | nil => simp [insert, lookup]
  | cons e es ih =>
    by_cases hk : k = e.1
    · subst hk
      simp only [insert, if_true, lookup]
      split <;> rfl
    · simp only [insert, if_neg hk, lookup, ih]
      by_cases hj : j = e.1
      · simp only [hj, if_true, if_neg (Ne.symm hk)]
      · simp only [if_neg hj]

theorem lookup_map {W : Type*} (f : V → W) (k : K) (es : List (K × V)) :
    lookup k (es.map fun e => (e.1, f e.2)) = (lookup k es).map f := by
  induction es with
  | nil => rfl
  | cons e es ih =>
    rw [List.map_cons, lookup, lookup, ih]
    split
    · rfl
    · rfl

omit [DecidableEq K] in
theorem keys_map {W : Type*} (f : V → W) (es : List (K × V)) :
    (es.map fun e => (e.1, f e.2)).map Prod.fst = es.map Prod.fst := by
  rw [List.map_map]
  rfl

theorem lookup_none_of_not_mem {k : K} {es : List (K × V)} (h : k ∉ es.map Prod.fst) :
    lookup k es = none := by
  induction es with
  | nil => rfl
  | cons e es ih =>
    simp only [List.map_cons, List.mem_cons, not_or] at h
    simp only [lookup, if_neg h.1, ih h.2]

theorem lookup_eq_none_iff (k : K) (es : List (K × V)) :
    lookup k es = none ↔ k ∉ es.map Prod.fst := by
  constructor
  · intro h hk
    obtain ⟨e, he, rfl⟩ := List.mem_map.mp hk
    clear hk
    induction es with
    | nil => cases he
    | cons e' es ih =>
      rw [lookup] at h
      split at h
      · cases h
      · rename_i hne
        rcases List.mem_cons.mp he with rfl | hes
        · exact hne rfl
        · exact ih hes h
  · exact lookup_none_of_not_mem

theorem mem_keys_iff (d : Dict K V) (k : K) :
    k ∈ d.entries.map Prod.fst ↔ (d.get? k).isSome = true := by
  rw [← not_iff_not, ← lookup_eq_none_iff, Option.not_isSome_iff_eq_none]
  rfl

theorem lookup_remove (k j : K) {es : List (K × V)} (h : (es.map Prod.fst).Nodup) :
    lookup j (remove k es) = if j = k then none else lookup j es := by
  induction es with
  | nil => simp [remove, lookup]
  | cons e es ih =>
    obtain ⟨he, hes⟩ := List.nodup_cons.mp h
    by_cases hk : k = e.1
    · subst hk
      simp only [remove, if_true, lookup]
      by_cases hj : j = e.1
      · subst hj
        simpa using lookup_none_of_not_mem he
      · simp only [if_neg hj]
    · simp only [remove, if_neg hk, lookup, ih hes]
      by_cases hj : j = e.1
      · simp only [hj, if_true, if_neg (Ne.symm hk)]
      · simp only [if_neg hj]

@[simp] theorem get?_empty (k : K) : (empty : Dict K V).get? k = none := rfl

theorem get?_set (d : Dict K V) (k j : K) (v : V) :
    (d.set k v).get? j = if j = k then some v else d.get? j :=
  lookup_insert k j v d.entries

@[simp] theorem get?_set_self (d : Dict K V) (k : K) (v : V) : (d.set k v).get? k = some v := by
  simp [get?_set]

theorem get?_set_ne (d : Dict K V) {k j : K} (v : V) (h : j ≠ k) :
    (d.set k v).get? j = d.get? j := by
  simp [get?_set, h]

theorem get?_pop (d : Dict K V) (k j : K) :
    (d.pop k).get? j = if j = k then none else d.get? j :=
  lookup_remove k j d.nodup

@[simp] theorem get?_pop_self (d : Dict K V) (k : K) : (d.pop k).get? k = none := by
  simp [get?_pop]

theorem get?_pop_ne (d : Dict K V) {k j : K} (h : j ≠ k) : (d.pop k).get? j = d.get? j := by
  simp [get?_pop, h]

theorem get?_pop_of_none {d : Dict K V} {k j : K} (h : d.get? j = none) :
    (d.pop k).get? j = none := by
  rw [get?_pop, h, ite_self]

theorem lookup_of_mem {k : K} {v : V} {es : List (K × V)} (h : (es.map Prod.fst).Nodup)
    (hm : (k, v) ∈ es) : lookup k es = some v := by
  induction es with
  | nil => cases hm
  | cons e es ih =>
    obtain ⟨he, hes⟩ := List.nodup_cons.mp h
    rcases List.mem_cons.mp hm with rfl | hm
    · rw [lookup, if_pos rfl]
    · have hne : k ≠ e.1 := by
        rintro rfl
        exact he (List.mem_map.mpr ⟨_, hm, rfl⟩)
      rw [lookup, if_neg hne, ih hes hm]

theorem get?_of_mem {d : Dict K V} {k : K} {v : V} (h : (k, v) ∈ d.entries) : d.get? k = some v :=
  lookup_of_mem d.nodup h

theorem mem_of_lookup {k : K} {v : V} {es : List (K × V)} (h : lookup k es = some v) :
    (k, v) ∈ es := by
  induction es with
  | nil => cases h
  | cons e es ih =>
    rw [lookup] at h
    split at h
    · rename_i hk
      cases h
      rw [hk]
      exact List.mem_cons_self
    · exact List.mem_cons_of_mem e (ih h)

theorem mem_of_get? {d : Dict K V} {k : K} {v : V} (h : d.get? k = some v) : (k, v) ∈ d.entries :=
  mem_of_lookup h

theorem remove_of_lookup_none {k : K} {es : List (K × V)} (h : lookup k es = none) :
    remove k es = es := by
  induction es with
  | nil => rfl
  | cons e es ih =>
    rw [lookup] at h
    split at h
    · cases h
    · rename_i hne
      rw [remove, if_neg hne, ih h]

theorem pop_of_get?_none {d : Dict K V} {k : K} (h : d.get? k = none) : d.pop k = d := by
  obtain ⟨es, hes⟩ := d
  have hrem : remove k es = es := remove_of_lookup_none h
  simp only [pop, hrem]

theorem remove_length {k : K} {v : V} {es : List (K × V)} (h : lookup k es = some v) :
    (remove k es).length + 1 = es.length := by
  induction es with
  | nil => cases h
  | cons e es ih =>
    rw [lookup] at h
    rw [remove]
    split at h
    · rename_i hk
      rw [if_pos hk, List.length_cons]
    · rename_i hk
      rw [if_neg hk, List.length_cons, List.length_cons, ih h]

/-- Taking out a key that is there is noticed. -/
theorem get?_eq_none_of_size_pop {d : Dict K V} {k : K} (h : (d.pop k).size = d.size) :
    d.get? k = none := by
  cases hk : d.get? k with
  | none => rfl
  | some v =>
    have hlen := remove_length hk
    simp only [size, pop] at h
    omega

theorem size_eq_zero {d : Dict K V} (h : ∀ k, d.get? k = none) : d.size = 0 := by
  cases he : d.entries with
  | nil => rw [size, he, List.length_nil]
  | cons e es =>
    have hnone := h e.1
    rw [get?, he, lookup, if_pos rfl] at hnone
    cases hnone

end Dict

end Lib
