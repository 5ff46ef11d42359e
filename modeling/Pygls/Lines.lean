import Mathlib.Algebra.GroupWithZero.Nat
import Mathlib.Data.List.Basic

/-!
# Strings and their lines

A Python `str` is a sequence of code points, lone surrogates included.
`splitlines` is `str.splitlines(True)`: it breaks after every line boundary
Python documents, keeps the terminators, and treats `\r\n` as one terminator.
-/

namespace Pygls

set_option autoImplicit false

abbrev CodePoint := Fin 0x110000

abbrev Str := List CodePoint

-- one instance each, whatever else of the library a module imports
instance neZero_codePoints : NeZero 0x110000 := ⟨by decide⟩

instance lawfulBEq_codePoint : LawfulBEq CodePoint := inferInstance

instance lawfulBEq_str : LawfulBEq Str := inferInstance

namespace Lines

def lf : CodePoint := 0x0A
def cr : CodePoint := 0x0D

def isLineBreak (c : CodePoint) : Bool :=
  c ∈ ([0x0A, 0x0B, 0x0C, 0x0D, 0x1C, 0x1D, 0x1E, 0x85, 0x2028, 0x2029] : List CodePoint)

/-- Put a character in front of the first line; it is a line of its own when there is none. -/
def consLine (c : CodePoint) : List Str → List Str
  | [] => [[c]]
  | l :: ls => (c :: l) :: ls

def splitlines : Str → List Str
  | [] => []
  | [c] => [[c]]
  | c :: d :: cs =>
    if c = cr ∧ d = lf then [c, d] :: splitlines cs
    else if isLineBreak c then [c] :: splitlines (d :: cs)
    else consLine c (splitlines (d :: cs))

/-- `line.replace("\r\n", "\n")` -/
def replaceCrLf : Str → Str
  | [] => []
  | [c] => [c]
  | c :: d :: cs => if c = cr ∧ d = lf then lf :: replaceCrLf cs else c :: replaceCrLf (d :: cs)

/-- The text of a line before its terminator. -/
def body (line : Str) : Str := line.takeWhile fun c => !isLineBreak c

/-- What can end a line: nothing, one boundary character, or `\r\n`. -/
def Terminator (t : Str) : Prop := t = [] ∨ (∃ c, isLineBreak c ∧ t = [c]) ∨ t = [cr, lf]

def endsLine (text : Str) : Bool := text.getLast?.any isLineBreak

/-- `\r\n` occurs at the end of the line or nowhere. -/
def CrLfAtEnd (line : Str) : Prop := ∀ a b : Str, line = a ++ [cr, lf] ++ b → b = []

/-- The line with a final `\r\n` replaced by `\n`. -/
def finalLf (line : Str) : Str := if [cr, lf] <:+ line then line.dropLast.dropLast ++ [lf] else line

@[simp] theorem isLineBreak_cr : isLineBreak cr = true := by decide

@[simp] theorem isLineBreak_lf : isLineBreak lf = true := by decide

theorem flatten_consLine (c : CodePoint) (ls : List Str) :
    (consLine c ls).flatten = c :: ls.flatten := by
  cases ls <;> simp [consLine]

/-- Splitting loses nothing. -/
@[simp] theorem flatten_splitlines (text : Str) : (splitlines text).flatten = text := by
  induction text using splitlines.induct with
  | case1 => rfl
  | case2 c => simp [splitlines]
  | case3 c d cs h ih => simp [splitlines, h, ih]
  | case4 c d cs h hb ih => simp [splitlines, h, hb, ih]
  | case5 c d cs h hb ih => simp [splitlines, h, hb, flatten_consLine, ih]

theorem splitlines_eq_nil {text : Str} (h : splitlines text = []) : text = [] := by
  rw [← flatten_splitlines text, h, List.flatten_nil]

/-- The text is the lines before the last one and the last one. -/
theorem length_splitlines_last {text : Str} (hne : splitlines text ≠ []) :
    text.length = ((splitlines text).take ((splitlines text).length - 1)).flatten.length +
      ((splitlines text).getLast hne).length := by
  have hdecomp : (splitlines text).take ((splitlines text).length - 1) ++
      [(splitlines text).getLast hne] = splitlines text := by
    rw [← List.dropLast_eq_take, List.dropLast_concat_getLast]
  have hflat := congrArg (fun lines => lines.flatten.length) hdecomp
  simp only [List.flatten_append, List.length_append, flatten_splitlines,
    List.flatten_singleton] at hflat
  exact hflat.symm

theorem body_append {b t : Str} (hb : ∀ c ∈ b, isLineBreak c = false) (ht : Terminator t) :
    body (b ++ t) = b := by
  unfold body
  rw [List.takeWhile_append_of_pos (by simpa using hb)]
  rcases ht with rfl | ⟨c, hc, rfl⟩ | rfl <;> simp [List.takeWhile, *]

/-- A line is its text, free of boundaries, followed by its terminator. -/
theorem splitlines_line (text : Str) :
    ∀ l ∈ splitlines text, ∃ b t, l = b ++ t ∧ (∀ c ∈ b, isLineBreak c = false) ∧
      Terminator t ∧ l ≠ [] := by
  induction text using splitlines.induct with
  | case1 => simp [splitlines]
  | case2 c =>
    intro l hl
    obtain rfl : l = [c] := by simpa [splitlines] using hl
    by_cases hc : isLineBreak c
    · exact ⟨[], [c], rfl, by simp, Or.inr (Or.inl ⟨c, hc, rfl⟩), by simp⟩
    · exact ⟨[c], [], rfl, by simpa using hc, Or.inl rfl, by simp⟩
  | case3 c d cs h ih =>
    intro l hl
    simp only [splitlines, h, and_self, if_true, List.mem_cons] at hl
    rcases hl with rfl | hl
    · exact ⟨[], [cr, lf], rfl, by simp, Or.inr (Or.inr rfl), by simp⟩
    · exact ih l hl
  | case4 c d cs h hb ih =>
    intro l hl
    simp only [splitlines, h, hb, if_true, if_false, List.mem_cons] at hl
    rcases hl with rfl | hl
    · exact ⟨[], [c], rfl, by simp, Or.inr (Or.inl ⟨c, hb, rfl⟩), by simp⟩
    · exact ih l hl
  | case5 c d cs h hb ih =>
    intro l hl
    simp only [splitlines, h, hb, if_false] at hl
    have hc : isLineBreak c = false := by simpa using hb
    cases hs : splitlines (d :: cs) with
    | nil => exact absurd (splitlines_eq_nil hs) (by simp)
    | cons l₀ ls =>
      rw [hs] at hl
      rcases List.mem_cons.mp hl with rfl | hl
      · obtain ⟨b, t, rfl, hb', ht, -⟩ := ih l₀ (by simp [hs])
        exact ⟨c :: b, t, rfl, by simpa [hc] using hb', ht, by simp⟩
      · exact ih l (by simp [hs, hl])

theorem replaceCrLf_append {b : Str} (t : Str) (hb : ∀ c ∈ b, isLineBreak c = false) :
    replaceCrLf (b ++ t) = b ++ replaceCrLf t := by
  induction b with
  | nil => rfl
  | cons c b ih =>
    have hc : c ≠ cr := fun h => by simpa [h] using hb c (by simp)
    have ih := ih fun d hd => hb d (List.mem_cons_of_mem c hd)
    cases hbt : b ++ t with
    | nil =>
      obtain ⟨rfl, rfl⟩ := List.append_eq_nil_iff.mp hbt
      rfl
    | cons d rest =>
      rw [hbt] at ih
      simp [hbt, replaceCrLf, hc, ih]

theorem length_replaceCrLf_le (line : Str) : (replaceCrLf line).length ≤ line.length := by
  induction line using replaceCrLf.induct with
  | case1 => exact Nat.le_refl _
  | case2 c => exact Nat.le_refl _
  | case3 c d cs h ih =>
    simp only [replaceCrLf, if_pos h, List.length_cons]
    omega
  | case4 c d cs h ih =>
    simp only [replaceCrLf, if_neg h, List.length_cons] at ih ⊢
    omega

theorem CrLfAtEnd.tail {c : CodePoint} {cs : Str} (h : CrLfAtEnd (c :: cs)) : CrLfAtEnd cs := by
  intro a b hab
  apply h (c :: a) b
  rw [hab]
  rfl

/-- Where `\r\n` only ends a line, replacing it everywhere replaces it at the end. -/
theorem replaceCrLf_cases {line : Str} (h : CrLfAtEnd line) :
    (∃ b, line = b ++ [cr, lf] ∧ replaceCrLf line = b ++ [lf]) ∨
      ¬ [cr, lf] <:+ line ∧ replaceCrLf line = line := by
  induction line using replaceCrLf.induct with
  | case1 => exact Or.inr ⟨by simp, rfl⟩
  | case2 c =>
    refine Or.inr ⟨?_, rfl⟩
    intro hsuffix
    have hlen := hsuffix.length_le
    simp at hlen
  | case3 c d cs hcd ih =>
    obtain ⟨rfl, rfl⟩ := hcd
    obtain rfl : cs = [] := h [] cs rfl
    exact Or.inl ⟨[], rfl, rfl⟩
  | case4 c d cs hcd ih =>
    rw [replaceCrLf, if_neg hcd]
    rcases ih h.tail with ⟨b, hb, hrep⟩ | ⟨hno, hrep⟩
    · exact Or.inl ⟨c :: b, by rw [hb]; rfl, by rw [hrep]; rfl⟩
    · refine Or.inr ⟨?_, by rw [hrep]⟩
      intro hsuffix
      rcases List.suffix_cons_iff.mp hsuffix with heq | hin
      · simp only [List.cons.injEq] at heq
        exact hcd ⟨heq.1.symm, heq.2.1.symm⟩
      · exact hno hin

theorem replaceCrLf_eq_finalLf {line : Str} (h : CrLfAtEnd line) :
    replaceCrLf line = finalLf line := by
  unfold finalLf
  rcases replaceCrLf_cases h with ⟨b, rfl, hrep⟩ | ⟨hno, hrep⟩
  · rw [if_pos (List.suffix_append b _), hrep]
    simp
  · rw [if_neg hno, hrep]

/-- A line that `splitlines` cuts off has `\r\n` at most as its terminator. -/
theorem crLfAtEnd_of_mem {text line : Str} (h : line ∈ splitlines text) : CrLfAtEnd line := by
  obtain ⟨b, t, rfl, hb, ht, -⟩ := splitlines_line text line h
  intro a c hac
  -- the `\r` lies in the terminator, which it can only start
  rcases List.append_eq_append_iff.mp ((List.append_assoc a [cr, lf] c).symm.trans hac.symm).symm
    with ⟨x, rfl, hx⟩ | ⟨x, rfl, hx⟩
  · rcases ht with rfl | ⟨d, -, rfl⟩ | rfl
    · simp at hx
    · have hlen := congrArg List.length hx
      simp at hlen
      omega
    · have hlen := congrArg List.length hx
      apply List.eq_nil_of_length_eq_zero
      simp at hlen
      omega
  · cases x with
    | nil =>
      rcases ht with rfl | ⟨d, -, rfl⟩ | rfl
      · simp at hx
      · simp at hx
      · simpa using hx
    | cons d x =>
      have hd : d = cr := by
        simp only [List.cons_append, List.cons.injEq] at hx
        exact hx.1.symm
      have hbreak := hb d (by simp)
      rw [hd, isLineBreak_cr] at hbreak
      cases hbreak

end Lines

end Pygls
