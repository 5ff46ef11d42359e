import Mathlib.Data.List.TakeWhile
import Pygls.LineEnds

/-!
# The client's lines

In the protocol a line ends at `\n`, `\r\n` or `\r` and nowhere else, and there is
always a last line without terminator. `TextDocument.lines` also ends a line at the
other boundaries of `str.splitlines` and has no empty last line.
-/

namespace Pygls.ClientLines

open Lines PositionCodec TextDocument TextSync Offsets LineEnds

set_option autoImplicit false

/-- The lines of the protocol, with their terminators. -/
def clientLines : Str → List Str
  | [] => [[]]
  | [c] => if isClientBreak c then [[c], []] else [[c]]
  | c :: d :: cs =>
    if c = cr ∧ d = lf then [c, d] :: clientLines cs
    else if isClientBreak c then [c] :: clientLines (d :: cs)
    else consLine c (clientLines (d :: cs))

/-- A position the client forms: a boundary in the text of one of its lines, at the `k`th
code point of the text. -/
def Place (encoding : Encoding) (text : Str) (p : Position) (k : Nat) : Prop :=
  ∃ line before, (clientLines text)[p.line]? = some line ∧ before <+: withoutTerminator line ∧
    p.character = clientNumUnits encoding before ∧
    k = ((clientLines text).take p.line).flatten.length + before.length

/-- The only boundaries Python adds lie at the very end. -/
def Unbroken (text : Str) : Prop :=
  ∀ c ∈ text.dropLast, isLineBreak c = true → isClientBreak c = true

/-- A text is a last line, or starts with a line that both sides end, or with one that
only Python ends. -/
theorem lines_induction {motive : Str → Prop}
    (last : ∀ b, (∀ c ∈ b, isLineBreak c = false) → motive b)
    (client : ∀ b t tail, (∀ c ∈ b, isLineBreak c = false) → t ≠ [] → ClientTerminator t →
      (t = [cr] → tail.head? ≠ some lf) → motive tail → motive (b ++ t ++ tail))
    (other : ∀ b x tail, (∀ c ∈ b, isLineBreak c = false) → isLineBreak x = true →
      isClientBreak x = false → motive tail → motive (b ++ [x] ++ tail))
    (text : Str) : motive text := by
  induction hn : text.length using Nat.strong_induction_on generalizing text with
  | _ n ih =>
    have hsplit := List.takeWhile_append_dropWhile (p := fun c => !isLineBreak c) (l := text)
    have hb : ∀ c ∈ text.takeWhile (fun c => !isLineBreak c), isLineBreak c = false := by
      intro c hc
      simpa using List.mem_takeWhile_imp hc
    generalize hb' : text.takeWhile (fun c => !isLineBreak c) = b at hb hsplit
    cases hrest : text.dropWhile (fun c => !isLineBreak c) with
    | nil =>
      rw [hrest, List.append_nil] at hsplit
      rw [← hsplit]
      exact last b hb
    | cons x rest =>
      have hx : isLineBreak x = true := by
        have hhead := List.head?_dropWhile_not (fun c => !isLineBreak c) text
        rw [hrest] at hhead
        simpa using hhead
      rw [hrest] at hsplit
      have hlen := congrArg List.length hsplit
      rw [List.length_append, List.length_cons] at hlen
      by_cases hclient : isClientBreak x = true
      · by_cases hcrlf : x = cr ∧ rest.head? = some lf
        · obtain ⟨rfl, hlf⟩ := hcrlf
          obtain ⟨tail, rfl⟩ := List.head?_eq_some_iff.mp hlf
          have hcut := client b [cr, lf] tail hb (by simp) (Or.inr (Or.inr (Or.inr rfl)))
            (by simp) (ih tail.length (by rw [List.length_cons] at hlen; omega) tail rfl)
          rw [← hsplit]
          simpa using hcut
        · have hterm : ClientTerminator [x] := by
            rcases of_decide_eq_true hclient with rfl | rfl
            · exact Or.inr (Or.inl rfl)
            · exact Or.inr (Or.inr (Or.inl rfl))
          have hcut := client b [x] rest hb (by simp) hterm
            (fun hcr hlf => hcrlf ⟨List.singleton_inj.mp hcr, hlf⟩)
            (ih rest.length (by omega) rest rfl)
          rw [← hsplit]
          simpa using hcut
      · have hcut := other b x rest hb hx (Bool.eq_false_of_not_eq_true hclient)
          (ih rest.length (by omega) rest rfl)
        rw [← hsplit]
        simpa using hcut

theorem splitlines_last {b : Str} (hb : ∀ c ∈ b, isLineBreak c = false) (hne : b ≠ []) :
    splitlines b = [b] := by
  induction b using splitlines.induct with
  | case1 => exact absurd rfl hne
  | case2 c => rfl
  | case3 c d cs h ih =>
    have hc := hb c List.mem_cons_self
    rw [h.1, isLineBreak_cr] at hc
    cases hc
  | case4 c d cs h hbreak ih =>
    rw [hb c List.mem_cons_self] at hbreak
    cases hbreak
  | case5 c d cs h hbreak ih =>
    rw [splitlines, if_neg h, if_neg hbreak,
      ih (fun e he => hb e (List.mem_cons_of_mem c he)) (List.cons_ne_nil d cs)]
    rfl

/-- A complete line is cut off. -/
theorem splitlines_append {b t tail : Str} (hb : ∀ c ∈ b, isLineBreak c = false)
    (ht : Terminator t) (hne : t ≠ []) (hcr : t = [cr] → tail.head? ≠ some lf) :
    splitlines (b ++ t ++ tail) = (b ++ t) :: splitlines tail := by
  induction b with
  | nil =>
    rcases ht with rfl | ⟨c, hc, rfl⟩ | rfl
    · exact absurd rfl hne
    · cases tail with
      | nil => rfl
      | cons d tail =>
        have hnot : ¬ (c = cr ∧ d = lf) := by
          rintro ⟨rfl, rfl⟩
          exact hcr rfl rfl
        simp [splitlines, hnot, hc]
    · simp [splitlines]
  | cons c b ih =>
    have hc := hb c List.mem_cons_self
    have hcr' : c ≠ cr := by
      rintro rfl
      rw [isLineBreak_cr] at hc
      cases hc
    have ih := ih fun d hd => hb d (List.mem_cons_of_mem c hd)
    cases hrest : b ++ t ++ tail with
    | nil => simp [hne] at hrest
    | cons d rest =>
      rw [hrest] at ih
      rw [List.cons_append, List.cons_append, hrest, splitlines, if_neg (fun h => hcr' h.1), hc,
        if_neg (by decide), ih]
      rfl

theorem clientLines_append {b : Str} (hb : ∀ c ∈ b, isClientBreak c = false) (tail : Str) :
    ∃ head rest, clientLines tail = head :: rest ∧ clientLines (b ++ tail) = (b ++ head) :: rest := by
  induction b with
  | nil =>
    cases hlines : clientLines tail with
    | cons head rest => exact ⟨head, rest, rfl, hlines⟩
    | nil =>
      induction tail using clientLines.induct with
      | case1 => cases hlines
      | case2 c hc =>
        rw [clientLines, if_pos hc] at hlines
        cases hlines
      | case3 c hc =>
        rw [clientLines, if_neg hc] at hlines
        cases hlines
      | case4 c d cs h ih =>
        rw [clientLines, if_pos h] at hlines
        cases hlines
      | case5 c d cs h hc ih =>
        rw [clientLines, if_neg h, if_pos hc] at hlines
        cases hlines
      | case6 c d cs h hc ih =>
        rw [clientLines, if_neg h, if_neg hc] at hlines
        cases hcs : clientLines (d :: cs) with
        | nil =>
          rw [hcs] at hlines
          cases hlines
        | cons l ls =>
          rw [hcs] at hlines
          cases hlines
  | cons c b ih =>
    have hc := hb c List.mem_cons_self
    have hcr : c ≠ cr := by
      rintro rfl
      cases hc
    obtain ⟨head, rest, htail, hlines⟩ := ih fun d hd => hb d (List.mem_cons_of_mem c hd)
    refine ⟨head, rest, htail, ?_⟩
    cases hbt : b ++ tail with
    | nil =>
      obtain ⟨rfl, rfl⟩ := List.append_eq_nil_iff.mp hbt
      cases htail
      simp [clientLines, hc]
    | cons d cs =>
      rw [hbt] at hlines
      rw [List.cons_append, hbt, clientLines, if_neg (fun h => hcr h.1), hc, if_neg (by decide),
        hlines]
      rfl

theorem clientLines_terminator {t tail : Str} (ht : ClientTerminator t) (hne : t ≠ [])
    (hcr : t = [cr] → tail.head? ≠ some lf) : clientLines (t ++ tail) = t :: clientLines tail := by
  rcases ht with rfl | rfl | rfl | rfl
  · exact absurd rfl hne
  · cases tail with
    | nil => rfl
    | cons d tail =>
      rw [List.singleton_append, clientLines, if_neg (fun h => absurd h.1 (by decide)),
        if_pos (by decide)]
  · cases tail with
    | nil => rfl
    | cons d tail =>
      have hd : ¬ (cr = cr ∧ d = lf) := by
        rintro ⟨-, rfl⟩
        exact hcr rfl rfl
      rw [List.singleton_append, clientLines, if_neg hd, if_pos (by decide)]
  · rw [List.cons_append, List.singleton_append, clientLines, if_pos ⟨rfl, rfl⟩]

theorem flatten_clientLines (text : Str) : (clientLines text).flatten = text := by
  induction text using clientLines.induct with
  | case1 => rfl
  | case2 c hc => simp [clientLines, hc]
  | case3 c hc => simp [clientLines, hc]
  | case4 c d cs h ih => simp [clientLines, h, ih]
  | case5 c d cs h hc ih => simp [clientLines, h, hc, ih]
  | case6 c d cs h hc ih => simp [clientLines, h, hc, flatten_consLine, ih]

theorem clientLines_last {b : Str} (hb : ∀ c ∈ b, isLineBreak c = false) : clientLines b = [b] := by
  obtain ⟨head, rest, hnil, hlines⟩ := clientLines_append (not_client_of_not_break hb) []
  cases hnil
  rw [List.append_nil] at hlines
  exact hlines

theorem clientLines_line {b t tail : Str} (hb : ∀ c ∈ b, isLineBreak c = false) (hne : t ≠ [])
    (ht : ClientTerminator t) (hcr : t = [cr] → tail.head? ≠ some lf) :
    clientLines (b ++ t ++ tail) = (b ++ t) :: clientLines tail := by
  obtain ⟨head, rest, hrest, hlines⟩ :=
    clientLines_append (not_client_of_not_break hb) (t ++ tail)
  rw [clientLines_terminator ht hne hcr] at hrest
  cases hrest
  rw [List.append_assoc, hlines]

theorem clientLines_other {b : Str} {x : CodePoint} (hb : ∀ c ∈ b, isLineBreak c = false)
    (hx : isClientBreak x = false) (tail : Str) :
    ∃ head rest, clientLines tail = head :: rest ∧
      clientLines (b ++ [x] ++ tail) = (b ++ [x] ++ head) :: rest := by
  apply clientLines_append
  intro c hc
  rcases List.mem_append.mp hc with hc | hc
  · exact not_client_of_not_break hb c hc
  · rw [List.mem_singleton.mp hc]
    exact hx

theorem terminator_of_client {t : Str} (ht : ClientTerminator t) : Terminator t := by
  rcases ht with rfl | rfl | rfl | rfl
  · exact Or.inl rfl
  · exact Or.inr (Or.inl ⟨lf, isLineBreak_lf, rfl⟩)
  · exact Or.inr (Or.inl ⟨cr, isLineBreak_cr, rfl⟩)
  · exact Or.inr (Or.inr rfl)

theorem client_of_mem_terminator {t : Str} (ht : ClientTerminator t) {c : CodePoint} (hc : c ∈ t) :
    isClientBreak c = true := by
  have hends : c = lf ∨ c = cr := by
    rcases ht with rfl | rfl | rfl | rfl
    · exact absurd hc List.not_mem_nil
    · exact Or.inl (List.mem_singleton.mp hc)
    · exact Or.inr (List.mem_singleton.mp hc)
    · exact (List.mem_pair.mp hc).symm
  exact decide_eq_true hends

theorem splitlines_other {b : Str} {x : CodePoint} (hb : ∀ c ∈ b, isLineBreak c = false)
    (hx : isLineBreak x = true) (hclient : isClientBreak x = false) (tail : Str) :
    splitlines (b ++ [x] ++ tail) = (b ++ [x]) :: splitlines tail := by
  apply splitlines_append hb (Or.inr (Or.inl ⟨x, hx, rfl⟩)) (List.cons_ne_nil x [])
  intro hcr
  rw [List.singleton_inj.mp hcr] at hclient
  cases hclient

theorem withoutTerminator_le (line : Str) : withoutTerminator line <+: line := cut_le line

theorem unbroken_append {l a : Str} (hl : ∀ c ∈ l, isLineBreak c = true → isClientBreak c = true)
    (ha : Unbroken a) : Unbroken (l ++ a) := by
  intro c hc hbreak
  by_cases hnil : a = []
  · rw [hnil, List.append_nil] at hc
    exact hl c (List.dropLast_subset l hc) hbreak
  · rw [List.dropLast_append_of_ne_nil hnil] at hc
    rcases List.mem_append.mp hc with hc | hc
    · exact hl c hc hbreak
    · exact ha c hc hbreak

theorem Unbroken.right {l a : Str} (h : Unbroken (l ++ a)) : Unbroken a := by
  intro c hc hbreak
  have hnil : a ≠ [] := by
    rintro rfl
    exact absurd hc List.not_mem_nil
  apply h c _ hbreak
  rw [List.dropLast_append_of_ne_nil hnil]
  exact List.mem_append_right l hc

theorem Unbroken.take {a : Str} (h : Unbroken a) (n : Nat) : Unbroken (a.take n) := by
  intro c hc hbreak
  refine h c ?_ hbreak
  rw [List.dropLast_eq_take] at hc ⊢
  rw [List.take_take] at hc
  exact List.take_subset_take_left a (by rw [List.length_take]; omega) hc

/-- A character that only Python breaks at has nothing behind it. -/
theorem Unbroken.end {l a : Str} {x : CodePoint} (h : Unbroken (l ++ [x] ++ a))
    (hx : isLineBreak x = true) (hclient : isClientBreak x = false) : a = [] := by
  by_contra hnil
  have hmem : x ∈ (l ++ [x] ++ a).dropLast := by
    rw [List.dropLast_append_of_ne_nil hnil]
    simp
  rw [h x hmem hx] at hclient
  cases hclient

theorem unbroken_of_isPrefix {b before : Str} {x : CodePoint}
    (hb : ∀ c ∈ b, isLineBreak c = false) (hpre : before <+: b ++ [x]) : Unbroken before := by
  have hall : Unbroken (b ++ [x]) := by
    intro c hc hbreak
    rw [List.dropLast_concat] at hc
    rw [hb c hc] at hbreak
    cases hbreak
  rw [List.prefix_iff_eq_take.mp hpre]
  exact hall.take _

/-- Python's lines end no later than the client's of the same number. -/
theorem splitlines_ahead (text : Str) {i : Nat} (hi : i + 1 < (clientLines text).length) :
    i < (splitlines text).length ∧ ((splitlines text).take (i + 1)).flatten.length ≤
      ((clientLines text).take (i + 1)).flatten.length := by
  induction text using lines_induction generalizing i with
  | last b hb =>
    rw [clientLines_last hb, List.length_singleton] at hi
    omega
  | client b t tail hb hne ht hcr ih =>
    rw [clientLines_line hb hne ht hcr] at hi ⊢
    rw [splitlines_append hb (terminator_of_client ht) hne hcr]
    cases i with
    | zero => simp
    | succ i =>
      obtain ⟨hlt, hle⟩ := ih (i := i) (by simpa using hi)
      simp only [List.take_succ_cons, List.flatten_cons, List.length_append, List.length_cons]
      omega
  | other b x tail hb hx hclient ih =>
    obtain ⟨head, rest, htail, hlines⟩ := clientLines_other hb hclient tail
    rw [hlines] at hi ⊢
    rw [splitlines_other hb hx hclient]
    rw [htail] at ih
    cases i with
    | zero => simp
    | succ i =>
      -- the client is one line behind from here on
      rw [List.length_cons] at hi
      obtain ⟨hlt, hle⟩ := ih (i := i) (by rw [List.length_cons]; omega)
      obtain ⟨more, hmore⟩ := List.take_prefix_take_left (l := rest) (Nat.le_add_right i 1)
      have hstep := congrArg (fun lines => lines.flatten.length) hmore
      simp only [List.flatten_append, List.length_append] at hstep
      simp only [List.take_succ_cons, List.flatten_cons, List.length_append, List.length_cons,
        List.length_nil] at hle ⊢
      omega

theorem offsetAtPosition_succ {encoding : Encoding} {text l tail : Str} {i u : Nat}
    (hlines : splitlines text = l :: splitlines tail) (hne : tail ≠ []) :
    offsetAtPosition encoding text ⟨i + 1, u⟩ = l.length + offsetAtPosition encoding tail ⟨i, u⟩ := by
  have hls : splitlines tail ≠ [] := fun h => hne (splitlines_eq_nil h)
  have hconv : (positionFromClientUnits encoding (l :: splitlines tail) ⟨i + 1, u⟩).1 =
      ⟨(positionFromClientUnits encoding (splitlines tail) ⟨i, u⟩).1.line + 1,
        (positionFromClientUnits encoding (splitlines tail) ⟨i, u⟩).1.character⟩ := by
    cases hline : (splitlines tail)[i]? with
    | none =>
      have hout := List.getElem?_eq_none_iff.mp hline
      have hpos := List.length_pos_iff.mpr hls
      rw [positionFromClientUnits_past encoding hls hout, positionFromClientUnits_past encoding
        (List.cons_ne_nil l _) (by rw [List.length_cons]; exact Nat.succ_le_succ hout)]
      simp only [List.getLast_cons hls, List.length_cons, Position.mk.injEq, and_true]
      omega
    | some line =>
      have hlen : (splitlines tail).length ≠ 0 := fun h => hls (List.eq_nil_of_length_eq_zero h)
      simp only [positionFromClientUnits, List.length_cons, Nat.succ_ne_zero, if_false, hlen,
        List.getElem?_cons_succ, hline]
      split
      · rfl
      · split <;> rfl
  rw [offsetAtPosition, hlines, hconv, offset_succ]
  rfl

/-- Where the server is ahead by a line, the client's next line lies behind the server's. -/
theorem offset_ahead {encoding : Encoding} (h : Negotiable encoding) (text : Str) {i : Nat}
    {before : Str} (hi : i + 1 < (clientLines text).length) :
    offsetAtPosition encoding text ⟨i, clientNumUnits encoding before⟩ <
      ((clientLines text).take (i + 1)).flatten.length + before.length := by
  obtain ⟨hlt, hle⟩ := splitlines_ahead text hi
  by_cases hnil : before = []
  · -- an empty column is at the start of the server's line
    have hget := List.getElem?_eq_getElem hlt
    have hshort := flatten_take_succ hget
    obtain ⟨-, -, -, -, -, hl⟩ := splitlines_line text _ (List.mem_of_getElem? hget)
    have hpos := List.length_pos_iff.mpr hl
    have hzero : search encoding 0 (replaceCrLf ((splitlines text)[i])) 0 0 = 0 := by
      have hstart := search_prefix h [] (replaceCrLf ((splitlines text)[i])) 0 0
      rw [clientNumUnits_nil] at hstart
      exact hstart
    rw [hnil, clientNumUnits_nil, offsetAtPosition,
      positionFromClientUnits_line h hget (Nat.zero_le _), offset_eq, hzero]
    dsimp only
    omega
  · have hend := offsetAtPosition_le_end encoding
      (show (⟨i, clientNumUnits encoding before⟩ : Position).line < _ from hlt)
    have hpos := List.length_pos_iff.mpr hnil
    dsimp only at hend
    omega

/-- Once Python has ended a line of its own before the place, the server stays in front of it. -/
theorem offset_behind {encoding : Encoding} (h : Negotiable encoding) (text : Str) {i : Nat}
    {line before : Str} (hline : (clientLines text)[i]? = some line)
    (hbefore : before <+: withoutTerminator line)
    (hbroken : ¬ Unbroken (((clientLines text).take i).flatten ++ before)) :
    offsetAtPosition encoding text ⟨i, clientNumUnits encoding before⟩ <
      ((clientLines text).take i).flatten.length + before.length := by
  induction text using lines_induction generalizing i with
  | last b hb =>
    rw [clientLines_last hb] at hline hbroken ⊢
    cases i with
    | zero =>
      cases hline
      exact absurd (unbroken_of_isPrefix (x := lf) hb
        ((hbefore.trans (withoutTerminator_le _)).trans (List.prefix_append _ _))) hbroken
    | succ i => cases hline
  | client b t tail hb hne ht hcr ih =>
    have hlines := splitlines_append hb (terminator_of_client ht) hne hcr
    rw [clientLines_line hb hne ht hcr] at hline hbroken ⊢
    cases i with
    | zero =>
      cases hline
      rw [withoutTerminator_append (not_client_of_not_break hb) ht] at hbefore
      exact absurd (unbroken_of_isPrefix (x := lf) hb
        (hbefore.trans (List.prefix_append b _))) hbroken
    | succ i =>
      rw [List.take_succ_cons, List.flatten_cons, List.append_assoc] at hbroken
      have htail : ¬ Unbroken (((clientLines tail).take i).flatten ++ before) := by
        intro hun
        apply hbroken
        apply unbroken_append _ hun
        intro c hc hbreak
        rcases List.mem_append.mp hc with hc | hc
        · rw [hb c hc] at hbreak
          cases hbreak
        · exact client_of_mem_terminator ht hc
      have hless := ih (i := i) (by simpa using hline) htail
      have hne' : tail ≠ [] := by
        rintro rfl
        cases i with
        | zero =>
          cases hline
          obtain rfl : before = [] := List.prefix_nil.mp hbefore
          exact htail fun c hc => absurd hc List.not_mem_nil
        | succ i => cases hline
      rw [offsetAtPosition_succ hlines hne']
      simp only [List.take_succ_cons, List.flatten_cons, List.length_append]
      omega
  | other b x tail hb hx hclient ih =>
    obtain ⟨head, rest, htail, hclientLines⟩ := clientLines_other hb hclient tail
    have hlines := splitlines_other hb hx hclient tail
    rw [hclientLines] at hline hbroken ⊢
    cases i with
    | zero =>
      cases hline
      have hlong : (b ++ [x]).length < before.length := by
        by_contra hshort
        apply hbroken
        exact unbroken_of_isPrefix hb (List.prefix_of_prefix_length_le
          (hbefore.trans (withoutTerminator_le _)) (List.prefix_append _ head)
          (Nat.le_of_not_lt hshort))
      have hfirst : (⟨0, clientNumUnits encoding before⟩ : Position).line <
          (splitlines (b ++ [x] ++ tail)).length := by
        rw [hlines]
        exact Nat.succ_pos _
      have hend := offsetAtPosition_le_end encoding hfirst
      rw [hlines] at hend
      simp only [List.take_succ_cons, List.take_zero, List.flatten_cons, List.flatten_nil,
        List.append_nil, List.length_nil, Nat.zero_add] at hend ⊢
      omega
    | succ i =>
      have hi := (List.getElem?_eq_some_iff.mp hline).1
      rw [List.length_cons] at hi
      have hahead : i + 1 < (clientLines tail).length := by
        rw [htail, List.length_cons]
        omega
      have hne : tail ≠ [] := by
        rintro rfl
        exact absurd (splitlines_ahead [] hahead).1 (Nat.not_lt_zero i)
      have hstrict : offsetAtPosition encoding tail ⟨i, clientNumUnits encoding before⟩ <
          ((clientLines tail).take (i + 1)).flatten.length + before.length :=
        offset_ahead h tail hahead
      rw [offsetAtPosition_succ hlines hne]
      rw [htail] at hstrict
      simp only [List.take_succ_cons, List.flatten_cons, List.length_append] at hstrict ⊢
      omega

/-- As long as Python has ended no line of its own, both sides have the same lines before the
place, and the place lies in a line of the server or behind the last one. -/
theorem unbroken_place (text : Str) {i : Nat} {line before : Str}
    (hline : (clientLines text)[i]? = some line) (hbefore : before <+: withoutTerminator line)
    (hun : Unbroken (((clientLines text).take i).flatten ++ before)) :
    (splitlines text).take i = (clientLines text).take i ∧
      ((∃ line', (splitlines text)[i]? = some line' ∧ before <+: replaceCrLf line') ∨
        ((splitlines text).length ≤ i ∧ before = [])) := by
  induction text using lines_induction generalizing i with
  | last b hb =>
    rw [clientLines_last hb] at hline ⊢
    cases i with
    | succ i => cases hline
    | zero =>
      obtain rfl := Option.some.inj hline
      have hprefix := hbefore.trans (withoutTerminator_le b)
      refine ⟨rfl, ?_⟩
      by_cases hnil : b = []
      · obtain rfl := hnil
        exact Or.inr ⟨Nat.le_refl 0, List.prefix_nil.mp hprefix⟩
      · have hrep := replaceCrLf_append [] hb
        rw [List.append_nil] at hrep
        refine Or.inl ⟨b, by rw [splitlines_last hb hnil]; rfl, ?_⟩
        rw [hrep]
        exact hprefix.trans (List.prefix_append b _)
  | client b t tail hb hne ht hcr ih =>
    rw [clientLines_line hb hne ht hcr] at hline hun ⊢
    rw [splitlines_append hb (terminator_of_client ht) hne hcr]
    cases i with
    | zero =>
      obtain rfl := Option.some.inj hline
      rw [withoutTerminator_append (not_client_of_not_break hb) ht] at hbefore
      refine ⟨rfl, Or.inl ⟨b ++ t, rfl, ?_⟩⟩
      rw [replaceCrLf_append t hb]
      exact hbefore.trans (List.prefix_append b _)
    | succ i =>
      rw [List.take_succ_cons, List.flatten_cons, List.append_assoc] at hun
      obtain ⟨htake, hplace⟩ := ih (i := i) (by simpa using hline) hun.right
      refine ⟨by rw [List.take_succ_cons, List.take_succ_cons, htake], ?_⟩
      rcases hplace with ⟨line', hline', hprefix⟩ | ⟨hout, hnil⟩
      · exact Or.inl ⟨line', by simpa using hline', hprefix⟩
      · exact Or.inr ⟨by simpa using hout, hnil⟩
  | other b x tail hb hx hclient ih =>
    obtain ⟨head, rest, htail, hclientLines⟩ := clientLines_other hb hclient tail
    rw [hclientLines] at hline hun ⊢
    rw [splitlines_other hb hx hclient]
    cases i with
    | zero =>
      obtain rfl := Option.some.inj hline
      have hlong := hbefore.trans (withoutTerminator_le _)
      have hshort : before <+: b ++ [x] := by
        rcases List.prefix_or_prefix_of_prefix hlong (List.prefix_append (b ++ [x]) head) with
          hshort | ⟨more, rfl⟩
        · exact hshort
        · obtain rfl := Unbroken.end (a := more) hun hx hclient
          exact ⟨[], by simp⟩
      refine ⟨rfl, Or.inl ⟨b ++ [x], rfl, ?_⟩⟩
      rw [replaceCrLf_append [x] hb]
      exact hshort
    | succ i =>
      -- a whole client line would lie behind the boundary
      exfalso
      have hi := (List.getElem?_eq_some_iff.mp hline).1
      rw [List.length_cons] at hi
      obtain ⟨hlt, hle⟩ := splitlines_ahead tail (i := 0) (by rw [htail, List.length_cons]; omega)
      have hget := List.getElem?_eq_getElem hlt
      obtain ⟨-, -, -, -, -, hl⟩ := splitlines_line tail _ (List.mem_of_getElem? hget)
      have hpos := List.length_pos_iff.mpr hl
      rw [flatten_take_succ hget, htail] at hle
      simp only [List.take_succ_cons, List.take_zero, List.flatten_cons, List.flatten_nil,
        List.append_nil] at hle
      rw [List.take_succ_cons, List.flatten_cons, List.append_assoc, List.append_assoc] at hun
      have hnil := congrArg List.length (Unbroken.end hun hx hclient)
      simp only [List.length_append, List.length_nil] at hnil
      omega

/-- The text in front of a place. -/
theorem take_place {text : Str} {i k : Nat} {line before : Str}
    (hline : (clientLines text)[i]? = some line) (hbefore : before <+: withoutTerminator line)
    (hk : k = ((clientLines text).take i).flatten.length + before.length) :
    text.take k = ((clientLines text).take i).flatten ++ before := by
  obtain ⟨more, hmore⟩ := hbefore.trans (withoutTerminator_le line)
  have hlt := (List.getElem?_eq_some_iff.mp hline).1
  have hsplit : text = ((clientLines text).take i).flatten ++
      (before ++ (more ++ ((clientLines text).drop (i + 1)).flatten)) := by
    have hget : (clientLines text)[i] = line :=
      Option.some.inj ((List.getElem?_eq_getElem hlt).symm.trans hline)
    conv_lhs => rw [← flatten_clientLines text, ← List.take_append_drop i (clientLines text),
      List.drop_eq_getElem_cons hlt, hget, ← hmore]
    simp
  conv_lhs => rw [hsplit]
  rw [hk, List.take_length_add_append, List.take_left]

/-- The offset of a place is right exactly when no line of Python's own ends before it and it
does not lie behind a last line with wide characters. -/
theorem offset_eq_iff {encoding : Encoding} (h : Negotiable encoding) {text : Str} {p : Position}
    {k : Nat} (hp : Place encoding text p k) :
    offsetAtPosition encoding text p = k ↔ Unbroken (text.take k) ∧
      (p.line < (splitlines text).length ∨
        Narrow encoding ((splitlines text).getLast?.getD [])) := by
  obtain ⟨line, before, hline, hbefore, hchar, hk⟩ := hp
  obtain ⟨i, u⟩ := p
  dsimp only at hline hchar hk ⊢
  rw [take_place hline hbefore hk, hchar]
  by_cases hun : Unbroken (((clientLines text).take i).flatten ++ before)
  · obtain ⟨htake, hplace⟩ := unbroken_place text hline hbefore hun
    rcases hplace with ⟨line', hline', more, hmore⟩ | ⟨hout, hnil⟩
    · have hin := (List.getElem?_eq_some_iff.mp hline').1
      refine iff_of_true ?_ ⟨hun, Or.inl hin⟩
      have hunits := clientNumUnits_append h before more
      have hstop := search_prefix h before more 0 0
      rw [Nat.zero_add, Nat.zero_add] at hstop
      rw [offsetAtPosition, positionFromClientUnits_line h hline' (by rw [← hmore]; omega), ← hmore,
        hstop, offset_eq]
      dsimp only
      rw [htake, hk]
    · -- behind the last line both sides have the whole text in front
      obtain rfl := hnil
      have hlen : k = text.length := by
        rw [hk, ← htake, List.take_of_length_le hout, flatten_splitlines]
        rfl
      have hstays := offset_stays_iff h text
        (show _ ≤ (⟨i, clientNumUnits encoding []⟩ : Position).line from hout)
      rw [hlen, hstays]
      have hnot : ¬ i < (splitlines text).length := by omega
      tauto
  · refine iff_of_false ?_ (fun hright => hun hright.1)
    have hless := offset_behind h text hline hbefore hun
    omega

theorem place_le {encoding : Encoding} (h : Negotiable encoding) {text : Str} {p q : Position}
    {a b : Nat} (hp : Place encoding text p a) (hq : Place encoding text q b) (hle : Before p q) :
    a ≤ b := by
  obtain ⟨line, before, hline, hbefore, hchar, ha⟩ := hp
  obtain ⟨line', before', hline', hbefore', hchar', hb⟩ := hq
  rw [ha, hb]
  rcases hle with hlt | ⟨hlines, hcols⟩
  · have hbelow := flatten_take_lt hline hlt
    have hlen := (hbefore.trans (withoutTerminator_le line)).length_le
    omega
  · rw [hlines, hline'] at hline
    obtain rfl := Option.some.inj hline
    rw [hlines, Nat.add_le_add_iff_left]
    by_contra hlonger
    have hunits := clientNumUnits_take_lt h (withoutTerminator line') (Nat.lt_of_not_le hlonger)
      hbefore.length_le
    rw [← List.prefix_iff_eq_take.mp hbefore, ← List.prefix_iff_eq_take.mp hbefore'] at hunits
    omega

/-- Offsets and edits at positions the client forms are right exactly when no line of Python's
own ends before the last of them, and it does not lie behind a last line with wide characters. -/
theorem lines_are_the_clients {encoding : Encoding} (h : Negotiable encoding) {text : Str}
    {p q : Position} {a b : Nat} (hp : Place encoding text p a) (hq : Place encoding text q b)
    (hle : Before p q) :
    (offsetAtPosition encoding text p = a ∧ offsetAtPosition encoding text q = b ∧
        ∀ new, (applyIncrementalChange encoding text ⟨p, q⟩ new).1 =
          text.take a ++ new ++ text.drop b) ↔
      Unbroken (text.take b) ∧ (q.line < (splitlines text).length ∨
        Narrow encoding ((splitlines text).getLast?.getD [])) := by
  have hlines : p.line ≤ q.line := by
    rcases hle with hlt | ⟨heq, -⟩ <;> omega
  constructor
  · intro hright
    exact (offset_eq_iff h hq).mp hright.2.1
  · intro hcond
    have hoff := (offset_eq_iff h hq).mpr hcond
    have hoff' : offsetAtPosition encoding text p = a := by
      apply (offset_eq_iff h hp).mpr
      constructor
      · have hshort := hcond.1.take a
        rw [List.take_take, Nat.min_eq_left (place_le h hp hq hle)] at hshort
        exact hshort
      · exact hcond.2.imp_left (Nat.lt_of_le_of_lt hlines)
    refine ⟨hoff', hoff, ?_⟩
    intro new
    rw [applyIncrementalChange_splice encoding text new hlines, hoff, hoff']

/-- Behind the form feed of `a\fb` the client is in column 3 of its first line. -/
theorem lines_are_not_the_clients :
    Place .utf16 [0x61, 0x0C, 0x62] ⟨0, 3⟩ 3 ∧
      offsetAtPosition .utf16 [0x61, 0x0C, 0x62] ⟨0, 3⟩ = 1 ∧
      (applyIncrementalChange .utf16 [0x61, 0x0C, 0x62] ⟨⟨0, 3⟩, ⟨0, 3⟩⟩ [0x78]).1 =
        [0x61, 0x78, 0x0C, 0x62] ∧
      (applyIncrementalChange .utf16 [0x61, 0x0C, 0x62] ⟨⟨0, 3⟩, ⟨0, 3⟩⟩ [0x78]).1 ≠
        ([0x61, 0x0C, 0x62] : Str).take 3 ++ [0x78] ++ ([0x61, 0x0C, 0x62] : Str).drop 3 := by
  refine ⟨⟨[0x61, 0x0C, 0x62], [0x61, 0x0C, 0x62], ?_, ?_, ?_, ?_⟩, ?_⟩
  · decide
  · decide
  · decide
  · decide
  · decide

/-- In `a\rb` the client's second line starts behind the `\r`. -/
theorem lines_are_the_clients_cr :
    offsetAtPosition .utf16 [0x61, cr, 0x62] ⟨1, 1⟩ = 3 := by
  have hplace : Place .utf16 [0x61, cr, 0x62] ⟨1, 1⟩ 3 :=
    ⟨[0x62], [0x62], by decide, by decide, by decide, by decide⟩
  have hunbroken : Unbroken (([0x61, cr, 0x62] : Str).take 3) := by
    intro c hc hbreak
    rcases List.mem_pair.mp hc with rfl | rfl
    · exact absurd hbreak (by decide)
    · rfl
  have hiff := lines_are_the_clients (Or.inr (Or.inl rfl)) hplace hplace (Or.inr ⟨rfl, Nat.le_refl _⟩)
  exact (hiff.mpr ⟨hunbroken, Or.inl (by decide)⟩).1

end Pygls.ClientLines
