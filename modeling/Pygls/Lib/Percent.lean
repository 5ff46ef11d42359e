import Pygls.Lib.Utf

/-!
# Percent-encoding

A text in UTF-8, every byte as itself if it is in a set of safe characters and as
`%` and two hexadecimal digits if not. Decoding takes apart the ASCII runs of a
text and leaves the other characters, and a `%` without two digits, as they are.
-/

namespace Lib.Percent

open Utf

set_option autoImplicit false

/-- The characters that stand for themselves. -/
structure SafeSet where
  mem : Char → Bool
  ascii : ∀ c, mem c = true → c.toNat < 0x80
  percent : mem '%' = false

def hexDigit (n : Nat) : Char := if n < 10 then Char.ofNat (0x30 + n) else Char.ofNat (0x37 + n)

def hexValue (c : Char) : Option Nat :=
  if 0x30 ≤ c.toNat ∧ c.toNat ≤ 0x39 then some (c.toNat - 0x30)
  else if 0x41 ≤ c.toNat ∧ c.toNat ≤ 0x46 then some (c.toNat - 0x37)
  else if 0x61 ≤ c.toNat ∧ c.toNat ≤ 0x66 then some (c.toNat - 0x57)
  else none

def quoteByte (safe : SafeSet) (b : UInt8) : List Char :=
  if safe.mem (Char.ofNat b.toNat) then [Char.ofNat b.toNat]
  else ['%', hexDigit (b.toNat / 16), hexDigit (b.toNat % 16)]

def quote (safe : SafeSet) (s : List Char) : List Char := (encode utf8 s).flatMap (quoteByte safe)

/-- The bytes of an ASCII text. -/
def unquoteToBytes : List Char → List UInt8
  | c :: a :: b :: s =>
    if c = '%' then
      match hexValue a, hexValue b with
      | some x, some y => .ofNat (16 * x + y) :: unquoteToBytes s
      | _, _ => .ofNat c.toNat :: unquoteToBytes (a :: b :: s)
    else .ofNat c.toNat :: unquoteToBytes (a :: b :: s)
  | c :: s => .ofNat c.toNat :: unquoteToBytes s
  | [] => []

/-- With the ASCII run that is being read. -/
def unquoteRuns : List Char → List Char → List Char
  | run, [] => decode (unquoteToBytes run)
  | run, c :: s =>
    if c.toNat < 0x80 then unquoteRuns (run ++ [c]) s
    else decode (unquoteToBytes run) ++ c :: unquoteRuns [] s

def unquote (s : List Char) : List Char := if '%' ∈ s then unquoteRuns [] s else s

theorem toNat_ofNat_byte {n : Nat} (h : n < 256) : (Char.ofNat n).toNat = n := by
  rw [Char.ofNat, dif_pos (.inl (by omega))]
  rfl

theorem hexValue_hexDigit : ∀ n < 16, hexValue (hexDigit n) = some n := by decide

theorem hexDigit_ascii : ∀ n < 16, (hexDigit n).toNat < 0x80 := by decide

theorem unquoteToBytes_cons {c : Char} (h : c ≠ '%') (s : List Char) :
    unquoteToBytes (c :: s) = .ofNat c.toNat :: unquoteToBytes s := by
  match s with
  | [] => rfl
  | [_] => rfl
  | a :: b :: s => rw [unquoteToBytes, if_neg h]

theorem unquoteToBytes_percent {x y : Nat} (hx : x < 16) (hy : y < 16) (s : List Char) :
    unquoteToBytes ('%' :: hexDigit x :: hexDigit y :: s) =
      .ofNat (16 * x + y) :: unquoteToBytes s := by
  rw [unquoteToBytes, if_pos rfl, hexValue_hexDigit x hx, hexValue_hexDigit y hy]

theorem unquoteToBytes_quoteByte (safe : SafeSet) (b : UInt8) (s : List Char) :
    unquoteToBytes (quoteByte safe b ++ s) = b :: unquoteToBytes s := by
  have hlt : b.toNat < 256 := b.toNat_lt_size
  unfold quoteByte
  split
  · rename_i hsafe
    have hne : Char.ofNat b.toNat ≠ '%' := by
      intro heq
      rw [heq, safe.percent] at hsafe
      cases hsafe
    rw [List.singleton_append, unquoteToBytes_cons hne, toNat_ofNat_byte hlt, UInt8.ofNat_toNat]
  · have hbyte : UInt8.ofNat (16 * (b.toNat / 16) + b.toNat % 16) = b := by
      rw [Nat.div_add_mod, UInt8.ofNat_toNat]
    apply (unquoteToBytes_percent (by omega) (by omega) s).trans
    rw [hbyte]

theorem unquoteToBytes_quoteBytes (safe : SafeSet) (bytes : List UInt8) :
    unquoteToBytes (bytes.flatMap (quoteByte safe)) = bytes := by
  induction bytes with
  | nil => rfl
  | cons b bytes ih => rw [List.flatMap_cons, unquoteToBytes_quoteByte, ih]

/-- An ASCII text without `%` stands for itself. -/
theorem unquoteToBytes_plain {s : List Char} (h : ∀ c ∈ s, c.toNat < 0x80 ∧ c ≠ '%')
    (t : List Char) : unquoteToBytes (s ++ t) = encode utf8 s ++ unquoteToBytes t := by
  induction s with
  | nil => rfl
  | cons c s ih =>
    obtain ⟨⟨hascii, hne⟩, hs⟩ := List.forall_mem_cons.mp h
    rw [List.cons_append, unquoteToBytes_cons hne, ih hs, encode_cons, utf8_of_ascii hascii]
    rfl

theorem unquoteRuns_ascii {s : List Char} (h : ∀ c ∈ s, c.toNat < 0x80) (run : List Char) :
    unquoteRuns run s = decode (unquoteToBytes (run ++ s)) := by
  induction s generalizing run with
  | nil => rw [unquoteRuns, List.append_nil]
  | cons c s ih =>
    obtain ⟨hc, hs⟩ := List.forall_mem_cons.mp h
    rw [unquoteRuns, if_pos hc, ih hs, List.append_assoc]
    rfl

theorem unquote_ascii {s : List Char} (h : ∀ c ∈ s, c.toNat < 0x80) :
    unquote s = decode (unquoteToBytes s) := by
  unfold unquote
  split
  · exact unquoteRuns_ascii h []
  · rename_i hpercent
    have hplain : ∀ c ∈ s, c.toNat < 0x80 ∧ c ≠ '%' := by
      intro c hc
      refine ⟨h c hc, ?_⟩
      rintro rfl
      exact hpercent hc
    have hbytes := unquoteToBytes_plain hplain []
    rw [List.append_nil] at hbytes
    rw [hbytes, unquoteToBytes, List.append_nil, decode_encode]

/-- A quoted text has safe characters of the text itself, `%`, and digits. -/
theorem mem_quote {safe : SafeSet} {s : List Char} {c : Char} (h : c ∈ quote safe s) :
    (c ∈ s ∧ safe.mem c = true) ∨ c = '%' ∨ ∃ n < 16, c = hexDigit n := by
  obtain ⟨b, hb, hc⟩ := List.mem_flatMap.mp h
  obtain ⟨d, hd, hbyte⟩ := List.mem_flatMap.mp hb
  have hlt : b.toNat < 256 := b.toNat_lt_size
  unfold quoteByte at hc
  split at hc
  · rename_i hsafe
    obtain rfl : c = Char.ofNat b.toNat := List.mem_singleton.mp hc
    have hascii := safe.ascii _ hsafe
    rw [toNat_ofNat_byte hlt] at hascii
    have heq : d = Char.ofNat b.toNat := by
      rw [← ascii_of_mem_utf8 hbyte hascii, Char.ofNat_toNat]
    rw [heq] at hd
    exact .inl ⟨hd, hsafe⟩
  · simp only [List.mem_cons, List.not_mem_nil, or_false] at hc
    rcases hc with hc | hc | hc
    · exact .inr (.inl hc)
    · exact .inr (.inr ⟨_, by omega, hc⟩)
    · exact .inr (.inr ⟨_, by omega, hc⟩)

theorem quote_ascii {safe : SafeSet} {s : List Char} : ∀ c ∈ quote safe s, c.toNat < 0x80 := by
  intro c hc
  rcases mem_quote hc with ⟨-, hsafe⟩ | rfl | ⟨n, hn, rfl⟩
  · exact safe.ascii c hsafe
  · decide
  · exact hexDigit_ascii n hn

/-- Quoting comes back, behind a text that stands for itself. -/
theorem unquote_append_quote (safe : SafeSet) {s : List Char}
    (h : ∀ c ∈ s, c.toNat < 0x80 ∧ c ≠ '%') (t : List Char) :
    unquote (s ++ quote safe t) = s ++ t := by
  have hascii : ∀ c ∈ s ++ quote safe t, c.toNat < 0x80 := by
    intro c hc
    rcases List.mem_append.mp hc with hc | hc
    · exact (h c hc).1
    · exact quote_ascii c hc
  rw [unquote_ascii hascii, unquoteToBytes_plain h, quote, unquoteToBytes_quoteBytes,
    ← encode_append, decode_encode]

theorem unquote_quote (safe : SafeSet) (s : List Char) : unquote (quote safe s) = s :=
  unquote_append_quote safe (s := []) nofun s

/-- A safe character in front stands for itself. -/
theorem quote_cons_safe {safe : SafeSet} {c : Char} (h : safe.mem c = true) (s : List Char) :
    quote safe (c :: s) = c :: quote safe s := by
  have hascii := safe.ascii c h
  have hbyte : (UInt8.ofNat c.toNat).toNat = c.toNat := by
    rw [UInt8.toNat_ofNat']
    omega
  have hquote : quoteByte safe (.ofNat c.toNat) = [c] := by
    rw [quoteByte, hbyte, Char.ofNat_toNat, if_pos h]
  rw [quote, encode_cons, utf8_of_ascii hascii, List.singleton_append, List.flatMap_cons, hquote]
  rfl

end Lib.Percent
