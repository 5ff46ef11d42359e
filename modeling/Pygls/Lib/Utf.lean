import Mathlib.Data.List.Basic

/-!
# Unicode encodings

An encoding gives every scalar value a list of units, and a text the units of its
characters in order. UTF-8 is the language's own, in bytes; it is also decoded,
with every ill-formed sequence replaced by U+FFFD.
-/

namespace Lib.Utf

set_option autoImplicit false

universe u

/-- The units of a text. -/
def encode {U : Type u} (units : Char → List U) (s : List Char) : List U := s.flatMap units

def utf8 (c : Char) : List UInt8 := String.utf8EncodeChar c

/-- A character beyond U+FFFF is a high and a low surrogate, with ten bits each. -/
def utf16 (c : Char) : List UInt16 :=
  if c.toNat < 0x10000 then [.ofNat c.toNat]
  else
    [.ofNat (0xD800 + (c.toNat - 0x10000) / 0x400), .ofNat (0xDC00 + (c.toNat - 0x10000) % 0x400)]

def utf32 (c : Char) : List UInt32 := [c.val]

section Encode

variable {U : Type u} (units : Char → List U)

theorem encode_cons (c : Char) (s : List Char) :
    encode units (c :: s) = units c ++ encode units s := List.flatMap_cons

theorem encode_append (s t : List Char) :
    encode units (s ++ t) = encode units s ++ encode units t := List.flatMap_append

/-- Behind the units of a prefix stands a boundary between characters. -/
theorem splitAt_encode (s : List Char) (k : Nat) :
    (encode units s).splitAt (encode units (s.take k)).length =
      (encode units (s.take k), encode units (s.drop k)) := by
  have hsplit : encode units s = encode units (s.take k) ++ encode units (s.drop k) := by
    rw [← encode_append, List.take_append_drop]
  rw [List.splitAt_eq, hsplit, List.take_left, List.drop_left]

end Encode

theorem length_utf16 (c : Char) : (utf16 c).length = if c.toNat < 0x10000 then 1 else 2 := by
  unfold utf16
  split
  · rfl
  · rfl

theorem length_utf8 (c : Char) :
    (utf8 c).length =
      if c.toNat < 0x80 then 1
      else if c.toNat < 0x800 then 2
      else if c.toNat < 0x10000 then 3
      else 4 := by
  have hval : c.val.toNat = c.toNat := rfl
  simp only [utf8, String.utf8EncodeChar, hval, Nat.lt_succ_iff (n := 0x7F),
    Nat.lt_succ_iff (n := 0x7FF), Nat.lt_succ_iff (n := 0xFFFF)]
  split
  · rfl
  · split
    · rfl
    · split
      · rfl
      · rfl

theorem utf8_of_ascii {c : Char} (h : c.toNat < 0x80) : utf8 c = [.ofNat c.toNat] := by
  have hval : c.val.toNat = c.toNat := rfl
  rw [utf8, String.utf8EncodeChar, hval, if_pos (by omega)]

/-- Only ASCII characters have bytes below 0x80. -/
theorem ascii_of_mem_utf8 {c : Char} {b : UInt8} (hb : b ∈ utf8 c) (h : b.toNat < 0x80) :
    c.toNat = b.toNat := by
  have hval : c.val.toNat = c.toNat := rfl
  rw [utf8, String.utf8EncodeChar, hval] at hb
  split at hb
  · rw [List.mem_singleton] at hb
    rw [hb, UInt8.toNat_ofNat']
    omega
  · exfalso
    split at hb
    · simp only [List.mem_cons, List.not_mem_nil, or_false] at hb
      rcases hb with rfl | rfl <;> rw [UInt8.toNat_ofNat'] at h <;> omega
    · split at hb
      · simp only [List.mem_cons, List.not_mem_nil, or_false] at hb
        rcases hb with rfl | rfl | rfl <;> rw [UInt8.toNat_ofNat'] at h <;> omega
      · simp only [List.mem_cons, List.not_mem_nil, or_false] at hb
        rcases hb with rfl | rfl | rfl | rfl <;> rw [UInt8.toNat_ofNat'] at h <;> omega

/-- How many bytes are replaced at once where no character can be decoded: the longest start
of a well-formed sequence, and at least one byte. -/
def illFormed : List UInt8 → Nat
  | a :: b :: bytes =>
    let allowed :=
      if a.toNat = 0xE0 then 0xA0 ≤ b.toNat && b.toNat ≤ 0xBF
      else if a.toNat = 0xED then 0x80 ≤ b.toNat && b.toNat ≤ 0x9F
      else if 0xE1 ≤ a.toNat ∧ a.toNat ≤ 0xEF then 0x80 ≤ b.toNat && b.toNat ≤ 0xBF
      else if a.toNat = 0xF0 then 0x90 ≤ b.toNat && b.toNat ≤ 0xBF
      else if 0xF1 ≤ a.toNat ∧ a.toNat ≤ 0xF3 then 0x80 ≤ b.toNat && b.toNat ≤ 0xBF
      else if a.toNat = 0xF4 then 0x80 ≤ b.toNat && b.toNat ≤ 0x8F
      else false
    let third := bytes.head?.any fun c => 0x80 ≤ c.toNat && c.toNat ≤ 0xBF
    if allowed then if 0xF0 ≤ a.toNat && third then 3 else 2 else 1
  | _ => 1

def decodeReplacing : Nat → List UInt8 → List Char
  | 0, _ => []
  | _ + 1, [] => []
  | fuel + 1, bytes =>
    match bytes.toByteArray.utf8DecodeChar? 0 with
    | some c => c :: decodeReplacing fuel (bytes.drop c.utf8Size)
    | none => Char.ofNat 0xFFFD :: decodeReplacing fuel (bytes.drop (illFormed bytes))

/-- `bytes.decode("utf-8", "replace")` -/
def decode (bytes : List UInt8) : List Char := decodeReplacing bytes.length bytes

theorem decodeReplacing_encode (s : List Char) (fuel : Nat)
    (h : (encode utf8 s).length ≤ fuel) : decodeReplacing fuel (encode utf8 s) = s := by
  induction s generalizing fuel with
  | nil =>
    cases fuel with
    | zero => rfl
    | succ fuel => rfl
  | cons c s ih =>
    have hlen : (utf8 c).length = c.utf8Size := String.length_utf8EncodeChar c
    have hpos := c.utf8Size_pos
    rw [encode_cons, List.length_append, hlen] at h
    cases fuel with
    | zero => omega
    | succ fuel =>
      have hdecode : (utf8 c ++ encode utf8 s).toByteArray.utf8DecodeChar? 0 = some c := by
        rw [List.toByteArray_append]
        exact ByteArray.utf8DecodeChar?_utf8EncodeChar_append
      have hne : utf8 c ++ encode utf8 s ≠ [] := by
        intro hnil
        have hzero := congrArg List.length hnil
        rw [List.length_append, hlen, List.length_nil] at hzero
        omega
      rw [encode_cons, decodeReplacing]
      · rw [hdecode]
        dsimp only
        rw [← hlen, List.drop_left, ih fuel (by omega)]
      · exact hne

/-- A well-formed text is decoded to what was encoded. -/
theorem decode_encode (s : List Char) : decode (encode utf8 s) = s :=
  decodeReplacing_encode s _ (Nat.le_refl _)

end Lib.Utf
