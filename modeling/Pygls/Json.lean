import Pygls.Lines

/-!
# What `json.dumps` writes

`_send_data` serialises with `json.dumps(data, default=self._serialize_message)`
and the default `ensure_ascii=True`. A Python value is a tree that already holds
what the serialiser would ask of it: an `attrs` instance its unstructured form,
an enum member its value, another object its `__dict__`.
-/

namespace Pygls

set_option autoImplicit false

/-- Literal ASCII text of the source as a `str`. -/
def lit (text : List Char) : Str := text.map fun c => Fin.ofNat 0x110000 c.toNat

def IsAscii (s : Str) : Prop := ∀ c ∈ s, c.val < 0x80

/-- What `float.__repr__` returns: text in ASCII, never empty. -/
structure FloatText where
  text : Str
  ascii : IsAscii text
  nonempty : text ≠ []

inductive Json where
  | null
  | bool (b : Bool)
  | int (n : Int)
  | float (x : FloatText)
  | str (s : Str)
  | list (items : List Json)
  | obj (fields : List (Str × Json))

/-- A dictionary key; `other` is a key `json.dumps` refuses with a `TypeError`. -/
inductive PyKey where
  | str (s : Str)
  | int (n : Int)
  | float (x : FloatText)
  | bool (b : Bool)
  | none
  | other

/-- `raising` is a value that cannot be written: it has no `__dict__`, it contains
itself, or the converter raises on it. -/
inductive PyValue where
  | none
  | bool (b : Bool)
  | int (n : Int)
  | float (x : FloatText)
  | str (s : Str)
  | list (items : List PyValue)
  | dict (items : List (PyKey × PyValue))
  | attrs (unstructured : PyValue)
  | enum (value : PyValue)
  | object (fields : List (Str × PyValue))
  | raising

namespace Json

def decimal (n : Nat) : Str := lit (Nat.toDigits 10 n)

def intText : Int → Str
  | .ofNat n => decimal n
  | .negSucc n => lit ['-'] ++ decimal (n + 1)

def hexDigit (n : Nat) : CodePoint := Fin.ofNat 0x110000 (if n < 10 then 48 + n else 87 + n)

/-- `\uXXXX` -/
def unicodeEscape (n : Nat) : Str :=
  lit ['\\', 'u'] ++
    [hexDigit (n / 4096 % 16), hexDigit (n / 256 % 16), hexDigit (n / 16 % 16), hexDigit (n % 16)]

/-- One character of a JSON string as `ensure_ascii` writes it. -/
def escapeChar (c : CodePoint) : Str :=
  if c.val = 0x22 then lit ['\\', '"']
  else if c.val = 0x5C then lit ['\\', '\\']
  else if c.val = 0x0A then lit ['\\', 'n']
  else if c.val = 0x0D then lit ['\\', 'r']
  else if c.val = 0x09 then lit ['\\', 't']
  else if c.val = 0x0C then lit ['\\', 'f']
  else if c.val = 0x08 then lit ['\\', 'b']
  else if 0x20 ≤ c.val ∧ c.val ≤ 0x7E then [c]
  else if c.val < 0x10000 then unicodeEscape c.val
  else
    unicodeEscape (0xD800 + (c.val - 0x10000) / 0x400 % 0x400) ++
      unicodeEscape (0xDC00 + (c.val - 0x10000) % 0x400)

def quoted (s : Str) : Str := lit ['"'] ++ s.flatMap escapeChar ++ lit ['"']

def boolText (b : Bool) : Str :=
  if b then lit ['t', 'r', 'u', 'e'] else lit ['f', 'a', 'l', 's', 'e']

def nullText : Str := lit ['n', 'u', 'l', 'l']

mutual

def render : Json → Str
  | .null => nullText
  | .bool b => boolText b
  | .int n => intText n
  | .float x => x.text
  | .str s => quoted s
  | .list items => lit ['['] ++ renderItems items ++ lit [']']
  | .obj fields => lit ['\x7b'] ++ renderFields fields ++ lit ['\x7d']

def renderItems : List Json → Str
  | [] => []
  | [j] => render j
  | j :: js => render j ++ lit [',', ' '] ++ renderItems js

def renderFields : List (Str × Json) → Str
  | [] => []
  | [(k, j)] => quoted k ++ lit [':', ' '] ++ render j
  | (k, j) :: fs => quoted k ++ lit [':', ' '] ++ render j ++ lit [',', ' '] ++ renderFields fs

end

/-- The key as `json.dumps` turns it into a string. -/
def keyText : PyKey → Option Str
  | .str s => some s
  | .int n => some (intText n)
  | .float x => some x.text
  | .bool b => some (boolText b)
  | .none => some nullText
  | .other => none

mutual

/-- The interpreter's limits, to recursion and to the digits of an integer, are left out. -/
def toJson : PyValue → Option Json
  | .none => some .null
  | .bool b => some (.bool b)
  | .int n => some (.int n)
  | .float x => some (.float x)
  | .str s => some (.str s)
  | .list items => (toJsonItems items).map .list
  | .dict items => (toJsonEntries items).map .obj
  | .attrs u => toJson u
  | .enum v => toJson v
  | .object fields => (toJsonFields fields).map .obj
  | .raising => none

def toJsonItems : List PyValue → Option (List Json)
  | [] => some []
  | v :: vs => (toJson v).bind fun j => (toJsonItems vs).map (j :: ·)

def toJsonEntries : List (PyKey × PyValue) → Option (List (Str × Json))
  | [] => some []
  | (k, v) :: es =>
    (keyText k).bind fun t => (toJson v).bind fun j => (toJsonEntries es).map ((t, j) :: ·)

def toJsonFields : List (Str × PyValue) → Option (List (Str × Json))
  | [] => some []
  | (k, v) :: fs => (toJson v).bind fun j => (toJsonFields fs).map ((k, j) :: ·)

end

/-- `json.dumps`; `none` where it raises. -/
def dumps (v : PyValue) : Option Str := (toJson v).map render

theorem isAscii_append {a b : Str} (ha : IsAscii a) (hb : IsAscii b) : IsAscii (a ++ b) := by
  intro c hc
  rcases List.mem_append.mp hc with h | h
  · exact ha c h
  · exact hb c h

theorem isAscii_lit {text : List Char} (h : (text.all fun c => c.toNat < 0x80) = true) :
    IsAscii (lit text) := by
  intro c hc
  obtain ⟨d, hd, rfl⟩ := List.mem_map.mp hc
  have hlt := of_decide_eq_true (List.all_eq_true.mp h d hd)
  simp only [Fin.val_ofNat]
  omega

theorem digit_range {n : Nat} {c : Char} (hc : c ∈ Nat.toDigits 10 n) :
    48 ≤ c.toNat ∧ c.toNat ≤ 57 := by
  have hd := Nat.isDigit_of_mem_toDigits (by decide) (by decide) hc
  simp only [Char.isDigit, Bool.and_eq_true, decide_eq_true_eq] at hd
  exact ⟨UInt32.le_iff_toNat_le.mp hd.1, UInt32.le_iff_toNat_le.mp hd.2⟩

theorem isAscii_decimal (n : Nat) : IsAscii (decimal n) := by
  apply isAscii_lit
  rw [List.all_eq_true]
  intro c hc
  have hd := digit_range hc
  apply decide_eq_true
  omega

theorem isAscii_intText (n : Int) : IsAscii (intText n) := by
  cases n with
  | ofNat n => exact isAscii_decimal n
  | negSucc n => exact isAscii_append (isAscii_lit rfl) (isAscii_decimal _)

theorem hexDigit_ascii {n : Nat} (h : n < 16) : (hexDigit n).val < 0x80 := by
  simp only [hexDigit, Fin.val_ofNat]
  split <;> omega

theorem isAscii_unicodeEscape (n : Nat) : IsAscii (unicodeEscape n) := by
  apply isAscii_append (isAscii_lit rfl)
  intro c hc
  simp only [List.mem_cons, List.not_mem_nil, or_false] at hc
  rcases hc with rfl | rfl | rfl | rfl <;> exact hexDigit_ascii (Nat.mod_lt _ (by decide))

theorem isAscii_escapeChar (c : CodePoint) : IsAscii (escapeChar c) := by
  unfold escapeChar
  iterate 7 (split; · exact isAscii_lit rfl)
  split
  · rename_i h
    intro d hd
    rw [List.mem_singleton.mp hd]
    omega
  · split
    · exact isAscii_unicodeEscape _
    · exact isAscii_append (isAscii_unicodeEscape _) (isAscii_unicodeEscape _)

theorem isAscii_quoted (s : Str) : IsAscii (quoted s) := by
  apply isAscii_append _ (isAscii_lit rfl)
  apply isAscii_append (isAscii_lit rfl)
  intro c hc
  obtain ⟨d, _, hd⟩ := List.mem_flatMap.mp hc
  exact isAscii_escapeChar d c hd

theorem isAscii_boolText (b : Bool) : IsAscii (boolText b) := by
  cases b <;> exact isAscii_lit rfl

mutual

/-- Everything `json.dumps` writes is ASCII, whatever the payload holds. -/
theorem isAscii_render : ∀ j : Json, IsAscii (render j)
  | .null => isAscii_lit rfl
  | .bool b => isAscii_boolText b
  | .int n => isAscii_intText n
  | .float x => x.ascii
  | .str s => isAscii_quoted s
  | .list items =>
    isAscii_append (isAscii_append (isAscii_lit rfl) (isAscii_renderItems items))
      (isAscii_lit rfl)
  | .obj fields =>
    isAscii_append (isAscii_append (isAscii_lit rfl) (isAscii_renderFields fields))
      (isAscii_lit rfl)

theorem isAscii_renderItems : ∀ js : List Json, IsAscii (renderItems js)
  | [] => by simp [renderItems, IsAscii]
  | [j] => isAscii_render j
  | j :: k :: js =>
    isAscii_append (isAscii_append (isAscii_render j) (isAscii_lit rfl))
      (isAscii_renderItems (k :: js))

theorem isAscii_renderFields : ∀ fs : List (Str × Json), IsAscii (renderFields fs)
  | [] => by simp [renderFields, IsAscii]
  | [(k, j)] =>
    isAscii_append (isAscii_append (isAscii_quoted k) (isAscii_lit rfl)) (isAscii_render j)
  | (k, j) :: f :: fs =>
    isAscii_append
      (isAscii_append
        (isAscii_append (isAscii_append (isAscii_quoted k) (isAscii_lit rfl))
          (isAscii_render j))
        (isAscii_lit rfl))
      (isAscii_renderFields (f :: fs))

end

theorem render_ne_nil (j : Json) : render j ≠ [] := by
  cases j with
  | null => decide
  | bool b => cases b <;> decide
  | int n => cases n <;> simp [render, intText, decimal, lit, Nat.toDigits_ne_nil]
  | float x => exact x.nonempty
  | str s => simp [render, quoted, lit]
  | list items => simp [render, lit]
  | obj fields => simp [render, lit]

theorem isAscii_dumps {v : PyValue} {text : Str} (h : dumps v = some text) : IsAscii text := by
  obtain ⟨j, -, rfl⟩ := Option.map_eq_some_iff.mp h
  exact isAscii_render j

theorem dumps_ne_nil {v : PyValue} {text : Str} (h : dumps v = some text) : text ≠ [] := by
  obtain ⟨j, -, rfl⟩ := Option.map_eq_some_iff.mp h
  exact render_ne_nil j

end Json

end Pygls
