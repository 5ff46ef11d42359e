import Mathlib.Data.List.TakeWhile
import Pygls.Lib.Percent

/-!
# `urllib.parse`

The functions of the standard library that `uris.py` builds on, on texts of scalar
values. Which authorities with brackets or characters beyond ASCII are refused
(an address that is none, a character that turns into a delimiter under NFKC) is a
parameter.
-/

namespace Pygls.Parse

open Lib.Percent

set_option autoImplicit false

/-- What `urlparse` returns, and `urlunparse` is given. -/
structure UrlParts where
  scheme : List Char
  netloc : List Char
  path : List Char
  params : List Char
  query : List Char
  fragment : List Char

def usesNetloc : List (List Char) :=
  ["", "ftp", "http", "gopher", "nntp", "telnet", "imap", "wais", "file", "mms", "https", "shttp",
    "snews", "prospero", "rtsp", "rtsps", "rtspu", "rsync", "svn", "svn+ssh", "sftp", "nfs", "git",
    "git+ssh", "ws", "wss", "itms-services"].map String.toList

def usesParams : List (List Char) :=
  ["", "ftp", "hdl", "prospero", "http", "imap", "https", "shttp", "rtsp", "rtsps", "rtspu", "sip",
    "sips", "mms", "sftp", "tel"].map String.toList

def alwaysSafe (c : Char) : Bool := c.isAlphanum || c ∈ ['_', '.', '-', '~']

theorem toNat_of_isAlphanum {c : Char} (h : c.isAlphanum = true) :
    (0x30 ≤ c.toNat ∧ c.toNat ≤ 0x39) ∨ (0x41 ≤ c.toNat ∧ c.toNat ≤ 0x5A) ∨
      (0x61 ≤ c.toNat ∧ c.toNat ≤ 0x7A) := by
  have hrange : ∀ low high : UInt32, low ≤ c.val ∧ c.val ≤ high →
      low.toNat ≤ c.toNat ∧ c.toNat ≤ high.toNat := by
    rintro low high ⟨hlow, hhigh⟩
    exact ⟨UInt32.le_iff_toNat_le.mp hlow, UInt32.le_iff_toNat_le.mp hhigh⟩
  rcases (Bool.or_eq_true _ _).mp h with halpha | hdigit
  · rcases (Bool.or_eq_true _ _).mp halpha with hupper | hlower
    · exact .inr (.inl (hrange 0x41 0x5A (of_decide_eq_true hupper)))
    · obtain ⟨hlow, hhigh⟩ := (Bool.and_eq_true _ _).mp hlower
      exact .inr (.inr (hrange 0x61 0x7A ⟨of_decide_eq_true hlow, of_decide_eq_true hhigh⟩))
  · obtain ⟨hlow, hhigh⟩ := (Bool.and_eq_true _ _).mp hdigit
    exact .inl (hrange 0x30 0x39 ⟨of_decide_eq_true hlow, of_decide_eq_true hhigh⟩)

/-- The default of `quote`. -/
def pathSafe : SafeSet where
  mem := fun c => alwaysSafe c || c = '/'
  ascii := by
    intro c h
    rw [alwaysSafe, Bool.or_eq_true, Bool.or_eq_true, decide_eq_true_eq, decide_eq_true_eq] at h
    rcases h with (h | h) | rfl
    · have hrange := toNat_of_isAlphanum h
      omega
    · simp only [List.mem_cons, List.not_mem_nil, or_false] at h
      rcases h with rfl | rfl | rfl | rfl <;> decide
    · decide
  percent := by decide

def quote (s : List Char) : List Char := Lib.Percent.quote pathSafe s

def unquote (s : List Char) : List Char := Lib.Percent.unquote s

def schemeChar (c : Char) : Bool := c.isAlphanum || c ∈ ['+', '-', '.']

/-- The text before the first separator, and the text behind it. -/
def cut (separator : Char) (s : List Char) : List Char × List Char :=
  (s.takeWhile (· ≠ separator), (s.dropWhile (· ≠ separator)).drop 1)

def splitScheme (url : List Char) : List Char × List Char :=
  let scheme := url.takeWhile (· ≠ ':')
  if ':' ∈ url ∧ scheme.head?.any Char.isAlpha ∧ scheme.all schemeChar then
    (scheme.map Char.toLower, (cut ':' url).2)
  else ([], url)

def delimiter (c : Char) : Bool := c ∈ ['/', '?', '#']

def splitNetloc : List Char → List Char × List Char
  | '/' :: '/' :: url => (url.takeWhile (!delimiter ·), url.dropWhile (!delimiter ·))
  | url => ([], url)

/-- An authority that is checked no further. -/
def plainNetloc (netloc : List Char) : Bool :=
  netloc.all fun c => c.toNat < 0x80 && c ∉ ['[', ']']

/-- What is left of the first `;` behind the last `/`, and what is right of it. -/
def splitParams (url : List Char) : List Char × List Char :=
  let last := (url.reverse.takeWhile (· ≠ '/')).reverse
  if ';' ∈ last then
    (url.take (url.length - last.length) ++ (cut ';' last).1, (cut ';' last).2)
  else (url, [])

section

variable (refuses : List Char → Bool)

/-- `none` where it raises a `ValueError`. -/
def urlparse (url : List Char) : Option UrlParts :=
  let url := (url.dropWhile fun c => c.toNat ≤ 0x20).filter fun c => c ∉ ['\t', '\r', '\n']
  let (scheme, url) := splitScheme url
  let (netloc, url) := splitNetloc url
  if !plainNetloc netloc && refuses netloc then none
  else
    let (url, fragment) := cut '#' url
    let (url, query) := cut '?' url
    let (path, params) := if scheme ∈ usesParams then splitParams url else (url, [])
    some ⟨scheme, netloc, path, params, query, fragment⟩

end

/-- As from Python 3.12.4 on: an empty authority is written where the path would be taken for
one. -/
def urlunparse (parts : UrlParts) : List Char :=
  let url := if parts.params = [] then parts.path else parts.path ++ ';' :: parts.params
  let url :=
    if parts.netloc ≠ [] then
      ['/', '/'] ++ parts.netloc ++ (if url ≠ [] ∧ url.head? ≠ some '/' then '/' :: url else url)
    else if ['/', '/'].isPrefixOf url then ['/', '/'] ++ url
    else if parts.scheme ≠ [] ∧ parts.scheme ∈ usesNetloc ∧ (url = [] ∨ url.head? = some '/') then
      ['/', '/'] ++ url
    else url
  let url := if parts.scheme ≠ [] then parts.scheme ++ ':' :: url else url
  let url := if parts.query ≠ [] then url ++ '?' :: parts.query else url
  if parts.fragment ≠ [] then url ++ '#' :: parts.fragment else url

theorem ne_of_not_mem {separator : Char} {s : List Char} (h : separator ∉ s) :
    ∀ c ∈ s, decide (c ≠ separator) = true := by
  intro c hc
  apply decide_eq_true
  rintro rfl
  exact h hc

theorem cut_of_not_mem {separator : Char} {s : List Char} (h : separator ∉ s) :
    cut separator s = (s, []) := by
  have hall := ne_of_not_mem h
  rw [cut, List.takeWhile_eq_self_iff.mpr hall, List.dropWhile_eq_nil_iff.mpr hall]
  rfl

/-- An authority without delimiters ends where the path starts. -/
theorem splitNetloc_append {netloc : List Char} (h : ∀ c ∈ netloc, delimiter c = false)
    (path : List Char) :
    splitNetloc ('/' :: '/' :: (netloc ++ '/' :: path)) = (netloc, '/' :: path) := by
  have hall : ∀ c ∈ netloc, (!delimiter c) = true := by
    intro c hc
    rw [h c hc]
    rfl
  have hstop : (!delimiter '/') = false := by decide
  rw [splitNetloc, List.takeWhile_append_of_pos hall, List.dropWhile_append_of_pos hall,
    List.takeWhile_cons_of_neg (by rw [hstop]; exact Bool.false_ne_true),
    List.dropWhile_cons_of_neg (by rw [hstop]; exact Bool.false_ne_true), List.append_nil]

end Pygls.Parse
