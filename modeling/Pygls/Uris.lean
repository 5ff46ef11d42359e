import Pygls.UrlParse

/-!
# URIs and file system paths

`uris.py`. Paths and URIs are texts of scalar values; `isWin` is `IS_WIN`.
-/

namespace Pygls.Uris

open Parse

set_option autoImplicit false

inductive UriError where
  | valueError

def file : List Char := ['f', 'i', 'l', 'e']

/-- `RE_DRIVE_LETTER_PATH.match(path)` -/
def isDrivePath : List Char → Bool
  | '/' :: letter :: ':' :: _ => letter.isAlpha
  | _ => false

def lowerDrive (path : List Char) : List Char :=
  match path with
  | '/' :: letter :: rest => if isDrivePath path then '/' :: letter.toLower :: rest else path
  | _ => path

/-- `path.replace("\\", "/")` on Windows -/
def slashes (isWin : Bool) (path : List Char) : List Char :=
  if isWin then path.map fun c => if c = '\\' then '/' else c else path

def backslashes (isWin : Bool) (path : List Char) : List Char :=
  if isWin then path.map fun c => if c = '/' then '\\' else c else path

/-- Without a second slash `path.index` raises, so its result is never `-1`. -/
def splitAuthority : List Char → Except UriError (List Char × List Char)
  | '/' :: '/' :: rest =>
    if '/' ∈ rest then .ok (rest.dropWhile (· ≠ '/'), rest.takeWhile (· ≠ '/'))
    else .error .valueError
  | path => .ok (path, [])

def withSlash (path : List Char) : List Char :=
  if path.head? = some '/' then path else '/' :: path

/-- The path and the authority. -/
def normalizeWinPath (isWin : Bool) (path : List Char) :
    Except UriError (List Char × List Char) :=
  (splitAuthority (slashes isWin path)).map fun r => (lowerDrive (withSlash r.1), r.2)

/-- `urlparse` of the module: the parts are decoded. -/
def urlparse (refuses : List Char → Bool) (uri : List Char) : Except UriError UrlParts :=
  match Parse.urlparse refuses uri with
  | none => .error .valueError
  | some parts =>
    .ok ⟨unquote parts.scheme, unquote parts.netloc, unquote parts.path, unquote parts.params,
      unquote parts.query, unquote parts.fragment⟩

/-- The colon of a drive letter is not quoted. -/
def quotedPath (path : List Char) : List Char :=
  if isDrivePath path then path.take 3 ++ quote (path.drop 3) else quote path

/-- `urlunparse` of the module: the parts are encoded. -/
def urlunparse (parts : UrlParts) : List Char :=
  Parse.urlunparse ⟨quote parts.scheme, quote parts.netloc, quotedPath parts.path,
    quote parts.params, quote parts.query, quote parts.fragment⟩

def fromFsPath (isWin : Bool) (path : List Char) : Except UriError (List Char) :=
  (normalizeWinPath isWin path).map fun r => urlunparse ⟨file, r.2, r.1, [], [], []⟩

/-- The path of the decoded authority and path, with forward slashes. -/
def fsValue (netloc path : List Char) : List Char :=
  if netloc ≠ [] ∧ path ≠ [] then ['/', '/'] ++ netloc ++ path
  else if isDrivePath path then
    match path with
    | _ :: letter :: rest => letter.toLower :: rest
    | _ => path
  else path

def toFsPath (refuses : List Char → Bool) (isWin : Bool) (uri : List Char) :
    Except UriError (Option (List Char)) :=
  (urlparse refuses uri).map fun parts =>
    if parts.scheme ≠ file then none
    else some (backslashes isWin (fsValue parts.netloc parts.path))

/-- `from_fs_path(to_fs_path(uri))`; without a path there is no URI. -/
def canon (refuses : List Char → Bool) (isWin : Bool) (uri : List Char) :
    Except UriError (Option (List Char)) :=
  match toFsPath refuses isWin uri with
  | .error e => .error e
  | .ok none => .ok none
  | .ok (some path) => (fromFsPath isWin path).map some

/-- A character of a quoted text. -/
def inert (c : Char) : Bool := 0x20 < c.toNat && c.toNat < 0x80 && c ∉ ['?', '#', '[', ']']

theorem of_ascii {P : Char → Prop} (h : ∀ n < 0x80, P (Char.ofNat n)) {c : Char}
    (hc : c.toNat < 0x80) : P c := by
  rw [← Char.ofNat_toNat c]
  exact h c.toNat hc

theorem alpha_ascii {c : Char} (h : c.isAlpha = true) : c.toNat < 0x80 := by
  have hrange := toNat_of_isAlphanum (c := c) (by rw [Char.isAlphanum, h]; rfl)
  omega

theorem of_inert_plain {c : Char} (h : inert c = true) :
    (c.toNat < 0x80 && c ∉ ['[', ']']) = true := by
  simp only [inert, Bool.and_eq_true, decide_eq_true_eq, List.mem_cons, not_or] at h ⊢
  exact ⟨h.1.2, h.2.2.2.1, h.2.2.2.2⟩

theorem inert_of_pathSafe {c : Char} (h : pathSafe.mem c = true) : inert c = true :=
  of_ascii (P := fun c => pathSafe.mem c = true → inert c = true) (by decide)
    (pathSafe.ascii c h) h

theorem inert_quote {s : List Char} : ∀ c ∈ quote s, inert c = true := by
  intro c hc
  rcases Lib.Percent.mem_quote hc with ⟨-, hsafe⟩ | rfl | ⟨n, hn, rfl⟩
  · exact inert_of_pathSafe hsafe
  · decide
  · have hdigit : ∀ n < 16, inert (Lib.Percent.hexDigit n) = true := by decide
    exact hdigit n hn

theorem slash_not_mem_quote {s : List Char} (h : '/' ∉ s) : '/' ∉ quote s := by
  intro hslash
  rcases Lib.Percent.mem_quote hslash with ⟨hmem, -⟩ | heq | ⟨n, hn, heq⟩
  · exact h hmem
  · exact absurd heq (by decide)
  · have hdigit : ∀ n < 16, '/' ≠ Lib.Percent.hexDigit n := by decide
    exact hdigit n hn heq

/-- The URI of an authority and a path. -/
def uriOf (netloc path : List Char) : List Char :=
  file ++ [':', '/', '/'] ++ quote netloc ++ quotedPath path

theorem quote_file : quote file = file := by decide

theorem isDrivePath_iff (path : List Char) :
    isDrivePath path = true ↔
      ∃ letter rest, path = '/' :: letter :: ':' :: rest ∧ letter.isAlpha = true := by
  unfold isDrivePath
  split
  · rename_i letter rest
    constructor
    · intro h
      exact ⟨letter, rest, rfl, h⟩
    · rintro ⟨letter', rest', heq, h⟩
      cases heq
      exact h
  · rename_i hne
    refine iff_of_false Bool.false_ne_true ?_
    rintro ⟨letter, rest, rfl, -⟩
    exact hne letter rest rfl

theorem quotedPath_inert (path : List Char) : ∀ c ∈ quotedPath path, inert c = true := by
  intro c hc
  unfold quotedPath at hc
  split at hc
  · rename_i hdrive
    obtain ⟨letter, rest, rfl, hletter⟩ := (isDrivePath_iff path).mp hdrive
    rcases List.mem_append.mp hc with hc | hc
    · simp only [List.take_succ_cons, List.take_zero, List.mem_cons, List.not_mem_nil, or_false]
        at hc
      rcases hc with rfl | rfl | rfl
      · decide
      · exact of_ascii (P := fun c => c.isAlpha = true → inert c = true) (by decide)
          (alpha_ascii hletter) hletter
      · decide
    · exact inert_quote c hc
  · exact inert_quote c hc

/-- A slash in front of the path is one in front of the quoted path. -/
theorem quotedPath_slash (path : List Char) :
    ∃ rest, quotedPath ('/' :: path) = '/' :: rest := by
  unfold quotedPath
  split
  · rename_i hdrive
    obtain ⟨letter, rest, heq, -⟩ := (isDrivePath_iff _).mp hdrive
    cases heq
    exact ⟨_, rfl⟩
  · exact ⟨_, Lib.Percent.quote_cons_safe (by decide) path⟩

theorem unquote_quotedPath (path : List Char) : unquote (quotedPath path) = path := by
  unfold quotedPath
  split
  · rename_i hdrive
    obtain ⟨letter, rest, rfl, hletter⟩ := (isDrivePath_iff path).mp hdrive
    refine (Lib.Percent.unquote_append_quote pathSafe ?_ _).trans (List.take_append_drop 3 _)
    intro c hc
    simp only [List.take_succ_cons, List.take_zero, List.mem_cons, List.not_mem_nil, or_false]
      at hc
    rcases hc with rfl | rfl | rfl
    · decide
    · refine ⟨alpha_ascii hletter, ?_⟩
      rintro rfl
      cases hletter
    · decide
  · exact Lib.Percent.unquote_quote pathSafe path

theorem urlunparse_uriOf (netloc path : List Char) :
    urlunparse ⟨file, netloc, '/' :: path, [], [], []⟩ = uriOf netloc ('/' :: path) := by
  obtain ⟨rest, hrest⟩ := quotedPath_slash path
  have hnil : quote [] = [] := rfl
  have hfile : file ∈ usesNetloc := by decide
  have hscheme : file ≠ [] := by decide
  rw [urlunparse, uriOf, quote_file, hrest, hnil, Parse.urlunparse]
  by_cases hnetloc : quote netloc = []
  · by_cases hslashes : ['/', '/'].isPrefixOf ('/' :: rest)
    · simp [hnetloc, hslashes, hscheme]
    · simp [hnetloc, hslashes, hscheme, hfile]
  · simp [hnetloc, hscheme]

/-- The parser drops nothing of a text of such characters. -/
theorem clean_inert {s : List Char} (h : ∀ c ∈ s, inert c = true) :
    ((s.dropWhile fun c => c.toNat ≤ 0x20).filter fun c => c ∉ ['\t', '\r', '\n']) = s := by
  have hkept : (s.dropWhile fun c => c.toNat ≤ 0x20) = s := by
    cases s with
    | nil => rfl
    | cons c s =>
      have hc := h c List.mem_cons_self
      simp only [inert, Bool.and_eq_true, decide_eq_true_eq] at hc
      apply List.dropWhile_cons_of_neg
      rw [decide_eq_true_eq]
      omega
  rw [hkept, List.filter_eq_self]
  intro c hc
  have hinert := h c hc
  apply decide_eq_true
  simp only [List.mem_cons, List.not_mem_nil, or_false]
  rintro (rfl | rfl | rfl) <;> cases hinert

theorem cut_inert {separator : Char} (hseparator : separator ∈ ['#', '?']) {s : List Char}
    (h : ∀ c ∈ s, inert c = true) : cut separator s = (s, []) := by
  apply cut_of_not_mem
  intro hmem
  have hinert := h separator hmem
  simp only [List.mem_cons, List.not_mem_nil, or_false] at hseparator
  rcases hseparator with rfl | rfl <;> cases hinert

theorem delimiter_quote {netloc : List Char} (h : '/' ∉ netloc) :
    ∀ c ∈ quote netloc, delimiter c = false := by
  intro c hc
  have hinert := inert_quote c hc
  apply decide_eq_false
  simp only [List.mem_cons, List.not_mem_nil, or_false]
  rintro (rfl | rfl | rfl)
  · exact slash_not_mem_quote h hc
  · cases hinert
  · cases hinert

theorem plainNetloc_quote (netloc : List Char) : plainNetloc (quote netloc) = true := by
  rw [plainNetloc, List.all_eq_true]
  intro c hc
  exact of_inert_plain (inert_quote c hc)

theorem splitScheme_file (url : List Char) :
    splitScheme (file ++ ':' :: url) = (file, url) := by
  simp [splitScheme, file, cut, schemeChar]

theorem uriOf_inert (netloc path : List Char) : ∀ c ∈ uriOf netloc path, inert c = true := by
  have hfile : ∀ c ∈ file ++ [':', '/', '/'], inert c = true := List.all_eq_true.mp rfl
  intro c hc
  rcases List.mem_append.mp hc with hc | hc
  · exact (List.mem_append.mp hc).elim (hfile c) (inert_quote c)
  · exact quotedPath_inert path c hc

theorem parse_uriOf (refuses : List Char → Bool) {netloc : List Char} (h : '/' ∉ netloc)
    (path : List Char) :
    Parse.urlparse refuses (uriOf netloc ('/' :: path)) =
      some ⟨file, quote netloc, quotedPath ('/' :: path), [], [], []⟩ := by
  obtain ⟨rest, hrest⟩ := quotedPath_slash path
  have hpath := quotedPath_inert ('/' :: path)
  have huri : uriOf netloc ('/' :: path) =
      file ++ ':' :: '/' :: '/' :: (quote netloc ++ '/' :: rest) := by
    simp only [uriOf, hrest, List.append_assoc, List.cons_append, List.nil_append]
  have hparams : file ∉ usesParams := by decide
  rw [Parse.urlparse]
  dsimp only
  rw [clean_inert (uriOf_inert netloc ('/' :: path)), huri, splitScheme_file]
  dsimp only
  rw [splitNetloc_append (delimiter_quote h) rest, ← hrest]
  dsimp only
  rw [plainNetloc_quote, cut_inert (by decide) hpath]
  dsimp only
  rw [cut_inert (by decide) hpath, if_neg hparams]
  rfl

theorem urlparse_uriOf (refuses : List Char → Bool) {netloc : List Char} (h : '/' ∉ netloc)
    (path : List Char) :
    urlparse refuses (uriOf netloc ('/' :: path)) =
      .ok ⟨file, netloc, '/' :: path, [], [], []⟩ := by
  have hfile : unquote file = file := by decide
  have hnil : unquote [] = [] := rfl
  have hnetloc : unquote (quote netloc) = netloc := Lib.Percent.unquote_quote pathSafe netloc
  rw [urlparse, parse_uriOf refuses h]
  dsimp only
  rw [hfile, hnetloc, unquote_quotedPath, hnil]

/-- The URI says which authority and path it is of. -/
theorem uriOf_injective {netloc netloc' path path' : List Char} (h : '/' ∉ netloc)
    (h' : '/' ∉ netloc') (heq : uriOf netloc ('/' :: path) = uriOf netloc' ('/' :: path')) :
    netloc = netloc' ∧ path = path' := by
  have hparse := urlparse_uriOf (fun _ => false) h path
  rw [heq, urlparse_uriOf (fun _ => false) h' path'] at hparse
  cases hparse
  exact ⟨rfl, rfl⟩

theorem toFsPath_uriOf (refuses : List Char → Bool) (isWin : Bool) {netloc : List Char}
    (h : '/' ∉ netloc) (path : List Char) :
    toFsPath refuses isWin (uriOf netloc ('/' :: path)) =
      .ok (some (backslashes isWin (fsValue netloc ('/' :: path)))) := by
  rw [toFsPath, urlparse_uriOf refuses h]
  rfl

end Pygls.Uris
