import Pygls.Uris

/-!
# Taking URIs apart and putting them together

`urlparse`, `urlunparse`, `uri_scheme` and `uri_with` of `uris.py` on any parts, and
which parts come back from the URI that is made of them.
-/

namespace Pygls.Uris

open Parse

set_option autoImplicit false

/-- A character that a scheme may have and that is not quoted. -/
def plainSchemeChar (c : Char) : Bool := c.isAlphanum || c ∈ ['-', '.']

def IsScheme (scheme : List Char) : Prop :=
  scheme.head?.any Char.isAlpha = true ∧ scheme.all plainSchemeChar = true ∧
    scheme.map Char.toLower = scheme

/-- The parts that are read back. -/
structure WellFormed (parts : UrlParts) : Prop where
  scheme : parts.scheme ≠ [] → IsScheme parts.scheme
  netloc : '/' ∉ parts.netloc
  path : parts.netloc ≠ [] → parts.path.head? = some '/' ∨ (parts.path = [] ∧ parts.params = [])
  params : parts.params ≠ [] → parts.scheme ∈ usesParams ∧ '/' ∉ parts.params

/-- A separator and what is behind it, if there is something. -/
def tail (separator : Char) (s : List Char) : List Char := if s = [] then [] else separator :: s

def schemePart (scheme : List Char) : List Char := if scheme = [] then [] else scheme ++ [':']

/-- The path as it stands behind the authority. -/
def slashed (netloc path params : List Char) : List Char :=
  if netloc ≠ [] ∧ path ++ tail ';' params ≠ [] ∧ (path ++ tail ';' params).head? ≠ some '/' then
    '/' :: path
  else path

def authorityPart (scheme netloc url : List Char) : List Char :=
  if netloc ≠ [] then '/' :: '/' :: netloc
  else if ['/', '/'].isPrefixOf url then ['/', '/']
  else if scheme ≠ [] ∧ usesNetloc.contains scheme ∧ (url = [] ∨ url.head? = some '/') then
    ['/', '/']
  else []

theorem parse_urlunparse_eq (parts : UrlParts) :
    Parse.urlunparse parts =
      schemePart parts.scheme ++
        (authorityPart parts.scheme parts.netloc (parts.path ++ tail ';' parts.params) ++
          ((slashed parts.netloc parts.path parts.params ++ tail ';' parts.params) ++
            (tail '?' parts.query ++ tail '#' parts.fragment))) := by
  obtain ⟨scheme, netloc, path, params, query, fragment⟩ := parts
  have hurl : (if params = [] then path else path ++ ';' :: params) = path ++ tail ';' params := by
    unfold tail
    split
    · simp
    · rfl
  have hscheme : ∀ url, (if scheme ≠ [] then scheme ++ ':' :: url else url) =
      schemePart scheme ++ url := by
    intro url
    unfold schemePart
    by_cases h : scheme = []
    · simp [h]
    · simp [h]
  have htail : ∀ (separator : Char) (s url : List Char),
      (if s ≠ [] then url ++ separator :: s else url) = url ++ tail separator s := by
    intro separator s url
    unfold tail
    by_cases h : s = []
    · simp [h]
    · simp [h]
  simp only [Parse.urlunparse, hurl, hscheme, htail]
  simp only [List.append_assoc]
  congr 1
  simp only [authorityPart, slashed, List.contains_iff_mem]
  by_cases hnetloc : netloc = []
  · simp only [hnetloc, ne_eq, not_true_eq_false, if_false, false_and]
    split
    · simp
    · split
      · simp
      · simp
  · simp only [hnetloc, ne_eq, not_false_eq_true, if_true, true_and]
    split
    · simp
    · simp

/-! ### What quoted texts are made of -/

theorem not_mem_quote {c : Char} (hsafe : pathSafe.mem c = false) (hpercent : c ≠ '%')
    (hdigit : ∀ n < 16, c ≠ Lib.Percent.hexDigit n) (s : List Char) : c ∉ quote s := by
  intro hmem
  rcases Lib.Percent.mem_quote hmem with ⟨-, h⟩ | h | ⟨n, hn, h⟩
  · rw [hsafe] at h
    cases h
  · exact hpercent h
  · exact hdigit n hn h

theorem colon_not_mem_quote (s : List Char) : ':' ∉ quote s := by
  apply not_mem_quote
  all_goals decide

theorem semicolon_not_mem_quote (s : List Char) : ';' ∉ quote s := by
  apply not_mem_quote
  all_goals decide

theorem quote_eq_nil_iff (s : List Char) : quote s = [] ↔ s = [] := by
  constructor
  · intro h
    have hback : unquote (quote s) = s := Lib.Percent.unquote_quote pathSafe s
    rw [h] at hback
    exact hback.symm
  · rintro rfl
    rfl

theorem unquote_of_not_mem {s : List Char} (h : '%' ∉ s) : unquote s = s := by
  simp [unquote, Lib.Percent.unquote, h]

theorem quote_append (s t : List Char) : quote (s ++ t) = quote s ++ quote t := by
  simp [quote, Lib.Percent.quote, Lib.Utf.encode_append]

theorem tail_quote (separator : Char) (s : List Char) :
    tail separator (quote s) = if s = [] then [] else separator :: quote s := by
  simp [tail, quote_eq_nil_iff]

theorem quotedPath_of_ne_slash {path : List Char} (h : path.head? ≠ some '/') :
    quotedPath path = quote path := by
  have hdrive : ¬ isDrivePath path = true := by
    intro hdrive
    obtain ⟨letter, rest, rfl, -⟩ := (isDrivePath_iff path).mp hdrive
    exact h rfl
  rw [quotedPath, if_neg hdrive]

theorem head_quote (s : List Char) : (quote s).head? = some '/' ↔ s.head? = some '/' := by
  constructor
  · intro h
    cases s with
    | nil => exact h
    | cons c s =>
      by_contra hne
      have hslash : '/' ∉ [c] := by
        intro hmem
        rw [← List.mem_singleton.mp hmem] at hne
        exact hne rfl
      have hquote : quote [c] ≠ [] := by simp [quote_eq_nil_iff]
      have hsplit : quote (c :: s) = quote [c] ++ quote s := quote_append [c] s
      rw [hsplit, List.head?_append_of_ne_nil _ hquote] at h
      exact slash_not_mem_quote hslash (List.mem_of_head? h)
  · intro h
    obtain ⟨rest, rfl⟩ := List.head?_eq_some_iff.mp h
    rw [quote, Lib.Percent.quote_cons_safe (by decide)]
    rfl

/-! ### The parser on what is put together -/

theorem clean_visible {s : List Char} (h : ∀ c ∈ s, 0x20 < c.toNat) :
    ((s.dropWhile fun c => c.toNat ≤ 0x20).filter fun c => c ∉ ['\t', '\r', '\n']) = s := by
  have hkept : (s.dropWhile fun c => c.toNat ≤ 0x20) = s := by
    cases s with
    | nil => rfl
    | cons c s =>
      have hc := h c List.mem_cons_self
      apply List.dropWhile_cons_of_neg
      rw [decide_eq_true_eq]
      omega
  rw [hkept, List.filter_eq_self]
  intro c hc
  have hvisible := h c hc
  apply decide_eq_true
  simp only [List.mem_cons, List.not_mem_nil, or_false]
  rintro (rfl | rfl | rfl)
  all_goals exact absurd hvisible (by decide)

theorem visible_of_inert {c : Char} (h : inert c = true) : 0x20 < c.toNat := by
  simp only [inert, Bool.and_eq_true, decide_eq_true_eq] at h
  exact h.1.1

theorem visible_tail {separator : Char} (hseparator : 0x20 < separator.toNat) (s : List Char) :
    ∀ c ∈ tail separator (quote s), 0x20 < c.toNat := by
  intro c hc
  unfold tail at hc
  split at hc
  · cases hc
  · rcases List.mem_cons.mp hc with rfl | hc
    · exact hseparator
    · exact visible_of_inert (inert_quote c hc)

theorem visible_urlunparse (parts : UrlParts) : ∀ c ∈ urlunparse parts, 0x20 < c.toNat := by
  have hquote : ∀ s, ∀ c ∈ quote s, 0x20 < c.toNat := by
    intro s c hc
    exact visible_of_inert (inert_quote c hc)
  have hpath : ∀ c ∈ quotedPath parts.path, 0x20 < c.toNat := by
    intro c hc
    exact visible_of_inert (quotedPath_inert parts.path c hc)
  intro c hc
  rw [urlunparse, parse_urlunparse_eq] at hc
  simp only [List.mem_append] at hc
  rcases hc with hc | hc | (hc | hc) | hc | hc
  · unfold schemePart at hc
    split at hc
    · cases hc
    · rcases List.mem_append.mp hc with hc | hc
      · exact hquote _ c hc
      · rw [List.mem_singleton.mp hc]
        decide
  · unfold authorityPart at hc
    have hslash : 0x20 < '/'.toNat := by decide
    split at hc
    · simp only [List.mem_cons] at hc
      rcases hc with rfl | rfl | hc
      · exact hslash
      · exact hslash
      · exact hquote _ c hc
    · split at hc
      · simp only [List.mem_cons, List.not_mem_nil, or_false, or_self] at hc
        rw [hc]
        exact hslash
      · split at hc
        · simp only [List.mem_cons, List.not_mem_nil, or_false, or_self] at hc
          rw [hc]
          exact hslash
        · cases hc
  · unfold slashed at hc
    split at hc
    · rcases List.mem_cons.mp hc with rfl | hc
      · decide
      · exact hpath c hc
    · exact hpath c hc
  · exact visible_tail (by decide) _ c hc
  · exact visible_tail (by decide) _ c hc
  · exact visible_tail (by decide) _ c hc

theorem cut_append_cons {separator : Char} {s : List Char} (h : separator ∉ s) (t : List Char) :
    cut separator (s ++ separator :: t) = (s, t) := by
  have hall := ne_of_not_mem h
  rw [cut, List.takeWhile_append_of_pos hall, List.dropWhile_append_of_pos hall,
    List.takeWhile_cons_of_neg (by simp), List.dropWhile_cons_of_neg (by simp), List.append_nil]
  rfl

theorem cut_tail {separator : Char} {s : List Char} (h : separator ∉ s) (t : List Char) :
    cut separator (s ++ tail separator t) = (s, t) := by
  unfold tail
  split
  · rename_i ht
    rw [List.append_nil, cut_of_not_mem h, ht]
  · exact cut_append_cons h t

theorem splitScheme_colon {scheme : List Char} (h : ':' ∉ scheme) (url : List Char) :
    splitScheme (scheme ++ ':' :: url) =
      if scheme.head?.any Char.isAlpha ∧ scheme.all schemeChar then
        (scheme.map Char.toLower, url)
      else ([], scheme ++ ':' :: url) := by
  have hcut := cut_append_cons h url
  have htake : (scheme ++ ':' :: url).takeWhile (· ≠ ':') = scheme := congrArg Prod.fst hcut
  simp only [splitScheme, htake, hcut, List.mem_append, List.mem_cons, true_or, or_true, true_and]

/-- Nothing that starts with a slash, and nothing without a colon, has a scheme. -/
theorem splitScheme_none {url : List Char} (h : ':' ∈ url → url.head? = some '/') :
    splitScheme url = ([], url) := by
  unfold splitScheme
  dsimp only
  rw [if_neg]
  rintro ⟨hcolon, hhead, -⟩
  obtain ⟨rest, rfl⟩ := List.head?_eq_some_iff.mp (h hcolon)
  rw [List.takeWhile_cons_of_pos (by decide)] at hhead
  cases hhead

/-- An authority without delimiters is read up to where the path, the query or the fragment
starts. -/
theorem splitNetloc_authority {netloc url : List Char} (h : ∀ c ∈ netloc, delimiter c = false)
    (hurl : url = [] ∨ url.head?.any delimiter = true) :
    splitNetloc ('/' :: '/' :: (netloc ++ url)) = (netloc, url) := by
  have hall : ∀ c ∈ netloc, (!delimiter c) = true := by
    intro c hc
    rw [h c hc]
    rfl
  rw [splitNetloc, List.takeWhile_append_of_pos hall, List.dropWhile_append_of_pos hall]
  cases url with
  | nil => simp
  | cons c url =>
    have hc : delimiter c = true := by simpa using hurl
    simp [hc]

theorem splitNetloc_none {url : List Char} (h : ¬ ['/', '/'] <+: url) :
    splitNetloc url = ([], url) := by
  unfold splitNetloc
  split
  · exact absurd ⟨_, rfl⟩ h
  · rfl

theorem parse_steps (refuses : List Char → Bool) {url scheme rest netloc behind : List Char}
    (hvisible : ∀ c ∈ url, 0x20 < c.toNat) (hscheme : splitScheme url = (scheme, rest))
    (hnetloc : splitNetloc rest = (netloc, behind)) (hplain : plainNetloc netloc = true) :
    Parse.urlparse refuses url =
      some
        (let path := (cut '?' (cut '#' behind).1).1
        let split := if scheme ∈ usesParams then splitParams path else (path, [])
        ⟨scheme, netloc, split.1, split.2, (cut '?' (cut '#' behind).1).2, (cut '#' behind).2⟩) := by
  rw [Parse.urlparse]
  dsimp only
  rw [clean_visible hvisible, hscheme]
  dsimp only
  rw [hnetloc]
  dsimp only
  rw [hplain]
  rfl

/-! ### Parameters -/

/-- What is behind the last slash. -/
def lastSegment (url : List Char) : List Char := (url.reverse.takeWhile (· ≠ '/')).reverse

theorem take_lastSegment (url : List Char) :
    url.take (url.length - (lastSegment url).length) ++ lastSegment url = url := by
  have hprefix : url.reverse.takeWhile (· ≠ '/') <+: url.reverse := List.takeWhile_prefix _
  have hsuffix : lastSegment url <:+ url := by
    rw [← List.reverse_prefix, lastSegment, List.reverse_reverse]
    exact hprefix
  conv_rhs => rw [← List.take_append_drop (url.length - (lastSegment url).length) url]
  rw [← List.suffix_iff_eq_drop.mp hsuffix]

theorem lastSegment_append {s : List Char} (h : '/' ∉ s) (url : List Char) :
    lastSegment (url ++ s) = lastSegment url ++ s := by
  have hreverse : ∀ c ∈ s.reverse, decide (c ≠ '/') = true := by
    intro c hc
    exact ne_of_not_mem h c (List.mem_reverse.mp hc)
  unfold lastSegment
  rw [List.reverse_append, List.takeWhile_append_of_pos hreverse, List.reverse_append,
    List.reverse_reverse]

theorem lastSegment_slash {s : List Char} (h : '/' ∈ s) (url : List Char) :
    lastSegment (url ++ s) = lastSegment s := by
  unfold lastSegment
  rw [List.reverse_append, List.takeWhile_append, if_neg]
  intro hlength
  have hall := List.takeWhile_eq_self_iff.mp
    ((List.takeWhile_prefix (· ≠ '/')).eq_of_length hlength)
  simpa using hall '/' (List.mem_reverse.mpr h)

theorem mem_of_mem_lastSegment {c : Char} {url : List Char} (h : c ∈ lastSegment url) :
    c ∈ url := by
  rw [← take_lastSegment url]
  exact List.mem_append_right _ h

theorem splitParams_eq (url : List Char) :
    splitParams url =
      if ';' ∈ lastSegment url then
        (url.take (url.length - (lastSegment url).length) ++ (cut ';' (lastSegment url)).1,
          (cut ';' (lastSegment url)).2)
      else (url, []) := by
  rfl

theorem splitParams_none {url : List Char} (h : ';' ∉ lastSegment url) :
    splitParams url = (url, []) := by
  rw [splitParams_eq, if_neg h]

theorem splitParams_tail {path params : List Char} (hpath : ';' ∉ path) (hparams : '/' ∉ params) :
    splitParams (path ++ tail ';' params) = (path, params) := by
  by_cases hnil : params = []
  · have hlast : ';' ∉ lastSegment path := fun h => hpath (mem_of_mem_lastSegment h)
    rw [tail, if_pos hnil, List.append_nil, splitParams_none hlast, hnil]
  · have hslash : '/' ∉ ';' :: params := by simp [hparams]
    have hlast : ';' ∉ lastSegment path := fun h => hpath (mem_of_mem_lastSegment h)
    have hlength : (path ++ ';' :: params).length -
        (lastSegment path ++ ';' :: params).length =
          path.length - (lastSegment path).length := by
      simp only [List.length_append]
      omega
    have htake : (path ++ ';' :: params).take (path.length - (lastSegment path).length) =
        path.take (path.length - (lastSegment path).length) :=
      List.take_append_of_le_length (by omega)
    rw [tail, if_neg hnil, splitParams_eq, lastSegment_append hslash, if_pos (by simp),
      cut_append_cons hlast, hlength, htake, take_lastSegment]

/-- Parameters with a slash are taken for a part of the path. -/
theorem splitParams_slash {params : List Char} (hparams : '/' ∈ params) (hcolon : ';' ∉ params)
    (path : List Char) : (splitParams (path ++ ';' :: params)).2 = [] := by
  have hsplit : path ++ ';' :: params = (path ++ [';']) ++ params := by simp
  have hlast : ';' ∉ lastSegment ((path ++ [';']) ++ params) := by
    rw [lastSegment_slash hparams]
    exact fun h => hcolon (mem_of_mem_lastSegment h)
  rw [hsplit, splitParams_none hlast]

/-! ### The round trip -/

def quoted (parts : UrlParts) : UrlParts :=
  ⟨quote parts.scheme, quote parts.netloc, quotedPath parts.path, quote parts.params,
    quote parts.query, quote parts.fragment⟩

/-- What is behind the scheme, the authority and the path. -/
def afterPath (parts : UrlParts) : List Char := tail '?' parts.query ++ tail '#' parts.fragment

def pathPart (parts : UrlParts) : List Char :=
  slashed parts.netloc parts.path parts.params ++ tail ';' parts.params

def afterScheme (parts : UrlParts) : List Char :=
  authorityPart parts.scheme parts.netloc (parts.path ++ tail ';' parts.params) ++
    (pathPart parts ++ afterPath parts)

theorem urlunparse_eq (parts : UrlParts) :
    urlunparse parts = schemePart (quote parts.scheme) ++ afterScheme (quoted parts) :=
  parse_urlunparse_eq (quoted parts)

theorem quote_of_safe {s : List Char} (h : ∀ c ∈ s, pathSafe.mem c = true) : quote s = s := by
  induction s with
  | nil => rfl
  | cons c s ih =>
    obtain ⟨hc, hs⟩ := List.forall_mem_cons.mp h
    rw [quote, Lib.Percent.quote_cons_safe hc]
    exact congrArg (c :: ·) (ih hs)

theorem safe_of_plainSchemeChar {c : Char} (h : plainSchemeChar c = true) :
    pathSafe.mem c = true ∧ schemeChar c = true := by
  simp only [plainSchemeChar, Bool.or_eq_true, decide_eq_true_eq, List.mem_cons, List.not_mem_nil,
    or_false] at h
  rcases h with h | rfl | rfl
  · simp [pathSafe, alwaysSafe, schemeChar, h]
  · decide
  · decide

theorem quote_scheme {scheme : List Char} (h : IsScheme scheme) : quote scheme = scheme := by
  apply quote_of_safe
  intro c hc
  exact (safe_of_plainSchemeChar (List.all_eq_true.mp h.2.1 c hc)).1

theorem colon_mem_quotedPath {path : List Char} (h : ':' ∈ quotedPath path) :
    (quotedPath path).head? = some '/' := by
  by_cases hdrive : isDrivePath path = true
  · obtain ⟨letter, rest, rfl, -⟩ := (isDrivePath_iff path).mp hdrive
    obtain ⟨rest', hrest⟩ := quotedPath_slash (letter :: ':' :: rest)
    rw [hrest]
    rfl
  · rw [quotedPath, if_neg hdrive] at h
    exact absurd h (colon_not_mem_quote path)

theorem semicolon_not_mem_quotedPath (path : List Char) : ';' ∉ quotedPath path := by
  intro h
  by_cases hdrive : isDrivePath path = true
  · rw [quotedPath, if_pos hdrive] at h
    obtain ⟨letter, rest, rfl, hletter⟩ := (isDrivePath_iff path).mp hdrive
    rcases List.mem_append.mp h with h | h
    · simp only [List.take_succ_cons, List.take_zero, List.mem_cons, List.not_mem_nil, or_false]
        at h
      rcases h with h | h | h
      · cases h
      · rw [← h] at hletter
        cases hletter
      · cases h
    · exact semicolon_not_mem_quote _ h
  · rw [quotedPath, if_neg hdrive] at h
    exact semicolon_not_mem_quote path h

theorem authorityPart_head (scheme netloc url : List Char) :
    authorityPart scheme netloc url = [] ∨
      (authorityPart scheme netloc url).head? = some '/' := by
  unfold authorityPart
  split
  · exact .inr rfl
  · split
    · exact .inr rfl
    · split
      · exact .inr rfl
      · exact .inl rfl

theorem mem_tail {separator c : Char} {s : List Char} (h : c ∈ tail separator s) :
    c = separator ∨ c ∈ s := by
  unfold tail at h
  split at h
  · cases h
  · exact List.mem_cons.mp h

/-- A colon behind the scheme is that of a drive letter. -/
theorem colon_mem_afterScheme {parts : UrlParts} (h : ':' ∈ afterScheme (quoted parts)) :
    (afterScheme (quoted parts)).head? = some '/' := by
  have htail : ∀ (separator : Char) (s : List Char), ':' ≠ separator →
      ':' ∉ tail separator (quote s) := by
    intro separator s hne hmem
    rcases mem_tail hmem with h | h
    · exact hne h
    · exact colon_not_mem_quote s h
  rcases authorityPart_head (quoted parts).scheme (quoted parts).netloc
    ((quoted parts).path ++ tail ';' (quoted parts).params) with hnil | hhead
  · have hnetloc : (quoted parts).netloc = [] := by
      by_contra hne
      rw [authorityPart, if_pos hne] at hnil
      cases hnil
    have hslashed : slashed (quoted parts).netloc (quoted parts).path (quoted parts).params =
        quotedPath parts.path := by
      rw [slashed, if_neg]
      · rfl
      · rintro ⟨hne, -⟩
        exact hne hnetloc
    rw [afterScheme, hnil, pathPart, hslashed] at h ⊢
    simp only [List.nil_append, List.mem_append, afterPath] at h
    rcases h with (h | h) | h | h
    · have hhead := colon_mem_quotedPath h
      obtain ⟨rest, hrest⟩ := List.head?_eq_some_iff.mp hhead
      rw [hrest]
      rfl
    · exact absurd h (htail _ _ (by decide))
    · exact absurd h (htail _ _ (by decide))
    · exact absurd h (htail _ _ (by decide))
  · obtain ⟨rest, hrest⟩ := List.head?_eq_some_iff.mp hhead
    rw [afterScheme, hrest]
    rfl

theorem splitScheme_urlunparse {parts : UrlParts}
    (h : parts.scheme ≠ [] → IsScheme parts.scheme) :
    splitScheme (urlunparse parts) = (parts.scheme, afterScheme (quoted parts)) := by
  rw [urlunparse_eq]
  by_cases hnil : parts.scheme = []
  · have hquote : quote parts.scheme = [] := (quote_eq_nil_iff _).mpr hnil
    rw [schemePart, if_pos hquote, List.nil_append, splitScheme_none colon_mem_afterScheme, hnil]
  · have hscheme := h hnil
    have hcolon : ':' ∉ parts.scheme := by
      intro hmem
      have hchar := List.all_eq_true.mp hscheme.2.1 ':' hmem
      cases hchar
    have hall : parts.scheme.all schemeChar = true := by
      rw [List.all_eq_true]
      intro c hc
      exact (safe_of_plainSchemeChar (List.all_eq_true.mp hscheme.2.1 c hc)).2
    rw [quote_scheme hscheme, schemePart, if_neg hnil, List.append_assoc, List.singleton_append,
      splitScheme_colon hcolon, if_pos ⟨hscheme.1, hall⟩, hscheme.2.2]

theorem parse_scheme {refuses : List Char → Bool} {url : List Char} {parts : UrlParts}
    (hvisible : ∀ c ∈ url, 0x20 < c.toNat) (h : Parse.urlparse refuses url = some parts) :
    parts.scheme = (splitScheme url).1 := by
  rw [Parse.urlparse] at h
  dsimp only at h
  rw [clean_visible hvisible] at h
  split at h
  · cases h
  · cases h
    rfl

theorem parse_netloc {refuses : List Char → Bool} {url : List Char} {parts : UrlParts}
    (hvisible : ∀ c ∈ url, 0x20 < c.toNat) (h : Parse.urlparse refuses url = some parts) :
    parts.netloc = (splitNetloc (splitScheme url).2).1 := by
  rw [Parse.urlparse] at h
  dsimp only at h
  rw [clean_visible hvisible] at h
  split at h
  · cases h
  · cases h
    rfl

theorem toLower_ne_percent {c : Char} (h : schemeChar c = true) : c.toLower ≠ '%' ∧ c ≠ '%' := by
  have hascii : c.toNat < 0x80 := by
    simp only [schemeChar, Bool.or_eq_true, decide_eq_true_eq, List.mem_cons, List.not_mem_nil,
      or_false] at h
    rcases h with h | rfl | rfl | rfl
    · have hrange := toNat_of_isAlphanum h
      omega
    all_goals decide
  exact of_ascii (P := fun c => schemeChar c = true → c.toLower ≠ '%' ∧ c ≠ '%') (by decide)
    hascii h

/-- A scheme that is read back is one that is written as it is. -/
theorem isScheme_of_read {refuses : List Char → Bool} {parts : UrlParts}
    (h : urlparse refuses (urlunparse parts) = .ok parts) (hne : parts.scheme ≠ []) :
    IsScheme parts.scheme := by
  have hquote : quote parts.scheme ≠ [] := fun hnil => hne ((quote_eq_nil_iff _).mp hnil)
  have hread : parts.scheme = unquote (splitScheme (urlunparse parts)).1 := by
    unfold urlparse at h
    split at h
    · cases h
    · rename_i raw hraw
      have hscheme := parse_scheme (visible_urlunparse parts) hraw
      rw [← hscheme]
      cases h
      rfl
  rw [urlunparse_eq, schemePart, if_neg hquote, List.append_assoc, List.singleton_append,
    splitScheme_colon (colon_not_mem_quote _)] at hread
  by_cases hgood : (quote parts.scheme).head?.any Char.isAlpha ∧
      (quote parts.scheme).all schemeChar
  · rw [if_pos hgood] at hread
    have hchar := List.all_eq_true.mp hgood.2
    have hself : quote parts.scheme = parts.scheme := by
      have hpercent : '%' ∉ quote parts.scheme := by
        intro hmem
        exact (toLower_ne_percent (hchar _ hmem)).2 rfl
      rw [← unquote_of_not_mem hpercent]
      exact Lib.Percent.unquote_quote pathSafe parts.scheme
    rw [hself] at hread hgood hchar
    have hlower : '%' ∉ parts.scheme.map Char.toLower := by
      intro hmem
      obtain ⟨c, hc, hpercent⟩ := List.mem_map.mp hmem
      exact (toLower_ne_percent (hchar c hc)).1 hpercent
    rw [unquote_of_not_mem hlower] at hread
    refine ⟨hgood.1, ?_, hread.symm⟩
    rw [List.all_eq_true]
    intro c hc
    have hscheme := hchar c hc
    rw [← hself] at hc
    rcases Lib.Percent.mem_quote hc with ⟨-, hsafe⟩ | rfl | ⟨n, hn, rfl⟩
    · exact of_ascii
        (P := fun c => pathSafe.mem c = true → schemeChar c = true → plainSchemeChar c = true)
        (by decide) (pathSafe.ascii c hsafe) hsafe hscheme
    · cases hscheme
    · have hdigit : ∀ n < 16, plainSchemeChar (Lib.Percent.hexDigit n) = true := by decide
      exact hdigit n hn
  · rw [if_neg hgood] at hread
    exact absurd hread hne

theorem inert_tail {separator : Char} (hseparator : inert separator = true) {s : List Char}
    (h : ∀ c ∈ s, inert c = true) : ∀ c ∈ tail separator s, inert c = true := by
  intro c hc
  rcases mem_tail hc with rfl | hc
  · exact hseparator
  · exact h c hc

theorem inert_pathPart (parts : UrlParts) : ∀ c ∈ pathPart (quoted parts), inert c = true := by
  intro c hc
  rcases List.mem_append.mp hc with hc | hc
  · unfold slashed at hc
    split at hc
    · rcases List.mem_cons.mp hc with rfl | hc
      · decide
      · exact quotedPath_inert _ c hc
    · exact quotedPath_inert _ c hc
  · exact inert_tail (by decide) inert_quote c hc

/-- Behind the path there is nothing, a query or a fragment. -/
theorem afterPath_head (parts : UrlParts) :
    afterPath parts = [] ∨ (afterPath parts).head? = some '?' ∨
      (afterPath parts).head? = some '#' := by
  unfold afterPath tail
  by_cases hquery : parts.query = []
  · by_cases hfragment : parts.fragment = []
    · simp [hquery, hfragment]
    · simp [hquery, hfragment]
  · simp [hquery]

theorem cut_afterPath (parts : UrlParts) :
    cut '#' (pathPart (quoted parts) ++ afterPath (quoted parts)) =
        (pathPart (quoted parts) ++ tail '?' (quote parts.query), quote parts.fragment) ∧
      cut '?' (pathPart (quoted parts) ++ tail '?' (quote parts.query)) =
        (pathPart (quoted parts), quote parts.query) := by
  have hpath := inert_pathPart parts
  have hquery : '?' ∉ pathPart (quoted parts) := fun h => absurd (hpath _ h) (by decide)
  have hfragment : '#' ∉ pathPart (quoted parts) ++ tail '?' (quote parts.query) := by
    intro h
    rcases List.mem_append.mp h with h | h
    · exact absurd (hpath _ h) (by decide)
    · rcases mem_tail h with h | h
      · exact absurd h (by decide)
      · exact absurd (inert_quote _ h) (by decide)
  constructor
  · have hsplit : pathPart (quoted parts) ++ afterPath (quoted parts) =
        (pathPart (quoted parts) ++ tail '?' (quote parts.query)) ++
          tail '#' (quote parts.fragment) := by
      rw [List.append_assoc]
      rfl
    rw [hsplit, cut_tail hfragment]
  · exact cut_tail hquery _

/-- What is behind the path makes no authority out of it. -/
theorem not_slashes_append {url behind : List Char} (h : ¬ ['/', '/'] <+: url)
    (hbehind : behind.head? ≠ some '/') : ¬ ['/', '/'] <+: url ++ behind := by
  rintro ⟨rest, hrest⟩
  cases url with
  | nil =>
    rw [List.nil_append] at hrest
    rw [← hrest] at hbehind
    exact hbehind rfl
  | cons c url =>
    cases url with
    | nil =>
      rw [List.singleton_append, List.cons_append, List.cons_append] at hrest
      injection hrest with _ hrest
      rw [← hrest] at hbehind
      exact hbehind rfl
    | cons d url =>
      simp only [List.cons_append, List.cons.injEq] at hrest
      obtain ⟨rfl, rfl, -⟩ := hrest
      exact h ⟨url, rfl⟩

/-- Behind an authority, the path starts with a slash or there is none. -/
theorem pathPart_head {parts : UrlParts} (h : parts.netloc ≠ []) :
    pathPart parts = [] ∨ (pathPart parts).head? = some '/' := by
  unfold pathPart slashed
  split
  · exact .inr rfl
  · rename_i hnot
    by_cases hnil : parts.path ++ tail ';' parts.params = []
    · exact .inl hnil
    · right
      by_contra hhead
      exact hnot ⟨h, hnil, hhead⟩

theorem pathPart_of_no_netloc {parts : UrlParts} (h : parts.netloc = []) :
    pathPart parts = parts.path ++ tail ';' parts.params := by
  rw [pathPart, slashed, if_neg]
  rintro ⟨hne, -⟩
  exact hne h

theorem splitNetloc_afterScheme {parts : UrlParts} (h : '/' ∉ parts.netloc) :
    splitNetloc (afterScheme (quoted parts)) =
      (quote parts.netloc, pathPart (quoted parts) ++ afterPath (quoted parts)) := by
  have hstart : ∀ {url : List Char}, url = [] ∨ url.head? = some '/' →
      url ++ afterPath (quoted parts) = [] ∨
        (url ++ afterPath (quoted parts)).head?.any delimiter = true := by
    rintro url (rfl | hhead)
    · rcases afterPath_head (quoted parts) with hnil | hhead | hhead
      · exact .inl hnil
      · exact .inr (by rw [List.nil_append, hhead]; decide)
      · exact .inr (by rw [List.nil_append, hhead]; decide)
    · obtain ⟨rest, rfl⟩ := List.head?_eq_some_iff.mp hhead
      exact .inr (by simp [delimiter])
  by_cases hnil : quote parts.netloc = []
  · have hnetloc : (quoted parts).netloc = [] := hnil
    rw [afterScheme, pathPart_of_no_netloc hnetloc, hnil]
    generalize (quoted parts).path ++ tail ';' (quoted parts).params = url
    have hempty : ∀ c ∈ ([] : List Char), delimiter c = false := by simp
    rw [authorityPart, if_neg (not_not.mpr hnetloc)]
    split
    · rename_i hslashes
      obtain ⟨rest, rfl⟩ := List.isPrefixOf_iff_prefix.mp hslashes
      exact splitNetloc_authority hempty (hstart (.inr rfl))
    · rename_i hslashes
      split
      · rename_i hurl
        exact splitNetloc_authority hempty (hstart hurl.2.2)
      · rw [List.nil_append]
        apply splitNetloc_none
        apply not_slashes_append
        · exact fun hprefix => hslashes (List.isPrefixOf_iff_prefix.mpr hprefix)
        · rcases afterPath_head (quoted parts) with hnil | hhead | hhead
          · simp [hnil]
          · simp [hhead]
          · simp [hhead]
  · have hne : (quoted parts).netloc ≠ [] := hnil
    rw [afterScheme, authorityPart, if_pos hne]
    exact splitNetloc_authority (delimiter_quote h) (hstart (pathPart_head hne))

/-- An authority with a slash ends there. -/
theorem netloc_of_read {refuses : List Char → Bool} {parts : UrlParts}
    (hscheme : parts.scheme ≠ [] → IsScheme parts.scheme)
    (h : urlparse refuses (urlunparse parts) = .ok parts) : '/' ∉ parts.netloc := by
  intro hslash
  have hread : parts.netloc = unquote (splitNetloc (afterScheme (quoted parts))).1 := by
    unfold urlparse at h
    split at h
    · cases h
    · rename_i raw hraw
      have hnetloc := parse_netloc (visible_urlunparse parts) hraw
      rw [splitScheme_urlunparse hscheme] at hnetloc
      rw [← hnetloc]
      cases h
      rfl
  obtain ⟨host, rest, hsplit, hhost⟩ := List.eq_append_cons_of_mem hslash
  have hquote : quote parts.netloc = quote host ++ '/' :: quote rest := by
    rw [hsplit, quote_append]
    exact congrArg (quote host ++ ·) (Lib.Percent.quote_cons_safe (by decide) rest)
  have hne : (quoted parts).netloc ≠ [] := by
    intro hnil
    rw [quoted, hquote] at hnil
    simp at hnil
  have hauthority : splitNetloc (afterScheme (quoted parts)) =
      (quote host, '/' :: quote rest ++
        (pathPart (quoted parts) ++ afterPath (quoted parts))) := by
    rw [afterScheme, authorityPart, if_pos hne]
    have hnetloc : (quoted parts).netloc = quote host ++ '/' :: quote rest := hquote
    rw [hnetloc, List.cons_append, List.cons_append, List.append_assoc]
    exact splitNetloc_authority (delimiter_quote hhost) (.inr (by simp [delimiter]))
  have hback : unquote (quote host) = host := Lib.Percent.unquote_quote pathSafe host
  rw [hauthority, hback] at hread
  have hlength := congrArg List.length (hread.symm.trans hsplit)
  simp at hlength

/-- The path and the parameters as they are read. -/
def readParams (scheme url : List Char) : List Char × List Char :=
  if usesParams.contains scheme then splitParams url else (url, [])

theorem unquote_scheme {scheme : List Char} (h : scheme ≠ [] → IsScheme scheme) :
    unquote scheme = scheme := by
  by_cases hnil : scheme = []
  · rw [hnil]
    rfl
  · have hquote := quote_scheme (h hnil)
    have hback : unquote (quote scheme) = scheme := Lib.Percent.unquote_quote pathSafe scheme
    rwa [hquote] at hback

theorem urlparse_urlunparse (refuses : List Char → Bool) {parts : UrlParts}
    (hscheme : parts.scheme ≠ [] → IsScheme parts.scheme) (hnetloc : '/' ∉ parts.netloc) :
    urlparse refuses (urlunparse parts) =
      .ok ⟨parts.scheme, parts.netloc,
        unquote (readParams parts.scheme (pathPart (quoted parts))).1,
        unquote (readParams parts.scheme (pathPart (quoted parts))).2,
        parts.query, parts.fragment⟩ := by
  have hparse := parse_steps refuses (visible_urlunparse parts) (splitScheme_urlunparse hscheme)
    (splitNetloc_afterScheme hnetloc) (plainNetloc_quote parts.netloc)
  obtain ⟨hfragment, hquery⟩ := cut_afterPath parts
  have hback : ∀ s, unquote (quote s) = s := Lib.Percent.unquote_quote pathSafe
  rw [hfragment, hquery] at hparse
  rw [urlparse, hparse]
  simp only [hback, unquote_scheme hscheme, readParams, List.contains_iff_mem]

theorem head_quotedPath (path : List Char) :
    (quotedPath path).head? = some '/' ↔ path.head? = some '/' := by
  by_cases h : path.head? = some '/'
  · obtain ⟨rest, rfl⟩ := List.head?_eq_some_iff.mp h
    obtain ⟨rest', hrest⟩ := quotedPath_slash rest
    simp [hrest]
  · rw [quotedPath_of_ne_slash h, head_quote]

theorem quotedPath_eq_nil_iff (path : List Char) : quotedPath path = [] ↔ path = [] := by
  constructor
  · intro h
    have hback := unquote_quotedPath path
    rw [h] at hback
    exact hback.symm
  · rintro rfl
    rfl

/-- When the path gets a slash in front. -/
theorem slashed_iff (parts : UrlParts) :
    ((quoted parts).netloc ≠ [] ∧
        (quoted parts).path ++ tail ';' (quoted parts).params ≠ [] ∧
        ((quoted parts).path ++ tail ';' (quoted parts).params).head? ≠ some '/') ↔
      parts.netloc ≠ [] ∧ parts.path.head? ≠ some '/' ∧
        ¬ (parts.path = [] ∧ parts.params = []) := by
  have htail : tail ';' (quote parts.params) = [] ↔ parts.params = [] := by
    rw [tail_quote]
    split
    · simp [*]
    · simp [*]
  have hnil : (quoted parts).path ++ tail ';' (quoted parts).params = [] ↔
      parts.path = [] ∧ parts.params = [] := by
    rw [List.append_eq_nil_iff]
    exact and_congr (quotedPath_eq_nil_iff _) htail
  have hnetloc : (quoted parts).netloc = [] ↔ parts.netloc = [] := quote_eq_nil_iff _
  have hhead : ((quoted parts).path ++ tail ';' (quoted parts).params).head? = some '/' ↔
      parts.path.head? = some '/' := by
    by_cases hpath : parts.path = []
    · have hquoted : (quoted parts).path = [] := (quotedPath_eq_nil_iff _).mpr hpath
      rw [hquoted, hpath, List.nil_append, tail]
      split
      · simp
      · simp
    · have hquoted : (quoted parts).path ≠ [] := fun h => hpath ((quotedPath_eq_nil_iff _).mp h)
      rw [List.head?_append_of_ne_nil _ hquoted]
      exact head_quotedPath parts.path
  rw [Ne, hnetloc, Ne, hnil, Ne, hhead]
  tauto

theorem readParams_tail {scheme path params : List Char}
    (h : params ≠ [] → scheme ∈ usesParams ∧ '/' ∉ params) (hpath : ';' ∉ path) :
    readParams scheme (path ++ tail ';' (quote params)) = (path, quote params) := by
  unfold readParams
  by_cases hnil : params = []
  · have hquote : quote params = [] := (quote_eq_nil_iff _).mpr hnil
    have hlast : ';' ∉ lastSegment path := fun h => hpath (mem_of_mem_lastSegment h)
    rw [hquote, tail, if_pos rfl, List.append_nil, splitParams_none hlast, ite_self]
  · obtain ⟨hscheme, hslash⟩ := h hnil
    rw [if_pos (List.contains_iff_mem.mpr hscheme),
      splitParams_tail hpath (slash_not_mem_quote hslash)]

/-- Parameters that are read back are those of a scheme that has some. -/
theorem params_of_read {scheme path params : List Char} (hne : params ≠ [])
    (h : unquote (readParams scheme (path ++ tail ';' (quote params))).2 = params) :
    scheme ∈ usesParams ∧ '/' ∉ params := by
  have hquote : quote params ≠ [] := fun hnil => hne ((quote_eq_nil_iff _).mp hnil)
  have hnil : unquote [] = [] := rfl
  constructor
  · by_contra hscheme
    rw [readParams, if_neg (mt List.contains_iff_mem.mp hscheme), hnil] at h
    exact hne h.symm
  · intro hslash
    have hmem : '/' ∈ quote params := by
      obtain ⟨s, t, rfl⟩ := List.append_of_mem hslash
      have hcons : quote ('/' :: t) = '/' :: quote t := Lib.Percent.quote_cons_safe (by decide) t
      rw [quote_append, hcons]
      simp
    by_cases hscheme : scheme ∈ usesParams
    · rw [readParams, if_pos (List.contains_iff_mem.mpr hscheme), tail, if_neg hquote,
        splitParams_slash hmem (semicolon_not_mem_quote params), hnil] at h
      exact hne h.symm
    · rw [readParams, if_neg (mt List.contains_iff_mem.mp hscheme), hnil] at h
      exact hne h.symm

/-- A path behind an authority that gets a slash is read back with it. -/
theorem path_of_read {parts : UrlParts}
    (hparams : parts.params ≠ [] → parts.scheme ∈ usesParams ∧ '/' ∉ parts.params)
    (h : unquote (readParams parts.scheme (pathPart (quoted parts))).1 = parts.path)
    (hne : parts.netloc ≠ []) :
    parts.path.head? = some '/' ∨ (parts.path = [] ∧ parts.params = []) := by
  by_contra hpath
  obtain ⟨hhead, hnil⟩ := not_or.mp hpath
  have hslashed : pathPart (quoted parts) =
      ('/' :: quotedPath parts.path) ++ tail ';' (quote parts.params) := by
    rw [pathPart, slashed, if_pos ((slashed_iff parts).mpr ⟨hne, hhead, hnil⟩)]
    rfl
  have hsemicolon : ';' ∉ '/' :: quotedPath parts.path := by
    simp [semicolon_not_mem_quotedPath]
  have hquote : '/' :: quotedPath parts.path = quote ('/' :: parts.path) := by
    rw [quotedPath_of_ne_slash hhead]
    exact (Lib.Percent.quote_cons_safe (by decide) parts.path).symm
  have hback : unquote (quote ('/' :: parts.path)) = '/' :: parts.path :=
    Lib.Percent.unquote_quote pathSafe _
  rw [hslashed, readParams_tail hparams hsemicolon, hquote, hback] at h
  have hlength := congrArg List.length h
  simp at hlength

/-- The parts of a URI are read back exactly if they are well formed, whatever they are. -/
theorem parts_survive_iff (refuses : List Char → Bool) (parts : UrlParts) :
    urlparse refuses (urlunparse parts) = .ok parts ↔ WellFormed parts := by
  constructor
  · intro h
    have hscheme := isScheme_of_read h
    have hnetloc := netloc_of_read hscheme h
    have hread := urlparse_urlunparse refuses hscheme hnetloc
    rw [h] at hread
    have hequal := Except.ok.inj hread
    have hparams : parts.params ≠ [] → parts.scheme ∈ usesParams ∧ '/' ∉ parts.params := by
      intro hne
      exact params_of_read hne (congrArg UrlParts.params hequal).symm
    have hpath := path_of_read hparams (congrArg UrlParts.path hequal).symm
    exact ⟨hscheme, hnetloc, hpath, hparams⟩
  · intro h
    have hslashed : pathPart (quoted parts) =
        quotedPath parts.path ++ tail ';' (quote parts.params) := by
      rw [pathPart, slashed, if_neg]
      · rfl
      · intro hadded
        obtain ⟨hne, hhead, hnil⟩ := (slashed_iff parts).mp hadded
        exact (h.path hne).elim hhead hnil
    have hback : unquote (quote parts.params) = parts.params :=
      Lib.Percent.unquote_quote pathSafe parts.params
    rw [urlparse_urlunparse refuses h.scheme h.netloc, hslashed,
      readParams_tail h.params (semicolon_not_mem_quotedPath parts.path), unquote_quotedPath, hback]

/-! ### Replacing parts -/

end Pygls.Uris
