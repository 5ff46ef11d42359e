import Pygls.Uris

/-!
# Normal forms of paths

What `_normalize_win_path` makes of a path, which paths come back out of their URI, and which
URIs keep the form that `from_fs_path(to_fs_path(uri))` gives them.
-/

namespace Pygls.Uris

open Parse

set_option autoImplicit false

theorem toLower_alpha {c : Char} (h : c.isAlpha = true) :
    c.toLower.isAlpha = true ∧ c.toLower.toLower = c.toLower ∧ c.toLower ≠ '/' ∧
      c.toLower ≠ '\\' :=
  of_ascii (P := fun c => c.isAlpha = true → c.toLower.isAlpha = true ∧
    c.toLower.toLower = c.toLower ∧ c.toLower ≠ '/' ∧ c.toLower ≠ '\\') (by decide)
    (alpha_ascii h) h

theorem toLower_of_isLower {c : Char} (h : c.isLower = true) :
    c.isAlpha = true ∧ c.toLower = c ∧ c ≠ '/' ∧ c ≠ '\\' := by
  have halpha : c.isAlpha = true := (Bool.or_eq_true _ _).mpr (.inr h)
  exact of_ascii (P := fun c => c.isLower = true → c.isAlpha = true ∧ c.toLower = c ∧
    c ≠ '/' ∧ c ≠ '\\') (by decide) (alpha_ascii halpha) h

theorem lowerDrive_of_not {path : List Char} (h : isDrivePath path = false) :
    lowerDrive path = path := by
  unfold lowerDrive
  split
  · rw [h, if_neg Bool.false_ne_true]
  · rfl

theorem lowerDrive_drive {letter : Char} (h : letter.isAlpha = true) (rest : List Char) :
    lowerDrive ('/' :: letter :: ':' :: rest) = '/' :: letter.toLower :: ':' :: rest := if_pos h

/-- A path is one with a drive letter, or it is left as it is. -/
theorem lowerDrive_cases (path : List Char) :
    (∃ letter rest, letter.isAlpha = true ∧ path = '/' :: letter :: ':' :: rest ∧
      lowerDrive path = '/' :: letter.toLower :: ':' :: rest) ∨
    (isDrivePath path = false ∧ lowerDrive path = path) := by
  cases hdrive : isDrivePath path with
  | false => exact .inr ⟨rfl, lowerDrive_of_not hdrive⟩
  | true =>
    obtain ⟨letter, rest, rfl, hletter⟩ := (isDrivePath_iff path).mp hdrive
    exact .inl ⟨letter, rest, hletter, rfl, lowerDrive_drive hletter rest⟩

theorem lowerDrive_again (path : List Char) : lowerDrive (lowerDrive path) = lowerDrive path := by
  rcases lowerDrive_cases path with ⟨letter, rest, hletter, -, hlower⟩ | ⟨-, hlower⟩
  · obtain ⟨halpha, hagain, -⟩ := toLower_alpha hletter
    rw [hlower, lowerDrive_drive halpha, hagain]
  · rw [hlower, hlower]

theorem length_lowerDrive (path : List Char) : (lowerDrive path).length = path.length := by
  rcases lowerDrive_cases path with ⟨letter, rest, -, rfl, hlower⟩ | ⟨-, hlower⟩
  · rw [hlower]
    rfl
  · rw [hlower]

/-- Two slashes in front. -/
def Doubled (path : List Char) : Prop := ∃ rest, path = '/' :: '/' :: rest

theorem doubled_lowerDrive (path : List Char) : Doubled (lowerDrive path) ↔ Doubled path := by
  rcases lowerDrive_cases path with ⟨letter, rest, hletter, rfl, hlower⟩ | ⟨-, hlower⟩
  · obtain ⟨-, -, hne, -⟩ := toLower_alpha hletter
    rw [hlower]
    constructor
    · rintro ⟨rest', heq⟩
      obtain ⟨-, heq⟩ := List.cons.inj heq
      exact absurd (List.cons.inj heq).1 hne
    · rintro ⟨rest', heq⟩
      cases heq
      cases hletter
  · rw [hlower]

theorem not_backslash_lowerDrive {path : List Char} (h : '\\' ∉ path) :
    '\\' ∉ lowerDrive path := by
  rcases lowerDrive_cases path with ⟨letter, rest, hletter, rfl, hlower⟩ | ⟨-, hlower⟩
  · obtain ⟨-, -, -, hne⟩ := toLower_alpha hletter
    rw [hlower]
    simp only [List.mem_cons, not_or] at h ⊢
    exact ⟨h.1, hne.symm, h.2.2⟩
  · rw [hlower]
    exact h

theorem slashes_forward (path : List Char) : slashes false path = path := rfl

theorem backslashes_forward (path : List Char) : backslashes false path = path := rfl

theorem slashes_cons {isWin : Bool} {c : Char} (h : c ≠ '\\') (path : List Char) :
    slashes isWin (c :: path) = c :: slashes isWin path := by
  cases isWin with
  | false => rfl
  | true => simp only [slashes, if_true, List.map_cons, if_neg h]

theorem slashes_of_not_mem {isWin : Bool} {path : List Char} (h : isWin = true → '\\' ∉ path) :
    slashes isWin path = path := by
  cases isWin with
  | false => rfl
  | true =>
    refine (List.map_congr_left ?_).trans (List.map_id path)
    intro c hc
    apply if_neg
    rintro rfl
    exact h rfl hc

theorem backslashes_cons {isWin : Bool} {c : Char} (h : c ≠ '/') (path : List Char) :
    backslashes isWin (c :: path) = c :: backslashes isWin path := by
  cases isWin with
  | false => rfl
  | true => simp only [backslashes, if_true, List.map_cons, if_neg h]

theorem not_mem_slashes (path : List Char) : '\\' ∉ slashes true path := by
  intro h
  obtain ⟨c, -, hc⟩ := List.mem_map.mp h
  split at hc
  · cases hc
  · rename_i hne
    exact hne hc

theorem slashes_backslashes (isWin : Bool) (path : List Char) :
    slashes isWin (backslashes isWin path) = slashes isWin path := by
  cases isWin with
  | false => rfl
  | true =>
    apply List.map_map.trans
    apply List.map_congr_left
    intro c _
    by_cases hc : c = '/'
    · rw [hc]
      rfl
    · simp only [Function.comp, if_neg hc]

theorem backslashes_slashes {path : List Char} (h : '/' ∉ path) :
    backslashes true (slashes true path) = path := by
  apply List.map_map.trans
  refine (List.map_congr_left ?_).trans (List.map_id path)
  intro c hc
  by_cases hbackslash : c = '\\'
  · rw [hbackslash]
    rfl
  · have hslash : c ≠ '/' := by
      rintro rfl
      exact h hc
    simp only [Function.comp, if_neg hbackslash, if_neg hslash, id]

/-- What `_normalize_win_path` does to a path with forward slashes. -/
def normalize (path : List Char) : Except UriError (List Char × List Char) :=
  (splitAuthority path).map fun r => (lowerDrive (withSlash r.1), r.2)

theorem splitAuthority_append {netloc : List Char} (h : '/' ∉ netloc) (rest : List Char) :
    splitAuthority ('/' :: '/' :: (netloc ++ '/' :: rest)) = .ok ('/' :: rest, netloc) := by
  have hmem : '/' ∈ netloc ++ '/' :: rest := List.mem_append_right _ List.mem_cons_self
  have hall := ne_of_not_mem h
  rw [splitAuthority, if_pos hmem, List.takeWhile_append_of_pos hall,
    List.dropWhile_append_of_pos hall]
  simp

theorem splitAuthority_of_not {path : List Char} (h : ¬Doubled path) :
    splitAuthority path = .ok (path, []) := by
  unfold splitAuthority
  split
  · rename_i rest
    exact absurd ⟨rest, rfl⟩ h
  · rfl

theorem normalize_append {netloc : List Char} (h : '/' ∉ netloc) (rest : List Char) :
    normalize ('/' :: '/' :: (netloc ++ '/' :: rest)) = .ok (lowerDrive ('/' :: rest), netloc) := by
  rw [normalize, splitAuthority_append h]
  rfl

theorem normalize_of_not {path : List Char} (h : ¬Doubled path) :
    normalize path = .ok (lowerDrive (withSlash path), []) := by
  rw [normalize, splitAuthority_of_not h]
  rfl

/-- Every path has one of three shapes. -/
theorem normalize_cases (path : List Char) :
    (∃ rest, path = '/' :: '/' :: rest ∧ '/' ∉ rest ∧ normalize path = .error .valueError) ∨
    (∃ netloc rest, path = '/' :: '/' :: (netloc ++ '/' :: rest) ∧ '/' ∉ netloc ∧
      normalize path = .ok (lowerDrive ('/' :: rest), netloc)) ∨
    (¬Doubled path ∧ normalize path = .ok (lowerDrive (withSlash path), [])) := by
  by_cases hdoubled : Doubled path
  · obtain ⟨rest, rfl⟩ := hdoubled
    by_cases hslash : '/' ∈ rest
    · obtain ⟨netloc, rest', rfl, hnetloc⟩ := List.eq_append_cons_of_mem hslash
      exact .inr (.inl ⟨netloc, rest', rfl, hnetloc, normalize_append hnetloc rest'⟩)
    · refine .inl ⟨rest, rfl, hslash, ?_⟩
      rw [normalize, splitAuthority, if_neg hslash]
      rfl
  · exact .inr (.inr ⟨hdoubled, normalize_of_not hdoubled⟩)

theorem withSlash_slash (path : List Char) : withSlash ('/' :: path) = '/' :: path := if_pos rfl

theorem withSlash_of_ne {path : List Char} (h : path.head? ≠ some '/') :
    withSlash path = '/' :: path := if_neg h

theorem slash_withSlash (path : List Char) : ∃ rest, withSlash path = '/' :: rest := by
  unfold withSlash
  split
  · rename_i hhead
    exact ⟨path.tail, List.eq_cons_of_mem_head? hhead⟩
  · exact ⟨path, rfl⟩

theorem not_backslash_withSlash {path : List Char} (h : '\\' ∉ path) : '\\' ∉ withSlash path := by
  unfold withSlash
  split
  · exact h
  · simp only [List.mem_cons, not_or]
    exact ⟨by decide, h⟩

theorem slash_lowerDrive (path : List Char) : ∃ rest, lowerDrive ('/' :: path) = '/' :: rest := by
  rcases lowerDrive_cases ('/' :: path) with ⟨letter, rest, -, -, hlower⟩ | ⟨-, hlower⟩
  · exact ⟨_, hlower⟩
  · exact ⟨path, hlower⟩

/-- A slash is in front of the path and the drive letter is a small one; no slash is in the
authority, and no backslash anywhere on Windows. -/
structure Normal (isWin : Bool) (path netloc : List Char) : Prop where
  slash : ∃ rest, path = '/' :: rest
  drive : lowerDrive path = path
  host : '/' ∉ netloc
  path_plain : isWin = true → '\\' ∉ path
  netloc_plain : isWin = true → '\\' ∉ netloc

theorem normal_of_normalize {isWin : Bool} {p path netloc : List Char}
    (h : normalize (slashes isWin p) = .ok (path, netloc)) : Normal isWin path netloc := by
  have hplain : isWin = true → '\\' ∉ slashes isWin p := by
    rintro rfl
    exact not_mem_slashes p
  rcases normalize_cases (slashes isWin p) with ⟨rest, -, -, heq⟩ |
    ⟨netloc', rest, hp, hhost, heq⟩ | ⟨-, heq⟩
  · rw [heq] at h
    cases h
  · rw [heq] at h
    cases h
    rw [hp] at hplain
    simp only [List.mem_cons, List.mem_append, not_or] at hplain
    refine ⟨slash_lowerDrive rest, lowerDrive_again _, hhost, ?_, fun hwin => (hplain hwin).2.2.1⟩
    intro hwin
    apply not_backslash_lowerDrive
    simp only [List.mem_cons, not_or]
    exact (hplain hwin).2.2.2
  · rw [heq] at h
    cases h
    refine ⟨?_, lowerDrive_again _, List.not_mem_nil, ?_, fun _ => List.not_mem_nil⟩
    · obtain ⟨rest, hrest⟩ := slash_withSlash (slashes isWin p)
      rw [hrest]
      exact slash_lowerDrive rest
    · intro hwin
      exact not_backslash_lowerDrive (not_backslash_withSlash (hplain hwin))

theorem normalizeWinPath_eq (isWin : Bool) (path : List Char) :
    normalizeWinPath isWin path = normalize (slashes isWin path) := rfl

/-- `from_fs_path` writes the normal form of a path. -/
theorem fromFsPath_eq (isWin : Bool) (p : List Char) :
    fromFsPath isWin p = (normalize (slashes isWin p)).map fun r => uriOf r.2 r.1 := by
  rw [fromFsPath, normalizeWinPath_eq]
  cases hnormal : normalize (slashes isWin p) with
  | error e => rfl
  | ok r =>
    obtain ⟨path, netloc⟩ := r
    obtain ⟨rest, rfl⟩ := (normal_of_normalize hnormal).slash
    exact congrArg Except.ok (urlunparse_uriOf netloc rest)

/-- The decoded path, behind the decoded authority where there are both. -/
def joined (netloc path : List Char) : List Char :=
  if netloc ≠ [] ∧ path ≠ [] then ['/', '/'] ++ netloc ++ path else path

/-- The slash that a drive letter loses comes back. -/
theorem normalize_fsValue (isWin : Bool) (netloc path : List Char) :
    normalize (slashes isWin (fsValue netloc path)) =
      normalize (slashes isWin (joined netloc path)) := by
  unfold fsValue joined
  split
  · rfl
  · split
    · rename_i hdrive
      obtain ⟨letter, rest, rfl, hletter⟩ := (isDrivePath_iff path).mp hdrive
      obtain ⟨halpha, hagain, hslash, hbackslash⟩ := toLower_alpha hletter
      have hne : letter ≠ '/' ∧ letter ≠ '\\' := by
        constructor
        · rintro rfl
          cases hletter
        · rintro rfl
          cases hletter
      dsimp only
      rw [slashes_cons hbackslash, slashes_cons (by decide), slashes_cons (by decide),
        slashes_cons hne.2, slashes_cons (by decide), normalize_of_not, normalize_of_not,
        withSlash_of_ne, withSlash_slash, lowerDrive_drive halpha,
        lowerDrive_drive hletter, hagain]
      · intro h
        exact hslash (Option.some.inj h)
      · rintro ⟨rest', heq⟩
        cases heq
        exact hne.1 rfl
      · rintro ⟨rest', heq⟩
        exact hslash (List.cons.inj heq).1
    · rfl

theorem joined_of_ne {netloc path : List Char} (h : netloc ≠ []) (h' : path ≠ []) :
    joined netloc path = '/' :: '/' :: (netloc ++ path) := if_pos ⟨h, h'⟩

theorem joined_nil (path : List Char) : joined [] path = path := if_neg fun h => h.1 rfl

theorem slashes_joined {isWin : Bool} {path netloc : List Char} (h : Normal isWin path netloc) :
    slashes isWin (joined netloc path) = joined netloc path := by
  apply slashes_of_not_mem
  intro hwin
  unfold joined
  split
  · simp only [List.mem_append, List.mem_cons, List.not_mem_nil, or_false, not_or]
    exact ⟨⟨by decide, h.netloc_plain hwin⟩, h.path_plain hwin⟩
  · exact h.path_plain hwin

/-- A normal form is normalised to itself unless its path is taken for an authority. -/
theorem normalize_joined {isWin : Bool} {path netloc : List Char} (h : Normal isWin path netloc) :
    normalize (joined netloc path) = .ok (path, netloc) ↔ netloc ≠ [] ∨ ¬Doubled path := by
  obtain ⟨rest, rfl⟩ := h.slash
  by_cases hnetloc : netloc = []
  · subst hnetloc
    rw [joined_nil]
    by_cases hdoubled : Doubled ('/' :: rest)
    · refine iff_of_false ?_ (fun hor => hor.elim (fun hne => hne rfl) (fun hnot => hnot hdoubled))
      intro heq
      rcases normalize_cases ('/' :: rest) with ⟨_, -, -, herror⟩ | ⟨netloc', rest', hp, -, hok⟩ |
        ⟨hnot, -⟩
      · rw [herror] at heq
        cases heq
      · -- what is left of the path is shorter than the path
        rw [hok] at heq
        have hpath := congrArg (fun r => r.1.length) (Except.ok.inj heq)
        simp only [length_lowerDrive] at hpath
        rw [hp] at hpath
        simp only [List.length_cons, List.length_append] at hpath
        omega
      · exact hnot hdoubled
    · refine iff_of_true ?_ (.inr hdoubled)
      rw [normalize_of_not hdoubled, withSlash_slash, h.drive]
  · refine iff_of_true ?_ (.inl hnetloc)
    rw [joined_of_ne hnetloc (List.cons_ne_nil _ _), normalize_append h.host, h.drive]

/-- The path comes back out of its URI. -/
def Survives (refuses : List Char → Bool) (isWin : Bool) (path : List Char) : Prop :=
  ∃ uri, fromFsPath isWin path = .ok uri ∧ toFsPath refuses isWin uri = .ok (some path)

/-- One slash in front, and no drive letter behind it. -/
def PlainPath (path : List Char) : Prop :=
  ∃ rest, path = '/' :: rest ∧ rest.head? ≠ some '/' ∧ isDrivePath path = false

def UncPath (path : List Char) : Prop :=
  ∃ host rest, path = '/' :: '/' :: (host ++ '/' :: rest) ∧ host ≠ [] ∧ '/' ∉ host ∧
    isDrivePath ('/' :: rest) = false

def WindowsPath (path : List Char) : Prop :=
  ∃ letter rest, path = letter :: ':' :: '\\' :: rest ∧ letter.isLower = true ∧ '/' ∉ rest

theorem survives_of_normalize (refuses : List Char → Bool) {isWin : Bool}
    {p path netloc : List Char} (h : normalize (slashes isWin p) = .ok (path, netloc))
    (hvalue : backslashes isWin (fsValue netloc path) = p) : Survives refuses isWin p := by
  have hnormal := normal_of_normalize h
  obtain ⟨rest, rfl⟩ := hnormal.slash
  refine ⟨uriOf netloc ('/' :: rest), ?_, ?_⟩
  · rw [fromFsPath_eq, h]
    rfl
  · rw [toFsPath_uriOf refuses isWin hnormal.host, hvalue]

theorem fsValue_of_ne {netloc path : List Char} (h : netloc ≠ []) (h' : path ≠ []) :
    fsValue netloc path = '/' :: '/' :: (netloc ++ path) := if_pos ⟨h, h'⟩

theorem fsValue_of_not {path : List Char} (h : isDrivePath path = false) :
    fsValue [] path = path := by
  unfold fsValue
  rw [if_neg (fun hne => hne.1 rfl), h, if_neg Bool.false_ne_true]

theorem fsValue_drive {letter : Char} (h : letter.isAlpha = true) (rest : List Char) :
    fsValue [] ('/' :: letter :: ':' :: rest) = letter.toLower :: ':' :: rest := by
  have hdrive : isDrivePath ('/' :: letter :: ':' :: rest) = true := h
  unfold fsValue
  rw [if_neg (fun hne => hne.1 rfl), if_pos hdrive]

theorem plainPath_survives (refuses : List Char → Bool) {p : List Char} (h : PlainPath p) :
    Survives refuses false p := by
  obtain ⟨rest, rfl, hrest, hdrive⟩ := h
  have hdoubled : ¬Doubled ('/' :: rest) := by
    rintro ⟨rest', heq⟩
    cases heq
    exact hrest rfl
  have hnormal : normalize (slashes false ('/' :: rest)) = .ok ('/' :: rest, []) := by
    rw [slashes_forward, normalize_of_not hdoubled, withSlash_slash, lowerDrive_of_not hdrive]
  apply survives_of_normalize refuses hnormal
  rw [backslashes_forward, fsValue_of_not hdrive]

theorem uncPath_survives (refuses : List Char → Bool) {p : List Char} (h : UncPath p) :
    Survives refuses false p := by
  obtain ⟨host, rest, rfl, hne, hhost, hdrive⟩ := h
  have hnormal : normalize (slashes false ('/' :: '/' :: (host ++ '/' :: rest))) =
      .ok ('/' :: rest, host) := by
    rw [slashes_forward, normalize_append hhost, lowerDrive_of_not hdrive]
  apply survives_of_normalize refuses hnormal
  rw [backslashes_forward, fsValue_of_ne hne (List.cons_ne_nil _ _)]

theorem windowsPath_survives (refuses : List Char → Bool) {p : List Char} (h : WindowsPath p) :
    Survives refuses true p := by
  obtain ⟨letter, rest, rfl, hletter, hrest⟩ := h
  obtain ⟨halpha, hlower, hslash, hbackslash⟩ := toLower_of_isLower hletter
  have hslashes : slashes true (letter :: ':' :: '\\' :: rest) =
      letter :: ':' :: '/' :: slashes true rest := by
    rw [slashes_cons hbackslash, slashes_cons (by decide)]
    rfl
  have hdoubled : ¬Doubled (letter :: ':' :: '/' :: slashes true rest) := by
    rintro ⟨rest', heq⟩
    cases heq
  have hnormal : normalize (slashes true (letter :: ':' :: '\\' :: rest)) =
      .ok ('/' :: letter :: ':' :: '/' :: slashes true rest, []) := by
    rw [hslashes, normalize_of_not hdoubled, withSlash_of_ne, lowerDrive_drive halpha, hlower]
    intro heq
    exact hslash (Option.some.inj heq)
  apply survives_of_normalize refuses hnormal
  rw [fsValue_drive halpha, hlower, backslashes_cons hslash, backslashes_cons (by decide)]
  refine congrArg (fun path => letter :: ':' :: path) ?_
  -- the slash behind the colon becomes the backslash again
  exact congrArg (List.cons '\\') (backslashes_slashes hrest)

/-- Paths come back with every character they have. -/
theorem path_survives (refuses : List Char → Bool) :
    (∀ p, PlainPath p ∨ UncPath p → Survives refuses false p) ∧
      ∀ p, WindowsPath p → Survives refuses true p := by
  constructor
  · rintro p (h | h)
    · exact plainPath_survives refuses h
    · exact uncPath_survives refuses h
  · intro p h
    exact windowsPath_survives refuses h

/-- Another slash stands behind the two in front. -/
def Bounded (path : List Char) : Prop := ∀ rest, path = '/' :: '/' :: rest → '/' ∈ rest

/-- Another slash stands behind the two in front, and no two stand directly behind them. -/
def Stable (path : List Char) : Prop :=
  ∀ rest, path = '/' :: '/' :: rest → '/' ∈ rest ∧ ¬Doubled rest

/-- The URI has a canonical one, which is its own. -/
def Settles (refuses : List Char → Bool) (isWin : Bool) (uri : List Char) : Prop :=
  ∃ uri', canon refuses isWin uri = .ok (some uri') ∧ canon refuses isWin uri' = .ok (some uri')

theorem normalize_ok_iff (p : List Char) : (∃ r, normalize p = .ok r) ↔ Bounded p := by
  rcases normalize_cases p with ⟨rest, hp, hslash, heq⟩ | ⟨netloc, rest, rfl, -, heq⟩ | ⟨hnot, heq⟩
  · refine iff_of_false ?_ (fun h => hslash (h rest hp))
    rintro ⟨r, hr⟩
    rw [heq] at hr
    cases hr
  · refine iff_of_true ⟨_, heq⟩ ?_
    intro rest' heq'
    cases heq'
    exact List.mem_append_right _ List.mem_cons_self
  · exact iff_of_true ⟨_, heq⟩ (fun rest hrest => absurd ⟨rest, hrest⟩ hnot)

theorem fromFsPath_ok_iff (isWin : Bool) (p : List Char) :
    (∃ uri, fromFsPath isWin p = .ok uri) ↔ Bounded (slashes isWin p) := by
  rw [fromFsPath_eq, ← normalize_ok_iff]
  cases normalize (slashes isWin p) with
  | error e =>
    apply iff_of_false
    · rintro ⟨uri, huri⟩
      cases huri
    · rintro ⟨r, hr⟩
      cases hr
  | ok r => exact iff_of_true ⟨_, rfl⟩ ⟨r, rfl⟩

/-- The canonical URI is that of the normal form of what the parts say. -/
theorem canon_eq {refuses : List Char → Bool} (isWin : Bool) {uri : List Char} {parts : UrlParts}
    (h : urlparse refuses uri = .ok parts) (hscheme : parts.scheme = file) :
    canon refuses isWin uri =
      (normalize (slashes isWin (joined parts.netloc parts.path))).map fun r =>
        some (uriOf r.2 r.1) := by
  have hpath : toFsPath refuses isWin uri =
      .ok (some (backslashes isWin (fsValue parts.netloc parts.path))) := by
    rw [toFsPath, h]
    exact congrArg Except.ok (if_neg fun hne => hne hscheme)
  rw [canon, hpath]
  dsimp only
  rw [fromFsPath_eq, slashes_backslashes, normalize_fsValue]
  cases normalize (slashes isWin (joined parts.netloc parts.path)) <;> rfl

theorem canon_uriOf (refuses : List Char → Bool) {isWin : Bool} {path netloc : List Char}
    (h : Normal isWin path netloc) :
    canon refuses isWin (uriOf netloc path) =
      (normalize (joined netloc path)).map fun r => some (uriOf r.2 r.1) := by
  obtain ⟨rest, rfl⟩ := h.slash
  rw [canon_eq isWin (urlparse_uriOf refuses h.host rest) rfl, slashes_joined h]

theorem canon_uriOf_iff (refuses : List Char → Bool) {isWin : Bool} {path netloc : List Char}
    (h : Normal isWin path netloc) :
    canon refuses isWin (uriOf netloc path) = .ok (some (uriOf netloc path)) ↔
      netloc ≠ [] ∨ ¬Doubled path := by
  rw [canon_uriOf refuses h, ← normalize_joined h]
  constructor
  · intro hcanon
    cases hnormal : normalize (joined netloc path) with
    | error e =>
      rw [hnormal] at hcanon
      cases hcanon
    | ok r =>
      obtain ⟨path', netloc'⟩ := r
      rw [hnormal] at hcanon
      have huri : uriOf netloc' path' = uriOf netloc path :=
        Option.some.inj (Except.ok.inj hcanon)
      rw [← slashes_joined h] at hnormal
      have h' := normal_of_normalize hnormal
      obtain ⟨rest, rfl⟩ := h.slash
      obtain ⟨rest', rfl⟩ := h'.slash
      obtain ⟨rfl, rfl⟩ := uriOf_injective h'.host h.host huri
      rfl
  · intro hnormal
    rw [hnormal]
    rfl

theorem doubled_append {netloc : List Char} (h : '/' ∉ netloc) (rest : List Char) :
    Doubled (netloc ++ '/' :: rest) ↔ netloc = [] ∧ Doubled ('/' :: rest) := by
  cases netloc with
  | nil => simp
  | cons c netloc =>
    refine iff_of_false ?_ (fun hnil => absurd hnil.1 (List.cons_ne_nil c netloc))
    rintro ⟨rest', heq⟩
    have hc : c = '/' := (List.cons.inj heq).1
    rw [hc] at h
    exact h List.mem_cons_self

theorem not_doubled_withSlash {path : List Char} (h : ¬Doubled path) :
    ¬Doubled (withSlash path) := by
  by_cases hhead : path.head? = some '/'
  · rw [withSlash, if_pos hhead]
    exact h
  · rw [withSlash_of_ne hhead]
    rintro ⟨rest, heq⟩
    cases heq
    exact hhead rfl

theorem stable_append {netloc : List Char} (h : '/' ∉ netloc) (rest : List Char) :
    Stable ('/' :: '/' :: (netloc ++ '/' :: rest)) ↔ netloc ≠ [] ∨ ¬Doubled ('/' :: rest) := by
  rw [← not_and_or, ← doubled_append h]
  constructor
  · intro hstable
    exact (hstable _ rfl).2
  · intro hnot rest' heq
    cases heq
    exact ⟨List.mem_append_right _ List.mem_cons_self, hnot⟩

theorem not_stable {p : List Char} {e : UriError} (h : normalize p = .error e) : ¬Stable p := by
  intro hstable
  obtain ⟨r, hr⟩ := (normalize_ok_iff p).mpr fun rest hp => (hstable rest hp).1
  rw [h] at hr
  cases hr

theorem stable_iff {p path netloc : List Char} (h : normalize p = .ok (path, netloc)) :
    Stable p ↔ netloc ≠ [] ∨ ¬Doubled path := by
  rcases normalize_cases p with ⟨rest, -, -, heq⟩ | ⟨netloc', rest, rfl, hslash, heq⟩ | ⟨hnot, heq⟩
  · rw [heq] at h
    cases h
  · rw [heq] at h
    cases h
    rw [doubled_lowerDrive]
    exact stable_append hslash rest
  · rw [heq] at h
    cases h
    rw [doubled_lowerDrive]
    exact iff_of_true (fun rest hrest => absurd ⟨rest, hrest⟩ hnot)
      (.inr (not_doubled_withSlash hnot))

/-- Exactly these paths and URIs have a canonical URI that stays. -/
theorem canonical_iff (refuses : List Char → Bool) (isWin : Bool) :
    (∀ p, (∃ uri, fromFsPath isWin p = .ok uri) ↔ Bounded (slashes isWin p)) ∧
      ∀ uri parts, urlparse refuses uri = .ok parts → parts.scheme = file →
        (Settles refuses isWin uri ↔
          Stable (slashes isWin (joined parts.netloc parts.path))) := by
  refine ⟨fromFsPath_ok_iff isWin, ?_⟩
  intro uri parts hparts hscheme
  have hcanon := canon_eq isWin hparts hscheme
  rcases hnormal : normalize (slashes isWin (joined parts.netloc parts.path)) with
    e | ⟨path, netloc⟩
  · rw [hnormal] at hcanon
    refine iff_of_false ?_ (not_stable hnormal)
    rintro ⟨uri', huri, -⟩
    rw [hcanon] at huri
    cases huri
  · rw [hnormal] at hcanon
    rw [stable_iff hnormal, ← canon_uriOf_iff refuses (normal_of_normalize hnormal)]
    constructor
    · rintro ⟨uri', huri, hsettled⟩
      rw [hcanon] at huri
      cases huri
      exact hsettled
    · intro hsettled
      exact ⟨_, hcanon, hsettled⟩

/-- Of a host alone there is no URI; four slashes have one that has none. -/
theorem host_without_uri :
    fromFsPath false "//host".toList = .error .valueError ∧
      canon (fun _ => false) false "file:////host".toList = .error .valueError ∧
      canon (fun _ => false) false "file://////x".toList = .ok (some "file:////x".toList) ∧
      canon (fun _ => false) false "file:////x".toList = .error .valueError := by
  exact ⟨rfl, rfl, rfl, rfl⟩

end Pygls.Uris
