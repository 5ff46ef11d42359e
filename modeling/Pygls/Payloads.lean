import Pygls.Decoding

/-!
# The data of untyped payloads

What `_dict_to_object` makes of a JSON object, compared with the object path by
path: a name leads to a member of an object or an attribute of a named tuple, an
index to an item of a list.
-/

namespace Pygls.Payloads

open Lib Decoding

set_option autoImplicit false

variable {C : Type}

inductive Step where
  | name (name : Str)
  | index (i : Nat)

def child : Json → Step → Option Json
  | .obj fields, .name name => Dict.lookup name fields
  | .list items, .index i => items[i]?
  | _, _ => none

def valueChild : Value C → Step → Option (Value C)
  | .namedtuple _ attributes, .name name => Dict.lookup name attributes
  | .list items, .index i => items[i]?
  | _, _ => none

def walk {A : Type} (next : A → Step → Option A) : A → List Step → Option A
  | a, [] => some a
  | a, step :: path => (next a step).bind fun b => walk next b path

/-- The same value at a leaf; above, as many items, or attributes of the members' names. -/
def SameNode : Json → Value C → Prop
  | .null, .null => True
  | .bool b, .bool b' => b = b'
  | .int n, .int n' => n = n'
  | .float x, .float x' => x = x'
  | .str s, .str s' => s = s'
  | .list items, .list items' => items.length = items'.length
  | .obj fields, .namedtuple _ attributes => fields.map Prod.fst = attributes.map Prod.fst
  | _, _ => False

/-- The value has along every path what the object has there, and nothing along any other. -/
def Keeps (d : Json) (v : Value C) : Prop :=
  ∀ path, Option.Rel SameNode (walk child d path) (walk valueChild v path)

/-- The names of every object in the tree. -/
def AtObjects (p : List Str → Prop) (d : Json) : Prop :=
  ∀ path fields, walk child d path = some (.obj fields) → p (fields.map Prod.fst)

def AtStrings (p : Str → Prop) (d : Json) : Prop :=
  ∀ path s, walk child d path = some (.str s) → p s

def underscore : CodePoint := Fin.ofNat 0x110000 0x5F

/-- Distinct identifiers that are no keywords and do not start with an underscore. -/
def Identifiers (py : Python C) (names : List Str) : Prop :=
  names.Nodup ∧ ∀ name ∈ names, py.isName name = true ∧ name.head? ≠ some underscore

def DistinctForms (py : Python C) (names : List Str) : Prop := (names.map py.normalize).Nodup

instance (py : Python C) (names : List Str) : Decidable (Identifiers py names) :=
  inferInstanceAs (Decidable (_ ∧ _))

instance (py : Python C) (names : List Str) : Decidable (DistinctForms py names) :=
  inferInstanceAs (Decidable (List.Nodup _))

def IsPair (c c' : CodePoint) : Prop :=
  0xD800 ≤ c.val ∧ c.val < 0xDC00 ∧ 0xDC00 ≤ c'.val ∧ c'.val < 0xE000

/-- No high surrogate stands before a low one: `json.loads` makes no other strings. -/
def Joined (s : Str) : Prop := s.IsChain fun c c' => ¬IsPair c c'

/-- What Python says of the parameters of the model: a string is its own `str()`, and a
surrogate is no part of an identifier. -/
structure Documented (py : Python C) : Prop where
  str_str : ∀ s, py.str (.str s) = s
  isName_object : py.isName (lit ['O', 'b', 'j', 'e', 'c', 't']) = true
  no_surrogate : ∀ name, py.isName name = true →
    ∀ c ∈ name, ¬(0xD800 ≤ c.val ∧ c.val < 0xE000)

theorem length_joinSurrogates (s : Str) : (joinSurrogates s).length ≤ s.length := by
  fun_induction joinSurrogates s with
  | case1 => exact Nat.le_refl _
  | case2 => exact Nat.le_refl _
  | case3 c c' s _ ih =>
    simp only [List.length_cons]
    omega
  | case4 c c' s _ ih =>
    simp only [List.length_cons] at ih ⊢
    omega

theorem joinSurrogates_eq_self_iff (s : Str) : joinSurrogates s = s ↔ Joined s := by
  fun_induction joinSurrogates s with
  | case1 => exact iff_of_true rfl .nil
  | case2 c => exact iff_of_true rfl (.singleton c)
  | case3 c c' s hpair ih =>
    refine iff_of_false ?_ ?_
    · intro h
      have hshort := length_joinSurrogates s
      have hlen := congrArg List.length h
      simp only [List.length_cons] at hlen
      omega
    · intro h
      exact (List.isChain_cons_cons.mp h).1 hpair
  | case4 c c' s hpair ih =>
    rw [List.cons_inj_right, ih, Joined, Joined, List.isChain_cons_cons]
    exact ⟨fun h => ⟨hpair, h⟩, And.right⟩

theorem joinSurrogates_of_isName {py : Python C} (hpy : Documented py) {name : Str}
    (h : py.isName name = true) : joinSurrogates name = name := by
  rw [joinSurrogates_eq_self_iff, Joined, List.isChain_iff_getElem]
  rintro i hi ⟨hhigh, hlt, -, -⟩
  exact hpy.no_surrogate name h _ (List.getElem_mem _) ⟨hhigh, by omega⟩

theorem fieldNames_of_identifiers {py : Python C} {names : List Str}
    (h : ∀ name ∈ names, py.isName name = true ∧ name.head? ≠ some underscore) :
    py.fieldNames names = names := by
  refine List.ext_getElem? fun i => ?_
  rw [Python.fieldNames, List.getElem?_mapIdx]
  cases hname : names[i]? with
  | none => rfl
  | some name =>
    obtain ⟨hisName, hhead⟩ := h name (List.mem_of_getElem? hname)
    have hkept : (py.isName name && name.head? ≠ some (Fin.ofNat 0x110000 0x5F)) = true := by
      rw [hisName, Bool.true_and, decide_eq_true_eq]
      exact hhead
    rw [Option.map_some, if_pos hkept]

theorem dictOf_of_nodup {pairs : Entries C} (h : (pairs.map Prod.fst).Nodup) :
    dictOf pairs = pairs := Dict.foldl_insert_of_nodup [] pairs h

/-- What a step keeps holds of whatever a path leads to. -/
theorem walk_keeps {A : Type} {next : A → Step → Option A} {P : A → Prop}
    (hstep : ∀ a b step, P a → next a step = some b → P b) {a b : A} {path : List Step}
    (ha : P a) (h : walk next a path = some b) : P b := by
  induction path generalizing a with
  | nil =>
    cases h
    exact ha
  | cons step path ih =>
    rw [walk] at h
    obtain ⟨c, hc, h⟩ := Option.bind_eq_some_iff.mp h
    exact ih (hstep a c step ha hc) h

theorem AtObjects.names {p : List Str → Prop} {fields : List (Str × Json)}
    (h : AtObjects p (.obj fields)) : p (fields.map Prod.fst) := h [] fields rfl

theorem AtObjects.child {p : List Str → Prop} {d d' : Json} (h : AtObjects p d) (step : Step)
    (hchild : child d step = some d') : AtObjects p d' := by
  intro path fields hpath
  refine h (step :: path) fields ?_
  rw [walk, hchild, Option.bind_some, hpath]

theorem AtObjects.item {p : List Str → Prop} {items : List Json} (h : AtObjects p (.list items))
    {d : Json} (hd : d ∈ items) : AtObjects p d := by
  obtain ⟨i, hi⟩ := List.mem_iff_getElem?.mp hd
  exact h.child (.index i) hi

theorem AtObjects.member {p : List Str → Prop} {fields : List (Str × Json)}
    (h : AtObjects p (.obj fields)) (hnodup : (fields.map Prod.fst).Nodup) {field : Str × Json}
    (hfield : field ∈ fields) : AtObjects p field.2 :=
  h.child (.name field.1) (Dict.lookup_of_mem hnodup hfield)

mutual

/-- The tree that the object hook builds of a text. -/
def image (typeName : Str) : Json → Value C
  | .null => .null
  | .bool b => .bool b
  | .int n => .int n
  | .float x => .float x
  | .str s => .str (joinSurrogates s)
  | .list items => .list (imageItems typeName items)
  | .obj fields => .namedtuple typeName (imageFields typeName fields)

def imageItems (typeName : Str) : List Json → List (Value C)
  | [] => []
  | j :: js => image typeName j :: imageItems typeName js

def imageFields (typeName : Str) : List (Str × Json) → Entries C
  | [] => []
  | (name, j) :: fields => (name, image typeName j) :: imageFields typeName fields

end

theorem imageItems_eq_map (typeName : Str) (items : List Json) :
    (imageItems typeName items : List (Value C)) = items.map (image typeName) := by
  induction items with
  | nil => rfl
  | cons j js ih => rw [imageItems, ih, List.map_cons]

theorem imageFields_eq_map (typeName : Str) (fields : List (Str × Json)) :
    (imageFields typeName fields : Entries C) =
      fields.map fun field => (field.1, image typeName field.2) := by
  induction fields with
  | nil => rfl
  | cons field fields ih => rw [imageFields, ih, List.map_cons]

theorem plainItems_eq_map (items : List Json) :
    (plainItems items : List (Value C)) = items.map plain := by
  induction items with
  | nil => rfl
  | cons j js ih => rw [plainItems, ih, List.map_cons]

theorem plainFields_eq_map (fields : List (Str × Json)) :
    (plainFields fields : Entries C) = fields.map fun field => (field.1, plain field.2) := by
  induction fields with
  | nil => rfl
  | cons field fields ih => rw [plainFields, ih, List.map_cons]

theorem valueChild_image (typeName : Str) (d : Json) (step : Step) :
    valueChild (image typeName d : Value C) step = (child d step).map (image typeName) := by
  cases d with
  | list items =>
    cases step with
    | name name => rfl
    | index i =>
      rw [image, imageItems_eq_map]
      exact List.getElem?_map
  | obj fields =>
    cases step with
    | name name =>
      rw [image, imageFields_eq_map]
      exact Dict.lookup_map _ _ _
    | index i => rfl
  | _ => rfl

theorem walk_image (typeName : Str) (d : Json) (path : List Step) :
    walk valueChild (image typeName d : Value C) path =
      (walk child d path).map (image typeName) := by
  induction path generalizing d with
  | nil => rfl
  | cons step path ih =>
    rw [walk, walk, valueChild_image]
    cases child d step with
    | none => rfl
    | some d' => exact ih d'

theorem sameNode_image_iff (typeName : Str) (d : Json) :
    SameNode d (image typeName d : Value C) ↔ ∀ s, d = .str s → Joined s := by
  cases d with
  | str s =>
    rw [image, SameNode, eq_comm, joinSurrogates_eq_self_iff]
    constructor
    · rintro h _ ⟨⟩
      exact h
    · intro h
      exact h s rfl
  | list items =>
    refine iff_of_true ?_ nofun
    rw [image, imageItems_eq_map, SameNode, List.length_map]
  | obj fields =>
    refine iff_of_true ?_ nofun
    rw [image, imageFields_eq_map, SameNode, Dict.keys_map]
  | null => exact iff_of_true trivial nofun
  | bool b => exact iff_of_true rfl nofun
  | int n => exact iff_of_true rfl nofun
  | float x => exact iff_of_true rfl nofun

theorem keeps_image_iff (typeName : Str) (d : Json) :
    Keeps d (image typeName d : Value C) ↔ AtStrings Joined d := by
  constructor
  · intro h path s hpath
    have hrel := h path
    rw [walk_image, hpath] at hrel
    cases hrel with
    | some hsame => exact (sameNode_image_iff typeName _).mp hsame s rfl
  · intro h path
    rw [walk_image]
    cases hpath : walk child d path with
    | none => exact .none
    | some d' =>
      refine .some ((sameNode_image_iff typeName d').mpr ?_)
      rintro s rfl
      exact h path s hpath

section Reload

variable {py : Python C} {typeName : Str}

theorem namedtuple_of_identifiers {p : Entries C} (hnames : Identifiers py (p.map Prod.fst)) :
    py.namedtuple typeName p =
      if py.isName typeName = true ∧ DistinctForms py (p.map Prod.fst) then
        some (.namedtuple typeName p)
      else none := by
  have hzip : (p.map Prod.fst).zip (p.map Prod.snd) = p := by
    rw [List.zip_map', List.map_id']
  rw [Python.namedtuple, fieldNames_of_identifiers hnames.2, hzip]
  rfl

/-- Identifiers come out of `json.dumps` and back as they are. -/
theorem reloadEntries_names (hpy : Documented py) {es p : Entries C}
    (hnames : ∀ name ∈ es.map Prod.fst, py.isName name = true)
    (h : py.reloadEntries typeName es = some p) : p.map Prod.fst = es.map Prod.fst := by
  induction es generalizing p with
  | nil =>
    cases h
    rfl
  | cons e es ih =>
    obtain ⟨name, v⟩ := e
    rw [List.map_cons, List.forall_mem_cons] at hnames
    rw [Python.reloadEntries] at h
    obtain ⟨w, -, h⟩ := Option.bind_eq_some_iff.mp h
    obtain ⟨p', hp', rfl⟩ := Option.map_eq_some_iff.mp h
    rw [List.map_cons, List.map_cons, ih hnames.2 hp', joinSurrogates_of_isName hpy hnames.1]

theorem reload_dict (hpy : Documented py) {es : Entries C}
    (hnames : Identifiers py (es.map Prod.fst)) {v : Value C}
    (h : py.reload typeName (.dict es) = some v) :
    ∃ p, py.reloadEntries typeName es = some p ∧ p.map Prod.fst = es.map Prod.fst ∧
      v = .namedtuple typeName p ∧ DistinctForms py (es.map Prod.fst) := by
  rw [Python.reload] at h
  obtain ⟨p, hp, h⟩ := Option.bind_eq_some_iff.mp h
  have hsame := reloadEntries_names hpy (fun name hname => (hnames.2 name hname).1) hp
  rw [← hsame] at hnames ⊢
  rw [dictOf_of_nodup hnames.1] at h
  rw [namedtuple_of_identifiers hnames] at h
  split at h
  · rename_i hboth
    cases h
    exact ⟨p, hp, rfl, rfl, hboth.2⟩
  · cases h

theorem plain_obj {fields : List (Str × Json)} (h : (fields.map Prod.fst).Nodup) :
    (plain (.obj fields) : Value C) = .dict (plainFields fields) := by
  rw [plain, dictOf_of_nodup]
  rw [plainFields_names]
  exact h

mutual

theorem reload_image (hpy : Documented py) (htype : py.isName typeName = true) :
    ∀ d : Json, AtObjects (Identifiers py) d → AtObjects (DistinctForms py) d →
      py.reload typeName (plain d) = some (image typeName d)
  | .null, _, _ => rfl
  | .bool _, _, _ => rfl
  | .int _, _, _ => rfl
  | .float _, _, _ => rfl
  | .str _, _, _ => rfl
  | .list items, hnames, hforms => by
    have hitems := reloadItems_image hpy htype items (fun _ hd => hnames.item hd)
      (fun _ hd => hforms.item hd)
    rw [plain, Python.reload, hitems, image]
    rfl
  | .obj fields, hnames, hforms => by
    have hid := hnames.names
    have hfields := reloadEntries_image hpy htype fields hid.2
      (fun _ hfield => hnames.member hid.1 hfield) (fun _ hfield => hforms.member hid.1 hfield)
    have hsame : (imageFields typeName fields : Entries C).map Prod.fst = fields.map Prod.fst := by
      rw [imageFields_eq_map, Dict.keys_map]
    rw [← hsame] at hid
    rw [plain_obj hnames.names.1, Python.reload, hfields, Option.bind_some,
      dictOf_of_nodup hid.1, namedtuple_of_identifiers hid, image]
    refine if_pos ⟨htype, ?_⟩
    rw [hsame]
    exact hforms.names

theorem reloadItems_image (hpy : Documented py) (htype : py.isName typeName = true) :
    ∀ js : List Json, (∀ d ∈ js, AtObjects (Identifiers py) d) →
      (∀ d ∈ js, AtObjects (DistinctForms py) d) →
        py.reloadItems typeName (plainItems js) = some (imageItems typeName js)
  | [], _, _ => rfl
  | j :: js, hnames, hforms => by
    rw [List.forall_mem_cons] at hnames hforms
    rw [plainItems, Python.reloadItems, reload_image hpy htype j hnames.1 hforms.1,
      Option.bind_some, reloadItems_image hpy htype js hnames.2 hforms.2, imageItems]
    rfl

theorem reloadEntries_image (hpy : Documented py) (htype : py.isName typeName = true) :
    ∀ fields : List (Str × Json),
      (∀ name ∈ fields.map Prod.fst, py.isName name = true ∧ name.head? ≠ some underscore) →
      (∀ field ∈ fields, AtObjects (Identifiers py) field.2) →
      (∀ field ∈ fields, AtObjects (DistinctForms py) field.2) →
        py.reloadEntries typeName (plainFields fields) = some (imageFields typeName fields)
  | [], _, _, _ => rfl
  | (name, j) :: fields, hid, hnames, hforms => by
    rw [List.map_cons, List.forall_mem_cons] at hid
    rw [List.forall_mem_cons] at hnames hforms
    rw [plainFields, Python.reloadEntries, reload_image hpy htype j hnames.1 hforms.1,
      Option.bind_some, reloadEntries_image hpy htype fields hid.2 hnames.2 hforms.2,
      imageFields, joinSurrogates_of_isName hpy hid.1.1]
    rfl

end

theorem reloadItems_mem {vs ws : List (Value C)} (h : py.reloadItems typeName vs = some ws) :
    ∀ v ∈ vs, (py.reload typeName v).isSome = true := by
  induction vs generalizing ws with
  | nil => exact nofun
  | cons v vs ih =>
    rw [Python.reloadItems] at h
    obtain ⟨w, hw, h⟩ := Option.bind_eq_some_iff.mp h
    obtain ⟨ws', hws, -⟩ := Option.map_eq_some_iff.mp h
    rw [List.forall_mem_cons]
    exact ⟨Option.isSome_of_eq_some hw, ih hws⟩

theorem reloadEntries_mem {es p : Entries C} (h : py.reloadEntries typeName es = some p) :
    ∀ e ∈ es, (py.reload typeName e.2).isSome = true := by
  induction es generalizing p with
  | nil => exact nofun
  | cons e es ih =>
    rw [Python.reloadEntries] at h
    obtain ⟨w, hw, h⟩ := Option.bind_eq_some_iff.mp h
    obtain ⟨p', hp', -⟩ := Option.map_eq_some_iff.mp h
    rw [List.forall_mem_cons]
    exact ⟨Option.isSome_of_eq_some hw, ih hp'⟩

/-- Where a tree can be reloaded, so can what lies in it. -/
theorem reload_child (hpy : Documented py) {d d' : Json} {step : Step}
    (hnames : AtObjects (Identifiers py) d) (h : (py.reload typeName (plain d)).isSome = true)
    (hchild : child d step = some d') : (py.reload typeName (plain d')).isSome = true := by
  obtain ⟨v, hv⟩ := Option.isSome_iff_exists.mp h
  cases d with
  | list items =>
    cases step with
    | name name => cases hchild
    | index i =>
      rw [plain, Python.reload, plainItems_eq_map] at hv
      obtain ⟨ws, hws, -⟩ := Option.map_eq_some_iff.mp hv
      exact reloadItems_mem hws _ (List.mem_map_of_mem (List.mem_of_getElem? hchild))
  | obj fields =>
    cases step with
    | name name =>
      have hid := hnames.names
      rw [plain_obj hid.1] at hv
      rw [← plainFields_names (C := C)] at hid
      obtain ⟨p, hp, -⟩ := reload_dict hpy hid hv
      rw [plainFields_eq_map] at hp
      exact reloadEntries_mem hp _ (List.mem_map_of_mem (Dict.mem_of_lookup hchild))
    | index i => cases hchild
  | _ => cases hchild

theorem distinctForms_of_reload (hpy : Documented py) {d : Json}
    (hnames : AtObjects (Identifiers py) d) (h : (py.reload typeName (plain d)).isSome = true) :
    AtObjects (DistinctForms py) d := by
  intro path fields hpath
  induction path generalizing d with
  | nil =>
    cases hpath
    obtain ⟨v, hv⟩ := Option.isSome_iff_exists.mp h
    have hid := hnames.names
    rw [plain_obj hid.1] at hv
    rw [← plainFields_names (C := C)] at hid ⊢
    obtain ⟨p, -, -, -, hforms⟩ := reload_dict hpy hid hv
    exact hforms
  | cons step path ih =>
    rw [walk] at hpath
    obtain ⟨d', hchild, hpath⟩ := Option.bind_eq_some_iff.mp hpath
    exact ih (hnames.child step hchild) (reload_child hpy hnames h hchild) hpath

end Reload

variable {py : Python C}

theorem Identifiers.sublist {names names' : List Str} (h : Identifiers py names)
    (hsub : names'.Sublist names) : Identifiers py names' :=
  ⟨hsub.nodup h.1, fun name hname => h.2 name (hsub.subset hname)⟩

/-- A member `type_name` is taken out of the outermost object, and is not among the attributes. -/
theorem attributes_dictToObject (hpy : Documented py) {fields : List (Str × Json)}
    (hnames : Identifiers py (fields.map Prod.fst)) {v : Value C}
    (h : py.dictToObject (plain (.obj fields)) = some v) :
    ∃ typeName p, v = .namedtuple typeName p ∧ typeNameKey ∉ p.map Prod.fst := by
  rw [plain_obj hnames.1] at h
  rw [← plainFields_names (C := C)] at hnames
  have hremoved := hnames.sublist ((Dict.remove_sublist typeNameKey _).map Prod.fst)
  obtain ⟨p, -, hp, hv, -⟩ := reload_dict hpy hremoved h
  refine ⟨_, p, hv, ?_⟩
  rw [hp, ← Dict.lookup_eq_none_iff, Dict.lookup_remove _ _ hnames.1, if_pos rfl]

theorem dictToObject_of_not_mem (hpy : Documented py) {fields : List (Str × Json)}
    (hnodup : (fields.map Prod.fst).Nodup) (hkey : typeNameKey ∉ fields.map Prod.fst) :
    py.dictToObject (plain (.obj fields)) =
      py.reload (lit ['O', 'b', 'j', 'e', 'c', 't']) (plain (.obj fields)) := by
  have hnone : Dict.lookup typeNameKey (plainFields fields : Entries C) = none := by
    rw [Dict.lookup_eq_none_iff, plainFields_names]
    exact hkey
  rw [plain_obj hnodup, Python.dictToObject, hnone, Dict.remove_of_lookup_none hnone,
    Option.getD_none, hpy.str_str]

/-- `_dict_to_object` succeeds and keeps all of an object just if no member of it is called
`type_name`, the names of each object in it stay distinct in their normal form, and no string in
it is one that `json.loads` would join. -/
theorem payload_keeps_iff (hpy : Documented py) (fields : List (Str × Json))
    (hnames : AtObjects (Identifiers py) (.obj fields)) :
    (∃ v, py.dictToObject (plain (.obj fields)) = some v ∧ Keeps (.obj fields) v) ↔
      typeNameKey ∉ fields.map Prod.fst ∧ AtObjects (DistinctForms py) (.obj fields) ∧
        AtStrings Joined (.obj fields) := by
  have hid := hnames.names
  constructor
  · rintro ⟨v, hv, hkeeps⟩
    have hkey : typeNameKey ∉ fields.map Prod.fst := by
      obtain ⟨typeName, p, rfl, hp⟩ := attributes_dictToObject hpy hid hv
      have hroot := hkeeps []
      cases hroot with
      | some hsame =>
        rw [SameNode] at hsame
        rw [hsame]
        exact hp
    rw [dictToObject_of_not_mem hpy hid.1 hkey] at hv
    have hforms := distinctForms_of_reload hpy hnames (Option.isSome_of_eq_some hv)
    rw [reload_image hpy hpy.isName_object _ hnames hforms] at hv
    cases hv
    exact ⟨hkey, hforms, (keeps_image_iff _ _).mp hkeeps⟩
  · rintro ⟨hkey, hforms, hstrings⟩
    refine ⟨image (lit ['O', 'b', 'j', 'e', 'c', 't']) (.obj fields), ?_,
      (keeps_image_iff _ _).mpr hstrings⟩
    rw [dictToObject_of_not_mem hpy hid.1 hkey]
    exact reload_image hpy hpy.isName_object _ hnames hforms

/-- Python's `str` and names, on ASCII letters and underscores. -/
def samplePython : Python Unit where
  str := fun v => match v with
    | .str s => s
    | _ => []
  isName := fun s =>
    s ≠ [] && s.all fun c =>
      (65 ≤ c.val && c.val ≤ 90) || c.val = 0x5F || (97 ≤ c.val && c.val ≤ 122)
  normalize := id

theorem samplePython_documented : Documented samplePython where
  str_str := fun _ => rfl
  isName_object := by decide
  no_surrogate := by
    intro name h c hc
    have hall := (Bool.and_eq_true_iff.mp h).2
    have hletter := List.all_eq_true.mp hall c hc
    simp only [Bool.or_eq_true, Bool.and_eq_true, decide_eq_true_eq] at hletter
    omega

theorem child_singleton {name : Str} {d d' : Json} {step : Step}
    (h : child (.obj [(name, d)]) step = some d') : d' = d := by
  cases step with
  | name name' =>
    rw [child, Dict.lookup] at h
    split at h
    · cases h
      rfl
    · cases h
  | index i => cases h

def sampleInner : Json := .obj [([0x62], .str [0x63])]

def sampleFields : List (Str × Json) := [([0x61], sampleInner)]

theorem sample_nodes {path : List Step} {d : Json}
    (h : walk child (.obj sampleFields) path = some d) :
    d = .obj sampleFields ∨ d = sampleInner ∨ d = .str [0x63] := by
  refine walk_keeps (P := fun d => d = .obj sampleFields ∨ d = sampleInner ∨ d = .str [0x63])
    ?_ (.inl rfl) h
  rintro d d' step (rfl | rfl | rfl) hchild
  · exact .inr (.inl (child_singleton hchild))
  · exact .inr (.inr (child_singleton hchild))
  · cases hchild

theorem payload_keeps_iff_nested :
    ∃ v, samplePython.dictToObject (plain (.obj sampleFields)) = some v ∧
      Keeps (.obj sampleFields) v := by
  refine (payload_keeps_iff samplePython_documented sampleFields ?_).mpr ⟨by decide, ?_, ?_⟩
  · intro path fields hpath
    rcases sample_nodes hpath with h | h | h <;> cases h <;> decide
  · intro path fields hpath
    rcases sample_nodes hpath with h | h | h <;> cases h <;> decide
  · intro path s hpath
    rcases sample_nodes hpath with h | h | h <;> cases h
    exact .singleton _

/-- A payload with a member `type_name`: it names the tuple, and is not one of its attributes. -/
theorem type_name_is_lost :
    let fields : List (Str × Json) := [(typeNameKey, .str [0x58])]
    AtObjects (Identifiers samplePython) (.obj fields) ∧
    samplePython.dictToObject (plain (.obj fields)) = some (.namedtuple [0x58] []) ∧
    ¬∃ v, samplePython.dictToObject (plain (.obj fields)) = some v ∧ Keeps (.obj fields) v := by
  intro fields
  have hobject : samplePython.dictToObject (plain (.obj fields)) =
      some (.namedtuple [0x58] []) := rfl
  refine ⟨?_, hobject, ?_⟩
  · intro path fields' hpath
    have hnode := walk_keeps (P := fun d => d = .obj fields ∨ d = .str [0x58])
      (by
        rintro d d' step (rfl | rfl) hchild
        · exact .inr (child_singleton hchild)
        · cases hchild)
      (.inl rfl) hpath
    rcases hnode with h | h <;> cases h
    decide
  · rintro ⟨v, hv, hkeeps⟩
    rw [hobject] at hv
    cases hv
    have hroot := hkeeps []
    cases hroot with
    | some hsame => cases hsame

end Pygls.Payloads
