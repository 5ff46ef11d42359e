import Pygls.Lib.Latest
import Pygls.Updates

/-!
# Changes of the workspace folders

`lsp_workspace__did_change_workspace_folders` pairs the additions of an event
with its removals by their index. A URI that is in both lists is kept or lost
by the places it has in them.
-/

namespace Pygls.Folders

open Lib Workspace WorkspaceMessage

set_option autoImplicit false

abbrev uris (folders : List WorkspaceFolder) : List Uri := folders.map WorkspaceFolder.uri

def entries (folders : List WorkspaceFolder) : List (Uri × WorkspaceFolder) :=
  folders.map fun folder => (folder.uri, folder)

/-- The old folders without the removed ones, plus the added ones. -/
def Replaced (ws ws' : Workspace) (added removed : List WorkspaceFolder) : Prop :=
  ∀ uri, ws'.folders.get? uri =
    (latest uri (entries added)).or
      (if uri ∈ uris removed then none else ws.folders.get? uri)

/-- Every removal of a URI comes before an addition of it. -/
def Readded (uri : Uri) (added removed : List WorkspaceFolder) : Prop :=
  ∀ j folder, removed[j]? = some folder → folder.uri = uri → uri ∈ uris (added.drop (j + 1))

theorem map_fst_entries (folders : List WorkspaceFolder) :
    (entries folders).map Prod.fst = uris folders := by
  rw [entries, List.map_map]
  rfl

theorem readded_nil (uri : Uri) (added : List WorkspaceFolder) : Readded uri added [] := by
  intro j folder hj
  cases hj

theorem readded_nil_cons (uri : Uri) (remove : WorkspaceFolder) (removed : List WorkspaceFolder) :
    Readded uri [] (remove :: removed) ↔ remove.uri ≠ uri ∧ Readded uri [] removed := by
  constructor
  · intro h
    exact ⟨fun huri => List.not_mem_nil (h 0 remove rfl huri), fun j => h (j + 1)⟩
  · rintro ⟨hne, h⟩ j folder hj huri
    cases j with
    | zero =>
      cases hj
      exact absurd huri hne
    | succ j => exact h j folder hj huri

theorem readded_cons (uri : Uri) (add remove : WorkspaceFolder)
    (added removed : List WorkspaceFolder) :
    Readded uri (add :: added) (remove :: removed) ↔
      (remove.uri = uri → uri ∈ uris added) ∧ Readded uri added removed := by
  constructor
  · intro h
    exact ⟨fun huri => h 0 remove rfl huri, fun j => h (j + 1)⟩
  · rintro ⟨hfirst, h⟩ j folder hj huri
    cases j with
    | zero =>
      cases hj
      exact hfirst huri
    | succ j => exact h j folder hj huri

theorem latest_entries_cons (uri : Uri) (ws : Workspace) (add : WorkspaceFolder)
    (added : List WorkspaceFolder) :
    (latest uri (entries added)).or ((ws.addFolder add).folders.get? uri) =
      (latest uri (entries (add :: added))).or (ws.folders.get? uri) := by
  rw [addFolder, Dict.get?_set]
  change _ = ((latest uri (entries added)).or (if add.uri = uri then some add else none)).or _
  rw [Option.or_assoc]
  by_cases h : uri = add.uri
  · rw [if_pos h, if_pos h.symm]
    rfl
  · rw [if_neg h, if_neg (Ne.symm h)]
    rfl

theorem latest_entries_ne_none {uri : Uri} {added : List WorkspaceFolder} :
    latest uri (entries added) ≠ none ↔ uri ∈ uris added := by
  rw [Ne, latest_eq_none_iff, map_fst_entries, not_not]

/-- What the loop leaves under a URI. -/
theorem get?_changeFolders (uri : Uri) (ws : Workspace) (added removed : List WorkspaceFolder) :
    (Readded uri added removed → (changeFolders ws added removed).folders.get? uri =
      (latest uri (entries added)).or (ws.folders.get? uri)) ∧
    (¬ Readded uri added removed → (changeFolders ws added removed).folders.get? uri = none) := by
  induction ws, added, removed using changeFolders.induct with
  | case1 ws =>
    rw [changeFolders]
    exact ⟨fun _ => rfl, fun h => absurd (readded_nil uri []) h⟩
  | case2 ws add added ih =>
    rw [changeFolders]
    refine ⟨fun _ => ?_, fun h => absurd (readded_nil uri _) h⟩
    rw [ih.1 (readded_nil uri added), latest_entries_cons]
  | case3 ws remove removed ih =>
    rw [changeFolders, readded_nil_cons]
    constructor
    · rintro ⟨hne, h⟩
      rw [ih.1 h, removeFolder, Dict.get?_pop_ne _ (Ne.symm hne)]
    · intro h
      by_cases hrest : Readded uri [] removed
      · have huri : remove.uri = uri := by
          by_contra hne
          exact h ⟨hne, hrest⟩
        rw [ih.1 hrest, removeFolder, huri, Dict.get?_pop_self]
        rfl
      · exact ih.2 hrest
  | case4 ws add added remove removed ih =>
    rw [changeFolders, readded_cons]
    constructor
    · rintro ⟨hfirst, h⟩
      rw [ih.1 h, ← latest_entries_cons]
      by_cases huri : remove.uri = uri
      · obtain ⟨folder, hfolder⟩ :=
          Option.ne_none_iff_exists'.mp (latest_entries_ne_none.mpr (hfirst huri))
        rw [hfolder, Option.some_or, Option.some_or]
      · rw [removeFolder, Dict.get?_pop_ne _ (Ne.symm huri)]
    · intro h
      by_cases hrest : Readded uri added removed
      · have hfirst : ¬ (remove.uri = uri → uri ∈ uris added) := fun hfirst => h ⟨hfirst, hrest⟩
        obtain ⟨huri, hnot⟩ := Classical.not_imp.mp hfirst
        have hnone : latest uri (entries added) = none := by
          by_contra hne
          exact hnot (latest_entries_ne_none.mp hne)
        rw [ih.1 hrest, hnone, removeFolder, huri, Dict.get?_pop_self]
        rfl
      · exact ih.2 hrest

theorem changeFolders_frame (ws : Workspace) (added removed : List WorkspaceFolder) :
    changeFolders ws added removed =
      { ws with folders := (changeFolders ws added removed).folders } := by
  induction ws, added, removed using changeFolders.induct with
  | case1 ws =>
    rw [changeFolders]
  | case2 ws add added ih =>
    rw [changeFolders, ih]
    rfl
  | case3 ws remove removed ih =>
    rw [changeFolders, ih]
    rfl
  | case4 ws add added remove removed ih =>
    rw [changeFolders, ih]
    rfl

theorem readded_of_not_mem {uri : Uri} {removed : List WorkspaceFolder}
    (h : uri ∉ uris removed) (added : List WorkspaceFolder) : Readded uri added removed := by
  intro j folder hj huri
  refine absurd ?_ h
  exact huri ▸ List.mem_map_of_mem (List.mem_of_getElem? hj)

theorem not_readded {uri : Uri} {added removed : List WorkspaceFolder}
    (h : uri ∈ uris removed) (hadded : uri ∉ uris added) : ¬ Readded uri added removed := by
  intro hre
  obtain ⟨folder, hmem, huri⟩ := List.mem_map.mp h
  obtain ⟨j, hj⟩ := List.mem_iff_getElem?.mp hmem
  have hlater := hre j folder hj huri
  rw [uris, List.map_drop] at hlater
  exact hadded (List.mem_of_mem_drop hlater)

/-- A URI in one list only goes where the list says. -/
theorem get?_changeFolders_of_once {uri : Uri} (ws : Workspace)
    {added removed : List WorkspaceFolder} (h : uri ∈ uris added → uri ∉ uris removed) :
    (changeFolders ws added removed).folders.get? uri = (latest uri (entries added)).or
      (if uri ∈ uris removed then none else ws.folders.get? uri) := by
  by_cases hmem : uri ∈ uris removed
  · have hadded : uri ∉ uris added := fun hin => h hin hmem
    have hnone : latest uri (entries added) = none := by
      rw [latest_eq_none_iff, map_fst_entries]
      exact hadded
    rw [(get?_changeFolders uri ws added removed).2 (not_readded hmem hadded), hnone,
      if_pos hmem]
    rfl
  · rw [(get?_changeFolders uri ws added removed).1 (readded_of_not_mem hmem added),
      if_neg hmem]

/-- The event replaces folders just if every URI in both lists is added behind its last
removal. -/
theorem replaced_iff (ws : Workspace) (added removed : List WorkspaceFolder) :
    Replaced ws (changeFolders ws added removed) added removed ↔
      ∀ uri ∈ uris added, Readded uri added removed := by
  constructor
  · intro h uri hmem
    by_contra hnot
    have hnone := h uri
    obtain ⟨folder, hfolder⟩ :=
      Option.ne_none_iff_exists'.mp (latest_entries_ne_none.mpr hmem)
    rw [(get?_changeFolders uri ws added removed).2 hnot, hfolder] at hnone
    cases hnone
  · intro h uri
    by_cases hmem : uri ∈ uris added
    · obtain ⟨folder, hfolder⟩ :=
        Option.ne_none_iff_exists'.mp (latest_entries_ne_none.mpr hmem)
      rw [(get?_changeFolders uri ws added removed).1 (h uri hmem), hfolder, Option.some_or,
        Option.some_or]
    · exact get?_changeFolders_of_once ws fun hin => absurd hin hmem

/-- No order of the lists gives another result. -/
def OrderFree (ws : Workspace) (added removed : List WorkspaceFolder) : Prop :=
  ∀ added' removed' : List WorkspaceFolder, added'.Perm added → removed'.Perm removed →
    ∀ uri, (changeFolders ws added' removed').folders.get? uri =
      (changeFolders ws added removed).folders.get? uri

theorem orderFree_of_disjoint (ws : Workspace) {added removed : List WorkspaceFolder}
    (hnodup : (uris added).Nodup) (h : ∀ uri ∈ uris added, uri ∉ uris removed) :
    OrderFree ws added removed := by
  intro added' removed' hadded hremoved uri
  have hmem : uri ∈ uris removed' ↔ uri ∈ uris removed := (hremoved.map _).mem_iff
  have honce : uri ∈ uris added' → uri ∉ uris removed' := by
    intro hin hin'
    exact h uri ((hadded.map _).mem_iff.mp hin) (hmem.mp hin')
  have hlatest : latest uri (entries added') = latest uri (entries added) := by
    have hkeys : ((entries added).map Prod.fst).Nodup := by
      rw [map_fst_entries]
      exact hnodup
    exact (latest_perm hkeys (hadded.symm.map _) uri).symm
  rw [get?_changeFolders_of_once ws honce, get?_changeFolders_of_once ws (h uri), hlatest]
  simp only [hmem]

/-- An addition moved to the front of its list comes before every removal. -/
theorem not_readded_front {folder : WorkspaceFolder} {added removed : List WorkspaceFolder}
    (hnodup : (uris (folder :: added)).Nodup) (h : folder.uri ∈ uris removed) :
    ¬ Readded folder.uri (folder :: added) removed := by
  intro hre
  obtain ⟨remove, hmem, huri⟩ := List.mem_map.mp h
  obtain ⟨j, hj⟩ := List.mem_iff_getElem?.mp hmem
  have hlater := hre j remove hj huri
  rw [List.drop_succ_cons, uris, List.map_drop] at hlater
  exact (List.nodup_cons.mp hnodup).1 (List.mem_of_mem_drop hlater)

/-- A change of the folders does what its lists say, in whatever order they stand, just if every
URI in both lists is added behind its last removal, and, where the lists have distinct
entries, no URI is in both. -/
theorem folder_changes_iff (ws : Workspace) (added removed : List WorkspaceFolder) :
    (Replaced ws (changeFolders ws added removed) added removed ∧
      ((uris added).Nodup → (uris removed).Nodup → OrderFree ws added removed)) ↔
    (∀ uri ∈ uris added, Readded uri added removed) ∧
      ((uris added).Nodup → (uris removed).Nodup → ∀ uri ∈ uris added, uri ∉ uris removed) := by
  rw [replaced_iff]
  refine and_congr_right fun hre => ?_
  refine forall_congr' fun hnodup => forall_congr' fun _ => ⟨?_, orderFree_of_disjoint ws hnodup⟩
  intro hfree uri hmem hremoved
  obtain ⟨folder, hfolder, rfl⟩ := List.mem_map.mp hmem
  obtain ⟨before, after, rfl⟩ := List.append_of_mem hfolder
  have hperm : (folder :: (before ++ after)).Perm (before ++ folder :: after) :=
    List.perm_middle.symm
  have hsame := hfree _ removed hperm (List.Perm.refl removed) folder.uri
  have hlost := (get?_changeFolders folder.uri ws (folder :: (before ++ after)) removed).2
    (not_readded_front ((hperm.map _).nodup_iff.mpr hnodup) hremoved)
  obtain ⟨kept, hkept⟩ := Option.ne_none_iff_exists'.mp (latest_entries_ne_none.mpr hmem)
  rw [hlost, (get?_changeFolders folder.uri ws _ removed).1 (hre folder.uri hmem), hkept] at hsame
  cases hsame

/-- A folder renamed: its URI is removed under the old name and added under the new one. -/
theorem renamed_folder_lost :
    let ws := Workspace.new .none [⟨[0x61], [0x61]⟩] .utf8
    let added : List WorkspaceFolder := [⟨[0x61], [0x62]⟩]
    let removed : List WorkspaceFolder := [⟨[0x61], [0x61]⟩]
    (uris added).Nodup ∧ (uris removed).Nodup ∧
      ¬ Replaced ws (changeFolders ws added removed) added removed := by
  intro ws added removed
  refine ⟨by decide, by decide, ?_⟩
  rw [replaced_iff]
  intro h
  have hlater := h [0x61] (by decide) 0 _ rfl rfl
  exact List.not_mem_nil hlater

end Pygls.Folders
