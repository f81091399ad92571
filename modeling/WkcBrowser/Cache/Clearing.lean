import WkcBrowser.Cache.HTTPCache

/-!
# `HTTPCache::removeAll`: what is left in the directory

* `Emptied`               what is expected of the call: no bodies, no FAT file, no entries, the rest as it was;
* `listDirectory_full`    the items of the list are full paths;
* `lookup_unlinkAll`      only what lies behind one more directory is deleted;
* `removeAll_empties_iff`  when the call does what is expected.
-/

set_option linter.unusedSectionVars false

namespace Wkc

section
variable [FilePeers]
namespace HTTPCache

/-- a name in the directory of the cache -/
def inDirectory (c : HTTPCache) (name : WString) : WString := c.filePath ++ separator :: name

/-- a file of the directory with a body in it -/
def IsBody (name : WString) : Prop := separator ∉ name ∧ CACHE_SUFFIX <:+ name

/-- what the peers build from the names in the directory fits -/
def DirectoryFits (c : HTTPCache) : Prop :=
  ∀ name, separator ∉ name → c.inDirectory name ∈ c.files →
    (utf8 c.filePath).length + 1 + (utf8 name).length < MAX_PATH

structure Emptied (c : HTTPCache) : Prop where
  bodies : ∀ name, IsBody name → c.inDirectory name ∉ c.removeAll.files
  fat : c.inDirectory c.fatFileName ∉ c.removeAll.files
  list : c.removeAll.resourceList = []
  index : ∀ u, c.removeAll.resources u = none
  total : c.removeAll.totalResourceSize = 0 ∧ c.removeAll.totalContentsSize = 0
  others : ∀ f, (∀ name, IsBody name → f ≠ c.inDirectory name) → f ≠ c.inDirectory c.fatFileName →
    c.removeAll.files.lookup f = c.files.lookup f

/-! ## the list of the directory -/

theorem mem_directoryNames {files : Files} {path suffix name : WString} :
    name ∈ directoryNames files path suffix ↔
      path ++ separator :: name ∈ files ∧ separator ∉ name ∧ suffix <:+ name := by
  have hkey : (∃ f ∈ files.keys,
      (if (path ++ [separator]) <+: f then some (f.drop (path.length + 1)) else none) = some name) ↔
      path ++ separator :: name ∈ files := by
    constructor
    · rintro ⟨f, hf, hname⟩
      split at hname
      · next hfront =>
        obtain ⟨rest, rfl⟩ := hfront
        have hdrop : (path ++ [separator] ++ rest).drop (path.length + 1) = rest := List.drop_left' (by simp)
        rw [hdrop, Option.some.injEq] at hname
        subst hname
        rw [List.append_assoc] at hf
        exact AList.mem_keys.mp hf
      · cases hname
    · intro h
      refine ⟨_, AList.mem_keys.mpr h, ?_⟩
      have hfront : (path ++ [separator]) <+: path ++ separator :: name := ⟨name, by simp⟩
      have hdrop : (path ++ separator :: name).drop (path.length + 1) = name := by
        rw [List.append_cons path separator name]
        exact List.drop_left' (by simp)
      rw [if_pos hfront, hdrop]
  rw [directoryNames, List.mem_filter, List.mem_filterMap, hkey]
  simp

theorem listDirectory_full (hpeers : FilePeers.Joins) {files : Files} {path suffix item : WString}
    (h : item ∈ listDirectory files path suffix) :
    ∃ name ∈ directoryNames files path suffix, item = path ++ separator :: name := by
  obtain ⟨entry, hentry, hitem⟩ := List.mem_filterMap.mp h
  obtain ⟨name, hname, rfl⟩ := List.mem_map.mp ((List.takeWhile_sublist _).subset hentry)
  refine ⟨name, hname, ?_⟩
  have hitem : wkcFilePathByAppendingComponentPeer path name = some item := hitem
  rw [hpeers] at hitem
  split at hitem
  · exact (Option.some.inj hitem).symm
  · cases hitem

theorem lookup_unlinkAll (hpeers : FilePeers.Joins) (path : WString) (items : List WString) :
    ∀ (files : Files) (f : WString), (∀ item ∈ items, f ≠ path ++ separator :: item) →
      (unlinkAll path items files).lookup f = files.lookup f := by
  induction items with
  | nil => exact fun _ _ _ => rfl
  | cons item items ih =>
    intro files f h
    have hrest : ∀ item ∈ items, f ≠ path ++ separator :: item :=
      fun item hitem => h item (List.mem_cons_of_mem _ hitem)
    unfold unlinkAll
    rw [hpeers]
    split
    · rfl
    · next fullpath hfull =>
      split at hfull
      · obtain rfl := Option.some.inj hfull
        rw [ih _ f hrest, AList.lookup_erase_ne (h item List.mem_cons_self)]
      · cases hfull

/-! ## the call -/

section
variable (c : HTTPCache)

theorem removeAll_empty : c.removeAll.resourceList = [] ∧ (∀ u, c.removeAll.resources u = none) ∧
    c.removeAll.totalResourceSize = 0 ∧ c.removeAll.totalContentsSize = 0 := by
  unfold removeAll
  dsimp only
  split <;> exact ⟨rfl, fun _ => rfl, rfl, rfl⟩

theorem removeAll_files : c.removeAll.files =
    match wkcFilePathByAppendingComponentPeer c.filePath c.fatFileName with
    | none => unlinkAll c.filePath (listDirectory c.files c.filePath CACHE_SUFFIX) c.files
    | some fullpath =>
      (unlinkAll c.filePath (listDirectory c.files c.filePath CACHE_SUFFIX) c.files).erase fullpath := by
  show (match wkcFilePathByAppendingComponentPeer c.filePath c.fatFileName with
    | none => _
    | some fullpath => _ : HTTPCache).files = _
  split <;> rfl

theorem fat_path (hpeers : FilePeers.Joins) {fullpath : WString}
    (h : wkcFilePathByAppendingComponentPeer c.filePath c.fatFileName = some fullpath) :
    fullpath = c.inDirectory c.fatFileName := by
  rw [hpeers] at h
  split at h
  · exact (Option.some.inj h).symm
  · cases h

theorem removeAll_keeps (hpeers : FilePeers.Joins) {f : WString} (hfat : f ≠ c.inDirectory c.fatFileName)
    (h : ∀ item ∈ listDirectory c.files c.filePath CACHE_SUFFIX, f ≠ c.filePath ++ separator :: item) :
    c.removeAll.files.lookup f = c.files.lookup f := by
  rw [removeAll_files]
  split
  · exact lookup_unlinkAll hpeers c.filePath _ c.files f h
  · next fullpath hfull =>
    rw [AList.lookup_erase_ne (c.fat_path hpeers hfull ▸ hfat)]
    exact lookup_unlinkAll hpeers c.filePath _ c.files f h

theorem removeAll_body (hpeers : FilePeers.Joins) (hname : c.fatFileName = DEFAULT_FAT_FILENAME) {name : WString} (h : IsBody name) :
    c.removeAll.files.lookup (c.inDirectory name) = c.files.lookup (c.inDirectory name) := by
  have hinj : ∀ {name' : WString}, c.inDirectory name = c.filePath ++ separator :: name' → name = name' := by
    intro name' heq
    exact (List.cons.inj (List.append_cancel_left heq)).2
  refine removeAll_keeps c hpeers ?_ ?_
  · intro heq
    have hsuffix := h.2
    rw [hinj heq, hname] at hsuffix
    exact absurd hsuffix (by decide)
  · intro item hitem heq
    obtain ⟨inner, _, rfl⟩ := listDirectory_full hpeers hitem
    refine h.1 ?_
    rw [hinj heq]
    exact List.mem_append_right _ List.mem_cons_self

theorem removeAll_fat (hpeers : FilePeers.Joins) (hfits : c.DirectoryFits) (hname : c.fatFileName = DEFAULT_FAT_FILENAME)
    (h : listDirectory c.files c.filePath CACHE_SUFFIX = []) : c.inDirectory c.fatFileName ∉ c.removeAll.files := by
  rw [removeAll_files, h]
  by_cases hin : (utf8 c.filePath).length + 1 + (utf8 c.fatFileName).length < MAX_PATH
  · have hfull : wkcFilePathByAppendingComponentPeer c.filePath c.fatFileName = some (c.inDirectory c.fatFileName) :=
      (hpeers _ _).trans (if_pos hin)
    rw [hfull, ← AList.lookup_eq_none]
    exact AList.lookup_erase ..
  · have hnone : wkcFilePathByAppendingComponentPeer c.filePath c.fatFileName = none :=
      (hpeers _ _).trans (if_neg hin)
    rw [hnone]
    intro hmem
    exact hin (hfits _ (by rw [hname]; decide) hmem)

end

/-- the bodies are not deleted, so there must have been none -/
theorem removeAll_empties_iff (hpeers : FilePeers.Joins) (c : HTTPCache) (hname : c.fatFileName = DEFAULT_FAT_FILENAME)
    (hfits : c.DirectoryFits) :
    c.Emptied ↔ ∀ name, IsBody name → c.inDirectory name ∉ c.files := by
  constructor
  · intro h name hbody hmem
    have hgone := h.bodies name hbody
    rw [← AList.lookup_eq_none, c.removeAll_body hpeers hname hbody, AList.lookup_eq_none] at hgone
    exact hgone hmem
  · intro h
    have hlist : listDirectory c.files c.filePath CACHE_SUFFIX = [] := by
      refine List.eq_nil_iff_forall_not_mem.mpr fun item hitem => ?_
      obtain ⟨name, hmem, _⟩ := listDirectory_full hpeers hitem
      obtain ⟨hin, hbody⟩ := mem_directoryNames.mp hmem
      exact h name hbody hin
    have hnone : ∀ f : WString, ∀ item ∈ listDirectory c.files c.filePath CACHE_SUFFIX,
        f ≠ c.filePath ++ separator :: item := by
      intro f item hitem
      rw [hlist] at hitem
      cases hitem
    obtain ⟨hempty, hindex, htotal⟩ := c.removeAll_empty
    refine ⟨fun name hbody => ?_, c.removeAll_fat hpeers hfits hname hlist, hempty, hindex, htotal,
      fun f _ hfat => c.removeAll_keeps hpeers hfat (hnone f)⟩
    rw [← AList.lookup_eq_none, c.removeAll_body hpeers hname hbody, AList.lookup_eq_none]
    exact h name hbody

end HTTPCache

end

namespace HTTPCache

/-! ## one file -/

attribute [local instance] FilePeers.joining

def withFile (name : WString) : HTTPCache :=
  { filePath := ascii ['d'], files := (∅ : Files).insert (ascii ['d'] ++ separator :: name) [0] }

theorem mem_withFile {name name' : WString} :
    (withFile name).inDirectory name' ∈ (withFile name).files ↔ name' = name := by
  show ascii ['d'] ++ separator :: name' ∈ (∅ : Files).insert _ _ ↔ _
  rw [AList.mem_insert]
  constructor
  · rintro (heq | hmem)
    · exact (List.cons.inj (List.append_cancel_left heq)).2
    · cases hmem
  · rintro rfl
    exact Or.inl rfl

theorem withFile_fits {name : WString} (h : 2 + (utf8 name).length < MAX_PATH) : (withFile name).DirectoryFits := by
  intro name' _ hmem
  rw [mem_withFile.mp hmem]
  exact h

theorem removeAll_empties_fat : (withFile DEFAULT_FAT_FILENAME).Emptied := by
  refine (removeAll_empties_iff FilePeers.joining_joins _ rfl (withFile_fits (by decide))).mpr ?_
  intro name hbody hmem
  rw [mem_withFile.mp hmem] at hbody
  exact absurd hbody.2 (by decide)

/-- the file of the first body -/
theorem removeAll_leaves : (withFile (formatFileName 0)).DirectoryFits ∧ ¬ (withFile (formatFileName 0)).Emptied := by
  refine ⟨withFile_fits (by decide), fun h => ?_⟩
  have hbody : IsBody (formatFileName 0) := ⟨by decide, by decide⟩
  have hgone := h.bodies _ hbody
  rw [← AList.lookup_eq_none, removeAll_body _ FilePeers.joining_joins rfl hbody, AList.lookup_eq_none] at hgone
  exact hgone (mem_withFile.mpr rfl)

end HTTPCache
end Wkc
