/-
# The folder of settings on a disk

A folder is found on a disk by following a path, name by name.  Saving in a folder gives and takes
files only: what was a folder stays one, so every path leads where it led before
(`Disk.Keeps.follow`).  A folder can be opened as it stands if all names of its path lead on
(`Disk.Opens`).  It is not changed by opening it, saving in it is saving in that folder and nowhere
else, and it can be opened again after that (`Disk.Opens.after_save`).
-/
import ComponentTree.Outcome
import ComponentTree.Proofs.Settings.Filing
import ComponentTree.Settings.Disk

namespace ComponentTree.Settings

namespace Disk

variable {disk other : Disk} {place next : Place} {names : List String} {name path key : String}
  {bytes : ByteArray}

/-! ### Where paths lead -/

/-- A name leads on if it stays, goes up, or is that of a folder. -/
lemma enter_eq_ok : disk.enter place name = .ok next ↔
    name = "." ∧ next = place ∨
      name = ".." ∧ next = place.dropLast ∨
      name ≠ "." ∧ name ≠ ".." ∧ Path.fits name = true ∧
        (disk.folder place).entries.get? name = some .folder ∧ next = place ++ [name] := by
  rw [enter]
  have hpoints : "." ≠ ".." := by decide
  by_cases hstay : name = "."
  · subst hstay
    rw [if_pos rfl, Except.ok.injEq]
    refine ⟨fun h => .inl ⟨rfl, h.symm⟩, ?_⟩
    rintro (⟨-, h⟩ | ⟨h, -⟩ | ⟨h, -⟩)
    · exact h.symm
    · exact absurd h hpoints
    · exact absurd rfl h
  rw [if_neg hstay]
  by_cases hup : name = ".."
  · subst hup
    rw [if_pos rfl, Except.ok.injEq]
    refine ⟨fun h => .inr (.inl ⟨rfl, h.symm⟩), ?_⟩
    rintro (⟨h, -⟩ | ⟨-, h⟩ | ⟨-, h, -⟩)
    · exact absurd h hstay
    · exact h.symm
    · exact absurd rfl h
  rw [if_neg hup]
  by_cases hfits : Path.fits name = true
  · rw [if_pos hfits]
    cases hentry : (disk.folder place).entries.get? name with
    | none => simp [hstay, hup]
    | some entry => cases entry <;> simp [hstay, hup, hfits, eq_comm]
  · simp [hstay, hup, hfits]

/-- All folders of a disk are folders of another one. -/
structure Keeps (disk other : Disk) : Prop where
  here : other.here = disk.here
  folders : ∀ place name, (disk.folder place).entries.get? name = some .folder →
    (other.folder place).entries.get? name = some .folder

lemma Keeps.enter (h : disk.Keeps other) (henter : disk.enter place name = .ok next) :
    other.enter place name = .ok next := by
  rw [enter_eq_ok] at henter ⊢
  obtain hstay | hup | ⟨hstay, hup, hfits, hfolder, hnext⟩ := henter
  · exact .inl hstay
  · exact .inr (.inl hup)
  · exact .inr (.inr ⟨hstay, hup, hfits, h.folders _ _ hfolder, hnext⟩)

lemma follow_cons_eq_ok : disk.follow place (name :: names) = .ok next ↔
    ∃ p, disk.enter place name = .ok p ∧ disk.follow p names = .ok next := by
  rw [follow, List.foldlM_cons, Outcome.bind_eq_ok]
  rfl

lemma follow_append_eq_ok {others : List String} : disk.follow place (names ++ others) = .ok next ↔
    ∃ p, disk.follow place names = .ok p ∧ disk.follow p others = .ok next := by
  rw [follow, List.foldlM_append, Outcome.bind_eq_ok]
  rfl

/-- **Every path leads where it led before.** -/
lemma Keeps.follow (h : disk.Keeps other) (hfollow : disk.follow place names = .ok next) :
    other.follow place names = .ok next := by
  induction names generalizing place with
  | nil => exact hfollow
  | cons name names ih =>
    obtain ⟨p, henter, hrest⟩ := follow_cons_eq_ok.mp hfollow
    exact follow_cons_eq_ok.mpr ⟨p, h.enter henter, ih hrest⟩

lemma Keeps.start_eq (h : disk.Keeps other) (p : Path) : other.start p = disk.start p := by
  rw [start, h.here, start]

lemma Keeps.locate {found : Place × String} (h : disk.Keeps other)
    (hlocate : disk.locate path = .ok found) : other.locate path = .ok found := by
  rw [Disk.locate, Outcome.bind_eq_ok] at hlocate ⊢
  obtain ⟨p, hpath, hlocate⟩ := hlocate
  obtain ⟨q, hfollow, hlast⟩ := Outcome.bind_eq_ok.mp hlocate
  exact ⟨p, hpath, Outcome.bind_eq_ok.mpr ⟨q, h.start_eq p ▸ h.follow hfollow, hlast⟩⟩

/-! ### Opening a folder -/

/-- The folder at a path can be opened as it stands, and is the one at this place for the file and
the draft of a key. -/
structure Opens (disk : Disk) (path key : String) (place : Place) : Prop where
  leads : ∃ p above target, Path.ofText path = .ok p ∧
    disk.follow (disk.start p) p.above = .ok above ∧ disk.follow (disk.start p) p.names = .ok target
  file : disk.locate (Path.join path (Folder.fileName key)) = .ok (place, Folder.fileName key)
  draft : disk.locate (Path.join path (Folder.draftName key)) = .ok (place, Folder.draftName key)

lemma Opens.mono (hopens : disk.Opens path key place) (h : disk.Keeps other) :
    other.Opens path key place := by
  obtain ⟨p, above, target, hpath, habove, htarget⟩ := hopens.leads
  refine ⟨⟨p, above, target, hpath, ?_, ?_⟩, h.locate hopens.file, h.locate hopens.draft⟩
  · rw [h.start_eq]
    exact h.follow habove
  · rw [h.start_eq]
    exact h.follow htarget

/-- Where all names lead on, nothing has to be made. -/
lemma makeAll_of_follow (h : disk.follow place names = .ok next) :
    disk.makeAll place names = (.ok next, disk) := by
  induction names generalizing place with
  | nil =>
    cases h
    rfl
  | cons name names ih =>
    obtain ⟨p, henter, hrest⟩ := follow_cons_eq_ok.mp h
    have hmake : disk.make place name = .ok (p, disk) := by rw [make, henter]
    rw [makeAll, hmake]
    exact ih hrest

/-- **Opening a folder that is there changes nothing.** -/
theorem Opens.openFolder_eq (h : disk.Opens path key place) :
    ∃ target, disk.openFolder path = (.ok target, disk) := by
  obtain ⟨p, above, target, hpath, habove, htarget⟩ := h.leads
  have hnames : p.names.dropLast ++ p.names.getLast?.toList = p.names := by
    cases hlast : p.names.getLast? with
    | none => simp [List.getLast?_eq_none_iff.mp hlast]
    | some name =>
      obtain ⟨rest, hrest⟩ := List.getLast?_eq_some_iff.mp hlast
      rw [hrest, List.dropLast_concat]
      rfl
  rw [← hnames] at htarget
  obtain ⟨q, hq, hlast⟩ := follow_append_eq_ok.mp htarget
  refine ⟨target, ?_⟩
  rw [openFolder, hpath]
  dsimp only
  rw [makeAll_of_follow habove]
  dsimp only
  rw [hq]
  exact makeAll_of_follow hlast

/-! ### Using a folder -/

lemma folder_putFolder (disk : Disk) (place : Place) (f : Folder) (other : Place) :
    (disk.putFolder place f).folder other =
      if placeText other = placeText place then f else disk.folder other := by
  rw [putFolder, folder, Dict.get?_insert]
  split
  · rfl
  · rfl

/-- Loading from a folder on a disk is loading from the folder. -/
lemma Opens.load_eq (h : disk.Opens path key place) (hkey : isKey key = true) :
    disk.load path key = (disk.folder place).load key := by
  rw [load, checkKey_eq_ok.mpr hkey, h.file]
  rfl

/-- **Saving in a folder on a disk is saving in the folder.** -/
theorem Opens.save_eq (h : disk.Opens path key place) (hkey : isKey key = true) (bytes : ByteArray) :
    disk.save path key bytes = (((disk.folder place).save key bytes).1,
      disk.putFolder place ((disk.folder place).save key bytes).2) := by
  rw [save, checkKey_eq_ok.mpr hkey, h.draft]
  rfl

/-- A save in a folder gives and takes files only. -/
lemma keeps_putFolder_save (disk : Disk) (place : Place) (key : String) (bytes : ByteArray) :
    disk.Keeps (disk.putFolder place ((disk.folder place).save key bytes).2) := by
  refine ⟨rfl, fun q name hfolder => ?_⟩
  rw [folder_putFolder]
  split
  · next hplace =>
    have hsame : disk.folder q = disk.folder place := by rw [folder, hplace, folder]
    exact Folder.folder_save (hsame ▸ hfolder)
  · exact hfolder

/-- The folder can be opened again after something was saved in it. -/
theorem Opens.after_save (h : disk.Opens path key place) (bytes : ByteArray) :
    (disk.putFolder place ((disk.folder place).save key bytes).2).Opens path key place :=
  h.mono (keeps_putFolder_save disk place key bytes)

end Disk

end ComponentTree.Settings
