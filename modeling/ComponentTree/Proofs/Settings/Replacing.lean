/-
# What a save leaves in a folder

A save puts new bytes in the place of old ones in two steps, and each of them can be refused for
what lies in the folder: the draft cannot be written where a folder stands, and it cannot take the
place of a folder.  If neither is refused, the file of the key has the new bytes, no draft is left,
not even one of an earlier save, and every other entry is as it was.  If the first is refused,
nothing was done.

When the second is refused, the draft is written already, and there the save ends: the draft stays,
over one that was there before, and every other entry is as it was.  So a save is all or nothing
unless a folder stands in the place of the file and none in that of the draft
(`Folder.allOrNothing_iff`).
-/
import ComponentTree.Proofs.Settings.Filing

namespace ComponentTree.Settings

namespace Folder

variable {f : Folder} {key : String} {bytes : ByteArray}

/-- A save is all or nothing. -/
structure AllOrNothing (f : Folder) (key : String) (bytes : ByteArray) : Prop where
  /-- If it succeeds, the file has the bytes, there is no draft, and all else is as it was. -/
  all : (f.save key bytes).1 = .ok () → ∀ name, (f.save key bytes).2.entries.get? name =
    if name = key ++ ".json" then some (.file bytes)
    else if name = key ++ ".json.tmp" then none
    else f.entries.get? name
  /-- If it fails, the folder is as it was. -/
  nothing : ∀ e, (f.save key bytes).1 = .error e → (f.save key bytes).2 = f

/-! ### How a save ends -/

/-- To write a draft changes nothing if it is there already. -/
lemma drafted_eq_self_iff :
    f.drafted key bytes = f ↔ f.entries.get? (draftName key) = some (.file bytes) := by
  constructor
  · intro h
    rw [← h, get?_drafted, if_pos rfl]
  · intro h
    rw [drafted, Dict.insert_eq_self _ h]

/-- A save succeeds where no folder stands in the way. -/
lemma save_eq_ok_iff (hkey : isKey key = true) : (f.save key bytes).1 = .ok () ↔
    f.entries.get? (fileName key) ≠ some .folder ∧
      f.entries.get? (draftName key) ≠ some .folder := by
  by_cases hdraft : f.entries.get? (draftName key) = some .folder
  · obtain ⟨reason, hs⟩ := save_of_blocked_draft hkey hdraft bytes
    simp [hs, hdraft]
  by_cases hfile : f.entries.get? (fileName key) = some .folder
  · obtain ⟨reason, hs⟩ := save_of_blocked_file hkey hdraft hfile bytes
    simp [hs, hfile]
  · simp [save_of_free hkey hdraft hfile bytes, hdraft, hfile]

/-- **A save is all or nothing** unless its draft is left behind, and makes a difference there. -/
theorem allOrNothing_iff (hkey : isKey key = true) : f.AllOrNothing key bytes ↔
    (f.entries.get? (fileName key) = some .folder →
      f.entries.get? (draftName key) = some .folder ∨
        f.entries.get? (draftName key) = some (.file bytes)) := by
  have hname : draftName key = key ++ ".json.tmp" := draftName_eq (ne_empty_of_isKey hkey)
  by_cases hdraft : f.entries.get? (draftName key) = some .folder
  · -- nothing is done
    obtain ⟨reason, hs⟩ := save_of_blocked_draft hkey hdraft bytes
    refine iff_of_true ⟨fun h => ?_, fun e _ => by rw [hs]⟩ fun _ => .inl hdraft
    simp [hs] at h
  by_cases hfile : f.entries.get? (fileName key) = some .folder
  · -- the draft stays
    obtain ⟨reason, hs⟩ := save_of_blocked_file hkey hdraft hfile bytes
    rw [or_iff_right hdraft, ← drafted_eq_self_iff]
    constructor
    · intro h _
      simpa [hs] using h.nothing (.io reason) (by rw [hs])
    · intro h
      refine ⟨fun hok => ?_, fun e _ => ?_⟩
      · simp [hs] at hok
      · rw [hs, h hfile]
  · -- the draft takes the place of the file
    have hs := save_of_free hkey hdraft hfile bytes
    refine iff_of_true ⟨fun _ name => ?_, fun e h => ?_⟩ fun h => absurd h hfile
    · rw [hs, get?_filed, hname, fileName]
    · simp [hs] at h

/-- **What a save leaves in a folder.**  Whatever is in the folder, a save under a key succeeds
exactly if no folder stands in the place of its file or its draft.  It is all or nothing, with one
exception: a folder in the place of the file, and neither a folder nor these very bytes in that of
the draft.  There the save fails for the system, and the draft is left with the bytes, over one that
was there; every other entry is as it was. -/
theorem save_all_or_leaves_draft (hkey : isKey key = true) (f : Folder) (bytes : ByteArray) :
    ((f.save key bytes).1 = .ok () ↔ f.entries.get? (key ++ ".json") ≠ some .folder ∧
        f.entries.get? (key ++ ".json.tmp") ≠ some .folder) ∧
      (f.AllOrNothing key bytes ↔ (f.entries.get? (key ++ ".json") = some .folder →
        f.entries.get? (key ++ ".json.tmp") = some .folder ∨
          f.entries.get? (key ++ ".json.tmp") = some (.file bytes))) ∧
      (f.entries.get? (key ++ ".json") = some .folder →
        f.entries.get? (key ++ ".json.tmp") ≠ some .folder →
        (∃ reason, (f.save key bytes).1 = .error (.io reason)) ∧
          ∀ name, (f.save key bytes).2.entries.get? name =
            if name = key ++ ".json.tmp" then some (.file bytes) else f.entries.get? name) := by
  rw [← draftName_eq (ne_empty_of_isKey hkey)]
  refine ⟨save_eq_ok_iff hkey, allOrNothing_iff hkey, fun hfile hdraft => ?_⟩
  obtain ⟨reason, hs⟩ := save_of_blocked_file hkey hdraft hfile bytes
  rw [hs]
  exact ⟨⟨reason, rfl⟩, get?_drafted f key bytes⟩

/-- A folder with a folder in the place of the file of `k`, a draft of it, and a file of another
key. -/
def sampleBlocked : Folder :=
  ⟨(((∅ : Dict FolderEntry).insert "k.json" .folder).insert "k.json.tmp" (.file ⟨#[1]⟩)).insert
    "m.json" (.file ⟨#[7]⟩)⟩

/-- There a save under `k` fails, but has replaced the draft. -/
theorem save_all_or_leaves_draft_sample :
    isKey "k" = true ∧ sampleBlocked.entries.get? "k.json" = some .folder ∧
      sampleBlocked.entries.get? "k.json.tmp" = some (.file ⟨#[1]⟩) ∧
      (∃ reason, (sampleBlocked.save "k" ⟨#[2]⟩).1 = .error (.io reason)) ∧
      (sampleBlocked.save "k" ⟨#[2]⟩).2.entries.get? "k.json.tmp" = some (.file ⟨#[2]⟩) ∧
      (sampleBlocked.save "k" ⟨#[2]⟩).2.entries.get? "m.json" = some (.file ⟨#[7]⟩) := by
  have hkey : isKey "k" = true := by decide
  have hfile : sampleBlocked.entries.get? "k.json" = some .folder := rfl
  have hdraft : sampleBlocked.entries.get? "k.json.tmp" = some (.file ⟨#[1]⟩) := rfl
  have hother : sampleBlocked.entries.get? "m.json" = some (.file ⟨#[7]⟩) := rfl
  obtain ⟨-, -, hleft⟩ := save_all_or_leaves_draft hkey sampleBlocked ⟨#[2]⟩
  have hfree : sampleBlocked.entries.get? "k.json.tmp" ≠ some .folder := by simp [hdraft]
  obtain ⟨herror, hentries⟩ := hleft hfile hfree
  refine ⟨hkey, hfile, hdraft, herror, ?_, ?_⟩
  · rw [hentries, if_pos (by decide)]
  · rw [hentries, if_neg (by decide), hother]

/-- A folder with nothing but a folder in the place of the file of `k`. -/
def sampleBare : Folder := ⟨(∅ : Dict FolderEntry).insert "k.json" .folder⟩

/-- There a save under `k` fails and leaves a draft that was not there. -/
theorem not_allOrNothing_of_blocked :
    isKey "k" = true ∧ ¬ sampleBare.AllOrNothing "k" ⟨#[120]⟩ := by
  have hkey : isKey "k" = true := by decide
  have hfile : sampleBare.entries.get? (fileName "k") = some .folder := rfl
  have hdraft : sampleBare.entries.get? (draftName "k") = none := by
    rw [draftName_eq (ne_empty_of_isKey hkey)]
    rfl
  refine ⟨hkey, fun h => ?_⟩
  have hblocked := (allOrNothing_iff hkey).mp h hfile
  simp [hdraft] at hblocked

end Folder

end ComponentTree.Settings
