/-
# What a folder keeps

A folder of settings is a map from keys to bytes, and the files in it do not show.  Three names
matter for a key: the key itself, the file that has its bytes, and the draft they are written to
first.  Different keys have different files, and no draft is the file of any key
(`Folder.fileName_ne_draftName`), so a save touches what is kept under its own key and nothing else;
and where it fails, at the draft or at the last step, it has not touched even that
(`Folder.get?_fileName_save`).

So whatever was asked of a folder that was empty at first, folders made in it included, a load finds
the bytes of the latest save that succeeded, unless a folder stands in the place of the file
(`Folder.run_keeps_latest`).
-/
import ComponentTree.Settings.Folder
import Mathlib.Data.List.Induction
import Mathlib.Tactic.Lemma

namespace ComponentTree.Settings

namespace Folder

variable {f g : Folder} {key k name source target : String} {bytes : ByteArray} {e : Error}

/-! ### Names -/

lemma fileName_inj : fileName k = fileName key ↔ k = key := String.append_left_inj ".json"

/-- Behind the last point of a file name stands the ending that all files have, so the whole key is
kept in the name of the draft, points included. -/
lemma draftName_eq (h : key ≠ "") : draftName key = key ++ ".json.tmp" := by
  have hne : key.toList.reverse ≠ [] := by simpa using h
  obtain ⟨c, stem, hstem⟩ := List.exists_cons_of_ne_nil hne
  have hdrop : (fileName key).toList.reverse.dropWhile (· ≠ '.') = '.' :: c :: stem := by
    rw [fileName, String.toList_append, List.reverse_append, hstem]
    rfl
  rw [draftName, withEnding, hdrop]
  show String.ofList (c :: stem).reverse ++ "." ++ "json.tmp" = key ++ ".json.tmp"
  rw [← hstem, List.reverse_reverse, String.ofList_toList, String.append_assoc]
  rfl

lemma ne_empty_of_isKey (h : isKey key = true) : key ≠ "" := by
  rintro rfl
  exact absurd h (by decide)

/-- A draft is not the file of any key: their last characters differ. -/
lemma fileName_ne_draftName (hkey : isKey key = true) (k : String) :
    fileName k ≠ draftName key := by
  rw [draftName_eq (ne_empty_of_isKey hkey)]
  intro h
  have hlast := congrArg (fun name => name.toList.getLast?) h
  simp [fileName] at hlast

/-! ### Files -/

lemma write_eq_ok : f.write name bytes = .ok g ↔
    f.entries.get? name ≠ some .folder ∧ ⟨f.entries.insert name (.file bytes)⟩ = g := by
  rw [write]
  split
  · next h => simp [h]
  · next h => simpa using fun _ => h

lemma rename_eq_ok : f.rename source target = .ok g ↔
    ∃ entry, f.entries.get? source = some entry ∧ f.entries.get? target ≠ some .folder ∧
      ⟨(f.entries.erase source).insert target entry⟩ = g := by
  rw [rename]
  split
  · next h => simp [h]
  · next h => simp [h]
  · next entry hentry hfile =>
    have hne : f.entries.get? target ≠ some .folder := hfile
    simp [hentry, hne]

/-! ### Saving -/

/-- The folder with the draft of a key. -/
def drafted (f : Folder) (key : String) (bytes : ByteArray) : Folder :=
  ⟨f.entries.insert (draftName key) (.file bytes)⟩

/-- The folder with the file of a key, and without its draft. -/
def filed (f : Folder) (key : String) (bytes : ByteArray) : Folder :=
  ⟨((f.entries.insert (draftName key) (.file bytes)).erase (draftName key)).insert
    (fileName key) (.file bytes)⟩

lemma get?_drafted (f : Folder) (key : String) (bytes : ByteArray) (name : String) :
    (f.drafted key bytes).entries.get? name =
      if name = draftName key then some (.file bytes) else f.entries.get? name :=
  Dict.get?_insert _ _ _ _

lemma get?_filed (f : Folder) (key : String) (bytes : ByteArray) (name : String) :
    (f.filed key bytes).entries.get? name =
      if name = fileName key then some (.file bytes)
      else if name = draftName key then none
      else f.entries.get? name := by
  rw [filed, Dict.get?_insert, Dict.get?_erase]
  refine ite_congr rfl (fun _ => rfl) fun _ => ite_congr rfl (fun _ => rfl) fun hdraft => ?_
  exact Dict.get?_insert_of_ne _ hdraft _

lemma get?_fileName_drafted (hkey : isKey key = true) (k : String) :
    (f.drafted key bytes).entries.get? (fileName k) = f.entries.get? (fileName k) := by
  rw [get?_drafted, if_neg (fileName_ne_draftName hkey k)]

lemma get?_fileName_filed (hkey : isKey key = true) (k : String) :
    (f.filed key bytes).entries.get? (fileName k) =
      if k = key then some (.file bytes) else f.entries.get? (fileName k) := by
  rw [get?_filed, if_neg (fileName_ne_draftName hkey k)]
  simp only [fileName_inj]

/-- Where a folder stands in the place of the draft, nothing is done. -/
lemma save_of_blocked_draft (hkey : isKey key = true)
    (hdraft : f.entries.get? (draftName key) = some .folder) (bytes : ByteArray) :
    ∃ reason, f.save key bytes = (.error (.io reason), f) := by
  refine ⟨"Is a directory (os error 21)", ?_⟩
  rw [save, checkKey_eq_ok.mpr hkey]
  dsimp only
  rw [write, hdraft]

/-- Where no folder stands in its place, the draft can be written. -/
lemma write_draft (hdraft : f.entries.get? (draftName key) ≠ some .folder) (bytes : ByteArray) :
    f.write (draftName key) bytes = .ok (f.drafted key bytes) :=
  write_eq_ok.mpr ⟨hdraft, rfl⟩

/-- Where a folder stands in the place of the file only, the draft is written and stays. -/
lemma save_of_blocked_file (hkey : isKey key = true)
    (hdraft : f.entries.get? (draftName key) ≠ some .folder)
    (hfile : f.entries.get? (fileName key) = some .folder) (bytes : ByteArray) :
    ∃ reason, f.save key bytes = (.error (.io reason), f.drafted key bytes) := by
  have hwritten : (f.drafted key bytes).entries.get? (draftName key) = some (.file bytes) := by
    rw [get?_drafted, if_pos rfl]
  have hstill : (f.drafted key bytes).entries.get? (fileName key) = some .folder :=
    (get?_fileName_drafted hkey key).trans hfile
  refine ⟨"Is a directory (os error 21)", ?_⟩
  rw [save, checkKey_eq_ok.mpr hkey]
  dsimp only
  rw [write_draft hdraft]
  dsimp only
  rw [rename, hwritten, hstill]

/-- Where no folder stands in the way, the file has the bytes, and there is no draft. -/
lemma save_of_free (hkey : isKey key = true)
    (hdraft : f.entries.get? (draftName key) ≠ some .folder)
    (hfile : f.entries.get? (fileName key) ≠ some .folder) (bytes : ByteArray) :
    f.save key bytes = (.ok (), f.filed key bytes) := by
  have hrename : (f.drafted key bytes).rename (draftName key) (fileName key) =
      .ok (f.filed key bytes) := by
    refine rename_eq_ok.mpr ⟨.file bytes, Dict.get?_insert_self _ _ _, ?_, rfl⟩
    rwa [get?_fileName_drafted hkey]
  rw [save, checkKey_eq_ok.mpr hkey]
  dsimp only
  rw [write_draft hdraft]
  dsimp only
  rw [hrename]

/-- How a save ends: at the key, at the draft, at the file, or well. -/
lemma save_cases (f : Folder) (key : String) (bytes : ByteArray) :
    isKey key = false ∧ f.save key bytes = (.error (.invalidKey key), f) ∨
      isKey key = true ∧ ((∃ e, f.save key bytes = (.error e, f)) ∨
        f.entries.get? (draftName key) ≠ some .folder ∧
          ((∃ e, f.save key bytes = (.error e, f.drafted key bytes)) ∨
            f.entries.get? (fileName key) ≠ some .folder ∧
              f.save key bytes = (.ok (), f.filed key bytes))) := by
  cases hkey : isKey key with
  | false =>
    refine .inl ⟨rfl, ?_⟩
    rw [save, checkKey, hkey]
    rfl
  | true =>
    refine .inr ⟨rfl, ?_⟩
    by_cases hdraft : f.entries.get? (draftName key) = some .folder
    · obtain ⟨reason, hs⟩ := save_of_blocked_draft hkey hdraft bytes
      exact .inl ⟨_, hs⟩
    refine .inr ⟨hdraft, ?_⟩
    by_cases hfile : f.entries.get? (fileName key) = some .folder
    · obtain ⟨reason, hs⟩ := save_of_blocked_file hkey hdraft hfile bytes
      exact .inl ⟨_, hs⟩
    · exact .inr ⟨hfile, save_of_free hkey hdraft hfile bytes⟩

/-- A save that succeeds touches the file of its key and no other. -/
lemma get?_fileName_save_of_ok (h : (f.save key bytes).1 = .ok ()) (k : String) :
    (f.save key bytes).2.entries.get? (fileName k) =
      if k = key then some (.file bytes) else f.entries.get? (fileName k) := by
  obtain ⟨-, hs⟩ | ⟨hkey, ⟨e, hs⟩ | ⟨-, ⟨e, hs⟩ | ⟨-, hs⟩⟩⟩ := f.save_cases key bytes
  · simp [hs] at h
  · simp [hs] at h
  · simp [hs] at h
  · rw [hs, get?_fileName_filed hkey]

/-- A save that fails touches no file of any key. -/
lemma get?_fileName_save_of_error (h : (f.save key bytes).1 = .error e) (k : String) :
    (f.save key bytes).2.entries.get? (fileName k) = f.entries.get? (fileName k) := by
  obtain ⟨-, hs⟩ | ⟨hkey, ⟨e, hs⟩ | ⟨-, ⟨e, hs⟩ | ⟨-, hs⟩⟩⟩ := f.save_cases key bytes
  · rw [hs]
  · rw [hs]
  · rw [hs, get?_fileName_drafted hkey]
  · simp [hs] at h

/-- A save gives and takes files only: what was a folder stays one. -/
lemma folder_save (h : f.entries.get? name = some .folder) :
    (f.save key bytes).2.entries.get? name = some .folder := by
  have hother : ∀ {taken : String}, f.entries.get? taken ≠ some .folder → name ≠ taken :=
    fun hfile hname => hfile (hname ▸ h)
  obtain ⟨-, hs⟩ | ⟨-, ⟨e, hs⟩ | ⟨hdraft, ⟨e, hs⟩ | ⟨hfile, hs⟩⟩⟩ := f.save_cases key bytes
  · rwa [hs]
  · rwa [hs]
  · rw [hs, get?_drafted, if_neg (hother hdraft), h]
  · rw [hs, get?_filed, if_neg (hother hfile), if_neg (hother hdraft), h]

/-! ### Loading -/

lemma load_of_isKey (hkey : isKey key = true) : f.load key = f.read (fileName key) := by
  rw [load, checkKey_eq_ok.mpr hkey]
  rfl

lemma load_of_not_isKey (hkey : isKey key = false) : f.load key = .error (.invalidKey key) := by
  rw [load, checkKey, hkey]
  rfl

/-- What a load finds depends on the file of the key alone. -/
lemma load_congr (h : f.entries.get? (fileName k) = g.entries.get? (fileName k)) :
    f.load k = g.load k := by
  cases hk : isKey k with
  | false => rw [load_of_not_isKey hk, load_of_not_isKey hk]
  | true => rw [load_of_isKey hk, load_of_isKey hk, read, read, h]

lemma isKey_of_save (h : (f.save key bytes).1 = .ok ()) : isKey key = true := by
  obtain ⟨-, hs⟩ | ⟨hkey, -⟩ := f.save_cases key bytes
  · simp [hs] at h
  · exact hkey

lemma load_save_of_ok (h : (f.save key bytes).1 = .ok ()) :
    (f.save key bytes).2.load key = .ok bytes := by
  have hfile := get?_fileName_save_of_ok h key
  rw [if_pos rfl] at hfile
  rw [load_of_isKey (isKey_of_save h), read, hfile]

lemma load_save_of_error (h : (f.save key bytes).1 = .error e) (k : String) :
    (f.save key bytes).2.load k = f.load k :=
  load_congr (get?_fileName_save_of_error h k)

/-- **A save never changes what is found under another key.** -/
theorem load_save_of_ne (h : k ≠ key) : (f.save key bytes).2.load k = f.load k := by
  cases hresult : (f.save key bytes).1 with
  | error e => exact load_save_of_error hresult k
  | ok u =>
    refine load_congr ?_
    rw [get?_fileName_save_of_ok hresult, if_neg h]

/-! ### Requests -/

/-- What may be asked of a folder. -/
inductive Request where
  | save (key : String) (bytes : ByteArray)
  | load (key : String)
  | makeFolder (name : String)

/-- What a folder answers. -/
inductive Answer where
  | saved (result : Except Error Unit)
  | loaded (result : Except Error ByteArray)
  | made (done : Bool)

/-- The answer to a request, and the folder after it. -/
def serve (f : Folder) : Request → Answer × Folder
  | .save key bytes => (.saved (f.save key bytes).1, (f.save key bytes).2)
  | .load key => (.loaded (f.load key), f)
  | .makeFolder name =>
    match f.makeFolder name with
    | some g => (.made true, g)
    | none => (.made false, f)

/-- What was asked of a folder and what it answered, the latest first. -/
abbrev History := List (Request × Answer)

/-- A folder after one more request, with the history up to it. -/
def advance (s : History × Folder) (r : Request) : History × Folder :=
  ((r, (s.2.serve r).1) :: s.1, (s.2.serve r).2)

/-- A folder after requests that began with the empty folder, with their history. -/
def run (requests : List Request) : History × Folder := requests.foldl advance ([], .empty)

/-- The bytes that a request has saved under a key, if it is a save under the key that succeeded. -/
def savedUnder (key : String) : Request × Answer → Option ByteArray
  | (.save k bytes, .saved (.ok ())) => if k = key then some bytes else none
  | _ => none

/-- The bytes of the latest save under a key that succeeded. -/
def latest (key : String) (history : History) : Option ByteArray :=
  history.findSome? (savedUnder key)

/-- What is answered to a load where bytes, or none, are kept under the key. -/
def found : Option ByteArray → Except Error ByteArray
  | some bytes => .ok bytes
  | none => .error .notFound

variable {s : History × Folder} {history : History} {r : Request} {a : Answer}

lemma latest_cons_of_eq_none (h : savedUnder key (r, a) = none) :
    latest key ((r, a) :: history) = latest key history := by
  rw [latest, List.findSome?_cons, h]
  rfl

lemma latest_cons_of_eq_some (h : savedUnder key (r, a) = some bytes) :
    latest key ((r, a) :: history) = some bytes := by
  rw [latest, List.findSome?_cons, h]

lemma makeFolder_eq_some : f.makeFolder name = some g ↔
    f.entries.get? name = none ∧ ⟨f.entries.insert name .folder⟩ = g := by
  rw [makeFolder, Dict.contains]
  cases h : f.entries.get? name <;> simp

/-- A folder stays a folder, whatever is asked. -/
lemma folder_serve (h : f.entries.get? name = some .folder) (r : Request) :
    (f.serve r).2.entries.get? name = some .folder := by
  cases r with
  | load k => exact h
  | save k bytes => exact folder_save h
  | makeFolder made =>
    rw [serve]
    cases hmade : f.makeFolder made with
    | none => exact h
    | some g =>
      obtain ⟨-, rfl⟩ := makeFolder_eq_some.mp hmade
      show (f.entries.insert made .folder).get? name = some .folder
      rw [Dict.get?_insert]
      split
      · rfl
      · exact h

/-- A folder that was made changes nothing under a key unless it stands in the place of its file. -/
lemma load_makeFolder
    (h : (f.serve (.makeFolder name)).2.entries.get? (fileName key) ≠ some .folder) :
    (f.serve (.makeFolder name)).2.load key = f.load key := by
  rw [serve] at h ⊢
  cases hmade : f.makeFolder name with
  | none => rfl
  | some g =>
    rw [hmade] at h
    obtain ⟨-, rfl⟩ := makeFolder_eq_some.mp hmade
    have hne : fileName key ≠ name := by
      rintro rfl
      exact h (Dict.get?_insert_self _ _ _)
    exact load_congr (Dict.get?_insert_of_ne _ hne _)

/-- Loads find what the history says, wherever no folder is in the place of the file. -/
def Keeps (history : History) (f : Folder) : Prop :=
  ∀ key, isKey key = true → f.entries.get? (fileName key) ≠ some .folder →
    f.load key = found (latest key history)

lemma keeps_empty : Keeps [] .empty := by
  intro key hkey _
  rw [load_of_isKey hkey]
  rfl

/-- One request keeps the folder in step with the history. -/
lemma Keeps.advance (h : Keeps s.1 s.2) (r : Request) : Keeps (advance s r).1 (advance s r).2 := by
  obtain ⟨history, f⟩ := s
  intro key hkey hfile
  have hbefore : f.entries.get? (fileName key) ≠ some .folder := fun hf =>
    hfile (folder_serve hf r)
  have hload : f.load key = found (latest key history) := h key hkey hbefore
  cases r with
  | load k => exact hload
  | makeFolder name =>
    have hlatest : savedUnder key (.makeFolder name, (f.serve (.makeFolder name)).1) = none := rfl
    show (f.serve (.makeFolder name)).2.load key = found (latest key (_ :: history))
    rw [latest_cons_of_eq_none hlatest, ← hload]
    exact load_makeFolder hfile
  | save k bytes =>
    show (f.save k bytes).2.load key =
      found (latest key ((.save k bytes, .saved (f.save k bytes).1) :: history))
    cases hresult : (f.save k bytes).1 with
    | error e => rw [load_save_of_error hresult, hload, latest_cons_of_eq_none rfl]
    | ok u =>
      by_cases hk : k = key
      · subst hk
        have hlatest : savedUnder k (.save k bytes, .saved (.ok u)) = some bytes := if_pos rfl
        rw [load_save_of_ok hresult, latest_cons_of_eq_some hlatest, found]
      · have hlatest : savedUnder key (.save k bytes, .saved (.ok u)) = none := if_neg hk
        rw [load_save_of_ne (Ne.symm hk), hload, latest_cons_of_eq_none hlatest]

lemma keeps_run (requests : List Request) : Keeps (run requests).1 (run requests).2 := by
  induction requests using List.reverseRecOn with
  | nil => exact keeps_empty
  | append_singleton rest r ih =>
    rw [run, List.foldl_append]
    exact Keeps.advance ih r

/-- **A folder is a map from keys to bytes.**  Whatever was asked of a folder that was empty at
first, what is not a key is refused and changes nothing; a load of a key finds the bytes of the
latest save that succeeded, or nothing if there was none, unless a folder stands in the place of its
file; a save that fails changes what is found under no key; and a save never changes what is found
under another key. -/
theorem run_keeps_latest (requests : List Request) :
    (∀ key, isKey key = false →
      (run requests).2.serve (.load key) =
          (.loaded (.error (.invalidKey key)), (run requests).2) ∧
        ∀ bytes, (run requests).2.serve (.save key bytes) =
          (.saved (.error (.invalidKey key)), (run requests).2)) ∧
      (∀ key, isKey key = true →
        (run requests).2.entries.get? (fileName key) ≠ some .folder →
          (run requests).2.load key = found (latest key (run requests).1)) ∧
      (∀ key bytes e, ((run requests).2.save key bytes).1 = .error e →
        ∀ k, ((run requests).2.save key bytes).2.load k = (run requests).2.load k) ∧
      ∀ key bytes k, k ≠ key →
        ((run requests).2.save key bytes).2.load k = (run requests).2.load k := by
  refine ⟨fun key hkey => ⟨?_, fun bytes => ?_⟩, keeps_run requests,
    fun key bytes e he k => load_save_of_error he k, fun key bytes k hk => load_save_of_ne hk⟩
  · rw [serve, load_of_not_isKey hkey]
  · obtain ⟨-, hs⟩ | ⟨hyes, -⟩ := (run requests).2.save_cases key bytes
    · rw [serve, hs]
    · exact absurd (hkey.symm.trans hyes) (by simp)

/-- A save, and another one that fails since a folder stands in the place of the draft. -/
def sampleRequests : List Request :=
  [.save "a.b" ⟨#[1]⟩, .makeFolder "a.b.json.tmp", .save "a.b" ⟨#[2]⟩]

/-- The old bytes are still found where a later save has failed. -/
theorem run_keeps_latest_sample : (run sampleRequests).2.load "a.b" = .ok ⟨#[1]⟩ := by
  have hfile : (run sampleRequests).2.entries.get? (fileName "a.b") = some (.file ⟨#[1]⟩) := rfl
  have hne : (run sampleRequests).2.entries.get? (fileName "a.b") ≠ some .folder := by
    simp [hfile]
  exact (run_keeps_latest sampleRequests).2.1 "a.b" (by decide) hne

end Folder

end ComponentTree.Settings
