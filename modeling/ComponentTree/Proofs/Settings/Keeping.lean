/-
# What is saved is loaded

Documents are saved and loaded through a store, whose bytes are in memory or in a folder
(`Backing`).  Either way a document that has been saved under a key is found there until another is
saved under it, whatever else is asked and whatever goes wrong in between; nothing that is saved is
ever taken for nothing (`Backing.Faithful`).

All that is used of memory and folders is which bytes they hold under a key: what is saved is held,
and held until bytes are saved under the key again, and what is held is loaded (`Backing.Holds`).
-/
import ComponentTree.Proofs.Json.Documents
import ComponentTree.Proofs.Json.Texts
import ComponentTree.Proofs.Settings.Filing
import ComponentTree.Settings.Memory
import Mathlib.Tactic.Lemma

namespace ComponentTree.Settings

open Json (Value Decoder)

/-! ### Documents -/

/-- What documents are saved and loaded as. -/
inductive Kind where
  | preferences
  | value

namespace Kind

/-- The documents of a kind. -/
abbrev Document : Kind → Type
  | preferences => Preferences
  | value => Value

/-- The document that is taken where there is none. -/
def default : (kind : Kind) → kind.Document
  | preferences => .default
  | value => .null

/-- A document as JSON. -/
def encode : (kind : Kind) → kind.Document → Value
  | preferences => Preferences.encode
  | value => id

/-- The document in a JSON text. -/
def decode : (kind : Kind) → Decoder kind.Document
  | preferences => Preferences.decode
  | value => Decoder.value

/-- The documents whose texts are read back: all preferences, and the values that stand for
themselves in every order of their members, as long as their texts do (plain ones always do, by
`Value.Plain.legible`). -/
def Readable : (kind : Kind) → kind.Document → Prop
  | preferences => fun _ => True
  | value => fun v => v.Ordered ∧ v.Legible

end Kind

/-- Preferences are written without doubles, as an object inside an object. -/
lemma Preferences.legible_encode (p : Preferences) : p.encode.Legible := by
  have hquery : ∀ depth, Value.Plain (depth + 1) p.query.encode := by
    refine fun depth => .record ?_
    simp only [List.forall_mem_cons, Option.mem_some_iff, forall_eq']
    exact ⟨Value.plain_ofNat p.query.maxDepth.toNat_lt, .bool _, by simp⟩
  refine Value.Plain.legible (.record ?_)
  simp only [List.forall_mem_cons, Option.mem_some_iff, forall_eq']
  refine ⟨hquery _, fun v hv => ?_, by simp⟩
  obtain ⟨root, -, rfl⟩ := Option.map_eq_some_iff.mp hv
  exact .string root

lemma Kind.legible_encode {kind : Kind} {doc : kind.Document} (h : kind.Readable doc) :
    (kind.encode doc).Legible := by
  cases kind with
  | preferences => exact Preferences.legible_encode doc
  | value => exact h.2

lemma Kind.reads {kind : Kind} {doc : kind.Document} (h : kind.Readable doc) :
    kind.decode.Reads (kind.encode doc) doc := by
  cases kind with
  | preferences => exact Preferences.reads doc
  | value => exact Decoder.reads_value h.1

/-- The text of a document is neither empty nor another document. -/
lemma document_encode {kind : Kind} {doc : kind.Document} (h : kind.Readable doc) :
    Store.document kind.decode (.ok (kind.encode doc).pretty.toUTF8) = .ok (some doc) := by
  have hlegible := Kind.legible_encode h
  rw [Store.document, hlegible.isEmpty_eq_false, (Kind.reads h).readBytes hlegible]
  rfl

/-- The document that a load has found, or the default where it has found none or failed. -/
def orDefault {α : Type} (default : α) : Except Error (Option α) → α
  | .ok (some a) => a
  | _ => default

/-- Bytes that are not a document stand for the default, no bytes among them. -/
lemma orDefault_document {α : Type} (default : α) (decoder : Decoder α) (bytes : ByteArray) :
    orDefault default (Store.document decoder (.ok bytes)) =
      (decoder.readBytes bytes).toOption.getD default := by
  rw [Store.document]
  cases hempty : bytes.isEmpty with
  | true =>
    rw [Decoder.readBytes, Json.readBytes_of_isEmpty hempty]
    rfl
  | false => cases decoder.readBytes bytes <;> rfl

/-! ### Stores and what is asked of them -/

namespace Store

variable {σ α : Type} {store : Store (StateM σ)} {decoder : Decoder α} {key : String} {s : σ}

lemma load_run (hkey : isKey key = true) : (store.load decoder key).run s =
    (document decoder ((store.loadBytes key).run s).1, ((store.loadBytes key).run s).2) := by
  rw [load, checkKey_eq_ok.mpr hkey]
  rfl

lemma save_run (hkey : isKey key = true) (document : Value) :
    (store.save key document).run s = (store.saveBytes key document.pretty.toUTF8).run s := by
  rw [save, checkKey_eq_ok.mpr hkey]

lemma loadOr_run (default : α) : (store.loadOr default decoder key).run s =
    (orDefault default ((store.load decoder key).run s).1, ((store.load decoder key).run s).2) := by
  rw [loadOr, StateT.run_bind]
  obtain ⟨result, s'⟩ := (store.load decoder key).run s
  match result with
  | .ok (some a) => rfl
  | .ok none => rfl
  | .error e => rfl

end Store

/-- A store, and the failures that what it keeps its bytes in can be made to have. -/
structure Backing (σ : Type) where
  store : Store (StateM σ)
  /-- Make every access fail from now on, for some reason, or let none fail any more. -/
  fail : Option String → σ → σ
  /-- How every access fails, if it does. -/
  failure : σ → Option Error

/-- Memory, in which every access may be made to fail. -/
def Memory.backing : Backing Memory where
  store := Memory.store
  fail reason memory := { memory with failing := reason }
  failure memory := memory.failing.map .other

/-- A folder, in which nothing but what is already in it makes an access fail. -/
def Folder.backing : Backing Folder where
  store := Folder.store
  fail _ folder := folder
  failure _ := none

/-- What may be asked. -/
inductive Call where
  | save (kind : Kind) (key : String) (doc : kind.Document)
  | load (kind : Kind) (key : String)
  | loadOr (kind : Kind) (key : String)
  | fail (reason : Option String)

variable {σ : Type}

namespace Backing

variable (b : Backing σ)

/-- Save a document. -/
def save (s : σ) (kind : Kind) (key : String) (doc : kind.Document) : Except Error Unit × σ :=
  (b.store.save key (kind.encode doc)).run s

/-- Load a document. -/
def load (s : σ) (kind : Kind) (key : String) : Except Error (Option kind.Document) × σ :=
  (b.store.load kind.decode key).run s

/-- Load a document, or take the default. -/
def loadOr (s : σ) (kind : Kind) (key : String) : kind.Document × σ :=
  (b.store.loadOr kind.default kind.decode key).run s

/-- What is there after a call. -/
def after (s : σ) : Call → σ
  | .save kind key doc => (b.save s kind key doc).2
  | .load kind key => (b.load s kind key).2
  | .loadOr kind key => (b.loadOr s kind key).2
  | .fail reason => b.fail reason s

/-- A call is a save under the key that succeeds. -/
def Saves (key : String) (s : σ) : Call → Prop
  | .save kind k doc => k = key ∧ (b.save s kind k doc).1 = .ok ()
  | _ => False

/-- No call among these is a save under the key that succeeds. -/
def Spares (key : String) : σ → List Call → Prop
  | _, [] => True
  | s, c :: calls => ¬ b.Saves key s c ∧ Spares key (b.after s c) calls

/-- A store keeps the documents saved in it. -/
structure Faithful : Prop where
  /-- A document that was saved is found, whatever is asked after that but another save under its
  key that succeeds: every load then gives it, unless every access is made to fail. -/
  load_saved : ∀ (s : σ) (kind : Kind) (key : String) (doc : kind.Document), kind.Readable doc →
    (b.save s kind key doc).1 = .ok () →
    ∀ calls, b.Spares key (b.save s kind key doc).2 calls →
      (b.load (calls.foldl b.after (b.save s kind key doc).2) kind key).1 =
        (b.failure (calls.foldl b.after (b.save s kind key doc).2)).elim (.ok (some doc)) .error
  /-- What is not a key is refused, and changes nothing. -/
  invalid_key : ∀ (s : σ) (key : String), isKey key = false → ∀ kind : Kind,
    b.load s kind key = (.error (.invalidKey key), s) ∧
      ∀ doc, b.save s kind key doc = (.error (.invalidKey key), s)
  /-- Loading changes nothing. -/
  load_keeps : ∀ (s : σ) (kind : Kind) (key : String),
    (b.load s kind key).2 = s ∧ (b.loadOr s kind key).2 = s
  /-- A save that fails changes what is found under no key, neither now nor after accesses are made
  to fail or not to fail any more. -/
  failed_save : ∀ (s : σ) (kind : Kind) (key : String) (doc : kind.Document) (e : Error),
    (b.save s kind key doc).1 = .error e → ∀ (found : Kind) (k : String),
      (b.load (b.save s kind key doc).2 found k).1 = (b.load s found k).1 ∧
        ∀ reason, (b.load (b.fail reason (b.save s kind key doc).2) found k).1 =
          (b.load (b.fail reason s) found k).1
  /-- Where there is a default, the document is what a load finds, and the default if it finds none
  or fails. -/
  loadOr_eq : ∀ (s : σ) (kind : Kind) (key : String),
    (b.loadOr s kind key).1 = orDefault kind.default (b.load s kind key).1

/-! ### Bytes -/

/-- What a store does with its bytes, in terms of those that are held under each key. -/
structure Holds (held : σ → String → ByteArray → Prop) : Prop where
  load_keeps : ∀ s key, ((b.store.loadBytes key).run s).2 = s
  load_held : ∀ {s key bytes}, isKey key = true → held s key bytes →
    ((b.store.loadBytes key).run s).1 = (b.failure s).elim (.ok bytes) .error
  failure_ne : ∀ s, b.failure s ≠ some .notFound
  held_saved : ∀ {s key bytes}, ((b.store.saveBytes key bytes).run s).1 = .ok () →
    held ((b.store.saveBytes key bytes).run s).2 key bytes
  held_save : ∀ {s k old key bytes}, held s k old →
    ¬ (key = k ∧ ((b.store.saveBytes key bytes).run s).1 = .ok ()) →
    held ((b.store.saveBytes key bytes).run s).2 k old
  held_fail : ∀ {s key bytes} reason, held s key bytes → held (b.fail reason s) key bytes
  failed_save : ∀ {s key bytes e}, ((b.store.saveBytes key bytes).run s).1 = .error e → ∀ k,
    ((b.store.loadBytes k).run ((b.store.saveBytes key bytes).run s).2).1 =
        ((b.store.loadBytes k).run s).1 ∧
      ∀ reason, ((b.store.loadBytes k).run (b.fail reason ((b.store.saveBytes key bytes).run s).2)).1 =
        ((b.store.loadBytes k).run (b.fail reason s)).1

end Backing

/-- How a save in memory ends. -/
lemma Memory.save_cases (memory : Memory) (key : String) (bytes : ByteArray) :
    (∃ reason, memory.save key bytes = (.error (.other reason), memory)) ∨
      memory.save key bytes = (.ok (), { memory with blobs := memory.blobs.insert key bytes }) := by
  rw [save]
  cases memory.failing with
  | some reason => exact .inl ⟨reason, rfl⟩
  | none => exact .inr rfl

lemma Memory.backing_holds :
    Memory.backing.Holds fun memory key bytes => memory.blobs.get? key = some bytes where
  load_keeps _ _ := rfl
  load_held {memory key bytes} _ h := by
    show memory.load key = _
    rw [load, h]
    cases hfailing : memory.failing <;> simp [Memory.backing, hfailing]
  failure_ne memory := by
    cases hfailing : memory.failing <;> simp [Memory.backing, hfailing]
  held_saved {memory key bytes} h := by
    change (memory.save key bytes).1 = .ok () at h
    show (memory.save key bytes).2.blobs.get? key = some bytes
    obtain ⟨reason, hsave⟩ | hsave := memory.save_cases key bytes
    · simp [hsave] at h
    · rw [hsave]
      exact Dict.get?_insert_self _ _ _
  held_save {memory k old key bytes} h hother := by
    change ¬ (key = k ∧ (memory.save key bytes).1 = .ok ()) at hother
    show (memory.save key bytes).2.blobs.get? k = some old
    obtain ⟨reason, hsave⟩ | hsave := memory.save_cases key bytes
    · rwa [hsave]
    · have hne : k ≠ key := fun hk => hother ⟨hk.symm, by rw [hsave]⟩
      rw [hsave]
      exact (Dict.get?_insert_of_ne _ hne _).trans h
  held_fail _ h := h
  failed_save {memory key bytes e} h k := by
    change (memory.save key bytes).1 = .error e at h
    have hkept : (memory.save key bytes).2 = memory := by
      obtain ⟨reason, hsave⟩ | hsave := memory.save_cases key bytes
      · rw [hsave]
      · simp [hsave] at h
    show (Memory.load (memory.save key bytes).2 k) = memory.load k ∧ ∀ reason : Option String,
      Memory.load { (memory.save key bytes).2 with failing := reason } k =
        Memory.load { memory with failing := reason } k
    rw [hkept]
    exact ⟨rfl, fun _ => rfl⟩

lemma Folder.backing_holds :
    Folder.backing.Holds fun folder key bytes =>
      folder.entries.get? (fileName key) = some (.file bytes) where
  load_keeps _ _ := rfl
  load_held {folder key bytes} hkey h := by
    show folder.load key = .ok bytes
    rw [load_of_isKey hkey, read, h]
  failure_ne _ := by simp [Folder.backing]
  held_saved {folder key bytes} h := by
    show (folder.save key bytes).2.entries.get? (fileName key) = some (.file bytes)
    rw [get?_fileName_save_of_ok h, if_pos rfl]
  held_save {folder k old key bytes} h hother := by
    change ¬ (key = k ∧ (folder.save key bytes).1 = .ok ()) at hother
    show (folder.save key bytes).2.entries.get? (fileName k) = some (.file old)
    cases hsave : (folder.save key bytes).1 with
    | error e => rw [get?_fileName_save_of_error hsave, h]
    | ok u =>
      have hne : k ≠ key := fun hk => hother ⟨hk.symm, hsave⟩
      rw [get?_fileName_save_of_ok hsave, if_neg hne, h]
  held_fail _ h := h
  failed_save h k := ⟨load_save_of_error h k, fun _ => load_save_of_error h k⟩

/-! ### Documents in stores -/

namespace Backing

variable {b : Backing σ} {s : σ} {kind : Kind} {key : String} {doc : kind.Document}

lemma load_of_not_isKey (hkey : isKey key = false) :
    b.load s kind key = (.error (.invalidKey key), s) := by
  rw [load, Store.load, checkKey, hkey]
  rfl

lemma save_of_not_isKey (hkey : isKey key = false) :
    b.save s kind key doc = (.error (.invalidKey key), s) := by
  rw [save, Store.save, checkKey, hkey]
  rfl

lemma load_of_isKey (hkey : isKey key = true) :
    b.load s kind key = (Store.document kind.decode ((b.store.loadBytes key).run s).1,
      ((b.store.loadBytes key).run s).2) := Store.load_run hkey

lemma save_of_isKey (hkey : isKey key = true) :
    b.save s kind key doc = (b.store.saveBytes key (kind.encode doc).pretty.toUTF8).run s :=
  Store.save_run hkey _

lemma isKey_of_save (h : (b.save s kind key doc).1 = .ok ()) : isKey key = true := by
  by_contra hkey
  rw [save_of_not_isKey (Bool.not_eq_true _ ▸ hkey)] at h
  cases h

lemma loadOr_eq : b.loadOr s kind key =
    (orDefault kind.default (b.load s kind key).1, (b.load s kind key).2) := Store.loadOr_run _

section Held

variable {held : σ → String → ByteArray → Prop} (hb : b.Holds held)

include hb

lemma load_eq : b.load s kind key =
    (if isKey key then Store.document kind.decode ((b.store.loadBytes key).run s).1
      else .error (.invalidKey key), s) := by
  cases hkey : isKey key with
  | false => rw [load_of_not_isKey hkey]; rfl
  | true => rw [load_of_isKey hkey, hb.load_keeps]; rfl

/-- A document whose text is held is found. -/
lemma load_of_held (hkey : isKey key = true) (hdoc : kind.Readable doc)
    (h : held s key (kind.encode doc).pretty.toUTF8) :
    (b.load s kind key).1 = (b.failure s).elim (.ok (some doc)) .error := by
  rw [load_of_isKey hkey, hb.load_held hkey h]
  cases hfailure : b.failure s with
  | none => exact document_encode hdoc
  | some e =>
    -- Only the failure to find anything would be taken for nothing.
    have hne : e ≠ .notFound := fun he => hb.failure_ne s (he ▸ hfailure)
    show Store.document kind.decode (.error e) = .error e
    cases e with
    | notFound => exact absurd rfl hne
    | _ => rfl

/-- Every call but a save under the key that succeeds leaves the bytes held under it. -/
lemma held_after {bytes : ByteArray} (h : held s key bytes) {c : Call} (hc : ¬ b.Saves key s c) :
    held (b.after s c) key bytes := by
  cases c with
  | load kind k =>
    rw [after, load_eq hb]
    exact h
  | loadOr kind k =>
    rw [after, loadOr_eq, load_eq hb]
    exact h
  | fail reason => exact hb.held_fail reason h
  | save kind k doc =>
    rw [Saves] at hc
    rw [after]
    cases hkey : isKey k with
    | false => rwa [save_of_not_isKey hkey]
    | true =>
      rw [save_of_isKey hkey] at hc ⊢
      exact hb.held_save h hc

lemma held_foldl {bytes : ByteArray} {calls : List Call} (h : held s key bytes)
    (hcalls : b.Spares key s calls) : held (calls.foldl b.after s) key bytes := by
  induction calls generalizing s with
  | nil => exact h
  | cons c calls ih => exact ih (held_after hb h hcalls.1) hcalls.2

/-- **A store that does with its bytes what it should keeps the documents saved in it.** -/
theorem Holds.faithful : b.Faithful where
  load_saved s kind key doc hdoc hsave calls hcalls := by
    have hkey := isKey_of_save hsave
    refine load_of_held hb hkey hdoc (held_foldl hb ?_ hcalls)
    rw [save_of_isKey hkey] at hsave ⊢
    exact hb.held_saved hsave
  invalid_key s key hkey kind :=
    ⟨load_of_not_isKey hkey, fun _ => save_of_not_isKey hkey⟩
  load_keeps s kind key := by
    rw [loadOr_eq, load_eq hb]
    exact ⟨rfl, rfl⟩
  failed_save s kind key doc e hsave found k := by
    cases hkey : isKey key with
    | false =>
      rw [save_of_not_isKey hkey]
      exact ⟨rfl, fun _ => rfl⟩
    | true =>
      rw [save_of_isKey hkey] at hsave ⊢
      obtain ⟨hnow, hlater⟩ := hb.failed_save hsave k
      simp only [load_eq hb, hnow, hlater, true_and, implies_true]
  loadOr_eq s kind key := by rw [loadOr_eq]

end Held

/-- **Memory and folders keep the documents saved in them**, all preferences and all values that
their texts are read as, through every sequence of calls. -/
theorem faithful_backings : Memory.backing.Faithful ∧ Folder.backing.Faithful :=
  ⟨Memory.backing_holds.faithful, Folder.backing_holds.faithful⟩

/-- While every access fails, another value is saved, which does not count. -/
def sampleCalls : List Call := [.fail (some "gone"), .save .value "k" (.bool true), .fail none]

/-- Null that was saved is not taken for nothing. -/
theorem faithful_backings_sample :
    (Memory.backing.load (sampleCalls.foldl Memory.backing.after
      (Memory.backing.save .empty .value "k" .null).2) .value "k").1 = .ok (some .null) := by
  have hnull : Kind.Readable .value .null := ⟨.null, Value.Plain.legible .null⟩
  have hspares :
      Memory.backing.Spares "k" (Memory.backing.save .empty .value "k" .null).2 sampleCalls := by
    refine ⟨not_false, ?_, not_false, trivial⟩
    rintro ⟨-, ⟨⟩⟩
  exact faithful_backings.1.load_saved .empty .value "k" .null hnull rfl sampleCalls hspares

end Backing

end ComponentTree.Settings
