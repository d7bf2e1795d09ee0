/-
# Written documents are read back

Snapshots, selectors and preferences are written as records, and each record leaves out what its
reader fills in.  Whether the two agree is a question for each field of its own: the name it goes by
on both sides, and what the reader takes where the writer leaves it out.  Here they are put together
from the fields up, and in the end every document is read back as it was, in whatever order the
members of its objects stand (`documents_read_back`).
-/
import ComponentTree.Proofs.Json.Records
import ComponentTree.Selector.Document
import ComponentTree.Settings.Preferences
import ComponentTree.Snapshot.Document

namespace ComponentTree

open Json
open Json.Decoder

/-! ### Snapshots -/

namespace Snapshot

/-- The values that a snapshot has are ordered. -/
structure Ordered (s : Snapshot) : Prop where
  defaults : ∀ t ∈ s.types, OrderedValues t.defaults
  properties : ∀ c ∈ s.components, OrderedValues c.properties

lemma TypeEntry.reads {t : TypeEntry} (h : OrderedValues t.defaults) :
    Reads TypeEntry.decode t.encode t := by
  refine reads_record [("name", _), ("extends", _), ("defaults", _)] (by simp)
    fun present hfields => ?_
  simp only [List.forall_mem_cons] at hfields
  obtain ⟨hname, hbase, hdefaults, -⟩ := hfields
  rw [(reads_string t.name).required hname]
  simp only [optional_string hbase, optional_dict h hdefaults]
  rfl

lemma ComponentEntry.reads {c : ComponentEntry} (h : OrderedValues c.properties) :
    Reads ComponentEntry.decode c.encode c := by
  refine reads_record [("id", _), ("parentId", _), ("ntype", _), ("properties", _)] (by simp)
    fun present hfields => ?_
  simp only [List.forall_mem_cons] at hfields
  obtain ⟨hid, hparent, htype, hproperties, -⟩ := hfields
  rw [(reads_string c.id).required hid]
  simp only [optional_string hparent, optional_string htype, optional_dict h hproperties]
  rfl

lemma reads {s : Snapshot} (h : s.Ordered) : Reads decode s.encode s := by
  refine reads_record [("root", _), ("types", _), ("components", _)] (by simp)
    fun present hfields => ?_
  simp only [List.forall_mem_cons] at hfields
  obtain ⟨hroot, htypes, hcomponents, -⟩ := hfields
  have htypes' := reads_list fun t ht => TypeEntry.reads (h.defaults t ht)
  have hcomponents' := reads_list fun c hc => ComponentEntry.reads (h.properties c hc)
  rw [optional_string hroot]
  simp only [htypes'.optional htypes, hcomponents'.optional hcomponents]
  rfl

end Snapshot

/-! ### Selectors -/

namespace Selector

/-- The values that a selector asks for are ordered. -/
def Ordered (s : Selector) : Prop := ∀ step ∈ s.steps, OrderedValues step.constraints

lemma Step.reads {s : Step} (h : OrderedValues s.constraints) : Reads Step.decode s.encode s := by
  refine reads_record [("type_name", _), ("constraints", _)] (by simp) fun present hfields => ?_
  simp only [List.forall_mem_cons] at hfields
  obtain ⟨htype, hconstraints, -⟩ := hfields
  rw [optional_string htype]
  simp only [optional_dict h hconstraints]
  rfl

lemma reads {s : Selector} (h : s.Ordered) : Reads decode s.encode s := by
  intro node hnode
  have hsteps := reads_list (fun step hstep => Step.reads (h step hstep)) node hnode
  rw [decode, hsteps]
  rfl

end Selector

/-! ### Preferences -/

namespace Settings

lemma QueryPreferences.reads (p : QueryPreferences) : Reads QueryPreferences.decode p.encode p := by
  refine reads_record [("max_depth", _), ("collect_all", _)] (by simp) fun present hfields => ?_
  simp only [List.forall_mem_cons] at hfields
  obtain ⟨hdepth, hall, -⟩ := hfields
  rw [(reads_uint64 p.maxDepth).optional hdepth]
  simp only [(reads_bool p.collectAll).optional hall]
  rfl

lemma Preferences.reads (p : Preferences) : Reads Preferences.decode p.encode p := by
  refine reads_record [("query", _), ("root_id", _)] (by simp) fun present hfields => ?_
  simp only [List.forall_mem_cons] at hfields
  obtain ⟨hquery, hroot, -⟩ := hfields
  rw [p.query.reads.optional hquery]
  simp only [optional_string hroot]
  rfl

end Settings

/-- **Every document is read back as it was**: a snapshot, a selector and preferences, in whatever
order the members of the objects stand.  No field that was left out is missed, none is looked for
under another name, and none is lost. -/
theorem documents_read_back :
    (∀ s : Snapshot, s.Ordered →
      ∀ node, s.encode.WrittenAs node → Snapshot.decode node = .ok s) ∧
      (∀ s : Selector, s.Ordered →
        ∀ node, s.encode.WrittenAs node → Selector.decode node = .ok s) ∧
      ∀ p : Settings.Preferences,
        ∀ node, p.encode.WrittenAs node → Settings.Preferences.decode node = .ok p :=
  ⟨fun _ h => Snapshot.reads h, fun _ h => Selector.reads h, fun p => p.reads⟩

/-- A field whose type and properties have null for a value. -/
def Snapshot.nullSample : Snapshot where
  root := none
  types := [⟨"field", none, .ofList [("text", .null)]⟩]
  components := [⟨"mail", some "page", some "field", .ofList [("value", .null)]⟩]

/-- Entries with the value null are not taken for entries that are not there. -/
theorem documents_read_back_sample :
    Snapshot.nullSample.Ordered ∧
      Snapshot.decode (Node.ofValue Snapshot.nullSample.encode) = .ok Snapshot.nullSample := by
  have hnull : ∀ key, OrderedValues (.ofList [(key, .null)]) := fun key =>
    orderedValues_ofList (List.forall_mem_singleton.mpr .null)
  have hordered : Snapshot.nullSample.Ordered :=
    ⟨List.forall_mem_singleton.mpr (hnull "text"), List.forall_mem_singleton.mpr (hnull "value")⟩
  exact ⟨hordered, documents_read_back.1 _ hordered _ (Value.writtenAs_ofValue _)⟩

end ComponentTree
