/-
# Reading documents back

A decoder reads a document as what was written if it does so from every node that the document may
be written as (`Decoder.Reads`).  The decoders of this library are put together from few parts, and
for each part there is one lemma here that says what it reads.

A record is the part with something to prove.  It is written without the fields that are none, and
read by looking its fields up, so all that a decoder of records has to be right about is, for each
field, the name it is looked up under and what stands for it where it was left out
(`Decoder.reads_record`).
-/
import ComponentTree.Proofs.Json.Members

namespace ComponentTree.Json

namespace Decoder

variable {α β : Type} {d : Decoder α} {v : Value} {a : α}

/-- The decoder reads the document `v` as `a`, in whatever order members are written. -/
def Reads (d : Decoder α) (v : Value) (a : α) : Prop := ∀ node, v.WrittenAs node → d node = .ok a

/-! ### Parts -/

lemma reads_string (s : String) : Reads string (.string s) s := by
  rintro _ ⟨⟩
  rfl

lemma reads_bool (b : Bool) : Reads bool (.bool b) b := by
  rintro _ ⟨⟩
  rfl

lemma reads_uint64 (n : UInt64) : Reads uint64 (.ofNat n.toNat) n := by
  rintro _ ⟨⟩
  have hrange : 0 ≤ (n.toNat : Int) ∧ (n.toNat : Int).toNat < UInt64.size :=
    ⟨Int.natCast_nonneg _, n.toNat_lt⟩
  rw [uint64, if_pos hrange, Int.toNat_natCast, UInt64.ofNat_toNat]

lemma reads_value (hv : v.Ordered) : Reads value v v := by
  intro node hnode
  rw [value, hv.value?_eq hnode]

/-- Where null is not among what is written, a decoder may be made to take it for nothing. -/
lemma Reads.nullable (h : Reads d v a) (hv : ¬ v.WrittenAs .null) :
    Reads d.nullable v (some a) := by
  intro node hnode
  have hd := h node hnode
  rw [Decoder.nullable]
  · rw [hd]
    rfl
  · rintro rfl
    exact hv hnode

lemma reads_nullable_string (s : String) : Reads (nullable string) (.string s) (some s) :=
  (reads_string s).nullable (by rintro ⟨⟩)

lemma mapM_eq_ok {l : List α} {nodes : List Node}
    (h : List.Forall₂ (fun a n => d n = .ok a) l nodes) : nodes.mapM d = .ok l := by
  induction h with
  | nil => rfl
  | cons ha _ ih =>
    rw [List.mapM_cons, ha, ih]
    rfl

lemma reads_list {encode : α → Value} {l : List α} (h : ∀ a ∈ l, Reads d (encode a) a) :
    Reads (list d) (.array (l.map encode)) l := by
  intro node hnode
  cases hnode with
  | array hitems =>
    rw [List.forall₂_map_left_iff] at hitems
    exact mapM_eq_ok (((List.forall₂_and_left _ _).mpr ⟨h, hitems⟩).imp fun a n h => h.1 n h.2)

lemma reads_dict {entries : Dict Value} (h : OrderedValues entries) :
    Reads dict (.ofDict entries) entries := by
  intro node hnode
  have hvalue := h.ordered.value?_eq hnode
  cases hnode with
  | object hperm hnames hwritten =>
    rw [Node.value?, Option.map_eq_some_iff] at hvalue
    obtain ⟨members, hmembers, heq⟩ := hvalue
    rw [dict, hmembers]
    exact congrArg Except.ok (Dict.ext_entries (Value.object.inj heq))

/-! ### Records -/

lemma map_filterMap_sublist (fields : List (String × Option Value)) :
    ((fields.filterMap fun f => f.2.map (f.1, ·)).map (·.1)).Sublist (fields.map (·.1)) := by
  induction fields with
  | nil => exact .slnil
  | cons f rest ih =>
    obtain ⟨name, value⟩ := f
    cases value with
    | none => exact ih.cons _
    | some v => exact ih.cons_cons _

/-- The fields that are written are those that are not none. -/
lemma lookup_filterMap {fields : List (String × Option Value)}
    (hnodup : (fields.map (·.1)).Nodup) {f : String × Option Value} (hf : f ∈ fields) :
    (fields.filterMap fun f => f.2.map (f.1, ·)).lookup f.1 = f.2 := by
  refine Option.ext fun v => ?_
  rw [lookup_eq_some_iff_mem (hnodup.sublist (map_filterMap_sublist fields)), List.mem_filterMap]
  constructor
  · rintro ⟨g, hg, h⟩
    obtain ⟨w, hw, heq⟩ := Option.map_eq_some_iff.mp h
    obtain ⟨hname, rfl⟩ := Prod.mk.inj heq
    obtain rfl := List.inj_on_of_nodup_map hnodup hg hf hname
    exact hw
  · intro h
    exact ⟨f, hf, by rw [h]; rfl⟩

/-- **What is read of a record depends on its fields alone**: those that are none are not found,
and those that are written are found under their names. -/
theorem reads_record (fields : List (String × Option Value)) (hnodup : (fields.map (·.1)).Nodup)
    {make : Fields → Except Defect α}
    (h : ∀ present, (∀ f ∈ fields, Option.Rel Value.WrittenAs f.2 (present.lookup f.1)) →
      make ⟨present, false⟩ = .ok a) :
    Reads (record (fields.map (·.1)) make) (.record fields) a := by
  intro node hnode
  have hsublist := map_filterMap_sublist fields
  obtain ⟨written, rfl⟩ : ∃ written, node = .object written := by
    cases hnode
    exact ⟨_, rfl⟩
  have hnames := hnode.perm_names
  -- Nothing else is written, so no member is passed over.
  have hknown : written.filter (fun m => (fields.map (·.1)).contains m.1) = written := by
    refine List.filter_eq_self.mpr fun m hm => List.contains_iff_mem.mpr ?_
    exact hsublist.subset (hnames.subset (List.mem_map_of_mem hm))
  have hdiffer : (written.map (·.1)).Nodup := hnames.nodup_iff.mpr (hnodup.sublist hsublist)
  have hofNode : Fields.ofNode (fields.map (·.1)) (.object written) = .ok ⟨written, false⟩ := by
    rw [Fields.ofNode, hknown, if_pos hdiffer]
  have hmake : make ⟨written, false⟩ = .ok a := by
    refine h written fun f hf => ?_
    have hlookup := hnode.lookup (hnodup.sublist hsublist) f.1
    rwa [lookup_filterMap hnodup hf] at hlookup
  rw [record, hofNode]
  show (make ⟨written, false⟩ >>= fun result => .ok result) = .ok a
  rw [hmake]
  rfl

variable {present : List (String × Node)} {surplus : Bool} {name : String} {field : Option Value}

lemma Reads.required (hd : Reads d v a)
    (h : Option.Rel Value.WrittenAs (some v) (present.lookup name)) :
    Fields.required ⟨present, surplus⟩ name d = .ok a := by
  rw [Fields.required]
  dsimp only
  cases hlookup : present.lookup name with
  | none => rw [hlookup] at h; cases h
  | some node =>
    rw [hlookup] at h
    cases h with
    | some hnode => exact hd node hnode

/-- A field that may be left out is read as what it has when it is absent. -/
lemma optional_eq_ok {absent : α} (hnone : field = none → absent = a)
    (hsome : ∀ v, field = some v → Reads d v a)
    (h : Option.Rel Value.WrittenAs field (present.lookup name)) :
    Fields.optional ⟨present, surplus⟩ name absent d = .ok a := by
  rw [Fields.optional]
  dsimp only
  cases hlookup : present.lookup name with
  | none =>
    rw [hlookup] at h
    cases h with
    | none => exact congrArg Except.ok (hnone rfl)
  | some node =>
    rw [hlookup] at h
    cases h with
    | some hnode => exact hsome _ rfl node hnode

/-- A field that is always written. -/
lemma Reads.optional {absent : α} (hd : Reads d v a)
    (h : Option.Rel Value.WrittenAs (some v) (present.lookup name)) :
    Fields.optional ⟨present, surplus⟩ name absent d = .ok a := by
  refine optional_eq_ok (fun hnone => absurd hnone (by simp)) (fun w hw => ?_) h
  obtain rfl := Option.some.inj hw
  exact hd

/-- A text that is left out where there is none. -/
lemma optional_string {text : Option String}
    (h : Option.Rel Value.WrittenAs (text.map .string) (present.lookup name)) :
    Fields.optional ⟨present, surplus⟩ name none (nullable string) = .ok text := by
  refine optional_eq_ok (fun hnone => ?_) (fun v hv => ?_) h
  · exact (Option.map_eq_none_iff.mp hnone).symm
  · obtain ⟨s, rfl, rfl⟩ := Option.map_eq_some_iff.mp hv
    exact reads_nullable_string s

/-- A map that is left out where it is empty. -/
lemma optional_dict {entries : Dict Value} (hordered : OrderedValues entries)
    (h : Option.Rel Value.WrittenAs (Value.ofNonempty entries) (present.lookup name)) :
    Fields.optional ⟨present, surplus⟩ name ∅ dict = .ok entries := by
  refine optional_eq_ok (fun hnone => ?_) (fun v hv => ?_) h
  · rw [Value.ofNonempty] at hnone
    split at hnone
    · next hempty => exact (Dict.ext_entries (List.isEmpty_iff.mp hempty)).symm
    · exact absurd hnone (by simp)
  · rw [Value.ofNonempty] at hv
    split at hv
    · exact absurd hv (by simp)
    · obtain rfl := Option.some.inj hv
      exact reads_dict hordered

end Decoder

end ComponentTree.Json
