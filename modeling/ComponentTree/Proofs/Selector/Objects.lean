/-
# Selectors as texts and as objects

Objects whose members have keys that can be written and texts for values are a chain of steps in two
ways: as a list, and as a text, which has a bracket for each object and blanks between the brackets
(`ObjectText`, `Spaced`).  In a bracket the members stand in any order, each value between marks
that it does not have.

A step takes the members one after the other, from the bracket as they are written and from the
object in the order of its keys, and the first text under `ntype` is its type name.  As no key comes
twice the order does not matter: what the step asks for is said by look-ups in the object alone
(`MembersOf`), so that both ways lead to one chain (`parse_eq_ofJson_objects`).
-/
import ComponentTree.Selector.Form
import ComponentTree.Proofs.Json.Members
import ComponentTree.Proofs.Selector.Rendering
import ComponentTree.Proofs.Selector.Spacing

namespace ComponentTree.Selector

open Json (Value)
open Text

variable {key : String} {d : Dict Value} {s : Step} {t : List Char} {ts : List (List Char)}
  {pairs : List (String × String)} {objects : List (Dict Value)}

/-! ### What the members of an object ask for -/

/-- The step of an object without other values than texts: the text under `ntype` is its type name,
the other members are its constraints. -/
structure MembersOf (d : Dict Value) (s : Step) : Prop where
  typeName : s.typeName.map Value.string = d.get? Component.typeKey
  constraints : ∀ key, s.constraints.get? key =
    if key = Component.typeKey then none else d.get? key

/-- Where no key comes twice, no pair under `ntype` is left once the first is taken out. -/
lemma lookup_remaining (h : (pairs.map (·.1)).Nodup) (key : String) :
    (remaining [] pairs).lookup key =
      if key = Component.typeKey then none else pairs.lookup key := by
  rw [remaining, if_pos rfl]
  induction pairs with
  | nil => simp
  | cons p rest ih =>
    obtain ⟨k, text⟩ := p
    rw [List.map_cons, List.nodup_cons] at h
    by_cases hk : k = Component.typeKey
    · rw [List.eraseP_cons_of_pos (by simpa using hk), Dict.lookup_cons_eq]
      split
      · next heq =>
        refine lookup_eq_none fun p hp hkey => h.1 ?_
        rw [hk, ← heq, ← hkey]
        exact List.mem_map_of_mem (f := (·.1)) hp
      · next hne => rw [if_neg (hk ▸ hne)]
    · rw [List.eraseP_cons_of_neg (by simpa using hk), Dict.lookup_cons_eq, ih h.2,
        Dict.lookup_cons_eq]
      by_cases hkey : key = k
      · simp [hkey, hk]
      · simp [hkey]

/-- **The order of the members does not matter** for what a bracket asks for. -/
theorem asksFor_iff_membersOf (hpairs : (pairs.map constraintOf).Perm d.entries) :
    AsksFor [] pairs s ↔ MembersOf d s := by
  have hget : ∀ key, d.get? key = (pairs.lookup key).map Value.string := by
    intro key
    rw [Dict.get?, ← lookup_eq_of_perm hpairs d.nodup_keys, lookup_constraintOf]
  have hnodup : (pairs.map (·.1)).Nodup := by
    have hkeys := d.nodup_keys
    rwa [Dict.keys, ← (hpairs.map (·.1)).nodup_iff, List.map_map] at hkeys
  have hremaining : ∀ key, ((remaining [] pairs).reverse.lookup key).map Value.string =
      if key = Component.typeKey then none else d.get? key := by
    intro key
    have hsub : (remaining [] pairs).Sublist pairs := by
      rw [remaining, if_pos rfl]
      exact List.eraseP_sublist
    rw [lookup_eq_of_perm (List.reverse_perm _) (hnodup.sublist (hsub.map _)),
      lookup_remaining hnodup, hget]
    split <;> rfl
  constructor
  · rintro ⟨htype, hconstraints⟩
    refine ⟨?_, fun key => (hconstraints key).trans (hremaining key)⟩
    rw [htype, if_pos rfl, hget]
  · rintro ⟨htype, hconstraints⟩
    refine ⟨?_, fun key => (hconstraints key).trans (hremaining key).symm⟩
    rw [hget] at htype
    exact Option.map_injective (fun _ _ => Value.string.inj) htype

lemma ofMembers_map_constraintOf (pairs : List (String × String)) :
    Step.ofMembers (pairs.map constraintOf) = Step.ofTexts [] pairs := by
  rw [Step.ofMembers, List.foldl_map]
  rfl

/-- The step that is made of an object in the order of its keys. -/
lemma membersOf_ofMembers (h : ∀ e ∈ d.entries, ∃ text, e.2 = .string text) :
    MembersOf d (Step.ofMembers d.entries) := by
  obtain ⟨pairs, hpairs⟩ := exists_map_constraintOf h
  have hperm : (pairs.map constraintOf).Perm d.entries := by rw [hpairs]
  refine (asksFor_iff_membersOf hperm).mp (asksFor_iff.mpr ?_)
  rw [hpairs, ofMembers_map_constraintOf]

/-! ### Texts of objects -/

/-- A text of an object with texts for values: a bracket with its members in some order. -/
inductive ObjectText : List Char → Dict Value → Prop
  | bracket {d : Dict Value} {pairs : List (String × String)} {ts : List (List Char)}
      (hpairs : (pairs.map constraintOf).Perm d.entries) (hts : ts.Forall₂ QuotedText pairs) :
      ObjectText (['['] ++ [','].intercalate ts ++ [']']) d

/-- It is a text of the step that is made of the object. -/
lemma ObjectText.stepText (h : ObjectText t d) (hkey : ∀ key ∈ d.keys, WritableKey key)
    (hvalue : ∀ e ∈ d.entries, ∃ text, e.2 = .string text) :
    StepText t (Step.ofMembers d.entries) := by
  cases h with
  | @bracket _ pairs ts hpairs hts =>
    have hkeys : ∀ p ∈ pairs, WritableKey p.1 := by
      intro p hp
      refine hkey p.1 ((hpairs.map (·.1)).mem_iff.mp ?_)
      rw [List.map_map]
      exact List.mem_map_of_mem hp
    have htexts : ts.Forall₂ PairText pairs :=
      ((List.forall₂_and_left _ _).mpr ⟨hkeys, hts.flip⟩).flip.imp fun _ _ h => h.2.pairText h.1
    have hbracket : BracketText (['['] ++ [','].intercalate ts ++ [']']) pairs := by
      cases hts with
      | nil => exact .empty blanks_nil
      | cons => exact .pairs (pairsText_intercalate htexts (by simp))
    have hasks := (asksFor_iff_membersOf hpairs).mpr (membersOf_ofMembers hvalue)
    have := StepText.bracket (by simp) hbracket hasks
    rwa [List.nil_append] at this

/-- An object of what can be written has a text. -/
lemma exists_objectText (h : ∀ e ∈ d.entries, WritableValue e.2) : ∃ t, ObjectText t d := by
  obtain ⟨pairs, hpairs⟩ := exists_map_constraintOf fun e he => (h e he).imp fun _ => And.left
  have htexts : (pairs.map fun p => (renderConstraint (constraintOf p)).toList).Forall₂
      QuotedText pairs := by
    rw [List.forall₂_map_left_iff, List.forall₂_same]
    intro p hp
    obtain ⟨text, heq, hmarks⟩ := h (constraintOf p) (hpairs ▸ List.mem_map_of_mem hp)
    rw [← Value.string.inj heq] at hmarks
    exact quotedText_renderConstraint hmarks
  exact ⟨_, .bracket (by rw [hpairs]) htexts⟩

/-! ### Lists of objects -/

lemma stepsOfItems_objects (index : Nat) (rows : List (List (String × Value))) :
    stepsOfItems index (rows.map .object) = .ok (rows.map Step.ofMembers) := by
  induction rows generalizing index with
  | nil => rfl
  | cons members rest ih =>
    rw [List.map_cons, stepsOfItems, ih]
    rfl

lemma ofJson_rows (rows : List (List (String × Value))) :
    ofJson (.array (rows.map .object)) = .ok ⟨rows.map Step.ofMembers⟩ := by
  rw [ofJson, stepsOfItems_objects]
  rfl

lemma ofJson_objects (objects : List (Dict Value)) :
    ofJson (.array (objects.map Value.ofDict)) =
      .ok ⟨objects.map fun d => Step.ofMembers d.entries⟩ := by
  have h := ofJson_rows (objects.map Dict.entries)
  rwa [List.map_map, List.map_map] at h

/-- Any texts can be put one after the other with blanks between them. -/
lemma exists_spaced (ts : List (List Char)) : ∃ text : String, Spaced ts text.toList := by
  suffices ∃ t, Spaced ts t ∧ Parted t by
    obtain ⟨t, h, -⟩ := this
    exact ⟨String.ofList t, by rwa [String.toList_ofList]⟩
  have hblank : Blanks [' '] := by simp [Blanks, isBlank]
  induction ts with
  | nil => exact ⟨[], .blank blanks_nil, by simp [Parted]⟩
  | cons t ts ih =>
    obtain ⟨rest, hrest, hparted⟩ := ih
    refine ⟨[' '] ++ t ++ rest, .cons hblank hparted hrest, fun x hx => hblank x ?_⟩
    simpa [eq_comm] using hx

/-- **Objects are the same selector as a list and as a text**, in which each has a bracket with its
members in any order, and blanks part the brackets; a single object is it as well on its own.  There
is such a text, and each step has the text under `ntype` for its type name and the other members for
its constraints. -/
theorem parse_eq_ofJson_objects (hkeys : ∀ d ∈ objects, ∀ key ∈ d.keys, WritableKey key)
    (hvalues : ∀ d ∈ objects, ∀ v ∈ d.values, WritableValue v) :
    (∃ (ts : List (List Char)) (text : String),
        ts.Forall₂ ObjectText objects ∧ Spaced ts text.toList) ∧
      ∀ (ts : List (List Char)) (text : String),
        ts.Forall₂ ObjectText objects → Spaced ts text.toList →
          parse text = ofJson (.array (objects.map Value.ofDict)) ∧
          (∀ d, objects = [d] → parse text = ofJson (.ofDict d)) ∧
          ∃ selector, parse text = .ok selector ∧ objects.Forall₂ MembersOf selector.steps := by
  have hwritable : ∀ d ∈ objects, ∀ e ∈ d.entries, WritableValue e.2 :=
    fun d hd e he => hvalues d hd e.2 (List.mem_map_of_mem he)
  have hstring : ∀ d ∈ objects, ∀ e ∈ d.entries, ∃ text, e.2 = .string text :=
    fun d hd e he => (hwritable d hd e he).imp fun _ => And.left
  constructor
  · choose! textOf htextOf using fun d hd => exists_objectText (hwritable d hd)
    obtain ⟨text, hspaced⟩ := exists_spaced (objects.map textOf)
    refine ⟨_, text, ?_, hspaced⟩
    rwa [List.forall₂_map_left_iff, List.forall₂_same]
  · intro ts text hts hspaced
    have hsteps : ts.Forall₂ StepText (objects.map fun d => Step.ofMembers d.entries) := by
      rw [List.forall₂_map_right_iff]
      exact ((List.forall₂_and_left _ _).mpr ⟨fun _ => id, hts.flip⟩).flip.imp fun _ d h =>
        h.2.stepText (hkeys d h.1) (hstring d h.1)
    have hparse : parse text = .ok ⟨objects.map fun d => Step.ofMembers d.entries⟩ :=
      parse_eq_ok_iff.mpr ⟨ts, hsteps, hspaced⟩
    refine ⟨hparse.trans (ofJson_objects objects).symm, ?_, _, hparse, ?_⟩
    · rintro d rfl
      exact hparse
    · rw [List.forall₂_map_right_iff, List.forall₂_same]
      exact fun d hd => membersOf_ofMembers (hstring d hd)

/-- An object with a type name and a value that have a mark each, and one without members. -/
def sampleObjects : List (Dict Value) :=
  [.ofList [("ntype", .string "it's"), ("text", .string " \"ok\", [x=1] ")], ∅]

/-- The sample with the members of the first object the other way round, and with other blanks than
spaces. -/
theorem parse_eq_ofJson_objects_sample :
    (∀ d ∈ sampleObjects, ∀ key ∈ d.keys, WritableKey key) ∧
      (∀ d ∈ sampleObjects, ∀ v ∈ d.values, WritableValue v) ∧
      parse "[text=' \"ok\", [x=1] ',ntype=\"it's\"]\t\n[] " =
        ofJson (.array (sampleObjects.map Value.ofDict)) := by
  have hentries : (Dict.ofList [("ntype", Value.string "it's"),
      ("text", .string " \"ok\", [x=1] ")]).entries =
      [("ntype", .string "it's"), ("text", .string " \"ok\", [x=1] ")] := rfl
  have hnone : (∅ : Dict Value).entries = [] := rfl
  have hkeys : ∀ d ∈ sampleObjects, ∀ key ∈ d.keys, WritableKey key := by
    have hkey : WritableKey "ntype" ∧ WritableKey "text" := by
      refine ⟨⟨by simp, ?_, ?_, ?_⟩, ⟨by simp, ?_, ?_, ?_⟩⟩ <;>
        simp [KeyChar, ValueChar, Mark, isBlank]
    simp only [sampleObjects, Dict.keys, List.forall_mem_cons, hentries, hnone, List.map_cons,
      List.map_nil, List.not_mem_nil, false_implies, implies_true, and_true]
    exact hkey
  have hvalues : ∀ d ∈ sampleObjects, ∀ v ∈ d.values, WritableValue v := by
    simp only [sampleObjects, Dict.values, List.forall_mem_cons, hentries, hnone, List.map_cons,
      List.map_nil, List.not_mem_nil, false_implies, implies_true, and_true]
    exact ⟨⟨_, rfl, .inl (by decide)⟩, ⟨_, rfl, .inr (by decide)⟩⟩
  have hfirst : ObjectText "[text=' \"ok\", [x=1] ',ntype=\"it's\"]".toList
      (.ofList [("ntype", .string "it's"), ("text", .string " \"ok\", [x=1] ")]) := by
    have htext := @QuotedText.quoted '\'' "text" " \"ok\", [x=1] " (.inr rfl) (by decide)
    have htype := @QuotedText.quoted '"' "ntype" "it's" (.inl rfl) (by decide)
    refine .bracket ?_ (.cons htext (.cons htype .nil))
    rw [hentries]
    exact .swap _ _ _
  have hsecond : ObjectText "[]".toList ∅ := .bracket (by rw [hnone]; exact .nil) .nil
  have hspaced : Spaced ["[text=' \"ok\", [x=1] ',ntype=\"it's\"]".toList, "[]".toList]
      "[text=' \"ok\", [x=1] ',ntype=\"it's\"]\t\n[] ".toList := by
    have hlast : Spaced ["[]".toList] "\t\n[] ".toList :=
      @Spaced.cons ['\t', '\n'] _ [' '] [] (by simp [Blanks, isBlank]) (by simp [Parted, isBlank])
        (.blank (by simp [Blanks, isBlank]))
    have hparted : Parted "\t\n[] ".toList := by simp [Parted, isBlank]
    exact .cons blanks_nil hparted hlast
  obtain ⟨-, hall⟩ := parse_eq_ofJson_objects hkeys hvalues
  exact ⟨hkeys, hvalues, (hall _ _ (.cons hfirst (.cons hsecond .nil)) hspaced).1⟩

end ComponentTree.Selector
