/-
# The way up, look-up by look-up

From a component on, each look-up asks for the parent of what the one before has found
(`Source.lookUp`).  In a source that promises nothing these look-ups may go on for ever: the way up
may come back to its start, to the component that it has just left, or to one in between, with the
start on no loop at all.  An ascent ends there, at the first look-up that finds an id for the second
time (`Source.Returns`), and before it tests what it has found.

That it ends is not seen from the links.  The ids that it has passed are ids of the source, each
once, and of these there are only so many (`follows_climb`).
-/
import Mathlib
import ComponentTree.Proofs.Forest.Changes
import ComponentTree.Query.Ascent

namespace ComponentTree

namespace Source

/-- What the look-ups along a link find, one after another, until one finds nothing. -/
def lookUp (s : Source) (link : Option String) : Nat → Option Component
  | 0 => link.bind s.get?
  | k + 1 => (s.lookUp link k).bind fun c => c.parent.bind s.get?

/-- The look-up `k` finds a component with one of the ids of `seen`, or with the id of one that was
found earlier. -/
def Returns (s : Source) (seen : List String) (link : Option String) (k : Nat) : Prop :=
  ∃ c, s.lookUp link k = some c ∧
    (c.id ∈ seen ∨ ∃ i < k, ∃ d, s.lookUp link i = some d ∧ d.id = c.id)

/-- A way up along a link has what the look-ups find before the first that finds nothing or an id
again; and these are no more than there are components with other ids than those of `seen`. -/
structure Follows (s : Source) (seen : List String) (link : Option String) (a : Ancestry) :
    Prop where
  length_le : a.ancestors.length ≤ (s.unseen seen).length
  found : ∀ i < a.ancestors.length,
    a.ancestors[i]? = s.lookUp link i ∧ ¬ s.Returns seen link i
  ends : s.lookUp link a.ancestors.length = none ∧ a.loop = none ∨
    ∃ c, s.lookUp link a.ancestors.length = some c ∧ s.Returns seen link a.ancestors.length ∧
      a.loop = some c.id

/-- An ascent in rounds.  In each round a component is looked up, compared with those passed, and
tested; what was found before are the `hits`. -/
def rounds (s : Source) (test : Component → Bool) (mode : Mode) (seen : List String)
    (hits : List Component) (link : Option String) : Except Failure (List Component) :=
  match h : link.bind s.get? with
  | none => .ok hits
  | some c =>
    if hseen : c.id ∈ seen then .error (.loop c.id)
    else
      have : (s.unseen (c.id :: seen)).length < (s.unseen seen).length :=
        s.length_unseen_lt (let ⟨_, _, hget⟩ := Option.bind_eq_some_iff.mp h; s.mem_pool hget) hseen
      if test c then
        match mode with
        | .first => .ok (hits ++ [c])
        | .all => s.rounds test .all (c.id :: seen) (hits ++ [c]) c.parent
      else s.rounds test mode (c.id :: seen) hits c.parent
termination_by (s.unseen seen).length

variable {s : Source} {seen : List String} {link : Option String} {start c : Component}
  {test : Component → Bool} {mode : Mode} {k n : Nat}

/-! ### Look-ups -/

/-- The look-ups after the first are those along the link of what it has found. -/
lemma lookUp_succ (hc : link.bind s.get? = some c) (k : Nat) :
    s.lookUp link (k + 1) = s.lookUp c.parent k := by
  induction k with
  | zero =>
    show ((link.bind s.get?).bind fun c => c.parent.bind s.get?) = c.parent.bind s.get?
    rw [hc, Option.bind_some]
  | succ k ih => rw [lookUp, ih, lookUp]

/-- After a look-up that finds nothing there is nothing. -/
lemma lookUp_eq_none_of_le (h : s.lookUp link n = none) (hle : n ≤ k) :
    s.lookUp link k = none := by
  induction hle with
  | refl => exact h
  | step _ ih => rw [lookUp, ih, Option.bind_none]

/-- Seen from the first component found, its id is one of those passed. -/
lemma returns_succ_iff (hc : link.bind s.get? = some c) :
    s.Returns seen link (k + 1) ↔ s.Returns (c.id :: seen) c.parent k := by
  rw [Returns, Returns, lookUp_succ hc]
  refine exists_congr fun a => and_congr_right fun _ => ?_
  constructor
  · rintro (hseen | ⟨i, hi, d, hd, hid⟩)
    · exact .inl (List.mem_cons_of_mem _ hseen)
    · cases i with
      | zero =>
        obtain rfl : c = d := Option.some.inj (hc.symm.trans hd)
        exact .inl (hid ▸ List.mem_cons_self)
      | succ i =>
        rw [lookUp_succ hc] at hd
        exact .inr ⟨i, Nat.lt_of_succ_lt_succ hi, d, hd, hid⟩
  · rintro (hseen | ⟨i, hi, d, hd, hid⟩)
    · rcases List.mem_cons.mp hseen with hid | hseen
      · exact .inr ⟨0, Nat.succ_pos k, c, hc, hid.symm⟩
      · exact .inl hseen
    · rw [← lookUp_succ hc] at hd
      exact .inr ⟨i + 1, Nat.succ_lt_succ hi, d, hd, hid⟩

/-- **The components on the way up are what the look-ups find.** -/
theorem follows_climb (s : Source) (seen : List String) (link : Option String) :
    s.Follows seen link (s.climb seen link) := by
  fun_induction climb s seen link with
  | case1 seen link hnone => exact ⟨Nat.zero_le _, by simp, .inl ⟨hnone, rfl⟩⟩
  | case2 seen link c hc hseen =>
    exact ⟨Nat.zero_le _, by simp, .inr ⟨c, hc, ⟨c, hc, .inl hseen⟩, rfl⟩⟩
  | case3 seen link c hc hseen hlt above ih =>
    -- what the look-ups from `c` on find, counted from the link to `c`
    refine ⟨Nat.succ_le_of_lt (Nat.lt_of_le_of_lt ih.length_le hlt), fun i hi => ?_, ?_⟩
    · cases i with
      | zero =>
        refine ⟨hc.symm, ?_⟩
        rintro ⟨d, hd, hmem | ⟨i, hi, -⟩⟩
        · obtain rfl : c = d := Option.some.inj (hc.symm.trans hd)
          exact hseen hmem
        · omega
      | succ i =>
        rw [List.getElem?_cons_succ, lookUp_succ hc, returns_succ_iff hc]
        exact ih.found i (Nat.lt_of_succ_lt_succ hi)
    · rw [List.length_cons, lookUp_succ hc, returns_succ_iff hc]
      exact ih.ends

lemma length_unseen_le (s : Source) (seen : List String) :
    (s.unseen seen).length ≤ s.pool.length := List.length_filter_le _ _

/-! ### Rounds -/

lemma climb_of_eq_none (h : link.bind s.get? = none) : s.climb seen link = ⟨[], none⟩ := by
  rw [climb]
  split
  · rfl
  · next h' => rw [h] at h'; exact absurd h' (by simp)

lemma climb_of_mem (h : link.bind s.get? = some c) (hseen : c.id ∈ seen) :
    s.climb seen link = ⟨[], some c.id⟩ := by
  rw [climb]
  split
  · next h' => rw [h] at h'; exact absurd h' (by simp)
  · next d h' =>
    obtain rfl : c = d := Option.some.inj (h.symm.trans h')
    rw [dif_pos hseen]

lemma climb_of_not_mem (h : link.bind s.get? = some c) (hseen : c.id ∉ seen) :
    s.climb seen link = ⟨c :: (s.climb (c.id :: seen) c.parent).ancestors,
      (s.climb (c.id :: seen) c.parent).loop⟩ := by
  rw [climb]
  split
  · next h' => rw [h] at h'; exact absurd h' (by simp)
  · next d h' =>
    obtain rfl : c = d := Option.some.inj (h.symm.trans h')
    rw [dif_neg hseen]

end Source

namespace Ancestry

variable {test : Component → Bool} {c : Component} {ancestors : List Component}
  {loop : Option String}

/-- A component that does not pass the test is passed over. -/
lemma select_cons_of_not (hc : ¬ test c = true) (mode : Mode) :
    (⟨c :: ancestors, loop⟩ : Ancestry).select test mode =
      (⟨ancestors, loop⟩ : Ancestry).select test mode := by
  cases mode with
  | all => rw [select, select, List.filter_cons_of_neg hc]
  | first => rw [select, select, List.find?_cons_of_neg hc]

/-- A component that passes it comes before all that is found above it. -/
lemma select_all_cons (hc : test c = true) :
    (⟨c :: ancestors, loop⟩ : Ancestry).select test .all =
      ((⟨ancestors, loop⟩ : Ancestry).select test .all).map (c :: ·) := by
  rw [select, select, List.filter_cons_of_pos hc]
  cases loop <;> rfl

lemma select_first_cons (hc : test c = true) :
    (⟨c :: ancestors, loop⟩ : Ancestry).select test .first = .ok [c] := by
  rw [select, List.find?_cons_of_pos hc]

end Ancestry

namespace Source

variable {s : Source} {seen : List String} {link : Option String} {start c : Component}
  {test : Component → Bool} {mode : Mode} {k n : Nat}

/-- The rounds from a link on find what the way up along it has, behind what was found before. -/
lemma rounds_eq (s : Source) (test : Component → Bool) (mode : Mode) (seen : List String)
    (hits : List Component) (link : Option String) : s.rounds test mode seen hits link =
      ((s.climb seen link).select test mode).map (hits ++ ·) := by
  fun_induction rounds s test mode seen hits link with
  | case1 mode seen hits link hnone =>
    rw [climb_of_eq_none hnone]
    cases mode <;> simp [Ancestry.select, Except.map]
  | case2 mode seen hits link c hc hseen =>
    rw [climb_of_mem hc hseen]
    cases mode <;> rfl
  | case3 seen hits link c hc hseen _ htest =>
    rw [climb_of_not_mem hc hseen, Ancestry.select_first_cons htest]
    rfl
  | case4 seen hits link c hc hseen _ htest ih =>
    rw [climb_of_not_mem hc hseen, Ancestry.select_all_cons htest, ih]
    cases (s.climb (c.id :: seen) c.parent).select test .all with
    | error e => rfl
    | ok found => exact congrArg Except.ok (List.append_cons hits c found).symm
  | case5 mode seen hits link c hc hseen _ htest ih =>
    rw [climb_of_not_mem hc hseen, Ancestry.select_cons_of_not htest, ih]

/-- **An ascent is made in rounds.** -/
theorem ascend_eq_rounds (s : Source) (test : Component → Bool) (mode : Mode)
    (start : Component) :
    s.ascend test mode start = s.rounds test mode [start.id] [] start.parent := by
  rw [rounds_eq, ascend, ancestry]
  cases (s.climb [start.id] start.parent).select test mode <;> rfl

/-! ### How an ascent ends -/

/-- Some look-up finds nothing or an id again, and not after more than there are components. -/
lemma exists_end (s : Source) (start : Component) : ∃ n ≤ s.pool.length,
    s.lookUp start.parent n = none ∨ s.Returns [start.id] start.parent n := by
  have hway := s.follows_climb [start.id] start.parent
  refine ⟨_, hway.length_le.trans (s.length_unseen_le _), ?_⟩
  rcases hway.ends with ⟨hnone, -⟩ | ⟨c, -, hreturns, -⟩
  · exact .inl hnone
  · exact .inr hreturns

/-- Where no look-up finds an id again, they come to an end, and all that they find is ascended. -/
lemma ascend_of_not_returns (hnot : ∀ k, ¬ s.Returns [start.id] start.parent k)
    (test : Component → Bool) : ∃ way : List Component,
      (∀ k, way[k]? = s.lookUp start.parent k) ∧
        s.ascend test .all start = .ok (way.filter test) ∧
        s.ascend test .first start = .ok (way.find? test).toList := by
  have hway := s.follows_climb [start.id] start.parent
  rcases hway.ends with ⟨hnone, hloop⟩ | ⟨c, -, hreturns, -⟩
  · refine ⟨(s.climb [start.id] start.parent).ancestors, fun k => ?_, ?_, ?_⟩
    · by_cases hk : k < (s.climb [start.id] start.parent).ancestors.length
      · exact (hway.found k hk).1
      · have hle := Nat.not_lt.mp hk
        rw [List.getElem?_eq_none hle, lookUp_eq_none_of_le hnone hle]
    · rw [ascend, ancestry, Ancestry.select, hloop]
    · rw [ascend, ancestry, Ancestry.select, hloop]
      cases (s.climb [start.id] start.parent).ancestors.find? test <;> rfl
  · exact absurd hreturns (hnot _)

/-- Where a look-up finds an id again, the first that does ends the ascent. -/
lemma ascend_of_returns (hc : s.lookUp start.parent n = some c)
    (hreturns : s.Returns [start.id] start.parent n)
    (hbefore : ∀ i < n, ¬ s.Returns [start.id] start.parent i) (test : Component → Bool) :
    ∃ way : List Component, way.length = n ∧ (∀ i < n, way[i]? = s.lookUp start.parent i) ∧
      s.ascend test .all start = .error (.loop c.id) ∧
      s.ascend test .first start =
        match way.find? test with
        | some a => .ok [a]
        | none => .error (.loop c.id) := by
  obtain ⟨-, hfound, hend⟩ := s.follows_climb [start.id] start.parent
  set a := s.climb [start.id] start.parent with ha
  -- the way is as long as there are look-ups before
  have hn : a.ancestors.length = n := by
    rcases Nat.lt_trichotomy a.ancestors.length n with hlt | heq | hgt
    · exfalso
      rcases hend with ⟨hnone, -⟩ | ⟨d, -, hreturns', -⟩
      · rw [lookUp_eq_none_of_le hnone hlt.le] at hc
        exact absurd hc (by simp)
      · exact hbefore _ hlt hreturns'
    · exact heq
    · exact absurd hreturns (hfound n hgt).2
  rw [hn] at hfound hend
  have hloop : a.loop = some c.id := by
    rcases hend with ⟨hnone, -⟩ | ⟨d, hd, -, hloop⟩
    · rw [hnone] at hc
      exact absurd hc (by simp)
    · rw [hloop, Option.some.inj (hc.symm.trans hd)]
  refine ⟨a.ancestors, hn, fun i hi => (hfound i hi).1, ?_, ?_⟩
  · rw [ascend, ancestry, ← ha, Ancestry.select, hloop]
  · rw [ascend, ancestry, ← ha, Ancestry.select, hloop]
    cases a.ancestors.find? test <;> rfl

/-- **What an ascent comes to.**  In every source and from every start, be it in the source or not,
an ascent goes in rounds from one look-up to the next, and after no more of them than there are
components one finds nothing or an id for the second time.  If none finds an id for the second time,
what they find is a finite way, and the ascent collects what passes the test on it, or the first
that does.  If one does, the first of these ends the ascent: to collect all fails with that id,
though the component itself might pass, and the first that passes the test is found if it lies
before. -/
theorem ascend_ends_at_return (s : Source) (start : Component) (test : Component → Bool) :
    (∀ mode, s.ascend test mode start = s.rounds test mode [start.id] [] start.parent) ∧
      (∃ n ≤ s.pool.length,
        s.lookUp start.parent n = none ∨ s.Returns [start.id] start.parent n) ∧
      ((∀ k, ¬ s.Returns [start.id] start.parent k) → ∃ way : List Component,
        (∀ k, way[k]? = s.lookUp start.parent k) ∧
          s.ascend test .all start = .ok (way.filter test) ∧
          s.ascend test .first start = .ok (way.find? test).toList) ∧
      ∀ n c, s.lookUp start.parent n = some c → s.Returns [start.id] start.parent n →
        (∀ i < n, ¬ s.Returns [start.id] start.parent i) →
        ∃ way : List Component, way.length = n ∧ (∀ i < n, way[i]? = s.lookUp start.parent i) ∧
          s.ascend test .all start = .error (.loop c.id) ∧
          s.ascend test .first start =
            match way.find? test with
            | some a => .ok [a]
            | none => .error (.loop c.id) :=
  ⟨fun mode => s.ascend_eq_rounds test mode start, s.exists_end start,
    fun hnot => ascend_of_not_returns hnot test,
    fun _ _ hc hreturns hbefore => ascend_of_returns hc hreturns hbefore test⟩

/-- A form and a page, each the parent of the other. -/
def sampleRing : Source :=
  .ofList [Forest.plain "form" (some "page") "panel", Forest.plain "page" (some "form") "panel"]

/-- A mail on the form that is not in the source. -/
def sampleMail : Component := Forest.plain "mail" (some "form") "field"

/-- From the mail on, the look-ups find the form, the page and the form again.  So not all panels
above it can be collected, but the first is found; and in the search for a field the loop is met
with. -/
theorem ascend_ends_at_return_sample :
    sampleRing.ascend (·.typeName? == some "panel") .all sampleMail = .error (.loop "form") ∧
      sampleRing.ascend (·.typeName? == some "panel") .first sampleMail =
        .ok [Forest.plain "form" (some "page") "panel"] ∧
      sampleRing.ascend (·.typeName? == some "field") .first sampleMail =
        .error (.loop "form") := by
  have hform : sampleRing.lookUp sampleMail.parent 0 =
      some (Forest.plain "form" (some "page") "panel") := by cbv
  have hpage : sampleRing.lookUp sampleMail.parent 1 =
      some (Forest.plain "page" (some "form") "panel") := by cbv
  have hagain : sampleRing.lookUp sampleMail.parent 2 =
      some (Forest.plain "form" (some "page") "panel") := by cbv
  have hreturns : sampleRing.Returns [sampleMail.id] sampleMail.parent 2 :=
    ⟨_, hagain, .inr ⟨0, Nat.zero_lt_two, _, hform, rfl⟩⟩
  have hbefore : ∀ i < 2, ¬ sampleRing.Returns [sampleMail.id] sampleMail.parent i := by
    rintro i hi ⟨c, hc, hseen | ⟨j, hj, d, hd, hid⟩⟩
    · obtain rfl | rfl : i = 0 ∨ i = 1 := by omega
      · obtain rfl := Option.some.inj (hform.symm.trans hc)
        exact absurd hseen (by decide)
      · obtain rfl := Option.some.inj (hpage.symm.trans hc)
        exact absurd hseen (by decide)
    · obtain ⟨rfl, rfl⟩ : j = 0 ∧ i = 1 := by omega
      obtain rfl := Option.some.inj (hpage.symm.trans hc)
      obtain rfl := Option.some.inj (hform.symm.trans hd)
      exact absurd hid (by decide)
  have hways : ∀ way : List Component, way.length = 2 →
      (∀ i < 2, way[i]? = sampleRing.lookUp sampleMail.parent i) →
      way = [Forest.plain "form" (some "page") "panel", Forest.plain "page" (some "form") "panel"]
      := by
    intro way hlength hway
    obtain ⟨a, b, rfl⟩ := List.length_eq_two.mp hlength
    rw [Option.some.inj ((hway 0 Nat.zero_lt_two).trans hform),
      Option.some.inj ((hway 1 Nat.one_lt_two).trans hpage)]
  obtain ⟨-, -, -, hpanels⟩ :=
    ascend_ends_at_return sampleRing sampleMail (·.typeName? == some "panel")
  obtain ⟨way, hlength, hway, hall, hfirst⟩ := hpanels 2 _ hagain hreturns hbefore
  obtain ⟨-, -, -, hfields⟩ :=
    ascend_ends_at_return sampleRing sampleMail (·.typeName? == some "field")
  obtain ⟨way', hlength', hway', -, hnone⟩ := hfields 2 _ hagain hreturns hbefore
  obtain rfl := hways way hlength hway
  obtain rfl := hways way' hlength' hway'
  exact ⟨hall, hfirst, hnone⟩

end Source

end ComponentTree
