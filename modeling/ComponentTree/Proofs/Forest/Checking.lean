/-
# The check of a link, id by id

To check a link from `id` to a parent is to go up from the parent, id by id, until `id` is met or
there is no further link (`Checks`).  Nothing is remembered on the way and no number of ids is too
many, so round a loop that `id` is not on the check would go for ever (`not_checks_of_loop`).  That
it ends is due to what it keeps: in a table without loops every way up is shorter than the table is
long, and the last id is the only one on it that may be without a component.

Where the check ends, it is exact whatever the table is, and it does what `Forest.checkLink` does
(`Checks.eq_checkLink`).  That one looks for the id on the trail of the parent, which uses every
component once and so has an end in any table; in a table without loops the check visits the first
ids of that trail (`Checks.visited_prefix`).
-/
import Mathlib
import ComponentTree.Proofs.Forest.Subtree

namespace ComponentTree

namespace Forest

open Relation (ReflTransGen TransGen)

/-- The check of a link from `id` to `parent`, when it has come to an id: it visits these ids from
there on, one after another, and ends with this result. -/
inductive Checks (table : Dict Component) (id parent : String) :
    String → List String → Except Refusal Unit → Prop
  /-- The id is met. -/
  | met : Checks table id parent id [id] (.error (.loop id parent))
  /-- It is another id, and there is no further link. -/
  | top {current : String} (hne : current ≠ id) (hlink : ∀ next, ¬ Linked table current next) :
      Checks table id parent current [current] (.ok ())
  /-- It is another id, and the check goes on along its link. -/
  | up {current next : String} {visited : List String} {result : Except Refusal Unit}
      (hne : current ≠ id) (link : Linked table current next)
      (rest : Checks table id parent next visited result) :
      Checks table id parent current (current :: visited) result

variable {f : Forest} {table : Dict Component} {id parent current a b : String} {n : Nat}
  {visited visited' : List String} {result result' : Except Refusal Unit}

/-! ### How a check ends, in any table -/

/-- There is one way for a check to go. -/
lemma Checks.unique (h : Checks table id parent current visited result)
    (h' : Checks table id parent current visited' result') :
    visited' = visited ∧ result' = result := by
  induction h generalizing visited' result' with
  | met =>
    cases h' with
    | met => exact ⟨rfl, rfl⟩
    | top hne _ => exact absurd rfl hne
    | up hne _ _ => exact absurd rfl hne
  | top hne hlink =>
    cases h' with
    | met => exact absurd rfl hne
    | top _ _ => exact ⟨rfl, rfl⟩
    | up _ link _ => exact absurd link (hlink _)
  | up hne link _ ih =>
    cases h' with
    | met => exact absurd rfl hne
    | top _ hlink => exact absurd link (hlink _)
    | up _ link' rest' =>
      obtain ⟨rfl, rfl⟩ := ih (link'.eq_of_linked link ▸ rest')
      exact ⟨rfl, rfl⟩

/-- **A check that ends is exact**: it fails if the id is above where it began, and then with the
link that is checked. -/
theorem Checks.result_cases (h : Checks table id parent current visited result) :
    result = .error (.loop id parent) ∧ ReflTransGen (Linked table) current id ∨
      result = .ok () ∧ ¬ ReflTransGen (Linked table) current id := by
  induction h with
  | met => exact .inl ⟨rfl, .refl⟩
  | top hne hlink =>
    refine .inr ⟨rfl, fun hreach => ?_⟩
    exact hne ((reach_iff_eq_of_not_linked hlink).mp hreach).symm
  | up hne link _ ih =>
    rcases ih with ⟨hresult, hreach⟩ | ⟨hresult, hnot⟩
    · exact .inl ⟨hresult, .head link hreach⟩
    · refine .inr ⟨hresult, fun hreach => ?_⟩
      rcases ReflTransGen.cases_head hreach with heq | ⟨next, link', rest⟩
      · exact hne heq
      · exact hnot (link'.eq_of_linked link ▸ rest)

/-- Round a loop that the id is not on, a check does not end. -/
theorem not_checks_of_loop (hloop : TransGen (Linked table) current current)
    (hid : ¬ ReflTransGen (Linked table) current id) :
    ¬ Checks table id parent current visited result := by
  intro h
  induction h with
  | met => exact hid .refl
  | top _ hlink =>
    obtain ⟨next, link, -⟩ := TransGen.head'_iff.mp hloop
    exact hlink next link
  | up _ link _ ih =>
    -- the loop may as well be entered one link further up
    obtain ⟨next, link', back⟩ := TransGen.head'_iff.mp hloop
    obtain rfl := link'.eq_of_linked link
    exact ih (.tail' back link) fun h => hid (.head link h)

/-- A check that ends has the result of the check by the trail of the parent. -/
theorem Checks.eq_checkLink (h : Checks f.table id parent parent visited result) :
    result = f.checkLink id (some parent) := by
  rcases h.result_cases with ⟨rfl, hreach⟩ | ⟨rfl, hreach⟩
  · rw [checkLink, if_pos (closesLoop_iff.mpr hreach)]
  · rw [checkLink, if_neg (mt closesLoop_iff.mp hreach)]

/-! ### The trail, id by id -/

lemma trail_of_not_linked (h : ∀ b, ¬ Linked table a b) : trail table a = [a] := by
  rw [trail]
  split
  · rfl
  · next c hc =>
    split
    · rfl
    · next parent hparent => exact absurd ⟨c, hc, hparent⟩ (h parent)

lemma trail_of_linked (link : Linked table a b) :
    trail table a = a :: trail (table.erase a) b := by
  obtain ⟨c, hc, hb⟩ := link
  rw [trail]
  split
  · next h => exact absurd (hc.symm.trans h) (by simp)
  · next d hd =>
    obtain rfl : c = d := Option.some.inj (hc.symm.trans hd)
    split
    · next h => exact absurd (hb.symm.trans h) (by simp)
    · next parent hparent =>
      obtain rfl : b = parent := Option.some.inj (hb.symm.trans hparent)
      rfl

lemma exists_trail_eq_cons (table : Dict Component) (a : String) :
    ∃ rest, trail table a = a :: rest := by
  by_cases hlink : ∃ b, Linked table a b
  · obtain ⟨b, link⟩ := hlink
    exact ⟨_, trail_of_linked link⟩
  · exact ⟨[], trail_of_not_linked (not_exists.mp hlink)⟩

/-- A trail stays when a component is taken out that it does not come by. -/
lemma trail_erase {table : Dict Component} {a : String}
    (h : ¬ ReflTransGen (Linked table) a id) : trail (table.erase id) a = trail table a := by
  have hne : a ≠ id := by
    rintro rfl
    exact h .refl
  by_cases hlink : ∃ b, Linked table a b
  · obtain ⟨b, link⟩ := hlink
    have hsize : (table.erase a).size < table.size := by
      obtain ⟨c, hc, -⟩ := link
      exact table.size_erase_lt hc
    have hrest : ¬ ReflTransGen (Linked (table.erase a)) b id := fun hb =>
      h (.head link (reach_of_reach_erase hb))
    rw [trail_of_linked link, trail_of_linked (linked_erase.mpr ⟨hne, link⟩), Dict.erase_comm,
      trail_erase hrest]
  · have hnone : ∀ b, ¬ Linked table a b := not_exists.mp hlink
    rw [trail_of_not_linked hnone, trail_of_not_linked fun b hb => hnone b (linked_erase.mp hb).2]
termination_by table.size

/-- Without loops, nothing has to be taken out to go on. -/
lemma Acyclic.trail_eq_cons (hacyclic : Acyclic table) (link : Linked table a b) :
    trail table a = a :: trail table b := by
  rw [trail_of_linked link, trail_erase (hacyclic.not_reach_of_linked link)]

/-- **A check visits the first ids of the trail.** -/
theorem Checks.visited_prefix (h : Checks table id parent current visited result)
    (hacyclic : Acyclic table) : visited <+: trail table current := by
  induction h with
  | met =>
    obtain ⟨rest, hrest⟩ := exists_trail_eq_cons table id
    exact ⟨rest, hrest.symm⟩
  | top _ hlink => rw [trail_of_not_linked hlink]
  | up _ link _ ih =>
    rw [hacyclic.trail_eq_cons link]
    exact (List.prefix_cons_inj _).mpr ih

/-! ### That a check ends, in a table without loops -/

/-- From wherever it has come to, a check ends: the links that it has gone up are no more than there
are components. -/
lemma exists_checks (hacyclic : Acyclic table) {n : Nat} {current : String}
    (hclimb : Climb table n parent current) :
    ∃ visited result, Checks table id parent current visited result := by
  by_cases hid : current = id
  · subst hid
    exact ⟨_, _, .met⟩
  by_cases hlink : ∃ next, Linked table current next
  · obtain ⟨next, link⟩ := hlink
    have hnext : Climb table (n + 1) parent next := climb_succ_iff.mpr ⟨current, hclimb, link⟩
    have hle : n + 1 ≤ table.size := hnext.le_size hacyclic
    obtain ⟨visited, result, hrest⟩ := exists_checks hacyclic hnext
    exact ⟨_, _, .up hid link hrest⟩
  · exact ⟨_, _, .top hid (not_exists.mp hlink)⟩
termination_by table.size - n

/-- The more links a check has gone up, the fewer ids it visits from there on. -/
lemma Checks.length_le (h : Checks table id parent current visited result)
    (hacyclic : Acyclic table) (hclimb : Climb table n a current) :
    n + visited.length ≤ table.size + 1 := by
  induction h generalizing n with
  | met => exact Nat.succ_le_succ (hclimb.le_size hacyclic)
  | top _ _ => exact Nat.succ_le_succ (hclimb.le_size hacyclic)
  | up _ link _ ih =>
    have := ih (climb_succ_iff.mpr ⟨_, hclimb, link⟩)
    rw [List.length_cons]
    omega

/-- **The check of a link ends, and is exact.**  In every forest that is reached by changes, and for
every id and every parent, be they registered or not, the check goes one way and ends.  It visits the
first ids of the trail of the parent, and at most one id more than there are components; and it fails
exactly if the id is the parent or is reached from it along parent links, each time with this id and
this parent. -/
theorem check_ends_and_exact (changes : List Change) (id parent : String) :
    ∃ visited, (∀ visited' result,
        Checks (run changes).table id parent parent visited' result ↔
          visited' = visited ∧ result = (run changes).checkLink id (some parent)) ∧
      visited <+: trail (run changes).table parent ∧
      visited.length ≤ (run changes).size + 1 ∧
      ∀ r, (run changes).checkLink id (some parent) = .error r ↔
        r = .loop id parent ∧
          (id = parent ∨ TransGen (Linked (run changes).table) parent id) := by
  have hf := wellFormed_run changes
  obtain ⟨visited, result, hcheck⟩ :
      ∃ visited result, Checks (run changes).table id parent parent visited result :=
    exists_checks hf.acyclic (.here parent)
  obtain rfl := hcheck.eq_checkLink
  refine ⟨visited, fun visited' result' => ⟨hcheck.unique, ?_⟩, hcheck.visited_prefix hf.acyclic,
    ?_, fun r => ?_⟩
  · rintro ⟨rfl, rfl⟩
    exact hcheck
  · have hlength := hcheck.length_le hf.acyclic (.here parent)
    rwa [Nat.zero_add, hf.size_table] at hlength
  · rw [checkLink_eq_error, ← Relation.reflTransGen_iff_eq_or_transGen]
    simp

/-- The forest with the page alone. -/
def sampleAlone : Forest := run [.register samplePage]

/-- With the page alone, a link to it is checked at the page and at its parent, which is not there:
one id more than there are components.  A link from the page to itself is refused. -/
theorem check_ends_and_exact_sample :
    Checks sampleAlone.table "note" "page" "page" ["page", "window"] (.ok ()) ∧
      sampleAlone.size = 1 ∧
      sampleAlone.checkLink "note" (some "page") = .ok () ∧
      sampleAlone.checkLink "page" (some "page") = .error (.loop "page" "page") := by
  have hpage : sampleAlone.table.get? "page" = some samplePage := by cbv
  have hwindow : sampleAlone.table.get? "window" = none := by cbv
  have hcheck : Checks sampleAlone.table "note" "page" "page" ["page", "window"] (.ok ()) := by
    refine .up (by decide) ((linked_of_get? hpage).mpr rfl) (.top (by decide) fun next => ?_)
    exact not_linked_of_get?_eq_none hwindow
  obtain ⟨_, hruns, -, -, -⟩ := check_ends_and_exact [.register samplePage] "note" "page"
  obtain ⟨_, -, -, -, hfails⟩ := check_ends_and_exact [.register samplePage] "page" "page"
  exact ⟨hcheck, by cbv, ((hruns _ _).mp hcheck).2.symm, (hfails _).mpr ⟨rfl, .inl rfl⟩⟩

end Forest

end ComponentTree
