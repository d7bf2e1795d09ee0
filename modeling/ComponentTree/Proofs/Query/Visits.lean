/-
# The visits of a descent

A descent visits its start at depth 0 and the children of what it visits one level deeper.  Which
visits it makes depends on how earlier ones end: a row of visits goes on past one of them only if
that has not failed and, where the first component is looked for, has found nothing
(`Mode.Passes`).  `Source.Visits` follows the visits of a descent, and `Tree.Searches` the descents
of a chain of steps.

With that it can be said where a walk fails and where it finds something, in both modes at once: a
visit fails exactly by coming to a component one level beyond the limit, and it finds only what it
comes to.  So a bound on the depth of visits is also a bound beyond which a limit does no harm.
-/
import ComponentTree.Outcome
import ComponentTree.Query.Tree
import ComponentTree.Proofs.Query.Unfolding

namespace ComponentTree

open Selector (Form Step)

namespace Mode

variable {mode : Mode} {visit : Component → Query (List Component)} {c : Component}
  {cs rest hits : List Component} {e : Failure}

/-- After this visit the next of the row is made. -/
def Passes (mode : Mode) (q : Query (List Component)) : Prop :=
  ∃ hits, q.outcome = .ok hits ∧ (mode = .first → hits = [])

/-- A row of visits comes to `c`: it passes all that are before. -/
def Comes (mode : Mode) (visit : Component → Query (List Component)) (cs : List Component)
    (c : Component) : Prop :=
  ∃ earlier later, cs = earlier ++ c :: later ∧ ∀ d ∈ earlier, mode.Passes (visit d)

lemma Comes.mem (h : mode.Comes visit cs c) : c ∈ cs := by
  obtain ⟨earlier, later, rfl, -⟩ := h
  exact List.mem_append_right earlier List.mem_cons_self

lemma comes_head : mode.Comes visit (c :: rest) c := ⟨[], rest, rfl, by simp⟩

lemma Comes.cons {d : Component} (hc : mode.Passes (visit c)) (h : mode.Comes visit rest d) :
    mode.Comes visit (c :: rest) d := by
  obtain ⟨earlier, later, rfl, hearlier⟩ := h
  refine ⟨c :: earlier, later, rfl, fun b hb => ?_⟩
  rcases List.mem_cons.mp hb with rfl | hb
  · exact hc
  · exact hearlier b hb

/-- A row of visits goes on where it does not end. -/
lemma passes_of_not (hc : (visit c).outcome = .ok hits) (hgo : ¬(mode = .first ∧ hits ≠ [])) :
    mode.Passes (visit c) :=
  ⟨hits, hc, fun hfirst => by simpa [hfirst] using hgo⟩

/-- A row of visits fails where one that it comes to does. -/
lemma exists_comes_of_gather_eq_error (h : (mode.gather visit cs).outcome = .error e) :
    ∃ c, mode.Comes visit cs c ∧ (visit c).outcome = .error e := by
  induction cs with
  | nil => exact absurd h (by simp [gather])
  | cons c rest ih =>
    rw [outcome_gather_cons] at h
    rcases Outcome.bind_eq_error.mp h with hc | ⟨here, hc, h⟩
    · exact ⟨c, comes_head, hc⟩
    · split at h
      · exact absurd h (by simp)
      · next hgo =>
        have hpasses : mode.Passes (visit c) := passes_of_not hc hgo
        rcases Outcome.bind_eq_error.mp h with h | ⟨more, -, h⟩
        · obtain ⟨d, hd, hfail⟩ := ih h
          exact ⟨d, hd.cons hpasses, hfail⟩
        · exact absurd h (by simp)

/-- What a row of visits finds is found by one that it comes to. -/
lemma exists_comes_of_mem (h : (mode.gather visit cs).outcome = .ok hits) {d : Component}
    (hd : d ∈ hits) :
    ∃ c here, mode.Comes visit cs c ∧ (visit c).outcome = .ok here ∧ d ∈ here := by
  induction cs generalizing hits with
  | nil =>
    obtain rfl := Except.ok.inj h
    exact absurd hd (by simp)
  | cons c rest ih =>
    rw [outcome_gather_cons] at h
    obtain ⟨here, hc, h⟩ := Outcome.bind_eq_ok.mp h
    split at h
    · obtain rfl := Except.ok.inj h
      exact ⟨c, here, comes_head, hc, hd⟩
    · next hgo =>
      obtain ⟨more, hmore, happend⟩ := Outcome.bind_eq_ok.mp h
      obtain rfl := Except.ok.inj happend
      rcases List.mem_append.mp hd with hd | hd
      · exact ⟨c, here, comes_head, hc, hd⟩
      · have hpasses : mode.Passes (visit c) := passes_of_not hc hgo
        obtain ⟨b, found, hb, hfound, hd⟩ := ih hmore hd
        exact ⟨b, found, hb.cons hpasses, hfound, hd⟩

end Mode

namespace Source

/-- A visit of a component at one depth makes a visit of another at a depth: it is that visit, or it
goes on to the children and one of their visits makes it. -/
inductive Visits (s : Source) (test : Component → Bool) (mode : Mode) (limit : Nat) :
    Nat → Component → Nat → Component → Prop
  | self (depth : Nat) (c : Component) : Visits s test mode limit depth c depth c
  | child {depth k : Nat} {c child d : Component} (hlimit : depth ≤ limit)
      (hgo : mode = .first → test c = false)
      (hcomes : mode.Comes (s.visit test mode limit (limit - depth)) (s.childrenOf c.id) child)
      (hrest : Visits s test mode limit (depth + 1) child k d) :
      Visits s test mode limit depth c k d

variable {s : Source} {test : Component → Bool} {mode : Mode} {limit levels depth k : Nat}
  {c d : Component} {hits : List Component} {e : Failure}

/-- What lies at a depth is found in the unfolding. -/
lemma Visits.mem_generation (h : s.Visits test mode limit depth c k d) :
    ∃ n, k = depth + n ∧ d ∈ s.generation n c := by
  induction h with
  | self depth c => exact ⟨0, rfl, List.mem_singleton_self c⟩
  | child _ _ hcomes _ ih =>
    obtain ⟨n, rfl, hd⟩ := ih
    exact ⟨n + 1, by omega, List.mem_flatMap.mpr ⟨_, hcomes.mem, hd⟩⟩

/-- **A visit fails by coming to a component one level beyond the limit.** -/
theorem visits_of_visit_eq_error (hlevels : depth + levels = limit + 1)
    (h : (s.visit test mode limit levels c).outcome = .error e) :
    ∃ d, e = .tooDeep d.id limit ∧ s.Visits test mode limit depth c (limit + 1) d := by
  induction levels generalizing depth c with
  | zero =>
    obtain rfl : depth = limit + 1 := hlevels
    exact ⟨c, (Except.error.inj h).symm, .self _ c⟩
  | succ levels ih =>
    rw [outcome_visit_succ] at h
    split at h
    · exact absurd h (by simp)
    · next hgo =>
      rcases Outcome.bind_eq_error.mp h with h | ⟨below, -, h⟩
      · obtain ⟨child, hcomes, hchild⟩ := Mode.exists_comes_of_gather_eq_error h
        have hnext : depth + 1 + levels = limit + 1 := by omega
        obtain ⟨d, he, hd⟩ := ih hnext hchild
        obtain rfl : levels = limit - depth := by omega
        exact ⟨d, he, .child (by omega) (fun hfirst => by simpa [hfirst] using hgo) hcomes hd⟩
      · exact absurd h (by simp)

/-- **A visit finds only what it comes to.** -/
theorem visits_of_mem (hlevels : depth + levels = limit + 1)
    (h : (s.visit test mode limit levels c).outcome = .ok hits) (hd : d ∈ hits) :
    ∃ k, s.Visits test mode limit depth c k d := by
  induction levels generalizing depth c hits with
  | zero => exact absurd h (by simp [visit, Query.fail, Query.ofOutcome])
  | succ levels ih =>
    rw [outcome_visit_succ] at h
    split at h
    · obtain rfl := Except.ok.inj h
      obtain rfl := List.mem_singleton.mp hd
      exact ⟨depth, .self depth d⟩
    · next hgo =>
      obtain ⟨below, hbelow, happend⟩ := Outcome.bind_eq_ok.mp h
      obtain rfl := Except.ok.inj happend
      rcases List.mem_append.mp hd with hd | hd
      · have hself : d = c := by
          split at hd
          · exact List.mem_singleton.mp hd
          · exact absurd hd (by simp)
        rw [hself]
        exact ⟨depth, .self depth c⟩
      · obtain ⟨child, here, hcomes, hchild, hd⟩ := Mode.exists_comes_of_mem hbelow hd
        have hnext : depth + 1 + levels = limit + 1 := by omega
        obtain ⟨k, hk⟩ := ih hnext hchild hd
        obtain rfl : levels = limit - depth := by omega
        exact ⟨k, .child (by omega) (fun hfirst => by simpa [hfirst] using hgo) hcomes hk⟩

end Source

namespace Tree

/-- Following a chain of steps from a scope makes a descent for a step from a component: the row of
descents for the first step comes to it, or the rest of the chain makes it from what they find. -/
inductive Searches (t : Tree) (mode : Mode) :
    List Step → List Component → Step → Component → Prop
  | first {step : Step} {rest : List Step} {scope : List Component} {n : Component}
      (hcomes : mode.Comes (t.descend step mode) scope n) :
      Searches t mode (step :: rest) scope step n
  | rest {step later : Step} {rest : List Step} {scope hits : List Component} {n : Component}
      (hhits : (mode.gather (t.descend step mode) scope).outcome = .ok hits)
      (hrest : Searches t mode rest (distinctBy Component.id hits) later n) :
      Searches t mode (step :: rest) scope later n

variable {t : Tree} {mode : Mode} {steps : List Step} {scope : List Component} {e : Failure}

/-- **A chain of steps fails where one of its descents does.** -/
theorem exists_searches_of_follow_eq_error (h : (t.follow mode steps scope).outcome = .error e) :
    ∃ step n, t.Searches mode steps scope step n ∧ (t.descend step mode n).outcome = .error e := by
  induction steps generalizing scope with
  | nil => exact absurd h (by simp [follow])
  | cons step rest ih =>
    rw [follow, Query.outcome_bind] at h
    rcases Outcome.bind_eq_error.mp h with h | ⟨hits, hhits, h⟩
    · obtain ⟨n, hcomes, hn⟩ := Mode.exists_comes_of_gather_eq_error h
      exact ⟨step, n, .first hcomes, hn⟩
    · split at h
      · exact absurd h (by simp)
      · obtain ⟨later, n, hsearches, hn⟩ := ih h
        exact ⟨later, n, .rest hhits hsearches, hn⟩

end Tree

end ComponentTree
