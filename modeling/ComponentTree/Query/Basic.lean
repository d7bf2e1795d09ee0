/-
# Queries and their answers

A query either collects all components it is asked for or stops at the first.  It may fail,
and it makes searches in its source on the way; `Query` keeps the outcome and the number of
searches side by side, so that the one can be reasoned about without the other.
-/
import ComponentTree.Selector.Form
import ComponentTree.Query.Source

namespace ComponentTree

/-- Whether a query stops at the first component it finds. -/
inductive Mode where
  | first
  | all
deriving DecidableEq, Inhabited

/-- The answer to a query. -/
inductive Answer where
  /-- The first component found, if there is one. -/
  | first (hit : Option Component)
  /-- All components found, in the order in which they were found. -/
  | all (hits : List Component)
deriving BEq, Inhabited

namespace Answer

/-- The answer that components found make. -/
def ofHits (mode : Mode) (hits : List Component) : Answer :=
  match mode with
  | .first => .first hits.head?
  | .all => .all hits

/-- The answer without components. -/
def empty (mode : Mode) : Answer := ofHits mode []

/-- The components of an answer. -/
def toList : Answer → List Component
  | first hit => hit.toList
  | all hits => hits

/-- The first component of an answer. -/
def head? (a : Answer) : Option Component := a.toList.head?

/-- The ids of the components of an answer. -/
def ids (a : Answer) : List String := a.toList.map (·.id)

/-- Whether an answer has no components. -/
def isEmpty (a : Answer) : Bool := a.toList.isEmpty

end Answer

/-- Why a query fails. -/
inductive Failure where
  /-- It was given something that is no selector. -/
  | selector (error : Selector.Error)
  /-- It starts at the root, and no root is set. -/
  | noRoot
  /-- It came to the component `id`, which lies more than `limit` links below its start. -/
  | tooDeep (id : String) (limit : Nat)
  /-- On the way up it came to the component `id` for a second time. -/
  | loop (id : String)
deriving DecidableEq, Inhabited

/-- The wording of a failure. -/
def Failure.message : Failure → String
  | selector error => error.message
  | noRoot => "no root component configured"
  | tooDeep id limit => "descent reached " ++ id ++ " beyond max depth " ++ toString limit
  | loop id => "parent chain loops back to " ++ id

/-- A query: what comes of it and how many searches it makes. -/
structure Query (α : Type) where
  outcome : Except Failure α
  searches : Nat

namespace Query

variable {α β : Type}

/-- The query that makes no search. -/
def ofOutcome (outcome : Except Failure α) : Query α := ⟨outcome, 0⟩

/-- The query that fails at once. -/
def fail (f : Failure) : Query α := ofOutcome (.error f)

/-- One search. -/
def search (found : List Component) : Query (List Component) := ⟨.ok found, 1⟩

/-- One query after another, which is not made if the first one fails. -/
def andThen (q : Query α) (next : α → Query β) : Query β :=
  match q.outcome with
  | .ok a => ⟨(next a).outcome, q.searches + (next a).searches⟩
  | .error f => ⟨.error f, q.searches⟩

instance : Monad Query where
  pure a := ofOutcome (.ok a)
  bind := andThen

@[simp] theorem outcome_pure (a : α) : (pure a : Query α).outcome = .ok a := rfl

@[simp] theorem searches_pure (a : α) : (pure a : Query α).searches = 0 := rfl

@[simp] theorem outcome_bind (q : Query α) (next : α → Query β) :
    (q >>= next).outcome = q.outcome >>= fun a => (next a).outcome := by
  show (andThen q next).outcome = _
  unfold andThen
  cases h : q.outcome <;> rfl

theorem searches_bind_of_ok {q : Query α} {a : α} (h : q.outcome = .ok a)
    (next : α → Query β) : (q >>= next).searches = q.searches + (next a).searches := by
  show (andThen q next).searches = _
  simp [andThen, h]

theorem searches_bind_of_error {q : Query α} {f : Failure} (h : q.outcome = .error f)
    (next : α → Query β) : (q >>= next).searches = q.searches := by
  show (andThen q next).searches = _
  simp [andThen, h]

/-- Only what follows on the answer of a query matters. -/
theorem bind_congr_of_ok {q : Query α} {a : α} (h : q.outcome = .ok a) {next next' : α → Query β}
    (hnext : next a = next' a) : (q >>= next) = q >>= next' := by
  show andThen q next = andThen q next'
  simp [andThen, h, hnext]

/-- What a selector gives, or the failure that it is none. -/
def ofSelector (s : Except Selector.Error α) : Query α := ofOutcome (s.mapError .selector)

theorem ofSelector_bind_of_ok {s : Except Selector.Error α} {a : α} (h : s = .ok a)
    (next : α → Query β) : (ofSelector s >>= next) = next a := by
  subst h
  show (⟨(next a).outcome, 0 + (next a).searches⟩ : Query β) = next a
  rw [Nat.zero_add]

end Query

end ComponentTree
