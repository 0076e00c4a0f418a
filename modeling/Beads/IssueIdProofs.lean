import Beads.ChildIdProofs
import Beads.IssueIds

/-! Generated ids are new in their table. A hash is probed against it. A number is the one
after the counter of the prefix, which is above every number of the prefix in the table as
long as rows that come with a number of their own do not run ahead of it. An id that the
other table has may be generated; the row is not stored under it. -/
namespace Beads
open Lib

/-! ## The text of a numbered id -/

section Text
variable {idPrefix idPrefix' : String} {num num' : Nat}

theorem numberedID_toList (idPrefix : String) (num : Nat) :
    (numberedID idPrefix num).toList = idPrefix.toList ++ '-' :: Nat.toDigits 10 num := by
  have hyphen : ("-".toList : List Char) = ['-'] := rfl
  rw [numberedID, String.toList_append, String.toList_append, hyphen, Nat.toList_repr,
    List.append_assoc, List.singleton_append]

/-- A numbered id tells its prefix and its number. -/
theorem numberedID_eq (same : numberedID idPrefix num = numberedID idPrefix' num') :
    idPrefix = idPrefix' ∧ num = num' := by
  have text := congrArg String.toList same
  rw [numberedID_toList, numberedID_toList] at text
  have plain : ∀ n : Nat, '-' ∉ Nat.toDigits 10 n := fun _ => not_mem_toDigits (by decide)
  obtain ⟨start, digits⟩ := eq_around_last (plain num) (plain num') text
  exact ⟨String.toList_inj.mp start, toDigits_inj digits⟩

theorem trimPrefix_append (start rest : String) : trimPrefix (start ++ rest) start = rest := by
  unfold trimPrefix
  rw [String.toList_append, if_pos (List.prefix_append _ _), List.drop_left, String.ofList_toList]

private theorem atoi_repr (bounded : num ≤ 9223372036854775807) :
    Query.atoi (Nat.repr num) = some (num : Int) := by
  have value :=
    foldl_toDigits (f := fun n d => n * 10 + (d.toNat - '0'.toNat : Nat)) (fun n d => by rw [mul_comm]) num
  have text : Nat.repr num = String.ofList (Nat.toDigits 10 num) := rfl
  rw [text, Query.atoi_digits Nat.toDigits_ne_nil (fun _ => isDigit_of_mem) value, if_pos bounded]

end Text

/-! ## Counters -/

private theorem le_raiseMaxNum (idPrefix : String) (maxNum : Nat) (id : String) :
    maxNum ≤ raiseMaxNum idPrefix maxNum id := by
  unfold raiseMaxNum
  extract_lets suffix
  split
  · exact Nat.le_refl maxNum
  · split
    · split <;> omega
    · exact Nat.le_refl maxNum

private theorem raiseMaxNum_numberedID (idPrefix : String) {num : Nat} (bounded : num ≤ 2147483647)
    (maxNum : Nat) :
    num ≤ raiseMaxNum idPrefix maxNum (numberedID idPrefix num) := by
  have suffix : trimPrefix (numberedID idPrefix num) (idPrefix ++ "-") = Nat.repr num :=
    trimPrefix_append _ _
  have plain : '.' ∉ (Nat.repr num).toList := by
    rw [Nat.toList_repr]
    exact not_mem_toDigits (by decide)
  unfold raiseMaxNum
  simp only [suffix, if_neg plain, atoi_repr (show num ≤ 9223372036854775807 by omega)]
  split <;> omega

namespace NumberedStore
variable {s t u : NumberedStore} {idPrefix other id : String} {num last : Nat} {g : IDGenerator}
  {p : Plane}
  {source : HashSource}

/-- The number that a prefix without a counter is seeded with. -/
def seed (s : NumberedStore) (idPrefix : String) : Nat :=
  (s.prefixedIssues idPrefix).foldl (raiseMaxNum idPrefix) 0

/-- Without an escape character in the prefix, the seed covers every number of the table. -/
theorem le_seed (plain : '\\' ∉ idPrefix.toList) (bounded : num ≤ 2147483647)
    (held : s.store.Holds (.issues, numberedID idPrefix num)) : num ≤ s.seed idPrefix := by
  obtain ⟨r, row, named⟩ := held
  have named : r.id = numberedID idPrefix num := named
  have matched : like (idPrefix.toList ++ ['-', '%']) (numberedID idPrefix num).toList = true := by
    have plain : '\\' ∉ idPrefix.toList ++ ['-'] := by simpa using plain
    have found := like.of_prefix plain (List.prefix_append _ (Nat.toDigits 10 num))
    rwa [List.append_assoc, List.append_assoc, List.singleton_append, List.singleton_append,
      ← numberedID_toList] at found
  have listed : numberedID idPrefix num ∈ s.prefixedIssues idPrefix :=
    List.mem_filter.mpr ⟨List.mem_map.mpr ⟨r, row, named⟩, matched⟩
  exact le_foldl_of_mem (le_raiseMaxNum idPrefix) (raiseMaxNum_numberedID idPrefix bounded) listed 0

/-- What a statement on a counter does. -/
structure Counted (s t : NumberedStore) (idPrefix : String) (last : Nat) : Prop where
  bounded : last ≤ 2147483647
  store : t.store = s.store
  here : t.counters.find? idPrefix = some ⟨idPrefix, last⟩
  others : ∀ other, other ≠ idPrefix → t.counters.find? other = s.counters.find? other

theorem setCounter_counted (set : s.setCounter idPrefix last = .ok t) :
    Counted s t idPrefix last := by
  unfold setCounter at set
  split at set
  · cases set
  · next fits =>
    cases set
    refine ⟨by omega, rfl, ?_, fun other apart => ?_⟩
    · exact Table.find?_put_self (t := s.counters) (r := ⟨idPrefix, last⟩)
    · exact Table.find?_put_of_ne (t := s.counters) (r := ⟨idPrefix, last⟩) apart

private theorem Counted.trans {first : Nat} (before : Counted s t idPrefix first)
    (after : Counted t u idPrefix last) :
    Counted s u idPrefix last where
  bounded := after.bounded
  store := after.store.trans before.store
  here := after.here
  others other apart := (after.others other apart).trans (before.others other apart)

/-- Counting on: the counter of the prefix, or the seed of a prefix without one. -/
def before (s : NumberedStore) (idPrefix : String) : Nat :=
  ((s.counters.find? idPrefix).map IssueCounter.lastID).getD (s.seed idPrefix)

theorem incrementCounter_some (ok : s.incrementCounter idPrefix = .ok (some t)) :
    ∃ counter, s.counters.find? idPrefix = some counter ∧
      Counted s t idPrefix (counter.lastID + 1) := by
  unfold incrementCounter at ok
  split at ok
  · next counter found =>
    cases set : s.setCounter idPrefix (counter.lastID + 1) with
    | error e =>
      rw [set] at ok
      cases ok
    | ok v =>
      rw [set] at ok
      cases ok
      exact ⟨counter, found, setCounter_counted set⟩
  · cases ok

theorem incrementCounter_none (ok : s.incrementCounter idPrefix = .ok none) :
    s.counters.find? idPrefix = none := by
  unfold incrementCounter at ok
  split at ok
  · next counter found =>
    cases set : s.setCounter idPrefix (counter.lastID + 1) with
    | error e =>
      rw [set] at ok
      cases ok
    | ok v =>
      rw [set] at ok
      cases ok
  · next none => exact none

/-- A prefix without a counter gets one, past the seed. -/
theorem openCounter_counted (none : s.counters.find? idPrefix = none)
    (ok : s.openCounter idPrefix = .ok t) :
    Counted s t idPrefix (s.seed idPrefix + 1) := by
  obtain ⟨seeded, seeds, rest⟩ := bind_eq_ok.mp ok
  obtain ⟨incremented, increments, rest⟩ := bind_eq_ok.mp rest
  unfold seedCounterFromExistingIssues at seeds
  rw [none] at seeds
  have seeds : (if 0 < s.seed idPrefix then s.setCounter idPrefix (s.seed idPrefix) else .ok s) = .ok seeded := seeds
  split at seeds
  · have counted := setCounter_counted seeds
    cases incremented with
    | none =>
      exact absurd (incrementCounter_none increments)
        (by rw [counted.here]; exact Option.some_ne_none _)
    | some v =>
      cases rest
      obtain ⟨counter, found, again⟩ := incrementCounter_some increments
      obtain rfl := Option.some.inj (counted.here.symm.trans found)
      exact counted.trans again
  · next unseeded =>
    cases seeds
    have zero : s.seed idPrefix = 0 := by omega
    rw [zero]
    cases incremented with
    | none => exact setCounter_counted rest
    | some v =>
      obtain ⟨counter, found, -⟩ := incrementCounter_some increments
      rw [none] at found
      cases found

private theorem advanceCounter_counted (ok : s.advanceCounter idPrefix = .ok t) :
    Counted s t idPrefix (s.before idPrefix + 1) := by
  obtain ⟨incremented, increments, rest⟩ := bind_eq_ok.mp ok
  unfold before
  cases incremented with
  | none =>
    have none := incrementCounter_none increments
    rw [none]
    exact openCounter_counted none rest
  | some v =>
    cases rest
    obtain ⟨counter, found, counted⟩ := incrementCounter_some increments
    rw [found]
    exact counted

/-- The next number of a prefix. -/
theorem nextCounterID_spec (ok : s.nextCounterID idPrefix = .ok (id, t)) :
    id = numberedID idPrefix (s.before idPrefix + 1) ∧
      Counted s t idPrefix (s.before idPrefix + 1) := by
  obtain ⟨counted, advances, rest⟩ := bind_eq_ok.mp ok
  have done := advanceCounter_counted advances
  rw [done.here] at rest
  cases rest
  exact ⟨rfl, done⟩

/-! ## Rows ahead of a counter -/

/-- The counter of a prefix has reached a number, or will be seeded with it: the scan
takes the prefix for a pattern, in which a backslash escapes. -/
def Reached (s : NumberedStore) (idPrefix : String) (num : Nat) : Prop :=
  match s.counters.find? idPrefix with
  | some counter => num ≤ counter.lastID
  | none => '\\' ∉ idPrefix.toList

/-- No row of the issues table is ahead of the counter of the prefix. -/
def Covered (s : NumberedStore) (idPrefix : String) : Prop :=
  ∀ num, 0 < num → num ≤ 2147483647 → s.store.Holds (.issues, numberedID idPrefix num) → s.Reached idPrefix num

theorem reached_congr (same : t.counters.find? idPrefix = s.counters.find? idPrefix) :
    t.Reached idPrefix num ↔ s.Reached idPrefix num := by
  unfold Reached
  rw [same]

theorem Counted.reached (counted : Counted s t idPrefix last) :
    t.Reached idPrefix num ↔ num ≤ last := by
  unfold Reached
  rw [counted.here]

theorem Covered.le_before (covered : s.Covered idPrefix) (positive : 0 < num)
    (bounded : num ≤ 2147483647)
    (held : s.store.Holds (.issues, numberedID idPrefix num)) : num ≤ s.before idPrefix := by
  have reached := covered num positive bounded held
  unfold Reached at reached
  unfold before
  split at reached
  · next counter found =>
    rw [found]
    exact reached
  · next none =>
    rw [none]
    exact le_seed reached bounded held

/-- What the generator returns. -/
theorem generateIssueIDInTable_spec (ok : s.generateIssueIDInTable idPrefix g p source = .ok (id, t)) :
    (g.Counts p ∧ s.nextCounterID idPrefix = .ok (id, t)) ∨
      (¬ g.Counts p ∧ t = s ∧ ¬ s.store.Holds (p, id) ∧
        ∃ length nonce, generateHashID g.sum256 idPrefix source length nonce = id) := by
  unfold generateIssueIDInTable at ok
  split at ok
  · next counts => exact Or.inl ⟨counts, ok⟩
  · next hashes =>
    refine Or.inr ⟨hashes, ?_⟩
    unfold Store.firstFreeHash at ok
    extract_lets candidates at ok
    split at ok
    · next candidate found =>
      cases ok
      have free := List.find?_some found
      obtain ⟨attempt, -, hashed⟩ := List.mem_map.mp (List.mem_of_find?_eq_some found)
      exact ⟨rfl, of_decide_eq_true free, attempt.1, attempt.2, hashed⟩
    · cases ok

/-- A generated id is its prefix with something after the hyphen. -/
theorem generated_text (ok : s.generateIssueIDInTable idPrefix g p source = .ok (id, t)) :
    ∃ text, id = idPrefix ++ "-" ++ text := by
  rcases generateIssueIDInTable_spec ok with ⟨-, counts⟩ | ⟨-, -, -, length, nonce, rfl⟩
  · exact ⟨_, (nextCounterID_spec counts).1⟩
  · exact ⟨_, rfl⟩

/-- Drawing an id leaves no row ahead of a counter. -/
theorem Covered.generate (covered : s.Covered other)
    (ok : s.generateIssueIDInTable idPrefix g p source = .ok (id, t)) :
    t.store = s.store ∧ t.Covered other := by
  rcases generateIssueIDInTable_spec ok with ⟨-, counts⟩ | ⟨-, rfl, -⟩
  · obtain ⟨-, counted⟩ := nextCounterID_spec counts
    refine ⟨counted.store, fun num positive bounded held => ?_⟩
    rw [counted.store] at held
    by_cases same : other = idPrefix
    · subst same
      exact counted.reached.mpr ((covered.le_before positive bounded held).trans (Nat.le_succ _))
    · exact (reached_congr (counted.others other same)).mpr (covered num positive bounded held)
  · exact ⟨rfl, covered⟩

/-- A number that has just been drawn is not in the table. -/
theorem Covered.unheld (covered : s.Covered idPrefix)
    (ok : s.nextCounterID idPrefix = .ok (id, t)) :
    ¬ s.store.Holds (.issues, id) := by
  obtain ⟨rfl, counted⟩ := nextCounterID_spec ok
  intro held
  have atMost := covered.le_before (Nat.succ_pos _) counted.bounded held
  omega

end NumberedStore

/-! ## Creates -/

namespace Store
variable {s t : Store} {ctx : BatchContext} {issue : NewIssue} {accepted : Option NewIssue}
  {id : String}

theorem createIssue_assigns {accepted : Option NewIssue}
    (returns : (s.createIssue ctx issue).Returns (t, accepted)) :
    ∃ id, s.assignCreateIssueId ctx issue = .ok id := by
  obtain ⟨prepared, -, rest⟩ := Call.returns_bind.mp returns
  obtain ⟨id, assigned, -⟩ := Call.returns_bind.mp rest
  exact ⟨id, Call.ends_ofExcept.unique assigned⟩

/-- An id that the other plane has is refused, or skipped. -/
theorem createIssue_collides (returns : (s.createIssue ctx issue).Returns (t, accepted))
    (assigned : s.assignCreateIssueId ctx issue = .ok id)
    (held : s.Holds (issue.plane.sibling, id)) :
    ctx.opts.conflictSkip = true ∧ t = s := by
  obtain ⟨prepared, -, rest⟩ := Call.returns_bind.mp returns
  obtain ⟨id', assigned', rest⟩ := Call.returns_bind.mp rest
  obtain rfl := Except.ok.inj (assigned.symm.trans (Call.ends_ofExcept.unique assigned'))
  extract_lets new insert checked at rest
  obtain ⟨-, rest⟩ := Call.returns_guard rest
  simp only [checked, if_pos held] at rest
  split at rest
  · next skips => exact ⟨skips, (Prod.mk.inj (Call.returns_pure.mp rest)).1.symm⟩
  · obtain ⟨_, refused, -⟩ := Call.returns_bind.mp rest
    exact absurd refused Call.not_returns_throw

end Store

/-! ## Runs -/

namespace NumberedStore
section Runs
variable {s t : NumberedStore} {idPrefix id : String} {g : IDGenerator} {p : Plane}
  {source : HashSource}
variable {ctx : BatchContext} {issue : NewIssue} {created : Option NewIssue}

/-- The ids that an issue may be stored under without a counter: its own one, or a hash. -/
def Names (g : IDGenerator) (ctx : BatchContext) (issue : NewIssue) (source : HashSource)
    (id : String) : Prop :=
  issue.row.id = id ∨ (issue.row.id = "" ∧ ¬ g.Counts issue.plane ∧
    ∃ length nonce, generateHashID g.sum256 (generatedPrefix ctx issue) source length nonce = id)

/-- A durable issue does not come with a number that the counter of the prefix, if it has
one, has not reached. -/
def Fits (s : NumberedStore) (idPrefix : String) (g : IDGenerator) (ctx : BatchContext)
    (issue : NewIssue) (source : HashSource) : Prop :=
  issue.plane = .issues → ∀ num, 0 < num → num ≤ 2147483647 → Names g ctx issue source (numberedID idPrefix num) →
    s.Reached idPrefix num

/-- Rows that are created one after the other, each on its own or in a batch. What a batch
does after its rows leaves ids and counters alone. -/
inductive Reaches (idPrefix : String) (s : NumberedStore) : NumberedStore → Prop
  | refl : Reaches idPrefix s s
  | row {t u : NumberedStore} {g : IDGenerator} {ctx : BatchContext} {issue : NewIssue} {source : HashSource}
      {created : Option NewIssue} (reached : Reaches idPrefix s t) (fits : t.Fits idPrefix g ctx issue source)
      (returns : (t.createIssue g ctx issue source).Returns (u, created)) : Reaches idPrefix s u
  | edges {t u : NumberedStore} (reached : Reaches idPrefix s t) (counters : u.counters = t.counters)
      (holds : ∀ n, u.store.Holds n ↔ t.store.Holds n) : Reaches idPrefix s u

/-- The id of a created issue, and the counters. -/
theorem assigned_spec (assigned : s.store.assignCreateIssueId (s.drawing g ctx issue source) issue = .ok id) :
    (issue.row.id ≠ "" ∧ issue.row.id = id ∧ s.countersAfter g ctx issue source = s.counters) ∨
      (issue.row.id = "" ∧ ∃ t, s.drawn g ctx issue source = .ok (id, t) ∧
        s.countersAfter g ctx issue source = t.counters) := by
  by_cases empty : issue.row.id = ""
  · refine Or.inr ⟨empty, ?_⟩
    rw [Store.assignCreateIssueId, if_pos empty] at assigned
    cases drew : s.drawn g ctx issue source with
    | error e =>
      simp only [drawing, drew] at assigned
      cases assigned
    | ok r =>
      obtain ⟨drawnID, t⟩ := r
      obtain ⟨text, rfl⟩ := generated_text drew
      simp only [drawing, drew] at assigned
      have assigned : generatedPrefix ctx issue ++ "-" ++
          trimPrefix (generatedPrefix ctx issue ++ "-" ++ text) (generatedPrefix ctx issue ++ "-") = id :=
        Except.ok.inj assigned
      rw [trimPrefix_append] at assigned
      refine ⟨t, congrArg (fun id => Except.ok (id, t)) assigned, ?_⟩
      simp only [countersAfter, drew, if_pos empty]
  · refine Or.inl ⟨empty, Store.assignCreateIssueId_given empty assigned, ?_⟩
    unfold countersAfter
    split
    · exact if_neg empty
    · rfl

/-- A row that is created leaves no row ahead of a counter, if it does not come ahead of
it. -/
theorem Covered.createIssue (covered : s.Covered idPrefix)
    (fits : s.Fits idPrefix g ctx issue source)
    (returns : (s.createIssue g ctx issue source).Returns (t, created)) : t.Covered idPrefix := by
  obtain ⟨⟨written, accepted⟩, creates, rest⟩ := Call.returns_bind.mp returns
  cases Call.returns_pure.mp rest
  intro num positive bounded held
  have counted {u : NumberedStore} (counters : s.countersAfter g ctx issue source = u.counters)
      (reached : u.Reached idPrefix num) : Reached ⟨written, s.countersAfter g ctx issue source⟩ idPrefix num :=
    (reached_congr (congrArg (Table.find? · idPrefix) counters)).mpr reached
  rcases (Store.createIssue_holds creates).2 held with old | ⟨new, rfl, node⟩
  · obtain ⟨id, assigned⟩ := Store.createIssue_assigns creates
    rcases assigned_spec assigned with ⟨-, -, counters⟩ | ⟨-, u, drew, counters⟩
    · exact counted counters (covered num positive bounded old)
    · obtain ⟨store, covered⟩ := covered.generate drew
      exact counted counters (covered num positive bounded (by rwa [store]))
  · obtain ⟨wisp, assigned, -⟩ := Store.createIssue_assigned creates
    have plane : issue.plane = .issues := by
      rw [NewIssue.plane, ← wisp]
      exact congrArg Prod.fst node
    have named : new.row.id = numberedID idPrefix num := congrArg Prod.snd node
    rw [named] at assigned
    rcases assigned_spec assigned with ⟨-, given, counters⟩ | ⟨empty, u, drew, counters⟩
    · exact counted counters (fits plane num positive bounded (Or.inl given))
    · rcases generateIssueIDInTable_spec drew with ⟨-, next⟩ | ⟨hashes, rfl, -, hashed⟩
      · obtain ⟨same, advanced⟩ := nextCounterID_spec next
        obtain ⟨rfl, rfl⟩ := numberedID_eq same
        exact counted counters (advanced.reached.mpr (Nat.le_refl _))
      · exact counted counters (fits plane num positive bounded (Or.inr ⟨empty, hashes, hashed⟩))

private theorem Reaches.covered (start : s.Covered idPrefix) (reaches : Reaches idPrefix s t) :
    t.Covered idPrefix := by
  induction reaches with
  | refl => exact start
  | row _ fits returns ih => exact ih.createIssue fits returns
  | edges _ counters holds ih =>
    intro num positive bounded held
    rw [reached_congr (congrArg (Table.find? · idPrefix) counters)]
    exact ih num positive bounded ((holds _).mp held)

private theorem Reaches.trans {u : NumberedStore} (first : Reaches idPrefix s t)
    (second : Reaches idPrefix t u) :
    Reaches idPrefix s u := by
  induction second with
  | refl => exact first
  | row _ fits returns ih => exact ih.row fits returns
  | edges _ counters holds ih => exact ih.edges counters holds

/-- Every row of a batch fits the state that it is created in. -/
def FitsAll (idPrefix : String) (g : IDGenerator) (ctx : BatchContext) :
    NumberedStore → List (NewIssue × HashSource) → Prop
  | _, [] => True
  | s, item :: rest => s.Fits idPrefix g ctx item.1 item.2 ∧
      ∀ t created, (s.createIssue g ctx item.1 item.2).Returns (t, created) → FitsAll idPrefix g ctx t rest

private theorem createRows_reaches {batch : List (NewIssue × HashSource)} {accepted : List NewIssue}
    (fits : FitsAll idPrefix g ctx s batch)
    (returns : (s.createRows g ctx batch).Returns (t, accepted)) :
    Reaches idPrefix s t := by
  unfold createRows at returns
  generalize ([] : List NewIssue) = before at returns
  induction batch generalizing s before with
  | nil =>
    cases Call.returns_pure.mp returns
    exact .refl
  | cons item rest ih =>
    rw [List.foldlM_cons] at returns
    obtain ⟨⟨u, after⟩, step, returns⟩ := Call.returns_bind.mp returns
    obtain ⟨⟨v, created⟩, creates, step⟩ := Call.returns_bind.mp step
    cases Call.returns_pure.mp step
    have first : Reaches idPrefix s u := .row .refl fits.1 creates
    exact first.trans (ih (fits.2 u created creates) _ returns)

/-- A batch is a run of its rows. -/
theorem createIssues_reaches {c : Coordinator} {batch : List (NewIssue × HashSource)}
    (fits : ∀ issues, filterMixedBucketDependencies ctx.opts (batch.map Prod.fst) = .ok issues →
      FitsAll idPrefix g ctx s (issues.zip (batch.map Prod.snd)))
    (returns : (s.createIssues g ctx c batch).Returns t) : Reaches idPrefix s t := by
  obtain ⟨issues, filters, rest⟩ := Call.returns_bind.mp returns
  obtain ⟨⟨landed, accepted⟩, lands, rest⟩ := Call.returns_bind.mp rest
  obtain ⟨⟨written, persisted⟩, persists, rest⟩ := Call.returns_bind.mp rest
  obtain ⟨done, recomputes, rest⟩ := Call.returns_bind.mp rest
  cases Call.returns_pure.mp rest
  refine .edges (createRows_reaches (fits issues (Call.returns_ofExcept.mp filters)) lands) rfl fun
    n => ?_
  rw [(Store.recomputeIsBlocked_sameRow recomputes n).holds, Store.Holds,
    Store.persistDependencies_rows persists]
  exact Iff.rfl

/-- A generated id is not in its table: a hash never is, and a number is not as long as
no row of the table came ahead of the counter. A create that is given an id of the other
table stores nothing. -/
theorem generateIssueIDInTable_unheld (t : NumberedStore) (idPrefix : String) (g : IDGenerator)
    (p : Plane)
    (source : HashSource) (counted : g.Counts p →
      ∃ s : NumberedStore, s.Covered idPrefix ∧ Reaches idPrefix s t)
    (id : String) (u : NumberedStore)
    (drawn : t.generateIssueIDInTable idPrefix g p source = .ok (id, u)) :
    ¬ t.store.Holds (p, id) ∧ (t.store.Holds (p.sibling, id) →
      ∀ ctx issue v created, issue.row.id = "" →
      issue.plane = p → generatedPrefix ctx issue = idPrefix →
      (t.createIssue g ctx issue source).Returns (v, created) →
        ctx.opts.conflictSkip = true ∧ v.store = t.store) := by
  constructor
  · rcases generateIssueIDInTable_spec drawn with ⟨counts, next⟩ | ⟨-, -, free, -⟩
    · obtain ⟨s, start, reaches⟩ := counted counts
      rw [counts.1]
      exact (reaches.covered start).unheld next
    · exact free
  · rintro held ctx issue v created empty rfl rfl returns
    obtain ⟨⟨written, accepted⟩, creates, rest⟩ := Call.returns_bind.mp returns
    cases Call.returns_pure.mp rest
    obtain ⟨id', assigned⟩ := Store.createIssue_assigns creates
    rcases assigned_spec assigned with ⟨given, -⟩ | ⟨-, w, drew, -⟩
    · exact absurd empty given
    · obtain ⟨rfl, rfl⟩ := Prod.mk.inj (Except.ok.inj (drawn.symm.trans drew))
      have skipped := Store.createIssue_collides creates assigned held
      exact skipped

end Runs

/-- The issue of `hash_test.go`. -/
def fixLogin : HashSource := ⟨"Fix login", "Details", "jira-import", 1704164645006000000⟩

/-- SHA-256 of `Fix login|Details|jira-import|1704164645006000000|0`. -/
def fixLoginDigest : List UInt8 :=
  [159, 186, 254, 216, 194, 12, 230, 193, 100, 38, 43, 142, 58, 238, 29, 230, 68, 126, 102, 211, 89, 199, 174, 138, 194,
    81, 38, 185, 84, 14, 162, 146]

/-- The generator of a small database. -/
def smallGenerator (counterMode : Bool) : IDGenerator where
  counterMode := counterMode
  adaptiveLength _ _ _ := 3
  sum256 _ := fixLoginDigest

def emptyStore : NumberedStore := ⟨{ rows := fun _ => .empty, deps := fun _ => .empty }, .empty⟩

/-- The first use of a prefix counts on from an explicit number. -/
theorem generateIssueIDInTable_unheld_seeded :
    ∃ t, Reaches "bd" emptyStore t ∧
      ∃ u, t.generateIssueIDInTable "bd" (smallGenerator true) .issues fixLogin = .ok ("bd-5", u) ∧
      t.store.Holds (.issues, "bd-4") ∧ ¬ t.store.Holds (.issues, "bd-5") := by
  obtain ⟨⟨t, created⟩, returns, held, ⟨id, u⟩, next, fifth⟩ : ∃ r,
      (emptyStore.createIssue (smallGenerator true) { configPrefix := "bd" } { row := { id := "bd-4" } }
        fixLogin).Returns r ∧
        r.1.store.Holds (.issues, "bd-4") ∧
          ∃ next ∈ (r.1.generateIssueIDInTable "bd" (smallGenerator true) .issues fixLogin).toOption, next.1 = "bd-5" :=
    Call.returns_of_value? (n := 2) (by decide +kernel)
  cases fifth
  have plain : '\\' ∉ "bd".toList := by decide +kernel
  have covered : emptyStore.Covered "bd" := fun _ _ _ _ => plain
  have reaches : Reaches "bd" emptyStore t := .row .refl (fun _ _ _ _ _ => plain) returns
  have ok := eq_ok_of_mem_toOption next
  have unheld := generateIssueIDInTable_unheld t "bd" (smallGenerator true) .issues fixLogin
    (fun _ => ⟨emptyStore, covered, reaches⟩) _ u ok
  exact ⟨t, reaches, u, ok, held, unheld.1⟩

/-- A wisp comes with the id that an issue is then given. -/
theorem wisp_id_generated :
    ∃ t created, (emptyStore.createIssue (smallGenerator false) { configPrefix := "bd" }
        { row := { id := "bd-vju", ephemeral := true } } fixLogin).Returns (t, created) ∧
      ∃ u, t.generateIssueIDInTable "bd" (smallGenerator false) .issues fixLogin = .ok ("bd-vju", u) ∧
        t.store.Holds (.wisps, "bd-vju") := by
  obtain ⟨⟨t, created⟩, returns, held, ⟨id, u⟩, next, same⟩ : ∃ r,
      (emptyStore.createIssue (smallGenerator false) { configPrefix := "bd" }
        { row := { id := "bd-vju", ephemeral := true } } fixLogin).Returns r ∧
        r.1.store.Holds (.wisps, "bd-vju") ∧
          ∃ next ∈ (r.1.generateIssueIDInTable "bd" (smallGenerator false) .issues fixLogin).toOption,
            next.1 = "bd-vju" :=
    Call.returns_of_value? (n := 2) (by decide +kernel)
  cases same
  exact ⟨t, created, returns, u, eq_ok_of_mem_toOption next, held⟩

end NumberedStore
end Beads
