import Beads.ChildIds
import Beads.ClaimEffects
import Beads.PromotionProofs

/-! Child ids are not used twice. The counter of a parent is at least the number of every
child id that was drawn or stored since the parent is there: drawing takes the next
number, and a row that is stored with an id of its own is reconciled, in whichever plane
it is stored. Reconciliation finds the counter by the plane of the parent; a batch that
lists a durable parent as a wisp, and skips it, makes it look in the wrong one. -/
namespace Beads
open Lib

/-! ## The text of a child id -/

section Text

theorem repr_plain (num : Int) : '.' ∉ (Int.repr num).toList := by
  have digits : ∀ n : Nat, '.' ∉ Nat.toDigits 10 n := fun n => not_mem_toDigits (by decide)
  rw [Int.repr_eq_if]
  split
  · rw [Nat.toList_repr]
    exact digits _
  · rw [String.toList_append, Nat.toList_repr]
    intro dot
    rcases List.mem_append.mp dot with sign | digit
    · exact absurd sign (by decide)
    · exact digits _ digit

theorem childID_toList (parentID : String) (num : Int) :
    (childID parentID num).toList = parentID.toList ++ '.' :: (Int.repr num).toList := by
  have dot : (".".toList : List Char) = ['.'] := rfl
  change (parentID ++ "." ++ Int.repr num).toList = _
  rw [String.toList_append, String.toList_append, dot, List.append_assoc, List.singleton_append]

/-- A child id tells its parent and its number. -/
theorem childID_eq {parentID parentID' : String} {num num' : Int}
    (same : childID parentID num = childID parentID' num') :
    parentID = parentID' ∧ num = num' := by
  have text := congrArg String.toList same
  rw [childID_toList, childID_toList] at text
  have parent := String.toList_inj.mp (eq_around_last (repr_plain num) (repr_plain num') text).1
  subst parent
  exact ⟨rfl, childID_inj same⟩

private theorem digit_not_space {c : Char} (digit : c.isDigit = true) : isScanSpace c = false := by
  have bound : c.toNat ≤ 57 := by
    simp only [Char.isDigit, Bool.and_eq_true, decide_eq_true_eq] at digit
    exact digit.2
  rw [Bool.eq_false_iff]
  intro space
  rw [isScanSpace, Bool.or_eq_true] at space
  rcases space with listed | wide
  · have none : (['\t', '\x0b', '\x0c', '\r', ' ', '\x85', '\xa0', '\u1680', '\u2028', '\u2029', '\u202f',
        '\u205f', '\u3000'].all fun d => !d.isDigit) = true := rfl
    have other := List.all_eq_true.mp none c (of_decide_eq_true listed)
    rw [digit] at other
    cases other
  · simp only [Bool.and_eq_true, decide_eq_true_eq] at wide
    omega

/-- The digits of a number are scanned as they are. -/
theorem scanInt_digits {num : Nat} (bounded : num ≤ 9223372036854775807) :
    scanInt (Nat.toDigits 10 num) = some (num : Int) := by
  obtain ⟨first, rest, shape, leading⟩ := toDigits_cons num
  have unspaced : (Nat.toDigits 10 num).dropWhile isScanSpace = Nat.toDigits 10 num := by
    rw [shape, List.dropWhile_cons_of_neg]
    rw [digit_not_space leading]
    exact Bool.false_ne_true
  have plus : (Nat.toDigits 10 num).head? ≠ some '+' := by
    rw [shape]
    rintro ⟨rfl⟩
    exact absurd leading (by decide)
  have minus : (Nat.toDigits 10 num).head? ≠ some '-' := by
    rw [shape]
    rintro ⟨rfl⟩
    exact absurd leading (by decide)
  have all : (Nat.toDigits 10 num).takeWhile Char.isDigit = Nat.toDigits 10 num :=
    List.takeWhile_eq_self_iff.mpr fun _ => isDigit_of_mem
  have value :=
    foldl_toDigits (f := fun n d => 10 * n + (d.toNat - '0'.toNat : Nat)) (fun _ _ => rfl) num
  unfold scanInt
  simp only [unspaced, plus, minus, or_self, if_false, all, value]
  rw [if_neg]
  rintro (empty | low | high)
  · exact absurd empty Nat.toDigits_ne_nil
  · omega
  · omega

theorem parseHierarchicalID_childID (parentID : String) {num : Int} (positive : 0 ≤ num)
    (bounded : num ≤ 9223372036854775807) :
    parseHierarchicalID (childID parentID num) = some (parentID, num) := by
  obtain ⟨last, parent⟩ := around_last parentID.toList (repr_plain num)
  have digits : (Int.repr num).toList = Nat.toDigits 10 num.toNat := by
    rw [Int.repr_eq_if, if_pos positive, Nat.toList_repr]
  have cast : ((num.toNat : Nat) : Int) = num := Int.toNat_of_nonneg positive
  unfold parseHierarchicalID
  simp only [childID_toList, last, parent, List.reverse_reverse, List.tail_cons,
    String.ofList_toList]
  rw [if_neg (List.cons_ne_nil _ _), digits, scanInt_digits (by omega), cast]
  rfl

end Text

/-! ## Counters -/

namespace CountedStore
variable {s t u : CountedStore} {p q : Plane} {parentID : String} {num : Int}
  {issues : List NewIssue}

/-- A number is within the counter of a parent. -/
def Within (s : CountedStore) (p : Plane) (parentID : String) (num : Int) : Prop :=
  ∃ counter, (s.counters p).find? parentID = some counter ∧ num ≤ counter.lastChild

/-- No counter is lower, and a new one is not negative. -/
structure Advanced (s t : CountedStore) : Prop where
  store : t.store = s.store
  within : ∀ p parentID num, s.Within p parentID num → t.Within p parentID num
  opened : ∀ p parentID, (s.counters p).find? parentID = none →
    (t.counters p).find? parentID = none ∨ t.Within p parentID 0

theorem Advanced.refl (s : CountedStore) : Advanced s s :=
  ⟨rfl, fun _ _ _ held => held, fun _ _ none => Or.inl none⟩

private theorem Advanced.trans (first : Advanced s t) (second : Advanced t u) : Advanced s u where
  store := second.store.trans first.store
  within p parentID num held := second.within p parentID num (first.within p parentID num held)
  opened p parentID none := by
    rcases first.opened p parentID none with still | opened
    · exact second.opened p parentID still
    · exact Or.inr (second.within p parentID 0 opened)

/-- What a statement on a counter does. -/
theorem setCounter_spec {last : Int} (set : s.setCounter p parentID last = .ok t) :
    last ≤ 2147483647 ∧ t.store = s.store ∧ (t.counters p).find? parentID = some ⟨parentID, last⟩ ∧
      ∀ q other, (q, other) ≠ (p, parentID) →
        (t.counters q).find? other = (s.counters q).find? other := by
  unfold setCounter at set
  split at set
  · cases set
  · split at set
    · cases set
    · next fits =>
      cases set
      refine ⟨by omega, rfl, ?_, fun q other apart => ?_⟩
      · simp only [Function.update_self]
        exact Table.find?_put_self (t := s.counters p) (r := ⟨parentID, last⟩)
      · by_cases plane : q = p
        · subst plane
          simp only [Function.update_self]
          exact Table.find?_put_of_ne (t := s.counters q) (r := ⟨parentID, last⟩) fun same => apart
            (congrArg _ same)
        · simp only [Function.update_of_ne plane]

/-- A counter that is set to no less than it was. -/
theorem setCounter_advances {last : Int} (set : s.setCounter p parentID last = .ok t)
    (least : (((s.counters p).find? parentID).map CounterRow.lastChild).getD 0 ≤ last) :
    Advanced s t ∧ t.Within p parentID last := by
  obtain ⟨-, store, here, others⟩ := setCounter_spec set
  refine ⟨⟨store, fun q other num held => ?_, fun q other none => ?_⟩, _, here, Int.le_refl _⟩
  · obtain ⟨counter, found, bound⟩ := held
    by_cases same : (q, other) = (p, parentID)
    · cases same
      rw [found] at least
      exact ⟨_, here, bound.trans least⟩
    · refine ⟨counter, ?_, bound⟩
      rw [others q other same]
      exact found
  · by_cases same : (q, other) = (p, parentID)
    · cases same
      rw [none] at least
      exact Or.inr ⟨_, here, least⟩
    · rw [others q other same]
      exact Or.inl none

theorem le_raiseMaxChild {issue : NewIssue} (last : Int) :
    last ≤ raiseMaxChild parentID last issue := by
  unfold raiseMaxChild
  split
  · split <;> omega
  · exact Int.le_refl last

private theorem maxChild_nonneg : 0 ≤ maxChild issues parentID :=
  le_foldl (fun last _ => le_raiseMaxChild last) issues 0

private theorem le_maxChild {issue : NewIssue} (listed : issue ∈ issues)
    (parsed : parseHierarchicalID issue.row.id = some (parentID, num)) :
    num ≤ maxChild issues parentID := by
  refine le_foldl_of_mem (fun last _ => le_raiseMaxChild last) (fun last => ?_) listed 0
  rw [raiseMaxChild, parsed]
  simp only [true_and]
  split <;> omega

/-- The plane in which reconciliation looks for a parent. -/
def reconciledIn (s : CountedStore) (issues : List NewIssue) (parentID : String) : Plane :=
  if KnownWisp issues parentID then .wisps else s.store.routed parentID

/-- Reconciliation of one parent. -/
theorem reconcileCounter_spec (ok : s.reconcileCounter issues parentID = .ok t) :
    Advanced s t ∧ (s.store.Holds (s.reconciledIn issues parentID, parentID) →
      maxChild issues parentID ≠ 0 →
      t.Within (s.reconciledIn issues parentID) parentID (maxChild issues parentID)) := by
  unfold reconcileCounter at ok
  extract_lets highest p at ok
  split at ok
  · next none =>
    cases ok
    exact ⟨.refl s, fun _ some => absurd none some⟩
  · split at ok
    · next missing =>
      cases ok
      exact ⟨.refl s, fun held => absurd held missing⟩
    · split at ok
      · next counter found =>
        split at ok
        · next enough =>
          cases ok
          exact ⟨.refl s, fun _ _ => ⟨counter, found, enough⟩⟩
        · obtain ⟨advanced, counter', here, bound⟩ := setCounter_advances ok (by
            rw [found]
            exact Int.le_max_left _ _)
          exact ⟨advanced, fun _ _ => ⟨counter', here, (Int.le_max_right _ _).trans bound⟩⟩
      · next none =>
        obtain ⟨advanced, within⟩ := setCounter_advances ok (by
          rw [none]
          exact maxChild_nonneg)
        exact ⟨advanced, fun _ _ => within⟩

/-- Reconciliation of a batch puts every child of a stored parent within its counter. -/
theorem reconcileChildCounters_spec (ok : s.reconcileChildCounters issues = .ok t) :
    Advanced s t ∧ ∀ issue ∈ issues, ∀ parentID num,
      parseHierarchicalID issue.row.id = some (parentID, num) → 0 < num →
      s.store.Holds (s.reconciledIn issues parentID, parentID) →
        t.Within (s.reconciledIn issues parentID) parentID num := by
  have loop : ∀ (parents : List String) (s t : CountedStore),
      parents.foldlM (fun s parentID => s.reconcileCounter issues parentID) s = .ok t →
      Advanced s t ∧ ∀ parentID ∈ parents, s.store.Holds (s.reconciledIn issues parentID, parentID) →
        maxChild issues parentID ≠ 0 →
          t.Within (s.reconciledIn issues parentID) parentID (maxChild issues parentID) := by
    intro parents
    induction parents with
    | nil =>
      intro s t ok
      cases ok
      exact ⟨.refl s, fun _ none => absurd none List.not_mem_nil⟩
    | cons first rest ih =>
      intro s t ok
      rw [List.foldlM_cons] at ok
      obtain ⟨mid, here, rest⟩ := bind_eq_ok.mp ok
      obtain ⟨advanced, covered⟩ := reconcileCounter_spec here
      obtain ⟨advanced', covered'⟩ := ih mid t rest
      refine ⟨advanced.trans advanced',
        List.forall_mem_cons.mpr ⟨fun held some => ?_, fun parentID listed held some => ?_⟩⟩
      · exact advanced'.within _ _ _ (covered held some)
      · have same : mid.reconciledIn issues parentID = s.reconciledIn issues parentID := by
          rw [reconciledIn, reconciledIn, advanced.store]
        have again := covered' parentID listed
        rw [same, advanced.store] at again
        exact again held some
  obtain ⟨advanced, covered⟩ := loop _ _ _ ok
  refine ⟨advanced, fun issue listed parentID num parsed positive held => ?_⟩
  have bound := le_maxChild listed parsed
  have named : parentID ∈ parentsOf issues := by
    refine List.mem_dedup.mpr (List.mem_map.mpr ⟨(parentID, num), List.mem_filterMap.mpr ⟨issue, listed, parsed⟩, rfl⟩)
  obtain ⟨counter, found, most⟩ := covered parentID named held (by omega)
  exact ⟨counter, found, bound.trans most⟩

end CountedStore

/-! ## Rows that are created -/

/-- The id that an issue comes with, or a text that one may be generated as. -/
def NewIssue.MayGet (issue : NewIssue) (ctx : BatchContext) (id : String) : Prop :=
  issue.row.id = id ∨ (issue.row.id = "" ∧ (generatedPrefix ctx issue ++ "-").toList <+: id.toList)

private theorem mem_of_mapM_ok {α β ε : Type} {f : α → Except ε β} {l : List α} {r : List β}
    (ok : l.mapM f = .ok r) {b : β} (listed : b ∈ r) : ∃ a ∈ l, f a = .ok b := by
  induction l generalizing r with
  | nil =>
    cases ok
    exact absurd listed List.not_mem_nil
  | cons first rest ih =>
    rw [List.mapM_cons] at ok
    obtain ⟨head, here, ok⟩ := bind_eq_ok.mp ok
    obtain ⟨tail, there, ok⟩ := bind_eq_ok.mp ok
    cases ok
    rcases List.mem_cons.mp listed with rfl | later
    · exact ⟨first, List.mem_cons_self, here⟩
    · obtain ⟨a, held, mapped⟩ := ih there later
      exact ⟨a, List.mem_cons_of_mem _ held, mapped⟩

theorem eq_ok_of_mem_toOption {α ε : Type} {r : Except ε α} {a : α} (found : a ∈ r.toOption) :
    r = .ok a := by
  cases r with
  | error e => cases found
  | ok b => exact congrArg Except.ok (Option.some.inj found)

namespace Store
variable {s t : Store} {ctx : BatchContext} {issue created : NewIssue} {n : Node}

private theorem assignCreateIssueId_mayGet {id : String}
    (assigned : s.assignCreateIssueId ctx issue = .ok id) :
    issue.MayGet ctx id := by
  by_cases empty : issue.row.id = ""
  · rw [assignCreateIssueId, if_pos empty] at assigned
    cases suffix : ctx.idSuffix s issue.plane issue with
    | error e =>
      rw [suffix] at assigned
      cases assigned
    | ok text =>
      rw [suffix] at assigned
      cases assigned
      refine Or.inr ⟨empty, ?_⟩
      have split : (generatedPrefix ctx issue ++ "-" ++ text).toList =
          (generatedPrefix ctx issue ++ "-").toList ++ text.toList := String.toList_append
      exact ⟨text.toList, split.symm⟩
  · exact Or.inl (assignCreateIssueId_given empty assigned)

/-- An accepted issue has the id that it was assigned, in the plane it came for; unless
conflicts are skipped, the other plane does not have the id. -/
theorem createIssue_assigned (returns : (s.createIssue ctx issue).Returns (t, some created)) :
    created.isWisp = issue.isWisp ∧ s.assignCreateIssueId ctx issue = .ok created.row.id ∧
      (ctx.opts.conflictSkip = true ∨ ¬ s.Holds (created.plane.sibling, created.row.id)) := by
  obtain ⟨prepared, ready, rest⟩ := Call.returns_bind.mp returns
  obtain ⟨id, assigned, rest⟩ := Call.returns_bind.mp rest
  obtain ⟨-, ephemeral, noHistory, -⟩ :=
    prepareIssueForInsert_spec (Call.ends_ofExcept.unique ready)
  have named := Call.ends_ofExcept.unique assigned
  extract_lets new insert checked at rest
  have wisp : new.isWisp = issue.isWisp := by
    simp only [NewIssue.isWisp, new, ephemeral, noHistory]
  obtain ⟨-, rest⟩ := Call.returns_guard rest
  simp only [checked] at rest
  split at rest
  · split at rest
    · next skips =>
      obtain ⟨-, same⟩ := Prod.mk.inj (Call.returns_pure.mp rest)
      obtain rfl := Option.some.inj same
      exact ⟨wisp, named, Or.inl skips⟩
    · obtain ⟨_, refused, -⟩ := Call.returns_bind.mp rest
      exact absurd refused Call.not_returns_throw
  · next free =>
    obtain ⟨⟨written, stale⟩, -, rest⟩ := Call.returns_bind.mp rest
    obtain ⟨-, same⟩ := Prod.mk.inj (Call.returns_pure.mp rest)
    cases stale with
    | true => cases same
    | false =>
      obtain rfl := Option.some.inj same
      refine ⟨wisp, named, Or.inr ?_⟩
      rwa [NewIssue.plane, wisp]

/-- Rows stay, and the only row that may be new is that of the accepted issue. -/
theorem createIssue_holds {accepted : Option NewIssue}
    (returns : (s.createIssue ctx issue).Returns (t, accepted)) :
    (s.Holds n → t.Holds n) ∧ (t.Holds n →
      s.Holds n ∨ ∃ created, accepted = some created ∧ created.node = n) := by
  obtain ⟨created, -, -, -, rfl | ⟨-, rfl, ⟨absent, others, here⟩ | ⟨held, updated⟩⟩⟩ :=
    createIssue_returns returns
  · exact ⟨id, Or.inl⟩
  · by_cases same : n = created.node
    · subst same
      exact ⟨fun held => absurd held absent, fun _ => Or.inr ⟨created, rfl, rfl⟩⟩
    · rw [holds_iff, holds_iff, others n same]
      exact ⟨id, Or.inl⟩
  · rw [updated.holds]
    exact ⟨id, Or.inl⟩

end Store

/-- An issue of a batch whose edges have been filtered. -/
structure NewIssue.SameIssue (issue filtered : NewIssue) : Prop where
  row : filtered.row = issue.row
  wispPlaneOverride : filtered.wispPlaneOverride = issue.wispPlaneOverride
  prefixOverride : filtered.prefixOverride = issue.prefixOverride
  idPrefix : filtered.idPrefix = issue.idPrefix

theorem NewIssue.SameIssue.isWisp {issue filtered : NewIssue} (same : issue.SameIssue filtered) :
    filtered.isWisp = issue.isWisp := by
  rw [NewIssue.isWisp, NewIssue.isWisp, same.row, same.wispPlaneOverride]

private theorem NewIssue.SameIssue.mayGet {issue filtered : NewIssue} {ctx : BatchContext}
    {id : String}
    (same : issue.SameIssue filtered) (gets : filtered.MayGet ctx id) : issue.MayGet ctx id := by
  have texts : generatedPrefix ctx filtered = generatedPrefix ctx issue := by
    rw [generatedPrefix, generatedPrefix, same.prefixOverride, same.idPrefix, same.isWisp]
  unfold NewIssue.MayGet at gets ⊢
  rwa [same.row, texts] at gets

private theorem filterMixedBucketDependencies_same {opts : BatchCreateOptions}
    {batch filtered : List NewIssue}
    (ok : filterMixedBucketDependencies opts batch = .ok filtered) :
    ∀ issue' ∈ filtered, ∃ issue ∈ batch, issue.SameIssue issue' := by
  unfold filterMixedBucketDependencies at ok
  split at ok
  · cases ok
    exact fun issue listed => ⟨issue, listed, rfl, rfl, rfl, rfl⟩
  · intro issue' listed
    obtain ⟨issue, here, mapped⟩ := mem_of_mapM_ok ok listed
    refine ⟨issue, here, ?_⟩
    split at mapped
    · cases mapped
      exact ⟨rfl, rfl, rfl, rfl⟩
    · split at mapped
      · cases mapped
      · cases mapped
        exact ⟨rfl, rfl, rfl, rfl⟩

namespace Store
variable {s t : Store} {ctx : BatchContext} {batch accepted : List NewIssue}

/-- What the rows of a batch leave behind. -/
structure Landed (s : Store) (ctx : BatchContext) (batch : List NewIssue) (t : Store)
    (accepted : List NewIssue) :
    Prop where
  kept : ∀ n, s.Holds n → t.Holds n
  new : ∀ n, t.Holds n → s.Holds n ∨ ∃ created ∈ accepted, created.node = n
  origin : ∀ created ∈ accepted, ∃ issue ∈ batch, created.isWisp = issue.isWisp ∧ issue.MayGet ctx created.row.id ∧
    (ctx.opts.conflictSkip = true ∨ ¬ s.Holds (created.plane.sibling, created.row.id))

private theorem landBatch_landed (returns : (s.landBatch ctx batch).Returns (t, accepted)) :
    Landed s ctx batch t accepted := by
  obtain ⟨filtered, filters, rows⟩ := Call.returns_bind.mp returns
  have same := filterMixedBucketDependencies_same (Call.ends_ofExcept.unique filters)
  have start : Landed s ctx batch s [] :=
    ⟨fun _ held => held, fun _ held => Or.inl held, fun _ none => absurd none List.not_mem_nil⟩
  refine Call.inv_of_foldlM (fun state : Store × List NewIssue => Landed s ctx batch state.1 state.2) ?_ start rows
  rintro ⟨v, sofar⟩ issue' listed landed ⟨w, next⟩ step
  obtain ⟨⟨written, created⟩, creates, rest⟩ := Call.returns_bind.mp step
  obtain ⟨rfl, rfl⟩ := Prod.mk.inj (Call.returns_pure.mp rest)
  refine ⟨fun n held => (createIssue_holds creates).1 (landed.kept n held), fun n held => ?_,
    fun c listed' => ?_⟩
  · rcases (createIssue_holds creates).2 held with old | ⟨new, rfl, node⟩
    · exact (landed.new n old).imp_right fun ⟨c, here, node⟩ =>
        ⟨c, List.mem_append_left _ here, node⟩
    · exact Or.inr ⟨new, List.mem_append_right _ (List.mem_singleton.mpr rfl), node⟩
  · rcases List.mem_append.mp listed' with early | last
    · exact landed.origin c early
    · obtain rfl := Option.mem_toList.mp last
      obtain ⟨issue, here, same⟩ := same issue' listed
      obtain ⟨wisp, assigned, apart⟩ := createIssue_assigned creates
      refine ⟨issue, here, wisp.trans same.isWisp,
        same.mayGet (assignCreateIssueId_mayGet assigned), ?_⟩
      exact apart.imp_right fun free held => free (landed.kept _ held)

/-! ## Rows that are deleted -/

private theorem deleteIssue_shrinks {id : String} {n : Node}
    (returns : (s.deleteIssue id).Returns t) (held : t.Holds n) :
    s.Holds n := by
  obtain ⟨u, deleted, rest⟩ := Call.returns_bind.mp returns
  rw [(recomputeIsBlocked_sameRow rest n).holds] at held
  exact ((deleteIssueRow_removed deleted).2.holds_iff.mp held).1

private theorem deleteIssues_shrinks {ids : List String} {cascade force dryRun : Bool} {n : Node}
    (returns : (s.deleteIssues ids cascade force dryRun).Returns t) (held : t.Holds n) :
    s.Holds n := by
  obtain ⟨-, rfl⟩ | ⟨-, set, -, deleted⟩ := deleteIssues_resolved returns
  · exact held
  · unfold deleteResolvedSet at deleted
    split at deleted
    · rwa [← Call.returns_pure.mp deleted] at held
    · obtain ⟨u, wisps, rest⟩ := Call.returns_bind.mp deleted
      rw [(recomputeIsBlocked_sameRow rest n).holds] at held
      have inner := ((deleteBatches_removed _).holds_iff.mp held).1
      exact ((deleteWisps_removed wisps).1.holds_iff.mp inner).1

end Store

/-! ## Runs -/

namespace CountedStore
variable {s t : CountedStore} {p : Plane} {parentID : String} {used : Set String}

/-- The ids of both tables. -/
def stored (s : CountedStore) : Set String := {id | ∃ p, s.store.Holds (p, id)}

/-- The parent is stored, in one plane. -/
def StaysIn (s : CountedStore) (p : Plane) (parentID : String) : Prop :=
  s.store.Holds (p, parentID) ∧ ¬ s.store.Holds (p.sibling, parentID)

theorem StaysIn.routed (stays : s.StaysIn p parentID) : s.store.routed parentID = p :=
  Store.routed_of_alone stays.1 stays.2

/-- A batch that skips conflicts does not list the parent, if it is durable, as a wisp. -/
def Op.Fits (s : CountedStore) (parentID : String) : Op → Prop
  | .createIssues ctx _ batch => ctx.opts.conflictSkip = true → s.store.Holds (.issues, parentID) →
      ∀ issue ∈ batch, issue.isWisp = true → ¬ issue.MayGet ctx parentID
  | _ => True

/-- Accepted calls, with the ids that were stored or drawn so far. The parent stays in
its plane, and every call fits it. -/
inductive Reaches (p : Plane) (parentID : String) (s : CountedStore) :
    CountedStore → Set String → Prop
  | refl : Reaches p parentID s s s.stored
  | step {t u : CountedStore} {used : Set String} {op : Op} {drawn : Option String}
      (reached : Reaches p parentID s t used) (returns : (t.run op).Returns (u, drawn))
      (fits : op.Fits t parentID) (stays : u.StaysIn p parentID) :
      Reaches p parentID s u (used ∪ u.stored ∪ {id | drawn = some id})

/-- The used ids and the counter of the parent. -/
structure Tracked (s : CountedStore) (p : Plane) (parentID : String) (used : Set String) :
    Prop where
  stays : s.StaysIn p parentID
  stored : s.stored ⊆ used
  natural : (s.counters p).find? parentID = none ∨ s.Within p parentID 0
  counted : ∀ num, 1 ≤ num → num ≤ 2147483647 → childID parentID num ∈ used → s.Within p parentID num

/-- What a call has to do for the next state to be tracked: new child ids are counted. -/
theorem Tracked.next (tracked : s.Tracked p parentID used) {drawn : Option String}
    (stays : t.StaysIn p parentID)
    (within : ∀ num, s.Within p parentID num → t.Within p parentID num)
    (opened : (s.counters p).find? parentID = none →
      (t.counters p).find? parentID = none ∨ t.Within p parentID 0)
    (new : ∀ num, 1 ≤ num → num ≤ 2147483647 → childID parentID num ∈ t.stored →
      childID parentID num ∉ s.stored →
      t.Within p parentID num)
    (drew : ∀ num, drawn = some (childID parentID num) → t.Within p parentID num) :
    t.Tracked p parentID (used ∪ t.stored ∪ {id | drawn = some id}) where
  stays := stays
  stored id held := Or.inl (Or.inr held)
  natural := by
    rcases tracked.natural with none | positive
    · exact opened none
    · exact Or.inr (within 0 positive)
  counted num low high held := by
    rcases held with (old | now) | drawn
    · exact within num (tracked.counted num low high old)
    · by_cases before : childID parentID num ∈ s.stored
      · exact within num (tracked.counted num low high (tracked.stored before))
      · exact new num low high now before
    · exact drew num drawn

/-- The same for a call that draws no id. -/
theorem Tracked.undrawn (tracked : s.Tracked p parentID used) (stays : t.StaysIn p parentID)
    (within : ∀ num, s.Within p parentID num → t.Within p parentID num)
    (opened : (s.counters p).find? parentID = none →
      (t.counters p).find? parentID = none ∨ t.Within p parentID 0)
    (new : ∀ num, 1 ≤ num → num ≤ 2147483647 → childID parentID num ∈ t.stored →
      childID parentID num ∉ s.stored →
      t.Within p parentID num) : t.Tracked p parentID (used ∪ t.stored ∪ {id | none = some id}) := by
  refine tracked.next stays within opened new fun num drawn => ?_
  cases drawn

/-- Drawing an id takes the number after the counter and after the children that the
query finds. -/
theorem getNextChildID_spec {parent id : String} (ok : s.getNextChildID parent = .ok (id, t)) :
    id = childID parent ((s.tables (s.store.routed parent)).lastChild parent + 1) ∧
      (s.tables (s.store.routed parent)).lastChild parent + 1 ≤ 2147483647 ∧ Advanced s t ∧
      t.Within (s.store.routed parent) parent ((s.tables (s.store.routed parent)).lastChild parent + 1) := by
  unfold getNextChildID at ok
  extract_lets p next at ok
  cases set : s.setCounter p parent next with
  | error e =>
    rw [set] at ok
    cases ok
  | ok u =>
    rw [set] at ok
    cases ok
    have least := counter_le_lastChild (s.tables p) parent
    obtain ⟨advanced, within⟩ := setCounter_advances set (least.trans (by omega))
    exact ⟨rfl, (setCounter_spec set).1, advanced, within⟩

theorem Tracked.getNextChildID (tracked : s.Tracked p parentID used) {parent id : String}
    (ok : s.getNextChildID parent = .ok (id, t)) (stays : t.StaysIn p parentID) :
    t.Tracked p parentID (used ∪ t.stored ∪ {x | some id = some x}) := by
  obtain ⟨rfl, -, advanced, within⟩ := getNextChildID_spec ok
  have same : t.stored = s.stored := by
    unfold CountedStore.stored
    rw [advanced.store]
  refine tracked.next stays (advanced.within p parentID) (advanced.opened p parentID) ?_ ?_
  · intro num _ _ now before
    exact absurd (same ▸ now) before
  · intro num drawn
    obtain ⟨rfl, rfl⟩ := childID_eq (Option.some.inj drawn)
    rw [tracked.stays.routed] at within ⊢
    exact within

/-- Reconciliation covers a new child of the parent, whichever plane it is in. -/
theorem reconciled_within {issues : List NewIssue} {mid : CountedStore}
    (ok : mid.reconcileChildCounters issues = .ok t)
    (stays : mid.StaysIn p parentID) (fits : KnownWisp issues parentID → p = .wisps)
    {issue : NewIssue}
    (listed : issue ∈ issues) {num : Int} (low : 1 ≤ num) (high : num ≤ 2147483647)
    (named : issue.row.id = childID parentID num) : t.Within p parentID num := by
  have plane : mid.reconciledIn issues parentID = p := by
    unfold reconciledIn
    split
    · next known => exact (fits known).symm
    · exact stays.routed
  have parsed : parseHierarchicalID issue.row.id = some (parentID, num) := by
    rw [named]
    exact parseHierarchicalID_childID parentID (by omega) (by omega)
  have covered := (reconcileChildCounters_spec ok).2 issue listed parentID num parsed (by omega)
  rw [plane] at covered
  exact covered stays.1

theorem childID_ne_parent (num : Int) : childID parentID num ≠ parentID := by
  intro same
  have length := congrArg List.length (congrArg String.toList same)
  rw [childID_toList, List.length_append, List.length_cons] at length
  omega

theorem Tracked.createIssue (tracked : s.Tracked p parentID used) {ctx : BatchContext}
    {issue : NewIssue}
    (returns : (s.createIssue ctx issue).Returns t) (stays : t.StaysIn p parentID) :
    t.Tracked p parentID (used ∪ t.stored ∪ {id | none = some id}) := by
  obtain ⟨⟨written, accepted⟩, creates, rest⟩ := Call.returns_bind.mp returns
  have holds : ∀ n, written.Holds n → s.store.Holds n ∨ ∃ created, accepted = some created ∧ created.node = n :=
    fun n => (Store.createIssue_holds creates).2
  -- Without a reconciliation no id is new, or it is not one of a child.
  have plain : (∀ num, 1 ≤ num → num ≤ 2147483647 → (∃ q, written.Holds (q, childID parentID num)) →
      childID parentID num ∈ s.stored) → t = { s with store := written } →
      t.Tracked p parentID (used ∪ t.stored ∪ {id | none = some id}) := by
    rintro old rfl
    refine tracked.undrawn stays (fun _ within => within) Or.inl fun num low high now before => ?_
    exact absurd (old num low high now) before
  cases accepted with
  | none =>
    refine plain (fun num _ _ ⟨q, held⟩ => ?_) (Call.returns_pure.mp rest).symm
    rcases holds _ held with old | ⟨created, none, -⟩
    · exact ⟨q, old⟩
    · cases none
  | some created =>
    let mid : CountedStore := { s with store := written }
    have rest : (if (¬ s.store.Holds created.node ∧ written.Holds created.node) ∧
        ∃ parsed ∈ parseHierarchicalID created.row.id, 0 < parsed.2 then
          Call.ofExcept (mid.reconcileChildCounters [created]) else pure mid).Returns t := rest
    split at rest
    · have ok := Call.returns_ofExcept.mp rest
      obtain ⟨advanced, -⟩ := reconcileChildCounters_spec ok
      have store : t.store = written := advanced.store
      have stays' : mid.StaysIn p parentID := by
        unfold StaysIn at stays ⊢
        rwa [advanced.store] at stays
      refine tracked.undrawn stays (advanced.within p parentID) (advanced.opened p parentID) ?_
      rintro num low high ⟨q, now⟩ before
      rw [store] at now
      rcases holds _ now with old | ⟨_, same, node⟩
      · exact absurd ⟨q, old⟩ before
      · cases same
        have named : created.row.id = childID parentID num := congrArg Prod.snd node
        refine reconciled_within ok stays' (fun known => ?_) List.mem_cons_self low high named
        obtain ⟨other, only, -, id⟩ := known
        rw [List.mem_singleton.mp only, named] at id
        exact absurd id (childID_ne_parent num)
    · next unchanged =>
      refine plain (fun num low high ⟨q, held⟩ => ?_) (Call.returns_pure.mp rest).symm
      rcases holds _ held with old | ⟨_, same, node⟩
      · exact ⟨q, old⟩
      · cases same
        have named : created.row.id = childID parentID num := congrArg Prod.snd node
        by_contra before
        rw [← node] at held
        refine unchanged ⟨⟨fun there => before ⟨q, node ▸ there⟩, held⟩, (parentID, num), ?_,
          by omega⟩
        rw [named]
        exact parseHierarchicalID_childID parentID (by omega) (by omega)

theorem Tracked.createIssues (tracked : s.Tracked p parentID used) {ctx : BatchContext}
    {c : Coordinator} {batch : List NewIssue} (returns : (s.createIssues ctx c batch).Returns t)
    (fits : (Op.createIssues ctx c batch).Fits s parentID) (stays : t.StaysIn p parentID) :
    t.Tracked p parentID (used ∪ t.stored ∪ {id | none = some id}) := by
  obtain ⟨⟨landed, accepted⟩, lands, rest⟩ := Call.returns_bind.mp returns
  obtain ⟨⟨written, persisted⟩, persists, rest⟩ := Call.returns_bind.mp rest
  obtain ⟨counted, reconciles, rest⟩ := Call.returns_bind.mp rest
  obtain ⟨done, recomputes, rest⟩ := Call.returns_bind.mp rest
  obtain rfl := Call.returns_pure.mp rest
  have ok := Call.returns_ofExcept.mp reconciles
  obtain ⟨advanced, -⟩ := reconcileChildCounters_spec ok
  have rows := Store.landBatch_landed lands
  have holds : ∀ n, done.Holds n ↔ landed.Holds n := by
    intro n
    rw [(Store.recomputeIsBlocked_sameRow recomputes n).holds, Store.Holds,
      Store.persistDependencies_rows persists]
    exact Iff.rfl
  have stays' : StaysIn { s with store := written } p parentID := by
    unfold StaysIn at stays ⊢
    have same : ∀ n, done.Holds n ↔ written.Holds n :=
      fun n => (Store.recomputeIsBlocked_sameRow recomputes n).holds
    exact ⟨(same _).mp stays.1, fun held => stays.2 ((same _).mpr held)⟩
  have known : KnownWisp accepted parentID → p = .wisps := by
    rintro ⟨created, listed, wisp, named⟩
    by_contra durable
    have plane : p = .issues := by
      cases p with
      | issues => rfl
      | wisps => exact absurd rfl durable
    obtain ⟨issue, here, same, gets, apart⟩ := rows.origin created listed
    have held : s.store.Holds (.issues, parentID) := plane ▸ tracked.stays.1
    have sibling : created.plane.sibling = .issues := by
      rw [NewIssue.plane, wisp]
      rfl
    rw [sibling, named] at apart
    rcases apart with skips | free
    · exact fits skips held issue here (same ▸ wisp) (named ▸ gets)
    · exact free held
  refine tracked.undrawn stays (advanced.within p parentID) (advanced.opened p parentID) ?_
  rintro num low high ⟨q, now⟩ before
  rcases rows.new _ ((holds _).mp now) with old | ⟨created, listed, node⟩
  · exact absurd ⟨q, old⟩ before
  · exact reconciled_within ok stays' known listed low high (congrArg Prod.snd node)

private theorem Tracked.withDeleted (tracked : s.Tracked p parentID used) {deleted : Store}
    (shrinks : ∀ n, deleted.Holds n → s.store.Holds n)
    (stays : (s.withDeleted deleted).StaysIn p parentID) :
    (s.withDeleted deleted).Tracked p parentID
      (used ∪ (s.withDeleted deleted).stored ∪ {id | none = some id}) := by
  have same : ((s.withDeleted deleted).counters p).find? parentID =
      (s.counters p).find? parentID := by
    refine Option.ext fun counter => ?_
    rw [Table.find?_eq_some, Table.find?_eq_some]
    refine and_congr_left fun key => ?_
    change counter ∈ (s.counters p).delete _ ↔ _
    rw [Table.mem_delete, key]
    exact and_iff_left fun gone => gone.2 stays.1
  refine tracked.undrawn stays (fun num within => ?_) (fun none => Or.inl (same.trans none)) ?_
  · unfold Within at within ⊢
    rwa [same]
  · rintro num low high ⟨q, now⟩ before
    exact absurd ⟨q, shrinks _ now⟩ before

/-- One call keeps the counter of the parent above the ids that were used. -/
theorem Tracked.run (tracked : s.Tracked p parentID used) {op : Op} {drawn : Option String}
    (returns : (s.run op).Returns (t, drawn)) (fits : op.Fits s parentID)
    (stays : t.StaysIn p parentID) :
    t.Tracked p parentID (used ∪ t.stored ∪ {id | drawn = some id}) := by
  cases op with
  | getNextChildID parent =>
    have mapped := Call.returns_ofExcept.mp returns
    cases ok : s.getNextChildID parent with
    | error e =>
      rw [ok] at mapped
      cases mapped
    | ok r =>
      rw [ok] at mapped
      cases mapped
      exact tracked.getNextChildID ok stays
  | createIssue ctx issue =>
    obtain ⟨u, created, rest⟩ := Call.returns_bind.mp returns
    cases Call.returns_pure.mp rest
    exact tracked.createIssue created stays
  | createIssues ctx c batch =>
    obtain ⟨u, created, rest⟩ := Call.returns_bind.mp returns
    cases Call.returns_pure.mp rest
    exact tracked.createIssues created fits stays
  | deleteIssue id =>
    obtain ⟨u, deleted, rest⟩ := Call.returns_bind.mp returns
    cases Call.returns_pure.mp rest
    exact tracked.withDeleted (fun n => Store.deleteIssue_shrinks deleted) stays
  | deleteIssues ids cascade force dryRun =>
    obtain ⟨u, deleted, rest⟩ := Call.returns_bind.mp returns
    cases Call.returns_pure.mp rest
    exact tracked.withDeleted (fun n => Store.deleteIssues_shrinks deleted) stays

private theorem Reaches.tracked (start : s.Tracked p parentID s.stored)
    (reaches : Reaches p parentID s t used) :
    t.Tracked p parentID used := by
  induction reaches with
  | refl => exact start
  | step _ returns fits stays ih => exact ih.run returns fits stays

/-- In every run in which the parent stays in its plane and no batch that skips conflicts
lists a durable parent as a wisp, a drawn child id is neither stored in a table nor was
it ever stored or drawn before. -/
theorem getNextChildID_unused (s : CountedStore) (p : Plane) (parentID : String)
    (start : s.Tracked p parentID s.stored)
    (t : CountedStore) (used : Set String) (reaches : Reaches p parentID s t used) (id : String)
    (u : CountedStore)
    (drawn : t.getNextChildID parentID = .ok (id, u)) : id ∉ t.stored ∧ id ∉ used := by
  have tracked := reaches.tracked start
  suffices unused : id ∉ used from ⟨fun held => unused (tracked.stored held), unused⟩
  intro taken
  obtain ⟨rfl, high, -, -⟩ := getNextChildID_spec drawn
  rw [tracked.stays.routed] at taken high
  have least := counter_le_lastChild (t.tables p) parentID
  have low : 1 ≤ (t.tables p).lastChild parentID + 1 := by
    rcases tracked.natural with none | ⟨counter, found, positive⟩
    · have least : (((t.counters p).find? parentID).map CounterRow.lastChild).getD 0 ≤ _ := least
      rw [none] at least
      exact Int.le_add_of_sub_right_le least
    · have least : (((t.counters p).find? parentID).map CounterRow.lastChild).getD 0 ≤ _ := least
      rw [found] at least
      have least : counter.lastChild ≤ _ := least
      omega
  obtain ⟨counter, found, bound⟩ := tracked.counted _ low high taken
  have least : (((t.counters p).find? parentID).map CounterRow.lastChild).getD 0 ≤ _ := least
  rw [found] at least
  have least : counter.lastChild ≤ (t.tables p).lastChild parentID := least
  omega

/-- A durable parent without children. -/
def durableParent : CountedStore where
  store :=
    { rows := fun p => if p = .issues then ⟨[{ id := "bd-1" }], List.nodup_singleton _⟩ else .empty
      deps := fun _ => .empty }
  counters _ := .empty

theorem durableParent_tracked : durableParent.Tracked .issues "bd-1" durableParent.stored where
  stays := by
    unfold StaysIn
    decide +kernel
  stored _ held := held
  natural := Or.inl rfl
  counted num low high held := by
    obtain ⟨p, r, row, same⟩ := held
    cases p with
    | issues =>
      obtain rfl := List.mem_singleton.mp row
      exact absurd same.symm (childID_ne_parent num)
    | wisps => exact absurd row List.not_mem_nil

/-- A child that is stored as a wisp, under an id of its own. -/
def ephemeralChild : NewIssue := { row := { id := "bd-1.1", ephemeral := true } }

/-- The number of a child in the other plane is not drawn. -/
theorem getNextChildID_unused_ephemeralChild :
    ∃ t used, Reaches .issues "bd-1" durableParent t used ∧
      ∃ u, t.getNextChildID "bd-1" = .ok ("bd-1.2", u) ∧
      "bd-1.2" ∉ t.stored ∧ "bd-1.2" ∉ used := by
  obtain ⟨⟨t, drawn⟩, returns, stays, ⟨id, u⟩, next, second⟩ : ∃ r,
      (durableParent.run (.createIssue { configPrefix := "bd" } ephemeralChild)).Returns r ∧
        (r.1.store.Holds (.issues, "bd-1") ∧ ¬ r.1.store.Holds (.wisps, "bd-1")) ∧
          ∃ next ∈ (r.1.getNextChildID "bd-1").toOption, next.1 = "bd-1.2" :=
    Call.returns_of_value? (n := 2) (by decide +kernel)
  cases second
  have reaches : Reaches .issues "bd-1" durableParent t _ := .step .refl returns trivial stays
  have ok := eq_ok_of_mem_toOption next
  have unused :=
    getNextChildID_unused durableParent .issues "bd-1" durableParent_tracked t _ reaches _ u ok
  exact ⟨t, _, reaches, u, ok, unused⟩

/-- An import that skips conflicts. -/
def skippingContext : BatchContext where
  configPrefix := "bd"
  opts := { conflictSkip := true }

/-- The parent and a child of it, both as wisps. -/
def ephemeralFamily : List NewIssue :=
  [{ row := { id := "bd-1", ephemeral := true } }, { row := { id := "bd-1.1", ephemeral := true } }]

/-- The parent is skipped and the child stored; the counter of the durable parent is not
reconciled, and the id of the child is drawn again. -/
theorem skipped_parent_reuses_child :
    durableParent.Tracked .issues "bd-1" durableParent.stored ∧
      ∃ t, (durableParent.run (.createIssues skippingContext Store.oneShard ephemeralFamily)).Returns (t, none) ∧
        t.StaysIn .issues "bd-1" ∧ ∃ id u, t.getNextChildID "bd-1" = .ok (id, u) ∧
          id ∈ t.stored := by
  obtain ⟨r, returns, none, stays, ⟨id, u⟩, drawn, wisp⟩ : ∃ r,
      (durableParent.run (.createIssues skippingContext Store.oneShard ephemeralFamily)).Returns r ∧ r.2 = none ∧
        (r.1.store.Holds (.issues, "bd-1") ∧ ¬ r.1.store.Holds (.wisps, "bd-1")) ∧
          ∃ next ∈ (r.1.getNextChildID "bd-1").toOption, r.1.store.Holds (.wisps, next.1) :=
    Call.returns_of_value? (n := 2) (by decide +kernel)
  obtain ⟨t, drawnBefore⟩ := r
  cases none
  exact ⟨durableParent_tracked, t, returns, stays, id, u, eq_ok_of_mem_toOption drawn, .wisps, wisp⟩

end CountedStore
end Beads
