import Beads.Tracker

/-! What a pull may overwrite. An issue that was edited since the last sync is left
alone unless it was hydrated, and it is hydrated on the word of
`externalRefChangedAfter`. -/
namespace Beads
open Lib

namespace LocalStore
variable {s : LocalStore} {history : RefHistory} {lastSync : Nat}

/-- The store has the issue with this content. -/
def Has (s : LocalStore) (id : String) (content : String × String × Int × Status × String × String) : Prop :=
  ∃ issue ∈ s.issues, issue.id = id ∧ issue.content = content

instance (s : LocalStore) (id : String) (content : String × String × Int × Status × String × String) :
    Decidable (s.Has id content) :=
  inferInstanceAs (Decidable (∃ issue ∈ s.issues, issue.id = id ∧ issue.content = content))

/-- Issues that were edited since the last sync, and neither created nor linked anew
since, keep their content. -/
def KeepsEdits (before after : LocalStore) (history : RefHistory) (lastSync : Nat) : Prop :=
  ∀ issue ∈ before.issues, lastSync < issue.updatedAt → ¬ lastSync < history.linkedAt issue.id →
    after.Has issue.id issue.content

instance (before after : LocalStore) (history : RefHistory) (lastSync : Nat) :
    Decidable (before.KeepsEdits after history lastSync) :=
  inferInstanceAs (Decidable (∀ issue ∈ before.issues, _))

/-- The issue is linked with the reference, and the link counts as new. -/
def CountsAsRelinked (history : RefHistory) (lastSync : Nat) (ref : String) (issue : Issue) :
    Prop :=
  issue.externalRef.map trimSpace = some ref ∧ history.externalRefChangedAfter issue ref lastSync = true

instance (history : RefHistory) (lastSync : Nat) (ref : String) (issue : Issue) :
    Decidable (CountsAsRelinked history lastSync ref issue) := inferInstanceAs (Decidable (_ ∧ _))

/-- For every reference, the first issue whose link counts as new was created or linked
since the last sync, if it was edited since at all. -/
def RelinksAreNew (s : LocalStore) (history : RefHistory) (lastSync : Nat) : Prop :=
  ∀ ref ≠ "", ∀ issue, s.issues.rows.find? (CountsAsRelinked history lastSync ref ·) = some issue →
    lastSync < issue.updatedAt → lastSync < history.linkedAt issue.id

/-- No id is empty or has blanks around it. -/
def IdsTrimmed (s : LocalStore) : Prop :=
  ∀ issue ∈ s.issues, issue.id ≠ "" ∧ trimSpace issue.id = issue.id

/-! ## Writes -/

theorem mem_updateIssue {now : Nat} {id : String} {f : Issue → Issue} {keeps : ∀ r, (f r).id = r.id}
    {issue : Issue} : issue ∈ (s.updateIssue now id f keeps).issues ↔
      ∃ old ∈ s.issues, (if old.id = id then old.stamped now f else old) = issue := by
  simp only [updateIssue, Table.mem_update]

private theorem mem_updateIssue_of_ne {now : Nat} {id : String} {f : Issue → Issue}
    (keeps : ∀ r, (f r).id = r.id)
    {issue : Issue} (held : issue ∈ s.issues) (other : issue.id ≠ id) :
    issue ∈ (s.updateIssue now id f keeps).issues :=
  mem_updateIssue.mpr ⟨issue, held, if_neg other⟩

/-- A write that keeps the content of every row. -/
theorem Has.updateIssue {now : Nat} {id target : String} {f : Issue → Issue}
    (keeps : ∀ r, (f r).id = r.id)
    {content : String × String × Int × Status × String × String}
    (quiet : ∀ r, (f r).content = r.content)
    (has : s.Has id content) : (s.updateIssue now target f keeps).Has id content := by
  obtain ⟨issue, held, rfl, rfl⟩ := has
  refine ⟨_, mem_updateIssue.mpr ⟨issue, held, rfl⟩, ?_⟩
  unfold Issue.stamped
  split
  · split
    · exact ⟨rfl, rfl⟩
    · exact ⟨keeps issue, quiet issue⟩
  · exact ⟨rfl, rfl⟩

/-- A write that changes the content of its row. -/
theorem not_has_updateIssue {now : Nat} {f : Issue → Issue} (keeps : ∀ r, (f r).id = r.id)
    {issue : Issue} (held : issue ∈ s.issues) (changes : (f issue).content ≠ issue.content) :
    ¬ (s.updateIssue now issue.id f keeps).Has issue.id issue.content := by
  rintro ⟨row, inside, name, content⟩
  obtain ⟨old, stored, rfl⟩ := mem_updateIssue.mp inside
  have same : old.id = issue.id := by
    split at name
    · rwa [Issue.stamped_id keeps] at name
    · exact name
  rw [if_pos same, Table.eq_of_key stored held same] at content
  unfold Issue.stamped at content
  split at content
  · next unchanged => exact changes (congrArg Issue.content unchanged)
  · exact changes content

private theorem mem_applyPullIssueUpdate {cfg : Config} {row conv issue : Issue} {ref : String}
    (held : issue ∈ s.issues) (other : issue.id ≠ row.id) :
    issue ∈ ((s.applyPullIssueUpdate cfg row conv ref).getD s).issues := by
  unfold applyPullIssueUpdate
  split
  · exact held
  · split
    · exact held
    · rw [Option.getD_some]
      exact mem_updateIssue_of_ne _ held other

private theorem mem_createIssue {ctx : SyncContext} {new issue : Issue} {created : LocalStore}
    {id : String} (held : issue ∈ s.issues) (other : new.id ≠ "" → issue.id ≠ new.id)
    (returns : s.createIssue ctx new = some (created, id)) : issue ∈ created.issues := by
  unfold createIssue at returns
  extract_lets row at returns
  split at returns
  · obtain ⟨rfl, -⟩ := Prod.mk.inj (Option.some.inj returns)
    refine Table.mem_insertIgnore.mpr (Or.inl (Table.mem_delete.mpr ⟨held, ?_⟩))
    simp only [row]
    split
    · intro same
      exact ctx.fresh s.ids new (same ▸ List.mem_map_of_mem held)
    · next named => exact other named
  · cases returns

end LocalStore

private theorem resolveConflicts_allow (conflicts : List Conflict) :
    (resolveConflicts .keepLocal conflicts).allow = [] := by
  unfold resolveConflicts
  generalize start : ({} : Verdicts) = verdicts
  have none : verdicts.allow = [] := by rw [← start]
  clear start
  induction conflicts generalizing verdicts with
  | nil => exact none
  | cons c rest ih => exact ih _ none

namespace Engine
variable {ε ρ : Type} {e : Engine ε ρ} {history : RefHistory} {remote : ρ} {lastSync : Nat}

theorem of_bind_ok {α β : Type} {x : Except Fault α} {f : α → Except Fault β} {b : β}
    (returns : (x >>= f) = .ok b) :
    ∃ a, x = .ok a ∧ f a = .ok b := by
  cases x with
  | error fault => cases returns
  | ok a => exact ⟨a, rfl, returns⟩

/-! ## Hydration -/

theorem linkedRef_eq_some {issue : Issue} {ref : String} : e.linkedRef issue = some ref ↔
    issue.externalRef.map trimSpace = some ref ∧ ref ≠ "" ∧ e.tracker.isExternalRef ref = true := by
  unfold linkedRef
  rw [Option.filter_eq_some_iff]
  simp

/-- The turns of the hydration over the issues `done`. -/
structure Hydrated (e : Engine ε ρ) (history : RefHistory) (remote : ρ) (lastSync : Nat)
    (done : List Issue) (state : Hydration ε) : Prop where
  /-- An identifier of an issue that counted is seen, or unknown to the tracker. -/
  settled : ∀ issue ∈ done, ∀ ref, e.linkedRef issue = some ref →
    history.externalRefChangedAfter issue ref lastSync = true →
    trimSpace (e.tracker.extractIdentifier ref) ≠ "" →
      trimSpace (e.tracker.extractIdentifier ref) ∈ state.seen ∨
        e.ctx.toLower (trimSpace (e.tracker.extractIdentifier ref)) ∈ state.seen ∨
          e.tracker.fetchIssue remote (trimSpace (e.tracker.extractIdentifier ref)) = .ok none
  /-- Only the first issue that counts for a reference is hydrated. -/
  first : ∀ id ∈ state.localIds, ∃ ref, ref ≠ "" ∧ ∃ issue, issue.id = id ∧
    done.find? (LocalStore.CountsAsRelinked history lastSync ref ·) = some issue

theorem Hydrated.step {done : List Issue} {state after : Hydration ε} {issue : Issue}
    (inv : Hydrated e history remote lastSync done state)
    (turn : e.hydrateIssue history remote lastSync state issue = .ok after) :
    Hydrated e history remote lastSync (done ++ [issue]) after := by
  -- A turn that gathers nothing settles its own issue.
  have unchanged : after = state → (∀ ref, e.linkedRef issue = some ref →
      history.externalRefChangedAfter issue ref lastSync = true →
      trimSpace (e.tracker.extractIdentifier ref) ≠ "" →
        trimSpace (e.tracker.extractIdentifier ref) ∈ state.seen ∨
          e.ctx.toLower (trimSpace (e.tracker.extractIdentifier ref)) ∈ state.seen ∨
            e.tracker.fetchIssue remote (trimSpace (e.tracker.extractIdentifier ref)) = .ok none) →
      Hydrated e history remote lastSync (done ++ [issue]) after := by
    rintro rfl here
    refine ⟨fun other inside => ?_, fun id held => ?_⟩
    · rcases List.mem_append.mp inside with before | last
      · exact inv.settled other before
      · rw [List.mem_singleton.mp last]
        exact here
    · obtain ⟨ref, named, found, same, first⟩ := inv.first id held
      refine ⟨ref, named, found, same, ?_⟩
      rw [List.find?_append, first, Option.some_or]
  unfold hydrateIssue at turn
  split at turn
  · next unlinked =>
    refine unchanged (Except.ok.inj turn).symm fun ref linked => ?_
    rw [unlinked] at linked
    cases linked
  · next ref linked =>
    extract_lets identifier at turn
    have only : ∀ other, e.linkedRef issue = some other → other = ref := fun other same =>
      (Option.some.inj (linked.symm.trans same)).symm
    split at turn
    · next skipped =>
      refine unchanged (Except.ok.inj turn).symm fun other same changed nonempty => ?_
      obtain rfl := only other same
      rcases skipped with unchanged | empty | seen | seen
      · rw [changed] at unchanged
        cases unchanged
      · exact absurd empty nonempty
      · exact Or.inl seen
      · exact Or.inr (Or.inl seen)
    · next taken =>
      obtain ⟨changed, nonempty, unseen, unseenLower⟩ : history.externalRefChangedAfter issue ref lastSync = true ∧
          identifier ≠ "" ∧ identifier ∉ state.seen ∧ e.ctx.toLower identifier ∉ state.seen := by
        simpa only [not_or, Bool.not_eq_false] using taken
      obtain ⟨found, fetched, turn⟩ := of_bind_ok turn
      cases found with
      | none =>
        refine unchanged (Except.ok.inj turn).symm fun other same _ _ => ?_
        obtain rfl := only other same
        exact Or.inr (Or.inr fetched)
      | some ext =>
        obtain rfl := Except.ok.inj turn
        obtain ⟨trimmed, named, known⟩ := linkedRef_eq_some.mp linked
        refine ⟨fun other inside ref' linked' changed' nonempty' => ?_, fun id held => ?_⟩
        · rcases List.mem_append.mp inside with before | last
          · rcases inv.settled other before ref' linked' changed' nonempty' with
              seen | seen | unknown
            · exact Or.inl (List.mem_append_left _ seen)
            · exact Or.inr (Or.inl (List.mem_append_left _ seen))
            · exact Or.inr (Or.inr unknown)
          · rw [List.mem_singleton.mp last] at linked'
            obtain rfl := only ref' linked'
            refine Or.inl (List.mem_append_right _ ?_)
            simp [seenAs, nonempty', identifier]
        · rcases List.mem_append.mp held with before | last
          · obtain ⟨ref', named', found, same, first⟩ := inv.first id before
            refine ⟨ref', named', found, same, ?_⟩
            rw [List.find?_append, first, Option.some_or]
          · refine ⟨ref, named, issue, (List.mem_singleton.mp last).symm, ?_⟩
            -- An earlier issue that counts for the reference would have settled it.
            have earlier : done.find? (LocalStore.CountsAsRelinked history lastSync ref ·) = none := by
              rw [List.find?_eq_none]
              intro other before counts
              obtain ⟨trimmed', changed'⟩ := of_decide_eq_true counts
              have linked' : e.linkedRef other = some ref :=
                linkedRef_eq_some.mpr ⟨trimmed', named, known⟩
              rcases inv.settled other before ref linked' changed' nonempty with
                seen | seen | unknown
              · exact unseen seen
              · exact unseenLower seen
              · rw [fetched] at unknown
                cases unknown
            have counts : LocalStore.CountsAsRelinked history lastSync ref issue :=
              ⟨trimmed, changed⟩
            rw [List.find?_append, earlier, Option.none_or, List.find?_singleton,
              if_pos (decide_eq_true counts)]

theorem Hydrated.run {locals done : List Issue} {state after : Hydration ε}
    (inv : Hydrated e history remote lastSync done state)
    (run : locals.foldlM (e.hydrateIssue history remote lastSync) state = .ok after) :
    Hydrated e history remote lastSync (done ++ locals) after := by
  induction locals generalizing done state with
  | nil =>
    obtain rfl := Except.ok.inj run
    rwa [List.append_nil]
  | cons issue rest ih =>
    rw [List.foldlM_cons] at run
    obtain ⟨next, turn, rest⟩ := of_bind_ok run
    have last := ih (inv.step turn) rest
    rwa [List.append_assoc, List.singleton_append] at last

theorem fetchPrelinkedIssues_returns {fetched hydrated : List ε} {locals : List Issue}
    {localIds : List String}
    (returns : e.fetchPrelinkedIssues history remote fetched locals (some lastSync) = .ok (hydrated, localIds)) :
    ∃ seen found, locals.foldlM (e.hydrateIssue history remote lastSync) { seen := seen } = .ok found ∧
      found.hydrated = hydrated ∧ found.localIds = localIds := by
  obtain ⟨found, run, last⟩ := of_bind_ok returns
  obtain ⟨rfl, rfl⟩ := Prod.mk.inj (Except.ok.inj last)
  exact ⟨_, found, run, rfl, rfl⟩

/-- What `fetchPrelinkedIssues` hydrates is the first issue that counts for its
reference. -/
theorem fetchPrelinkedIssues_first {fetched hydrated : List ε} {locals : List Issue}
    {localIds : List String}
    (returns : e.fetchPrelinkedIssues history remote fetched locals (some lastSync) = .ok (hydrated, localIds)) :
    ∀ id ∈ localIds, ∃ ref, ref ≠ "" ∧ ∃ issue, issue.id = id ∧
      locals.find? (LocalStore.CountsAsRelinked history lastSync ref ·) = some issue := by
  obtain ⟨seen, found, run, -, rfl⟩ := fetchPrelinkedIssues_returns returns
  have start : Hydrated e history remote lastSync [] { seen := seen } := by
    constructor
    · intro _ inside
      cases inside
    · intro _ inside
      cases inside
  simpa only [List.nil_append] using (start.run run).first

/-! ## The pull loop -/

private theorem localById_mem {locals : List Issue} {id : String} {row : Issue}
    (found : localById locals id = some row) :
    row ∈ locals := by
  unfold localById at found
  split at found
  · cases found
  · exact List.mem_reverse.mp (List.mem_of_find?_eq_some found)

/-- The row a pull updates is one that was read before the loop, or is stored. -/
theorem existing_mem {store : LocalStore} {locals : List Issue} {ref : String} {conv row : Issue}
    (found : e.existing store locals ref conv = some row) : row ∈ store.issues ∨ row ∈ locals := by
  unfold existing at found
  rcases Option.or_eq_some_iff.mp found with found | ⟨-, found⟩
  · rcases Option.or_eq_some_iff.mp found with found | ⟨-, found⟩
    · exact Or.inl (List.mem_of_find?_eq_some found)
    · split at found
      · cases found
      · unfold localByExternalIdentifier at found
        split at found
        · cases found
        · exact Or.inr (List.mem_reverse.mp (List.mem_of_find?_eq_some found))
  · exact Or.inr (localById_mem found)

/-- An issue that no conversion finds has a new id, if it has one. -/
theorem generateId_new {store : LocalStore} {locals : List Issue} {ref : String}
    {converted transformed issue : Issue}
    {id : String} (trimmed : trimSpace converted.id = converted.id)
    (same : transformed.id = converted.id)
    (missing : e.existing store locals ref converted = none) (read : issue ∈ locals)
    (held : issue ∈ store.issues)
    (generated : e.generateId store.ids transformed = some id) : id ≠ "" → issue.id ≠ id := by
  unfold generateId at generated
  rw [same] at generated
  split at generated
  · next named =>
    obtain rfl := Option.some.inj generated
    intro _ here
    unfold existing at missing
    have unknown := (Option.or_eq_none_iff.mp missing).2
    rw [trimmed] at unknown
    unfold localById at unknown
    rw [if_neg named, List.find?_eq_none] at unknown
    refine unknown issue (List.mem_reverse.mpr read) (decide_eq_true ?_)
    rw [here, trimmed]
  · split at generated
    · intro nonempty
      exact absurd (Option.some.inj generated).symm nonempty
    · next generate hook =>
      intro _ here
      exact e.pullHooks.fresh generate hook store.ids transformed id generated
        (here ▸ List.mem_map_of_mem held)

/-- The end of a turn leaves a row alone that was edited since the last sync and is not
hydrated. -/
theorem importIssue_keeps {opts : SyncOptions} {hydratedIds : List String}
    {state : LocalStore × List String}
    {ext : ε} {conv issue : Issue} {ref : String} {found : Option Issue}
    (edited : lastSync < issue.updatedAt)
    (guarded : issue.id ∉ hydratedIds) (held : issue ∈ state.1.issues)
    (isRow : ∀ row, found = some row → issue.id = row.id → row = issue)
    (isNew : found = none → conv.id ≠ "" → issue.id ≠ conv.id) :
    issue ∈ (e.importIssue opts (some lastSync) [] hydratedIds state ext conv ref found).1.issues := by
  cases found with
  | some row =>
    rw [importIssue]
    split
    · exact held
    · next passed =>
      refine LocalStore.mem_applyPullIssueUpdate held fun here => ?_
      refine passed (Or.inl ⟨lastSync, rfl, ?_⟩)
      rw [isRow row rfl here]
      exact ⟨edited, List.not_mem_nil, guarded⟩
  | none =>
    rw [importIssue]
    split
    · exact held
    · split
      · exact held
      · next created id returns =>
        have apart : conv.id ≠ "" → issue.id ≠ conv.id := isNew rfl
        exact @LocalStore.mem_createIssue state.1 e.ctx { conv with externalRef := some ref } issue
          created id
          held apart returns

/-- One turn of the loop does so, for a row that was read before the loop. -/
theorem pullIssue_keeps {opts : SyncOptions} {locals : Table Issue.id} {hydratedIds : List String}
    {state : LocalStore × List String} {ext : ε} {issue : Issue} (read : issue ∈ locals)
    (edited : lastSync < issue.updatedAt) (guarded : issue.id ∉ hydratedIds)
    (held : issue ∈ state.1.issues) :
    issue ∈ (e.pullIssue opts locals.rows (some lastSync) [] hydratedIds state ext).1.issues := by
  unfold pullIssue
  split
  · exact held
  · split
    · exact held
    · next converted conversion =>
      extract_lets ref
      split
      · exact held
      · next id generated =>
        refine importIssue_keeps edited guarded held (fun row found here => ?_) fun missing => ?_
        · rcases existing_mem found with stored | before
          · exact Table.eq_of_key stored held here.symm
          · exact Table.eq_of_key before read here.symm
        · have same : (e.transformIssue converted).id = converted.id := rfl
          exact generateId_new (e.tracker.trimmed ext converted conversion) same missing read held
            generated

/-- A pull goes through the selected issues, or through the fetched and the hydrated
ones. -/
theorem pullCandidates_returns {opts : SyncOptions} {state : SyncState ρ} {candidates : List ε}
    {hydratedIds : List String} (returns : e.pullCandidates history opts state = .ok (candidates, hydratedIds)) :
    (candidates = e.fetchSelected state.remote state.store.issues.rows opts.issueIds ∧
      hydratedIds = []) ∨
      ∃ fetched hydrated, e.tracker.fetchIssues state.remote { state := opts.state, since := state.store.lastSync } =
          .ok fetched ∧ e.fetchPrelinkedIssues history state.remote fetched state.store.issues.rows
            state.store.lastSync = .ok (hydrated, hydratedIds) ∧ candidates = fetched ++ hydrated := by
  unfold pullCandidates at returns
  extract_lets locals at returns
  split at returns
  · obtain ⟨rfl, rfl⟩ := Prod.mk.inj (Except.ok.inj returns)
    exact Or.inl ⟨rfl, rfl⟩
  · obtain ⟨fetched, fetch, rest⟩ := of_bind_ok returns
    obtain ⟨found, hydrate, last⟩ := of_bind_ok rest
    obtain ⟨rfl, rfl⟩ := Prod.mk.inj (Except.ok.inj last)
    exact Or.inr ⟨fetched, found.1, fetch, hydrate, rfl⟩

theorem doPull_returns {opts : SyncOptions} {allow : List String} {state : SyncState ρ}
    {result : LocalStore × List String}
    (returns : e.doPull history opts allow state = .ok result) : ∃ candidates hydratedIds,
      e.pullCandidates history opts state = .ok (candidates, hydratedIds) ∧
        result = candidates.foldl
        (e.pullIssue opts state.store.issues.rows state.store.lastSync allow hydratedIds)
        (state.store, []) := by
  obtain ⟨found, gathered, last⟩ := of_bind_ok returns
  exact ⟨found.1, found.2, gathered, (Except.ok.inj last).symm⟩

private theorem doPull_keeps {opts : SyncOptions} {state : SyncState ρ} {store : LocalStore}
    {pulled : List String} {issue : Issue} (since : state.store.lastSync = some lastSync)
    (sound : state.store.RelinksAreNew history lastSync) (held : issue ∈ state.store.issues)
    (edited : lastSync < issue.updatedAt) (old : ¬ lastSync < history.linkedAt issue.id)
    (returns : e.doPull history opts [] state = .ok (store, pulled)) : issue ∈ store.issues := by
  obtain ⟨candidates, hydratedIds, gathered, result⟩ := doPull_returns returns
  have guarded : issue.id ∉ hydratedIds := by
    rcases pullCandidates_returns gathered with ⟨-, rfl⟩ | ⟨fetched, hydrated, -, hydrate, -⟩
    · exact List.not_mem_nil
    · intro inside
      rw [since] at hydrate
      obtain ⟨ref, named, first, same, found⟩ := fetchPrelinkedIssues_first hydrate issue.id inside
      have isIssue : first = issue := Table.eq_of_key (List.mem_of_find?_eq_some found) held same
      rw [isIssue] at found
      exact old (sound ref named issue found edited)
  have kept : ∀ (l : List ε) (start : LocalStore × List String), issue ∈ start.1.issues →
      issue ∈ (l.foldl (e.pullIssue opts state.store.issues.rows (some lastSync) [] hydratedIds) start).1.issues := by
    intro l
    induction l with
    | nil => exact fun _ inside => inside
    | cons ext rest ih =>
      exact fun start inside => ih _ (pullIssue_keeps held edited guarded inside)
  have loop := kept candidates (state.store, []) held
  rw [since] at result
  rwa [← result] at loop

/-! ## The push -/

section Push
variable {id : String} {content : String × String × Int × Status × String × String}

theorem recordPushHash_issues {store : LocalStore} {issue : Issue} {ref : String} :
    (e.recordPushHash store issue ref).issues = store.issues := by
  unfold recordPushHash
  extract_lets value
  split <;> rfl

theorem recordPushHash_has {store : LocalStore} {issue : Issue} {ref : String}
    (has : store.Has id content) : (e.recordPushHash store issue ref).Has id content := by
  unfold LocalStore.Has
  rw [recordPushHash_issues]
  exact has

theorem setExternalRef_has {store : LocalStore} {now : Nat} {target ref : String}
    (has : store.Has id content) : (store.setExternalRef now target ref).Has id content :=
  LocalStore.Has.updateIssue _ (fun _ => rfl) has

theorem pushWrite_has {state : SyncState ρ} {issue : Issue} {extRef : String}
    (has : state.store.Has id content) :
    (e.pushWrite state issue extRef).1.store.Has id content := by
  unfold pushWrite
  split
  · exact has
  · exact recordPushHash_has has

private theorem pushUpdate_has {state : SyncState ρ} {issue : Issue} {extRef : String}
    (has : state.store.Has id content) :
    (e.pushUpdate state issue extRef).1.store.Has id content := by
  unfold pushUpdate
  split
  · exact has
  · split
    · exact has
    · split
      · split
        · exact recordPushHash_has has
        · exact pushWrite_has has
      · split
        · exact pushWrite_has has
        · exact has
    · exact pushWrite_has has

private theorem pushIssue_has {opts : SyncOptions} {force : List String} {state : SyncState ρ}
    {issue : Issue}
    (has : state.store.Has id content) :
    (e.pushIssue opts force state issue).1.store.Has id content := by
  unfold pushIssue
  extract_lets extRef
  split
  · unfold pushCreate
    split
    · exact has
    · exact recordPushHash_has (setExternalRef_has has)
  · split
    · exact has
    · split
      · exact has
      · split
        · exact pushWrite_has has
        · exact pushUpdate_has has

private theorem pushIssues_has {opts : SyncOptions} {force : List String} {issues : List Issue}
    {state : SyncState ρ}
    (has : state.store.Has id content) :
    (e.pushIssues opts force issues state).1.store.Has id content := by
  induction issues generalizing state with
  | nil => exact has
  | cons issue rest ih =>
    have one : (e.pushIssue opts force state issue).1.store.Has id content := pushIssue_has has
    unfold pushIssues
    split
    · next after turn =>
      rw [turn] at one
      exact ih one
    · next after turn =>
      rw [turn] at one
      exact one
    · next after turn =>
      rw [turn] at one
      exact one

/-- A push writes references and fingerprints, and no content. -/
theorem doPush_has {opts : SyncOptions} {verdicts : Verdicts} {state : SyncState ρ}
    (has : state.store.Has id content) : (e.doPush opts verdicts state).1.store.Has id content := by
  have applied : ∀ items :
      List BatchPushItem, (e.applyBatchPushResult state.store items).Has id content := by
    intro items
    unfold applyBatchPushResult
    generalize state.store = store at has
    induction items generalizing store with
    | nil => exact has
    | cons item rest ih =>
      rw [List.foldl_cons]
      split
      · exact ih store has
      · exact ih _ (setExternalRef_has has)
  unfold doPush
  extract_lets candidates
  split
  · exact has
  · split
    · exact pushIssues_has has
    · split
      · exact has
      · split
        · exact has
        · exact applied _

end Push

/-- A sync with the local version winning keeps the edits of a store whose links that
count as new are new. -/
theorem sync_keepsEdits {opts : SyncOptions} {state : SyncState ρ}
    (localWins : opts.conflictResolution = .keepLocal)
    (since : state.store.lastSync = some lastSync)
    (sound : state.store.RelinksAreNew history lastSync) :
    state.store.KeepsEdits (e.sync history opts state).store history lastSync := by
  intro issue held edited old
  have start : state.store.Has issue.id issue.content := ⟨issue, held, rfl, rfl⟩
  unfold sync
  extract_lets pull push verdicts stamp pushed
  have stamped : ∀ after : SyncState ρ, after.store.Has issue.id issue.content →
      (stamp after).store.Has issue.id issue.content := by
    intro after has
    unfold stamp
    split <;> exact has
  have finished : ∀ (after : SyncState ρ)
      (skip : List String), after.store.Has issue.id issue.content →
      (pushed after skip).store.Has issue.id issue.content := by
    intro after skip has
    unfold pushed
    split
    · have written : (e.doPush opts { verdicts with skip := skip } after).1.store.Has issue.id issue.content :=
        doPush_has has
      dsimp only
      split
      · exact stamped _ written
      · exact written
    · exact stamped after has
  split
  · have none : verdicts.allow = [] := by
      unfold verdicts
      split
      · rw [localWins]
        exact resolveConflicts_allow _
      · rfl
    rw [none]
    split
    · exact start
    · next store pulled returns =>
      exact finished _ _ ⟨issue, doPull_keeps since sound held edited old returns, rfl, rfl⟩
  · exact finished state _ start

end Engine

/-! ## Links that count as new and are not -/

/-- A text that is longer than those in use. -/
def freshText (taken : List String) : String :=
  String.ofList (List.replicate (taken.foldr (fun text n => max text.length n) 0 + 1) 'x')

theorem freshText_length (taken : List String) :
    (freshText taken).length = taken.foldr (fun text n => max text.length n) 0 + 1 := by
  simp [freshText]

attribute [irreducible] freshText

theorem freshText_not_mem (taken : List String) : freshText taken ∉ taken := by
  have bound : ∀ text ∈ taken, text.length ≤ taken.foldr (fun text n => max text.length n) 0 := by
    induction taken with
    | nil => simp
    | cons first rest ih =>
      intro text inside
      rcases List.mem_cons.mp inside with rfl | inside
      · exact le_max_left _ _
      · exact (ih text inside).trans (le_max_right _ _)
  intro inside
  have short := bound _ inside
  rw [freshText_length] at short
  omega

private theorem freshText_ne_empty (taken : List String) : freshText taken ≠ "" := by
  intro empty
  have length := freshText_length taken
  rw [empty] at length
  simp at length

/-- A context whose store numbers new issues by length. -/
def plainContext : SyncContext where
  newId taken _ := freshText taken
  fresh taken _ := freshText_not_mem taken

/-- A tracker with one issue: the given one under another title. -/
def retitling (s : LocalStore) (issue : Issue) (ref : String)
    (trimmed : trimSpace issue.id = issue.id) :
    Engine Unit Unit where
  tracker := {
    updatedAt := fun _ => 0
    identifier := fun _ => ""
    isExternalRef := fun r => r = ref
    extractIdentifier := fun r => if r = ref then "x" else ""
    buildExternalRef := fun _ => freshText (ref :: s.issues.rows.filterMap Issue.externalRef)
    issueToBeads := fun _ => some { issue with title := freshText [issue.title] }
    trimmed := fun _ conv conversion => by
      cases conversion
      exact trimmed
    fetchIssues := fun _ _ => .ok []
    fetchIssue := fun _ _ => .ok (some ())
    createIssue := fun _ _ => ((), .error .other)
    updateIssue := fun _ _ _ => ((), .error .other) }
  ctx := plainContext

namespace Engine
variable {s : LocalStore} {issue : Issue} {ref : String} {history : RefHistory} {lastSync : Nat}
variable {trimmed : trimSpace issue.id = issue.id}

private theorem foldlM_quiet {σ α β : Type} {f : σ → α → Except β σ} {state : σ} {l : List α}
    (quiet : ∀ a ∈ l, f state a = .ok state) : l.foldlM f state = .ok state := by
  induction l with
  | nil => rfl
  | cons a rest ih =>
    rw [List.foldlM_cons, quiet a List.mem_cons_self]
    exact ih fun b inside => quiet b (List.mem_cons_of_mem a inside)

private theorem retitling_linkedRef {other : Issue} {r : String}
    (linked : (retitling s issue ref trimmed).linkedRef other = some r) :
    r = ref ∧ other.externalRef.map trimSpace = some ref := by
  obtain ⟨same, -, known⟩ := linkedRef_eq_some.mp linked
  have isRef : r = ref := of_decide_eq_true known
  exact ⟨isRef, isRef ▸ same⟩

private theorem retitling_quiet {other : Issue} {state : Hydration Unit}
    (skipped : ¬ LocalStore.CountsAsRelinked history lastSync ref other ∨ "x" ∈ state.seen) :
    (retitling s issue ref trimmed).hydrateIssue history () lastSync state other = .ok state := by
  unfold hydrateIssue
  split
  · rfl
  · next r linked =>
    obtain ⟨rfl, trimmedRef⟩ := retitling_linkedRef linked
    have isX : trimSpace ((retitling s issue r trimmed).tracker.extractIdentifier r) = "x" := by
      have extracted : (retitling s issue r trimmed).tracker.extractIdentifier r = "x" := if_pos rfl
      rw [extracted]
      decide
    rw [isX]
    refine if_pos ?_
    rcases skipped with old | seen
    · exact Or.inl (Bool.eq_false_iff.mpr fun changed => old ⟨trimmedRef, changed⟩)
    · exact Or.inr (Or.inr (Or.inl seen))

/-- The tracker's issue is hydrated for the first local issue that counts. -/
theorem retitling_hydrates (named : ref ≠ "")
    (first : s.issues.rows.find? (LocalStore.CountsAsRelinked history lastSync ref ·) = some issue) :
    (retitling s issue ref trimmed).fetchPrelinkedIssues history ()
    [] s.issues.rows (some lastSync) =
      .ok ([()], [issue.id]) := by
  obtain ⟨counts, done, rest, split, before⟩ := List.find?_eq_some_iff_append.mp first
  obtain ⟨trimmedRef, changed⟩ := of_decide_eq_true counts
  let e := retitling s issue ref trimmed
  have isX : trimSpace (e.tracker.extractIdentifier ref) = "x" := by
    have extracted : e.tracker.extractIdentifier ref = "x" := if_pos rfl
    rw [extracted]
    decide
  have turn : e.hydrateIssue history () lastSync { seen := [] } issue =
      .ok { hydrated := [()], localIds := [issue.id], seen := e.seenAs "x" } := by
    have linked : e.linkedRef issue = some ref :=
      linkedRef_eq_some.mpr ⟨trimmedRef, named, decide_eq_true rfl⟩
    unfold hydrateIssue
    rw [linked]
    simp only [isX, changed]
    rfl
  have quietBefore :
      done.foldlM (e.hydrateIssue history () lastSync) { seen := [] } = .ok { seen := [] } := by
    refine foldlM_quiet fun other inside => retitling_quiet (Or.inl fun counts => ?_)
    simpa [counts] using before other inside
  have quietAfter : rest.foldlM (e.hydrateIssue history () lastSync)
      { hydrated := [()], localIds := [issue.id], seen := e.seenAs "x" } =
        .ok { hydrated := [()], localIds := [issue.id], seen := e.seenAs "x" } :=
    foldlM_quiet fun other inside => retitling_quiet (Or.inr (by simp [seenAs]))
  have run : s.issues.rows.foldlM (e.hydrateIssue history () lastSync) { seen := [] } =
      .ok { hydrated := [()], localIds := [issue.id], seen := e.seenAs "x" } := by
    rw [split, List.foldlM_append, quietBefore]
    dsimp only [bind, Except.bind]
    rw [List.foldlM_cons, turn]
    exact quietAfter
  have gathered : (s.issues.rows.foldlM (e.hydrateIssue history () lastSync) { seen := [] } >>= fun found =>
      pure (found.hydrated, found.localIds)) = .ok ([()], [issue.id]) := by
    rw [run]
    rfl
  exact gathered

private theorem retitling_existing (held : issue ∈ s.issues) (ids : s.IdsTrimmed) :
    (retitling s issue ref trimmed).existing s s.issues.rows
      ((retitling s issue ref trimmed).tracker.buildExternalRef ())
        { issue with title := freshText [issue.title] } = some issue := by
  let built := freshText (ref :: s.issues.rows.filterMap Issue.externalRef)
  have unused : built ∉ ref :: s.issues.rows.filterMap Issue.externalRef := freshText_not_mem _
  have byRef : s.issueByExternalRef built = none := by
    unfold LocalStore.issueByExternalRef
    rw [List.find?_eq_none]
    intro other inside same
    exact unused (List.mem_cons_of_mem _ (List.mem_filterMap.mpr ⟨other, inside, of_decide_eq_true same⟩))
  have byIdentifier : (retitling s issue ref trimmed).localByExternalIdentifier s.issues.rows
      ((retitling s issue ref trimmed).tracker.extractIdentifier built) = none := by
    have other : built ≠ ref := fun same => unused (same ▸ List.mem_cons_self)
    have empty : (retitling s issue ref trimmed).tracker.extractIdentifier built = "" :=
      if_neg other
    rw [empty]
    exact if_pos rfl
  have byId : localById s.issues.rows (trimSpace issue.id) = some issue := by
    rw [trimmed]
    unfold localById
    rw [if_neg (ids issue held).1]
    cases found : s.issues.rows.reverse.find? (fun other => trimSpace other.id = issue.id) with
    | none =>
      exact absurd (decide_eq_true trimmed)
        (List.find?_eq_none.mp found issue (List.mem_reverse.mpr held))
    | some other =>
      have inside : other ∈ s.issues := List.mem_reverse.mp (List.mem_of_find?_eq_some found)
      have same : trimSpace other.id = issue.id := by simpa using List.find?_some found
      rw [Table.eq_of_key inside held ((ids other inside).2.symm.trans same)]
  unfold existing
  rw [show (retitling s issue ref trimmed).tracker.buildExternalRef () = built from rfl, byRef,
    Option.none_or, if_neg (freshText_ne_empty _), byIdentifier, Option.none_or]
  exact byId

/-- The issue as the tracker has it. -/
def retitled (issue : Issue) : Issue := { issue with title := freshText [issue.title] }

private theorem retitled_content : (retitled issue).content ≠ issue.content := by
  intro same
  have title : freshText [issue.title] = issue.title := congrArg Prod.fst same
  exact freshText_not_mem [issue.title] (List.mem_singleton.mpr title)

private theorem retitling_candidates {opts : SyncOptions} (bulk : opts.issueIds = [])
    (since : s.lastSync = some lastSync) (named : ref ≠ "")
    (first : s.issues.rows.find? (LocalStore.CountsAsRelinked history lastSync ref ·) = some issue) :
    (retitling s issue ref trimmed).pullCandidates history opts ⟨s, ()⟩ = .ok ([()], [issue.id]) := by
  have gathered : ((retitling s issue ref trimmed).fetchPrelinkedIssues history () [] s.issues.rows s.lastSync >>=
      fun found => pure ([] ++ found.1, found.2)) = .ok ([()], [issue.id]) := by
    rw [since, retitling_hydrates named first]
    rfl
  unfold pullCandidates
  extract_lets locals
  rw [if_neg (not_not.mpr bulk)]
  exact gathered

/-- The turn of the pull for the tracker's issue writes it over the local one. -/
theorem retitling_turn {opts : SyncOptions} (wet : opts.dryRun = false) (held : issue ∈ s.issues)
    (ids : s.IdsTrimmed) : ∃ pulled ref',
    (retitling s issue ref trimmed).pullIssue opts s.issues.rows (some lastSync) [] [issue.id]
    (s, []) () =
      (s.updateIssue plainContext.cfg.now issue.id (pullIssueUpdates issue (retitled issue) ref') fun _ => rfl,
        pulled) := by
  let e := retitling s issue ref trimmed
  refine ⟨[issue.id], e.tracker.buildExternalRef (), ?_⟩
  have accepted : s.applyPullIssueUpdate e.ctx.cfg issue (retitled issue)
      (e.tracker.buildExternalRef ()) =
      some (s.updateIssue e.ctx.cfg.now issue.id
        (pullIssueUpdates issue (retitled issue) (e.tracker.buildExternalRef ())) fun _ => rfl) := by
    have stored : s.issues.find? issue.id = some issue := Table.find?_eq_some.mpr ⟨held, rfl⟩
    unfold LocalStore.applyPullIssueUpdate
    rw [stored]
    exact if_neg (by simp [retitled])
  have imported : e.importIssue opts (some lastSync) [] [issue.id] (s, []) () (retitled issue)
      (e.tracker.buildExternalRef ()) (some issue) = ((s.applyPullIssueUpdate e.ctx.cfg issue (retitled issue)
        (e.tracker.buildExternalRef ())).getD s, [issue.id]) := by
    refine if_neg ?_
    rintro (⟨t, -, -, -, guarded⟩ | refused | same | dry)
    · exact guarded List.mem_cons_self
    · cases refused
    · simp only [pullIssueEqual, Bool.and_eq_true, decide_eq_true_eq] at same
      exact freshText_not_mem [issue.title] (List.mem_singleton.mpr same.1.1.1.1.1.1.1.symm)
    · rw [wet] at dry
      cases dry
  have generated : e.generateId s.ids (e.transformIssue (retitled issue)) = some issue.id :=
    if_pos (ids issue held).1
  have found : e.existing s s.issues.rows (e.tracker.buildExternalRef ())
      (retitled issue) = some issue :=
    retitling_existing held ids
  change e.pullIssue opts s.issues.rows (some lastSync) [] [issue.id] (s, []) () = _
  have converted : e.tracker.issueToBeads () = some (retitled issue) := rfl
  unfold pullIssue
  rw [converted]
  dsimp only
  rw [generated]
  dsimp only
  rw [found]
  refine imported.trans ?_
  rw [accepted]
  rfl

/-- A pull from the tracker loses the content of the first local issue that counts. -/
theorem retitling_sync (since : s.lastSync = some lastSync) (ids : s.IdsTrimmed) (named : ref ≠ "")
    (first : s.issues.rows.find? (LocalStore.CountsAsRelinked history lastSync ref ·) = some issue) :
    ¬ ((retitling s issue ref trimmed).sync history { pull := true, conflictResolution := .keepLocal }
      ⟨s, ()⟩).store.Has issue.id issue.content := by
  have held : issue ∈ s.issues := List.mem_of_find?_eq_some first
  let e := retitling s issue ref trimmed
  let opts : SyncOptions := { pull := true, conflictResolution := .keepLocal }
  obtain ⟨pulled, ref', turn⟩ : ∃ pulled ref', e.pullIssue opts s.issues.rows (some lastSync) [] [issue.id] (s, [])
      () = (s.updateIssue plainContext.cfg.now issue.id (pullIssueUpdates issue (retitled issue) ref') fun _ => rfl,
        pulled) := retitling_turn rfl held ids
  have pulls : e.doPull history opts [] ⟨s, ()⟩ = .ok (s.updateIssue plainContext.cfg.now issue.id
      (pullIssueUpdates issue (retitled issue) ref') fun _ => rfl, pulled) := by
    have looped : (e.pullCandidates history opts ⟨s, ()⟩ >>= fun found =>
        (pure (found.1.foldl (e.pullIssue opts s.issues.rows s.lastSync [] found.2) (s, [])) : Except Fault _)) =
          .ok (s.updateIssue plainContext.cfg.now issue.id
            (pullIssueUpdates issue (retitled issue) ref') fun _ => rfl, pulled) := by
      rw [retitling_candidates rfl since named first, since]
      exact congrArg Except.ok turn
    exact looped
  have lost : ¬ (s.updateIssue plainContext.cfg.now issue.id (pullIssueUpdates issue (retitled issue) ref')
      fun _ => rfl).Has issue.id issue.content := LocalStore.not_has_updateIssue _ held retitled_content
  change ¬ (e.sync history opts ⟨s, ()⟩).store.Has issue.id issue.content
  unfold sync
  extract_lets pull push verdicts stamp pushed
  rw [if_pos (show pull = true from rfl), show verdicts.allow = [] from rfl, pulls]
  exact lost

end Engine

/-- Whatever the tracker, its contents, the hooks and the options: a sync with the local
version winning overwrites an issue that was edited since the last sync only if it was
created or linked since. This holds of a store exactly when the links that count as new
are new. -/
theorem sync_keeps_local_edits_iff {s : LocalStore} {history : RefHistory} {lastSync : Nat}
    (since : s.lastSync = some lastSync) :
    (s.RelinksAreNew history lastSync →
      ∀ (ε ρ : Type) (e : Engine ε ρ) (opts : SyncOptions) (remote : ρ),
        opts.conflictResolution = .keepLocal →
          s.KeepsEdits (e.sync history opts ⟨s, remote⟩).store history lastSync) ∧
      (s.IdsTrimmed → (∀ (ε ρ : Type) (e : Engine ε ρ) (opts : SyncOptions) (remote : ρ),
        opts.conflictResolution = .keepLocal →
          s.KeepsEdits (e.sync history opts ⟨s, remote⟩).store history lastSync) →
            s.RelinksAreNew history lastSync) := by
  constructor
  · intro sound ε ρ e opts remote localWins
    exact @Engine.sync_keepsEdits ε ρ e history lastSync opts ⟨s, remote⟩ localWins since sound
  · intro ids keeps ref named issue first edited
    by_contra old
    have held : issue ∈ s.issues := List.mem_of_find?_eq_some first
    have trimmed := (ids issue held).2
    have kept := keeps Unit Unit (retitling s issue ref trimmed)
      { pull := true, conflictResolution := .keepLocal } () rfl issue held edited old
    exact Engine.retitling_sync since ids named first kept

/-- A tracker with one issue, `gh:1`. -/
def oneIssueEngine : Engine Issue Issue where
  tracker := {
    updatedAt := Issue.updatedAt
    identifier := fun _ => "1"
    isExternalRef := fun ref => ref = "gh:1"
    extractIdentifier := fun ref => if ref = "gh:1" then "1" else ""
    buildExternalRef := fun _ => "gh:1"
    issueToBeads := fun ext => some { ext with id := "" }
    trimmed := by
      intro ext conv conversion
      cases conversion
      rfl
    fetchIssues := fun remote opts => .ok (if ∀ t ∈ opts.since, t < remote.updatedAt then [remote] else [])
    fetchIssue := fun remote identifier => .ok (if identifier = "1" then some remote else none)
    createIssue := fun remote _ => (remote, .error .other)
    updateIssue := fun remote _ issue => ({ issue with updatedAt := remote.updatedAt }, .ok ()) }
  ctx := { plainContext with toLower := id, cfg := { now := 10 } }

/-- An issue that was linked at 1 and edited at 9; the last sync was at 5. -/
def editedStore : LocalStore where
  issues := ⟨[{ id := "bd-1", title := "Local", externalRef := some "gh:1", createdAt := 1, updatedAt := 9 }],
    by decide⟩
  lastSync := some 5

/-- What the tracker has of it since 3. -/
def staleRemote : Issue := { id := "1", title := "Old", updatedAt := 3 }

/-- With a history to ask the edit is kept. -/
theorem sync_keeps_local_edits_iff_recorded :
    (oneIssueEngine.sync { linkedAt := fun _ => 1, previous := some fun _ _ => some "gh:1" }
      { conflictResolution := .keepLocal } ⟨editedStore, staleRemote⟩).store.Has "bd-1"
        ("Local", "", 2, .open, "task", "") := by
  have since : editedStore.lastSync = some 5 := rfl
  have new : editedStore.RelinksAreNew
      { linkedAt := fun _ => 1, previous := some fun _ _ => some "gh:1" } 5 := by
    intro ref _ issue first
    have held := List.mem_of_find?_eq_some first
    have counts := List.find?_some first
    obtain ⟨linked, changed⟩ := of_decide_eq_true counts
    rw [List.mem_singleton.mp held] at linked changed
    obtain rfl := Option.some.inj linked
    exact absurd changed (by decide)
  have kept := (sync_keeps_local_edits_iff since).1 new Issue Issue oneIssueEngine
    { conflictResolution := .keepLocal } staleRemote rfl
  exact kept _ List.mem_cons_self (by decide) (by decide)

/-- Without one it is overwritten by the old content, in a sync in both directions with
the local version winning. -/
theorem local_edit_overwritten :
    ¬ editedStore.KeepsEdits (oneIssueEngine.sync { linkedAt := fun _ => 1 } { conflictResolution := .keepLocal }
        ⟨editedStore, staleRemote⟩).store { linkedAt := fun _ => 1 } 5 ∧
      (oneIssueEngine.sync { linkedAt := fun _ => 1 } { conflictResolution := .keepLocal }
        ⟨editedStore, staleRemote⟩).store.Has "bd-1" ("Old", "", 2, .open, "task", "") := by
  decide +kernel

end Beads
