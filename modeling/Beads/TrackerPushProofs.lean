import Mathlib.Logic.Relation
import Beads.TrackerPullProofs

/-! The push fingerprint. It is recorded by a push, and a push whose issue still has it
asks the tracker nothing. A pull takes over other content and leaves the fingerprint,
so content that comes back to the fingerprinted one is taken for pushed. -/
namespace Beads
open Lib Relation

/-- One issue on both sides. What is pushed of an issue is its content, of type `κ`, and
the remote has such a content too; all calls to the tracker succeed. -/
structure Link (ε ρ κ : Type) where
  engine : Engine ε ρ
  id : String
  ref : String
  content : Issue → κ
  remoteContent : ρ → κ
  known : engine.tracker.isExternalRef ref = true
  named : trimSpace ref ≠ ""
  identified : engine.tracker.extractIdentifier ref ≠ ""
  /-- The tracker has this issue only. -/
  builds : ∀ ext, engine.tracker.buildExternalRef ext = ref
  alone : engine.tracker.batchPush = none
  /-- An update puts the content of the issue in place. -/
  updates : ∀ remote issue,
    (engine.tracker.updateIssue remote (engine.tracker.extractIdentifier ref)
      (engine.formatPushIssue issue)).2 = .ok () ∧
      remoteContent (engine.tracker.updateIssue remote (engine.tracker.extractIdentifier ref)
        (engine.formatPushIssue issue)).1 = content issue
  /-- A comparison compares the contents. -/
  contentEqual : Issue → ε → Bool
  compares : engine.pushHooks.contentEqual = some contentEqual
  fetches : ∀ remote, ∃ ext,
    engine.tracker.fetchIssue remote (engine.tracker.extractIdentifier ref) = .ok (some ext) ∧
      ∀ issue, contentEqual issue ext = true ↔ content issue = remoteContent remote
  /-- A pull takes over the content of the remote. -/
  imports : ∀ remote ext conv id, (∃ opts fetched, engine.tracker.fetchIssues remote opts = .ok fetched ∧
      ext ∈ fetched) ∨ (∃ identifier, engine.tracker.fetchIssue remote identifier = .ok (some ext)) →
    engine.tracker.issueToBeads ext = some conv → ∀ (stored : Issue) (now : Nat), stored.externalRef = some ref →
      content (stored.stamped now (pullIssueUpdates stored { engine.transformIssue conv with id := id } ref)) =
        remoteContent remote
  /-- The fingerprint tells contents apart. -/
  hashes : ∀ a b, engine.pushHooks.contentHash a = engine.pushHooks.contentHash b ↔ content a = content b
  hashed : ∀ issue, engine.pushHooks.contentHash issue ≠ ""

namespace Link
variable {ε ρ κ : Type} (l : Link ε ρ κ)

/-- The engine at some time. -/
def within (ctx : SyncContext) : Engine ε ρ := { l.engine with ctx := ctx }

/-- The store has the linked issue and no other. -/
def Single (state : SyncState ρ) (issue : Issue) : Prop :=
  state.store.issues.rows = [issue] ∧ issue.id = l.id ∧ issue.externalRef = some l.ref

/-- Both sides have the same content. -/
def Synced (state : SyncState ρ) : Prop :=
  ∀ issue ∈ state.store.issues, l.content issue = l.remoteContent state.remote

/-- What happens to the issue. An edit, local or remote, is any change of content; a
pull or a push is a sync in one direction, and a push lets the issue through its
filters. -/
inductive Event (ρ : Type) where
  | edit (now : Nat) (f : Issue → Issue)
  | remoteEdit (remote : ρ)
  | pull (ctx : SyncContext) (history : RefHistory) (opts : SyncOptions)
  | push (ctx : SyncContext) (history : RefHistory) (opts : SyncOptions)

/-- When the event can happen. -/
def Allowed (state : SyncState ρ) : Event ρ → Prop
  | .edit _ f => ∀ issue, (f issue).id = issue.id ∧ (f issue).externalRef = issue.externalRef
  | .remoteEdit _ => True
  | .pull _ _ opts => opts.pull = true ∧ opts.push = false
  | .push ctx _ opts =>
    opts.push = true ∧ opts.pull = false ∧ opts.dryRun = false ∧ opts.createOnly = false ∧
      ∀ issue ∈ state.store.issues, issue ∈ (l.within ctx).pushCandidates opts {} state.store

/-- The local edit. -/
def editStore (state : SyncState ρ) (now : Nat) (f : Issue → Issue) : SyncState ρ :=
  { state with store := state.store.updateIssue now l.id (fun r => { f r with id := r.id }) fun _ => rfl }

/-- The state after the event. -/
def after (state : SyncState ρ) : Event ρ → SyncState ρ
  | .edit now f => l.editStore state now f
  | .remoteEdit remote => { state with remote := remote }
  | .pull ctx history opts => (l.within ctx).sync history opts state
  | .push ctx history opts => (l.within ctx).sync history opts state

/-- The stored fingerprint is that of the content. -/
def Fingerprinted (state : SyncState ρ) (content : κ) : Prop :=
  ∃ pushed, l.content pushed = content ∧
    state.store.pushHash l.id = some (l.engine.pushCacheValue pushed l.ref)

/-- An edit does not bring back the fingerprinted content while the remote has another
one. -/
def Fits (state : SyncState ρ) : Event ρ → Prop
  | .edit now f => ∀ issue ∈ (l.editStore state now f).store.issues,
      l.Fingerprinted state (l.content issue) → l.content issue = l.remoteContent state.remote
  | _ => True

/-- The remote is not edited. -/
def Quiet : Event ρ → Prop
  | .remoteEdit _ => False
  | _ => True

/-- One event. -/
def Step (s t : SyncState ρ) : Prop := ∃ event, l.Allowed s event ∧ t = l.after s event

/-- One event, no edit of the remote, which fits. -/
def FittingStep (s t : SyncState ρ) : Prop :=
  ∃ event, l.Allowed s event ∧ Quiet event ∧ l.Fits s event ∧ t = l.after s event

variable {l} {state : SyncState ρ} {issue : Issue} {ctx : SyncContext}

/-! ## The fingerprint -/

private theorem colon_not_mem_toString (n : Nat) : ':' ∉ (toString n).toList := by
  intro inside
  rw [Nat.toString_eq_repr, Nat.toList_repr] at inside
  have digit := Nat.isDigit_of_mem_toDigits (by decide) (by decide) inside
  exact absurd digit (by decide)

/-- What follows the first separator. -/
theorem eq_of_append_cons {α : Type} {c : α} {x y u v : List α} (left : c ∉ x) (right : c ∉ y)
    (same : x ++ c :: u = y ++ c :: v) : u = v := by
  induction x generalizing y with
  | nil =>
    cases y with
    | nil => exact (List.cons.inj same).2
    | cons b y => exact absurd List.mem_cons_self ((List.cons.inj same).1 ▸ right)
  | cons a x ih =>
    cases y with
    | nil => exact absurd List.mem_cons_self ((List.cons.inj same).1 ▸ left)
    | cons b y =>
      exact ih (fun inside => left (List.mem_cons_of_mem a inside))
        (fun inside => right (List.mem_cons_of_mem b inside)) (List.cons.inj same).2

/-- A length before the content keeps contents apart, whatever follows. -/
theorem lengthPrefixed_inj {a b rest : String} {m n : Nat}
    (same : toString m ++ ":" ++ a ++ rest = toString n ++ ":" ++ b ++ rest) : a = b := by
  have lists := congrArg String.toList same
  simp only [String.toList_append, List.append_assoc] at lists
  have rests := eq_of_append_cons (colon_not_mem_toString m) (colon_not_mem_toString n) lists
  exact String.toList_inj.mp (List.append_cancel_right rests)

theorem pushCacheValue_eq (issue : Issue) : l.engine.pushCacheValue issue l.ref =
    "v3:" ++ (toString (l.engine.pushHooks.contentHash issue).utf8ByteSize ++ ":" ++
      l.engine.pushHooks.contentHash issue ++ (toString (trimSpace l.engine.pushHooks.targetScope).utf8ByteSize ++
        ":" ++ trimSpace l.engine.pushHooks.targetScope ++ trimSpace l.ref)) := by
  unfold Engine.pushCacheValue
  extract_lets content target scope
  rw [if_neg (not_or.mpr ⟨l.hashed issue, l.named⟩)]
  simp only [String.append_assoc, content, scope, target]

private theorem pushCacheValue_ne (issue : Issue) : l.engine.pushCacheValue issue l.ref ≠ "" := by
  rw [pushCacheValue_eq]
  intro empty
  have lists := congrArg String.toList empty
  rw [String.toList_append] at lists
  cases lists

/-- The fingerprints of two states of the issue agree exactly when the contents do. -/
theorem pushCacheValue_inj {a b : Issue} :
    l.engine.pushCacheValue a l.ref = l.engine.pushCacheValue b l.ref ↔
      l.content a = l.content b := by
  rw [← l.hashes]
  constructor
  · intro same
    rw [pushCacheValue_eq, pushCacheValue_eq] at same
    exact lengthPrefixed_inj ((String.append_right_inj "v3:").mp same)
  · intro same
    rw [pushCacheValue_eq, pushCacheValue_eq, same]

theorem storedPushHashMatches_iff {state : SyncState ρ} {issue : Issue} (name : issue.id = l.id) :
    l.engine.StoredPushHashMatches state.store issue l.ref ↔
      l.Fingerprinted state (l.content issue) := by
  unfold Engine.StoredPushHashMatches Fingerprinted
  rw [name]
  constructor
  · rintro ⟨-, stored⟩
    exact ⟨issue, rfl, stored⟩
  · rintro ⟨pushed, same, stored⟩
    rw [pushCacheValue_inj.mpr same] at stored
    exact ⟨pushCacheValue_ne issue, stored⟩

/-! ## Pull -/

/-- The tracker has given out the issue. -/
def Given (l : Link ε ρ κ) (remote : ρ) (ext : ε) : Prop :=
  (∃ opts fetched, l.engine.tracker.fetchIssues remote opts = .ok fetched ∧ ext ∈ fetched) ∨
    (∃ identifier, l.engine.tracker.fetchIssue remote identifier = .ok (some ext))

private theorem hydrateIssue_given {history : RefHistory} {remote : ρ} {lastSync : Nat}
    {found next : Engine.Hydration ε} (given : ∀ ext ∈ found.hydrated, l.Given remote ext)
    (turn : (l.within ctx).hydrateIssue history remote lastSync found issue = .ok next) :
    ∀ ext ∈ next.hydrated, l.Given remote ext := by
  unfold Engine.hydrateIssue at turn
  split at turn
  · rwa [← Except.ok.inj turn]
  · extract_lets identifier at turn
    split at turn
    · rwa [← Except.ok.inj turn]
    · obtain ⟨result, fetched, turn⟩ := Engine.of_bind_ok turn
      cases result with
      | none => rwa [← Except.ok.inj turn]
      | some new =>
        obtain rfl := Except.ok.inj turn
        intro ext inside
        rcases List.mem_append.mp inside with before | last
        · exact given ext before
        · rw [List.mem_singleton.mp last]
          exact Or.inr ⟨identifier, fetched⟩

private theorem hydrated_given {history : RefHistory} {remote : ρ} {lastSync : Nat}
    {locals : List Issue}
    {found next : Engine.Hydration ε} (given : ∀ ext ∈ found.hydrated, l.Given remote ext)
    (run : locals.foldlM ((l.within ctx).hydrateIssue history remote lastSync) found = .ok next) :
    ∀ ext ∈ next.hydrated, l.Given remote ext := by
  induction locals generalizing found with
  | nil => rwa [← Except.ok.inj run]
  | cons issue rest ih =>
    rw [List.foldlM_cons] at run
    obtain ⟨middle, turn, run⟩ := Engine.of_bind_ok run
    exact ih (hydrateIssue_given given turn) run

private theorem pullCandidates_given {history : RefHistory} {opts : SyncOptions}
    {candidates : List ε} {hydratedIds : List String}
    (returns : (l.within ctx).pullCandidates history opts state = .ok (candidates, hydratedIds)) :
    ∀ ext ∈ candidates, l.Given state.remote ext := by
  rcases Engine.pullCandidates_returns returns with
    ⟨rfl, -⟩ | ⟨fetched, hydrated, fetch, hydrate, rfl⟩
  · intro ext inside
    obtain ⟨id, -, found⟩ := List.mem_filterMap.mp inside
    extract_lets identifier at found
    split at found
    · cases found
    · split at found
      · next result fetched =>
        rw [found] at fetched
        exact Or.inr ⟨_, fetched⟩
      · cases found
  · intro ext inside
    rcases List.mem_append.mp inside with direct | late
    · exact Or.inl ⟨_, fetched, fetch, direct⟩
    · cases since : state.store.lastSync with
      | none =>
        rw [since] at hydrate
        obtain ⟨rfl, -⟩ := Prod.mk.inj (Except.ok.inj hydrate)
        cases late
      | some lastSync =>
        rw [since] at hydrate
        obtain ⟨seen, found, run, rfl, -⟩ := Engine.fetchPrelinkedIssues_returns hydrate
        have start : ∀ ext ∈ ([] : List ε), l.Given state.remote ext :=
          fun _ none => absurd none List.not_mem_nil
        exact hydrated_given start run ext late

theorem updateIssue_rows {store : LocalStore} {now : Nat} {f : Issue → Issue}
    (keeps : ∀ r, (f r).id = r.id) (rows : store.issues.rows = [issue]) :
    (store.updateIssue now issue.id f keeps).issues.rows = [issue.stamped now f] := by
  simp [LocalStore.updateIssue, Table.update, rows]

theorem stamped_externalRef {now : Nat} {f : Issue → Issue}
    (keeps : (f issue).externalRef = issue.externalRef) :
    (issue.stamped now f).externalRef = issue.externalRef := by
  unfold Issue.stamped
  split
  · rfl
  · exact keeps

/-- What a pull leaves: the fingerprints, and the issue as it was or with the content of
the remote. -/
structure Pulled (l : Link ε ρ κ) (state : SyncState ρ) (issue : Issue) (store : LocalStore)
    (new : Issue) : Prop where
  rows : store.issues.rows = [new]
  id : new.id = l.id
  ref : new.externalRef = some l.ref
  hash : store.pushHash = state.store.pushHash
  content : new = issue ∨ l.content new = l.remoteContent state.remote

private theorem pullIssueUpdates_id (existing remote : Issue) (ref : String) (stored : Issue) :
    (pullIssueUpdates existing remote ref stored).id = stored.id := rfl

theorem Pulled.update {store : LocalStore} {new conv : Issue} {now : Nat}
    (pulled : Pulled l state issue store new)
    (content : l.content (new.stamped now (pullIssueUpdates new conv l.ref)) = l.remoteContent state.remote) :
    Pulled l state issue (store.updateIssue now new.id (pullIssueUpdates new conv l.ref) fun _ => rfl)
      (new.stamped now (pullIssueUpdates new conv l.ref)) where
  rows := updateIssue_rows (pullIssueUpdates_id new conv l.ref) pulled.rows
  id := (Issue.stamped_id (pullIssueUpdates_id new conv l.ref) new).trans pulled.id
  ref := by
    have linked : new.externalRef.map trimSpace = some (trimSpace l.ref) := by
      rw [pulled.ref, Option.map_some]
    exact (stamped_externalRef (if_pos (Or.inr linked))).trans pulled.ref
  hash := pulled.hash
  content := Or.inr content

private theorem Pulled.turn {opts : SyncOptions} {locals : List Issue} {lastSync : Option Nat}
    {allow hydratedIds : List String} {current : LocalStore × List String} {new : Issue} {ext : ε}
    (pulled : Pulled l state issue current.1 new) (given : l.Given state.remote ext) :
    ∃ next, Pulled l state issue
      ((l.within ctx).pullIssue opts locals lastSync allow hydratedIds current ext).1 next := by
  have built : (l.within ctx).tracker.buildExternalRef ext = l.ref := l.builds ext
  have held : new ∈ current.1.issues := by
    have inside : new ∈ current.1.issues.rows := by
      rw [pulled.rows]
      exact List.mem_cons_self
    exact inside
  unfold Engine.pullIssue
  split
  · exact ⟨new, pulled⟩
  · split
    · exact ⟨new, pulled⟩
    · next converted conversion =>
      extract_lets ref
      have isRef : ref = l.ref := built
      have found : (l.within ctx).existing current.1 locals ref converted = some new := by
        have first : current.1.issueByExternalRef l.ref = some new := by
          unfold LocalStore.issueByExternalRef
          rw [pulled.rows, List.find?_singleton, if_pos (decide_eq_true pulled.ref)]
        unfold Engine.existing
        rw [isRef, first, Option.some_or, Option.some_or]
      split
      · exact ⟨new, pulled⟩
      · next id generated =>
        rw [found, Engine.importIssue]
        split
        · exact ⟨new, pulled⟩
        · dsimp only
          unfold LocalStore.applyPullIssueUpdate
          rw [Table.find?_eq_some.mpr ⟨held, rfl⟩]
          dsimp only
          split
          · exact ⟨new, pulled⟩
          · rw [isRef]
            exact ⟨_, pulled.update (l.imports state.remote ext converted id given conversion new _ pulled.ref)⟩

theorem Pulled.loop {opts : SyncOptions} {locals : List Issue} {lastSync : Option Nat}
    {allow hydratedIds : List String} {current : LocalStore × List String} {new : Issue}
    {candidates : List ε}
    (pulled : Pulled l state issue current.1 new)
    (given : ∀ ext ∈ candidates, l.Given state.remote ext) :
    ∃ next, Pulled l state issue (candidates.foldl
      ((l.within ctx).pullIssue opts locals lastSync allow hydratedIds) current).1 next := by
  induction candidates generalizing current new with
  | nil => exact ⟨new, pulled⟩
  | cons ext rest ih =>
    obtain ⟨middle, turned⟩ := pulled.turn (given ext List.mem_cons_self)
    exact ih turned fun other inside => given other (List.mem_cons_of_mem ext inside)

/-- A sync in one direction. -/
theorem pull_spec {history : RefHistory} {opts : SyncOptions} (single : l.Single state issue)
    (pulls : opts.pull = true) (quiet : opts.push = false) :
    ((l.within ctx).sync history opts state).remote = state.remote ∧
      ∃ new, Pulled l state issue ((l.within ctx).sync history opts state).store new := by
  have start : Pulled l state issue (state.store, ([] : List String)).1 issue :=
    ⟨single.1, single.2.1, single.2.2, rfl, Or.inl rfl⟩
  unfold Engine.sync
  extract_lets pull push verdicts stamp pushed
  have isPull : pull = true := by simp [pull, pulls]
  have noPush : ¬ push = true := by simp [push, pulls, quiet]
  rw [if_pos isPull]
  split
  · exact ⟨rfl, issue, start⟩
  · next store pulled returns =>
    obtain ⟨candidates, hydratedIds, gathered, result⟩ := Engine.doPull_returns returns
    obtain ⟨new, looped⟩ := start.loop (pullCandidates_given gathered)
    rw [← result] at looped
    unfold pushed
    rw [if_neg noPush]
    unfold stamp
    split
    · exact ⟨rfl, new, looped⟩
    · exact ⟨rfl, new, looped.rows, looped.id, looped.ref, looped.hash, looped.content⟩

/-! ## Push -/

private theorem pushWrite_spec :
    ∃ after, (l.within ctx).pushWrite state issue l.ref = (after, .next) ∧
    after.store.issues = state.store.issues ∧ l.remoteContent after.remote = l.content issue := by
  obtain ⟨succeeds, writes⟩ := l.updates state.remote issue
  have call : (l.within ctx).tracker.updateIssue state.remote
      ((l.within ctx).tracker.extractIdentifier l.ref)
      ((l.within ctx).formatPushIssue issue) = ((l.engine.tracker.updateIssue state.remote
        (l.engine.tracker.extractIdentifier l.ref) (l.engine.formatPushIssue issue)).1, .ok ()) :=
    Prod.ext rfl succeeds
  unfold Engine.pushWrite
  rw [call]
  exact ⟨_, rfl, Engine.recordPushHash_issues, writes⟩

/-- The turn of the push for the issue: with the fingerprint both sides stay as they are,
without it the remote has the content of the issue afterwards. -/
theorem pushUpdate_spec (single : l.Single state issue) :
    ∃ after, (l.within ctx).pushUpdate state issue l.ref = (after, .next) ∧
      after.store.issues = state.store.issues ∧
      (l.Fingerprinted state (l.content issue) → after.remote = state.remote) ∧
      (¬ l.Fingerprinted state (l.content issue) →
        l.remoteContent after.remote = l.content issue) := by
  have matching : l.engine.StoredPushHashMatches state.store issue l.ref ↔ l.Fingerprinted state
      (l.content issue) :=
    storedPushHashMatches_iff single.2.1
  unfold Engine.pushUpdate
  by_cases stored : l.engine.StoredPushHashMatches state.store issue l.ref
  · have same : (l.within ctx).StoredPushHashMatches state.store issue l.ref := stored
    rw [if_pos same]
    exact ⟨state, rfl, rfl, fun _ => rfl, fun missing => absurd (matching.mp stored) missing⟩
  · have differs : ¬ (l.within ctx).StoredPushHashMatches state.store issue l.ref := stored
    have missing : ¬ l.Fingerprinted state (l.content issue) :=
      fun found => stored (matching.mpr found)
    rw [if_neg differs]
    obtain ⟨ext, fetched, compared⟩ := l.fetches state.remote
    have fetch : (l.within ctx).tracker.fetchIssue state.remote
        ((l.within ctx).tracker.extractIdentifier l.ref) =
      .ok (some ext) := fetched
    have hook : (l.within ctx).pushHooks.contentEqual = some l.contentEqual := l.compares
    rw [fetch]
    dsimp only
    rw [hook]
    dsimp only
    split
    · next equal =>
      refine ⟨_, rfl, Engine.recordPushHash_issues, fun found => absurd found missing, fun _ => ?_⟩
      exact ((compared issue).mp equal).symm
    · obtain ⟨after, wrote, issues, content⟩ := @pushWrite_spec ε ρ κ l state issue ctx
      exact ⟨after, wrote, issues, fun found => absurd found missing, fun _ => content⟩

/-- What a push leaves: the issue, and either both sides as they were, because the
fingerprint says so, or its content on the other side. -/
theorem push_spec {history : RefHistory} {opts : SyncOptions} (single : l.Single state issue)
    (allowed : l.Allowed state (.push ctx history opts)) :
    ((l.within ctx).sync history opts state).store.issues = state.store.issues ∧
      (l.Fingerprinted state (l.content issue) →
        ((l.within ctx).sync history opts state).remote = state.remote) ∧
      (¬ l.Fingerprinted state (l.content issue) →
        l.remoteContent ((l.within ctx).sync history opts state).remote = l.content issue) := by
  obtain ⟨pushes, quiet, wet, updating, passes⟩ := allowed
  obtain ⟨after, turn, issues, skipped, written⟩ := @pushUpdate_spec ε ρ κ l state issue ctx single
  have candidates : (l.within ctx).pushCandidates opts {} state.store = [issue] := by
    have inside : issue ∈ state.store.issues.rows := by
      rw [single.1]
      exact List.mem_cons_self
    have passed := List.of_mem_filter (passes issue inside)
    unfold Engine.pushCandidates
    rw [single.1]
    exact List.filter_cons_of_pos passed
  have pushed : (l.within ctx).pushIssue opts [] state issue = (after, .next) := by
    have linked : issue.externalRef.getD "" = l.ref := by rw [single.2.2, Option.getD_some]
    have nonempty : l.ref ≠ "" := by
      intro empty
      refine l.named ?_
      rw [empty]
      decide
    have known : ¬ (l.ref = "" ∨ (l.within ctx).tracker.isExternalRef l.ref = false) := by
      rintro (empty | unknown)
      · exact nonempty empty
      · exact absurd (l.known.symm.trans unknown) (by decide)
    have identified : ¬ (l.within ctx).tracker.extractIdentifier l.ref = "" := l.identified
    unfold Engine.pushIssue
    rw [linked]
    dsimp only
    rw [if_neg known, if_neg (by simp [updating]), if_neg identified, if_neg List.not_mem_nil]
    exact turn
  have whole : (l.within ctx).doPush opts {} state = (after, true) := by
    have alone : (l.within ctx).tracker.batchPush = none := l.alone
    unfold Engine.doPush
    rw [candidates, alone]
    dsimp only
    rw [if_neg (by simp [wet])]
    unfold Engine.pushIssues
    rw [pushed]
    rfl
  unfold Engine.sync
  extract_lets pull push verdicts stamp pushing
  have noPull : ¬ pull = true := by simp [pull, pushes, quiet]
  have isPush : push = true := by simp [push, pushes]
  have none : verdicts = {} := if_neg (by simp [noPull])
  rw [if_neg noPull]
  unfold pushing
  rw [if_pos isPush, none, whole]
  dsimp only
  unfold stamp
  rw [if_pos rfl, wet]
  exact ⟨issues, skipped, written⟩

/-! ## Runs -/

theorem Single.mem_iff {other : Issue} (single : l.Single state issue) :
    other ∈ state.store.issues ↔ other = issue := by
  have same : other ∈ state.store.issues.rows ↔ other = issue := by
    rw [single.1, List.mem_singleton]
  exact same

theorem Single.synced_iff (single : l.Single state issue) :
    l.Synced state ↔ l.content issue = l.remoteContent state.remote := by
  constructor
  · intro synced
    exact synced issue (single.mem_iff.mpr rfl)
  · intro same other inside
    rw [single.mem_iff.mp inside]
    exact same

theorem Single.edit {now : Nat} {f : Issue → Issue} (single : l.Single state issue)
    (allowed : l.Allowed state (.edit now f)) :
    l.Single (l.editStore state now f) (issue.stamped now fun r => { f r with id := r.id }) := by
  have keeps : ∀ r, ({ f r with id := r.id } : Issue).id = r.id := fun _ => rfl
  refine ⟨?_, (Issue.stamped_id keeps issue).trans single.2.1, ?_⟩
  · unfold editStore
    rw [← single.2.1]
    exact updateIssue_rows keeps single.1
  · have linked : ({ f issue with id := issue.id } : Issue).externalRef = issue.externalRef :=
      (allowed issue).2
    refine Eq.trans (stamped_externalRef ?_) single.2.2
    exact linked

theorem Single.push {history : RefHistory} {opts : SyncOptions} (single : l.Single state issue)
    (allowed : l.Allowed state (.push ctx history opts)) :
    l.Single ((l.within ctx).sync history opts state) issue := by
  have issues := (push_spec single allowed).1
  exact ⟨by rw [issues]; exact single.1, single.2⟩

/-- A push leaves both sides with the same content exactly when the fingerprint, if it
is that of the issue, is also that of the remote. -/
theorem Single.push_synced_iff {history : RefHistory} {opts : SyncOptions}
    (single : l.Single state issue) (allowed : l.Allowed state (.push ctx history opts)) :
    l.Synced ((l.within ctx).sync history opts state) ↔
      (l.Fingerprinted state (l.content issue) →
        l.content issue = l.remoteContent state.remote) := by
  obtain ⟨-, skipped, written⟩ := push_spec single allowed
  rw [(single.push allowed).synced_iff]
  by_cases stored : l.Fingerprinted state (l.content issue)
  · rw [skipped stored]
    exact ⟨fun same _ => same, fun same => same stored⟩
  · exact iff_of_true (written stored).symm fun found => absurd found stored

theorem Single.after {event : Event ρ} (single : l.Single state issue)
    (allowed : l.Allowed state event) :
    ∃ next, l.Single (l.after state event) next := by
  cases event with
  | edit now f => exact ⟨_, single.edit allowed⟩
  | remoteEdit remote => exact ⟨issue, single⟩
  | pull ctx history opts =>
    obtain ⟨-, new, pulled⟩ :=
      @pull_spec ε ρ κ l state issue ctx history opts single allowed.1 allowed.2
    exact ⟨new, pulled.rows, pulled.id, pulled.ref⟩
  | push ctx history opts => exact ⟨issue, single.push allowed⟩

/-- A fingerprint that matches the issue is that of the remote's content. -/
def Trusted (l : Link ε ρ κ) (state : SyncState ρ) : Prop :=
  ∃ issue, l.Single state issue ∧
    (l.Fingerprinted state (l.content issue) → l.content issue = l.remoteContent state.remote)

theorem Single.trusted_iff (single : l.Single state issue) : l.Trusted state ↔
    (l.Fingerprinted state (l.content issue) → l.content issue = l.remoteContent state.remote) := by
  constructor
  · rintro ⟨other, single', trusted⟩
    obtain rfl := single.mem_iff.mp (single'.mem_iff.mpr rfl)
    exact trusted
  · intro trusted
    exact ⟨issue, single, trusted⟩

/-- An edit keeps the fingerprint trusted exactly when it fits. -/
theorem Single.edit_trusted_iff {now : Nat} {f : Issue → Issue} (single : l.Single state issue)
    (allowed : l.Allowed state (.edit now f)) :
    l.Trusted (l.editStore state now f) ↔ l.Fits state (.edit now f) := by
  have edited := single.edit allowed
  rw [edited.trusted_iff]
  constructor
  · intro trusted other inside
    rw [edited.mem_iff.mp inside]
    exact trusted
  · intro fits
    exact fits _ (edited.mem_iff.mpr rfl)

theorem Trusted.step {s t : SyncState ρ} (trusted : l.Trusted s) (step : l.FittingStep s t) :
    l.Trusted t := by
  obtain ⟨issue, single, sound⟩ := trusted
  obtain ⟨event, allowed, quiet, fits, rfl⟩ := step
  cases event with
  | edit now f => exact (single.edit_trusted_iff allowed).mpr fits
  | remoteEdit remote => cases quiet
  | pull ctx history opts =>
    obtain ⟨remote, new, pulled⟩ :=
      @pull_spec ε ρ κ l s issue ctx history opts single allowed.1 allowed.2
    refine ⟨new, ⟨pulled.rows, pulled.id, pulled.ref⟩, ?_⟩
    unfold Fingerprinted
    simp only [after, pulled.hash, remote]
    rcases pulled.content with rfl | imported
    · exact sound
    · exact fun _ => imported
  | push ctx history opts =>
    have synced := (single.push_synced_iff allowed).mpr sound
    exact ⟨issue, single.push allowed, fun _ => (single.push allowed).synced_iff.mp synced⟩

theorem Trusted.run {s t : SyncState ρ} (trusted : l.Trusted s)
    (run : ReflTransGen l.FittingStep s t) :
    l.Trusted t := by
  induction run with
  | refl => exact trusted
  | tail _ step ih => exact ih.step step

private theorem single_of_run {s t : SyncState ρ} (single : ∃ issue, l.Single s issue)
    (run : ReflTransGen l.Step s t) :
    ∃ issue, l.Single t issue := by
  induction run with
  | refl => exact single
  | tail _ step ih =>
    obtain ⟨issue, held⟩ := ih
    obtain ⟨event, allowed, rfl⟩ := step
    exact held.after allowed

/-- After a pull that imported the content of the remote, and with no edit of the remote
since, a push leaves both sides with the same content, provided that no local edit has
brought back the fingerprinted content while the remote had another one; an edit that
does so makes the next push leave the remote behind. -/
theorem push_after_pull_synced {s p r : SyncState ρ} {ctx : SyncContext} {history : RefHistory}
    {opts : SyncOptions} (single : ∃ issue, l.Single s issue) (run : ReflTransGen l.Step s p)
    (pulls : l.Allowed p (.pull ctx history opts))
    (imported : l.Synced (l.after p (.pull ctx history opts)))
    (fitting : ReflTransGen l.FittingStep (l.after p (.pull ctx history opts)) r) :
    (∀ ctx history opts, l.Allowed r (.push ctx history opts) →
      l.Synced (l.after r (.push ctx history opts))) ∧
      ∀ now f ctx history opts, l.Allowed r (.edit now f) →
        l.Allowed (l.after r (.edit now f)) (.push ctx history opts) →
          (l.Synced (l.after (l.after r (.edit now f)) (.push ctx history opts)) ↔
            l.Fits r (.edit now f)) := by
  obtain ⟨issue, held⟩ := single_of_run single run
  obtain ⟨pulled, held⟩ := held.after pulls
  have start : l.Trusted (l.after p (.pull ctx history opts)) :=
    ⟨pulled, held, fun _ => held.synced_iff.mp imported⟩
  have reached := start.run fitting
  obtain ⟨last, single, sound⟩ := reached
  refine ⟨fun ctx history opts allowed => (single.push_synced_iff allowed).mpr sound, ?_⟩
  intro now f ctx history opts edits pushes
  have edited := single.edit edits
  exact (edited.push_synced_iff pushes).trans
    (edited.trusted_iff.symm.trans (single.edit_trusted_iff edits))

end Link

private theorem Issue.stamped_title {now : Nat} {f : Issue → Issue} (issue : Issue) :
    (issue.stamped now f).title = (f issue).title := by
  unfold Issue.stamped
  split
  · next unchanged => rw [unchanged]
  · rfl

/-- The link of `bd-1` to the one issue of a tracker to which titles are pushed. -/
def titleLink : Link Issue Issue String where
  engine := { oneIssueEngine with pushHooks := {
    contentEqual := some fun issue ext => issue.title = ext.title
    contentHash := fun issue => "#" ++ issue.title } }
  id := "bd-1"
  ref := "gh:1"
  content := Issue.title
  remoteContent := Issue.title
  known := by decide
  named := by decide
  identified := by decide
  builds _ := rfl
  alone := rfl
  updates _ _ := ⟨rfl, rfl⟩
  contentEqual issue ext := issue.title = ext.title
  compares := rfl
  fetches remote := ⟨remote, rfl, fun _ => decide_eq_true_iff⟩
  imports := by
    intro remote ext conv id given conversion stored now _
    have same : ext = remote := by
      rcases given with ⟨opts, fetched, fetch, inside⟩ | ⟨identifier, fetch⟩
      · have fetch := Except.ok.inj fetch
        rw [← fetch] at inside
        split at inside
        · exact List.mem_singleton.mp inside
        · cases inside
      · have fetch := Except.ok.inj fetch
        split at fetch
        · exact (Option.some.inj fetch).symm
        · cases fetch
    cases conversion
    rw [← same]
    exact Issue.stamped_title stored
  hashes _ _ := String.append_right_inj "#"
  hashed issue := by
    intro empty
    have lists := congrArg String.toList empty
    rw [String.toList_append] at lists
    cases lists

/-- Both sides have the title `A`, and nothing was pushed yet. -/
def pushedTitle : SyncState Issue where
  store := { issues := ⟨[{ id := "bd-1", title := "A", externalRef := some "gh:1" }], by decide⟩ }
  remote := { id := "1", title := "A" }

/-- A second of the clock, after which a sync has been. -/
def atSecond (n : Nat) : SyncContext :=
  { plainContext with toLower := id, cfg := { now := n * Engine.second } }

namespace Link

/-- The history of the link: a push of `A`, an edit of the remote to `B`. -/
def editedRemote : SyncState Issue :=
  titleLink.after (titleLink.after pushedTitle (.push (atSecond 0) { linkedAt := fun _ => 0 } { push := true }))
    (.remoteEdit { id := "1", title := "B", updatedAt := 2 * Engine.second })

/-- The pull of `B`. -/
def pullB : Event Issue := .pull (atSecond 3) { linkedAt := fun _ => 0 } { pull := true }

/-- A local edit of the title. -/
def retitle (title : String) : Event Issue :=
  .edit (5 * Engine.second) fun issue => { issue with title := title }

/-- The push at the end. -/
def pushAgain : Event Issue := .push (atSecond 6) { linkedAt := fun _ => 0 } { push := true }

instance (state : SyncState Issue) : Decidable (titleLink.Synced state) :=
  inferInstanceAs (Decidable (∀ issue ∈ state.store.issues, issue.title = state.remote.title))

theorem editedRemote_run : ReflTransGen titleLink.Step pushedTitle editedRemote := by
  let push : Event Issue := .push (atSecond 0) { linkedAt := fun _ => 0 } { push := true }
  have pushes : titleLink.Allowed pushedTitle push := ⟨rfl, rfl, rfl, rfl, by decide +kernel⟩
  have first : ReflTransGen titleLink.Step pushedTitle (titleLink.after pushedTitle push) :=
    .single ⟨push, pushes, rfl⟩
  exact first.tail ⟨.remoteEdit { id := "1", title := "B", updatedAt := 2 * Engine.second },
    trivial, rfl⟩

/-- A local edit to `C` is pushed. -/
theorem push_after_pull_synced_retitled : titleLink.Synced (titleLink.after (titleLink.after
    (titleLink.after editedRemote pullB) (retitle "C")) pushAgain) := by
  have single : ∃ issue, titleLink.Single pushedTitle issue := ⟨_, rfl, rfl, rfl⟩
  have imported : titleLink.Synced (titleLink.after editedRemote pullB) := by decide +kernel
  have pushes : titleLink.Allowed
      (titleLink.after (titleLink.after editedRemote pullB) (retitle "C")) pushAgain :=
    ⟨rfl, rfl, rfl, rfl, by decide +kernel⟩
  have edits : titleLink.Allowed (titleLink.after editedRemote pullB) (retitle "C") :=
    fun _ => ⟨rfl, rfl⟩
  have result :=
    (push_after_pull_synced single editedRemote_run ⟨rfl, rfl⟩ imported .refl).2 _ _ _ _ _ edits pushes
  refine result.mpr fun issue inside found => ?_
  -- The stored fingerprint is that of `A`.
  have unmatched : ∀ issue ∈ (titleLink.editStore (titleLink.after editedRemote pullB) (5 * Engine.second)
      fun issue => { issue with title := "C" }).store.issues, issue.id = "bd-1" ∧
        ¬ titleLink.engine.StoredPushHashMatches (titleLink.after editedRemote pullB).store issue "gh:1" := by
    decide +kernel
  obtain ⟨name, differs⟩ := unmatched issue inside
  exact absurd ((storedPushHashMatches_iff name).mpr found) differs

/-- A local edit back to `A` is not: the remote keeps `B`. -/
theorem push_skipped_after_pull : ReflTransGen titleLink.Step pushedTitle editedRemote ∧
    titleLink.Allowed editedRemote pullB ∧ titleLink.Synced (titleLink.after editedRemote pullB) ∧
    titleLink.Allowed (titleLink.after editedRemote pullB) (retitle "A") ∧
    titleLink.Allowed (titleLink.after (titleLink.after editedRemote pullB) (retitle "A")) pushAgain ∧
    ¬ titleLink.Synced (titleLink.after (titleLink.after (titleLink.after editedRemote pullB) (retitle "A"))
      pushAgain) := by
  refine ⟨editedRemote_run, ⟨rfl, rfl⟩, ?_, fun _ => ⟨rfl, rfl⟩, ⟨rfl, rfl, rfl, rfl, ?_⟩, ?_⟩
  · decide +kernel
  · decide +kernel
  · decide +kernel

end Link
end Beads
