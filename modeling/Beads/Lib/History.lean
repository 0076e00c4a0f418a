import Mathlib.Data.List.Perm.Basic
import Mathlib.Data.List.Nodup
import Beads.Lib.Snapshot

/-! Any number of transactions on snapshots, with the log of their commits. A commit
is refused if it collides with one that was made since its snapshot.

When every transaction that changes anything puts a token of its own in one shared
cell, any two of them collide, and what is committed is the result of a serial run:
the transactions that wrote stand in the order of their commits, and one that wrote
nothing stands where its snapshot was taken (`Versioned.serializable`). -/
namespace Beads.Lib
open Relation

/-- A database that is read cell by cell and merged three ways. A side of a merge that
has changed nothing leaves the other side as it is. -/
structure Merging (σ κ : Type) (ν : κ → Type) where
  read : σ → (k : κ) → ν k
  merge : (base ours theirs : σ) → σ
  merge_kept : ∀ base theirs, merge base base theirs = theirs
  merge_alone : ∀ base ours, merge base ours base = ours

/-- A committed transaction, with the number of commits it had seen when it started. -/
structure Commit (ι σ : Type) extends Write σ where
  who : ι
  seen : Nat

/-- Where a transaction stands; a running one has its snapshot and the number of
commits the snapshot has seen. -/
inductive Turn (σ : Type) where
  | idle
  | running (snapshot : σ) (seen : Nat)
  | ended

/-- The database, the commits that made it, and the transactions on it. -/
structure History (ι σ : Type) where
  current : σ
  log : List (Commit ι σ)
  turn : ι → Turn σ

namespace History
variable {ι σ : Type} [DecidableEq ι]

/-- No transaction has started. -/
def fresh (s : σ) : History ι σ := ⟨s, [], fun _ => .idle⟩

/-- One transaction moves on. -/
def enter (h : History ι σ) (i : ι) (turn : Turn σ) : History ι σ :=
  { h with turn := Function.update h.turn i turn }

/-- One transaction commits. -/
def commit (h : History ι σ) (c : Commit ι σ) (current : σ) : History ι σ where
  current := current
  log := h.log ++ [c]
  turn := Function.update h.turn c.who .ended

end History

/-- The transactions run one after another, each on what the one before it left. -/
def Serial {ι σ ε : Type} (body : ι → σ → Call ε σ) : List ι → σ → σ → Prop
  | [], s, t => s = t
  | i :: rest, s, t => ∃ u, (body i s).Returns u ∧ Serial body rest u t

namespace Serial
variable {ι σ ε : Type} {body : ι → σ → Call ε σ} {s t u : σ} {before after : List ι} {i : ι}

theorem append : Serial body (before ++ after) s t ↔
    ∃ u, Serial body before s u ∧ Serial body after u t := by
  induction before generalizing s with
  | nil =>
    constructor
    · exact fun run => ⟨s, rfl, run⟩
    · rintro ⟨_, rfl, run⟩
      exact run
  | cons i rest ih =>
    constructor
    · rintro ⟨mid, first, run⟩
      obtain ⟨u, left, right⟩ := ih.mp run
      exact ⟨u, ⟨mid, first, left⟩, right⟩
    · rintro ⟨u, ⟨mid, first, left⟩, right⟩
      exact ⟨mid, first, ih.mpr ⟨u, left, right⟩⟩

theorem unique (first : Serial body before s t) (second : Serial body before s u) : t = u := by
  induction before generalizing s with
  | nil => exact Eq.trans (Eq.symm first) second
  | cons i rest ih =>
    obtain ⟨mid, one, first⟩ := first
    obtain ⟨mid', one', second⟩ := second
    obtain rfl := Except.ok.inj (one.unique one')
    exact ih first second

/-- The second half of a run starts where the first half ends. -/
theorem rest (run : Serial body (before ++ after) s t) (first : Serial body before s u) :
    Serial body after u t := by
  obtain ⟨mid, left, right⟩ := append.mp run
  exact first.unique left ▸ right

/-- A transaction that returns what it read fits in at that place. -/
theorem insert (run : Serial body (before ++ after) s t) (first : Serial body before s u)
    (quiet : (body i u).Returns u) : Serial body (before ++ i :: after) s t :=
  append.mpr ⟨u, first, u, quiet, run.rest first⟩

end Serial

namespace Merging
variable {σ κ ι ε : Type} {ν : κ → Type} (db : Merging σ κ ν)

/-- Two transactions wrote different values to one cell. -/
def Collide (w v : Write σ) : Prop :=
  ∃ k, db.read w.result k ≠ db.read w.base k ∧ db.read v.result k ≠ db.read v.base k ∧
    db.read w.result k ≠ db.read v.result k

/-- The database after a commit: the result as it stands if nothing was committed
since the snapshot, the merge otherwise. -/
def land (w : Write σ) (since : List (Commit ι σ)) (current : σ) : σ :=
  match since with
  | [] => w.result
  | _ :: _ => db.merge w.base w.result current

variable [DecidableEq ι]

/-- A transaction starts, commits, or ends without a trace: refused by its body, by a
collision, or given up. -/
inductive Step (body : ι → σ → Call ε σ) (h : History ι σ) : History ι σ → Prop
  | start (i : ι) (idle : h.turn i = .idle) :
    Step body h (h.enter i (.running h.current h.log.length))
  | commit (i : ι) {snapshot result : σ} {seen : Nat} (running : h.turn i = .running snapshot seen)
    (returns : (body i snapshot).Returns result)
    (apart : ∀ c ∈ h.log.drop seen, ¬ db.Collide ⟨snapshot, result⟩ c.toWrite) :
    Step body h (h.commit ⟨⟨snapshot, result⟩, i, seen⟩
      (db.land ⟨snapshot, result⟩ (h.log.drop seen) h.current))
  | abandon (i : ι) {snapshot : σ} {seen : Nat} (running : h.turn i = .running snapshot seen) :
    Step body h (h.enter i .ended)

/-- What is reached from a database on which no transaction has started. -/
def Reached (body : ι → σ → Call ε σ) (s : σ) (h : History ι σ) : Prop :=
  ReflTransGen (db.Step body) (.fresh s) h

end Merging

/-! ## The log explains the database -/

namespace Merging
variable {σ κ ι ε : Type} {ν : κ → Type} (db : Merging σ κ ν)

/-- The commits of the second list, made after those of the first. -/
def replay : List (Commit ι σ) → List (Commit ι σ) → σ → σ
  | _, [], s => s
  | done, c :: rest, s => replay (done ++ [c]) rest (db.land c.toWrite (done.drop c.seen) s)

/-- The database that a log leaves. -/
def state (s : σ) (log : List (Commit ι σ)) : σ := db.replay [] log s

private theorem replay_concat (done log : List (Commit ι σ)) (c : Commit ι σ) (s : σ) :
    db.replay done (log ++ [c]) s =
      db.land c.toWrite ((done ++ log).drop c.seen) (db.replay done log s) := by
  induction log generalizing done s with
  | nil => rw [List.append_nil]; rfl
  | cons first rest ih =>
    rw [List.cons_append, replay, ih, List.append_assoc, List.singleton_append]
    rfl

theorem state_concat (s : σ) (log : List (Commit ι σ)) (c : Commit ι σ) :
    db.state s (log ++ [c]) = db.land c.toWrite (log.drop c.seen) (db.state s log) :=
  db.replay_concat [] log c s

/-- What the log says of a commit, given the commits before it: it ran on what the
commits it had seen left, and collides with none of those it had not. -/
structure Explains (body : ι → σ → Call ε σ) (s : σ) (before : List (Commit ι σ)) (c : Commit ι σ) :
    Prop where
  seen : c.seen ≤ before.length
  base : c.base = db.state s (before.take c.seen)
  returns : (body c.who c.base).Returns c.result
  apart : ∀ d ∈ before.drop c.seen, ¬ db.Collide c.toWrite d.toWrite
  once : ∀ d ∈ before, d.who ≠ c.who

/-- The log explains the database, its own entries, and what is running. -/
structure Explained (body : ι → σ → Call ε σ) (s : σ) (h : History ι σ) : Prop where
  current : h.current = db.state s h.log
  commits : ∀ before c after, h.log = before ++ c :: after → db.Explains body s before c
  ended : ∀ c ∈ h.log, h.turn c.who = .ended
  running : ∀ i snapshot seen, h.turn i = .running snapshot seen →
    seen ≤ h.log.length ∧ snapshot = db.state s (h.log.take seen)

variable {db} [DecidableEq ι] {body : ι → σ → Call ε σ} {s : σ} {h : History ι σ}

theorem Explained.start (explained : db.Explained body s h) {i : ι} (idle : h.turn i = .idle) :
    db.Explained body s (h.enter i (.running h.current h.log.length)) := by
  refine { explained with ended := ?_, running := ?_ }
  · intro c held
    have other : c.who ≠ i := by
      rintro rfl
      exact nomatch idle.symm.trans (explained.ended c held)
    simp only [History.enter, Function.update_of_ne other]
    exact explained.ended c held
  · intro j snapshot seen running
    by_cases same : j = i
    · subst same
      simp only [History.enter, Function.update_self, Turn.running.injEq] at running
      obtain ⟨rfl, rfl⟩ := running
      refine ⟨Nat.le_refl _, ?_⟩
      rw [History.enter, List.take_length]
      exact explained.current
    · simp only [History.enter, Function.update_of_ne same] at running
      exact explained.running j snapshot seen running

private theorem Explained.abandon (explained : db.Explained body s h) {i : ι} :
    db.Explained body s (h.enter i .ended) := by
  refine { explained with ended := ?_, running := ?_ }
  · intro c held
    by_cases same : c.who = i
    · simp only [History.enter, same, Function.update_self]
    · simp only [History.enter, Function.update_of_ne same]
      exact explained.ended c held
  · intro j snapshot seen running
    by_cases same : j = i
    · simp only [History.enter, same, Function.update_self] at running
      cases running
    · simp only [History.enter, Function.update_of_ne same] at running
      exact explained.running j snapshot seen running

theorem Explained.commit (explained : db.Explained body s h) {i : ι} {snapshot result : σ}
    {seen : Nat}
    (running : h.turn i = .running snapshot seen) (returns : (body i snapshot).Returns result)
    (apart : ∀ c ∈ h.log.drop seen, ¬ db.Collide ⟨snapshot, result⟩ c.toWrite) :
    db.Explained body s (h.commit ⟨⟨snapshot, result⟩, i, seen⟩
      (db.land ⟨snapshot, result⟩ (h.log.drop seen) h.current)) := by
  obtain ⟨enough, base⟩ := explained.running i snapshot seen running
  have apart_who : ∀ d ∈ h.log, d.who ≠ i := by
    rintro d held rfl
    exact nomatch running.symm.trans (explained.ended d held)
  constructor
  · rw [History.commit, state_concat, explained.current]
  · intro before c after split
    rcases List.eq_nil_or_concat after with rfl | ⟨init, last, rfl⟩
    · obtain ⟨rfl, same⟩ := List.append_inj' split rfl
      obtain rfl := List.singleton_inj.mp same
      exact ⟨enough, base, returns, apart, apart_who⟩
    · have shape : h.log ++ [⟨⟨snapshot, result⟩, i, seen⟩] = (before ++ c :: init) ++ [last] := by
        simpa [History.commit] using split
      obtain ⟨log, -⟩ := List.append_inj' shape rfl
      exact explained.commits before c init log
  · intro c held
    rcases List.mem_append.mp held with old | new
    · simp only [History.commit, Function.update_of_ne (apart_who c old)]
      exact explained.ended c old
    · simp only [History.commit, List.mem_singleton.mp new, Function.update_self]
  · intro j snapshot' seen' other
    by_cases same : j = i
    · simp only [History.commit, same, Function.update_self] at other
      cases other
    · simp only [History.commit, Function.update_of_ne same] at other
      obtain ⟨enough', base'⟩ := explained.running j snapshot' seen' other
      simp only [History.commit, List.length_append, List.length_singleton,
        List.take_append_of_le_length enough']
      exact ⟨by omega, base'⟩

theorem Reached.explained (reached : db.Reached body s h) : db.Explained body s h := by
  induction reached with
  | refl =>
    refine ⟨rfl, fun before c after split => ?_, fun _ held => (nomatch held),
      fun _ _ _ running => (nomatch running)⟩
    exact absurd split (by simp [History.fresh])
  | tail _ step ih =>
    cases step with
    | start i idle => exact ih.start idle
    | commit i running returns apart => exact ih.commit running returns apart
    | abandon i running => exact ih.abandon

end Merging

/-! ## A shared token -/

/-- Whoever changes the database stamps it with a token of its own, and two
transactions with different stamps collide. -/
structure Versioned {ι σ κ ε υ : Type} {ν : κ → Type} (db : Merging σ κ ν) (body : ι → σ → Call ε σ)
    (inv : σ → Prop) (version : σ → υ) (token : ι → υ) : Prop where
  keeps : ∀ {i s t}, inv s → (body i s).Returns t → inv t
  stamps : ∀ {i s t}, inv s → (body i s).Returns t → t = s ∨ version t = token i
  collides : ∀ {w v : Write σ}, version w.result ≠ version w.base → version v.result ≠ version v.base →
    version w.result ≠ version v.result → db.Collide w v

namespace Versioned
variable {ι σ κ ε υ : Type} {ν : κ → Type} {db : Merging σ κ ν} {body : ι → σ → Call ε σ}
  {inv : σ → Prop} {version : σ → υ} {token : ι → υ} {s t : σ} {order : List ι}

private theorem keeps_serial (versioned : Versioned db body inv version token) (initial : inv s)
    (run : Serial body order s t) : inv t := by
  induction order generalizing s with
  | nil => exact run ▸ initial
  | cons i rest ih =>
    obtain ⟨u, first, run⟩ := run
    exact ih (versioned.keeps initial first) run

/-- After a serial run the version is the initial one or one of the run's tokens. -/
theorem version_serial (versioned : Versioned db body inv version token) (initial : inv s)
    (run : Serial body order s t) : version t = version s ∨ ∃ i ∈ order, version t = token i := by
  induction order generalizing s with
  | nil => exact Or.inl (congrArg version (Eq.symm run))
  | cons i rest ih =>
    obtain ⟨u, first, run⟩ := run
    rcases ih (versioned.keeps initial first) run with same | ⟨j, member, same⟩
    · rcases versioned.stamps initial first with rfl | stamped
      · exact Or.inl same
      · exact Or.inr ⟨i, List.mem_cons_self, same.trans stamped⟩
    · exact Or.inr ⟨j, List.mem_cons_of_mem i member, same⟩

end Versioned

/-- The commit changed the version. -/
def Commit.Wrote {ι σ υ : Type} (version : σ → υ) (c : Commit ι σ) : Prop :=
  version c.result ≠ version c.base

instance {ι σ υ : Type} [DecidableEq υ] (version : σ → υ) (c : Commit ι σ) :
    Decidable (c.Wrote version) :=
  inferInstanceAs (Decidable (_ ≠ _))

/-- The commits that changed the version. -/
def History.written {ι σ υ : Type} [DecidableEq υ] (h : History ι σ) (version : σ → υ) :
    List (Commit ι σ) :=
  h.log.filter fun c => c.Wrote version

theorem History.written_commit {ι σ υ : Type} [DecidableEq ι] [DecidableEq υ] {h : History ι σ}
    {version : σ → υ} {c : Commit ι σ} {current : σ} : (h.commit c current).written version =
      if c.Wrote version then h.written version ++ [c] else h.written version := by
  simp only [History.written, History.commit, List.filter_append, List.filter_singleton]
  split
  · next wrote => rw [decide_eq_true wrote, cond_true]
  · next silent => rw [decide_eq_false silent, cond_false, List.append_nil]

namespace Versioned
variable {ι σ κ ε υ : Type} {ν : κ → Type} [DecidableEq ι] [DecidableEq υ] {db : Merging σ κ ν}
  {body : ι → σ → Call ε σ} {inv : σ → Prop} {version : σ → υ} {token : ι → υ} {s : σ}
  {h : History ι σ} {order : List ι}

/-- A serial order of what is committed, and what it takes to extend it. -/
structure Ordered (body : ι → σ → Call ε σ) (inv : σ → Prop) (version : σ → υ) (token : ι → υ)
    (s : σ) (h : History ι σ) (order : List ι) : Prop where
  perm : order.Perm (h.log.map Commit.who)
  writers : ((h.written version).map Commit.who).Sublist order
  serial : Serial body order s h.current
  stamped : ∀ c ∈ h.written version, version c.result = token c.who
  place : ∀ i snapshot seen, h.turn i = .running snapshot seen →
    ∃ before after, order = before ++ after ∧ Serial body before s snapshot
  caughtUp : ∀ i snapshot seen, h.turn i = .running snapshot seen →
    (∀ c ∈ h.log.drop seen, ¬ c.Wrote version) → h.current = snapshot
  versions : ((h.written version).map fun c => version c.base).Nodup
  passed : ∀ c ∈ h.written version, version c.base ≠ version h.current
  unseen : ∀ i, h.turn i ≠ .ended → ∀ c ∈ h.log, version c.base ≠ token i
  ran : ∀ c ∈ h.log, inv c.base ∧ (body c.who c.base).Returns c.result ∧ version c.base ≠ token c.who

namespace Ordered

omit [DecidableEq ι] in
theorem fresh : Ordered body inv version token s (.fresh s) [] where
  perm := .nil
  writers := .slnil
  serial := rfl
  stamped _ held := nomatch held
  place _ _ _ running := nomatch running
  caughtUp _ _ _ running := nomatch running
  versions := List.nodup_nil
  passed _ held := nomatch held
  unseen _ _ _ held := nomatch held
  ran _ held := nomatch held

omit [DecidableEq ι] in
/-- A transaction that has not ended is not in the log. -/
theorem notIn (ordered : Ordered body inv version token s h order)
    (explained : db.Explained body s h) {i : ι} (here : h.turn i ≠ .ended) : i ∉ order := by
  intro member
  obtain ⟨c, held, same⟩ := List.mem_map.mp (ordered.perm.mem_iff.mp member)
  exact here (same ▸ explained.ended c held)

theorem start (ordered : Ordered body inv version token s h order) {i : ι}
    (idle : h.turn i = .idle) :
    Ordered body inv version token s (h.enter i (.running h.current h.log.length)) order := by
  have others : ∀ {j snapshot seen},
      (h.enter i (.running h.current h.log.length)).turn j = .running snapshot seen →
      (snapshot = h.current ∧ seen = h.log.length) ∨ h.turn j = .running snapshot seen := by
    intro j snapshot seen running
    by_cases same : j = i
    · subst same
      simp only [History.enter, Function.update_self, Turn.running.injEq] at running
      exact Or.inl ⟨running.1.symm, running.2.symm⟩
    · simp only [History.enter, Function.update_of_ne same] at running
      exact Or.inr running
  refine { ordered with place := ?_, caughtUp := ?_, unseen := ?_ }
  · intro j snapshot seen running
    rcases others running with ⟨rfl, -⟩ | before
    · exact ⟨order, [], (List.append_nil order).symm, ordered.serial⟩
    · exact ordered.place j snapshot seen before
  · intro j snapshot seen running quiet
    rcases others running with ⟨rfl, -⟩ | before
    · rfl
    · exact ordered.caughtUp j snapshot seen before quiet
  · intro j open_ c held
    refine ordered.unseen j (fun closed => open_ ?_) c held
    have other : j ≠ i := by
      rintro rfl
      exact nomatch idle.symm.trans closed
    simpa only [History.enter, Function.update_of_ne other] using closed

/-- A running transaction after another one has ended was running before. -/
theorem running_of_ended {i j : ι} {snapshot : σ} {seen : Nat}
    (running : Function.update h.turn i .ended j = .running snapshot seen) :
    j ≠ i ∧ h.turn j = .running snapshot seen := by
  by_cases same : j = i
  · rw [same, Function.update_self] at running
    cases running
  · exact ⟨same, by rwa [Function.update_of_ne same] at running⟩

theorem turn_of_ended {i j : ι} (open_ : Function.update h.turn i .ended j ≠ .ended) :
    j ≠ i ∧ h.turn j ≠ .ended := by
  by_cases same : j = i
  · rw [same, Function.update_self] at open_
    exact absurd rfl open_
  · exact ⟨same, by rwa [Function.update_of_ne same] at open_⟩

private theorem abandon (ordered : Ordered body inv version token s h order) {i : ι} :
    Ordered body inv version token s (h.enter i .ended) order := by
  refine { ordered with place := ?_, caughtUp := ?_, unseen := ?_ }
  · exact fun j snapshot seen running => ordered.place j snapshot seen (running_of_ended running).2
  · exact fun j snapshot seen running => ordered.caughtUp j snapshot seen
      (running_of_ended running).2
  · exact fun j open_ => ordered.unseen j (turn_of_ended open_).2

section Commit
variable {i : ι} {snapshot result : σ} {seen : Nat}
  (ordered : Ordered body inv version token s h order)
  (explained : db.Explained body s h)
  (running : h.turn i = .running snapshot seen) (returns : (body i snapshot).Returns result)

include ordered in
theorem unseen_commit {c : Commit ι σ} {current : σ} {j : ι}
    (open_ : (h.commit c current).turn j ≠ .ended)
    (fresh : version c.base ≠ token j) :
    ∀ d ∈ (h.commit c current).log, version d.base ≠ token j := by
  intro d held
  rcases List.mem_append.mp held with old | new
  · exact ordered.unseen j (turn_of_ended open_).2 d old
  · rwa [List.mem_singleton.mp new]

include ordered in
theorem ran_commit {c : Commit ι σ} {current : σ}
    (new : inv c.base ∧ (body c.who c.base).Returns c.result ∧ version c.base ≠ token c.who) :
    ∀ d ∈ (h.commit c current).log,
      inv d.base ∧ (body d.who d.base).Returns d.result ∧ version d.base ≠ token d.who := by
  intro d held
  rcases List.mem_append.mp held with old | last
  · exact ordered.ran d old
  · rwa [List.mem_singleton.mp last]

omit [DecidableEq ι] in
include ordered explained running in
/-- The snapshot has not seen the transaction's own token. -/
theorem snapshot_version (versioned : Versioned db body inv version token) (initial : inv s)
    (fresh : ∀ i, token i ≠ version s) (distinct : Function.Injective token) {j : ι}
    (open_ : h.turn j ≠ .ended) : version snapshot ≠ token j := by
  obtain ⟨before, after, split, run⟩ := ordered.place i snapshot seen running
  intro same
  rcases versioned.version_serial initial run with first | ⟨k, member, stamp⟩
  · exact fresh j (same.symm.trans first)
  · obtain rfl := distinct (same.symm.trans stamp)
    exact ordered.notIn explained open_ (split ▸ List.mem_append_left after member)

include ordered explained running returns in
/-- A commit that writes nothing goes to the place of its snapshot. -/
theorem commit_quiet (held : inv snapshot) (quiet : result = snapshot)
    (unseen : ∀ j, h.turn j ≠ .ended → version snapshot ≠ token j) :
    ∃ order', Ordered body inv version token s (h.commit ⟨⟨snapshot, result⟩, i, seen⟩
      (db.land ⟨snapshot, result⟩ (h.log.drop seen) h.current)) order' := by
  subst quiet
  have here : h.turn i ≠ .ended := by
    rw [running]
    exact nofun
  have current : db.land ⟨result, result⟩ (h.log.drop seen) h.current = h.current := by
    unfold Merging.land
    split
    · next nothing =>
      refine (ordered.caughtUp i result seen running fun c held => ?_).symm
      rw [nothing] at held
      cases held
    · exact db.merge_kept _ _
  have silent : ¬ (⟨⟨result, result⟩, i, seen⟩ : Commit ι σ).Wrote version := fun wrote => wrote rfl
  have written : (h.commit ⟨⟨result, result⟩, i, seen⟩ h.current).written version = h.written version := by
    rw [History.written_commit, if_neg silent]
  obtain ⟨before, after, split, first⟩ := ordered.place i result seen running
  have serial := ordered.serial
  rw [current]
  subst split
  refine ⟨before ++ i :: after, ?_⟩
  constructor
  · simp only [History.commit, List.map_append, List.map_cons, List.map_nil]
    exact (List.perm_middle.trans (ordered.perm.cons i)).trans (List.perm_append_singleton i _).symm
  · rw [written]
    exact ordered.writers.trans ((List.sublist_cons_self i after).append_left before)
  · exact serial.insert first returns
  · rw [written]
    exact ordered.stamped
  · intro j snapshot' seen' other
    obtain ⟨before', after', split', first'⟩ :=
      ordered.place j snapshot' seen' (running_of_ended other).2
    rcases List.append_eq_append_iff.mp split' with ⟨mid, rfl, rfl⟩ | ⟨mid, rfl, rfl⟩
    · exact ⟨before ++ i :: mid, after', by simp, first'.insert first returns⟩
    · exact ⟨before', mid ++ i :: after, by simp, first'⟩
  · intro j snapshot' seen' other silent
    refine ordered.caughtUp j snapshot' seen' (running_of_ended other).2 fun c held => silent c ?_
    have enough := (explained.running j snapshot' seen' (running_of_ended other).2).1
    simp only [History.commit, List.drop_append_of_le_length enough]
    exact List.mem_append_left _ held
  · rw [written]
    exact ordered.versions
  · rw [written]
    exact ordered.passed
  · exact fun j open_ => ordered.unseen_commit open_ (unseen j (turn_of_ended open_).2)
  · exact ordered.ran_commit ⟨held, returns, unseen i here⟩

include ordered explained running returns in
/-- A commit that stamps the database has seen all the others that do. -/
theorem commit_stamped (versioned : Versioned db body inv version token) (held : inv snapshot)
    (distinct : Function.Injective token) (stamped : version result = token i)
    (apart : ∀ c ∈ h.log.drop seen, ¬ db.Collide ⟨snapshot, result⟩ c.toWrite)
    (unseen : ∀ j, h.turn j ≠ .ended → version snapshot ≠ token j) :
    Ordered body inv version token s (h.commit ⟨⟨snapshot, result⟩, i, seen⟩
      (db.land ⟨snapshot, result⟩ (h.log.drop seen) h.current)) (order ++ [i]) := by
  have here : h.turn i ≠ .ended := by
    rw [running]
    exact nofun
  have changed : version result ≠ version snapshot :=
    fun same => unseen i here (same.symm.trans stamped)
  have current : h.current = snapshot := by
    refine ordered.caughtUp i snapshot seen running fun c held wrote => apart c held ?_
    have inside : c ∈ h.log := List.mem_of_mem_drop held
    refine versioned.collides changed wrote fun same => here ?_
    have own := ordered.stamped c (List.mem_filter.mpr ⟨inside, decide_eq_true wrote⟩)
    rw [distinct (stamped.symm.trans (same.trans own))]
    exact explained.ended c inside
  have landed : db.land ⟨snapshot, result⟩ (h.log.drop seen) h.current = result := by
    unfold Merging.land
    split
    · rfl
    · rw [current]
      exact db.merge_alone _ _
  have wrote : (⟨⟨snapshot, result⟩, i, seen⟩ : Commit ι σ).Wrote version := changed
  have written : (h.commit ⟨⟨snapshot, result⟩, i, seen⟩ result).written version =
      h.written version ++ [⟨⟨snapshot, result⟩, i, seen⟩] := by
    rw [History.written_commit, if_pos wrote]
  rw [landed]
  constructor
  · simp only [History.commit, List.map_append, List.map_cons, List.map_nil]
    exact ordered.perm.append_right [i]
  · rw [written, List.map_append]
    exact ordered.writers.append (List.Sublist.refl [i])
  · exact Serial.append.mpr ⟨h.current, ordered.serial, result, current ▸ returns, rfl⟩
  · intro c held
    rw [written] at held
    rcases List.mem_append.mp held with old | new
    · exact ordered.stamped c old
    · rw [List.mem_singleton.mp new]
      exact stamped
  · intro j snapshot' seen' other
    obtain ⟨before, after, split, first⟩ :=
      ordered.place j snapshot' seen' (running_of_ended other).2
    exact ⟨before, after ++ [i], by rw [split, List.append_assoc], first⟩
  · intro j snapshot' seen' other silent
    have enough := (explained.running j snapshot' seen' (running_of_ended other).2).1
    refine absurd wrote (silent _ ?_)
    simp only [History.commit, List.drop_append_of_le_length enough]
    exact List.mem_append_right _ List.mem_cons_self
  · rw [written, List.map_append, List.nodup_append]
    refine ⟨ordered.versions, List.nodup_singleton _, ?_⟩
    rintro _ old _ new rfl
    obtain ⟨c, held, same⟩ := List.mem_map.mp old
    have passed := ordered.passed c held
    rw [current] at passed
    exact passed (same.trans (List.mem_singleton.mp new))
  · intro c held
    rw [written] at held
    rcases List.mem_append.mp held with old | new
    · exact fun same => ordered.unseen i here c (List.mem_filter.mp old).1 (same.trans stamped)
    · rw [List.mem_singleton.mp new]
      exact changed.symm
  · exact fun j open_ => ordered.unseen_commit open_ (unseen j (turn_of_ended open_).2)
  · exact ordered.ran_commit ⟨held, returns, unseen i here⟩

end Commit
end Ordered

section
variable (versioned : Versioned db body inv version token) (initial : inv s)
  (fresh : ∀ i, token i ≠ version s) (distinct : Function.Injective token)

include versioned initial fresh distinct in
private theorem ordered_of_step {h' : History ι σ}
    (ordered : Ordered body inv version token s h order)
    (explained : db.Explained body s h) (step : db.Step body h h') :
    ∃ order', Ordered body inv version token s h' order' := by
  cases step with
  | start i idle => exact ⟨order, ordered.start idle⟩
  | abandon i running => exact ⟨order, ordered.abandon⟩
  | @commit i snapshot result seen running returns apart =>
    have unseen : ∀ j, h.turn j ≠ .ended → version snapshot ≠ token j := fun j =>
      ordered.snapshot_version explained running versioned initial fresh distinct
    obtain ⟨before, after, -, run⟩ := ordered.place i snapshot seen running
    have held := versioned.keeps_serial initial run
    rcases versioned.stamps held returns with quiet | stamped
    · exact ordered.commit_quiet explained running returns held quiet unseen
    · exact ⟨order ++ [i],
        ordered.commit_stamped explained running returns versioned held distinct stamped apart unseen⟩

include versioned initial fresh distinct in
/-- Whatever is committed has a serial order. -/
theorem serializable (reached : db.Reached body s h) :
    ∃ order, Ordered body inv version token s h order := by
  induction reached with
  | refl => exact ⟨[], .fresh⟩
  | tail before step ih =>
    obtain ⟨order, ordered⟩ := ih
    exact versioned.ordered_of_step initial fresh distinct ordered
      (Merging.Reached.explained before) step

end
end Versioned

end Beads.Lib
