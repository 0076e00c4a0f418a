import Mathlib.Algebra.Order.BigOperators.Group.Finset
import Beads.WorkspaceGate
import Beads.Lib.LockOrder

/-! The gates exclude what they are to exclude, the processes that take them never wait for each
other in a circle, and the sidecar of a gate names the process that holds it exclusively. -/
namespace Beads

section
variable {lower : Option (String → String)}

/-! ## The order of the gates -/

private theorem nodup_foldl_putGate (gates uniq : List String)
    (nodup : (uniq.map (gateKey lower)).Nodup) :
    ((gates.foldl (putGate lower) uniq).map (gateKey lower)).Nodup := by
  induction gates generalizing uniq with
  | nil => exact nodup
  | cons gate gates ih =>
    refine ih _ ?_
    rw [putGate, List.map_append, List.nodup_append]
    refine ⟨nodup.sublist (List.filter_sublist.map _), by simp, ?_⟩
    intro k held k' new same
    obtain ⟨other, kept, rfl⟩ := List.mem_map.mp held
    obtain rfl : k' = gateKey lower gate := by simpa using new
    exact of_decide_eq_true (List.mem_filter.mp kept).2 same

private theorem key_mem_foldl_putGate (gates uniq : List String) {k : String} :
    k ∈ (gates.foldl (putGate lower) uniq).map (gateKey lower) ↔
      k ∈ uniq.map (gateKey lower) ∨ k ∈ gates.map (gateKey lower) := by
  induction gates generalizing uniq with
  | nil => simp
  | cons gate gates ih =>
    rw [List.foldl_cons, ih, putGate, List.map_append, List.mem_append, List.map_cons,
      List.mem_cons]
    by_cases same : k = gateKey lower gate
    · simp [same]
    · have kept : k ∈ (uniq.filter (gateKey lower · ≠ gateKey lower gate)).map (gateKey lower) ↔
          k ∈ uniq.map (gateKey lower) := by
        simp only [List.mem_map, List.mem_filter, decide_eq_true_eq]
        constructor
        · rintro ⟨path, ⟨held, -⟩, rfl⟩
          exact ⟨path, held, rfl⟩
        · rintro ⟨path, held, rfl⟩
          exact ⟨path, ⟨held, same⟩, rfl⟩
      rw [kept]
      simp [same]

/-- The gates are taken in the order of their keys, each once. -/
theorem pairwise_orderGates {gates order : List String}
    (valid : orderGates lower gates = some order) :
    order.Pairwise (gateKey lower · < gateKey lower ·) := by
  rw [orderGates] at valid
  split_ifs at valid
  obtain rfl := Option.some.inj valid
  have sorted := List.pairwise_insertionSort (gateKey lower · ≤ gateKey lower ·)
    (gates.foldl (putGate lower) [])
  have nodup : ((gates.foldl (putGate lower) []).insertionSort
      (gateKey lower · ≤ gateKey lower ·)).Pairwise (gateKey lower · ≠ gateKey lower ·) := by
    rw [← List.pairwise_map (R := (· ≠ ·))]
    exact ((List.perm_insertionSort _ _).map _).nodup_iff.mpr
      (nodup_foldl_putGate gates [] List.nodup_nil)
  exact (sorted.and nodup).imp fun both => lt_of_le_of_ne both.1 both.2

private theorem key_mem_orderGates {gates order : List String}
    (valid : orderGates lower gates = some order) {k : String} :
    k ∈ order.map (gateKey lower) ↔ k ∈ gates.map (gateKey lower) := by
  rw [orderGates] at valid
  split_ifs at valid
  obtain rfl := Option.some.inj valid
  rw [((List.perm_insertionSort _ _).map _).mem_iff, key_mem_foldl_putGate]
  simp

/-! ## What every state keeps -/

/-- The gates are taken and released in the order of their keys. -/
def GatePhase.Ordered (lower : Option (String → String)) : GatePhase → Prop
  | .acquiring gates _ held rest => orderGates lower gates = some ((held.map Prod.fst).reverse ++ rest)
  | .sealing gates held gate rest =>
    orderGates lower gates = some ((held.map Prod.fst).reverse ++ gate :: rest)
  | .holding gates _ held => orderGates lower gates = some (held.map Prod.fst).reverse
  | .releasing _ held => (held.map Prod.fst).Pairwise fun a b => gateKey lower b < gateKey lower a
  | .unlocking gate held =>
    (gate :: held.map Prod.fst).Pairwise fun a b => gateKey lower b < gateKey lower a
  | _ => True

/-- A process in the phase has a lock on the file. -/
def GatePhase.Locks (lower : Option (String → String)) (phase : GatePhase) (k : String)
    (mode : GateMode) : Prop :=
  phase.mode = mode ∧ ∃ gate ∈ phase.locked, gateKey lower gate = k

variable {ι : Type} [DecidableEq ι] {s s' : GateState ι} {a : GateAction} {p q : ι}

/-- The invariant of the gates. -/
structure GateState.Sound (lower : Option (String → String)) (s : GateState ι) : Prop where
  ordered : ∀ p, (s.phase p).Ordered lower
  locks : ∀ p k mode, s.lock k p = some mode ↔ (s.phase p).Locks lower k mode
  exclusive : ∀ p q k, p ≠ q → s.lock k p = some .exclusive → s.lock k q = none
  info : ∀ p, ∀ gate ∈ (s.phase p).sealed, s.info (gateKey lower gate) = some p
  active : {p | s.phase p ≠ .idle}.Finite

@[simp] theorem GateState.enter_lock (phase : GatePhase) : (s.enter p phase).lock = s.lock := rfl

@[simp] theorem GateState.enter_info (phase : GatePhase) : (s.enter p phase).info = s.info := rfl

@[simp] theorem GateState.setLock_phase (k : String) (mode : Option GateMode) :
    (s.setLock k p mode).phase = s.phase := rfl

@[simp] theorem GateState.setLock_info (k : String) (mode : Option GateMode) :
    (s.setLock k p mode).info = s.info := rfl

omit [DecidableEq ι] in
@[simp] theorem GateState.setInfo_phase (k : String) (writer : Option ι) :
    (s.setInfo k writer).phase = s.phase := rfl

omit [DecidableEq ι] in
@[simp] theorem GateState.setInfo_lock (k : String) (writer : Option ι) :
    (s.setInfo k writer).lock = s.lock := rfl

@[simp] theorem GateState.enter_phase_self (phase : GatePhase) :
    (s.enter p phase).phase p = phase :=
  Function.update_self ..

private theorem GateState.enter_phase_of_ne (other : q ≠ p) (phase : GatePhase) :
    (s.enter p phase).phase q = s.phase q :=
  Function.update_of_ne other ..

@[simp] theorem GateState.setLock_lock_self (k : String) (mode : Option GateMode) (k' : String) :
    (s.setLock k p mode).lock k' p = if k' = k then mode else s.lock k' p := by
  by_cases same : k' = k
  · subst same
    simp [setLock]
  · simp [setLock, same]

private theorem GateState.setLock_lock_of_ne (other : q ≠ p) (k : String) (mode : Option GateMode)
    (k' : String) : (s.setLock k p mode).lock k' q = s.lock k' q := by
  by_cases same : k' = k
  · subst same
    simp [setLock, other]
  · simp [setLock, same]

/-- A step leaves the phase and the locks of the other processes. -/
theorem GateStep.frame (step : GateStep lower a p s s') (other : q ≠ p) :
    s'.phase q = s.phase q ∧ ∀ k, s'.lock k q = s.lock k q := by
  cases step <;> simp [GateState.enter_phase_of_ne other, GateState.setLock_lock_of_ne other, other]

private theorem pairwise_held {gates rest : List String} {held : List (String × Bool)}
    (valid : orderGates lower gates = some ((held.map Prod.fst).reverse ++ rest)) :
    (held.map Prod.fst).Pairwise fun a b => gateKey lower b < gateKey lower a :=
  List.pairwise_reverse.mp (List.pairwise_append.mp (pairwise_orderGates valid)).1

/-- A step keeps the order of the process that takes it. -/
theorem GateStep.ordered (step : GateStep lower a p s s') (sound : s.Sound lower) :
    (s'.phase p).Ordered lower := by
  have before := sound.ordered p
  cases step with
  | start mode idle valid => simpa [GatePhase.Ordered] using valid
  | lockShared phase | lockExclusive phase | wrote phase | wroteNothing phase | acquired phase | remove phase =>
    rw [phase] at before
    simpa [GatePhase.Ordered] using before
  | giveUp phase =>
    rw [phase] at before
    simpa [GatePhase.Ordered] using pairwise_held before
  | release phase =>
    rw [phase, GatePhase.Ordered, ← List.append_nil (List.reverse _)] at before
    simpa [GatePhase.Ordered] using pairwise_held before
  | unlockExclusive phase | unlockShared phase =>
    rw [phase] at before
    simpa [GatePhase.Ordered] using (List.pairwise_cons.mp before).2
  | released | crash | probe | probed => simp [GatePhase.Ordered]

/-- A step leaves the process with the locks of its phase. -/
theorem GateStep.locks (step : GateStep lower a p s s') (sound : s.Sound lower) (k : String)
    (mode : GateMode) :
    s'.lock k p = some mode ↔ (s'.phase p).Locks lower k mode := by
  have before := sound.locks p k mode
  have ordered := sound.ordered p
  unfold GatePhase.Locks at before ⊢
  -- a gate is unlocked once: the others that are held are other files
  have once {gate : String} {held : List (String × Bool)}
      (pairwise : (gate :: held.map Prod.fst).Pairwise fun a b => gateKey lower b < gateKey lower a) :
      ∀ other ∈ held.map Prod.fst, gateKey lower other ≠ gateKey lower gate := fun other inside =>
    ((List.pairwise_cons.mp pairwise).1 other inside).ne
  cases step with
  | start mode' phase valid | released phase =>
    rw [phase] at before
    simpa [GatePhase.locked] using before
  | @lockShared _ _ _ _ gate _ phase free | @lockExclusive _ _ _ _ gate _ phase free | probe gate phase free =>
    rw [phase] at before
    by_cases same : k = gateKey lower gate
    · simp [GatePhase.locked, GatePhase.mode, same]
    · simpa [GatePhase.locked, GatePhase.mode, same, Ne.symm same] using before
  | wrote phase | wroteNothing phase | acquired phase | giveUp phase | release phase | remove phase =>
    rw [phase] at before
    simpa [GatePhase.locked, GatePhase.mode] using before
  | @unlockExclusive _ _ gate held phase | @unlockShared _ _ gate flag held phase =>
    rw [phase] at before ordered
    by_cases same : k = gateKey lower gate
    · simpa [GatePhase.locked, GatePhase.mode, same] using fun _ => once ordered
    · simpa [GatePhase.locked, GatePhase.mode, same, Ne.symm same] using before
  | crash => simp [GatePhase.locked]
  | @probed _ _ gate phase =>
    rw [phase] at before
    by_cases same : k = gateKey lower gate
    · simp [GatePhase.locked, same]
    · simpa [GatePhase.locked, GatePhase.mode, same, Ne.symm same] using before

/-- A lock that a step takes was free before it. -/
theorem GateStep.free (step : GateStep lower a p s s') {k : String} {mode : GateMode}
    (locked : s'.lock k p = some mode) : s.lock k p = some mode ∨ s.Free k mode := by
  have changed {k' : String} {new : Option GateMode}
      (locked : (s.setLock k' p new).lock k p = some mode) :
      s.lock k p = some mode ∨ k' = k ∧ new = some mode := by
    by_cases same : k = k'
    · exact .inr ⟨same.symm, by simpa [same] using locked⟩
    · exact .inl (by simpa [same] using locked)
  cases step with
  | lockShared phase free | lockExclusive phase free | probe gate phase free =>
    refine (changed locked).imp_right ?_
    rintro ⟨rfl, own⟩
    exact Option.some.inj own ▸ free
  | unlockExclusive phase | unlockShared phase | probed phase =>
    refine (changed locked).imp_right ?_
    rintro ⟨-, own⟩
    cases own
  | crash => simp at locked
  | _ => exact .inl locked

private theorem GateStep.exclusive (step : GateStep lower a p s s') (sound : s.Sound lower)
    (q r : ι)
    (k : String) (apart : q ≠ r) (locked : s'.lock k q = some .exclusive) : s'.lock k r = none := by
  by_cases first : q = p
  · subst first
    rw [(step.frame apart.symm).2 k]
    rcases step.free locked with before | free
    · exact sound.exclusive q r k apart before
    · exact free r
  · rw [(step.frame first).2 k] at locked
    by_cases second : r = p
    · subst second
      rw [← Option.not_isSome_iff_eq_none, Option.isSome_iff_exists]
      rintro ⟨mode, taken⟩
      rcases step.free taken with before | free
      · rw [sound.exclusive q r k apart locked] at before
        cases before
      · cases mode with
        | shared => exact free q locked
        | exclusive => rw [free q] at locked; cases locked
    · rw [(step.frame second).2 k]
      exact sound.exclusive q r k apart locked

private theorem GatePhase.mem_locked_of_sealed {phase : GatePhase} {gate : String}
    (held : gate ∈ phase.sealed) :
    gate ∈ phase.locked := by
  have sub (l : List (String × Bool)) :
      ∀ g ∈ (l.filter Prod.snd).map Prod.fst, g ∈ l.map Prod.fst := fun g inside =>
    (List.filter_sublist.map Prod.fst).subset inside
  cases phase with
  | idle => exact held
  | acquiring _ _ l _ => exact sub l gate held
  | sealing _ l _ _ => exact List.mem_cons_of_mem _ (sub l gate held)
  | holding _ _ l => exact sub l gate held
  | releasing _ l => exact sub l gate held
  | unlocking _ l => exact List.mem_cons_of_mem _ (sub l gate held)
  | probing _ => cases held

/-- A sidecar changes only under the exclusive lock of the process that changes it. -/
theorem GateStep.info_of (step : GateStep lower a p s s') (sound : s.Sound lower) (k : String) :
    s'.info k = s.info k ∨ s.lock k p = some .exclusive := by
  have written {gate : String} {writer : Option ι} (inside : gate ∈ (s.phase p).locked)
      (mode : (s.phase p).mode = .exclusive) :
      (s.setInfo (gateKey lower gate) writer).info k = s.info k ∨ s.lock k p = some .exclusive := by
    by_cases same : k = gateKey lower gate
    · exact .inr ((sound.locks p k _).mpr ⟨mode, gate, inside, same.symm⟩)
    · exact .inl (Function.update_of_ne same ..)
  cases step with
  | wrote phase =>
    exact written (by simp [phase, GatePhase.locked]) (by simp [phase, GatePhase.mode])
  | wroteNothing phase kept =>
    exact written (by simp [phase, GatePhase.locked]) (by simp [phase, GatePhase.mode])
  | remove phase kept =>
    exact written (by simp [phase, GatePhase.locked]) (by simp [phase, GatePhase.mode])
  | _ => exact .inl rfl

/-- The sidecars that a process has written are its own after each of its steps. -/
theorem GateStep.info_self (step : GateStep lower a p s s') (sound : s.Sound lower) {gate : String}
    (held : gate ∈ (s'.phase p).sealed) : s'.info (gateKey lower gate) = some p := by
  have before := sound.info p
  have ordered := sound.ordered p
  have older {l : List (String × Bool)} (old : gate ∈ (l.filter Prod.snd).map Prod.fst) :
      gate ∈ l.map Prod.fst :=
    (List.filter_sublist.map Prod.fst).subset old
  have later {first : String × Bool} {l : List (String × Bool)}
      (old : gate ∈ (l.filter Prod.snd).map Prod.fst) :
      gate ∈ ((first :: l).filter Prod.snd).map Prod.fst :=
    (((List.sublist_cons_self first l).filter Prod.snd).map Prod.fst).subset old
  cases step with
  | start | released | crash | probe | probed => simp [GatePhase.sealed] at held
  | lockShared phase | lockExclusive phase | acquired phase | giveUp phase | release phase | unlockExclusive phase =>
    rw [phase] at before
    exact before gate (by simpa [GatePhase.sealed] using held)
  | @wrote _ _ gates others new rest phase =>
    rw [phase] at before
    by_cases same : gateKey lower gate = gateKey lower new
    · simp [GateState.setInfo, same]
    · have either : gate = new ∨ gate ∈ (others.filter Prod.snd).map Prod.fst := by
        simpa [GatePhase.sealed] using held
      have old := either.resolve_left fun same' => same (congrArg _ same')
      simpa [GateState.setInfo, same] using before gate old
  | @wroteNothing _ _ gates others new rest phase kept =>
    rw [phase] at before ordered
    have old : gate ∈ (others.filter Prod.snd).map Prod.fst := by
      simpa [GatePhase.sealed] using held
    have same : gateKey lower gate ≠ gateKey lower new :=
      ((List.pairwise_append.mp (pairwise_orderGates ordered)).2.2 gate (List.mem_reverse.mpr (older old)) new
        List.mem_cons_self).ne
    simpa [GateState.setInfo, same] using before gate old
  | @remove _ _ first flag others phase kept =>
    rw [phase] at before ordered
    have old : gate ∈ (others.filter Prod.snd).map Prod.fst := by
      simpa [GatePhase.sealed] using held
    have same : gateKey lower gate ≠ gateKey lower first :=
      ((List.pairwise_cons.mp ordered).1 gate (older old)).ne
    simpa [GateState.setInfo, same] using before gate (later old)
  | unlockShared phase =>
    rw [phase] at before
    exact before gate (later (by simpa [GatePhase.sealed] using held))

/-- Every step keeps the invariant. -/
theorem GateStep.sound (step : GateStep lower a p s s') (sound : s.Sound lower) :
    s'.Sound lower where
  ordered q := by
    by_cases self : q = p
    · subst self
      exact step.ordered sound
    · rw [(step.frame self).1]
      exact sound.ordered q
  locks q k mode := by
    by_cases self : q = p
    · subst self
      exact step.locks sound k mode
    · rw [(step.frame self).1, (step.frame self).2]
      exact sound.locks q k mode
  exclusive := step.exclusive sound
  info q gate held := by
    by_cases self : q = p
    · subst self
      exact step.info_self sound held
    · rw [(step.frame self).1] at held
      rcases step.info_of sound (gateKey lower gate) with same | locked
      · rw [same]
        exact sound.info q gate held
      · -- the file would be locked by both
        have own : s.lock (gateKey lower gate) q = some (s.phase q).mode :=
          (sound.locks q _ _).mpr ⟨rfl, gate, GatePhase.mem_locked_of_sealed held, rfl⟩
        rw [sound.exclusive p q _ (Ne.symm self) locked] at own
        cases own
  active := by
    refine (sound.active.insert p).subset fun q busy => ?_
    by_cases self : q = p
    · exact Set.mem_insert_iff.mpr (.inl self)
    · refine Set.mem_insert_of_mem p ?_
      have before := (step.frame self).1
      exact fun idle => busy (before.trans idle)

theorem sound_of_reachable (reachable : GateReachable lower s) : s.Sound lower := by
  obtain ⟨info, run⟩ := reachable
  induction run with
  | refl =>
    constructor
    · intro p
      trivial
    · intro p k mode
      simp [GateState.initial, GatePhase.Locks, GatePhase.locked]
    · intro p q k apart locked
      cases locked
    · intro p gate held
      cases held
    · simp [GateState.initial]
  | tail _ step ih =>
    obtain ⟨a, p, step⟩ := step
    exact step.sound ih

theorem GateReachable.step (reachable : GateReachable lower s) (step : GateStep lower a p s s') :
    GateReachable lower s' := by
  obtain ⟨info, run⟩ := reachable
  exact ⟨info, run.tail ⟨a, p, step⟩⟩

/-- One process holds two gates, a second waits for one of them, a third holds a gate that the
second wants next, and a fourth has not begun. -/
theorem reachable_waiting : ∃ s : GateState (Fin 4), GateReachable none s ∧
    s.phase 0 = .holding ["a", "b"] .exclusive [("b", true), ("a", true)] ∧
    s.phase 1 = .acquiring ["b", "c"] .shared [] ["b", "c"] ∧
      s.phase 2 = .holding ["c"] .shared [("c", false)] ∧
    s.phase 3 = .idle := by
  have initial : GateReachable none (GateState.initial fun _ => none : GateState (Fin 4)) :=
    ⟨_, .refl⟩
  have first := initial.step
    (.start (p := 0) .exclusive rfl (rfl : orderGates none ["a", "b"] = some ["a", "b"]))
  have lower := (first.step (.lockExclusive (p := 0) rfl fun q => rfl)).step (.wrote (p := 0) rfl)
  have upper := (lower.step (.lockExclusive (p := 0) rfl fun q => rfl)).step (.wrote (p := 0) rfl)
  have held := upper.step (.acquired (p := 0) rfl)
  have third := held.step (.start (p := 2) .shared rfl (rfl : orderGates none ["c"] = some ["c"]))
  have shared := third.step (.lockShared (p := 2) rfl fun q => by revert q; decide)
  have both := shared.step (.acquired (p := 2) rfl)
  have second :=
    both.step (.start (p := 1) .shared rfl (rfl : orderGates none ["b", "c"] = some ["b", "c"]))
  exact ⟨_, second, rfl, rfl, rfl, rfl⟩

/-! ## Exclusion -/

omit [DecidableEq ι] in
theorem GateState.Sound.locked_of_holding (sound : s.Sound lower) {gates : List String}
    {mode : GateMode}
    {held : List (String × Bool)} (phase : s.phase p = .holding gates mode held) {gate : String}
    (inside : gate ∈ gates) : s.lock (gateKey lower gate) p = some mode := by
  have ordered := sound.ordered p
  rw [phase] at ordered
  obtain ⟨taken, listed, same⟩ :=
    List.mem_map.mp ((key_mem_orderGates ordered).mpr (List.mem_map_of_mem inside))
  refine (sound.locks p _ _).mpr ?_
  rw [phase]
  exact ⟨rfl, taken, List.mem_reverse.mp listed, same⟩

/-- While a process holds gates exclusively, no other process holds any of them in either mode;
and a process that has none of the calls under way has no lock. -/
theorem gates_exclude (lower : Option (String → String)) {s : GateState ι}
    (reachable : GateReachable lower s) :
    (∀ p q gates gates' mode held held', p ≠ q → s.phase p = .holding gates .exclusive held →
      s.phase q = .holding gates' mode held' →
        ∀ gate ∈ gates, ∀ gate' ∈ gates', gateKey lower gate ≠ gateKey lower gate') ∧
      ∀ r, s.phase r = .idle → ∀ k, s.lock k r = none := by
  have sound := sound_of_reachable reachable
  constructor
  · intro p q gates gates' mode held held' apart own other gate inside gate' inside' same
    have locked := sound.locked_of_holding own inside
    have locked' := sound.locked_of_holding other inside'
    rw [← same, sound.exclusive p q _ apart locked] at locked'
    cases locked'
  · intro r idle k
    rw [← Option.not_isSome_iff_eq_none, Option.isSome_iff_exists]
    rintro ⟨taken, locked⟩
    have owned := (sound.locks r k taken).mp locked
    rw [idle] at owned
    obtain ⟨-, gate, inside, -⟩ := owned
    cases inside

theorem gates_exclude_waiting : ∃ s : GateState (Fin 4), GateReachable none s ∧
    s.phase 0 = .holding ["a", "b"] .exclusive [("b", true), ("a", true)] ∧
    s.phase 1 = .acquiring ["b", "c"] .shared [] ["b", "c"] ∧
      s.phase 2 = .holding ["c"] .shared [("c", false)] ∧
    (∀ gate ∈ ["a", "b"], ∀ gate' ∈ ["c"], gateKey none gate ≠ gateKey none gate') ∧
      ∀ k, s.lock k 3 = none := by
  obtain ⟨s, reachable, own, waits, other, idle⟩ := reachable_waiting
  obtain ⟨excluded, free⟩ := gates_exclude none reachable
  exact ⟨s, reachable, own, waits, other, excluded 0 2 _ _ _ _ _ (by decide) own other, free 3 idle⟩

/-- A shared attempt is refused by one process alone, and the sidecar that this process has
written names it. -/
theorem sidecar_names_holder (lower : Option (String → String)) {s : GateState ι}
    (reachable : GateReachable lower s) {k : String} (busy : ¬ s.Free k .shared) :
    ∃ p, s.lock k p = some .exclusive ∧ (∀ q, q ≠ p → s.lock k q = none) ∧
      ∀ gate ∈ (s.phase p).sealed, gateKey lower gate = k → s.info k = some p := by
  have sound := sound_of_reachable reachable
  simp only [GateState.Free, ne_eq, not_forall, not_not] at busy
  obtain ⟨p, locked⟩ := busy
  refine ⟨p, locked, fun q other => sound.exclusive p q k other.symm locked, ?_⟩
  rintro gate held rfl
  exact sound.info p gate held

/-- The second process is refused, and the sidecar names the first. -/
theorem sidecar_names_holder_waiting : ∃ s : GateState (Fin 4), ∃ p, GateReachable none s ∧
    s.phase 1 = .acquiring ["b", "c"] .shared [] ["b", "c"] ∧ s.lock "b" p = some .exclusive ∧
    s.info "b" = some p := by
  obtain ⟨s, reachable, own, waits, -⟩ := reachable_waiting
  have sound := sound_of_reachable reachable
  have inside : "b" ∈ ["a", "b"] := by decide
  have locked : s.lock "b" 0 = some .exclusive := sound.locked_of_holding own inside
  obtain ⟨p, holder, sole, named⟩ :=
    sidecar_names_holder none reachable (k := "b") fun free => free 0 locked
  have self : 0 = p := by
    by_contra apart
    rw [sole 0 apart] at locked
    cases locked
  subst self
  exact ⟨s, 0, reachable, waits, holder, named "b" (by rw [own]; exact List.mem_cons_self) rfl⟩

/-! ## Progress -/

/-- The gate that a process is about to lock. -/
def GatePhase.awaits : GatePhase → Option (String × GateMode)
  | .acquiring _ mode _ (gate :: _) => some (gate, mode)
  | _ => none

/-- A process that is not about to lock a gate has a step; so has one whose gate is free. -/
theorem exists_progress (busy : s.phase p ≠ .idle)
    (free : ∀ gate mode, (s.phase p).awaits = some (gate, mode) →
      s.Free (gateKey lower gate) mode) :
    ∃ s', GateProgress lower s s' := by
  cases phase : s.phase p with
  | idle => exact absurd phase busy
  | acquiring gates mode held rest =>
    cases rest with
    | nil => exact ⟨_, _, p, by decide, .acquired phase⟩
    | cons gate rest =>
      have open' := free gate mode (by rw [phase]; rfl)
      cases mode with
      | shared => exact ⟨_, _, p, by decide, .lockShared phase open'⟩
      | exclusive => exact ⟨_, _, p, by decide, .lockExclusive phase open'⟩
  | sealing gates held gate rest => exact ⟨_, _, p, by decide, .wrote phase⟩
  | holding gates mode held => exact ⟨_, _, p, by decide, .release phase⟩
  | releasing mode held =>
    cases held with
    | nil => exact ⟨_, _, p, by decide, .released phase⟩
    | cons first held =>
      cases mode with
      | shared => exact ⟨_, _, p, by decide, .unlockShared phase⟩
      | exclusive => exact ⟨_, _, p, by decide, .remove phase true⟩
  | unlocking gate held => exact ⟨_, _, p, by decide, .unlockExclusive phase⟩
  | probing gate => exact ⟨_, _, p, by decide, .probed phase⟩

omit [DecidableEq ι] in
/-- A process waits for a gate above all those it holds. -/
theorem GateState.Sound.awaits_above (sound : s.Sound lower) {gate : String} {mode : GateMode}
    (waiting : (s.phase p).awaits = some (gate, mode)) {k : String} {mode' : GateMode}
    (locked : s.lock k p = some mode') : k < gateKey lower gate := by
  have ordered := sound.ordered p
  have owned := (sound.locks p k mode').mp locked
  cases phase : s.phase p with
  | acquiring gates m held rest =>
    rw [phase] at ordered owned waiting
    cases rest with
    | nil => cases waiting
    | cons first rest =>
      obtain ⟨rfl, -⟩ := Prod.mk.inj (Option.some.inj waiting)
      obtain ⟨-, other, inside, rfl⟩ := owned
      exact (List.pairwise_append.mp (pairwise_orderGates ordered)).2.2 other
        (List.mem_reverse.mpr inside) first
        List.mem_cons_self
  | _ => rw [phase] at waiting; cases waiting

/-- While a process has something to do, one of them can go on: they are not all waiting for each
other. -/
theorem GateState.Sound.exists_progress (sound : s.Sound lower) (busy : s.phase p ≠ .idle) :
    ∃ s', GateProgress lower s s' := by
  by_contra stuck
  -- everyone waits for a gate that is not free
  have waiting : ∀ q, s.phase q ≠ .idle →
      ∃ gate mode, (s.phase q).awaits = some (gate, mode) ∧ ¬ s.Free (gateKey lower gate) mode := by
    intro q active
    by_contra free
    refine stuck (Beads.exists_progress active fun gate mode awaited => ?_)
    by_contra busy
    exact free ⟨gate, mode, awaited, busy⟩
  have idle_of_not_waiting : ∀ q, (s.phase q).awaits = none → s.phase q = .idle := by
    intro q calm
    by_contra active
    obtain ⟨gate, mode, awaited, -⟩ := waiting q active
    rw [calm] at awaited
    cases awaited
  obtain ⟨gate, mode, awaited, -⟩ := waiting p busy
  obtain ⟨-, k, holder, -, ⟨mode', locked⟩, calm⟩ := Lib.exists_holder_not_waiting
    (fun q => (s.phase q).awaits.map fun wait => gateKey lower wait.1)
    (fun q k => ∃ mode, s.lock k q = some mode)
    (sound.active.subset fun q waits idle => by simp [idle, GatePhase.awaits] at waits)
    (by
      intro q k k' waits ⟨mode', locked⟩
      obtain ⟨⟨gate, mode⟩, awaited, rfl⟩ := Option.map_eq_some_iff.mp waits
      exact sound.awaits_above awaited locked)
    (by
      intro q k waits
      obtain ⟨⟨gate, mode⟩, awaited, rfl⟩ := Option.map_eq_some_iff.mp waits
      have active : s.phase q ≠ .idle := by
        intro idle
        rw [idle] at awaited
        cases awaited
      obtain ⟨gate', mode', awaited', busy⟩ := waiting q active
      obtain ⟨rfl, rfl⟩ := Prod.mk.inj (Option.some.inj (awaited.symm.trans awaited'))
      cases mode with
      | shared =>
        simp only [GateState.Free, ne_eq, not_forall, not_not] at busy
        exact busy.imp fun r locked => ⟨_, locked⟩
      | exclusive =>
        simp only [GateState.Free, not_forall] at busy
        exact busy.imp fun r taken => Option.ne_none_iff_exists'.mp taken)
    (Option.map_eq_some_iff.mpr ⟨_, awaited, rfl⟩)
  have owned := (sound.locks holder k mode').mp locked
  rw [idle_of_not_waiting holder (Option.map_eq_none_iff.mp calm)] at owned
  obtain ⟨-, _, inside, -⟩ := owned
  cases inside

/-- What a process still has to do. -/
def GatePhase.work : GatePhase → Nat
  | .idle => 0
  | .acquiring _ _ held rest => 4 * rest.length + 2 * held.length + 3
  | .sealing _ held _ rest => 4 * rest.length + 2 * held.length + 6
  | .holding _ _ held => 2 * held.length + 2
  | .releasing _ held => 2 * held.length + 1
  | .unlocking _ held => 2 * held.length + 2
  | .probing _ => 1

/-- A step of progress is the work of a process that has begun something. -/
theorem GateStep.work_lt (step : GateStep lower a p s s')
    (progress : a ∉ [GateAction.start, .giveUp, .crash, .probe]) :
    (s'.phase p).work < (s.phase p).work := by
  cases step with
  | start | giveUp | crash | probe => simp at progress
  | lockShared phase | lockExclusive phase | wrote phase | wroteNothing phase | acquired phase | release phase
  | remove phase | unlockExclusive phase | unlockShared phase | released phase | probed phase =>
    rw [GateState.enter_phase_self, phase]
    simp only [GatePhase.work, List.length_cons, List.length_nil]
    omega

/-- Only the processes of the set have something to do. -/
def GateState.ActiveIn (s : GateState ι) (procs : Finset ι) : Prop :=
  ∀ q, s.phase q ≠ .idle → q ∈ procs

theorem GateProgress.spec (progress : GateProgress lower s s') {procs : Finset ι}
    (active : s.ActiveIn procs) :
    s'.ActiveIn procs ∧ ∑ q ∈ procs, (s'.phase q).work < ∑ q ∈ procs, (s.phase q).work := by
  obtain ⟨a, p, counted, step⟩ := progress
  have less := step.work_lt counted
  have inside : p ∈ procs := active p fun idle => by simp [idle, GatePhase.work] at less
  constructor
  · intro q busy
    by_cases self : q = p
    · exact self ▸ inside
    · rw [(step.frame self).1] at busy
      exact active q busy
  · refine Finset.sum_lt_sum (fun q _ => ?_) ⟨p, inside, less⟩
    by_cases self : q = p
    · exact (self ▸ less).le
    · rw [(step.frame self).1]

/-- Whatever the processes have begun comes to its end. Once no process starts anything, no run of
them goes on forever; wherever one stops, every process is done; and there is such a run. -/
theorem gates_complete (lower : Option (String → String)) {s : GateState ι}
    (reachable : GateReachable lower s) :
    Acc (flip (GateProgress lower)) s ∧
      (∃ t, Relation.ReflTransGen (GateProgress lower) s t ∧ ∀ p, t.phase p = .idle) ∧
      ∀ t, Relation.ReflTransGen (GateProgress lower) s t → (∀ t', ¬ GateProgress lower t t') →
        ∀ p, t.phase p = .idle := by
  have sound := sound_of_reachable reachable
  have ends : ∀ t :
      GateState ι, t.Sound lower → (∀ t', ¬ GateProgress lower t t') → ∀ p, t.phase p = .idle := by
    intro t sound stuck p
    by_contra busy
    obtain ⟨t', progress⟩ := sound.exists_progress busy
    exact stuck t' progress
  have keeps {t t' : GateState ι} (sound : t.Sound lower) (progress : GateProgress lower t t') :
      t'.Sound lower := by
    obtain ⟨a, p, -, step⟩ := progress
    exact step.sound sound
  have finite : Acc (flip (GateProgress lower)) s := by
    -- the work of all of them goes down
    have all : s.ActiveIn sound.active.toFinset := fun q busy => sound.active.mem_toFinset.mpr busy
    generalize sound.active.toFinset = procs at all
    clear sound reachable
    induction work : ∑ q ∈ procs, (s.phase q).work using Nat.strong_induction_on generalizing s with
    | _ n ih =>
      constructor
      intro t progress
      obtain ⟨active, less⟩ := GateProgress.spec progress all
      exact ih _ (work ▸ less) active rfl
  refine ⟨finite, ?_, ?_⟩
  · clear reachable
    induction finite with
    | intro s _ ih =>
      by_cases stuck : ∀ t', ¬ GateProgress lower s t'
      · exact ⟨s, .refl, ends s sound stuck⟩
      · simp only [not_forall, not_not] at stuck
        obtain ⟨t', progress⟩ := stuck
        obtain ⟨t, run, idle⟩ := ih t' progress (keeps sound progress)
        exact ⟨t, .head progress run, idle⟩
  · intro t run stuck
    refine ends t ?_ stuck
    clear stuck
    induction run with
    | refl => exact sound
    | tail _ progress ih => exact keeps ih progress

/-- All four come to an end, also the one that waits. -/
theorem gates_complete_waiting : ∃ s t : GateState (Fin 4),
    s.phase 0 = .holding ["a", "b"] .exclusive [("b", true), ("a", true)] ∧
    s.phase 1 = .acquiring ["b", "c"] .shared [] ["b", "c"] ∧
      Relation.ReflTransGen (GateProgress none) s t ∧
      ∀ p, t.phase p = .idle := by
  obtain ⟨s, reachable, own, waits, -⟩ := reachable_waiting
  obtain ⟨-, ⟨t, run, idle⟩, -⟩ := gates_complete none reachable
  exact ⟨s, t, own, waits, run, idle⟩

end
end Beads
