import Mathlib.Algebra.BigOperators.Group.List.Basic
import Mathlib.Algebra.GroupWithZero.Nat
import Mathlib.Data.List.MinMax
import Mathlib.Order.Nat
import Beads.Swarm
import Beads.Lib.Ranks

/-! The analysis of an epic is exact: a cycle is reported when the children that are not closed
have one, and otherwise the waves are the ranks of these children among themselves. -/
namespace Beads
open Lib Lib.Graph Relation

namespace SwarmGraph
variable {g : SwarmGraph} {x y z : String}

/-- Neither issue is closed, and the first depends on the second. -/
def OpenBlocker (g : SwarmGraph) (x y : String) : Prop :=
  g.Tracked x ∧ g.Tracked y ∧ y ∈ g.dependsOn x

theorem mem_ids : x ∈ g.ids ↔ ∃ node ∈ g.issues, node.id = x := List.mem_map

private theorem find?_of_mem (held : x ∈ g.ids) :
    ∃ node ∈ g.issues, node.id = x ∧ g.issues.find? x = some node := by
  obtain ⟨node, inside, named⟩ := mem_ids.mp held
  exact ⟨node, inside, named, Table.find?_eq_some.mpr ⟨inside, named⟩⟩

theorem mem_ids_of_dependsOn (blocker : y ∈ g.dependsOn x) : x ∈ g.ids ∧ y ∈ g.ids := by
  rw [dependsOn] at blocker
  split at blocker
  · next node found =>
    obtain ⟨held, named⟩ := Table.find?_eq_some.mp found
    exact ⟨mem_ids.mpr ⟨node, held, named⟩, mem_ids.mpr (g.inside node held y blocker)⟩
  · cases blocker

private theorem step_iff : CycleCheck.Step g.issueIsClosed g.dependsOn x y ↔ g.OpenBlocker x y := by
  constructor
  · rintro ⟨open_, open', blocker⟩
    obtain ⟨left, right⟩ := mem_ids_of_dependsOn blocker
    exact ⟨⟨left, open_⟩, ⟨right, open'⟩, blocker⟩
  · rintro ⟨left, right, blocker⟩
    exact ⟨left.2, right.2, blocker⟩

/-- The check reports a path exactly when there is a cycle. -/
theorem detectCycles_spec {order : List String} (perm : order.Perm g.ids) :
    (∃ path, (g.detectCycles order).Returns (some path)) ∧ ¬ Acyclic g.OpenBlocker ∨
      (g.detectCycles order).Returns none ∧ Acyclic g.OpenBlocker := by
  have same : CycleCheck.Step g.issueIsClosed g.dependsOn = g.OpenBlocker := by
    funext x y
    exact propext step_iff
  have known : ∀ a b, CycleCheck.Step g.issueIsClosed g.dependsOn a b → a ∈ order ∧ b ∈ order := by
    intro a b step
    obtain ⟨left, right⟩ := mem_ids_of_dependsOn step.2.2
    exact ⟨perm.mem_iff.mpr left, perm.mem_iff.mpr right⟩
  rcases CycleCheck.check_spec known with ⟨⟨found, ends⟩, cyclic⟩ | ⟨⟨completed, returns⟩, acyclic⟩
  · left
    rw [same] at cyclic
    exact ⟨⟨found.1, Call.returns_bind.mpr ⟨_, ends.outcome, Call.returns_pure.mpr rfl⟩⟩, cyclic⟩
  · right
    rw [same] at acyclic
    exact ⟨Call.returns_bind.mpr ⟨_, Call.Ends.outcome returns, Call.returns_pure.mpr rfl⟩, acyclic⟩

/-! ## The release of dependents -/

section Release
variable {wave : Nat} {s : Release}

private theorem release_of_untracked (other : ¬ g.Tracked x) : g.release wave s x = s := by
  simp [release, other]

private theorem release_of_tracked (tracked : g.Tracked x) : g.release wave s x =
    if s.inDegree x - 1 = 0 then
      ⟨Function.update s.inDegree x (s.inDegree x - 1), s.nextWave ++ [x], Function.update s.waveOf x (wave + 1)⟩
    else { s with inDegree := Function.update s.inDegree x (s.inDegree x - 1) } := by
  simp [release, tracked, tracked.2]

/-- Each dependent loses as many blockers as it is listed times, and is released once, when
it has none left. -/
theorem foldl_release (wave : Nat) (s : Release) (dependents : List String) : ∃ new : List String,
    (dependents.foldl (g.release wave) s).nextWave = s.nextWave ++ new ∧ new.Nodup ∧
      (∀ x, x ∈ new ↔ g.Tracked x ∧ 1 ≤ s.inDegree x ∧ s.inDegree x ≤ dependents.count x) ∧
      (∀ x, g.Tracked x → (dependents.foldl (g.release wave) s).inDegree x = s.inDegree x - dependents.count x) ∧
      ∀ x, (dependents.foldl (g.release wave) s).waveOf x = if x ∈ new then (wave : Int) + 1 else s.waveOf x := by
  induction dependents generalizing s with
  | nil => exact ⟨[], by simp, List.nodup_nil, by simp; omega, by simp, by simp⟩
  | cons first rest ih =>
    rw [List.foldl_cons]
    by_cases tracked : g.Tracked first
    · by_cases last : s.inDegree first - 1 = 0
      · -- The first one is released here and never again.
        rw [release_of_tracked tracked, if_pos last]
        obtain ⟨new, wave_eq, nodup, members, degrees, waves⟩ :=
          ih ⟨Function.update s.inDegree first (s.inDegree first - 1), s.nextWave ++ [first],
            Function.update s.waveOf first (wave + 1)⟩
        have outside : first ∉ new := by
          rw [members]
          simp [last]
        refine ⟨first :: new, by simp [wave_eq], List.nodup_cons.mpr ⟨outside, nodup⟩, ?_, ?_, ?_⟩
        · intro x
          by_cases same : x = first
          · subst same
            simp only [List.mem_cons_self, true_iff, tracked, List.count_cons_self, true_and]
            omega
          · rw [List.mem_cons, members]
            simp [same, List.count_cons_of_ne (Ne.symm same)]
        · intro x held
          rw [degrees x held]
          by_cases same : x = first
          · subst same
            simp only [Function.update_self, List.count_cons_self]
            omega
          · simp [same, List.count_cons_of_ne (Ne.symm same)]
        · intro x
          rw [waves]
          by_cases same : x = first
          · subst same
            simp
          · simp [same]
      · rw [release_of_tracked tracked, if_neg last]
        obtain ⟨new, wave_eq, nodup, members, degrees, waves⟩ := ih { s with
          inDegree := Function.update s.inDegree first (s.inDegree first - 1) }
        refine ⟨new, wave_eq, nodup, ?_, ?_, waves⟩
        · intro x
          rw [members]
          by_cases same : x = first
          · subst same
            simp only [Function.update_self, List.count_cons_self]
            apply and_congr_right
            intro _
            omega
          · simp [same, List.count_cons_of_ne (Ne.symm same)]
        · intro x held
          rw [degrees x held]
          by_cases same : x = first
          · subst same
            simp only [Function.update_self, List.count_cons_self]
            omega
          · simp [same, List.count_cons_of_ne (Ne.symm same)]
    · rw [release_of_untracked tracked]
      obtain ⟨new, wave_eq, nodup, members, degrees, waves⟩ := ih s
      have differs {x : String} (held : g.Tracked x) : first ≠ x :=
        fun same => tracked (same ▸ held)
      refine ⟨new, wave_eq, nodup, ?_, ?_, waves⟩
      · intro x
        rw [members]
        apply and_congr_right
        intro held
        rw [List.count_cons_of_ne (differs held)]
      · intro x held
        rw [degrees x held, List.count_cons_of_ne (differs held)]

end Release

/-! ## The waves -/

/-- The blockers of an issue that are not closed and have at least the rank. -/
def blockersFrom (g : SwarmGraph) (rank : String → Nat) (n : Nat) (x : String) : Nat :=
  (g.dependsOn x).countP fun y => g.issueIsClosed y = false ∧ n ≤ rank y

/-- What holds at the head of the loop: the waves before the present one are done. -/
structure Waved (g : SwarmGraph) (rank : String → Nat) (s : Fronts) : Prop where
  degree : ∀ x, g.Tracked x → s.inDegree x = g.blockersFrom rank s.wave x
  nodup : s.currentWave.Nodup
  current : ∀ x, x ∈ s.currentWave ↔ g.Tracked x ∧ rank x = s.wave
  waveOf : ∀ x, g.Tracked x → rank x ≤ s.wave → s.waveOf x = rank x
  waves : s.readyFronts.map ReadyFront.wave = List.range s.wave
  fronts : ∀ front ∈ s.readyFronts, front.issues.Nodup ∧ ∀ x, x ∈ front.issues ↔ g.Tracked x ∧ rank x = front.wave
  highest : ∀ front ∈ s.readyFronts, front.issues.length ≤ s.maxParallelism
  reached : s.readyFronts = [] ∧ s.maxParallelism = 0 ∨
    ∃ front ∈ s.readyFronts, front.issues.length = s.maxParallelism

section Waves
variable {rank : String → Nat} {s : Fronts} {n : Nat}

/-- Records on both ends are counted alike. -/
theorem count_dependedOnBy (left : x ∈ g.ids) (right : y ∈ g.ids) :
    (g.dependedOnBy y).count x = (g.dependsOn x).count y := by
  obtain ⟨node, held, rfl, found⟩ := find?_of_mem left
  obtain ⟨dep, held', rfl, found'⟩ := find?_of_mem right
  rw [dependedOnBy, dependsOn, found, found']
  exact (g.mirrored node held dep held').symm

/-- A list is counted by the elements it may have. -/
theorem sum_count_eq_countP {keys : List String} (nodup : keys.Nodup) (list : List String) :
    (keys.map fun y => list.count y).sum = list.countP fun y => y ∈ keys := by
  induction keys with
  | nil => simp
  | cons key rest ih =>
    obtain ⟨outside, nodup⟩ := List.nodup_cons.mp nodup
    have split : list.countP (fun y => y ∈ key :: rest) = list.count key + list.countP
        (fun y => y ∈ rest) := by
      clear ih
      induction list with
      | nil => rfl
      | cons first others ih =>
        rw [List.countP_cons, List.countP_cons, List.count_cons, ih]
        by_cases same : first = key
        · subst same
          simp [outside]
          omega
        · simp [same]
          omega
    rw [List.map_cons, List.sum_cons, ih nodup, split]

/-- The blockers of a wave are those that its issues release. -/
theorem blockersFrom_eq {wave : List String} (nodup : wave.Nodup)
    (members : ∀ y, y ∈ wave ↔ g.Tracked y ∧ rank y = n) (held : x ∈ g.ids) :
    g.blockersFrom rank n x = (wave.flatMap g.dependedOnBy).count x + g.blockersFrom rank (n + 1) x := by
  have released : (wave.flatMap g.dependedOnBy).count x =
      (g.dependsOn x).countP fun y => y ∈ wave := by
    rw [List.count_flatMap, ← sum_count_eq_countP nodup]
    congr 1
    apply List.map_congr_left
    intro y inside
    exact count_dependedOnBy held ((members y).mp inside).1.1
  have known : ∀ y ∈ g.dependsOn x, y ∈ g.ids := fun y blocker => (mem_ids_of_dependsOn blocker).2
  rw [released, blockersFrom, blockersFrom]
  generalize g.dependsOn x = blockers at known
  clear released
  induction blockers with
  | nil => rfl
  | cons first rest ih =>
    rw [List.countP_cons, List.countP_cons, List.countP_cons,
      ih fun y blocker => known y (List.mem_cons_of_mem _ blocker)]
    have listed := known first List.mem_cons_self
    simp only [members, Tracked, listed, true_and, decide_eq_true_eq]
    by_cases open_ : g.issueIsClosed first = false
    · simp only [open_, true_and]
      by_cases here : rank first = n
      · simp [here]
        omega
      · by_cases above : n ≤ rank first
        · have above' : n + 1 ≤ rank first := by omega
          simp [here, above, above']
          omega
        · have below : ¬ n + 1 ≤ rank first := by omega
          simp [here, above, below]
    · simp [open_]

theorem blockersFrom_pos (tracked : g.Tracked x) :
    0 < g.blockersFrom rank n x ↔ ∃ y, g.OpenBlocker x y ∧ n ≤ rank y := by
  rw [blockersFrom, List.countP_pos_iff]
  simp only [decide_eq_true_eq]
  constructor
  · rintro ⟨y, blocker, open_, above⟩
    exact ⟨y, ⟨tracked, ⟨(mem_ids_of_dependsOn blocker).2, open_⟩, blocker⟩, above⟩
  · rintro ⟨y, ⟨-, ⟨-, open_⟩, blocker⟩, above⟩
    exact ⟨y, blocker, open_, above⟩

variable (ranked : ∀ x, Rank g.OpenBlocker x (rank x))
include ranked

/-- The issues of the next wave have blockers in the present one, and none after it. -/
theorem rank_succ_iff (tracked : g.Tracked x) :
    rank x = n + 1 ↔ 0 < g.blockersFrom rank n x ∧ g.blockersFrom rank (n + 1) x = 0 := by
  have none : g.blockersFrom rank (n + 1) x = 0 ↔ ¬ ∃ y, g.OpenBlocker x y ∧ n + 1 ≤ rank y := by
    rw [← blockersFrom_pos tracked]
    omega
  rw [blockersFrom_pos tracked, none]
  constructor
  · intro above
    obtain ⟨y, blocker, chain⟩ := above ▸ (ranked x).1
    refine ⟨⟨y, blocker, (ranked y).chain_iff.mp chain⟩, ?_⟩
    rintro ⟨z, blocker', high⟩
    have below := (ranked x).lt_of_step (ranked z) blocker'
    omega
  · rintro ⟨⟨y, blocker, high⟩, low⟩
    have below : ∀ z, g.OpenBlocker x z → rank z ≤ n := by
      intro z blocker'
      by_contra above
      exact low ⟨z, blocker', by omega⟩
    have same : rank y = n := le_antisymm (below y blocker) high
    have next : Rank g.OpenBlocker x (n + 1) :=
      Rank.succ blocker (same ▸ ranked y) fun z blocker' => ⟨rank z, below z blocker', ranked z⟩
    exact (ranked x).unique next

private theorem rank_zero_iff (tracked : g.Tracked x) : rank x = 0 ↔ g.openBlockers x = 0 := by
  have all : g.openBlockers x = g.blockersFrom rank 0 x := by
    simp [openBlockers, blockersFrom]
  have none : g.blockersFrom rank 0 x = 0 ↔ ¬ ∃ y, g.OpenBlocker x y ∧ 0 ≤ rank y := by
    rw [← blockersFrom_pos tracked]
    omega
  rw [all, none]
  constructor
  · rintro zero ⟨y, blocker, -⟩
    have below := (ranked x).lt_of_step (ranked y) blocker
    omega
  · intro alone
    exact (ranked x).unique (Rank.zero fun y blocker => alone ⟨y, blocker, Nat.zero_le _⟩)

private theorem waved_firstFront {order : List String} (perm : order.Perm g.ids) :
    g.Waved rank (g.firstFront order) := by
  have distinct : order.Nodup := perm.nodup_iff.mpr g.issues.distinct
  have members : ∀ x, x ∈ (g.firstFront order).currentWave ↔ g.Tracked x ∧ rank x = 0 := by
    intro x
    simp only [firstFront, List.mem_filter, decide_eq_true_eq, perm.mem_iff]
    constructor
    · rintro ⟨held, open_, none⟩
      exact ⟨⟨held, open_⟩, (rank_zero_iff ranked ⟨held, open_⟩).mpr none⟩
    · rintro ⟨tracked, zero⟩
      exact ⟨tracked.1, tracked.2, (rank_zero_iff ranked tracked).mp zero⟩
  constructor
  · intro x _
    simp [firstFront, openBlockers, blockersFrom]
  · exact distinct.filter _
  · exact members
  · intro x tracked low
    have zero : rank x = 0 := Nat.le_zero.mp low
    have held := (members x).mpr ⟨tracked, zero⟩
    rw [zero]
    exact if_pos held
  · rfl
  · intro front held
    cases held
  · intro front held
    cases held
  · exact Or.inl ⟨rfl, rfl⟩

/-- The state after a wave. -/
theorem waved_nextFront (waved : g.Waved rank s) (open_ : s.currentWave ≠ []) :
    ∃ t, g.nextFront s = .ok (.inl t) ∧ g.Waved rank t ∧ t.wave = s.wave + 1 := by
  refine ⟨_, if_neg open_, ?_, rfl⟩
  have sorted : (s.currentWave.insertionSort (· ≤ ·)).Perm s.currentWave :=
    List.perm_insertionSort _ _
  generalize s.currentWave.insertionSort (· ≤ ·) = wave at sorted
  have nodup : wave.Nodup := sorted.nodup_iff.mpr waved.nodup
  have members : ∀ y, y ∈ wave ↔ g.Tracked y ∧ rank y = s.wave :=
    fun y => sorted.mem_iff.trans (waved.current y)
  obtain ⟨new, next, distinct, fresh, degrees, waves⟩ :=
    foldl_release (g := g) s.wave ⟨s.inDegree, [], s.waveOf⟩ (wave.flatMap g.dependedOnBy)
  generalize (wave.flatMap g.dependedOnBy).foldl (g.release s.wave) ⟨s.inDegree, [], s.waveOf⟩ = released
    at next degrees waves ⊢
  simp only at next fresh degrees waves
  have split {x : String} (tracked : g.Tracked x) := blockersFrom_eq nodup members tracked.1
  have new_iff : ∀ x, x ∈ new ↔ g.Tracked x ∧ rank x = s.wave + 1 := by
    intro x
    rw [fresh]
    apply and_congr_right
    intro tracked
    rw [rank_succ_iff ranked tracked, waved.degree x tracked]
    have sum := split tracked
    omega
  constructor
  · intro x tracked
    change released.inDegree x = g.blockersFrom rank (s.wave + 1) x
    rw [degrees x tracked, waved.degree x tracked]
    have sum := split tracked
    omega
  · simpa [next] using distinct
  · intro x
    change x ∈ released.nextWave ↔ _
    rw [next, List.nil_append]
    exact new_iff x
  · intro x tracked low
    change released.waveOf x = _
    rw [waves]
    split_ifs with held
    · rw [((new_iff x).mp held).2]
      rfl
    · have earlier : rank x ≤ s.wave := by
        have other : rank x ≠ s.wave + 1 := fun same => held ((new_iff x).mpr ⟨tracked, same⟩)
        have low : rank x ≤ s.wave + 1 := low
        omega
      exact waved.waveOf x tracked earlier
  · simp [waved.waves, List.range_succ]
  · intro front held
    rcases List.mem_append.mp held with old | last
    · exact waved.fronts front old
    · rw [List.mem_singleton.mp last]
      exact ⟨nodup, members⟩
  · intro front held
    simp only
    rcases List.mem_append.mp held with old | last
    · have le := waved.highest front old
      split_ifs <;> omega
    · rw [List.mem_singleton.mp last]
      simp only
      split_ifs <;> omega
  · right
    simp only
    split_ifs with wider
    · exact ⟨_, List.mem_append_right _ (List.mem_singleton.mpr rfl), rfl⟩
    · rcases waved.reached with ⟨-, zero⟩ | ⟨front, held, same⟩
      · have empty : wave.length = s.maxParallelism := by omega
        exact ⟨_, List.mem_append_right _ (List.mem_singleton.mpr rfl), empty⟩
      · exact ⟨front, List.mem_append_left _ held, same⟩

/-- An empty wave is the last one: an issue of a higher rank would have one of this rank below it.
-/
theorem rank_lt_of_empty (waved : g.Waved rank s) (none : s.currentWave = [])
    (tracked : g.Tracked x) :
    rank x < s.wave := by
  by_contra high
  obtain ⟨y, reaches, low⟩ := (ranked x).exists_below (fun y => ⟨rank y, ranked y⟩) (not_lt.mp high)
  have tracked' : g.Tracked y := by
    rcases ReflTransGen.cases_tail reaches with rfl | ⟨z, -, blocker⟩
    · exact tracked
    · exact blocker.2.1
  have held := (waved.current y).mpr ⟨tracked', (ranked y).unique low⟩
  rw [none] at held
  cases held

/-- The loop ends when all issues have their wave. -/
theorem loop_returns (waved : g.Waved rank s) :
    ∃ t, (Call.loop g.nextFront s).Returns t ∧ g.Waved rank t ∧ ∀ x, g.Tracked x →
      rank x < t.wave := by
  have returns : ∀ s, g.Waved rank s → ∀ t, g.nextFront s = .ok
      (.inr t) → g.Waved rank t ∧ t.currentWave = [] := by
    intro s waved t last
    by_cases none : s.currentWave = []
    · rw [nextFront, if_pos none] at last
      cases last
      exact ⟨waved, none⟩
    · obtain ⟨t', next, -, -⟩ := waved_nextFront ranked waved none
      rw [next] at last
      cases last
  have continues : ∀ s, g.Waved rank s → ∀ t, g.nextFront s = .ok (.inl t) →
      g.Waved rank t ∧
        (g.ids.filter fun x => t.wave ≤ rank x).length < (g.ids.filter fun x => s.wave ≤ rank x).length := by
    intro s waved t next
    by_cases none : s.currentWave = []
    · rw [nextFront, if_pos none] at next
      cases next
    · obtain ⟨t', next', waved', later⟩ := waved_nextFront ranked waved none
      rw [next'] at next
      cases next
      refine ⟨waved', ?_⟩
      obtain ⟨first, held⟩ := List.exists_mem_of_ne_nil _ none
      obtain ⟨tracked, here⟩ := (waved.current first).mp held
      have fewer : (g.ids.filter fun x => t.wave ≤ rank x) =
          (g.ids.filter fun x => s.wave ≤ rank x).filter fun x => t.wave ≤ rank x := by
        rw [List.filter_filter]
        apply List.filter_congr
        intro x _
        rw [← Bool.decide_and, decide_eq_decide]
        omega
      rw [fewer, List.length_filter_lt_length_iff_exists]
      refine ⟨first, ?_, ?_⟩
      · simp [tracked.1, here]
      · simp [later, here]
  obtain ⟨r, ends, holds⟩ :=
    Call.ends_loop (g.Waved rank) (fun s => (g.ids.filter fun x => s.wave ≤ rank x).length)
    (fun r => ∃ t, r = .ok t ∧ g.Waved rank t ∧ t.currentWave = []) (fun s _ e => e.elim)
    (fun s waved t last => ⟨t, rfl, returns s waved t last⟩) continues waved
  obtain ⟨t, rfl, waved, none⟩ := holds
  exact ⟨t, ends, waved, fun x tracked => rank_lt_of_empty ranked waved none tracked⟩

end Waves

/-! ## The analysis -/

/-- The waves of an analysis: they partition the children that are not closed, a child is in
the first wave if nothing open blocks it and else in the one after the last of its blockers,
and the parallelism is the size of the largest wave. -/
structure Partitions (g : SwarmGraph) (a : Analysis) : Prop where
  waves : a.readyFronts.map ReadyFront.wave = List.range a.readyFronts.length
  all : (a.readyFronts.flatMap ReadyFront.issues).Perm (g.ids.filter fun id => g.issueIsClosed id = false)
  waveOf : ∀ front ∈ a.readyFronts, ∀ x ∈ front.issues, a.waveOf x = front.wave
  first : ∀ x, g.Tracked x → (∀ y, ¬ g.OpenBlocker x y) → a.waveOf x = 0
  later : ∀ x y, g.OpenBlocker x y →
    ∃ z, g.OpenBlocker x z ∧ a.waveOf x = a.waveOf z + 1 ∧ ∀ w, g.OpenBlocker x w → a.waveOf w ≤ a.waveOf z
  widest : a.maxParallelism = (a.readyFronts.map fun front => front.issues.length).foldr max 0
  sessions : a.estimatedSessions = (g.ids.filter fun id => g.issueIsClosed id = false).length

/-- The loop ends with waves that are as asked for. -/
theorem Waved.partitions {rank : String → Nat} {s : Fronts}
    (ranked : ∀ x, Rank g.OpenBlocker x (rank x))
    (waved : g.Waved rank s) (done : ∀ x, g.Tracked x → rank x < s.wave) {a : Analysis}
    (fronts : a.readyFronts = s.readyFronts) (waves : a.waveOf = s.waveOf)
    (width : a.maxParallelism = s.maxParallelism)
    (sessions : a.estimatedSessions = (g.ids.filter fun id => g.issueIsClosed id = false).length) :
    g.Partitions a := by
  have wave_eq {x : String} (tracked : g.Tracked x) : a.waveOf x = rank x := by
    rw [waves]
    exact waved.waveOf x tracked (done x tracked).le
  have size : s.readyFronts.length = s.wave := by simpa using congrArg List.length waved.waves
  constructor
  · rw [fronts, size, waved.waves]
  · rw [fronts]
    have apart : s.readyFronts.Pairwise fun front front' => front.wave ≠ front'.wave := by
      apply List.pairwise_map.mp
      rw [waved.waves]
      exact List.nodup_range
    have distinct : (s.readyFronts.flatMap ReadyFront.issues).Nodup := by
      apply List.nodup_flatMap.mpr
      refine ⟨fun front held => (waved.fronts front held).1, ?_⟩
      apply apart.imp_of_mem
      intro front front' left right differ x held held'
      have first := (((waved.fronts front left).2 x).mp held).2
      have second := (((waved.fronts front' right).2 x).mp held').2
      exact differ (first.symm.trans second)
    have ids : g.ids.Nodup := g.issues.distinct
    apply (List.perm_ext_iff_of_nodup distinct (ids.filter _)).mpr
    intro x
    rw [List.mem_flatMap, List.mem_filter, decide_eq_true_eq]
    constructor
    · rintro ⟨front, held, listed⟩
      exact (((waved.fronts front held).2 x).mp listed).1
    · intro tracked
      have below : rank x ∈ s.readyFronts.map ReadyFront.wave := by
        rw [waved.waves, List.mem_range]
        exact done x tracked
      obtain ⟨front, held, same⟩ := List.mem_map.mp below
      exact ⟨front, held, ((waved.fronts front held).2 x).mpr ⟨tracked, same.symm⟩⟩
  · intro front held x listed
    rw [fronts] at held
    obtain ⟨tracked, same⟩ := ((waved.fronts front held).2 x).mp listed
    rw [← same]
    exact wave_eq tracked
  · intro x tracked alone
    rw [wave_eq tracked, (ranked x).unique (Rank.zero alone)]
    rfl
  · intro x y blocker
    have above := (ranked x).lt_of_step (ranked y) blocker
    obtain ⟨n, same⟩ : ∃ n, rank x = n + 1 := ⟨rank x - 1, by omega⟩
    obtain ⟨z, blocker', chain⟩ := same ▸ (ranked x).1
    have high := (ranked z).chain_iff.mp chain
    have low := (ranked x).lt_of_step (ranked z) blocker'
    refine ⟨z, blocker', ?_, ?_⟩
    · rw [wave_eq blocker'.1, wave_eq blocker'.2.1]
      omega
    · intro w other
      have lower := (ranked x).lt_of_step (ranked w) other
      rw [wave_eq other.2.1, wave_eq blocker'.2.1]
      omega
  · rw [width, fronts]
    apply le_antisymm
    · rcases waved.reached with ⟨-, zero⟩ | ⟨front, held, same⟩
      · rw [zero]
        exact Nat.zero_le _
      · exact List.le_max_of_le' 0 (List.mem_map.mpr ⟨front, held, rfl⟩) same.ge
    · change List.foldr max (⊥ : Nat) _ ≤ _
      apply List.max_le_of_forall_le
      intro length held
      obtain ⟨front, inside, rfl⟩ := List.mem_map.mp held
      exact waved.highest front inside
  · exact sessions

/-- Whatever the orders of the map are, the analysis reports a cycle exactly when the children
that are not closed have one, and else divides them into waves. -/
theorem analyze_exact (g : SwarmGraph) (checked fronted : List String) (perm : checked.Perm g.ids)
    (perm' : fronted.Perm g.ids) :
    ∃ a, (g.analyze checked fronted).Returns a ∧
      (a.cyclePath.isSome = true ↔ ¬ Acyclic g.OpenBlocker) ∧
      (Acyclic g.OpenBlocker → g.Partitions a) := by
  rcases detectCycles_spec perm with ⟨⟨path, found⟩, cyclic⟩ | ⟨none, acyclic⟩
  · refine ⟨_, Call.returns_bind.mpr ⟨_, found, Call.returns_pure.mpr rfl⟩, ?_,
      fun acyclic => absurd acyclic cyclic⟩
    simp [cyclic]
  · have known : ∀ a b, g.OpenBlocker a b → a ∈ g.ids ∧ b ∈ g.ids :=
      fun a b blocker => ⟨blocker.1.1, blocker.2.1.1⟩
    choose rank ranked using fun x => acyclic.exists_rank known x
    obtain ⟨t, returns, waved, done⟩ := loop_returns ranked (waved_firstFront ranked perm')
    refine ⟨_, Call.returns_bind.mpr ⟨_, none, Call.returns_bind.mpr ⟨t, returns, Call.returns_pure.mpr rfl⟩⟩, ?_, ?_⟩
    · simp [acyclic]
    · intro _
      exact waved.partitions ranked done rfl rfl rfl rfl

end SwarmGraph

/-! ## The graph of an epic -/

section Epic
variable {epicID : String} {children : List EpicChild}

/-- A child is listed with another one as often as it has records of it. -/
theorem count_dependents (distinct : (children.map EpicChild.id).Nodup) {child : EpicChild}
    (held : child ∈ children) (keep : EpicChild → List String) (target : String) :
    (children.flatMap fun other => ((keep other).filter (· = target)).map fun _ => other.id).count child.id =
      (keep child).count target := by
  have each (other : EpicChild) :
      (((keep other).filter (· = target)).map fun _ => other.id).count child.id =
      if other.id = child.id then (keep other).count target else 0 := by
    rw [List.map_const', List.count_replicate, ← List.countP_eq_length_filter]
    simp [List.count_eq_countP, beq_eq_decide]
  rw [List.count_flatMap]
  induction children with
  | nil => cases held
  | cons first rest ih =>
    obtain ⟨outside, distinct⟩ := List.nodup_cons.mp distinct
    rw [List.map_cons, List.sum_cons, Function.comp_apply, each]
    rcases List.mem_cons.mp held with rfl | held
    · have none : (rest.map (List.count child.id ∘ fun other =>
          ((keep other).filter (· = target)).map fun _ => other.id)).sum = 0 := by
        apply List.sum_eq_zero
        intro n counted
        obtain ⟨other, there, rfl⟩ := List.mem_map.mp counted
        rw [Function.comp_apply, each, if_neg]
        intro same
        exact outside (List.mem_map.mpr ⟨other, there, same⟩)
      rw [if_pos rfl, none, Nat.add_zero]
    · have differ : first.id ≠ child.id :=
        fun same => outside (List.mem_map.mpr ⟨child, held, same.symm⟩)
      rw [if_neg differ, Nat.zero_add]
      exact ih distinct held

/-- The nodes that are built record every dependency on both ends. -/
def swarmGraph (epicID : String) (children : List EpicChild)
    (distinct : (children.map EpicChild.id).Nodup) :
    SwarmGraph where
  issues := ⟨swarmNodes epicID children, by
    rw [swarmNodes, List.map_map]
    exact distinct⟩
  inside := by
    intro node held depID blocker
    obtain ⟨child, listed, rfl⟩ := List.mem_map.mp held
    obtain ⟨dep, kept, rfl⟩ := List.mem_map.mp blocker
    obtain ⟨other, there, named⟩ :=
      List.mem_map.mp (of_decide_eq_true (List.mem_filter.mp kept).2).2.2
    exact ⟨_, List.mem_map_of_mem there, named⟩
  mirrored := by
    intro node held dep held'
    obtain ⟨child, listed, rfl⟩ := List.mem_map.mp held
    obtain ⟨other, listed', rfl⟩ := List.mem_map.mp held'
    exact (count_dependents distinct listed (EpicChild.blockers epicID (children.map EpicChild.id)) other.id).symm

/-- A child that waits for a closed one, and one that waits for it in two ways. -/
def threeChildren : SwarmGraph := swarmGraph "bd-e"
  [ { id := "bd-1", status := .closed, dependencies := [("bd-e", .parentChild)] },
    { id := "bd-2", dependencies := [("bd-e", .parentChild), ("bd-1", .blocks)] },
    { id := "bd-3", dependencies := [("bd-2", .blocks), ("bd-2", .waitsFor), ("bd-e", .parentChild)] } ]
  (by decide)

private theorem threeChildren_acyclic : Acyclic threeChildren.OpenBlocker := by
  have only : ∀ x y, threeChildren.OpenBlocker x y → x = "bd-3" ∧ y = "bd-2" := by
    intro x y ⟨left, right, blocker⟩
    have left := left.1
    have ids : threeChildren.ids = ["bd-1", "bd-2", "bd-3"] := rfl
    rw [ids] at left
    simp only [List.mem_cons, List.not_mem_nil, or_false] at left
    rcases left with rfl | rfl | rfl
    · have none : threeChildren.dependsOn "bd-1" = [] := by decide +kernel
      rw [none] at blocker
      cases blocker
    · have one : threeChildren.dependsOn "bd-2" = ["bd-1"] := by decide +kernel
      rw [one, List.mem_singleton] at blocker
      have closed : threeChildren.issueIsClosed "bd-1" = true := by decide +kernel
      have open_ := right.2
      rw [blocker, closed] at open_
      cases open_
    · have two : threeChildren.dependsOn "bd-3" = ["bd-2", "bd-2"] := by decide +kernel
      rw [two] at blocker
      simpa using blocker
  intro x cycle
  obtain ⟨y, first, -⟩ := TransGen.head'_iff.mp cycle
  obtain ⟨z, -, last⟩ := TransGen.tail'_iff.mp cycle
  have same := (only x y first).1.symm.trans (only z x last).2
  simp at same

theorem analyze_exact_threeChildren :
    ∃ a, (threeChildren.analyze ["bd-3", "bd-1", "bd-2"] ["bd-2", "bd-3", "bd-1"]).Returns a ∧
      a.cyclePath.isSome = false ∧
        (a.readyFronts.flatMap ReadyFront.issues).Perm ["bd-2", "bd-3"] := by
  obtain ⟨a, returns, cycle, partitions⟩ :=
    SwarmGraph.analyze_exact threeChildren ["bd-3", "bd-1", "bd-2"] ["bd-2", "bd-3", "bd-1"] (by decide +kernel)
      (by decide +kernel)
  refine ⟨a, returns, ?_, ?_⟩
  · rw [Bool.eq_false_iff]
    intro found
    exact cycle.mp found threeChildren_acyclic
  · have all := (partitions threeChildren_acyclic).all
    have rest : (threeChildren.ids.filter fun id => threeChildren.issueIsClosed id = false) =
        ["bd-2", "bd-3"] := by
      decide +kernel
    rwa [rest] at all

end Epic
end Beads
