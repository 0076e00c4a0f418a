import Mathlib.Data.List.Perm.Subperm
import Mathlib.Tactic.Common
import Beads.Lib.Ranks

/-! The depth of a key, one above the deepest key it leads to, computed by a recursion that
remembers the depths it has found. A key that is met again while it is in progress counts as
depth zero; along a relation without cycles that does not happen, and the depth is the rank
(`depthsOf_spec`). The marks of the keys in progress may be kept or taken away at the end. -/
namespace Beads.Lib.Depths
open Relation Graph

variable {K : Type} [DecidableEq K]

/-- The depths found so far, and the keys that have been begun. -/
structure Marks (K : Type) where
  depths : List (K × Int)
  begun : List K

/-- A key is begun. -/
def Marks.begin (marks : Marks K) (k : K) : Marks K := { marks with begun := k :: marks.begun }

/-- The deepest of the keys, or the depth at hand when that is deeper. -/
def deepest (depth : K → Marks K → Option (Int × Marks K)) :
    Int → Marks K → List K → Option (Int × Marks K)
  | maximum, marks, [] => some (maximum, marks)
  | maximum, marks, k :: rest => do
    let (found, marks) ← depth k marks
    deepest depth (if found > maximum then found else maximum) marks rest

/-- The depth of a key. The nesting of the calls is bounded by the first argument. -/
def depth (next : K → List K) (takesAway : Bool) : Nat → K → Marks K → Option (Int × Marks K)
  | 0, _, _ => none
  | nesting + 1, k, marks =>
    match marks.depths.lookup k with
    | some known => some (known, marks)
    | none =>
      if k ∈ marks.begun then some (0, marks)
      else do
        let (maximum, marks) ← deepest (depth next takesAway nesting) (-1) (marks.begin k) (next k)
        let begun := if takesAway then marks.begun.filter (· ≠ k) else marks.begun
        some (maximum + 1, ⟨(k, maximum + 1) :: marks.depths, begun⟩)

/-- The depths found from the given keys, one after the other. -/
def depthsOf (next : K → List K) (takesAway : Bool) (nesting : Nat) (keys : List K) :
    Option (List (K × Int)) := do
  let marks ← keys.foldlM (fun marks k => (depth next takesAway nesting k marks).map Prod.snd) (⟨[], []⟩ : Marks K)
  return marks.depths

section Correctness
variable {next : K → List K} {takesAway : Bool} {marks after : Marks K} {k : K} {n nesting : Nat}
  {pool : List K}

/-- One key leads to another. -/
def Leads (next : K → List K) (a b : K) : Prop := b ∈ next a

/-- The key has been begun and has no depth yet. -/
def Marks.InProgress (marks : Marks K) (k : K) : Prop :=
  k ∈ marks.begun ∧ marks.depths.lookup k = none

/-- Recorded depths are ranks, and each is recorded once. -/
structure Marks.Sound (next : K → List K) (pool : List K) (marks : Marks K) : Prop where
  exact : ∀ k d, marks.depths.lookup k = some d → ∃ n : Nat, Rank (Leads next) k n ∧ d = n
  once : (marks.depths.map Prod.fst).Nodup
  pooled : ∀ k ∈ marks.depths.map Prod.fst, k ∈ pool

/-- What a call leaves as it was. -/
structure Extends (before after : Marks K) : Prop where
  inProgress : ∀ k, after.InProgress k ↔ before.InProgress k
  keeps : ∀ k d, before.depths.lookup k = some d → after.depths.lookup k = some d

theorem Extends.refl (marks : Marks K) : Extends marks marks :=
  ⟨fun _ => Iff.rfl, fun _ _ same => same⟩

theorem Extends.trans {first second third : Marks K} (left : Extends first second)
    (right : Extends second third) :
    Extends first third :=
  ⟨fun k => (right.inProgress k).trans (left.inProgress k), fun k d held => right.keeps k d (left.keeps k d held)⟩

/-- A call for a key ends with its rank. -/
def Finds (next : K → List K) (pool : List K) (visit : K → Marks K → Option (Int × Marks K)) (k : K)
    (n : Nat) : Prop :=
  ∀ marks, marks.Sound next pool → (∀ a, marks.InProgress a → TransGen (Leads next) a k) →
    ∃ after, visit k marks = some ((n : Int), after) ∧ after.Sound next pool ∧ Extends marks after ∧
      after.depths.lookup k = some (n : Int)

private theorem deepest_spec {visit : K → Marks K → Option (Int × Marks K)} {targets : List K}
    (ranked : ∀ m ∈ targets, ∃ j, Rank (Leads next) m j)
    (finds : ∀ m ∈ targets, ∀ j, Rank (Leads next) m j → Finds next pool visit m j) (maximum : Int)
    (sound : marks.Sound next pool)
    (leads : ∀ a, marks.InProgress a → ∀ m ∈ targets, TransGen (Leads next) a m) :
    ∃ top after, deepest visit maximum marks targets = some (top, after) ∧ after.Sound next pool ∧
      Extends marks after ∧ maximum ≤ top ∧
        (∀ m ∈ targets, ∀ j : Nat, Rank (Leads next) m j → (j : Int) ≤ top) ∧
      (top = maximum ∨ ∃ m ∈ targets, ∃ j : Nat, Rank (Leads next) m j ∧ top = j) := by
  induction targets generalizing maximum marks with
  | nil => exact ⟨maximum, marks, rfl, sound, .refl marks, le_refl _, by simp, .inl rfl⟩
  | cons first rest ih =>
    obtain ⟨j, rank⟩ := ranked first (by simp)
    obtain ⟨middle, run, sound', kept, -⟩ :=
      finds first (by simp) j rank marks sound fun a busy => leads a busy _ (by simp)
    have leads' (a : K) (busy : middle.InProgress a) (m : K) (inside : m ∈ rest) :
        TransGen (Leads next) a m :=
      leads a ((kept.inProgress a).mp busy) m (by simp [inside])
    obtain ⟨top, after, rest_run, sound'', kept', above, high, reached⟩ :=
      ih (fun m inside => ranked m (by simp [inside])) (fun m inside => finds m (by simp [inside]))
        (if (j : Int) > maximum then j else maximum) sound' leads'
    refine ⟨top, after, by rw [deepest, run]; exact rest_run, sound'', kept.trans kept', ?_, ?_, ?_⟩
    · split at above <;> omega
    · intro m inside i rank'
      rcases List.mem_cons.mp inside with rfl | inside
      · obtain rfl := rank.unique rank'
        split at above <;> omega
      · exact high m inside i rank'
    · rcases reached with same | ⟨m, inside, i, rank', same⟩
      · split at same
        · exact .inr ⟨first, by simp, j, rank, same⟩
        · exact .inl same
      · exact .inr ⟨m, by simp [inside], i, rank', same⟩

omit [DecidableEq K] in
/-- The rank of a key from the deepest key that it leads to. -/
theorem rank_of_deepest {top : Int} (rank : Rank (Leads next) k n) (above : -1 ≤ top)
    (high : ∀ m ∈ next k, ∀ j : Nat, Rank (Leads next) m j → (j : Int) ≤ top)
    (reached : top = -1 ∨ ∃ m ∈ next k, ∃ j : Nat, Rank (Leads next) m j ∧ top = j) :
    top + 1 = n := by
  rcases reached with rfl | ⟨m, step, j, below, rfl⟩
  · have last : ∀ m, ¬ Leads next k m := by
      intro m step
      obtain ⟨j, below, -⟩ := rank.exists_of_step step
      have := high m step j below
      omega
    have same := rank.unique (Rank.zero last)
    omega
  · have others (z : K) (step : Leads next k z) : ∃ i, i ≤ j ∧ Rank (Leads next) z i := by
      obtain ⟨i, below, -⟩ := rank.exists_of_step step
      have := high z step i below
      exact ⟨i, by omega, below⟩
    have same := rank.unique (Rank.succ step below others)
    omega

/-- A key that is settled joins the recorded ones. -/
theorem Marks.Sound.record (sound : marks.Sound next pool) (rank : Rank (Leads next) k n)
    (inside : k ∈ pool) (fresh : marks.depths.lookup k = none) (begun : List K) :
    Marks.Sound next pool ⟨(k, (n : Int)) :: marks.depths, begun⟩ where
  exact a d found := by
    rw [List.lookup_cons] at found
    split at found
    · next same =>
      obtain rfl : a = k := by simpa using same
      exact ⟨n, rank, (Option.some.inj found).symm⟩
    · exact sound.exact a d found
  once := by
    rw [List.map_cons, List.nodup_cons]
    refine ⟨?_, sound.once⟩
    rw [List.lookup_eq_none_iff] at fresh
    intro held
    obtain ⟨pair, held, same⟩ := List.mem_map.mp held
    have := fresh pair held
    simp [same] at this
  pooled a held := by
    rcases List.mem_cons.mp held with rfl | held
    · exact inside
    · exact sound.pooled a held

/-- The key begun last gets its depth. -/
theorem Extends.finish {top : Int} (kept : Extends (marks.begin k) after)
    (fresh : k ∉ marks.begun) (known : marks.depths.lookup k = none)
    (begins : ∀ a, (marks.begin k).InProgress a ↔ a = k ∨ marks.InProgress a) :
    Extends marks ⟨(k, top) :: after.depths, if takesAway then after.begun.filter (· ≠ k) else after.begun⟩ where
  inProgress a := by
    by_cases same : a = k
    · subst same
      simp [Marks.InProgress, fresh]
    · have unchanged := (kept.inProgress a).trans (begins a)
      rw [or_iff_right same] at unchanged
      rw [← unchanged]
      have other : (a == k) = false := by simpa using same
      simp only [Marks.InProgress, List.lookup_cons, other]
      cases takesAway <;> simp [same]
  keeps a d held := by
    have other : (a == k) = false := by
      rw [beq_eq_false_iff_ne]
      rintro rfl
      rw [known] at held
      cases held
    rw [List.lookup_cons, other]
    exact kept.keeps a d held

private theorem depth_spec (acyclic : Acyclic (Leads next))
    (closed : ∀ a ∈ pool, ∀ b ∈ next a, b ∈ pool)
    (inside : k ∈ pool) (rank : Rank (Leads next) k n) (enough : n < nesting) :
    Finds next pool (depth next takesAway nesting) k n := by
  induction nesting generalizing k n with
  | zero => omega
  | succ nesting ih =>
    intro marks sound leads
    rw [depth]
    cases known : marks.depths.lookup k with
    | some d =>
      obtain ⟨j, rank', rfl⟩ := sound.exact k d known
      obtain rfl := rank.unique rank'
      exact ⟨marks, rfl, sound, .refl marks, known⟩
    | none =>
      have fresh : k ∉ marks.begun := fun busy => acyclic k (leads k ⟨busy, known⟩)
      rw [if_neg fresh]
      have begins (a : K) : (marks.begin k).InProgress a ↔ a = k ∨ marks.InProgress a := by
        simp only [Marks.InProgress, Marks.begin, List.mem_cons]
        constructor
        · rintro ⟨rfl | busy, none⟩
          · exact .inl rfl
          · exact .inr ⟨busy, none⟩
        · rintro (rfl | ⟨busy, none⟩)
          · exact ⟨.inl rfl, known⟩
          · exact ⟨.inr busy, none⟩
      have ranked (m : K) (step : m ∈ next k) : ∃ j, Rank (Leads next) m j :=
        (rank.exists_of_step step).imp fun _ below => below.1
      have finds (m : K) (step : m ∈ next k) (j : Nat) (below : Rank (Leads next) m j) :
          Finds next pool (depth next takesAway nesting) m j := by
        have lower := rank.lt_of_step below step
        exact ih (closed k inside m step) below (by omega)
      have leads' (a : K) (busy : (marks.begin k).InProgress a) (m : K)
          (step : m ∈ next k) : TransGen (Leads next) a m := by
        rcases (begins a).mp busy with rfl | busy
        · exact .single step
        · exact (leads a busy).tail step
      have begunSound : (marks.begin k).Sound next pool := ⟨sound.exact, sound.once, sound.pooled⟩
      obtain ⟨top, after, run, sound', kept, above, high, reached⟩ :=
        deepest_spec ranked finds (-1) begunSound leads'
      have same := rank_of_deepest rank above high reached
      have still : after.InProgress k := (kept.inProgress k).mpr ((begins k).mpr (.inl rfl))
      simp only [run, Option.bind_eq_bind, Option.bind_some, same]
      refine ⟨_, rfl, sound'.record rank inside still.2 _, ?_, by simp⟩
      exact kept.finish fresh known begins

private theorem foldlM_depth_spec (takesAway : Bool) (acyclic : Acyclic (Leads next))
    (closed : ∀ a ∈ pool, ∀ b ∈ next a, b ∈ pool)
    {keys : List K} (inside : keys ⊆ pool) (enough : pool.length ≤ nesting)
    (sound : marks.Sound next pool) (idle : ∀ a, ¬ marks.InProgress a) :
    ∃ after, keys.foldlM (fun marks k => (depth next takesAway nesting k marks).map Prod.snd) marks = some after ∧
      after.Sound next pool ∧ Extends marks after ∧
      ∀ k ∈ keys, ∃ n : Nat, Rank (Leads next) k n ∧ after.depths.lookup k = some (n : Int) := by
  induction keys generalizing marks with
  | nil => exact ⟨marks, rfl, sound, .refl marks, by simp⟩
  | cons k rest ih =>
    have pooled : k ∈ pool := inside (by simp)
    have long : ¬ Chain (Leads next) pool.length k := fun chain =>
      Nat.lt_irrefl _ (chain.lt_length acyclic closed pooled)
    obtain ⟨n, rank⟩ := Rank.of_bounded long
    have short := rank.1.lt_length acyclic closed pooled
    have finds : Finds next pool (depth next takesAway nesting) k n :=
      depth_spec acyclic closed pooled rank (Nat.lt_of_lt_of_le short enough)
    obtain ⟨middle, run, sound', kept, found⟩ :=
      finds marks sound fun a busy => absurd busy (idle a)
    obtain ⟨after, runs, sound'', kept', ranks⟩ := ih (fun a held => inside (by simp [held])) sound'
      fun a busy => idle a ((kept.inProgress a).mp busy)
    refine ⟨after, by simpa [run] using runs, sound'', kept.trans kept', ?_⟩
    intro a held
    rcases List.mem_cons.mp held with rfl | held
    · exact ⟨n, rank, kept'.keeps _ _ found⟩
    · exact ranks a held

/-- The depths found from all keys of a pool are their ranks. -/
theorem depthsOf_spec (acyclic : Acyclic (Leads next)) (closed : ∀ a ∈ pool, ∀ b ∈ next a, b ∈ pool)
    (distinct : pool.Nodup) (enough : pool.length ≤ nesting) :
    ∃ depths, depthsOf next takesAway nesting pool = some depths ∧ (depths.map Prod.fst).Perm pool ∧
      ∀ k ∈ pool, ∃ n : Nat, Rank (Leads next) k n ∧ depths.lookup k = some (n : Int) := by
  have blank : Marks.Sound next pool ⟨[], []⟩ := ⟨by simp, by simp, by simp⟩
  obtain ⟨after, run, sound, -, ranks⟩ :=
    foldlM_depth_spec takesAway acyclic closed (fun _ held => held) enough blank
    (by simp [Marks.InProgress])
  refine ⟨after.depths, by simp [depthsOf, run], ?_, ranks⟩
  apply (List.perm_ext_iff_of_nodup sound.once distinct).mpr
  intro k
  refine ⟨sound.pooled k, ?_⟩
  intro held
  obtain ⟨n, -, found⟩ := ranks k held
  by_contra missing
  have none : after.depths.lookup k = none := by
    rw [List.lookup_eq_none_iff]
    intro pair inside
    rw [bne_iff_ne]
    rintro rfl
    exact missing (List.mem_map_of_mem inside)
  rw [found] at none
  cases none

end Correctness

/-! When the marks are kept, a key is begun once, so the recursion ends along any relation. -/

section Termination
variable {next : K → List K} {pool : List K} {nesting : Nat}

/-- The keys that have not been begun. -/
def fresh (pool : List K) (marks : Marks K) : List K := pool.filter (· ∉ marks.begun)

private theorem length_fresh_le {before after : Marks K} (grows : before.begun ⊆ after.begun) :
    (fresh pool after).length ≤ (fresh pool before).length := by
  rw [fresh, fresh, ← List.countP_eq_length_filter, ← List.countP_eq_length_filter]
  apply List.countP_mono_left
  intro k _ new
  simp only [decide_eq_true_eq] at new ⊢
  exact fun old => new (grows old)

private theorem length_fresh_begin {marks : Marks K} {k : K} (inside : k ∈ pool)
    (new : k ∉ marks.begun) : (fresh pool (marks.begin k)).length < (fresh pool marks).length := by
  have sub : (fresh pool (marks.begin k)).Sublist (fresh pool marks) := by
    apply List.monotone_filter_right
    intro a later
    simp only [Marks.begin, List.mem_cons, decide_eq_true_eq] at later ⊢
    exact fun old => later (.inr old)
  apply Nat.lt_of_le_of_ne sub.length_le
  intro equal
  have same := sub.eq_of_length equal
  have held : k ∈ fresh pool marks := by simpa [fresh] using ⟨inside, new⟩
  rw [← same] at held
  simp [fresh, Marks.begin] at held

omit [DecidableEq K] in
private theorem deepest_returns {visit : K → Marks K → Option (Int × Marks K)} {targets : List K}
    {marks : Marks K} (returns : ∀ k ∈ targets, ∀ later, marks.begun ⊆ later.begun →
      ∃ r, visit k later = some r ∧ later.begun ⊆ r.2.begun) (maximum : Int) :
    ∃ r, deepest visit maximum marks targets = some r ∧ marks.begun ⊆ r.2.begun := by
  induction targets generalizing marks maximum with
  | nil => exact ⟨_, rfl, fun _ held => held⟩
  | cons k rest ih =>
    obtain ⟨first, run, grows⟩ := returns k (by simp) marks fun _ held => held
    have returns' (m : K) (held : m ∈ rest) (later : Marks K) (more : first.2.begun ⊆ later.begun) :
        ∃ r, visit m later = some r ∧ later.begun ⊆ r.2.begun :=
      returns m (by simp [held]) later fun _ old => more (grows old)
    obtain ⟨r, runs, grows'⟩ := ih returns' (if first.1 > maximum then first.1 else maximum)
    exact ⟨r, by rw [deepest, run]; exact runs, fun _ old => grows' (grows old)⟩

private theorem depth_returns (closed : ∀ a ∈ pool, ∀ b ∈ next a, b ∈ pool) {k : K}
    (inside : k ∈ pool) (marks : Marks K) (enough : (fresh pool marks).length < nesting) :
    ∃ r, depth next false nesting k marks = some r ∧ marks.begun ⊆ r.2.begun := by
  induction nesting generalizing k marks with
  | zero => omega
  | succ nesting ih =>
    rw [depth]
    split
    · exact ⟨_, rfl, fun _ held => held⟩
    · split
      · exact ⟨_, rfl, fun _ held => held⟩
      · next new =>
        have fewer := length_fresh_begin inside new
        have returns (m : K) (step : m ∈ next k) (later : Marks K)
            (more : (marks.begin k).begun ⊆ later.begun) :
            ∃ r, depth next false nesting m later = some r ∧ later.begun ⊆ r.2.begun := by
          have less : (fresh pool later).length ≤ (fresh pool (marks.begin k)).length :=
            length_fresh_le more
          exact ih (closed k inside m step) later (by omega)
        obtain ⟨r, run, grows⟩ := deepest_returns returns (-1)
        refine ⟨_, by rw [run]; rfl, ?_⟩
        intro a old
        exact grows (List.mem_cons_of_mem k old)

/-- The depths of a pool of keys are found. -/
theorem depthsOf_returns (closed : ∀ a ∈ pool, ∀ b ∈ next a, b ∈ pool)
    (enough : pool.length < nesting) :
    ∃ depths, depthsOf next false nesting pool = some depths := by
  suffices general : ∀ (keys : List K) (marks : Marks K), keys ⊆ pool →
      ∃ after, keys.foldlM (fun marks k => (depth next false nesting k marks).map Prod.snd) marks = some after by
    obtain ⟨after, run⟩ := general pool ⟨[], []⟩ fun _ held => held
    exact ⟨after.depths, by simp [depthsOf, run]⟩
  intro keys
  induction keys with
  | nil => exact fun marks _ => ⟨marks, rfl⟩
  | cons k rest ih =>
    intro marks inside
    have few : (fresh pool marks).length < nesting :=
      Nat.lt_of_le_of_lt (List.length_filter_le _ _) enough
    have pooled : k ∈ pool := inside List.mem_cons_self
    obtain ⟨r, run, -⟩ := depth_returns closed pooled marks few
    obtain ⟨after, runs⟩ := ih r.2 fun a held => inside (by simp [held])
    exact ⟨after, by simpa [run] using runs⟩

end Termination
end Beads.Lib.Depths
