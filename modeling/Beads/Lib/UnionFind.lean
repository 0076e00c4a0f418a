import Mathlib.Logic.Function.Iterate
import Mathlib.Logic.Relation
import Mathlib.Data.Nat.Find
import Mathlib.Data.List.Induction
import Mathlib.Data.List.Nodup
import Mathlib.Tactic.Common

/-! Disjoint classes kept as a forest of parent links. A forest carries the proof
that every key leads to a root, so the two ways of looking a root up are total:
`root` only follows the links, `find` shortens the path it goes by halving it.

Two keys are joined when they have the same root. `joined_joinAll` says that after
a list of pairs has been merged the joined keys are those the pairs connect,
whichever way the roots were looked up. -/
namespace Beads.Lib

/-- Parent links that lead every key to a root, which is its own parent. -/
structure Forest (K : Type*) where
  parent : K → K
  settles : ∀ x, ∃ n, parent (parent^[n] x) = parent^[n] x

namespace Forest
variable {K : Type*} {x y z a b : K}

/-- Every key is its own root. -/
def discrete (K : Type*) : Forest K := ⟨id, fun _ => ⟨0, rfl⟩⟩

/-- The trace of a non-root does not come back to it. -/
theorem iterate_parent_ne {f : Forest K} (inner : f.parent x ≠ x) (n : Nat) :
    f.parent^[n] (f.parent x) ≠ x := by
  intro back
  have period : f.parent^[n + 1] x = x := back
  obtain ⟨m, fixed⟩ := f.settles x
  -- The fixed point stands on the period, so it is `x` itself.
  have rest (k : Nat) : f.parent^[k] (f.parent^[m] x) = f.parent^[m] x :=
    Function.iterate_fixed fixed k
  have around : f.parent^[(n + 1) * m] x = x := by
    rw [Function.iterate_mul]
    exact Function.iterate_fixed period m
  have later : f.parent^[n * m] (f.parent^[m] x) = x := by
    rw [← Function.iterate_add_apply, ← Nat.succ_mul]
    exact around
  rw [rest] at later
  rw [later] at fixed
  exact inner fixed

variable [DecidableEq K]

/-- The number of links up to the root. -/
def height (f : Forest K) (x : K) : Nat := Nat.find (f.settles x)

theorem height_parent_lt {f : Forest K} (inner : f.parent x ≠ x) :
    f.height (f.parent x) < f.height x := by
  have settled := Nat.find_spec (f.settles x)
  change f.parent (f.parent^[f.height x] x) = f.parent^[f.height x] x at settled
  cases level : f.height x with
  | zero =>
    rw [level] at settled
    exact absurd settled inner
  | succ n =>
    rw [level] at settled
    apply Nat.lt_succ_of_le
    exact Nat.find_min' (f.settles (f.parent x)) settled

/-- Follow the links to the root. -/
def root (f : Forest K) (x : K) : K := if f.parent x = x then x else f.root (f.parent x)
  termination_by f.height x
  decreasing_by exact height_parent_lt ‹_›

variable {f : Forest K}

theorem root_of_fixed (fixed : f.parent x = x) : f.root x = x := by
  rw [root, if_pos fixed]

theorem root_parent (x : K) : f.root (f.parent x) = f.root x := by
  by_cases fixed : f.parent x = x
  · rw [fixed]
  · rw [root.eq_1 f x, if_neg fixed]

/-- What holds of a key when it is a root, or holds of its parent, holds of every key. -/
theorem induction_up {motive : K → Prop} (top : ∀ x, f.parent x = x → motive x)
    (inner : ∀ x, f.parent x ≠ x → motive (f.parent x) → motive x) (x : K) : motive x := by
  induction level : f.height x using Nat.strongRecOn generalizing x with
  | ind n ih =>
    by_cases fixed : f.parent x = x
    · exact top x fixed
    · exact inner x fixed (ih _ (level ▸ height_parent_lt fixed) _ rfl)

theorem parent_root (x : K) : f.parent (f.root x) = f.root x := by
  induction x using f.induction_up with
  | top x fixed => rwa [root_of_fixed fixed]
  | inner x _ ih => rwa [root_parent] at ih

@[simp]
theorem root_root (x : K) : f.root (f.root x) = f.root x := root_of_fixed (parent_root x)

/-! ## Redirecting a link -/

/-- Links above the new parent are not affected by a redirection below it. -/
theorem iterate_update {g : K → K} (apart : ∀ n, g^[n] y ≠ x) (n : Nat) :
    (Function.update g x y)^[n] y = g^[n] y := by
  induction n with
  | zero => rfl
  | succ n ih =>
    rw [Function.iterate_succ_apply', ih, Function.update_of_ne (apart n),
      Function.iterate_succ_apply']

/-- Give `x` the parent `y`, whose own links do not lead through `x`. -/
def link (f : Forest K) (x y : K) (apart : ∀ n, f.parent^[n] y ≠ x) : Forest K where
  parent := Function.update f.parent x y
  settles z := by
    have redirected : ∃ n, Function.update f.parent x y ((Function.update f.parent x y)^[n] x) =
        (Function.update f.parent x y)^[n] x := by
      obtain ⟨n, fixed⟩ := f.settles y
      refine ⟨n + 1, ?_⟩
      rw [Function.iterate_succ_apply, Function.update_self, iterate_update apart,
        Function.update_of_ne (apart n)]
      exact fixed
    by_cases here : z = x
    · rwa [here]
    induction z using f.induction_up with
    | top z fixed => exact ⟨0, by simpa [here] using fixed⟩
    | inner z _ ih =>
      have above : ∃ n, Function.update f.parent x y
          ((Function.update f.parent x y)^[n] (f.parent z)) =
          (Function.update f.parent x y)^[n] (f.parent z) := by
        by_cases up : f.parent z = x
        · rwa [up]
        · exact ih up
      obtain ⟨n, settled⟩ := above
      refine ⟨n + 1, ?_⟩
      rw [Function.iterate_succ_apply, Function.update_of_ne here]
      exact settled

variable {apart : ∀ n, f.parent^[n] y ≠ x}

private theorem parent_link_self : (f.link x y apart).parent x = y := Function.update_self ..

theorem parent_link_of_ne (ne : z ≠ x) : (f.link x y apart).parent z = f.parent z :=
  Function.update_of_ne ne ..

private theorem height_link_target : (f.link x y apart).height y = f.height y := by
  apply Nat.find_congr'
  intro n
  have same : (f.link x y apart).parent^[n] y = f.parent^[n] y := iterate_update apart n
  rw [same, parent_link_of_ne (apart n)]

private theorem root_link_target : (f.link x y apart).root y = f.root y := by
  suffices above : ∀ z, (∀ n, f.parent^[n] z ≠ x) →
      (f.link x y apart).root z = f.root z from above y apart
  intro z
  induction z using f.induction_up with
  | top z fixed =>
    intro clear
    have unchanged : (f.link x y apart).parent z = f.parent z := parent_link_of_ne (clear 0)
    rw [root_of_fixed fixed, root_of_fixed (unchanged.trans fixed)]
  | inner z _ ih =>
    intro clear
    have unchanged : (f.link x y apart).parent z = f.parent z := parent_link_of_ne (clear 0)
    rw [← root_parent (f := f) z, ← ih fun n => clear (n + 1), ← unchanged, root_parent]

theorem root_link_self : (f.link x y apart).root x = f.root y := by
  rw [← root_parent x, parent_link_self, root_link_target]

/-- A link inside a class keeps all roots. -/
theorem root_link_inside (inside : f.root y = f.root x) (z : K) :
    (f.link x y apart).root z = f.root z := by
  by_cases here : z = x
  · rw [here, root_link_self, inside]
  induction z using f.induction_up with
  | top z fixed => rw [root_of_fixed fixed, root_of_fixed (by rwa [parent_link_of_ne here])]
  | inner z _ ih =>
    rw [← root_parent (f := f) z, ← root_parent (f := f.link x y apart) z, parent_link_of_ne here]
    by_cases up : f.parent z = x
    · rw [up, root_link_self, inside]
    · exact ih up

/-- A root that gets a parent brings its class along. -/
theorem root_link_root (top : f.parent x = x) (z : K) :
    (f.link x y apart).root z = if f.root z = x then f.root y else f.root z := by
  induction z using f.induction_up with
  | top z fixed =>
    rw [root_of_fixed fixed]
    split
    · next here => rw [here, root_link_self]
    · next other => exact root_of_fixed (by rwa [parent_link_of_ne other])
  | inner z inner ih =>
    have other : z ≠ x := by
      rintro rfl
      exact inner top
    rw [← root_parent (f := f) z, ← root_parent (f := f.link x y apart) z, parent_link_of_ne other]
    exact ih

/-! ## Looking up a root -/

omit [DecidableEq K] in
theorem halve_apart (inner : f.parent x ≠ x) (n : Nat) : f.parent^[n] (f.parent (f.parent x)) ≠ x :=
  iterate_parent_ne inner (n + 1)

/-- Follow the links to the root, and on the way give every key its grandparent for a parent. -/
def find (f : Forest K) (x : K) : K × Forest K :=
  if inner : f.parent x ≠ x then
    (f.link x (f.parent (f.parent x)) (halve_apart inner)).find (f.parent (f.parent x))
  else (x, f)
  termination_by f.height x
  decreasing_by
    rw [height_link_target]
    by_cases top : f.parent (f.parent x) = f.parent x
    · rw [top]
      exact height_parent_lt inner
    · exact Nat.lt_trans (height_parent_lt top) (height_parent_lt inner)

theorem find_spec (f : Forest K) (x : K) :
    (f.find x).1 = f.root x ∧ ∀ z, (f.find x).2.root z = f.root z := by
  induction f, x using find.induct with
  | case1 f x inner ih =>
    rw [find, dif_pos inner]
    have inside : f.root (f.parent (f.parent x)) = f.root x := by rw [root_parent, root_parent]
    refine ⟨?_, ?_⟩
    · rw [ih.1, root_link_inside inside, inside]
    · intro z
      rw [ih.2, root_link_inside inside]
  | case2 f x top =>
    rw [find, dif_neg top]
    exact ⟨(root_of_fixed (not_not.mp top)).symm, fun _ => rfl⟩

private theorem parent_find (f : Forest K) (x : K) :
    (f.find x).2.parent (f.find x).1 = (f.find x).1 := by
  rw [(find_spec f x).1, ← (find_spec f x).2]
  exact parent_root x

/-! ## Merging classes -/

omit [DecidableEq K] in
theorem roots_apart {p q : K} (top : f.parent q = q) (ne : p ≠ q) (n : Nat) :
    f.parent^[n] q ≠ p := by
  rw [Function.iterate_fixed top]
  exact ne.symm

/-- Put the root of one key below the root of another. -/
def join (f : Forest K) (x y : K) : Forest K :=
  if apart : f.root x ≠ f.root y then f.link (f.root x) (f.root y) (roots_apart (parent_root y) apart) else f

/-- As `join`, with the paths to both roots halved. -/
def union (f : Forest K) (x y : K) : Forest K :=
  let first := f.find x
  let second := first.2.find y
  if apart : first.1 ≠ second.1 then
    second.2.link first.1 second.1 (roots_apart (parent_find first.2 y) apart)
  else second.2

/-- What merging the classes of two keys does to the roots. -/
def Merging (merge : Forest K → K → K → Forest K) : Prop :=
  ∀ f x y z, (merge f x y).root z = if f.root z = f.root x then f.root y else f.root z

theorem merging_join : Merging (K := K) join := by
  intro f x y z
  rw [join]
  split
  · rw [root_link_root (parent_root x), root_root]
  · next same =>
    rw [not_not] at same
    split
    · next here => rw [here, same]
    · rfl

theorem merging_union : Merging (K := K) union := by
  intro f x y z
  obtain ⟨rootX, keptX⟩ := find_spec f x
  obtain ⟨rootY, keptY⟩ := find_spec (f.find x).2 y
  rw [keptX] at rootY
  have kept (z : K) : ((f.find x).2.find y).2.root z = f.root z := (keptY z).trans (keptX z)
  have top : ((f.find x).2.find y).2.parent (f.find x).1 = (f.find x).1 := by
    rw [rootX, ← kept x]
    exact parent_root x
  simp only [union]
  split
  · rw [root_link_root top, kept, kept, rootX, rootY, root_root]
  · next same =>
    rw [not_not, rootX, rootY] at same
    rw [kept]
    split
    · next here => rw [here, same]
    · rfl

/-- The two keys are in one class. -/
def Joined (f : Forest K) (x y : K) : Prop := f.root x = f.root y

instance (f : Forest K) (x y : K) : Decidable (f.Joined x y) :=
  inferInstanceAs (Decidable (f.root x = f.root y))

/-- The classes are those that the relation connects. -/
def Represents (f : Forest K) (r : K → K → Prop) : Prop :=
  ∀ x y, f.Joined x y ↔ Relation.EqvGen r x y

private theorem represents_discrete : (discrete K).Represents fun _ _ => False := by
  intro x y
  constructor
  · intro same
    rw [Joined, root_of_fixed rfl, root_of_fixed rfl] at same
    rw [same]
    exact .refl y
  · intro connected
    induction connected with
    | rel x y none => exact none.elim
    | refl x => rfl
    | symm x y _ ih => exact ih.symm
    | trans x y z _ _ left right => exact left.trans right

/-- Merging two keys adds their pair to the relation. -/
theorem Represents.merge {merge : Forest K → K → K → Forest K} (merging : Merging merge)
    {r : K → K → Prop} (represents : f.Represents r) (a b : K) :
    (merge f a b).Represents fun x y => r x y ∨ (x = a ∧ y = b) := by
  intro x y
  have step : (merge f a b).Joined a b := by
    rw [Joined, merging, merging, if_pos rfl]
    split <;> rfl
  have keep {x y : K} (same : f.Joined x y) : (merge f a b).Joined x y := by
    rw [Joined] at same
    rw [Joined, merging, merging, same]
  have connect {x y : K} (same : f.Joined x y) :
      Relation.EqvGen (fun x y => r x y ∨ (x = a ∧ y = b)) x y :=
    ((represents x y).mp same).mono fun _ _ => Or.inl
  have bridge : Relation.EqvGen (fun x y => r x y ∨ (x = a ∧ y = b)) a b :=
    .rel a b (.inr ⟨rfl, rfl⟩)
  constructor
  · intro same
    rw [Joined, merging, merging] at same
    split at same
    · next left =>
      split at same
      · next right => exact connect (left.trans right.symm)
      · exact .trans _ _ _ (connect left) (.trans _ _ _ bridge (connect same))
    · split at same
      · next right => exact .trans _ _ _ (connect same) (.trans _ _ _ (.symm _ _ bridge) (.symm _ _ (connect right)))
      · exact connect same
  · intro connected
    induction connected with
    | rel x y edge =>
      rcases edge with edge | ⟨rfl, rfl⟩
      · exact keep ((represents x y).mpr (.rel x y edge))
      · exact step
    | refl x => rfl
    | symm x y _ ih => exact ih.symm
    | trans x y z _ _ left right => exact left.trans right

/-- Merge the pairs of a list. -/
def joinAll (merge : Forest K → K → K → Forest K) (pairs : List (K × K)) : Forest K :=
  pairs.foldl (fun f pair => merge f pair.1 pair.2) (discrete K)

/-- The classes after all pairs are merged are those that the pairs connect. -/
theorem joined_joinAll {merge : Forest K → K → K → Forest K} (merging : Merging merge)
    (pairs : List (K × K)) : (joinAll merge pairs).Represents fun x y => (x, y) ∈ pairs := by
  induction pairs using List.reverseRecOn with
  | nil => simpa [joinAll] using represents_discrete
  | append_singleton pairs pair ih =>
    have more := ih.merge merging pair.1 pair.2
    simpa [joinAll, Prod.ext_iff] using more

end Forest

/-! ## Lists of classes -/

variable {K : Type*}

/-- The keys fall into the classes of a relation, and each class is listed once. -/
structure Classes (r : K → K → Prop) (keys : List K) (classes : List (List K)) : Prop where
  distinct : ∀ c ∈ classes, c.Nodup
  inside : ∀ c ∈ classes, ∀ x ∈ c, x ∈ keys
  covers : ∀ x ∈ keys, ∃ c ∈ classes, x ∈ c
  apart : classes.Pairwise List.Disjoint
  related : ∀ c ∈ classes, ∀ x ∈ c, ∀ y ∈ keys, y ∈ c ↔ r x y

/-- Keys that are put together by their roots. -/
theorem Forest.classes_of_roots [DecidableEq K] (f : Forest K) {keys roots : List K}
    (distinct : keys.Nodup) (rooted : ∀ x ∈ keys, f.root x ∈ keys) {groups : K → List K}
    (grouped : ∀ k, groups k = keys.filter fun x => f.root x = k)
    (perm : roots.Perm (keys.filter (groups · ≠ []))) :
    Classes f.Joined keys (roots.map groups) := by
  have mem {k x : K} : x ∈ groups k ↔ x ∈ keys ∧ f.root x = k := by simp [grouped]
  refine ⟨?_, ?_, ?_, ?_, ?_⟩
  · intro c held
    obtain ⟨k, -, rfl⟩ := List.mem_map.mp held
    rw [grouped]
    exact distinct.filter _
  · intro c held x inside
    obtain ⟨k, -, rfl⟩ := List.mem_map.mp held
    exact (mem.mp inside).1
  · intro x held
    have inside : x ∈ groups (f.root x) := mem.mpr ⟨held, rfl⟩
    refine ⟨groups (f.root x), List.mem_map_of_mem (perm.mem_iff.mpr ?_), inside⟩
    simpa using ⟨rooted x held, List.ne_nil_of_mem inside⟩
  · rw [List.pairwise_map]
    apply List.Nodup.pairwise_of_forall_ne (perm.nodup_iff.mpr (distinct.filter _))
    intro a _ b _ ne x left right
    exact ne ((mem.mp left).2.symm.trans (mem.mp right).2)
  · intro c held x inside y known
    obtain ⟨k, -, rfl⟩ := List.mem_map.mp held
    rw [mem, and_iff_right known, Forest.Joined, (mem.mp inside).2, eq_comm]

/-- The classes of separate groups of keys, one group after the other. -/
theorem Classes.flatMap {ι : Type*} {r : K → K → Prop} {keys : List K} {at_ : ι → List K}
    {classesAt : ι → List (List K)} {indices : List ι} (once : indices.Nodup)
    (each : ∀ i ∈ indices, Classes r (at_ i) (classesAt i))
    (part : ∀ i ∈ indices, ∀ x ∈ at_ i, x ∈ keys) (covers : ∀ x ∈ keys, ∃ i ∈ indices, x ∈ at_ i)
    (single : ∀ i ∈ indices, ∀ j ∈ indices, ∀ x, x ∈ at_ i → x ∈ at_ j → i = j)
    (level : ∀ i ∈ indices, ∀ x ∈ at_ i, ∀ y ∈ keys, r x y → y ∈ at_ i) :
    Classes r keys (indices.flatMap classesAt) := by
  refine ⟨?_, ?_, ?_, ?_, ?_⟩
  · intro c held
    obtain ⟨i, listed, held⟩ := List.mem_flatMap.mp held
    exact (each i listed).distinct c held
  · intro c held x inside
    obtain ⟨i, listed, held⟩ := List.mem_flatMap.mp held
    exact part i listed x ((each i listed).inside c held x inside)
  · intro x known
    obtain ⟨i, listed, inside⟩ := covers x known
    obtain ⟨c, held, member⟩ := (each i listed).covers x inside
    exact ⟨c, List.mem_flatMap.mpr ⟨i, listed, held⟩, member⟩
  · rw [List.pairwise_flatMap]
    refine ⟨fun i listed => (each i listed).apart, ?_⟩
    apply List.Nodup.pairwise_of_forall_ne once
    intro i left j right ne c heldC d heldD x inC inD
    exact ne (single i left j right x ((each i left).inside c heldC x inC) ((each j right).inside d heldD x inD))
  · intro c held x inside y known
    obtain ⟨i, listed, held⟩ := List.mem_flatMap.mp held
    have related := (each i listed).related c held x inside
    constructor
    · intro member
      exact (related y ((each i listed).inside c held y member)).mp member
    · intro joined
      have same := level i listed x ((each i listed).inside c held x inside) y known joined
      exact (related y same).mpr joined

/-- The relation may be exchanged for one that agrees on the keys. -/
theorem Classes.congr {r s : K → K → Prop} {keys : List K} {classes : List (List K)}
    (held : Classes r keys classes)
    (same : ∀ x ∈ keys, ∀ y ∈ keys, r x y ↔ s x y) : Classes s keys classes where
  distinct := held.distinct
  inside := held.inside
  covers := held.covers
  apart := held.apart
  related c inside x member y known :=
    (held.related c inside x member y known).trans (same x (held.inside c inside x member) y known)

end Beads.Lib
