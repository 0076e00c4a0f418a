import Mathlib.Data.List.Chain
import Mathlib.Data.List.Nodup
import Mathlib.Data.List.Perm.Subperm
import Mathlib.Data.Set.Insert
import Mathlib.Logic.Relation
import Beads.Lib.Call

/-! Depth-first enumeration of cycles. A walk goes through a graph with one list of
visited nodes; an edge from a node back onto the path that leads to it closes a cycle,
which is recorded as the part of the path it closes.

`enumerate_spec` says what is recorded: cycles of the graph, each written in the order
in which its nodes were found and each for an edge of its own; and if none is recorded,
no node that was found lies on a cycle. -/
namespace Beads.Lib.DepthFirst
open Relation

variable {α β ε : Type} [DecidableEq α]

/-- The nodes found, in the order in which they were found, and what was recorded. -/
structure Walk (α β : Type) where
  visited : List α
  out : List β

/-- Look at an edge from the end of the path. -/
def examine (walk : α → Walk α β → Option (Walk α β)) (record : List α → β) (path : List α)
    (st : Walk α β) (next : α) : Option (Walk α β) :=
  if next ∉ st.visited then walk next st
  else if next ∈ path then some { st with out := st.out ++ [record (path.drop (path.idxOf next))] }
  else some st

/-- Go on to a node, with the path that leads to it, within a recursion depth. -/
def walk (neighbors : α → List α) (record : List α → β) :
    Nat → List α → α → Walk α β → Option (Walk α β)
  | 0, _, _, _ => none
  | depth + 1, path, node, st =>
    (neighbors node).foldlM (examine (walk neighbors record depth (path ++ [node])) record (path ++ [node]))
      { st with visited := st.visited ++ [node] }

/-- Walk from every root that no earlier walk has found. -/
def walkAll (neighbors : α → List α) (record : List α → β) (roots : List α) (depth : Nat) :
    Option (Walk α β) :=
  roots.foldlM (fun st root => if root ∉ st.visited then walk neighbors record depth [] root st else some st)
    ⟨[], []⟩

omit [DecidableEq α] in
private theorem foldlM_mono {σ : Type} {f g : σ → α → Option σ}
    (finer : ∀ s x r, f s x = some r → g s x = some r) (l : List α) {s r : σ}
    (result : l.foldlM f s = some r) : l.foldlM g s = some r := by
  induction l generalizing s with
  | nil => exact result
  | cons first rest ih =>
    rw [List.foldlM_cons] at result ⊢
    obtain ⟨next, step, rest⟩ := Option.bind_eq_some_iff.mp result
    exact Option.bind_eq_some_iff.mpr ⟨next, finer _ _ _ step, ih rest⟩

private theorem walk_succ {neighbors : α → List α} {record : List α → β} (depth : Nat)
    (path : List α)
    (node : α) (st r : Walk α β) (result : walk neighbors record depth path node st = some r) :
    walk neighbors record (depth + 1) path node st = some r := by
  induction depth generalizing path node st r with
  | zero => cases result
  | succ depth ih =>
    rw [walk] at result ⊢
    refine foldlM_mono (fun st next r seen => ?_) _ result
    unfold examine at seen ⊢
    split at seen
    · next fresh => rw [if_pos fresh]; exact ih _ _ _ _ seen
    · next known => rw [if_neg known]; exact seen

/-- The cycles that the walks from the roots record. -/
def enumerate (neighbors : α → List α) (record : List α → β) (roots : List α) :
    Call ε (List β) where
  exec depth := (walkAll neighbors record roots depth).map fun st => .ok st.out
  mono n m r le result := by
    obtain ⟨st, walked, rfl⟩ := Option.map_eq_some_iff.mp result
    refine Option.map_eq_some_iff.mpr ⟨st, ?_, rfl⟩
    obtain ⟨more, rfl⟩ := Nat.exists_eq_add_of_le le
    clear le result
    induction more with
    | zero => exact walked
    | succ more ih =>
      refine foldlM_mono (fun st root r seen => ?_) _ ih
      split at seen
      · next fresh => rw [if_pos fresh]; exact walk_succ _ _ _ _ _ seen
      · next known => rw [if_neg known]; exact seen

/-! ## What a walk leaves behind -/

variable {neighbors : α → List α} {record : List α → β} {path : List α} {st st' st'' : Walk α β}

/-- One step of the graph. -/
def Step (neighbors : α → List α) (a b : α) : Prop := b ∈ neighbors a

/-- A set that no edge leaves, without a node on a cycle. -/
def Settled (neighbors : α → List α) (C : Set α) : Prop :=
  ∀ a ∈ C, (∀ b, Step neighbors a b → b ∈ C) ∧ ¬ TransGen (Step neighbors) a a

omit [DecidableEq α] in
theorem Settled.reaches {C : Set α} (settled : Settled neighbors C) {a b : α} (held : a ∈ C)
    (path : ReflTransGen (Step neighbors) a b) : b ∈ C := by
  induction path with
  | refl => exact held
  | tail _ edge ih => exact (settled _ ih).1 _ edge

omit [DecidableEq α] in
/-- A node all of whose edges lead into a settled set may join it. -/
theorem Settled.insert {C : Set α} (settled : Settled neighbors C) {node : α} (outside : node ∉ C)
    (edges : ∀ b, Step neighbors node b → b ∈ C) : Settled neighbors (insert node C) := by
  rintro a (rfl | held)
  · refine ⟨fun b edge => Or.inr (edges b edge), fun cycle => outside ?_⟩
    obtain ⟨b, edge, back⟩ := TransGen.head'_iff.mp cycle
    exact settled.reaches (edges b edge) back
  · exact ⟨fun b edge => Or.inr ((settled a held).1 b edge), (settled a held).2⟩

/-- The nodes that the walk is done with. -/
def finished (st : Walk α β) (path : List α) : Set α := {x | x ∈ st.visited ∧ x ∉ path}

/-- A part of a path that an edge closes. -/
structure Closed (neighbors : α → List α) (seg : List α) : Prop where
  chain : seg.IsChain (Step neighbors)
  closes : ∃ u v, seg.getLast? = some u ∧ seg.head? = some v ∧ Step neighbors u v

/-- The edge that closes a part of a path. -/
def closing (seg : List α) : Option α × Option α := (seg.getLast?, seg.head?)

/-- What a part of a walk has found and recorded. -/
structure Traced (neighbors : α → List α) (record : List α → β) (path : List α) (st st' : Walk α β)
    (new : List α) (segs : List (List α)) : Prop where
  visited : st'.visited = st.visited ++ new
  nodup : st'.visited.Nodup
  out : st'.out = st.out ++ segs.map record
  found : ∀ seg ∈ segs, seg.Sublist st'.visited ∧ Closed neighbors seg
  distinct : (segs.map closing).Nodup
  settled : segs = [] → Settled neighbors (finished st path) → Settled neighbors (finished st' path)

namespace Traced
variable {new new' : List α} {segs segs' : List (List α)}

omit [DecidableEq α] in
theorem refl (nodup : st.visited.Nodup) : Traced neighbors record path st st [] [] where
  visited := (List.append_nil _).symm
  nodup := nodup
  out := by simp
  found seg none := absurd none List.not_mem_nil
  distinct := List.nodup_nil
  settled _ before := before

omit [DecidableEq α] in
theorem trans (first : Traced neighbors record path st st' new segs)
    (second : Traced neighbors record path st' st'' new' segs')
    (apart : ∀ a ∈ segs, ∀ b ∈ segs', closing a ≠ closing b) :
    Traced neighbors record path st st'' (new ++ new') (segs ++ segs') where
  visited := by rw [second.visited, first.visited, List.append_assoc]
  nodup := second.nodup
  out := by rw [second.out, first.out, List.map_append, List.append_assoc]
  found seg listed := by
    rcases List.mem_append.mp listed with early | late
    · obtain ⟨sub, closed⟩ := first.found seg early
      exact ⟨sub.trans (second.visited ▸ List.sublist_append_left _ _), closed⟩
    · exact second.found seg late
  distinct := by
    rw [List.map_append]
    refine List.nodup_append.mpr ⟨first.distinct, second.distinct, ?_⟩
    rintro c early _ late rfl
    obtain ⟨a, here, rfl⟩ := List.mem_map.mp early
    obtain ⟨b, there, same⟩ := List.mem_map.mp late
    exact apart a here b there same.symm
  settled none before := by
    obtain ⟨none, none'⟩ := List.append_eq_nil_iff.mp none
    exact second.settled none' (first.settled none before)

omit [DecidableEq α] in
/-- A cycle that is recorded changes nothing else. -/
theorem recorded {seg : List α} (nodup : st.visited.Nodup) (sub : seg.Sublist st.visited)
    (closed : Closed neighbors seg) :
    Traced neighbors record path st { st with out := st.out ++ [record seg] } [] [seg] where
  visited := (List.append_nil _).symm
  nodup := nodup
  out := rfl
  found _ listed := by
    rw [List.mem_singleton.mp listed]
    exact ⟨sub, closed⟩
  distinct := List.nodup_singleton _
  settled none := absurd none (List.cons_ne_nil _ _)

end Traced

/-- The state in which the walk looks at the edges at the end of a path. -/
structure Ready (neighbors : α → List α) (path : List α) (st : Walk α β) : Prop where
  nodup : st.visited.Nodup
  inside : path.Sublist st.visited
  chain : path.IsChain (Step neighbors)

omit [DecidableEq α] in
theorem Ready.traced {new : List α} {segs : List (List α)} (ready : Ready neighbors path st)
    (traced : Traced neighbors record path st st' new segs) : Ready neighbors path st' where
  nodup := traced.nodup
  inside := ready.inside.trans (traced.visited ▸ List.sublist_append_left _ _)
  chain := ready.chain

/-- An edge back onto the path closes the part of the path behind its target. -/
theorem closed_drop {node next : α} (chain : path.IsChain (Step neighbors))
    (last : path.getLast? = some node) (edge : Step neighbors node next) (back : next ∈ path) :
    Closed neighbors (path.drop (path.idxOf next)) ∧
      closing (path.drop (path.idxOf next)) = (some node, some next) := by
  have place := List.idxOf_lt_length_of_mem back
  have head : (path.drop (path.idxOf next)).head? = some next := by
    rw [List.head?_drop, List.getElem?_eq_getElem place, List.getElem_idxOf place]
  have final : (path.drop (path.idxOf next)).getLast? = some node := by
    rw [List.getLast?_drop, if_neg (Nat.not_le.mpr place)]
    exact last
  exact ⟨⟨chain.drop _, node, next, final, head, edge⟩, Prod.ext final head⟩

/-- What a walk to a new node does. -/
def Walks (neighbors : α → List α) (record : List α → β) (path : List α) (st : Walk α β) (node : α)
    (result : Option (Walk α β)) : Prop :=
  ∃ st' new segs, result = some st' ∧ Traced neighbors record path st st' new segs ∧ node ∈ new ∧
    ∀ seg ∈ segs, ∃ u ∈ new, seg.getLast? = some u

/-- The loop over the edges at the end of a path. -/
theorem foldlM_examine {step : α → Walk α β → Option (Walk α β)} {node : α}
    (last : path.getLast? = some node)
    (walks : ∀ next st, Ready neighbors path st → Step neighbors node next → next ∉ st.visited →
      Walks neighbors record path st next (step next st))
    (rest : List α) (distinct : rest.Nodup) (edges : ∀ next ∈ rest, Step neighbors node next)
    (st : Walk α β) (ready : Ready neighbors path st) :
    ∃ st' new segs, rest.foldlM (examine step record path) st = some st' ∧
      Traced neighbors record path st st' new segs ∧ (∀ next ∈ rest, next ∈ st'.visited) ∧
      (segs = [] → ∀ next ∈ rest, next ∉ path) ∧
      ∀ seg ∈ segs, (∃ u ∈ new, seg.getLast? = some u) ∨
        ∃ next ∈ rest, closing seg = (some node, some next) := by
  induction rest generalizing st with
  | nil =>
    refine ⟨st, [], [], rfl, .refl ready.nodup, ?_, ?_,
      fun seg none => absurd none List.not_mem_nil⟩
    · exact fun next none => absurd none List.not_mem_nil
    · exact fun _ next none => absurd none List.not_mem_nil
  | cons next rest ih =>
    obtain ⟨edge, others⟩ := List.forall_mem_cons.mp edges
    obtain ⟨unlisted, distinct⟩ := List.nodup_cons.mp distinct
    have onPath : node ∈ st.visited := ready.inside.subset (List.mem_of_getLast? last)
    rw [List.foldlM_cons, examine]
    by_cases fresh : next ∉ st.visited
    · -- A walk to the neighbor; its cycles are closed at nodes that it found.
      rw [if_pos fresh]
      obtain ⟨st₁, new₁, segs₁, stepped, traced, held, lasts⟩ := walks next st ready edge fresh
      obtain ⟨st₂, new₂, segs₂, folded, traced', all, off, lasts'⟩ :=
        ih distinct others st₁ (ready.traced traced)
      have split : st₂.visited = st.visited ++ (new₁ ++ new₂) := by
        rw [traced'.visited, traced.visited, List.append_assoc]
      have nodup := traced'.nodup
      rw [split] at nodup
      obtain ⟨-, newNodup, oldNew⟩ := List.nodup_append.mp nodup
      refine ⟨st₂, new₁ ++ new₂, segs₁ ++ segs₂, ?_, traced.trans traced' ?_, ?_, ?_, ?_⟩
      · rw [stepped]
        exact folded
      · intro a early b late same
        obtain ⟨u, inside, lastA⟩ := lasts a early
        rcases lasts' b late with ⟨u', inside', lastB⟩ | ⟨next', -, closes⟩
        · have equal : u = u' := by
            have := congrArg Prod.fst same
            simp only [closing, lastA, lastB] at this
            exact Option.some.inj this
          exact (List.nodup_append.mp newNodup).2.2 u inside u' inside' equal
        · have equal : u = node := by
            have := congrArg Prod.fst (same.trans closes)
            simp only [closing, lastA] at this
            exact Option.some.inj this
          exact oldNew node onPath u (List.mem_append_left _ inside) equal.symm
      · refine List.forall_mem_cons.mpr ⟨?_, all⟩
        rw [split]
        exact List.mem_append_right _ (List.mem_append_left _ held)
      · intro none
        refine List.forall_mem_cons.mpr ⟨fun back => fresh (ready.inside.subset back), ?_⟩
        exact off (List.append_eq_nil_iff.mp none).2
      · intro seg listed
        rcases List.mem_append.mp listed with early | late
        · obtain ⟨u, inside, final⟩ := lasts seg early
          exact Or.inl ⟨u, List.mem_append_left _ inside, final⟩
        · rcases lasts' seg late with ⟨u, inside, final⟩ | ⟨next', listed', closes⟩
          · exact Or.inl ⟨u, List.mem_append_right _ inside, final⟩
          · exact Or.inr ⟨next', List.mem_cons_of_mem _ listed', closes⟩
    · rw [if_neg fresh]
      have seen : next ∈ st.visited := Classical.not_not.mp fresh
      by_cases back : next ∈ path
      · -- A back edge: the part of the path behind the neighbor is recorded.
        rw [if_pos back]
        obtain ⟨closed, ends⟩ := closed_drop ready.chain last edge back
        have traced : Traced neighbors record path st _ [] [path.drop (path.idxOf next)] :=
          .recorded ready.nodup ((List.drop_sublist _ _).trans ready.inside) closed
        obtain ⟨st₂, new₂, segs₂, folded, traced', all, -, lasts'⟩ :=
          ih distinct others _ (ready.traced traced)
        refine ⟨st₂, [] ++ new₂, [path.drop (path.idxOf next)] ++ segs₂, folded,
          traced.trans traced' ?_, ?_, ?_, ?_⟩
        · intro a only b late same
          rw [List.mem_singleton.mp only, ends] at same
          rcases lasts' b late with ⟨u, inside, final⟩ | ⟨next', listed, closes⟩
          · have equal : node = u := by
              have := congrArg Prod.fst same
              simp only [closing, final] at this
              exact Option.some.inj this
            have nodup := traced'.nodup
            rw [traced'.visited] at nodup
            exact (List.nodup_append.mp nodup).2.2 node onPath u inside equal
          · have equal : next = next' := Option.some.inj (congrArg Prod.snd (same.trans closes))
            exact unlisted (equal ▸ listed)
        · refine List.forall_mem_cons.mpr ⟨?_, all⟩
          rw [traced'.visited]
          exact List.mem_append_left _ seen
        · exact fun none => absurd none (by simp)
        · intro seg listed
          rcases List.mem_append.mp listed with only | late
          · rw [List.mem_singleton.mp only]
            exact Or.inr ⟨next, List.mem_cons_self, ends⟩
          · exact (lasts' seg late).imp_right fun ⟨next', listed', closes⟩ =>
              ⟨next', List.mem_cons_of_mem _ listed', closes⟩
      · rw [if_neg back]
        obtain ⟨st₂, new₂, segs₂, folded, traced', all, off, lasts'⟩ := ih distinct others st ready
        refine ⟨st₂, new₂, segs₂, folded, traced', ?_, ?_, ?_⟩
        · refine List.forall_mem_cons.mpr ⟨?_, all⟩
          rw [traced'.visited]
          exact List.mem_append_left _ seen
        · exact fun none => List.forall_mem_cons.mpr ⟨back, off none⟩
        · exact fun seg listed => (lasts' seg listed).imp_right fun ⟨next', listed', closes⟩ =>
            ⟨next', List.mem_cons_of_mem _ listed', closes⟩

/-- What the walk to a node has found, seen from the path that leads to it. -/
theorem Traced.up {node : α} {new : List α} {segs : List (List α)} (fresh : node ∉ st.visited)
    (inside : path.Sublist st.visited)
    (traced : Traced neighbors record (path ++ [node]) { st with visited := st.visited ++ [node] } st' new segs)
    (all : ∀ next ∈ neighbors node, next ∈ st'.visited)
    (off : segs = [] → ∀ next ∈ neighbors node, next ∉ path ++ [node]) :
    Traced neighbors record path st st' (node :: new) segs where
  visited := by rw [traced.visited, List.append_assoc, List.singleton_append]
  nodup := traced.nodup
  out := traced.out
  found := traced.found
  distinct := traced.distinct
  settled none before := by
    have same : finished { st with visited := st.visited ++ [node] }
        (path ++ [node]) = finished st path := by
      refine Set.ext fun x => ?_
      simp only [finished, Set.mem_ofPred_eq, List.mem_append, List.mem_singleton, not_or]
      constructor
      · rintro ⟨held | rfl, off, other⟩
        · exact ⟨held, off⟩
        · exact absurd rfl other
      · rintro ⟨held, off⟩
        exact ⟨Or.inl held, off, fun here => fresh (here ▸ held)⟩
    have grown : finished st' path = insert node (finished st' (path ++ [node])) := by
      refine Set.ext fun x => ?_
      simp only [finished, Set.mem_ofPred_eq, Set.mem_insert_iff, List.mem_append,
        List.mem_singleton, not_or]
      constructor
      · rintro ⟨held, away⟩
        by_cases here : x = node
        · exact Or.inl here
        · exact Or.inr ⟨held, away, here⟩
      · rintro (rfl | ⟨held, away, -⟩)
        · refine ⟨?_, fun back => fresh (inside.subset back)⟩
          rw [traced.visited]
          exact List.mem_append_left _ (List.mem_append_right _ List.mem_cons_self)
        · exact ⟨held, away⟩
    rw [grown]
    refine (traced.settled none (same ▸ before)).insert ?_ fun next edge =>
      ⟨all next edge, off none next edge⟩
    exact fun held => held.2 (List.mem_append_right _ List.mem_cons_self)

section Pool
variable {pool : List α} (bounded : ∀ a, ∀ b ∈ neighbors a, b ∈ pool)
  (simple : ∀ a, (neighbors a).Nodup)
include bounded simple

/-- The recursion is no deeper than the pool has nodes. -/
theorem walk_spec (depth : Nat) (path : List α) (node : α) (st : Walk α β)
    (nodup : st.visited.Nodup)
    (inside : path.Sublist st.visited) (chain : (path ++ [node]).IsChain (Step neighbors))
    (fresh : node ∉ st.visited)
    (pooled : ∀ a ∈ path ++ [node], a ∈ pool) (enough : pool.length < depth + path.length) :
    Walks neighbors record path st node (walk neighbors record depth path node st) := by
  induction depth generalizing path node st with
  | zero =>
    have short :=
      ((inside.nodup nodup).subperm fun a held => pooled a (List.mem_append_left _ held)).length_le
    omega
  | succ depth ih =>
    have ready : Ready neighbors (path ++ [node]) { st with visited := st.visited ++ [node] } := by
      refine ⟨?_, inside.append (List.Sublist.refl _), chain⟩
      exact List.nodup_append.mpr ⟨nodup, List.nodup_singleton _, fun a held b here same => by
        rw [same, List.mem_singleton.mp here] at held
        exact fresh held⟩
    rw [walk]
    obtain ⟨st', new, segs, folded, traced, all, off, lasts⟩ :=
      foldlM_examine (List.getLast?_concat ..) (fun next st' ready edge fresh => by
        refine ih (path ++ [node]) next st' ready.nodup ready.inside ?_ fresh ?_ ?_
        · refine List.isChain_append.mpr ⟨ready.chain, List.isChain_singleton _, ?_⟩
          intro a last b head
          rw [List.getLast?_concat] at last
          rw [List.head?_cons] at head
          cases last
          cases head
          exact edge
        · refine List.forall_mem_append.mpr ⟨pooled, ?_⟩
          exact List.forall_mem_singleton.mpr (bounded node next edge)
        · rw [List.length_append, List.length_singleton]
          omega) (neighbors node) (simple node) (fun _ edge => edge) _ ready
    refine ⟨st', node :: new, segs, folded, traced.up fresh inside all off, List.mem_cons_self, ?_⟩
    intro seg listed
    rcases lasts seg listed with ⟨u, held, final⟩ | ⟨next, -, closes⟩
    · exact ⟨u, List.mem_cons_of_mem _ held, final⟩
    · exact ⟨node, List.mem_cons_self, congrArg Prod.fst closes⟩

/-- The loop over the roots. -/
theorem foldlM_roots (roots : List α) (pooled : ∀ a ∈ roots, a ∈ pool) (st : Walk α β)
    (nodup : st.visited.Nodup) :
    ∃ st' new segs, roots.foldlM (fun st root =>
        if root ∉ st.visited then walk neighbors record (pool.length + 1) [] root st else some st) st = some st' ∧
      Traced neighbors record [] st st' new segs ∧ (∀ root ∈ roots, root ∈ st'.visited) ∧
      ∀ seg ∈ segs, ∃ u ∈ new, seg.getLast? = some u := by
  induction roots generalizing st with
  | nil =>
    refine ⟨st, [], [], rfl, .refl nodup, ?_, ?_⟩
    · exact fun root none => absurd none List.not_mem_nil
    · exact fun seg none => absurd none List.not_mem_nil
  | cons root roots ih =>
    obtain ⟨here, others⟩ := List.forall_mem_cons.mp pooled
    rw [List.foldlM_cons]
    by_cases fresh : root ∉ st.visited
    · rw [if_pos fresh]
      have walks : Walks neighbors record [] st root _ :=
        walk_spec bounded simple (pool.length + 1) [] root st nodup (List.nil_sublist _)
          (List.isChain_singleton _) fresh (List.forall_mem_singleton.mpr here) (Nat.lt_succ_self _)
      obtain ⟨st₁, new₁, segs₁, walked, traced, held, lasts⟩ := walks
      obtain ⟨st₂, new₂, segs₂, folded, traced', all, lasts'⟩ := ih others st₁ traced.nodup
      refine ⟨st₂, new₁ ++ new₂, segs₁ ++ segs₂, ?_, traced.trans traced' ?_, ?_, ?_⟩
      · rw [walked]
        exact folded
      · intro a early b late same
        obtain ⟨u, inside, lastA⟩ := lasts a early
        obtain ⟨u', inside', lastB⟩ := lasts' b late
        have equal : some u = some u' := lastA.symm.trans ((congrArg Prod.fst same).trans lastB)
        have nodup := traced'.nodup
        rw [traced'.visited, traced.visited] at nodup
        exact (List.nodup_append.mp nodup).2.2 u (List.mem_append_right _ inside) u' inside'
          (Option.some.inj equal)
      · refine List.forall_mem_cons.mpr ⟨?_, all⟩
        rw [traced'.visited, traced.visited]
        exact List.mem_append_left _ (List.mem_append_right _ held)
      · intro seg listed
        rcases List.mem_append.mp listed with early | late
        · obtain ⟨u, inside, final⟩ := lasts seg early
          exact ⟨u, List.mem_append_left _ inside, final⟩
        · obtain ⟨u, inside, final⟩ := lasts' seg late
          exact ⟨u, List.mem_append_right _ inside, final⟩
    · rw [if_neg fresh]
      obtain ⟨st₂, new₂, segs₂, folded, traced', all, lasts'⟩ := ih others st nodup
      refine ⟨st₂, new₂, segs₂, folded, traced', ?_, lasts'⟩
      refine List.forall_mem_cons.mpr ⟨?_, all⟩
      rw [traced'.visited]
      exact List.mem_append_left _ (Classical.not_not.mp fresh)

/-- The enumeration ends. What it records are cycles, written in the order of one list
of distinct nodes, each for an edge of its own; where it records none, no root lies on
a cycle. -/
theorem enumerate_spec (record : List α → β) {roots : List α} (pooled : ∀ a ∈ roots, a ∈ pool) :
    ∃ (visited : List α) (segs : List (List α)),
      (enumerate neighbors record roots : Call ε (List β)).Returns (segs.map record) ∧
        visited.Nodup ∧
      (∀ seg ∈ segs, seg.Sublist visited ∧ Closed neighbors seg) ∧ (segs.map closing).Nodup ∧
      (segs = [] → ∀ a ∈ roots, ¬ TransGen (Step neighbors) a a) := by
  let start : Walk α β := ⟨[], []⟩
  obtain ⟨st, new, segs, folded, traced, all, -⟩ :=
    foldlM_roots bounded simple roots pooled start List.nodup_nil
  have walked : walkAll neighbors record roots (pool.length + 1) = some st := folded
  refine ⟨st.visited, segs, ⟨pool.length + 1, ?_⟩, traced.nodup, traced.found, traced.distinct, ?_⟩
  · simp only [enumerate, walked, Option.map_some, traced.out, start, List.nil_append]
  · intro none a root
    refine (traced.settled none ?_ a ⟨all a root, List.not_mem_nil⟩).2
    exact fun b held => absurd held.1 List.not_mem_nil

end Pool

end Beads.Lib.DepthFirst
