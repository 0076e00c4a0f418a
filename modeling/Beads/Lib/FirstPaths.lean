import Beads.Lib.DepthFirst

/-! What a depth-first enumeration records when roots and neighbors are gone through in order.
Simple paths are visited in the order of their nodes, so a node is found along the first simple
path that leads to it. A cycle is recorded for each edge from the end of such a path back onto it
(`mem_enumerate_iff`). -/
namespace Beads.Lib.DepthFirst
open Relation

variable {α : Type} {r : α → α → Prop}

/-! ## The order of paths -/

section Order
variable {p q q' : List α} {n : α}

/-- What comes before a path that is one node longer. -/
theorem lex_concat :
    List.Lex r q (p ++ [n]) ↔ List.Lex r q p ∨ q = p ∨ ∃ x t, q = p ++ x :: t ∧ r x n := by
  induction p generalizing q with
  | nil =>
    cases q with
    | nil => simp
    | cons x t =>
      constructor
      · intro before
        cases before with
        | rel less => exact .inr (.inr ⟨x, t, rfl, less⟩)
        | cons before => cases before
      · rintro (before | same | ⟨y, t', shape, less⟩)
        · cases before
        · cases same
        · obtain ⟨rfl, rfl⟩ := List.cons.inj shape
          exact .rel less
  | cons a p ih =>
    cases q with
    | nil => simp
    | cons b q =>
      constructor
      · intro before
        cases before with
        | rel less => exact .inl (.rel less)
        | cons before =>
          rcases ih.mp before with before | rfl | ⟨x, t, rfl, less⟩
          · exact .inl (.cons before)
          · exact .inr (.inl rfl)
          · exact .inr (.inr ⟨x, t, rfl, less⟩)
      · rintro (before | same | ⟨x, t, shape, less⟩)
        · cases before with
          | rel less => exact .rel less
          | cons before => exact .cons (ih.mpr (.inl before))
        · obtain ⟨rfl, rfl⟩ := List.cons.inj same
          exact .cons (ih.mpr (.inr (.inl rfl)))
        · obtain ⟨rfl, rfl⟩ := List.cons.inj shape
          exact .cons (ih.mpr (.inr (.inr ⟨x, t, rfl, less⟩)))

/-- What comes before a path comes before all that it is a part of. -/
theorem lex_of_part (before : List.Lex r q p) (part : p <+: q') : List.Lex r q q' := by
  obtain ⟨rest, rfl⟩ := part
  induction before with
  | nil => exact .nil
  | rel less => exact .rel less
  | cons _ ih => exact .cons ih

end Order

/-! ## Simple paths -/

section Paths
variable {neighbors : α → List α} {roots : List α} {p q : List α} {a n w : α}

/-- A path along edges from a root that comes to no node twice. -/
structure Simple (neighbors : α → List α) (roots p : List α) : Prop where
  root : ∃ a ∈ roots, p.head? = some a
  chain : p.IsChain (Step neighbors)
  nodup : p.Nodup

/-- No simple path to the same node comes before it. -/
def First (r : α → α → Prop) (neighbors : α → List α) (roots p : List α) : Prop :=
  Simple neighbors roots p ∧ ∀ q, Simple neighbors roots q → q.getLast? = p.getLast? → ¬ List.Lex r q p

theorem Simple.concat (simple : Simple neighbors roots p) (last : p.getLast? = some a)
    (edge : Step neighbors a n) (fresh : n ∉ p) : Simple neighbors roots (p ++ [n]) where
  root := by
    obtain ⟨b, known, head⟩ := simple.root
    refine ⟨b, known, ?_⟩
    rw [List.head?_append, head]
    rfl
  chain := by
    refine List.isChain_append.mpr ⟨simple.chain, List.isChain_singleton _, ?_⟩
    intro x final y head
    rw [last] at final
    rw [List.head?_cons] at head
    cases final
    cases head
    exact edge
  nodup := by
    apply List.nodup_append.mpr
    refine ⟨simple.nodup, List.nodup_singleton n, ?_⟩
    rintro x held y here rfl
    rw [List.mem_singleton] at here
    exact fresh (here ▸ held)

/-- The node after a part of a path is a neighbor of the end of the part. -/
theorem Simple.next {t : List α} (simple : Simple neighbors roots (p ++ n :: t))
    (last : p.getLast? = some a) :
    Step neighbors a n := by
  obtain ⟨-, -, joins⟩ := List.isChain_append.mp simple.chain
  exact joins a last n (by simp)

private theorem Simple.not_mem {t : List α} (simple : Simple neighbors roots (p ++ n :: t)) {x : α}
    (held : x ∈ n :: t) :
    x ∉ p := by
  intro back
  exact (List.nodup_append.mp simple.nodup).2.2 x back x held rfl

end Paths

/-! ## What has been visited -/

section Visits
variable {neighbors : α → List α} {roots p q done rest visited visited' : List α} {n : α}

/-- The nodes that are visited are the ends of certain simple paths. Nodes off the path that the
walk is on lead to visited nodes only. -/
structure Visits (neighbors : α → List α) (roots p : List α) (part : List α → Prop)
    (visited : List α) : Prop where
  covers : ∀ w, w ∈ visited ↔ ∃ q, Simple neighbors roots q ∧ q.getLast? = some w ∧ part q
  closed : ∀ x ∈ visited, x ∉ p → ∀ y ∈ neighbors x, y ∈ visited
  inside : ∀ x ∈ p, x ∈ visited

/-- The paths that the walk has come to when it is on a path and has gone on to some nodes from
there. -/
def Cut (r : α → α → Prop) (p done q : List α) : Prop :=
  List.Lex r q p ∨ q = p ∨ ∃ x ∈ done, ∃ t, q = p ++ x :: t

theorem Visits.congr {part part' : List α → Prop} (visits : Visits neighbors roots p part visited)
    (same : ∀ q, Simple neighbors roots q → (part q ↔ part' q)) :
    Visits neighbors roots p part' visited where
  covers w := by
    rw [visits.covers w]
    apply exists_congr
    intro q
    apply and_congr_right
    intro simple
    rw [same q simple]
  closed := visits.closed
  inside := visits.inside

variable (asymm : ∀ a b, r a b → ¬ r b a) (sorted : (done ++ n :: rest).Pairwise r)
  (follow : ∀ x t, Simple neighbors roots (p ++ x :: t) → x ∈ done ++ n :: rest)
include asymm sorted follow

/-- What has been visited before a node is gone on to comes before the path to it. -/
theorem cut_iff (simple : Simple neighbors roots q) : Cut r p done q ↔ List.Lex r q (p ++ [n]) := by
  rw [lex_concat, Cut]
  apply or_congr_right
  apply or_congr_right
  constructor
  · rintro ⟨x, held, t, shape⟩
    exact ⟨x, t, shape, (List.pairwise_append.mp sorted).2.2 x held n List.mem_cons_self⟩
  · rintro ⟨x, t, rfl, less⟩
    refine ⟨x, ?_, t, rfl⟩
    rcases List.mem_append.mp (follow x t simple) with held | later
    · exact held
    · rcases List.mem_cons.mp later with rfl | later
      · exact absurd less (asymm x x less)
      · have greater := (List.pairwise_cons.mp (List.pairwise_append.mp sorted).2.1).1 x later
        exact absurd less (asymm n x greater)

theorem cut_concat_iff (simple : Simple neighbors roots q) :
    Cut r p (done ++ [n]) q ↔ List.Lex r q (p ++ [n]) ∨ p ++ [n] <+: q := by
  have more : Cut r p (done ++ [n]) q ↔ Cut r p done q ∨ ∃ t, q = p ++ n :: t := by
    simp only [Cut, List.mem_append, List.mem_singleton, or_and_right, exists_or, exists_eq_left,
      or_assoc]
  rw [more, cut_iff asymm sorted follow simple]
  apply or_congr_right
  constructor
  · rintro ⟨t, rfl⟩
    exact ⟨t, by simp⟩
  · rintro ⟨t, rfl⟩
    exact ⟨t, by simp⟩

omit asymm sorted follow in
/-- From a visited node off the path, a chain off the path leads through visited nodes. -/
theorem Visits.along {part : List α → Prop} (visits : Visits neighbors roots p part visited)
    {l : List α}
    (chain : l.IsChain (Step neighbors)) (off : ∀ x ∈ l, x ∉ p)
    (start : ∀ x ∈ l.head?, x ∈ visited) :
    ∀ x ∈ l, x ∈ visited := by
  induction l with
  | nil => simp
  | cons a l ih =>
    have here : a ∈ visited := start a rfl
    rw [List.forall_mem_cons] at off ⊢
    obtain ⟨next, tail⟩ := List.isChain_cons.mp chain
    refine ⟨here, ih tail off.2 ?_⟩
    intro b head
    exact visits.closed a here off.1 b (next b head)

/-- Nothing new lies behind a visited node, and the first path to what lies there does not lead
through it. -/
theorem Visits.skip (visits : Visits neighbors roots p (Cut r p done) visited)
    (seen : n ∈ visited) :
    Visits neighbors roots p (Cut r p (done ++ [n])) visited ∧
      ∀ q, First r neighbors roots q → ¬ p ++ [n] <+: q := by
  have behind {t : List α} (simple : Simple neighbors roots (p ++ n :: t)) :
      ∀ x ∈ n :: t, x ∈ visited := by
    apply visits.along (List.isChain_append.mp simple.chain).2.1 fun x held => simple.not_mem held
    intro x head
    rw [List.head?_cons, Option.mem_some_iff] at head
    rw [← head]
    exact seen
  have ends {t : List α} (w : α) (last : (p ++ n :: t).getLast? = some w) : w ∈ n :: t := by
    rw [List.getLast?_append_of_ne_nil _ (List.cons_ne_nil n t)] at last
    exact List.mem_of_getLast? last
  constructor
  · refine ⟨?_, visits.closed, visits.inside⟩
    intro w
    constructor
    · intro held
      obtain ⟨q, simple, last, part⟩ := (visits.covers w).mp held
      refine ⟨q, simple, last, (cut_concat_iff asymm sorted follow simple).mpr (.inl ?_)⟩
      exact (cut_iff asymm sorted follow simple).mp part
    · rintro ⟨q, simple, last, part⟩
      rcases (cut_concat_iff asymm sorted follow simple).mp part with before | ⟨t, rfl⟩
      · exact (visits.covers w).mpr ⟨q, simple, last,
          (cut_iff asymm sorted follow simple).mpr before⟩
      · rw [List.append_assoc] at simple last
        exact behind simple w (ends w last)
  · rintro q ⟨simple, first⟩ ⟨t, rfl⟩
    obtain ⟨w, last⟩ : ∃ w, (p ++ [n] ++ t).getLast? = some w := by
      exact Option.isSome_iff_exists.mp (by simp)
    rw [List.append_assoc, List.singleton_append] at simple
    have held := behind simple w (ends w (by simpa using last))
    obtain ⟨q', simple', last', part⟩ := (visits.covers w).mp held
    have before := (cut_iff asymm sorted follow simple').mp part
    exact first q' simple' (last'.trans last.symm) (lex_of_part before (List.prefix_append _ t))

end Visits

/-! ## What a walk records -/

section Records
variable [DecidableEq α] {neighbors : α → List α} {roots p path q seg : List α} {node : α}
  {st st' : Walk α (List α)}

/-- The part of a path that an edge from its end closes. -/
def Closes (neighbors : α → List α) (q seg : List α) : Prop :=
  ∃ u v, q.getLast? = some u ∧ v ∈ neighbors u ∧ v ∈ q ∧ seg = q.drop (q.idxOf v)

/-- A walk along a path has visited all that comes before the path and all that it is a part of, and
has recorded what is closed by edges from the ends of the first paths among the latter. -/
structure Explored (r : α → α → Prop) (neighbors : α → List α) (roots path p : List α)
    (st st' : Walk α (List α)) :
    Prop where
  visits : Visits neighbors roots path (fun q => List.Lex r q p ∨ p <+: q) st'.visited
  out : ∃ segs, st'.out = st.out ++ segs ∧
    ∀ seg, seg ∈ segs ↔ ∃ q, First r neighbors roots q ∧ p <+: q ∧ Closes neighbors q seg

/-- What a loop over some of the nodes that follow a path records: an edge back onto the path, and
what the walks along the longer paths record. -/
def Recorded (r : α → α → Prop) (neighbors : α → List α) (roots p rest seg : List α) : Prop :=
  (∃ n ∈ rest, n ∈ p ∧ seg = p.drop (p.idxOf n)) ∨
    ∃ n ∈ rest, ∃ q, First r neighbors roots q ∧ p ++ [n] <+: q ∧ Closes neighbors q seg

private theorem recorded_cons {n : α} {rest : List α} :
    Recorded r neighbors roots p (n :: rest) seg ↔
    Recorded r neighbors roots p [n] seg ∨ Recorded r neighbors roots p rest seg := by
  simp only [Recorded, List.mem_cons, List.not_mem_nil, or_false, exists_eq_or_imp, exists_eq_left]
  exact or_or_or_comm

variable (asymm : ∀ a b, r a b → ¬ r b a)
include asymm

/-- What one of the nodes that follow a path adds to the visited nodes and to the record. -/
theorem examine_first {step : α → Walk α (List α) → Option (Walk α (List α))} {done rest : List α}
    {n : α} (walks : Simple neighbors roots (p ++ [n]) → n ∉ st.visited →
      Visits neighbors roots p (fun q => List.Lex r q (p ++ [n])) st.visited →
        step n st = some st' →
      Explored r neighbors roots p (p ++ [n]) st st')
    (sorted : (done ++ n :: rest).Pairwise r)
    (follow : ∀ x t, Simple neighbors roots (p ++ x :: t) → x ∈ done ++ n :: rest)
    (goes : n ∉ p → Simple neighbors roots (p ++ [n]))
    (visits : Visits neighbors roots p (Cut r p done) st.visited)
    (examined : examine step (fun seg => seg) p st n = some st') :
    Visits neighbors roots p (Cut r p (done ++ [n])) st'.visited ∧
      ∃ segs, st'.out = st.out ++ segs ∧ ∀ seg, seg ∈ segs ↔
        Recorded r neighbors roots p [n] seg := by
  rw [examine] at examined
  split at examined
  · next fresh =>
    have off : n ∉ p := fun back => fresh (visits.inside n back)
    have explored :=
      walks (goes off) fresh (visits.congr fun q => cut_iff asymm sorted follow) examined
    obtain ⟨segs, out, mem⟩ := explored.out
    refine ⟨explored.visits.congr fun q longer => (cut_concat_iff asymm sorted follow longer).symm,
      segs, out, ?_⟩
    intro seg
    simp [mem, Recorded, off]
  · next known =>
    have seen : n ∈ st.visited := Classical.not_not.mp known
    obtain ⟨visits', none⟩ := visits.skip asymm sorted follow seen
    have nothing (seg : List α) :
        ¬ ∃ q, First r neighbors roots q ∧ p ++ [n] <+: q ∧ Closes neighbors q seg := by
      rintro ⟨q, first, longer, -⟩
      exact none q first longer
    split at examined
    · next back =>
      obtain rfl := Option.some.inj examined
      refine ⟨visits', [p.drop (p.idxOf n)], rfl, ?_⟩
      intro seg
      simp [Recorded, back, nothing]
    · next off =>
      obtain rfl := Option.some.inj examined
      refine ⟨visits', [], by simp, ?_⟩
      intro seg
      simp [Recorded, off, nothing]

/-- A loop over the nodes that follow a path, the roots among them when the path is empty. -/
theorem foldlM_examine_first {step : α → Walk α (List α) → Option (Walk α (List α))}
    (walks : ∀ n st st', Simple neighbors roots (p ++ [n]) → n ∉ st.visited →
      Visits neighbors roots p (fun q => List.Lex r q (p ++ [n])) st.visited →
        step n st = some st' →
      Explored r neighbors roots p (p ++ [n]) st st')
    (done rest : List α) (sorted : (done ++ rest).Pairwise r)
    (follow : ∀ x t, Simple neighbors roots (p ++ x :: t) → x ∈ done ++ rest)
    (goes : ∀ n ∈ rest, n ∉ p → Simple neighbors roots (p ++ [n]))
    (visits : Visits neighbors roots p (Cut r p done) st.visited)
    (folded : rest.foldlM (examine step (fun seg => seg) p) st = some st') :
    Visits neighbors roots p (Cut r p (done ++ rest)) st'.visited ∧
      ∃ segs, st'.out = st.out ++ segs ∧ ∀ seg, seg ∈ segs ↔
        Recorded r neighbors roots p rest seg := by
  induction rest generalizing done st with
  | nil =>
    obtain rfl := Option.some.inj folded
    rw [List.append_nil]
    exact ⟨visits, [], by simp, by simp [Recorded]⟩
  | cons n rest ih =>
    obtain ⟨here, others⟩ := List.forall_mem_cons.mp goes
    rw [List.foldlM_cons] at folded
    obtain ⟨middle, examined, folded⟩ := Option.bind_eq_some_iff.mp folded
    obtain ⟨visits', segs, out, mem⟩ :=
      examine_first asymm (walks n st middle) sorted follow here visits examined
    rw [List.append_cons] at sorted follow ⊢
    obtain ⟨final, segs', out', mem'⟩ := ih (done ++ [n]) sorted follow others visits' folded
    refine ⟨final, segs ++ segs', by rw [out', out, List.append_assoc], ?_⟩
    intro seg
    rw [List.mem_append, mem, mem', ← recorded_cons]

omit asymm in
/-- The walk along a path records what is closed at its end and what the walks along the longer
paths record. -/
theorem recorded_iff (first : First r neighbors roots p) (last : p.getLast? = some node) :
    Recorded r neighbors roots p (neighbors node) seg ↔
      ∃ q, First r neighbors roots q ∧ p <+: q ∧ Closes neighbors q seg := by
  constructor
  · rintro (⟨n, edge, back, shape⟩ | ⟨n, edge, q, least, longer, closes⟩)
    · exact ⟨p, first, List.prefix_rfl, node, n, last, edge, back, shape⟩
    · exact ⟨q, least, (List.prefix_append p [n]).trans longer, closes⟩
  · rintro ⟨q, least, ⟨t, rfl⟩, closes⟩
    cases t with
    | nil =>
      rw [List.append_nil] at closes
      obtain ⟨u, v, final, edge, back, shape⟩ := closes
      obtain rfl : node = u := Option.some.inj (last.symm.trans final)
      exact .inl ⟨v, edge, back, shape⟩
    | cons n t => exact .inr ⟨n, least.1.next last, _, least, ⟨t, by simp⟩, closes⟩

omit [DecidableEq α] asymm in
/-- A node that is come to for the first time is visited when the walk goes on to it. -/
theorem Visits.enter {visited : List α} (simple : Simple neighbors roots (path ++ [node]))
    (visits : Visits neighbors roots path (fun q => List.Lex r q (path ++ [node])) visited) :
    Visits neighbors roots (path ++ [node]) (Cut r (path ++ [node]) []) (visited ++ [node]) := by
  have last : (path ++ [node]).getLast? = some node := List.getLast?_concat ..
  refine ⟨?_, ?_, ?_⟩
  · intro w
    rw [List.mem_append, List.mem_singleton, visits.covers]
    constructor
    · rintro (⟨q, known, final, before⟩ | rfl)
      · exact ⟨q, known, final, .inl before⟩
      · exact ⟨path ++ [w], simple, last, .inr (.inl rfl)⟩
    · rintro ⟨q, known, final, before | rfl | ⟨x, none, -⟩⟩
      · exact .inl ⟨q, known, final, before⟩
      · exact .inr (Option.some.inj (final.symm.trans last))
      · exact absurd none List.not_mem_nil
  · intro x held off y edge
    rw [List.mem_append, List.mem_singleton, not_or] at off
    rcases List.mem_append.mp held with held | here
    · exact List.mem_append_left _ (visits.closed x held off.1 y edge)
    · exact absurd (List.mem_singleton.mp here) off.2
  · intro x held
    rcases List.mem_append.mp held with held | here
    · exact List.mem_append_left _ (visits.inside x held)
    · exact List.mem_append_right _ here

omit [DecidableEq α] asymm in
/-- After its last neighbor the walk is done with all that lies behind a node. -/
theorem Visits.leave {visited : List α} (simple : Simple neighbors roots (path ++ [node]))
    (visits : Visits neighbors roots (path ++ [node]) (Cut r (path ++ [node]) (neighbors node)) visited) :
    Visits neighbors roots path (fun q => List.Lex r q (path ++ [node]) ∨
      path ++ [node] <+: q) visited := by
  have last : (path ++ [node]).getLast? = some node := List.getLast?_concat ..
  refine ⟨?_, ?_, fun x held => visits.inside x (List.mem_append_left _ held)⟩
  · refine (visits.congr fun q known => ?_).covers
    rw [Cut]
    apply or_congr_right
    constructor
    · rintro (rfl | ⟨x, -, t, rfl⟩)
      · exact List.prefix_rfl
      · exact List.prefix_append _ _
    · rintro ⟨t, rfl⟩
      cases t with
      | nil => exact .inl (List.append_nil _)
      | cons x t => exact .inr ⟨x, known.next last, t, rfl⟩
  · intro x held off y edge
    by_cases here : x = node
    · subst here
      by_cases back : y ∈ path ++ [x]
      · exact visits.inside y back
      · refine (visits.covers y).mpr ⟨_, simple.concat last edge back, List.getLast?_concat .., ?_⟩
        exact .inr (.inr ⟨y, edge, [], rfl⟩)
    · refine visits.closed x held ?_ y edge
      rw [List.mem_append, List.mem_singleton, not_or]
      exact ⟨off, here⟩

private theorem walk_first (sorted : ∀ a, (neighbors a).Pairwise r) (depth : Nat) (path : List α)
    (node : α) (st st' : Walk α (List α)) (simple : Simple neighbors roots (path ++ [node]))
    (fresh : node ∉ st.visited)
    (visits : Visits neighbors roots path (fun q => List.Lex r q (path ++ [node])) st.visited)
    (walked : walk neighbors (fun seg => seg) depth path node st = some st') :
    Explored r neighbors roots path (path ++ [node]) st st' := by
  induction depth generalizing path node st st' with
  | zero => cases walked
  | succ depth ih =>
    rw [walk] at walked
    have last : (path ++ [node]).getLast? = some node := List.getLast?_concat ..
    have follow : ∀ x t, Simple neighbors roots (path ++ [node] ++ x :: t) → x ∈
        [] ++ neighbors node :=
      fun x t longer => longer.next last
    have goes : ∀ n ∈ neighbors node, n ∉ path ++ [node] → Simple neighbors roots
        (path ++ [node] ++ [n]) :=
      fun n edge off => simple.concat last edge off
    obtain ⟨final, segs, out, mem⟩ :=
      foldlM_examine_first asymm (ih (path ++ [node])) [] (neighbors node)
      (sorted node) follow goes (visits.enter simple) walked
    refine ⟨final.leave simple, segs, out, ?_⟩
    intro seg
    -- No path to the node comes before this one, or it would have been visited.
    have first : First r neighbors roots (path ++ [node]) := by
      refine ⟨simple, fun q known same before => fresh ?_⟩
      exact (visits.covers node).mpr ⟨q, known, same.trans last, before⟩
    rw [mem, recorded_iff first last]

/-- The walks from all roots record what is closed by edges from the ends of the first paths. -/
theorem mem_walkAll_iff (sorted : ∀ a, (neighbors a).Pairwise r) (ordered : roots.Pairwise r)
    {depth : Nat} (walked : walkAll neighbors (fun seg => seg) roots depth = some st) :
    seg ∈ st.out ↔ ∃ q, First r neighbors roots q ∧ Closes neighbors q seg := by
  have follow : ∀ x t, Simple neighbors roots ([] ++ x :: t) → x ∈ [] ++ roots := by
    intro x t simple
    obtain ⟨a, root, head⟩ := simple.root
    obtain rfl : x = a := Option.some.inj head
    exact root
  have goes : ∀ n ∈ roots, n ∉ [] → Simple neighbors roots ([] ++ [n]) :=
    fun n root _ => ⟨⟨n, root, rfl⟩, List.isChain_singleton n, List.nodup_singleton n⟩
  have start : Visits neighbors roots [] (Cut r [] []) [] := by
    refine ⟨?_, by simp, by simp⟩
    intro w
    constructor
    · exact fun none => absurd none List.not_mem_nil
    · rintro ⟨q, -, last, before | rfl | ⟨x, none, -⟩⟩
      · cases before
      · cases last
      · exact absurd none List.not_mem_nil
  have folded : roots.foldlM (examine (walk neighbors (fun seg => seg) depth []) (fun seg => seg) []) ⟨[], []⟩ =
      some st := by
    rw [← walked, walkAll]
    apply congrArg (fun step => roots.foldlM step _)
    funext st root
    simp [examine]
  obtain ⟨-, segs, out, mem⟩ :=
    foldlM_examine_first asymm (walk_first asymm sorted depth []) [] roots ordered
    follow goes start folded
  rw [out, List.nil_append, mem]
  constructor
  · rintro (⟨n, -, none, -⟩ | ⟨n, -, q, first, -, closes⟩)
    · exact absurd none List.not_mem_nil
    · exact ⟨q, first, closes⟩
  · rintro ⟨q, first, closes⟩
    obtain ⟨a, root, head⟩ := first.1.root
    refine .inr ⟨a, root, q, first, ?_, closes⟩
    obtain ⟨t, rfl⟩ := List.head?_eq_some_iff.mp head
    exact ⟨t, rfl⟩

end Records

/-! ## Recording in another way -/

section Map
variable [DecidableEq α] {β γ : Type} (neighbors : α → List α) (record : List α → β) (f : β → γ)

/-- The same walk with its record rewritten. -/
def Walk.map (st : Walk α β) : Walk α γ := ⟨st.visited, st.out.map f⟩

omit [DecidableEq α] in
@[simp] theorem Walk.map_visited (st : Walk α β) : (st.map f).visited = st.visited := rfl

omit [DecidableEq α] in
private theorem foldlM_map {σ τ : Type} {f : σ → α → Option σ} {g : τ → α → Option τ} {m : σ → τ}
    (step : ∀ s x, g (m s) x = (f s x).map m) (l : List α) (s : σ) :
    l.foldlM g (m s) = (l.foldlM f s).map m := by
  induction l generalizing s with
  | nil => rfl
  | cons x l ih =>
    rw [List.foldlM_cons, List.foldlM_cons, step]
    cases f s x with
    | none => rfl
    | some s' => exact ih s'

private theorem walk_map (depth : Nat) (path : List α) (node : α) (st : Walk α β) :
    walk neighbors (fun seg => f (record seg)) depth path node (st.map f) =
      (walk neighbors record depth path node st).map (Walk.map f) := by
  induction depth generalizing path node st with
  | zero => rfl
  | succ depth ih =>
    rw [walk, walk]
    refine foldlM_map (m := Walk.map f) ?_ (neighbors node) ⟨st.visited ++ [node], st.out⟩
    intro st next
    rw [examine, examine, Walk.map_visited]
    split
    · exact ih (path ++ [node]) next st
    · split
      · simp [Walk.map]
      · rfl

private theorem walkAll_map (roots : List α) (depth : Nat) :
    walkAll neighbors (fun seg => f (record seg)) roots depth =
      (walkAll neighbors record roots depth).map (Walk.map f) := by
  refine foldlM_map (m := Walk.map f) ?_ roots ⟨[], []⟩
  intro st root
  rw [Walk.map_visited]
  split
  · exact walk_map neighbors record f depth [] root st
  · rfl

end Map

section Enumerate
variable [DecidableEq α] {neighbors : α → List α} {roots pool : List α}

/-- The enumeration of a graph whose roots and neighbors are in order: whatever form cycles are
recorded in, they are the parts of first paths that edges from the ends of these paths close. -/
theorem enumerate_first (asymm : ∀ a b, r a b → ¬ r b a)
    (bounded : ∀ a, ∀ b ∈ neighbors a, b ∈ pool)
    (sorted : ∀ a, (neighbors a).Pairwise r) (ordered : roots.Pairwise r)
    (pooled : ∀ a ∈ roots, a ∈ pool) :
    ∃ segs : List (List α),
      (∀ seg, seg ∈ segs ↔ ∃ q, First r neighbors roots q ∧ Closes neighbors q seg) ∧
      (segs.map closing).Nodup ∧
      ∀ {β ε : Type} (record : List α → β),
        (enumerate neighbors record roots : Call ε (List β)).Returns (segs.map record) := by
  have irrefl (a b : α) (less : r a b) : a ≠ b := by
    rintro rfl
    exact asymm a a less less
  have distinct (a : α) : (neighbors a).Nodup := (sorted a).imp (irrefl _ _)
  obtain ⟨visited, segs, ⟨depth, returned⟩, -, -, once, -⟩ :=
    enumerate_spec (ε := Unit) bounded distinct (fun seg => seg) pooled
  rw [List.map_id'] at returned
  obtain ⟨st, walked, result⟩ := Option.map_eq_some_iff.mp returned
  obtain rfl : st.out = segs := Except.ok.inj result
  refine ⟨st.out, fun seg => mem_walkAll_iff asymm sorted ordered walked, once, ?_⟩
  intro β ε record
  refine ⟨depth, ?_⟩
  have mapped : walkAll neighbors record roots depth = some (st.map record) := by
    rw [walkAll_map neighbors (fun seg => seg) record roots depth, walked]
    rfl
  simp only [enumerate, mapped, Option.map_some, Walk.map]

end Enumerate

end Beads.Lib.DepthFirst
