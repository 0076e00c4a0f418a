import Beads.Lib.Precedes
import Beads.Lib.Ranks

/-! Emission of nodes in the order of their edges. A node is ready when everything it comes after
has been emitted; the ready nodes are kept sorted and the first is emitted. Nodes that never get
ready, because they stand on or behind a cycle, come last.

`emit_spec` asks of the sort that it rearranges its list and nothing else. `Mirrors.emit_eq` says
that the order in which nodes and edges are listed does not matter when the sort leaves no choice.
-/
namespace Beads.Lib.Kahn
open Relation Graph

variable {α κ : Type} [DecidableEq κ]

/-- What is left of the degrees and what has become ready when the dependents of an emitted node
are released, and whether anything has. -/
def release (find : κ → Option α) : List κ → (κ → Int) × List α × Bool → (κ → Int) × List α × Bool
  | [], state => state
  | d :: rest, (degree, ready, grew) =>
    let degree := Function.update degree d (degree d - 1)
    if degree d = 0 then release find rest (degree, ready ++ (find d).toList, true)
    else release find rest (degree, ready, grew)

/-- Emit the first ready node until none is left. -/
def drain (sort : List α → List α) (key : α → κ) (find : κ → Option α) (dependents : κ → List κ) :
    Nat → (κ → Int) → List α → List α → Option (List α)
  | _, _, [], out => some out
  | 0, _, _ :: _, _ => none
  | fuel + 1, degree, n :: ready, out =>
    let released := release find (dependents (key n)) (degree, ready, false)
    let ready := if released.2.2 then sort released.2.1 else released.2.1
    drain sort key find dependents fuel released.1 ready (out ++ [n])

/-- The number of nodes that a node comes after. -/
def degreeOf (edges : List (κ × κ)) (x : κ) : Int := edges.countP (·.1 = x)

/-- The nodes that come after a node. -/
def dependentsOf (edges : List (κ × κ)) (t : κ) : List κ := (edges.filter (·.2 = t)).map Prod.fst

/-- The nodes in the order of their edges; an edge leads from a node to one it comes after. Every
node is emitted once, so the number of nodes is fuel enough. -/
def emit (sort : List α → List α) (key : α → κ) (find : κ → Option α) (nodes : List α)
    (edges : List (κ × κ)) :
    Option (List α) := do
  let ready := sort (nodes.filter fun n => degreeOf edges (key n) = 0)
  let out ← drain sort key find (dependentsOf edges) nodes.length (degreeOf edges) ready []
  return if out.length < nodes.length then out ++ sort (nodes.filter fun n => key n ∉ out.map key) else out

/-! ## Releasing dependents -/

section Release
variable {find : κ → Option α} {ds : List κ} {degree : κ → Int} {ready : List α} {grew : Bool}

theorem release_degree (distinct : ds.Nodup) (x : κ) :
    (release find ds (degree, ready, grew)).1 x = degree x - if x ∈ ds then 1 else 0 := by
  induction ds generalizing degree ready grew with
  | nil => simp [release]
  | cons d rest ih =>
    rw [List.nodup_cons] at distinct
    have step (ready : List α) (grew : Bool) :
        (release find rest (Function.update degree d (degree d - 1), ready, grew)).1 x =
          degree x - if x ∈ d :: rest then 1 else 0 := by
      rw [ih distinct.2]
      by_cases here : x = d
      · subst here
        simp [distinct.1]
      · simp [here]
    rw [release]
    split
    · exact step _ _
    · exact step _ _

theorem release_ready (distinct : ds.Nodup) :
    (release find ds (degree, ready, grew)).2.1 = ready ++ (ds.filter fun d => degree d = 1).filterMap find := by
  induction ds generalizing degree ready grew with
  | nil => simp [release]
  | cons d rest ih =>
    rw [List.nodup_cons] at distinct
    have unchanged (v : Int) : rest.filter (fun a => Function.update degree d v a = 1) =
        rest.filter fun a => degree a = 1 := by
      apply List.filter_congr
      intro a held
      have other : a ≠ d := by
        rintro rfl
        exact distinct.1 held
      simp [other]
    rw [release]
    by_cases last : degree d = 1
    · cases found : find d with
      | none => simp [last, found, ih distinct.2, unchanged]
      | some n => simp [last, found, ih distinct.2, unchanged]
    · have more : degree d - 1 ≠ 0 := by omega
      simp [last, more, ih distinct.2, unchanged]

private theorem release_grew (distinct : ds.Nodup) :
    (release find ds (degree, ready, grew)).2.2 = (grew || ds.any fun d => degree d = 1) := by
  induction ds generalizing degree ready grew with
  | nil => simp [release]
  | cons d rest ih =>
    rw [List.nodup_cons] at distinct
    have unchanged (v : Int) : (rest.any fun a => Function.update degree d v a = 1) =
        rest.any fun a => degree a = 1 := by
      apply Bool.eq_iff_iff.mpr
      simp only [List.any_eq_true, decide_eq_true_eq]
      apply exists_congr
      intro a
      apply and_congr_right
      intro held
      have other : a ≠ d := by
        rintro rfl
        exact distinct.1 held
      simp [other]
    rw [release]
    by_cases last : degree d = 1
    · simp [last, ih distinct.2]
    · have more : degree d - 1 ≠ 0 := by omega
      simp [last, more, ih distinct.2, unchanged]

end Release

/-! ## The invariant of the emission -/

/-- Edges between different nodes, each listed once. -/
structure Proper (nodes : List κ) (edges : List (κ × κ)) : Prop where
  distinct : nodes.Nodup
  once : edges.Nodup
  inside : ∀ e ∈ edges, e.1 ∈ nodes ∧ e.2 ∈ nodes
  loopless : ∀ e ∈ edges, e.1 ≠ e.2

section Run
variable {nodes : List κ} {edges : List (κ × κ)} {degree : κ → Int} {ready out : List κ} {n : κ}

/-- The number of nodes that are still to come before a node. -/
def waitingFor (edges : List (κ × κ)) (out : List κ) (x : κ) : Nat :=
  edges.countP fun e => e.1 = x ∧ e.2 ∉ out

structure Emitting (nodes : List κ) (edges : List (κ × κ)) (degree : κ → Int) (ready out : List κ) :
    Prop where
  distinct : (out ++ ready).Nodup
  inside : ∀ x ∈ out ++ ready, x ∈ nodes
  counts : ∀ x, degree x = waitingFor edges out x
  settled : ∀ x ∈ nodes, x ∈ out ++ ready ↔ waitingFor edges out x = 0
  ordered : ∀ e ∈ edges, e.1 ∈ out → Precedes out e.2 e.1

theorem waitingFor_eq_zero {x : κ} :
    waitingFor edges out x = 0 ↔ ∀ e ∈ edges, e.1 = x → e.2 ∈ out := by
  simp [waitingFor]

private theorem waitingFor_append (proper : Proper nodes edges) (fresh : n ∉ out) (x : κ) :
    waitingFor edges (out ++ [n]) x + (if (x, n) ∈ edges then 1 else 0) = waitingFor edges out x := by
  have split (es : List (κ × κ)) :
      es.countP (fun e => e.1 = x ∧ e.2 ∉ out ++ [n]) + es.count (x, n) =
        es.countP fun e => e.1 = x ∧ e.2 ∉ out := by
    induction es with
    | nil => rfl
    | cons e rest ih =>
      rw [List.countP_cons, List.countP_cons, List.count_cons, ← ih]
      by_cases source : e.1 = x
      · by_cases target : e.2 = n
        · have same : e = (x, n) := Prod.ext source target
          simp [same, fresh]
          omega
        · have other : e ≠ (x, n) := fun same => target (congrArg Prod.snd same)
          simp [source, target, other]
          omega
      · have other : e ≠ (x, n) := fun same => source (congrArg Prod.fst same)
        simp [source, other]
  rw [waitingFor, waitingFor, ← split edges]
  congr 1
  split
  · next held => exact (List.count_eq_one_of_mem proper.once held).symm
  · next free => exact (List.count_eq_zero_of_not_mem free).symm

theorem mem_dependentsOf {x t : κ} : x ∈ dependentsOf edges t ↔ (x, t) ∈ edges := by
  simp only [dependentsOf, List.mem_map, List.mem_filter, decide_eq_true_eq]
  constructor
  · rintro ⟨e, ⟨held, rfl⟩, rfl⟩
    exact held
  · intro held
    exact ⟨(x, t), ⟨held, rfl⟩, rfl⟩

theorem nodup_dependentsOf (proper : Proper nodes edges) (t : κ) :
    (dependentsOf edges t).Nodup := by
  apply (List.nodup_map_iff_inj_on (proper.once.filter _)).mpr
  intro a left b right same
  simp only [List.mem_filter, decide_eq_true_eq] at left right
  exact Prod.ext same (left.2.trans right.2.symm)

private theorem emitting_start (proper : Proper nodes edges)
    (perm : ready.Perm (nodes.filter fun n => degreeOf edges n = 0)) :
    Emitting nodes edges (degreeOf edges) ready [] := by
  have degree (x : κ) : degreeOf edges x = waitingFor edges [] x := by simp [degreeOf, waitingFor]
  refine ⟨?_, ?_, degree, ?_, by simp⟩
  · rw [List.nil_append]
    exact perm.nodup_iff.mpr (proper.distinct.filter _)
  · intro x held
    rw [List.nil_append, perm.mem_iff] at held
    exact (List.mem_filter.mp held).1
  · intro x known
    rw [List.nil_append, perm.mem_iff, List.mem_filter, and_iff_right known, decide_eq_true_eq,
      degree]
    exact Int.natCast_eq_zero

/-- What gets ready has waited for the node just emitted and for nothing else. -/
theorem Emitting.released (state : Emitting nodes edges degree (n :: ready) out) {d : κ}
    (held : d ∈ (dependentsOf edges n).filter fun d => degree d = 1) :
    (d, n) ∈ edges ∧ waitingFor edges out d = 1 := by
  obtain ⟨listed, one⟩ := List.mem_filter.mp held
  rw [decide_eq_true_eq, state.counts] at one
  exact ⟨mem_dependentsOf.mp listed, by omega⟩

private theorem Emitting.nodup_next (state : Emitting nodes edges degree (n :: ready) out)
    (proper : Proper nodes edges)
    {next : List κ} (perm : next.Perm (ready ++ (dependentsOf edges n).filter fun d => degree d = 1)) :
    ((out ++ [n]) ++ next).Nodup := by
  have whole : ((out ++ n :: ready) ++ (dependentsOf edges n).filter fun d => degree d = 1).Nodup := by
    apply List.nodup_append.mpr
    refine ⟨state.distinct, (nodup_dependentsOf proper n).filter _, ?_⟩
    rintro d before d' new rfl
    obtain ⟨edge, one⟩ := state.released new
    have none := (state.settled d (proper.inside _ edge).1).mp before
    omega
  have shape : (out ++ n :: ready) ++ (dependentsOf edges n).filter (fun d => degree d = 1) =
      (out ++ [n]) ++ (ready ++ (dependentsOf edges n).filter fun d => degree d = 1) := by simp
  rw [shape] at whole
  exact (perm.append_left _).nodup_iff.mpr whole

theorem Emitting.step (state : Emitting nodes edges degree (n :: ready) out)
    (proper : Proper nodes edges)
    {next : List κ} (perm : next.Perm (ready ++ (dependentsOf edges n).filter fun d => degree d = 1))
    {degree' : κ → Int} (lower : ∀ x, degree' x = degree x - if x ∈ dependentsOf edges n then 1 else 0) :
    Emitting nodes edges degree' next (out ++ [n]) := by
  have parts := List.nodup_append.mp state.distinct
  have fresh : n ∉ out := fun held => parts.2.2 n held n (by simp) rfl
  have waiting := waitingFor_append proper fresh
  have free : waitingFor edges out n = 0 :=
    (state.settled n (state.inside n (by simp))).mp (by simp)
  have mem (x : κ) : x ∈ (out ++ [n]) ++ next ↔
      x ∈ out ++ n :: ready ∨ x ∈ (dependentsOf edges n).filter fun d => degree d = 1 := by
    simp only [List.mem_append, perm.mem_iff, List.mem_cons, List.not_mem_nil, or_false]
    tauto
  refine ⟨state.nodup_next proper perm, ?_, ?_, ?_, ?_⟩
  · intro x held
    rcases (mem x).mp held with before | new
    · exact state.inside x before
    · exact (proper.inside _ (state.released new).1).1
  · intro x
    have count := waiting x
    rw [lower, state.counts, ← count]
    simp only [mem_dependentsOf]
    split <;> omega
  · intro x known
    have count := waiting x
    rw [mem, state.settled x known]
    constructor
    · rintro (none | new)
      · omega
      · obtain ⟨edge, one⟩ := state.released new
        rw [if_pos edge] at count
        omega
    · intro none
      by_cases edge : (x, n) ∈ edges
      · right
        rw [if_pos edge] at count
        refine List.mem_filter.mpr ⟨mem_dependentsOf.mpr edge, ?_⟩
        rw [decide_eq_true_eq, state.counts]
        omega
      · left
        rw [if_neg edge] at count
        omega
  · intro e held emitted
    rcases List.mem_append.mp emitted with before | last
    · exact (state.ordered e held before).trans (List.sublist_append_left _ _)
    · rw [List.mem_singleton] at last
      have target := waitingFor_eq_zero.mp free e held last
      rw [last]
      exact List.Sublist.append (List.singleton_sublist.mpr target) (List.Sublist.refl [n])

end Run

/-! ## The whole emission -/

section Emission
variable {sort sort' : List α → List α} {key : α → κ} {find : κ → Option α} {nodes : List α}
  {edges : List (κ × κ)}
  {degree : κ → Int} {ready out result : List α} {n : α} {fuel : Nat}

/-- Every node is found under its key. -/
def Finds (key : α → κ) (find : κ → Option α) (nodes : List α) : Prop :=
  ∀ n ∈ nodes, find (key n) = some n

omit [DecidableEq κ] in
private theorem Finds.filterMap (finds : Finds key find nodes) {l : List κ}
    (inside : ∀ k ∈ l, k ∈ nodes.map key) :
    (l.filterMap find).map key = l ∧ ∀ n ∈ l.filterMap find, n ∈ nodes := by
  induction l with
  | nil => simp
  | cons k rest ih =>
    rw [List.forall_mem_cons] at inside
    obtain ⟨n, held, rfl⟩ := List.mem_map.mp inside.1
    obtain ⟨keys, items⟩ := ih inside.2
    simp only [List.filterMap_cons, finds n held, List.map_cons, keys, List.forall_mem_cons]
    exact ⟨trivial, held, items⟩

/-- The invariant of the emission, and that what is emitted and what is ready are nodes. -/
structure Running (key : α → κ) (nodes : List α) (edges : List (κ × κ)) (degree : κ → Int)
    (ready out : List α) :
    Prop where
  keys : Emitting (nodes.map key) edges degree (ready.map key) (out.map key)
  items : ∀ n ∈ out ++ ready, n ∈ nodes

theorem running_start (proper : Proper (nodes.map key) edges)
    (perm : ready.Perm (nodes.filter fun n => degreeOf edges (key n) = 0)) :
    Running key nodes edges (degreeOf edges) ready [] := by
  constructor
  · apply emitting_start proper
    rw [List.filter_map]
    exact perm.map key
  · intro n held
    rw [List.nil_append, perm.mem_iff] at held
    exact (List.mem_filter.mp held).1

theorem Running.step (running : Running key nodes edges degree (n :: ready) out)
    (proper : Proper (nodes.map key) edges) (finds : Finds key find nodes) {next : List α}
    (perm : next.Perm (release find (dependentsOf edges (key n)) (degree, ready, false)).2.1) :
    Running key nodes edges (release find (dependentsOf edges (key n)) (degree, ready, false)).1 next (out ++ [n]) := by
  have distinct := nodup_dependentsOf proper (key n)
  rw [release_ready distinct] at perm
  have inside : ∀ k ∈ (dependentsOf edges (key n)).filter fun d => degree d = 1, k ∈ nodes.map key := by
    intro k held
    exact (proper.inside _ (mem_dependentsOf.mp (List.mem_filter.mp held).1)).1
  obtain ⟨keys, items⟩ := finds.filterMap inside
  constructor
  · rw [List.map_append, List.map_singleton]
    apply running.keys.step proper _ fun x => release_degree distinct x
    rw [← keys, ← List.map_append]
    exact perm.map key
  · intro m held
    simp only [List.mem_append, List.mem_singleton, perm.mem_iff] at held
    rcases held with (before | rfl) | waiting | new
    · exact running.items m (by simp [before])
    · exact running.items m (by simp)
    · exact running.items m (by simp [waiting])
    · exact items m new

private theorem Running.length_le (running : Running key nodes edges degree ready out) :
    out.length + ready.length ≤ nodes.length := by
  have short := (running.keys.distinct.subperm running.keys.inside).length_le
  simpa using short

theorem resorted_perm (perm : ∀ l, (sort l).Perm l) (grew : Bool) (l : List α) :
    (if grew then sort l else l).Perm l := by
  split
  · exact perm l
  · rfl

private theorem drain_spec (perm : ∀ l, (sort l).Perm l) (proper : Proper (nodes.map key) edges)
    (finds : Finds key find nodes) (running : Running key nodes edges degree ready out)
    (enough : nodes.length ≤ fuel + out.length) :
    ∃ result degree', drain sort key find (dependentsOf edges) fuel degree ready out = some result ∧
      Running key nodes edges degree' [] result := by
  induction fuel generalizing degree ready out with
  | zero =>
    cases ready with
    | nil => exact ⟨out, degree, by rw [drain], running⟩
    | cons n ready =>
      have short := running.length_le
      simp only [List.length_cons] at short
      omega
  | succ fuel ih =>
    cases ready with
    | nil => exact ⟨out, degree, by rw [drain], running⟩
    | cons n ready =>
      have next := running.step proper finds
        (resorted_perm perm (release find (dependentsOf edges (key n)) (degree, ready, false)).2.2 _)
      have left : nodes.length ≤ fuel + (out ++ [n]).length := by
        rw [List.length_append, List.length_singleton]
        omega
      obtain ⟨result, degree', drained, final⟩ := ih next left
      exact ⟨result, degree', by rw [drain, drained], final⟩

/-- Everything from which no cycle can be reached gets ready. -/
theorem Running.mem_of_settles (final : Running key nodes edges degree [] out) {x : κ}
    (known : x ∈ nodes.map key) (proper : Proper (nodes.map key) edges)
    (settles : ∀ y, ReflTransGen (Edge edges) x y → ¬ TransGen (Edge edges) y y) :
    x ∈ out.map key := by
  by_contra stuck
  -- The edges that can be reached from the node have no cycle, so one of those stuck is last.
  have acyclic := acyclic_reached settles
  have finite : {y | y ∈ nodes.map key ∧ ReflTransGen (Edge edges) x y ∧ y ∉ out.map key}.Finite :=
    (nodes.map key).finite_toSet.subset fun y inside => inside.1
  obtain ⟨last, ⟨held, reached, missing⟩, alone⟩ :=
    acyclic.exists_last finite ⟨x, known, .refl, stuck⟩
  apply missing
  have settled := final.keys.settled last held
  rw [List.map_nil, List.append_nil, waitingFor_eq_zero] at settled
  apply settled.mpr
  rintro ⟨a, b⟩ edge rfl
  by_contra absent
  exact alone b ⟨(proper.inside _ edge).2, reached.tail edge, absent⟩ ⟨reached, edge⟩

/-- Nothing is lost or repeated, and a node from which no cycle can be reached comes after all that
it has an edge to. -/
structure Emitted (key : α → κ) (nodes : List α) (edges : List (κ × κ)) (result : List α) :
    Prop where
  perm : result.Perm nodes
  ordered : ∀ e ∈ edges, (∀ y, ReflTransGen (Edge edges) e.1 y → ¬ TransGen (Edge edges) y y) →
    Precedes (result.map key) e.2 e.1

private theorem Running.perm_rest (running : Running key nodes edges degree [] out)
    (proper : Proper (nodes.map key) edges) :
    (out ++ nodes.filter fun n => key n ∉ out.map key).Perm nodes := by
  have distinct : (out.map key).Nodup := by simpa using running.keys.distinct
  have nodup := proper.distinct.of_map
  apply (List.perm_ext_iff_of_nodup _ nodup).mpr
  · intro n
    simp only [List.mem_append, List.mem_filter, decide_eq_true_eq]
    constructor
    · rintro (held | held)
      · exact running.items n (by simpa using held)
      · exact held.1
    · intro held
      by_cases emitted : key n ∈ out.map key
      · obtain ⟨m, there, same⟩ := List.mem_map.mp emitted
        have known := running.items m (by simpa using there)
        rw [List.inj_on_of_nodup_map proper.distinct known held same] at there
        exact .inl there
      · exact .inr ⟨held, emitted⟩
  · apply List.nodup_append.mpr
    refine ⟨distinct.of_map, nodup.filter _, ?_⟩
    rintro n held m rest rfl
    have fresh := (List.mem_filter.mp rest).2
    rw [decide_eq_true_eq] at fresh
    exact fresh (List.mem_map_of_mem held)

theorem emit_spec (perm : ∀ l, (sort l).Perm l) (proper : Proper (nodes.map key) edges)
    (finds : Finds key find nodes) : ∃ result, emit sort key find nodes edges = some result ∧
      Emitted key nodes edges result := by
  have start := running_start proper (perm (nodes.filter fun n => degreeOf edges (key n) = 0))
  obtain ⟨out, degree, drained, final⟩ :=
    drain_spec perm proper finds start (Nat.le_add_right nodes.length _)
  have whole := final.perm_rest proper
  have grown : ∃ rest, (if out.length < nodes.length then out ++ sort (nodes.filter fun n => key n ∉ out.map key)
      else out) = out ++ rest ∧ rest.Perm (nodes.filter fun n => key n ∉ out.map key) := by
    by_cases short : out.length < nodes.length
    · exact ⟨_, if_pos short, perm _⟩
    · refine ⟨[], by rw [if_neg short, List.append_nil], ?_⟩
      have full := whole.length_eq
      rw [List.length_append] at full
      rw [List.nil_perm]
      exact List.eq_nil_of_length_eq_zero (by omega)
  obtain ⟨rest, shape, rearranged⟩ := grown
  refine ⟨out ++ rest, ?_, ⟨(rearranged.append_left out).trans whole, ?_⟩⟩
  · simp only [emit, drained, Option.bind_eq_bind, Option.bind_some, Option.pure_def, shape]
  · intro e held settles
    have emitted := final.mem_of_settles (proper.inside e held).1 proper settles
    rw [List.map_append]
    exact (final.keys.ordered e held emitted).trans (List.sublist_append_left _ _)

private theorem drain_prefix {dependents : κ → List κ}
    (drained : drain sort key find dependents fuel degree ready out = some result) :
    out <+: result := by
  induction fuel generalizing degree ready out with
  | zero =>
    cases ready with
    | nil =>
      rw [drain, Option.some.injEq] at drained
      rw [drained]
    | cons n ready => simp [drain] at drained
  | succ fuel ih =>
    cases ready with
    | nil =>
      rw [drain, Option.some.injEq] at drained
      rw [drained]
    | cons n ready =>
      rw [drain] at drained
      exact (List.prefix_append out [n]).trans (ih drained)

/-- The first of the nodes that come after no other is emitted first. -/
theorem emit_head (emitted : emit sort key find nodes edges = some result)
    (first : sort (nodes.filter fun n => degreeOf edges (key n) = 0) = n :: ready) :
    [n] <+: result := by
  simp only [emit, first, Option.bind_eq_bind, Option.bind_eq_some_iff, Option.pure_def,
    Option.some.injEq] at emitted
  obtain ⟨out, drained, shape⟩ := emitted
  have grown : [n] <+: out := by
    cases count : nodes.length with
    | zero => simp [count, drain] at drained
    | succ fuel =>
      rw [count, drain] at drained
      exact drain_prefix drained
  rw [← shape]
  split
  · exact grown.trans (List.prefix_append _ _)
  · exact grown

/-- Without edges the nodes come as the sort puts them. -/
theorem emit_nil (perm : ∀ l, (sort l).Perm l) :
    emit sort key find nodes [] = some (sort nodes) := by
  have all : nodes.filter (fun n => degreeOf ([] : List (κ × κ)) (key n) = 0) = nodes := by
    simp [degreeOf]
  have drained (fuel : Nat) (degree : κ → Int) (ready out : List α) (enough : ready.length ≤ fuel) :
      drain sort key find (dependentsOf []) fuel degree ready out = some (out ++ ready) := by
    induction fuel generalizing degree ready out with
    | zero =>
      rw [List.eq_nil_of_length_eq_zero (Nat.le_zero.mp enough), drain, List.append_nil]
    | succ fuel ih =>
      cases ready with
      | nil => rw [drain, List.append_nil]
      | cons n ready =>
        rw [List.length_cons] at enough
        simp [drain, dependentsOf, release, ih _ ready _ (by omega)]
  simp [emit, all, drained, (perm nodes).length_eq]

end Emission

/-! ## Two emissions of the same nodes -/

section Map
variable {β : Type} {f : α → β} {sort : List α → List α} {sort' : List β → List β} {key : α → κ}
  {key' : β → κ}
  {find : κ → Option α} {find' : κ → Option β} {nodes : List α} {nodes' : List β} {edges edges' : List (κ × κ)}
  {degree : κ → Int} {ready out : List α} {n : α} {fuel : Nat}

/-- The same nodes and edges, listed in any order, and sorts that do not depend on how they are
listed. -/
structure Mirrors (f : α → β) (sort : List α → List α) (sort' : List β → List β) (key : α → κ)
    (key' : β → κ)
    (find : κ → Option α) (find' : κ → Option β) (nodes : List α) (nodes' : List β)
    (edges edges' : List (κ × κ)) :
    Prop where
  proper : Proper (nodes.map key) edges
  finds : Finds key find nodes
  finds' : Finds key' find' nodes'
  perm : ∀ l, (sort l).Perm l
  keys : ∀ n, key' (f n) = key n
  sameNodes : nodes'.Perm (nodes.map f)
  sameEdges : edges'.Perm edges
  sorts : ∀ l l', (l.map key).Nodup → (∀ n ∈ l, n ∈ nodes) → l'.Perm (l.map f) → sort' l' = (sort l).map f

namespace Mirrors
variable (mirrors : Mirrors f sort sort' key key' find find' nodes nodes' edges edges')
include mirrors

theorem dependentsOf_perm (t : κ) :
    (dependentsOf edges' t).Perm (dependentsOf edges t) := (mirrors.sameEdges.filter _).map Prod.fst

private theorem degreeOf_eq : degreeOf edges' = degreeOf edges := by
  funext x
  rw [degreeOf, degreeOf, mirrors.sameEdges.countP_eq]

omit [DecidableEq κ] in
private theorem find_eq {k : κ} (known : k ∈ nodes.map key) : find' k = (find k).map f := by
  obtain ⟨n, held, rfl⟩ := List.mem_map.mp known
  have held' : f n ∈ nodes' := mirrors.sameNodes.mem_iff.mpr (List.mem_map_of_mem held)
  have found := mirrors.finds' (f n) held'
  rw [mirrors.keys] at found
  rw [found, mirrors.finds n held, Option.map_some]

private theorem release_ready_perm (t : κ) :
    (release find' (dependentsOf edges' t) (degree, ready.map f, false)).2.1.Perm
      ((release find (dependentsOf edges t) (degree, ready, false)).2.1.map f) := by
  have distinct := nodup_dependentsOf mirrors.proper t
  rw [release_ready ((mirrors.dependentsOf_perm t).nodup_iff.mpr distinct), release_ready distinct,
    List.map_append, List.map_filterMap]
  apply List.Perm.append_left
  have same : ((dependentsOf edges t).filter fun d => degree d = 1).filterMap find' =
      ((dependentsOf edges t).filter fun d => degree d = 1).filterMap fun d => (find d).map f := by
    apply List.filterMap_congr
    intro d held
    exact mirrors.find_eq (mirrors.proper.inside _ (mem_dependentsOf.mp (List.mem_filter.mp held).1)).1
  rw [← same]
  exact ((mirrors.dependentsOf_perm t).filter _).filterMap find'

private theorem drain_eq (fuel : Nat) (running : Running key nodes edges degree ready out) :
    drain sort' key' find' (dependentsOf edges') fuel degree (ready.map f) (out.map f) =
      (drain sort key find (dependentsOf edges) fuel degree ready out).map (List.map f) := by
  induction fuel generalizing degree ready out with
  | zero => cases ready <;> simp [drain]
  | succ fuel ih =>
    cases ready with
    | nil => simp [drain]
    | cons n ready =>
      have distinct := nodup_dependentsOf mirrors.proper (key n)
      have distinct' := (mirrors.dependentsOf_perm (key n)).nodup_iff.mpr distinct
      have lower : (release find' (dependentsOf edges' (key n)) (degree, ready.map f, false)).1 =
          (release find (dependentsOf edges (key n)) (degree, ready, false)).1 := by
        funext x
        rw [release_degree distinct', release_degree distinct]
        simp only [(mirrors.dependentsOf_perm (key n)).mem_iff]
      have grew : (release find' (dependentsOf edges' (key n)) (degree, ready.map f, false)).2.2 =
          (release find (dependentsOf edges (key n)) (degree, ready, false)).2.2 := by
        rw [release_grew distinct', release_grew distinct,
          (mirrors.dependentsOf_perm (key n)).any_eq]
      have unsorted := running.step mirrors.proper mirrors.finds (List.Perm.refl _)
      have ready' : (if (release find (dependentsOf edges (key n)) (degree, ready, false)).2.2 then
            sort' (release find' (dependentsOf edges' (key n)) (degree, ready.map f, false)).2.1
          else (release find' (dependentsOf edges' (key n)) (degree, ready.map f, false)).2.1) =
          (if (release find (dependentsOf edges (key n)) (degree, ready, false)).2.2 then
            sort (release find (dependentsOf edges (key n)) (degree, ready, false)).2.1
          else (release find (dependentsOf edges (key n)) (degree, ready, false)).2.1).map f := by
        split
        · exact mirrors.sorts _ _ (List.nodup_append.mp unsorted.keys.distinct).2.1
            (fun m held => unsorted.items m (by simp [held])) (mirrors.release_ready_perm (key n))
        · next quiet =>
          -- Nothing has been released, so both ready lists are what they were.
          rw [release_grew distinct, Bool.false_or, Bool.not_eq_true] at quiet
          have none : (dependentsOf edges (key n)).filter (fun d => degree d = 1) = [] := by
            rw [List.filter_eq_nil_iff]
            exact List.any_eq_false.mp quiet
          have none' : (dependentsOf edges' (key n)).filter (fun d => degree d = 1) = [] := by
            rw [← List.perm_nil, ← none]
            exact (mirrors.dependentsOf_perm (key n)).filter _
          rw [release_ready distinct', release_ready distinct, none, none']
          simp
      rw [List.map_cons, drain, drain, mirrors.keys, lower, grew, ready', ← List.map_singleton,
        ← List.map_append]
      exact ih (running.step mirrors.proper mirrors.finds (resorted_perm mirrors.perm _ _))

/-- The same nodes with the same edges are emitted in the same order. -/
theorem emit_eq :
    emit sort' key' find' nodes' edges' = (emit sort key find nodes edges).map (List.map f) := by
  have part (p : κ → Bool) : sort' (nodes'.filter fun n => p (key' n)) =
      (sort (nodes.filter fun n => p (key n))).map f := by
    apply mirrors.sorts
    · exact mirrors.proper.distinct.sublist (List.filter_sublist.map key)
    · exact fun n held => (List.mem_filter.mp held).1
    · have same : (nodes.filter fun n => p (key n)).map f = (nodes.map f).filter fun n => p
          (key' n) := by
        rw [List.filter_map]
        congr 1
        apply List.filter_congr
        intro n _
        simp [mirrors.keys]
      rw [same]
      exact mirrors.sameNodes.filter _
  have start :=
    running_start mirrors.proper (mirrors.perm (nodes.filter fun n => degreeOf edges (key n) = 0))
  have first := part fun k => degreeOf edges k = 0
  have drained := mirrors.drain_eq nodes.length start
  have length : nodes'.length = nodes.length := by simpa using mirrors.sameNodes.length_eq
  rw [List.map_nil] at drained
  simp only [emit, mirrors.degreeOf_eq, first, length, drained, Option.bind_eq_bind,
    Option.pure_def]
  cases drain sort key find (dependentsOf edges) nodes.length (degreeOf edges)
      (sort (nodes.filter fun n => degreeOf edges (key n) = 0)) [] with
  | none => simp
  | some out =>
    have keys : (out.map f).map key' = out.map key := by simp [mirrors.keys]
    have rest := part fun k => k ∉ out.map key
    simp only [Option.bind_some, Option.map_some, List.length_map, keys, rest]
    split <;> simp

end Mirrors

end Map

end Beads.Lib.Kahn
