import Beads.MoleculeProofs

/-! The two results about the parallel analysis.

The Haxe analysis agrees with the Go analysis in everything but the names of the groups
(`analyze_agrees`).

Members of one group are meant not to block each other. Steps are merged pair by pair, and a
pair that was refused can end up in one group through other steps. Between open steps that
cannot happen, because a blocked step is deeper than its blocker; but the blockers that count
for the depth are the open ones, so a closed step may stand beside the steps that it blocks.
`parallelGroups_apart_iff` says exactly when the groups are sound. -/
namespace Beads.Molecules
open Lib Lib.Graph Relation

/-- The analysis ends, having gone through the classes. -/
theorem Subgraph.analyzeMoleculeParallel_run {g : Subgraph} (acyclic : Acyclic g.Awaits)
    (order : RangeOrder) :
    ∃ classes, g.analyzeMoleculeParallel order = some (g.report (g.infos order) classes) ∧
      Classes g.Linked g.ids classes := by
  have leads (x y : String) :
      y ∈ (order.keys (.blockers x) (g.blockMaps.blockedBy x)).filter g.isOpen ↔ g.Awaits x y := leads_go x y
  obtain ⟨depths, run, levels⟩ := exists_levels acyclic leads false
  have run : g.calculateBlockingDepths order = some depths := run
  exact ⟨_, by rw [analyzeMoleculeParallel, run]; rfl, classes_go acyclic levels⟩

private theorem Haxe.analyze_run {g : Subgraph} (closed : g.Closed) (gated : Haxe.Gated g)
    (acyclic : Acyclic g.Awaits) :
    ∃ classes, Haxe.analyze g = some (g.report (Haxe.infos g) classes) ∧
      Classes g.Linked g.ids classes := by
  obtain ⟨depths, run, levels⟩ := Subgraph.exists_levels acyclic (Haxe.leads_haxe closed gated) true
  have run : Haxe.calculateDepths g = some depths := run
  exact ⟨_, by rw [Haxe.analyze, run]; rfl, Haxe.classes_haxe closed gated acyclic levels⟩

/-- Every blocker is listed before the step that it blocks. -/
def Subgraph.ListedInOrder (g : Subgraph) : Prop :=
  ∀ dep ∈ g.dependencies, (dep.type.Blocking → g.ids.idxOf dep.dependsOnID < g.ids.idxOf dep.issueID) ∧
    (dep.type = .waitsFor → ∀ row ∈ g.dependencies, row.type = .parentChild → row.dependsOnID = dep.dependsOnID →
      g.ids.idxOf row.issueID < g.ids.idxOf dep.issueID)

instance (g : Subgraph) : Decidable g.ListedInOrder :=
  inferInstanceAs (Decidable (∀ dep ∈ g.dependencies, _ ∧ (_ → ∀ row ∈ g.dependencies, _)))

theorem Subgraph.ListedInOrder.acyclic {g : Subgraph} (listed : g.ListedInOrder) :
    Acyclic g.Blocks := by
  apply acyclic_of_lt g.ids.idxOf
  rintro x y ⟨dep, held, rfl, ⟨blocking, rfl⟩ | ⟨waits, ⟨row, inside, child, parent, rfl⟩, -⟩⟩
  · exact (listed dep held).1 blocking
  · exact (listed dep held).2 waits row inside child parent

/-- The order of the list that stands for a map. -/
def inOrder : RangeOrder := ⟨fun _ ids => ids, fun _ _ => .refl _⟩

/-! ## Agreement -/

private theorem stepInfo_congr (step : Step) {blockedBy blockedBy' blocks blocks' : List String}
    (left : blockedBy.Perm blockedBy') (right : blocks.Perm blocks') :
    stepInfo step blockedBy blocks = stepInfo step blockedBy' blocks' := by
  simp only [stepInfo, left.length_eq, sortStrings_congr left, sortStrings_congr right]

/-- What a step gets to know depends on the relation only, not on how its classes are listed. -/
theorem foldl_meet_congr {r : String → String → Prop} {keys : List String}
    {classes classes' : List (List String)}
    (left : Classes r keys classes) (right : Classes r keys classes') {info : ParallelInfo}
    (known : info.stepID ∈ keys)
    (blank : info.canParallel = []) :
    classes.foldl ParallelInfo.meet info = classes'.foldl ParallelInfo.meet info := by
  obtain ⟨c, heldC, inC⟩ := left.covers _ known
  obtain ⟨d, heldD, inD⟩ := right.covers _ known
  have perm : c.Perm d := by
    apply (List.perm_ext_iff_of_nodup (left.distinct c heldC) (right.distinct d heldD)).mpr
    intro t
    constructor
    · intro member
      have listed := left.inside c heldC t member
      exact (right.related d heldD _ inD t listed).mpr
        ((left.related c heldC _ inC t listed).mp member)
    · intro member
      have listed := right.inside d heldD t member
      exact (left.related c heldC _ inC t listed).mpr
        ((right.related d heldD _ inD t listed).mp member)
  rw [ParallelInfo.foldl_meet left.apart heldC inC blank (left.distinct c heldC),
    ParallelInfo.foldl_meet right.apart heldD inD blank (right.distinct d heldD),
    sortStrings_congr (perm.filter _)]

/-- The first step blocks the second and neither is closed. -/
def Subgraph.OpenBlocks (g : Subgraph) (x y : String) : Prop :=
  g.isOpen x = true ∧ g.isOpen y = true ∧ g.Blocks x y

/-- A cycle of waiting steps is one of open steps. -/
theorem Subgraph.acyclic_awaits {g : Subgraph} (acyclic : Acyclic g.OpenBlocks) :
    Acyclic g.Awaits := by
  intro a cycle
  have lift {b : String} (path : TransGen g.Awaits a b) (unclosed : g.isOpen a = true) :
      TransGen (fun x y => g.OpenBlocks y x) a b ∧ g.isOpen b = true := by
    induction path with
    | single step => exact ⟨.single ⟨step.2.2, unclosed, step.2.1⟩, step.2.2⟩
    | tail _ step ih => exact ⟨ih.1.tail ⟨step.2.2, ih.2, step.2.1⟩, step.2.2⟩
  have unclosed : g.isOpen a = true := by
    obtain ⟨b, -, step⟩ := TransGen.tail'_iff.mp cycle
    exact step.2.2
  exact acyclic a (transGen_swap.mp (lift cycle unclosed).1)

/-- Before groups are assigned the infos of the two codes are the same. -/
theorem infos_eq {g : Subgraph} (closed : g.Closed) (gated : Haxe.Gated g) (order : RangeOrder) :
    Haxe.infos g = g.infos order := by
  apply List.map_congr_left
  intro step held
  have known : step.id ∈ g.ids := List.mem_map_of_mem held
  have same (side : Side) {x y : String} (key : side.key x y ∈ g.ids) :
      (Haxe.blockMaps g).Holds side x y ↔ g.blockMaps.Holds side x y := by
    rw [Haxe.blockMaps_holds closed gated, Subgraph.blockMaps_holds, and_iff_right key]
  have blockedBy : ((Haxe.blockMaps g).blockedBy step.id).Perm (g.blockMaps.blockedBy step.id) := by
    apply (List.perm_ext_iff_of_nodup (Haxe.blockMaps_distinct closed _).1 (Subgraph.blockMaps_distinct _).1).mpr
    intro x
    exact same .blockedBy known
  have blocks : ((Haxe.blockMaps g).blocks step.id).Perm (g.blockMaps.blocks step.id) := by
    apply (List.perm_ext_iff_of_nodup (Haxe.blockMaps_distinct closed _).2 (Subgraph.blockMaps_distinct _).2).mpr
    intro y
    exact same .blocks known
  apply stepInfo_congr
  · exact (blockedBy.trans (order.perm _ _).symm).filter _
  · exact blocks.trans (order.perm _ _).symm

private theorem infos_known {g : Subgraph} {order : RangeOrder} {info : ParallelInfo}
    (held : info ∈ (g.infos order).map ParallelInfo.facts) :
    info.stepID ∈ g.ids ∧ info.canParallel = [] := by
  obtain ⟨before, listed, rfl⟩ := List.mem_map.mp held
  obtain ⟨issue, known, rfl⟩ := List.mem_map.mp listed
  exact ⟨List.mem_map_of_mem known, rfl⟩

theorem report_facts (g : Subgraph) (infos : List ParallelInfo) (classes : List (List String)) :
    (g.report infos classes).steps.map ParallelInfo.facts =
      (infos.map ParallelInfo.facts).map fun info => classes.foldl ParallelInfo.meet info :=
  Grouping.foldl_assign_facts ⟨[], infos⟩ classes

private theorem foldl_meet_stepID (info : ParallelInfo) (classes : List (List String)) :
    (classes.foldl ParallelInfo.meet info).stepID = info.stepID := by
  induction classes generalizing info with
  | nil => rfl
  | cons c rest ih =>
    rw [List.foldl_cons, ih, ParallelInfo.meet]
    split <;> rfl

/-- Every step has an info. -/
theorem report_stepID (g : Subgraph) (order : RangeOrder) (classes : List (List String)) :
    (g.report (g.infos order) classes).steps.map ParallelInfo.stepID = g.ids := by
  have facts : ParallelInfo.stepID = ParallelInfo.stepID ∘ ParallelInfo.facts := rfl
  rw [facts, ← List.map_map, report_facts, List.map_map, List.map_map]
  simp only [Subgraph.infos, List.map_map, Subgraph.ids]
  apply List.map_congr_left
  intro issue _
  exact foldl_meet_stepID _ classes

/-- Where the rows are between steps of the molecule, their gates are readable and no open steps
wait for each other in a circle, the Haxe analysis and the Go analysis end and differ at most in
the names of the groups, in whatever order Go goes through its maps. -/
theorem analyze_agrees (g : Subgraph) (order : RangeOrder) (closed : g.Closed)
    (gated : Haxe.Gated g) (acyclic : Acyclic g.OpenBlocks) :
    ∃ haxe go, Haxe.analyze g = some haxe ∧ g.analyzeMoleculeParallel order = some go ∧
      go.steps.map ParallelInfo.stepID = g.ids ∧ haxe.readySteps = go.readySteps ∧
      haxe.steps.map ParallelInfo.facts = go.steps.map ParallelInfo.facts := by
  have waits := Subgraph.acyclic_awaits acyclic
  obtain ⟨classes, run, parts⟩ := Subgraph.analyzeMoleculeParallel_run waits order
  obtain ⟨classes', run', parts'⟩ := Haxe.analyze_run closed gated waits
  rw [infos_eq closed gated order] at run'
  refine ⟨_, _, run', run, report_stepID g order classes, rfl, ?_⟩
  rw [report_facts, report_facts]
  apply List.map_congr_left
  intro info held
  obtain ⟨known, blank⟩ := infos_known held
  exact foldl_meet_congr parts' parts known blank

/-- One step waits for the first of two children, and the second child for the first. -/
def fanout : Subgraph where
  root := ⟨"m", .open⟩
  issues := ⟨[⟨"m", .open⟩, ⟨"m.1", .open⟩, ⟨"m.2", .open⟩, ⟨"m.3", .open⟩], by decide⟩
  dependencies := [⟨"m.1", "m", .parentChild, ""⟩, ⟨"m.2", "m", .parentChild, ""⟩, ⟨"m.2", "m.1", .blocks, ""⟩,
    ⟨"m.3", "m", .waitsFor, "\x7b\"gate\": \"any-children\", \"spawner_id\": \"m\"\x7d"⟩]

private theorem blank_tight : ∀ c ∈ ([] : List Char), Json.isWhitespace c = true :=
  List.forall_mem_nil _

def tight : Json.Gap := ⟨[], blank_tight⟩

def spaced : Json.Gap := ⟨[' '], List.forall_mem_singleton.mpr rfl⟩

/-- The metadata of the waits-for edge, as written. -/
def fanoutMetadata : Json.ObjectText where
  before := tight
  members := [
    ⟨tight, .ofPlain "gate".toList (by decide +kernel), tight, spaced,
      .ofPlain "any-children".toList (by decide +kernel), tight⟩,
    ⟨spaced, .ofPlain "spawner_id".toList (by decide +kernel), tight, spaced,
      .ofPlain "m".toList (by decide +kernel), tight⟩]
  inside := tight
  after := tight

theorem analyze_agrees_fanout :
    fanout.Closed ∧ Haxe.Gated fanout ∧ Acyclic fanout.OpenBlocks ∧
      ∃ haxe go, Haxe.analyze fanout = some haxe ∧
        fanout.analyzeMoleculeParallel inOrder = some go ∧
        go.steps.map ParallelInfo.stepID = fanout.ids ∧ haxe.readySteps = go.readySteps ∧
        haxe.steps.map ParallelInfo.facts = go.steps.map ParallelInfo.facts := by
  have closed : fanout.Closed := by
    rw [Subgraph.Closed]
    decide +kernel
  have gated : Haxe.Gated fanout := by
    intro dep held waits
    have text : dep.metadata.toList = fanoutMetadata.text := by
      revert dep
      decide +kernel
    refine .inr ⟨fanoutMetadata, text, ?_⟩
    decide +kernel
  have acyclic : Acyclic fanout.OpenBlocks := by
    have listed : fanout.ListedInOrder := by decide +kernel
    exact listed.acyclic.mono fun _ _ step => step.2.2
  exact ⟨closed, gated, acyclic, analyze_agrees fanout inOrder closed gated acyclic⟩

/-! ## Soundness of the groups -/

private theorem Grouping.foldl_assign_groups (grouping : Grouping) (classes : List (List String)) :
    (classes.foldl Grouping.assign grouping).groups.map Prod.snd =
      grouping.groups.map Prod.snd ++ classes.filter (1 < ·.length) := by
  induction classes generalizing grouping with
  | nil => simp
  | cons c rest ih =>
    rw [List.foldl_cons, ih, Grouping.assign]
    by_cases large : 1 < c.length
    · simp [large]
    · simp [large]

namespace Subgraph
variable (g : Subgraph)

/-- The first step blocks the second, directly or through steps that are not closed. -/
def BlocksThrough (x y : String) : Prop :=
  ∃ v, ReflTransGen (fun a b => g.Blocks a b ∧ g.isOpen b = true) x v ∧ g.Blocks v y

/-- As many open steps are stacked up before both steps. -/
def SameDepth (x y : String) : Prop := ∃ n, Rank g.Awaits x n ∧ Rank g.Awaits y n

variable {g} {x y : String}

private theorem BlocksThrough.transGen (blocks : g.BlocksThrough x y) : TransGen g.Blocks x y := by
  obtain ⟨v, path, last⟩ := blocks
  exact TransGen.tail' (ReflTransGen.mono (fun _ _ step => step.1) _ _ path) last

private theorem acyclic_awaits_of_blocks (acyclic : Acyclic g.Blocks) : Acyclic g.Awaits := by
  intro a cycle
  exact acyclic a (transGen_swap.mp (TransGen.mono (fun _ _ step => step.2.1) _ _ cycle))

/-- A step that an open step blocks is deeper. -/
theorem BlocksThrough.transGen_awaits (blocks : g.BlocksThrough x y) (unclosed : g.isOpen x = true)
    (known : y ∈ g.ids) :
    TransGen g.Awaits y x := by
  obtain ⟨v, path, last⟩ := blocks
  have back {w : String} (path : ReflTransGen (fun a b => g.Blocks a b ∧ g.isOpen b = true) x w) :
      g.isOpen w = true ∧ ReflTransGen g.Awaits w x := by
    induction path with
    | refl => exact ⟨unclosed, .refl⟩
    | tail _ step ih => exact ⟨step.2, .head ⟨mem_ids_of_isOpen step.2, step.1, ih.1⟩ ih.2⟩
  obtain ⟨unclosed', path⟩ := back path
  exact TransGen.head' ⟨known, last, unclosed'⟩ path

private theorem isOpen_or_isClosed (known : x ∈ g.ids) :
    g.isOpen x = true ∨ g.isClosed x = true := by
  obtain ⟨issue, held, rfl⟩ := List.mem_map.mp known
  have found : g.issues.find? issue.id = some issue := Table.find?_eq_some.mpr ⟨held, rfl⟩
  by_cases closed : issue.status = .closed
  · exact .inr (by simp [isClosed, found, closed])
  · exact .inl (by simp [isOpen, found, closed])

/-- In a molecule without circular blocking, no two members of a parallel group block each other
exactly when every closed step that blocks a step of its own depth does so directly, and no
series of steps of that depth, each compatible with the next, links the two. -/
theorem parallelGroups_apart_iff (g : Subgraph) (order : RangeOrder) (acyclic : Acyclic g.Blocks) :
    ∃ analysis, g.analyzeMoleculeParallel order = some analysis ∧
      ((∀ group ∈ analysis.parallelGroups, ∀ x ∈ group.2, ∀ y ∈ group.2, ¬ g.BlocksThrough x y) ↔
        ∀ x ∈ g.ids, ∀ y ∈ g.ids, g.isClosed x = true → g.SameDepth x y → g.BlocksThrough x y →
          g.Blocks x y ∧ ¬ g.Linked x y) := by
  have waits := acyclic_awaits_of_blocks acyclic
  obtain ⟨classes, run, parts⟩ := analyzeMoleculeParallel_run waits order
  refine ⟨_, run, ?_⟩
  have groups : ((g.report (g.infos order) classes).parallelGroups).map Prod.snd = classes.filter
      (1 < ·.length) :=
    Grouping.foldl_assign_groups ⟨[], g.infos order⟩ classes
  have ranked {x : String} (known : x ∈ g.ids) : ∃ n, Rank g.Awaits x n := by
    have long : ¬ Chain g.Awaits g.ids.length x := fun chain =>
      Nat.lt_irrefl _ (chain.lt_length waits (fun _ _ _ step => mem_ids_of_isOpen step.2.2) known)
    exact Rank.of_bounded long
  constructor
  · intro sound x knownX y knownY _ depth blocks
    have ne : x ≠ y := by
      rintro rfl
      exact acyclic x blocks.transGen
    have apart : ¬ g.Linked x y := by
      intro linked
      obtain ⟨c, held, inside⟩ := parts.covers x knownX
      have inside' := (parts.related c held x inside y knownY).mpr linked
      have large : 1 < c.length := by
        by_contra small
        have some := List.length_pos_of_mem inside
        obtain ⟨s, rfl⟩ := List.length_eq_one_iff.mp (show c.length = 1 by omega)
        rw [List.mem_singleton] at inside inside'
        exact ne (inside.trans inside'.symm)
      have listed : c ∈ classes.filter (1 < ·.length) := by simpa using ⟨held, large⟩
      rw [← groups] at listed
      obtain ⟨group, member, rfl⟩ := List.mem_map.mp listed
      exact sound group member x inside y inside' blocks
    refine ⟨?_, apart⟩
    by_contra direct
    have free : ¬ g.Blocks y x := fun back => acyclic x (blocks.transGen.tail back)
    exact apart (.rel x y ⟨knownX, knownY, depth, direct, free⟩)
  · intro condition group member x inX y inY blocks
    have listed : group.2 ∈ classes.filter (1 < ·.length) := by
      rw [← groups]
      exact List.mem_map_of_mem member
    obtain ⟨held, -⟩ := List.mem_filter.mp listed
    have knownX := parts.inside _ held x inX
    have knownY := parts.inside _ held y inY
    have linked := (parts.related _ held x inX y knownY).mp inY
    obtain ⟨n, rank⟩ := ranked knownX
    have rank' := (linked.rank_iff n).mp rank
    rcases isOpen_or_isClosed knownX with unclosed | closed
    · obtain ⟨m, lower, less⟩ := rank'.exists_of_transGen (blocks.transGen_awaits unclosed knownY)
      have equal := lower.unique rank
      omega
    · exact (condition x knownX y knownY closed ⟨n, rank, rank'⟩ blocks).2 linked

theorem parallelGroups_apart_iff_fanout :
    Acyclic fanout.Blocks ∧ ∃ analysis, fanout.analyzeMoleculeParallel inOrder = some analysis ∧
      ((∀ group ∈ analysis.parallelGroups, ∀ x ∈ group.2, ∀ y ∈ group.2, ¬ fanout.BlocksThrough x y) ↔
        ∀ x ∈ fanout.ids, ∀ y ∈ fanout.ids, fanout.isClosed x = true → fanout.SameDepth x y →
          fanout.BlocksThrough x y → fanout.Blocks x y ∧ ¬ fanout.Linked x y) := by
  have listed : fanout.ListedInOrder := by decide +kernel
  exact ⟨listed.acyclic, parallelGroups_apart_iff fanout inOrder listed.acyclic⟩

/-- The root of a molecule, a closed step and the step that it used to block. -/
def finishedSetup : Subgraph where
  root := ⟨"m", .open⟩
  issues := ⟨[⟨"m", .open⟩, ⟨"m.1", .closed⟩, ⟨"m.2", .open⟩], by decide⟩
  dependencies := [⟨"m.2", "m.1", .blocks, ""⟩]

/-- Both steps are compatible with the root, and so all three are one group. -/
theorem finishedSetup_grouped :
    Acyclic finishedSetup.Blocks ∧
      ∃ analysis, finishedSetup.analyzeMoleculeParallel inOrder = some analysis ∧
      ∃ group ∈ analysis.parallelGroups, "m.1" ∈ group.2 ∧ "m.2" ∈ group.2 ∧
        finishedSetup.BlocksThrough "m.1" "m.2" := by
  have listed : finishedSetup.ListedInOrder := by decide +kernel
  have found : (finishedSetup.analyzeMoleculeParallel inOrder).map (·.parallelGroups) =
      some [("group-1", ["m.2", "m.1", "m"])] := by decide +kernel
  obtain ⟨analysis, run, groups⟩ := Option.map_eq_some_iff.mp found
  refine ⟨listed.acyclic, analysis, run, ("group-1", ["m.2", "m.1", "m"]), by simp [groups],
    by simp, by simp, ?_⟩
  exact ⟨"m.1", .refl, ⟨"m.2", "m.1", .blocks, ""⟩, by simp [finishedSetup], rfl,
    .inl ⟨.inl rfl, rfl⟩⟩

end Subgraph

end Beads.Molecules
