import Mathlib.Data.Set.Card
import Beads.Lib.Graph

/-! A derived flag that nodes inherit along a parent relation.

A node is *due* when it is live and has a reason of its own or a flagged
parent. A flag set is correct when it flags exactly the due nodes. Stores keep
such a set up to date with two kinds of statement, each of which reads the set
as it was when the statement started: `mark` adds the due nodes of a batch and
`unmark` drops the nodes of a batch that are not due.

1. With an acyclic live part of the parent relation there is one correct set,
   `Blocked`, and one set that is correct on a scope given the flags outside.
2. Passes of marks and unmarks over the scope reach that set, provided that no
   circle of the parent relation stays clear of it (`loose_pass_lt`), and a pass
   over a set without unsupported flags only adds flags (`markPass`). Above a
   circle it is enough that the flags can only move in one direction
   (`unrest_pass_lt`).
3. `Unaffected` says when a change of the system cannot reach a node; a set that
   was correct before the change, and is correct on a scope outside of which
   every node is unaffected, is correct (`correct_of_scope`). -/
namespace Beads.Lib.Propagation
open Beads.Lib.Graph Relation

/-- What the flag of a node depends on. -/
structure FlagRules (N : Type*) where
  /-- The node can carry the flag at all. -/
  live : N → Prop
  /-- The node has a reason that does not depend on another node's flag. -/
  direct : N → Prop
  /-- The node inherits the flag of these nodes. -/
  parent : N → N → Prop
  live_finite : {n | live n}.Finite

variable {N : Type*} {S T : FlagRules N} {F G : Set N} {L B : Set N} {n m : N}

namespace FlagRules

/-- The node should carry the flag, given the flags of the others. -/
def Due (S : FlagRules N) (F : Set N) (n : N) : Prop :=
  S.live n ∧ (S.direct n ∨ ∃ m ∈ F, S.parent n m)

/-- Every node of the scope carries the flag exactly when it is due. -/
def CorrectOn (S : FlagRules N) (L F : Set N) : Prop := ∀ n ∈ L, n ∈ F ↔ S.Due F n

/-- Every node carries the flag exactly when it is due. -/
def Correct (S : FlagRules N) (F : Set N) : Prop := ∀ n, n ∈ F ↔ S.Due F n

/-- Every flag is due. -/
def Supported (S : FlagRules N) (F : Set N) : Prop := ∀ n ∈ F, S.Due F n

/-- The part of the parent relation that a flag can travel along. -/
def Upward (S : FlagRules N) (n m : N) : Prop := S.live n ∧ S.parent n m

/-- What the flag is for: the node, or an ancestor reached through live nodes,
has a reason of its own. -/
inductive Blocked (S : FlagRules N) : N → Prop where
  | direct {a : N} (live : S.live a) (reason : S.direct a) : Blocked S a
  | inherited {a b : N} (live : S.live a) (edge : S.parent a b) (above : Blocked S b) : Blocked S a

theorem Due.mono (due : S.Due F n) (sub : F ⊆ G) : S.Due G n :=
  ⟨due.1, due.2.imp_right fun ⟨m, held, edge⟩ => ⟨m, sub held, edge⟩⟩

private theorem due_congr (same : ∀ m, S.Upward n m → (m ∈ F ↔ m ∈ G)) : S.Due F n ↔ S.Due G n := by
  constructor
  · rintro ⟨live, reason | ⟨m, held, edge⟩⟩
    · exact ⟨live, Or.inl reason⟩
    · exact ⟨live, Or.inr ⟨m, (same m ⟨live, edge⟩).mp held, edge⟩⟩
  · rintro ⟨live, reason | ⟨m, held, edge⟩⟩
    · exact ⟨live, Or.inl reason⟩
    · exact ⟨live, Or.inr ⟨m, (same m ⟨live, edge⟩).mpr held, edge⟩⟩

private theorem correct_iff_correctOn_univ : S.Correct F ↔ S.CorrectOn Set.univ F :=
  ⟨fun correct n _ => correct n, fun correct n => correct n trivial⟩

theorem blocked_correct (S : FlagRules N) : S.Correct {n | S.Blocked n} := by
  intro n
  constructor
  · intro blocked
    cases blocked with
    | direct live reason => exact ⟨live, Or.inl reason⟩
    | inherited live edge above => exact ⟨live, Or.inr ⟨_, above, edge⟩⟩
  · rintro ⟨live, reason | ⟨m, above, edge⟩⟩
    · exact .direct live reason
    · exact .inherited live edge above

/-- Two sets that agree outside a scope and are correct on it are equal. -/
theorem CorrectOn.unique (acyclic : Acyclic S.Upward) (first : S.CorrectOn L F)
    (second : S.CorrectOn L G) (outside : ∀ n ∉ L, n ∈ F ↔ n ∈ G) : F = G := by
  by_contra differ
  -- A last node on which they differ has parents on which they agree.
  have finite : {n | ¬ (n ∈ F ↔ n ∈ G)}.Finite := by
    refine S.live_finite.subset fun n bad => ?_
    have inside : n ∈ L := by_contra fun out => bad (outside n out)
    have either : n ∈ F ∨ n ∈ G := by
      by_contra neither
      rw [not_or] at neither
      exact bad ⟨fun held => absurd held neither.1, fun held => absurd held neither.2⟩
    rcases either with held | held
    · exact ((first n inside).mp held).1
    · exact ((second n inside).mp held).1
  have nonempty : {n | ¬ (n ∈ F ↔ n ∈ G)}.Nonempty := by
    by_contra none
    exact differ (Set.ext fun n => by_contra fun bad => none ⟨n, bad⟩)
  obtain ⟨last, bad, agree⟩ := acyclic.exists_last finite nonempty
  have inside : last ∈ L := by_contra fun out => bad (outside last out)
  have same : S.Due F last ↔ S.Due G last :=
    due_congr fun m edge => by_contra fun differs => agree m differs edge
  exact bad ((first last inside).trans (same.trans (second last inside).symm))

/-- The correct set is what the flag is for. -/
theorem Correct.eq_blocked (acyclic : Acyclic S.Upward) (correct : S.Correct F) :
    F = {n | S.Blocked n} :=
  CorrectOn.unique acyclic (correct_iff_correctOn_univ.mp correct)
    (correct_iff_correctOn_univ.mp S.blocked_correct) fun _ out => absurd trivial out

/-! ## Statements -/

/-- Flag the due nodes of the batch. -/
def mark (S : FlagRules N) (B F : Set N) : Set N := F ∪ {n | n ∈ B ∧ S.Due F n}

/-- Drop the flags of the batch that are not due. -/
def unmark (S : FlagRules N) (B F : Set N) : Set N := {n | n ∈ F ∧ (n ∈ B → S.Due F n)}

/-- A full pass: every batch is marked and then unmarked. -/
def pass (S : FlagRules N) (batches : List (Set N)) (F : Set N) : Set N :=
  batches.foldl (fun F B => S.unmark B (S.mark B F)) F

/-- A pass that only marks. -/
def markPass (S : FlagRules N) (batches : List (Set N)) (F : Set N) : Set N :=
  batches.foldl (fun F B => S.mark B F) F

theorem mem_mark : n ∈ S.mark B F ↔ n ∈ F ∨ (n ∈ B ∧ S.Due F n) := Iff.rfl

theorem mem_unmark : n ∈ S.unmark B F ↔ n ∈ F ∧ (n ∈ B → S.Due F n) := Iff.rfl

theorem subset_mark : F ⊆ S.mark B F := fun _ held => Or.inl held

theorem mem_pass_outside {batches : List (Set N)} (out : ∀ B ∈ batches, n ∉ B) :
    n ∈ S.pass batches F ↔ n ∈ F := by
  induction batches generalizing F with
  | nil => exact Iff.rfl
  | cons B rest ih =>
    have here := out B List.mem_cons_self
    refine (ih fun C held => out C (List.mem_cons_of_mem B held)).trans ?_
    simp only [mem_unmark, mem_mark, here, false_and, or_false, false_implies, and_true]

theorem mem_markPass_outside {batches : List (Set N)} (out : ∀ B ∈ batches, n ∉ B) :
    n ∈ S.markPass batches F ↔ n ∈ F := by
  induction batches generalizing F with
  | nil => exact Iff.rfl
  | cons B rest ih =>
    have here := out B List.mem_cons_self
    refine (ih fun C held => out C (List.mem_cons_of_mem B held)).trans ?_
    simp only [mem_mark, here, false_and, or_false]

/-- The set a scope settles to, given the flags outside of it. -/
inductive Settled (S : FlagRules N) (L F : Set N) : N → Prop where
  | outside {a : N} (out : a ∉ L) (held : a ∈ F) : Settled S L F a
  | direct {a : N} (inside : a ∈ L) (live : S.live a) (reason : S.direct a) : Settled S L F a
  | inherited {a b : N} (inside : a ∈ L) (live : S.live a) (edge : S.parent a b)
      (above : Settled S L F b) : Settled S L F a

theorem settled_outside (out : n ∉ L) : S.Settled L F n ↔ n ∈ F := by
  constructor
  · intro settled
    cases settled with
    | outside _ held => exact held
    | direct inside => exact absurd inside out
    | inherited inside => exact absurd inside out
  · exact .outside out

theorem settled_correctOn : S.CorrectOn L {n | S.Settled L F n} := by
  intro n inside
  constructor
  · intro settled
    cases settled with
    | outside out => exact absurd inside out
    | direct _ live reason => exact ⟨live, Or.inl reason⟩
    | inherited _ live edge above => exact ⟨live, Or.inr ⟨_, above, edge⟩⟩
  · rintro ⟨live, reason | ⟨m, above, edge⟩⟩
    · exact .direct inside live reason
    · exact .inherited inside live edge above

/-! ## Passes settle the scope -/

/-- A parent relation between nodes of the scope that neither settle with the flag. -/
def Open (S : FlagRules N) (L G : Set N) (n m : N) : Prop :=
  (n ∈ L ∧ n ∉ G) ∧ (m ∈ L ∧ m ∉ G) ∧ S.Upward n m

/-- The node is where it settles, and whatever it takes for that is as well: a
flagged node has a reason or a firm flagged parent, a node without the flag has
firm parents only. Nodes outside the scope do not move. -/
inductive Firm (S : FlagRules N) (L G F : Set N) : N → Prop where
  | outside {a : N} (out : a ∉ L) (same : a ∈ F ↔ a ∈ G) : Firm S L G F a
  | direct {a : N} (live : S.live a) (reason : S.direct a) (held : a ∈ F) (due : a ∈ G) : Firm S L G F a
  | inherited {a b : N} (live : S.live a) (edge : S.parent a b) (held : a ∈ F) (due : a ∈ G)
      (flagged : b ∈ G) (above : Firm S L G F b) : Firm S L G F a
  | free {a : N} (clear : a ∉ F) (settles : a ∉ G) (above : ∀ m, S.Upward a m → Firm S L G F m) :
      Firm S L G F a

theorem Firm.mem_iff (firm : S.Firm L G F n) : n ∈ F ↔ n ∈ G := by
  cases firm with
  | outside out same => exact same
  | direct live reason held due => exact iff_of_true held due
  | inherited live edge held due => exact iff_of_true held due
  | free clear settles => exact iff_of_false clear settles

/-- What a node needs to become firm in a pass. -/
def Ready (S : FlagRules N) (L G F : Set N) (n : N) : Prop :=
  (n ∈ G ∧ S.live n ∧ (S.direct n ∨ ∃ m ∈ G, S.parent n m ∧ S.Firm L G F m)) ∨
    (n ∉ G ∧ ¬ (S.live n ∧ S.direct n) ∧ ∀ m, S.Upward n m → m ∉ G ∧ S.Firm L G F m)

section Settling
variable (settled : S.CorrectOn L G)
include settled

/-- No statement on nodes of the scope moves a firm node. -/
theorem Firm.mark (sub : B ⊆ L) (firm : S.Firm L G F n) : S.Firm L G (S.mark B F) n := by
  induction firm with
  | @outside a out same =>
    refine .outside out (Iff.trans ?_ same)
    exact ⟨fun held => held.resolve_right fun batch => out (sub batch.1), Or.inl⟩
  | direct live reason held due => exact .direct live reason (Or.inl held) due
  | inherited live edge held due flagged _ ih =>
    exact .inherited live edge (Or.inl held) due flagged ih
  | @free a clear settles above ih =>
    refine .free ?_ settles ih
    rintro (held | ⟨batch, live, reason | ⟨m, held, edge⟩⟩)
    · exact clear held
    · exact settles ((settled a (sub batch)).mpr ⟨live, Or.inl reason⟩)
    · have flagged := (above m ⟨live, edge⟩).mem_iff.mp held
      exact settles ((settled a (sub batch)).mpr ⟨live, Or.inr ⟨m, flagged, edge⟩⟩)

omit settled in
theorem Firm.unmark (sub : B ⊆ L) (firm : S.Firm L G F n) : S.Firm L G (S.unmark B F) n := by
  induction firm with
  | @outside a out same =>
    refine .outside out (Iff.trans ?_ same)
    exact ⟨fun held => held.1, fun held => ⟨held, fun batch => absurd (sub batch) out⟩⟩
  | direct live reason held due =>
    exact .direct live reason ⟨held, fun _ => ⟨live, Or.inl reason⟩⟩ due
  | @inherited a b live edge held due flagged above ih =>
    refine .inherited live edge ⟨held, fun _ => ⟨live, Or.inr ⟨b, ?_, edge⟩⟩⟩ due flagged ih
    exact above.mem_iff.mpr flagged
  | free clear settles _ ih => exact .free (fun held => clear held.1) settles ih

theorem Ready.mark (sub : B ⊆ L) (ready : S.Ready L G F n) : S.Ready L G (S.mark B F) n := by
  rcases ready with ⟨due, live, reason⟩ | ⟨settles, none, above⟩
  · exact Or.inl ⟨due, live, reason.imp_right fun ⟨m, flagged, edge, firm⟩ =>
      ⟨m, flagged, edge, firm.mark settled sub⟩⟩
  · exact Or.inr ⟨settles, none,
      fun m edge => ⟨(above m edge).1, (above m edge).2.mark settled sub⟩⟩

omit settled in
theorem Ready.unmark (sub : B ⊆ L) (ready : S.Ready L G F n) : S.Ready L G (S.unmark B F) n := by
  rcases ready with ⟨due, live, reason⟩ | ⟨settles, none, above⟩
  · exact Or.inl ⟨due, live, reason.imp_right fun ⟨m, flagged, edge, firm⟩ =>
      ⟨m, flagged, edge, firm.unmark sub⟩⟩
  · exact Or.inr ⟨settles, none, fun m edge => ⟨(above m edge).1, (above m edge).2.unmark sub⟩⟩

omit settled in
/-- A ready node is due exactly when it settles with the flag. -/
theorem Ready.due_iff (ready : S.Ready L G F n) : S.Due F n ↔ n ∈ G := by
  rcases ready with ⟨due, live, reason⟩ | ⟨settles, none, above⟩
  · refine iff_of_true ⟨live, reason.imp_right fun ⟨m, flagged, edge, firm⟩ => ?_⟩ due
    exact ⟨m, firm.mem_iff.mpr flagged, edge⟩
  · refine iff_of_false ?_ settles
    rintro ⟨live, reason | ⟨m, held, edge⟩⟩
    · exact none ⟨live, reason⟩
    · obtain ⟨clear, firm⟩ := above m ⟨live, edge⟩
      exact clear (firm.mem_iff.mp held)

omit settled in
private theorem Ready.firm (ready : S.Ready L G F n) (same : n ∈ F ↔ n ∈ G) : S.Firm L G F n := by
  rcases ready with ⟨due, live, reason | ⟨m, flagged, edge, firm⟩⟩ | ⟨settles, none, above⟩
  · exact .direct live reason (same.mpr due) due
  · exact .inherited live edge (same.mpr due) due flagged firm
  · exact .free (fun held => settles (same.mp held)) settles fun m edge => (above m edge).2

/-- The statements of its batch make a ready node firm. -/
theorem Ready.batch (sub : B ⊆ L) (inside : n ∈ B) (ready : S.Ready L G F n) :
    S.Firm L G (S.unmark B (S.mark B F)) n := by
  have marked := ready.mark settled sub
  refine (marked.unmark sub).firm ?_
  rw [mem_unmark, mem_mark, ← ready.due_iff]
  constructor
  · exact fun held => (ready.due_iff.trans marked.due_iff.symm).mpr (held.2 inside)
  · exact fun due => ⟨Or.inr ⟨inside, due⟩,
      fun _ => (ready.due_iff.trans marked.due_iff.symm).mp due⟩

theorem Firm.pass (batches : List (Set N)) (sub : ∀ B ∈ batches, B ⊆ L) (firm : S.Firm L G F n) :
    S.Firm L G (S.pass batches F) n := by
  induction batches generalizing F with
  | nil => exact firm
  | cons B rest ih =>
    have inside := sub B List.mem_cons_self
    exact ih (fun C held => sub C (List.mem_cons_of_mem B held))
      ((firm.mark settled inside).unmark inside)

theorem Ready.pass (batches : List (Set N)) (sub : ∀ B ∈ batches, B ⊆ L)
    (covered : ∃ B ∈ batches, n ∈ B) (ready : S.Ready L G F n) :
    S.Firm L G (S.pass batches F) n := by
  induction batches generalizing F with
  | nil => obtain ⟨B, none, -⟩ := covered; cases none
  | cons B rest ih =>
    have inside := sub B List.mem_cons_self
    have below : ∀ C ∈ rest, C ⊆ L := fun C held => sub C (List.mem_cons_of_mem B held)
    by_cases here : n ∈ B
    · exact Firm.pass settled rest below (ready.batch settled inside here)
    · obtain ⟨C, held, batch⟩ := covered
      refine ih below ⟨C, ?_, batch⟩ ((ready.mark settled inside).unmark inside)
      rcases List.mem_cons.mp held with rfl | held
      · exact absurd batch here
      · exact held

end Settling

/-- The nodes of the scope that a pass may still have to move. -/
def loose (S : FlagRules N) (L G F : Set N) : Set N := {n | n ∈ L ∧ ¬ S.Firm L G F n}

private theorem eq_of_loose_empty (outside : ∀ n ∉ L, n ∈ F ↔ n ∈ G) (none : S.loose L G F = ∅) :
    F = G := by
  ext n
  by_cases inside : n ∈ L
  · have firm : S.Firm L G F n := by_contra fun bad => by
      have : n ∈ S.loose L G F := ⟨inside, bad⟩
      rw [none] at this
      exact this
    exact firm.mem_iff
  · exact outside n inside

/-- A node that settles with the flag and is still loose is ready, or one it
inherits from is. -/
theorem Settled.exists_ready {F₀ : Set N} (outside : ∀ n ∉ L, n ∈ F ↔ n ∈ {n | S.Settled L F₀ n})
    (flagged : S.Settled L F₀ n) (bad : n ∈ S.loose L {n | S.Settled L F₀ n} F) :
    ∃ m ∈ S.loose L {n | S.Settled L F₀ n} F, S.Ready L {n | S.Settled L F₀ n} F m := by
  induction flagged with
  | outside out => exact absurd bad.1 out
  | direct inside live reason =>
    exact ⟨_, bad, Or.inl ⟨.direct inside live reason, live, Or.inl reason⟩⟩
  | @inherited a b inside live edge above ih =>
    by_cases firm : S.Firm L {n | S.Settled L F₀ n} F b
    · exact ⟨a, bad, Or.inl ⟨.inherited inside live edge above, live, Or.inr ⟨b, above, edge, firm⟩⟩⟩
    · refine ih ⟨by_contra fun out => firm (.outside out (outside b out)), firm⟩

/-- While a node is loose, one is ready, unless the others can inherit in circles. -/
theorem exists_ready {F₀ : Set N} (acyclic : Acyclic (S.Open L {n | S.Settled L F₀ n}))
    (finite : L.Finite) (outside : ∀ n ∉ L, n ∈ F ↔ n ∈ {n | S.Settled L F₀ n})
    (nonempty : (S.loose L {n | S.Settled L F₀ n} F).Nonempty) :
    ∃ m ∈ S.loose L {n | S.Settled L F₀ n} F, S.Ready L {n | S.Settled L F₀ n} F m := by
  by_cases flagged : ∃ n ∈ S.loose L {n | S.Settled L F₀ n} F, S.Settled L F₀ n
  · obtain ⟨n, bad, flagged⟩ := flagged
    exact flagged.exists_ready outside bad
  · have clear : ∀ n ∈ S.loose L {n | S.Settled L F₀ n} F, ¬ S.Settled L F₀ n := fun n bad held =>
      flagged ⟨n, bad, held⟩
    obtain ⟨last, bad, above⟩ := acyclic.exists_last (finite.subset fun n bad => bad.1) nonempty
    refine ⟨last, bad, Or.inr ⟨clear last bad, fun ⟨live, reason⟩ => ?_, fun m edge => ?_⟩⟩
    · exact clear last bad (.direct bad.1 live reason)
    · have settles : ¬ S.Settled L F₀ m := fun held =>
        clear last bad (.inherited bad.1 edge.1 edge.2 held)
      refine ⟨settles, ?_⟩
      by_cases inside : m ∈ L
      · by_contra loose
        exact above m ⟨inside, loose⟩ ⟨⟨bad.1, clear last bad⟩, ⟨inside, settles⟩, edge⟩
      · exact .outside inside (outside m inside)

/-- Every pass over the whole scope makes at least one more node firm. -/
theorem loose_pass_lt {F₀ : Set N} (acyclic : Acyclic (S.Open L {n | S.Settled L F₀ n}))
    (finite : L.Finite) (batches : List (Set N)) (sub : ∀ B ∈ batches, B ⊆ L)
    (covered : ∀ n ∈ L, ∃ B ∈ batches, n ∈ B)
    (outside : ∀ n ∉ L, n ∈ F ↔ n ∈ {n | S.Settled L F₀ n})
    (nonempty : (S.loose L {n | S.Settled L F₀ n} F).Nonempty) :
    (S.loose L {n | S.Settled L F₀ n} (S.pass batches F)).ncard < (S.loose L {n | S.Settled L F₀ n} F).ncard := by
  have settled : S.CorrectOn L {n | S.Settled L F₀ n} := settled_correctOn
  obtain ⟨ready, bad, becomes⟩ := exists_ready acyclic finite outside nonempty
  refine Set.ncard_lt_ncard ⟨fun n still => ⟨still.1, fun firm => ?_⟩, fun all => ?_⟩
    (finite.subset fun n bad => bad.1)
  · exact still.2 (firm.pass settled batches sub)
  · exact (all bad).2 (becomes.pass settled batches sub (covered ready bad.1))

/-! ## Quiet statements and monotone passes -/

/-- No statement of the pass would move a node. -/
def Quiet (S : FlagRules N) (batches : List (Set N)) (F : Set N) : Prop :=
  ∀ B ∈ batches, S.mark B F = F ∧ S.unmark B F = F

theorem mark_eq_self_iff : S.mark B F = F ↔ ∀ n ∈ B, S.Due F n → n ∈ F := by
  constructor
  · intro same n batch due
    rw [← same]
    exact Or.inr ⟨batch, due⟩
  · intro already
    ext n
    rw [mem_mark]
    exact ⟨fun held => held.elim id fun ⟨batch, due⟩ => already n batch due, Or.inl⟩

theorem unmark_eq_self_iff : S.unmark B F = F ↔ ∀ n ∈ B, n ∈ F → S.Due F n := by
  constructor
  · intro same n batch held
    rw [← same] at held
    exact held.2 batch
  · intro due
    ext n
    rw [mem_unmark]
    exact ⟨And.left, fun held => ⟨held, fun batch => due n batch held⟩⟩

/-- A pass that moves nothing leaves the scope correct. -/
theorem Quiet.correctOn (quiet : S.Quiet batches F) (covered : ∀ n ∈ L, ∃ B ∈ batches, n ∈ B) :
    S.CorrectOn L F := by
  intro n inside
  obtain ⟨B, held, batch⟩ := covered n inside
  exact ⟨unmark_eq_self_iff.mp (quiet B held).2 n batch,
    mark_eq_self_iff.mp (quiet B held).1 n batch⟩

theorem CorrectOn.quiet (correct : S.CorrectOn L F) (sub : ∀ B ∈ batches, B ⊆ L) :
    S.Quiet batches F := by
  intro B held
  exact ⟨mark_eq_self_iff.mpr fun n batch => (correct n (sub B held batch)).mpr,
    unmark_eq_self_iff.mpr fun n batch => (correct n (sub B held batch)).mp⟩

/-- Marking never takes the support of a flag away. -/
theorem Supported.mark (supported : S.Supported F) : S.Supported (S.mark B F) := by
  intro n held
  rcases held with held | ⟨-, due⟩
  · exact (supported n held).mono subset_mark
  · exact due.mono subset_mark

theorem Supported.unmark_eq (supported : S.Supported F) : S.unmark B F = F :=
  unmark_eq_self_iff.mpr fun n _ held => supported n held

/-- Without unsupported flags a full pass is a mark pass. -/
theorem Supported.pass_eq_markPass (supported : S.Supported F) (batches : List (Set N)) :
    S.pass batches F = S.markPass batches F := by
  induction batches generalizing F with
  | nil => rfl
  | cons B rest ih =>
    simp only [pass, markPass, List.foldl_cons, supported.mark.unmark_eq]
    exact ih supported.mark

theorem Supported.markPass (supported : S.Supported F) (batches : List (Set N)) :
    S.Supported (S.markPass batches F) := by
  induction batches generalizing F with
  | nil => exact supported
  | cons B rest ih => exact ih supported.mark

theorem subset_markPass (batches : List (Set N)) : F ⊆ S.markPass batches F := by
  induction batches generalizing F with
  | nil => exact fun _ held => held
  | cons B rest ih => exact subset_mark.trans ih

/-- A mark pass that ends where it started found no due node to mark. -/
theorem quiet_of_markPass_eq (batches : List (Set N)) (same : S.markPass batches F = F) :
    ∀ B ∈ batches, S.mark B F = F := by
  induction batches with
  | nil => intro B none; cases none
  | cons C rest ih =>
    have first : S.mark C F = F :=
      Set.Subset.antisymm ((subset_markPass rest).trans (le_of_eq same)) subset_mark
    have below : S.markPass rest F = F := by
      simpa only [FlagRules.markPass, List.foldl_cons, first] using same
    intro B held
    rcases List.mem_cons.mp held with rfl | held
    · exact first
    · exact ih below B held

/-! ## Regions

Rows without a ground of their own that inherit from one another alone. Where no
flag of a region is superfluous, or none is missing, its flags move in one
direction, circles or not. -/

/-- The nodes of the region have no reason of their own, and their parents are in
the region or are outside the scope and have no flag. -/
structure Region (S : FlagRules N) (L F R : Set N) : Prop where
  inside : R ⊆ L
  bare : ∀ n ∈ R, ¬ (S.live n ∧ S.direct n)
  above : ∀ n ∈ R, ∀ m, S.Upward n m → m ∈ R ∨ (m ∉ L ∧ m ∉ F)

variable {F₀ R P Q : Set N} {batches : List (Set N)}

section Region
variable (region : S.Region L F₀ R) (outside : ∀ n ∉ L, n ∈ F ↔ n ∈ F₀)
include region outside

theorem Region.due_iff (held : n ∈ R) : S.Due F n ↔ ∃ m ∈ F, m ∈ R ∧ S.Upward n m := by
  constructor
  · rintro ⟨live, reason | ⟨m, flagged, edge⟩⟩
    · exact absurd ⟨live, reason⟩ (region.bare n held)
    · rcases region.above n held m ⟨live, edge⟩ with within | ⟨out, clear⟩
      · exact ⟨m, flagged, within, live, edge⟩
      · exact absurd ((outside m out).mp flagged) clear
  · rintro ⟨m, flagged, -, live, edge⟩
    exact ⟨live, Or.inr ⟨m, flagged, edge⟩⟩

omit region in
theorem outside_step (sub : B ⊆ L) : ∀ n ∉ L, n ∈ S.unmark B (S.mark B F) ↔ n ∈ F₀ := by
  intro n out
  have free : n ∉ B := fun batch => out (sub batch)
  simp only [mem_unmark, mem_mark, free, false_and, or_false, false_implies, and_true,
    outside n out]

omit region in
theorem outside_mark (sub : B ⊆ L) : ∀ n ∉ L, n ∈ S.mark B F ↔ n ∈ F₀ := by
  intro n out
  have free : n ∉ B := fun batch => out (sub batch)
  simp only [mem_mark, free, false_and, or_false, outside n out]

/-- Where no flag is superfluous, the statements of a batch add flags. -/
theorem Region.rising_step (sub : B ⊆ L) (rising : ∀ n ∈ R, n ∈ F → S.Due F n) :
    (∀ n ∈ R, n ∈ F ∨ n ∈ B ∧ S.Due F n → n ∈ S.unmark B (S.mark B F)) ∧
      ∀ n ∈ R, n ∈ S.unmark B (S.mark B F) → S.Due (S.unmark B (S.mark B F)) n := by
  have marked : ∀ n ∈ R, n ∈ S.mark B F → S.Due (S.mark B F) n := by
    rintro n within (held | ⟨-, due⟩)
    · exact (rising n within held).mono subset_mark
    · exact due.mono subset_mark
  have stays : ∀ n ∈ R, n ∈ S.mark B F → n ∈ S.unmark B (S.mark B F) := fun n within held =>
    ⟨held, fun _ => marked n within held⟩
  refine ⟨fun n within held => stays n within held, fun n within held => ?_⟩
  rw [region.due_iff (outside_step outside sub) within]
  obtain ⟨m, flagged, there, edge⟩ :=
    (region.due_iff (outside_mark outside sub) within).mp (marked n within held.1)
  exact ⟨m, stays m there flagged, there, edge⟩

/-- Where no flag is missing, they drop flags. -/
theorem Region.falling_step (sub : B ⊆ L) (falling : ∀ n ∈ R, S.Due F n → n ∈ F) :
    (∀ n ∈ R, n ∈ S.unmark B (S.mark B F) → n ∈ F ∧ (n ∈ B → S.Due F n)) ∧
      ∀ n ∈ R, S.Due (S.unmark B (S.mark B F)) n → n ∈ S.unmark B (S.mark B F) := by
  have fresh : ∀ n ∈ R, n ∈ S.mark B F → n ∈ F := by
    rintro n within (held | ⟨-, due⟩)
    · exact held
    · exact falling n within due
  have due : ∀ n ∈ R, S.Due (S.mark B F) n → S.Due F n := by
    intro n within due
    obtain ⟨m, flagged, there, edge⟩ := (region.due_iff (outside_mark outside sub) within).mp due
    exact (region.due_iff outside within).mpr ⟨m, fresh m there flagged, there, edge⟩
  refine ⟨fun n within held => ⟨fresh n within held.1, fun batch => due n within (held.2 batch)⟩,
    ?_⟩
  intro n within again
  obtain ⟨m, flagged, there, edge⟩ := (region.due_iff (outside_step outside sub) within).mp again
  have before : S.Due (S.mark B F) n := ⟨edge.1, Or.inr ⟨m, flagged.1, edge.2⟩⟩
  exact ⟨Or.inl (falling n within (due n within before)), fun _ => before⟩

theorem Region.rising_pass (sub : ∀ B ∈ batches, B ⊆ L) (rising : ∀ n ∈ R, n ∈ F → S.Due F n) :
    (∀ n ∈ R, n ∈ F ∨ (∃ B ∈ batches, n ∈ B) ∧ S.Due F n → n ∈ S.pass batches F) ∧
      ∀ n ∈ R, n ∈ S.pass batches F → S.Due (S.pass batches F) n := by
  induction batches generalizing F with
  | nil =>
    exact ⟨fun n _ held => held.elim id fun ⟨⟨B, listed, _⟩, _⟩ => (List.not_mem_nil listed).elim,
      rising⟩
  | cons B rest ih =>
    have here := sub B List.mem_cons_self
    obtain ⟨grows, kept⟩ := region.rising_step outside here rising
    obtain ⟨later, settled⟩ := ih (outside_step outside here)
      (fun C held => sub C (List.mem_cons_of_mem B held)) kept
    refine ⟨fun n within held => later n within ?_, settled⟩
    rcases held with held | ⟨⟨C, listed, batch⟩, due⟩
    · exact Or.inl (grows n within (Or.inl held))
    · rcases List.mem_cons.mp listed with rfl | listed
      · exact Or.inl (grows n within (Or.inr ⟨batch, due⟩))
      · refine Or.inr ⟨⟨C, listed, batch⟩, ?_⟩
        obtain ⟨m, flagged, there, edge⟩ := (region.due_iff outside within).mp due
        exact ⟨edge.1, Or.inr ⟨m, grows m there (Or.inl flagged), edge.2⟩⟩

theorem Region.falling_pass (sub : ∀ B ∈ batches, B ⊆ L) (falling : ∀ n ∈ R, S.Due F n → n ∈ F) :
    (∀ n ∈ R, n ∈ S.pass batches F → n ∈ F ∧ ((∃ B ∈ batches, n ∈ B) → S.Due F n)) ∧
      ∀ n ∈ R, S.Due (S.pass batches F) n → n ∈ S.pass batches F := by
  induction batches generalizing F with
  | nil =>
    exact ⟨fun n _ held => ⟨held, fun ⟨B, listed, _⟩ => (List.not_mem_nil listed).elim⟩, falling⟩
  | cons B rest ih =>
    have here := sub B List.mem_cons_self
    obtain ⟨shrinks, kept⟩ := region.falling_step outside here falling
    obtain ⟨later, settled⟩ := ih (outside_step outside here)
      (fun C held => sub C (List.mem_cons_of_mem B held)) kept
    refine ⟨fun n within held => ?_, settled⟩
    obtain ⟨still, due⟩ := later n within held
    refine ⟨(shrinks n within still).1, ?_⟩
    rintro ⟨C, listed, batch⟩
    rcases List.mem_cons.mp listed with rfl | listed
    · exact (shrinks n within still).2 batch
    · obtain ⟨m, flagged, there, edge⟩ :=
        (region.due_iff (outside_step outside here) within).mp (due ⟨C, listed, batch⟩)
      exact ⟨edge.1, Or.inr ⟨m, (shrinks m there flagged).1, edge.2⟩⟩

/-- Statements do not look at a region that is correct. -/
theorem Region.pass_eq (sub : ∀ B ∈ batches, B ⊆ L) (correct : S.CorrectOn R F) :
    S.pass batches F = S.pass (batches.map (· \ R)) F ∧
      (∀ n ∈ R, n ∈ S.pass batches F ↔ n ∈ F) := by
  induction batches generalizing F with
  | nil => exact ⟨rfl, fun _ _ => Iff.rfl⟩
  | cons B rest ih =>
    have here := sub B List.mem_cons_self
    have marks : S.mark B F = S.mark (B \ R) F := by
      ext n
      rw [mem_mark, mem_mark, Set.mem_sdiff]
      by_cases within : n ∈ R
      · have := correct n within
        tauto
      · tauto
    have same : ∀ n ∈ R, n ∈ S.mark (B \ R) F ↔ n ∈ F := by
      intro n within
      simp [mem_mark, within]
    have due : ∀ n ∈ R, S.Due (S.mark (B \ R) F) n ↔ S.Due F n := by
      intro n within
      rw [region.due_iff (outside_mark outside (Set.sdiff_subset.trans here)) within,
        region.due_iff outside within]
      exact exists_congr fun m => and_congr_left fun ⟨there, _⟩ => same m there
    have unmarks : S.unmark B (S.mark B F) = S.unmark (B \ R) (S.mark (B \ R) F) := by
      ext n
      rw [marks, mem_unmark, mem_unmark, Set.mem_sdiff]
      by_cases within : n ∈ R
      · have := correct n within
        have := due n within
        have := same n within
        tauto
      · tauto
    have stays : ∀ n ∈ R, n ∈ S.unmark (B \ R) (S.mark (B \ R) F) ↔ n ∈ F := by
      intro n within
      simp [mem_unmark, within, same n within]
    have kept : S.CorrectOn R (S.unmark B (S.mark B F)) := by
      intro n within
      rw [unmarks, stays n within, correct n within, region.due_iff outside within,
        region.due_iff (outside_step outside (Set.sdiff_subset.trans here)) within]
      exact exists_congr fun m => and_congr_left fun ⟨there, _⟩ => (stays m there).symm
    obtain ⟨rest', last⟩ :=
      ih (outside_step outside here) (fun C held => sub C (List.mem_cons_of_mem B held)) kept
    refine ⟨?_, fun n within => (last n within).trans (unmarks ▸ stays n within)⟩
    change S.pass rest (S.unmark B (S.mark B F)) = S.pass (rest.map (· \ R)) (S.unmark (B \ R) (S.mark (B \ R) F))
    rw [rest', unmarks]

omit outside in
/-- Nothing in a region settles with the flag. -/
theorem Region.not_settled (settled : S.Settled L F₀ n) : n ∉ R := by
  induction settled with
  | outside out => exact fun within => out (region.inside within)
  | direct _ live reason => exact fun within => region.bare _ within ⟨live, reason⟩
  | @inherited a b _ live edge above ih =>
    intro within
    rcases region.above a within b ⟨live, edge⟩ with there | ⟨out, clear⟩
    · exact ih there
    · exact clear ((settled_outside out).mp above)

end Region

/-! ## Circles -/

private theorem settled_congr (same : ∀ n ∉ L, n ∈ F ↔ n ∈ G) :
    S.Settled L F n ↔ S.Settled L G n := by
  have one {F G : Set N} (same : ∀ n ∉ L, n ∈ F → n ∈ G) (settled : S.Settled L F n) :
      S.Settled L G n := by
    induction settled with
    | @outside a out held => exact .outside out (same a out held)
    | direct inside live reason => exact .direct inside live reason
    | inherited inside live edge _ ih => exact .inherited inside live edge ih
  exact ⟨one fun n out => (same n out).mp, one fun n out => (same n out).mpr⟩

/-- The node lies on a circle of nodes of the scope that have no ground, or above one. -/
def Feeds (S : FlagRules N) (L F : Set N) (n : N) : Prop :=
  ∃ c, TransGen (S.Open L {n | S.Settled L F n}) c c ∧ ReflTransGen (S.Open L {n | S.Settled L F n}) c n

/-- At and above a node that feeds a circle no flag is superfluous, or none is missing. -/
def OneWay (S : FlagRules N) (L F : Set N) : Prop :=
  ∀ n, S.Feeds L F n →
    (∀ a, ReflTransGen (S.Open L {n | S.Settled L F n}) n a → a ∈ F → S.Due F a) ∨
      ∀ a, ReflTransGen (S.Open L {n | S.Settled L F n}) n a → S.Due F a → a ∈ F

/-- Without circles there is nothing to ask. -/
theorem oneWay_of_acyclic (acyclic : Acyclic S.Upward) : S.OneWay L F := by
  rintro n ⟨c, circle, -⟩
  exact absurd (TransGen.mono (fun _ _ edge => edge.2.2) _ _ circle) (acyclic c)

theorem Feeds.open (feeds : S.Feeds L F n) : n ∈ L ∧ ¬ S.Settled L F n := by
  obtain ⟨c, circle, above⟩ := feeds
  rcases ReflTransGen.cases_tail above with rfl | ⟨_, -, edge⟩
  · obtain ⟨_, edge, -⟩ := TransGen.head'_iff.mp circle
    exact edge.1
  · exact edge.2.1

/-- Nor is there if nothing is still to inherit a flag. -/
theorem oneWay_of_inherited (inherited : ∀ n m, S.Upward n m → m ∈ F → n ∈ F) : S.OneWay L F := by
  rintro n ⟨c, circle, below⟩
  right
  rintro a above ⟨live, reason | ⟨m, held, edge⟩⟩
  · have feeds : S.Feeds L F a := ⟨c, circle, below.trans above⟩
    exact absurd (.direct feeds.open.1 live reason) feeds.open.2
  · exact inherited a m ⟨live, edge⟩ held

/-- A part of the nodes that feed circles, with all that is above. -/
theorem region_of_feeds {good : N → Prop} : S.Region L F
    {n | S.Feeds L F n ∧ ∀ a, ReflTransGen (S.Open L {n | S.Settled L F n}) n a → good a} where
  inside n within := within.1.open.1
  bare := by
    rintro n ⟨feeds, -⟩ ⟨live, reason⟩
    exact feeds.open.2 (.direct feeds.open.1 live reason)
  above := by
    rintro n ⟨feeds, all⟩ m edge
    have free : ¬ S.Settled L F m :=
      fun above => feeds.open.2 (.inherited feeds.open.1 edge.1 edge.2 above)
    by_cases inside : m ∈ L
    · have step : S.Open L {n | S.Settled L F n} n m := ⟨feeds.open, ⟨inside, free⟩, edge⟩
      obtain ⟨c, circle, below⟩ := feeds
      exact Or.inl ⟨⟨c, circle, below.tail step⟩, fun a above => all a (.head step above)⟩
    · exact Or.inr ⟨inside, fun held => free (.outside inside held)⟩

theorem Region.union (rises : S.Region L F₀ P) (falls : S.Region L F₀ Q) :
    S.Region L F₀ (P ∪ Q) where
  inside _ within := within.elim (fun held => rises.inside held) fun held => falls.inside held
  bare n within := within.elim (rises.bare n) (falls.bare n)
  above n within m edge := within.elim
    (fun held => (rises.above n held m edge).imp_left Or.inl)
    fun held => (falls.above n held m edge).imp_left Or.inr

/-- The flags that the two regions still have to add or drop, and then the loose nodes
of the rest. -/
noncomputable def unrest (S : FlagRules N) (L P Q F : Set N) : Nat :=
  ((P \ F).ncard + (Q ∩ F).ncard) * (L.ncard + 1) +
    (S.loose (L \ (P ∪ Q)) {n | S.Settled (L \ (P ∪ Q)) F n} F).ncard

section Unrest
variable (rises : S.Region L F₀ P) (falls : S.Region L F₀ Q)
  (circles : ∀ n, TransGen (S.Open L {n | S.Settled L F₀ n}) n n → n ∈ P ∪ Q)
  (finite : L.Finite) (outside : ∀ n ∉ L, n ∈ F ↔ n ∈ F₀)
  (rising : ∀ n ∈ P, n ∈ F → S.Due F n) (falling : ∀ n ∈ Q, S.Due F n → n ∈ F)
  (sub : ∀ B ∈ batches, B ⊆ L) (covered : ∀ n ∈ L, ∃ B ∈ batches, n ∈ B)
include rises falls outside

include rising falling sub covered finite in
/-- A pass over regions that are not correct yet adds or drops a flag there. -/
theorem moves_pass_lt (wrong : ¬ S.CorrectOn (P ∪ Q) F) :
    (P \ S.pass batches F).ncard + (Q ∩ S.pass batches F).ncard < (P \ F).ncard + (Q ∩ F).ncard := by
  have more := (rises.rising_pass outside sub rising).1
  have fewer := (falls.falling_pass outside sub falling).1
  have left : P \ S.pass batches F ⊆ P \ F :=
    fun n held => ⟨held.1, fun there => held.2 (more n held.1 (Or.inl there))⟩
  have right : Q ∩ S.pass batches F ⊆ Q ∩ F := fun n held => ⟨held.1, (fewer n held.1 held.2).1⟩
  have some : (P \ F).Finite := finite.subset fun n held => rises.inside held.1
  have others : (Q ∩ F).Finite := finite.subset fun n held => falls.inside held.1
  simp only [CorrectOn, not_forall] at wrong
  obtain ⟨n, within, wrong⟩ := wrong
  rcases within with within | within
  · have due : n ∉ F ∧ S.Due F n := by
      have := rising n within
      tauto
    refine Nat.add_lt_add_of_lt_of_le (Set.ncard_lt_ncard ⟨left, fun all => ?_⟩ some)
      (Set.ncard_le_ncard right others)
    exact (all ⟨within, due.1⟩).2 (more n within (Or.inr ⟨covered n (rises.inside within), due.2⟩))
  · have stale : n ∈ F ∧ ¬ S.Due F n := by
      have := falling n within
      tauto
    refine Nat.add_lt_add_of_le_of_lt (Set.ncard_le_ncard left some)
      (Set.ncard_lt_ncard ⟨right, fun all => ?_⟩ others)
    exact stale.2 ((fewer n within (all ⟨within, stale.1⟩).2).2 (covered n (falls.inside within)))

include circles in
/-- Outside the regions no circle is left. -/
theorem acyclic_rest :
    Acyclic (S.Open (L \ (P ∪ Q)) {n | S.Settled (L \ (P ∪ Q)) F n}) := by
  have region := rises.union falls
  have settles {n : N} (settled : S.Settled L F₀ n) : S.Settled (L \ (P ∪ Q)) F n := by
    induction settled with
    | @outside a out held => exact .outside (fun inside => out inside.1) ((outside a out).mpr held)
    | direct inside live reason =>
      exact .direct ⟨inside, region.not_settled (.direct inside live reason)⟩ live reason
    | inherited inside live edge above ih =>
      exact .inherited ⟨inside, region.not_settled (.inherited inside live edge above)⟩ live edge ih
  intro n circle
  obtain ⟨_, edge, -⟩ := TransGen.head'_iff.mp circle
  refine edge.1.1.2 (circles n (TransGen.mono (fun a b edge => ?_) _ _ circle))
  exact ⟨⟨edge.1.1.1, fun held => edge.1.2 (settles held)⟩,
    ⟨edge.2.1.1.1, fun held => edge.2.1.2 (settles held)⟩, edge.2.2⟩

include circles finite rising falling sub covered in
/-- A pass that is not quiet brings the flags closer to rest. -/
theorem unrest_pass_lt (busy : ¬ S.Quiet batches F) :
    S.unrest L P Q (S.pass batches F) < S.unrest L P Q F := by
  have region := rises.union falls
  have small (F : Set N) :
      (S.loose (L \ (P ∪ Q)) {n | S.Settled (L \ (P ∪ Q)) F n} F).ncard ≤ L.ncard :=
    Set.ncard_le_ncard (fun n held => held.1.1) finite
  by_cases correct : S.CorrectOn (P ∪ Q) F
  · obtain ⟨same, stays⟩ := region.pass_eq outside sub correct
    have kept : P \ S.pass batches F = P \ F ∧ Q ∩ S.pass batches F = Q ∩ F := by
      constructor
      · ext n
        exact and_congr_right fun within => not_congr (stays n (Or.inl within))
      · ext n
        exact and_congr_right fun within => stays n (Or.inr within)
    have settled : {n | S.Settled (L \ (P ∪ Q)) (S.pass batches F) n} =
        {n | S.Settled (L \ (P ∪ Q)) F n} := by
      ext n
      refine settled_congr fun n out => ?_
      by_cases within : n ∈ P ∪ Q
      · exact stays n within
      · have free : n ∉ L := fun inside => out ⟨inside, within⟩
        exact mem_pass_outside fun B held batch => free (sub B held batch)
    rw [unrest, unrest, kept.1, kept.2, settled, same]
    refine Nat.add_lt_add_left (loose_pass_lt (acyclic_rest rises falls circles outside)
      (finite.subset Set.sdiff_subset) _ ?_ ?_ (fun n out => (settled_outside out).symm) ?_) _
    · intro B held
      obtain ⟨C, listed, rfl⟩ := List.mem_map.mp held
      exact Set.sdiff_subset_sdiff_left (sub C listed)
    · rintro n ⟨inside, free⟩
      obtain ⟨B, held, batch⟩ := covered n inside
      exact ⟨B \ (P ∪ Q), List.mem_map_of_mem held, batch, free⟩
    · by_contra none
      have rest :=
        eq_of_loose_empty (fun n out => (settled_outside out).symm) (Set.not_nonempty_iff_eq_empty.mp none)
      refine busy (CorrectOn.quiet (fun n inside => ?_) sub)
      by_cases within : n ∈ P ∪ Q
      · exact correct n within
      · have here : S.CorrectOn (L \ (P ∪ Q)) {n | S.Settled (L \ (P ∪ Q)) F n} := settled_correctOn
        rw [← rest] at here
        exact here n ⟨inside, within⟩
  · have fewer := moves_pass_lt rises falls finite outside rising falling sub covered correct
    have bound := small (S.pass batches F)
    rw [unrest, unrest]
    calc _ < ((P \ S.pass batches F).ncard + (Q ∩ S.pass batches F).ncard + 1) * (L.ncard + 1) := by
          rw [Nat.succ_mul]
          omega
      _ ≤ ((P \ F).ncard + (Q ∩ F).ncard) * (L.ncard + 1) := Nat.mul_le_mul_right _ fewer
      _ ≤ _ := Nat.le_add_right _ _

end Unrest

/-! ## Changing the system -/

/-- A change of the system and of the flags outside its reach: what the flag of
the node depends on is as before. -/
structure Unaffected (S T : FlagRules N) (n : N) : Prop where
  live_iff : T.live n ↔ S.live n
  direct_iff : S.live n → (T.direct n ↔ S.direct n)
  parent_iff : S.live n → ∀ m, T.parent n m ↔ S.parent n m

/-- A flag set that was correct before the change is correct after it once it
is correct on a scope that the change cannot leave. -/
theorem correct_of_scope (before : S.Correct F) (outside : ∀ n ∉ L, n ∈ G ↔ n ∈ F)
    (unaffected : ∀ n ∉ L, Unaffected S T n)
    (closed : ∀ n m, T.live n → T.parent n m → m ∈ L → n ∈ L) (inside : T.CorrectOn L G) :
    T.Correct G := by
  intro n
  by_cases member : n ∈ L
  · exact inside n member
  · have same := unaffected n member
    rw [outside n member, before n]
    constructor
    · rintro ⟨live, reason | ⟨m, held, edge⟩⟩
      · exact ⟨same.live_iff.mpr live, Or.inl ((same.direct_iff live).mpr reason)⟩
      · have edge' := (same.parent_iff live m).mpr edge
        have out : m ∉ L := fun held => member (closed n m (same.live_iff.mpr live) edge' held)
        exact ⟨same.live_iff.mpr live, Or.inr ⟨m, (outside m out).mpr held, edge'⟩⟩
    · rintro ⟨live, reason | ⟨m, held, edge⟩⟩
      · have live' := same.live_iff.mp live
        exact ⟨live', Or.inl ((same.direct_iff live').mp reason)⟩
      · have live' := same.live_iff.mp live
        have out : m ∉ L := fun held => member (closed n m live edge held)
        exact ⟨live', Or.inr ⟨m, (outside m out).mp held, (same.parent_iff live' m).mp edge⟩⟩

end FlagRules

end Beads.Lib.Propagation
