import Mathlib.Data.List.Perm.Subperm
import Beads.Lib.Graph

/-! The number of steps one can go from a key, along a relation without cycles: the key has a
rank when its longest chain has that many steps (`Rank`). A rank is one above the highest rank
a step leads to. -/
namespace Beads.Lib

variable {K : Type*} {r : K → K → Prop} {x y : K} {n m : Nat}

/-- There is a chain of so many steps from the key. -/
def Chain (r : K → K → Prop) : Nat → K → Prop
  | 0, _ => True
  | n + 1, x => ∃ y, r x y ∧ Chain r n y

/-- The longest chain from the key has so many steps. -/
def Rank (r : K → K → Prop) (x : K) (n : Nat) : Prop := Chain r n x ∧ ¬ Chain r (n + 1) x

theorem Chain.pred (chain : Chain r (n + 1) x) : Chain r n x := by
  induction n generalizing x with
  | zero => exact trivial
  | succ n ih =>
    obtain ⟨y, step, rest⟩ := chain
    exact ⟨y, step, ih rest⟩

theorem Chain.mono (le : n ≤ m) (chain : Chain r m x) : Chain r n x := by
  induction m, le using Nat.le_induction with
  | base => exact chain
  | succ m _ ih => exact ih chain.pred

namespace Rank

theorem chain_iff (rank : Rank r x n) : Chain r m x ↔ m ≤ n := by
  constructor
  · intro chain
    by_contra long
    exact rank.2 (chain.mono (by omega))
  · intro le
    exact rank.1.mono le

theorem unique (left : Rank r x n) (right : Rank r x m) : n = m := by
  have below := right.chain_iff.mp left.1
  have above := left.chain_iff.mp right.1
  omega

/-- No step leads on. -/
theorem zero (last : ∀ y, ¬ r x y) : Rank r x 0 :=
  ⟨trivial, fun ⟨y, step, _⟩ => last y step⟩

/-- The rank is one above the highest that a step leads to. -/
theorem succ (step : r x y) (highest : Rank r y n) (others : ∀ z, r x z → ∃ m, m ≤ n ∧ Rank r z m) :
    Rank r x (n + 1) := by
  refine ⟨⟨y, step, highest.1⟩, ?_⟩
  rintro ⟨z, other, chain⟩
  obtain ⟨m, le, rank⟩ := others z other
  have short := rank.chain_iff.mp chain
  omega

theorem lt_of_step (rank : Rank r x n) (rank' : Rank r y m) (step : r x y) : m < n := by
  have chain : Chain r (m + 1) x := ⟨y, step, rank'.1⟩
  exact rank.chain_iff.mp chain

/-- A longer chain tells two ranks apart. -/
theorem lt_iff (rank : Rank r x n) (rank' : Rank r y m) :
    m < n ↔ ∃ k, Chain r k x ∧ ¬ Chain r k y := by
  simp only [rank.chain_iff, rank'.chain_iff]
  constructor
  · intro lt
    exact ⟨n, le_refl n, by omega⟩
  · rintro ⟨k, long, short⟩
    omega

/-- Below a rank there is every smaller one. -/
theorem exists_below (ranked : ∀ y, ∃ m, Rank r y m) (rank : Rank r x n) (le : m ≤ n) :
    ∃ y, Relation.ReflTransGen r x y ∧ Rank r y m := by
  induction n generalizing x with
  | zero =>
    obtain rfl : m = 0 := by omega
    exact ⟨x, .refl, rank⟩
  | succ n ih =>
    rcases Nat.lt_or_eq_of_le le with lower | rfl
    · obtain ⟨y, step, chain⟩ := rank.1
      obtain ⟨k, rank'⟩ := ranked y
      have above := rank'.chain_iff.mp chain
      have below := rank.lt_of_step rank' step
      obtain rfl : k = n := by omega
      obtain ⟨z, reaches, found⟩ := ih rank' (by omega)
      exact ⟨z, .head step reaches, found⟩
    · exact ⟨x, .refl, rank⟩

/-- A key has a rank when its chains are bounded. -/
theorem of_bounded (bounded : ¬ Chain r n x) : ∃ m, Rank r x m := by
  induction n with
  | zero => exact absurd trivial bounded
  | succ n ih =>
    by_cases chain : Chain r n x
    · exact ⟨n, chain, bounded⟩
    · exact ih chain

/-- What a step leads to has a lower rank. -/
theorem exists_of_step (rank : Rank r x n) (step : r x y) : ∃ m, Rank r y m ∧ m < n := by
  have bounded : ¬ Chain r n y := fun chain => rank.2 ⟨y, step, chain⟩
  obtain ⟨m, below⟩ := of_bounded bounded
  exact ⟨m, below, rank.lt_of_step below step⟩

theorem exists_of_transGen (rank : Rank r x n) (path : Relation.TransGen r x y) :
    ∃ m, Rank r y m ∧ m < n := by
  induction path with
  | single step => exact rank.exists_of_step step
  | tail _ step ih =>
    obtain ⟨m, middle, lower⟩ := ih
    obtain ⟨k, below, lower'⟩ := middle.exists_of_step step
    exact ⟨k, below, lower'.trans lower⟩

end Rank

/-- One bound serves finitely many keys. -/
theorem exists_common_bound (keys : List K) :
    ∃ n, ∀ y ∈ keys, (∃ m, ¬ Chain r m y) → ¬ Chain r n y := by
  induction keys with
  | nil => exact ⟨0, by simp⟩
  | cons first rest ih =>
    obtain ⟨n, common⟩ := ih
    by_cases bounded : ∃ m, ¬ Chain r m first
    · obtain ⟨m, short⟩ := bounded
      refine ⟨max n m, ?_⟩
      intro y held other chain
      rcases List.mem_cons.mp held with rfl | held
      · exact short (chain.mono (Nat.le_max_right n m))
      · exact common y held other (chain.mono (Nat.le_max_left n m))
    · refine ⟨n, ?_⟩
      intro y held other
      rcases List.mem_cons.mp held with rfl | held
      · exact absurd other bounded
      · exact common y held other

/-- Without cycles, and between finitely many keys, every key has a rank. -/
theorem Graph.Acyclic.exists_rank (acyclic : Graph.Acyclic r) {keys : List K}
    (known : ∀ a b, r a b → a ∈ keys ∧ b ∈ keys) (x : K) : ∃ n, Rank r x n := by
  suffices bounded : ∃ n, ¬ Chain r n x by
    obtain ⟨n, short⟩ := bounded
    exact Rank.of_bounded short
  by_contra endless
  push Not at endless
  have listed : x ∈ keys := by
    obtain ⟨y, step, -⟩ := endless 1
    exact (known x y step).1
  -- A last key with chains of every length leads to keys with a common bound.
  have finite : {a | a ∈ keys ∧ ∀ n, Chain r n a}.Finite :=
    keys.finite_toSet.subset fun a inside => inside.1
  obtain ⟨last, ⟨held, long⟩, alone⟩ := acyclic.exists_last finite ⟨x, listed, endless⟩
  obtain ⟨n, common⟩ := exists_common_bound (r := r) keys
  obtain ⟨y, step, chain⟩ := long (n + 1)
  have inside := (known last y step).2
  apply common y inside _ chain
  by_contra unbounded
  push Not at unbounded
  exact alone y ⟨inside, unbounded⟩ step

/-- Without cycles a chain goes through as many keys as it has steps, and its first. -/
theorem Chain.exists_path (acyclic : Graph.Acyclic r) (chain : Chain r n x) :
    ∃ path : List K, path.length = n + 1 ∧ path.Nodup ∧
      ∀ z ∈ path, Relation.ReflTransGen r x z := by
  induction n generalizing x with
  | zero => exact ⟨[x], rfl, List.nodup_singleton x, by simp [Relation.ReflTransGen.refl]⟩
  | succ n ih =>
    obtain ⟨y, step, rest⟩ := chain
    obtain ⟨path, length, distinct, reached⟩ := ih rest
    refine ⟨x :: path, by simp [length], List.nodup_cons.mpr ⟨?_, distinct⟩, ?_⟩
    · intro back
      exact acyclic x (.head' step (reached x back))
    · intro z held
      rcases List.mem_cons.mp held with rfl | held
      · exact .refl
      · exact .head step (reached z held)

/-- Without cycles a chain is shorter than the list of keys that it stays in. -/
theorem Chain.lt_length (acyclic : Graph.Acyclic r) {keys : List K}
    (closed : ∀ a ∈ keys, ∀ b, r a b → b ∈ keys)
    (inside : x ∈ keys) (chain : Chain r n x) : n < keys.length := by
  obtain ⟨path, length, distinct, reached⟩ := chain.exists_path acyclic
  have pooled (z : K) (reaches : Relation.ReflTransGen r x z) : z ∈ keys := by
    induction reaches with
    | refl => exact inside
    | tail _ step ih => exact closed _ ih _ step
  have short := (distinct.subperm fun z held => pooled z (reached z held)).length_le
  omega

theorem Chain.of_reaches (path : Relation.ReflTransGen r x y) (chain : Chain r n y) :
    Chain r n x := by
  induction path using Relation.ReflTransGen.head_induction_on with
  | refl => exact chain
  | head step _ ih => exact Chain.pred ⟨_, step, ih⟩

/-- Around a cycle there are chains of every length. -/
theorem Chain.of_cycle (cycle : Relation.TransGen r x x) (n : Nat) : Chain r n x := by
  induction n with
  | zero => exact trivial
  | succ n ih =>
    obtain ⟨y, step, back⟩ := Relation.TransGen.head'_iff.mp cycle
    exact ⟨y, step, ih.of_reaches back⟩

/-- The steps that can be reached from a key have no cycle when it reaches none. -/
theorem Graph.acyclic_reached (settles : ∀ y, Relation.ReflTransGen r x y → ¬ Relation.TransGen r y y) :
    Graph.Acyclic fun a b => Relation.ReflTransGen r x a ∧ r a b := by
  intro a cycle
  obtain ⟨_, ⟨start, -⟩, -⟩ := Relation.TransGen.head'_iff.mp cycle
  exact settles a start (Relation.TransGen.mono (fun _ _ step => step.2) _ _ cycle)

/-- Between finitely many keys the chains from a key are bounded when it reaches no cycle. -/
theorem exists_not_chain_iff {keys : List K} (known : ∀ a b, r a b → a ∈ keys ∧ b ∈ keys) :
    (∃ n, ¬ Chain r n x) ↔ ∀ y, Relation.ReflTransGen r x y → ¬ Relation.TransGen r y y := by
  constructor
  · rintro ⟨n, short⟩ y path cycle
    exact short ((Chain.of_cycle cycle n).of_reaches path)
  · intro settles
    have acyclic := Graph.acyclic_reached settles
    obtain ⟨n, -, short⟩ := acyclic.exists_rank (fun a b step => known a b step.2) x
    refine ⟨n + 1, fun chain => short ?_⟩
    have restrict (m : Nat) (a : K) (reached : Relation.ReflTransGen r x a) (chain : Chain r m a) :
        Chain (fun a b => Relation.ReflTransGen r x a ∧ r a b) m a := by
      induction m generalizing a with
      | zero => exact trivial
      | succ m ih =>
        obtain ⟨b, step, rest⟩ := chain
        exact ⟨b, ⟨reached, step⟩, ih b (reached.tail step) rest⟩
    exact restrict (n + 1) x .refl chain

end Beads.Lib
