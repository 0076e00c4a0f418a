import Beads.PartialIds

/-! When the resolution of a partial id is unambiguous. A pass keeps the last exact match it meets,
so that of two ids with one hash the order of the search decides; of abbreviations it keeps all. -/
namespace Beads
open Lib

/-! ## One pass -/

section Pass
variable {input : String} {exact abbreviated : String → Prop} [DecidablePred exact]
  [DecidablePred abbreviated]
  {seen ids : List String} {a b : String}

/-- What a pass finds: the last exact match, and the abbreviations. -/
theorem scanMatches_eq (exactMatch : String) (found : List String) (other : input ∉ ids) :
    scanMatches input exact abbreviated exactMatch found ids =
      (((ids.filter exact).getLast?).getD exactMatch, found ++ ids.filter fun id => ¬ exact id ∧
        abbreviated id) := by
  induction ids generalizing exactMatch found with
  | nil => simp [scanMatches]
  | cons id rest ih =>
    rw [List.mem_cons, not_or] at other
    obtain ⟨differs, other⟩ := other
    rw [scanMatches, if_neg (Ne.symm differs)]
    by_cases here : exact id
    · rw [if_pos here, ih _ _ other]
      simp [here, List.getLast?_cons]
    · rw [if_neg here]
      by_cases short : abbreviated id
      · rw [if_pos short, ih _ _ other]
        simp [here, short]
      · rw [if_neg short, ih _ _ other]
        simp [here, short]

/-- The outcome of a pass that decides. -/
def resolvePass (input : String) (exact abbreviated : String → Prop) [DecidablePred exact]
    [DecidablePred abbreviated] (ids : List String) : Resolution :=
  let found := scanMatches input exact abbreviated "" [] ids
  if found.1 ≠ "" then .found found.1 else IdStore.settle found.2

theorem resolvePass_of_last (other : input ∉ ids) (last : (ids.filter exact).getLast? = some a)
    (named : a ≠ "") :
    resolvePass input exact abbreviated ids = .found a := by
  rw [resolvePass, scanMatches_eq _ _ other, last]
  simp [named]

private theorem resolvePass_of_none (other : input ∉ ids) (none : ∀ id ∈ ids, ¬ exact id) :
    resolvePass input exact abbreviated ids = IdStore.settle (ids.filter abbreviated) := by
  have empty : ids.filter exact = [] := by simpa using none
  have same : (ids.filter fun id => ¬ exact id ∧ abbreviated id) = ids.filter abbreviated := by
    apply List.filter_congr
    intro id held
    simp [none id held]
  rw [resolvePass, scanMatches_eq _ _ other, empty, same]
  simp

private theorem settle_perm {found found' : List String} (perm : found.Perm found') :
    IdStore.settle found = IdStore.settle found' := by
  have same : found.insertionSort (· ≤ ·) = found'.insertionSort (· ≤ ·) :=
    List.Perm.eq_of_pairwise' (List.pairwise_insertionSort _ _) (List.pairwise_insertionSort _ _)
      ((List.perm_insertionSort _ _).trans (perm.trans (List.perm_insertionSort _ _).symm))
  rw [IdStore.settle, IdStore.settle, same]

private theorem settle_found {found : List String} (settled : IdStore.settle found = .found a) :
    found = [a] := by
  have perm := List.perm_insertionSort (· ≤ ·) found
  unfold IdStore.settle at settled
  split at settled
  · cases settled
  · next id one =>
    cases settled
    rw [one] at perm
    exact List.perm_singleton.mp perm.symm
  · cases settled

/-- The ids of a search settle a pass: an exact match has no rival, and neither has an abbreviation
that is the only one. -/
structure Settles (seen : List String) (exact abbreviated : String → Prop) [DecidablePred exact]
    [DecidablePred abbreviated] (asExact asAbbreviated : String → Prop) : Prop where
  one : ∀ a ∈ seen, exact a → ∀ b, asExact b → b = a
  alone : ∀ a, (∀ id ∈ seen, ¬ exact id) → seen.filter abbreviated = [a] → ∀ b, asAbbreviated b → b = a

/-- The outcome does not depend on the order of the search, and an id that is found has no rival. -/
structure Unambiguous {σ : Type} (orders : σ → Prop) (outcome : σ → Resolution)
    (asGood : String → String → Prop) :
    Prop where
  same : ∀ x y, orders x → orders y → outcome x = outcome y
  best : ∀ x, orders x → ∀ a, outcome x = .found a → ∀ b, asGood a b → b = a

/-- What holds of an outcome holds of one that it is read from. -/
theorem Unambiguous.comp_iff {σ τ : Type} {orders : σ → Prop} {orders' : τ → Prop}
    {outcome : σ → Resolution}
    {outcome' : τ → Resolution} {asGood : String → String → Prop} (read : σ → τ)
    (keeps : ∀ x, orders x → orders' (read x)) (onto : ∀ y, orders' y → ∃ x, orders x ∧ read x = y)
    (agree : ∀ x, orders x → outcome x = outcome' (read x)) :
    Unambiguous orders outcome asGood ↔ Unambiguous orders' outcome' asGood := by
  constructor
  · intro clear
    constructor
    · intro y y' order order'
      obtain ⟨x, ordered, rfl⟩ := onto y order
      obtain ⟨x', ordered', rfl⟩ := onto y' order'
      rw [← agree x ordered, ← agree x' ordered']
      exact clear.same x x' ordered ordered'
    · intro y order a found
      obtain ⟨x, ordered, rfl⟩ := onto y order
      exact clear.best x ordered a ((agree x ordered).trans found)
  · intro clear
    constructor
    · intro x x' ordered ordered'
      rw [agree x ordered, agree x' ordered']
      exact clear.same _ _ (keeps x ordered) (keeps x' ordered')
    · intro x ordered a found
      exact clear.best _ (keeps x ordered) a ((agree x ordered).symm.trans found)

variable {asExact asAbbreviated : String → Prop} {asGood : String → String → Prop}

theorem of_filter_eq_singleton (single : seen.filter abbreviated = [a]) :
    a ∈ seen ∧ abbreviated a := by
  have kept : a ∈ seen.filter abbreviated := by simp [single]
  simpa using kept

variable (abbreviated) in
/-- An exact match is found when the search returns it last. -/
theorem exists_order_of_exact (other : input ∉ seen) (named : ∀ a ∈ seen, exact a → a ≠ "")
    (held : a ∈ seen)
    (here : exact a) : ∃ ids, ids.Perm seen ∧
      resolvePass input exact abbreviated ids = .found a := by
  have perm : (seen.erase a ++ [a]).Perm seen :=
    List.perm_append_comm.trans (List.perm_cons_erase held).symm
  exact ⟨_, perm, resolvePass_of_last (fun mem => other (perm.subset mem)) (by simp [here]) (named a held here)⟩

/-- When one id is the only exact match, it is found in every order. -/
theorem resolvePass_of_exact (other : input ∉ ids) (held : a ∈ ids) (here : exact a)
    (named : a ≠ "")
    (one : ∀ b ∈ ids, exact b → b = a) : resolvePass input exact abbreviated ids = .found a := by
  have kept : a ∈ ids.filter exact := by simp [held, here]
  have last := List.getLast?_eq_some_getLast (List.ne_nil_of_mem kept)
  have mem := List.getLast_mem (List.ne_nil_of_mem kept)
  simp only [List.mem_filter, decide_eq_true_eq] at mem
  rw [one _ mem.1 mem.2] at last
  exact resolvePass_of_last other last named

/-- A pass is unambiguous just when the ids of its search settle it. -/
theorem resolvePass_unambiguous (other : input ∉ seen) (named : ∀ a ∈ seen, exact a → a ≠ "")
    (self : ∀ a ∈ seen, exact a → asExact a)
    (exactRival : ∀ a ∈ seen, exact a → ∀ b, asGood a b ↔ asExact b)
    (abbreviatedRival : ∀ a ∈ seen, ¬ exact a → abbreviated a → ∀ b, asGood a b ↔ asAbbreviated b) :
    Unambiguous (·.Perm seen) (resolvePass input exact abbreviated) asGood ↔
      Settles seen exact abbreviated asExact asAbbreviated := by
  have others {ids : List String} (perm : ids.Perm seen) : input ∉ ids :=
    fun mem => other (perm.subset mem)
  constructor
  · intro clear
    constructor
    · intro a held here b rival
      obtain ⟨ids, perm, found⟩ := exists_order_of_exact abbreviated other named held here
      exact clear.best ids perm a found b ((exactRival a held here b).mpr rival)
    · intro a none single b rival
      have held := of_filter_eq_singleton single
      have found : resolvePass input exact abbreviated seen = .found a := by
        rw [resolvePass_of_none other none, single]
        rfl
      exact clear.best seen (.refl _) a found b
        ((abbreviatedRival a held.1 (none a held.1) held.2 b).mpr rival)
  · intro settles
    by_cases some : ∃ a ∈ seen, exact a
    · obtain ⟨a, held, here⟩ := some
      have found {ids : List String} (perm : ids.Perm seen) :
          resolvePass input exact abbreviated ids = .found a := by
        apply resolvePass_of_exact (others perm) (perm.symm.subset held) here (named a held here)
        intro b mem exactB
        exact settles.one a held here b (self b (perm.subset mem) exactB)
      constructor
      · intro ids ids' perm perm'
        rw [found perm, found perm']
      · intro ids perm r returned b rival
        obtain rfl : a = r := by simpa [found perm] using returned
        exact settles.one a held here b ((exactRival a held here b).mp rival)
    · have none : ∀ a ∈ seen, ¬ exact a := fun a held here => some ⟨a, held, here⟩
      have settled {ids : List String} (perm : ids.Perm seen) :
          resolvePass input exact abbreviated ids = IdStore.settle (seen.filter abbreviated) := by
        rw [resolvePass_of_none (others perm) fun id mem => none id (perm.subset mem)]
        exact settle_perm (perm.filter _)
      constructor
      · intro ids ids' perm perm'
        rw [settled perm, settled perm']
      · intro ids perm r returned b rival
        have single := settle_found ((settled perm).symm.trans returned)
        have held := of_filter_eq_singleton single
        exact settles.alone r none single b
          ((abbreviatedRival r held.1 (none r held.1) held.2 b).mp rival)

end Pass

/-! ## The store -/

namespace IdStore
variable {s : IdStore} {input id query part : String} {ids : List String}

variable (s) in
/-- The id is that of an ephemeral row. -/
def Wisp (id : String) : Prop :=
  (∃ row ∈ s.issues, row.id = id ∧ row.ephemeral = true) ∨ ∃ row ∈ s.wisps, row.id = id ∧ row.ephemeral = true

instance : DecidablePred s.Wisp := fun _ => inferInstanceAs (Decidable (_ ∨ _))

variable (s input) in
/-- How well an id matches: by its hash, by the beginning of its hash, or, for a wisp, by what its
hash has after the part that all wisps have, or by the beginning of that. -/
def matchQuality (id : String) : Nat :=
  if s.Exact input id then 4
  else if s.Abbreviated input id then 3
  else if s.Wisp id ∧ s.WispExact input id then 2
  else if s.Wisp id ∧ s.WispAbbreviated input id then 1
  else 0

variable (s input) in
/-- The first id is neither the input nor its normalized form, and the second is stored and matches
at least as well. -/
def Rival (a b : String) : Prop :=
  (a ≠ input ∧ a ≠ s.normalizedID input) ∧ s.Stored b ∧ s.matchQuality input a ≤ s.matchQuality input b

theorem Exact.abbreviated (here : s.Exact input id) : s.Abbreviated input id := by
  rw [Abbreviated, here]
  exact List.prefix_refl _

private theorem three_le_matchQuality : 3 ≤ s.matchQuality input id ↔ s.Abbreviated input id := by
  unfold matchQuality
  split_ifs with here short
  · simp [here.abbreviated]
  all_goals simp [short]

private theorem four_le_matchQuality : 4 ≤ s.matchQuality input id ↔ s.Exact input id := by
  unfold matchQuality
  split_ifs with here
  all_goals simp [here]

private theorem two_le_matchQuality :
    2 ≤ s.matchQuality input id ↔ s.Abbreviated input id ∨ s.Wisp id ∧ s.WispExact input id := by
  unfold matchQuality
  split_ifs with here short wisp
  · simp [here.abbreviated]
  · simp [short]
  · simp [wisp]
  all_goals simp [short, wisp]

private theorem WispExact.abbreviated (here : s.WispExact input id) :
    s.Abbreviated input id ∨ s.WispAbbreviated input id := by
  rcases here with plain | bare
  · exact .inl plain.abbreviated
  · right
    rw [WispAbbreviated, bare]
    exact List.prefix_refl _

private theorem one_le_matchQuality :
    1 ≤ s.matchQuality input id ↔
      s.Abbreviated input id ∨ s.Wisp id ∧ s.WispAbbreviated input id := by
  unfold matchQuality
  split_ifs with here short wisp wispShort
  · simp [here.abbreviated]
  · simp [short]
  · simp [wisp, wisp.2.abbreviated.resolve_left short]
  · simp [wispShort]
  · simp [short, wispShort]

theorem stored_of_mem_searchIssueIDs (held : id ∈ s.searchIssueIDs query) : s.Stored id := by
  simp only [searchIssueIDs, List.mem_append, List.mem_filter, List.mem_map,
    decide_eq_true_eq] at held
  rcases held with ⟨⟨row, ⟨mem, -⟩, rfl⟩, -⟩ | ⟨row, ⟨mem, -⟩, rfl⟩
  · exact .inl ⟨row, mem, rfl⟩
  · exact .inr ⟨row, mem, rfl⟩

private theorem mem_ephemeralIDs {t : Table IdRow.id} :
    id ∈ ephemeralIDs query t ↔
      ∃ row ∈ t, row.Matches query ∧ row.ephemeral = true ∧ row.id = id := by
  simp [ephemeralIDs, and_assoc]
  rfl

/-- The second search returns nothing that the first does not. -/
theorem of_mem_searchEphemeralIDs (held : id ∈ s.searchEphemeralIDs query) :
    id ∈ s.searchIssueIDs query ∧ s.Wisp id := by
  simp only [searchEphemeralIDs] at held
  simp only [searchIssueIDs, List.mem_append, List.mem_filter, List.mem_map, decide_eq_true_eq]
  split at held
  all_goals
    obtain ⟨row, mem, matched, ephemeral, rfl⟩ := mem_ephemeralIDs.mp held
  · exact ⟨.inr ⟨row, ⟨mem, matched⟩, rfl⟩, .inr ⟨row, mem, rfl, ephemeral⟩⟩
  · refine ⟨?_, .inl ⟨row, mem, rfl, ephemeral⟩⟩
    by_cases both : ∃ wisp, (wisp ∈ s.wisps.rows ∧ wisp.Matches query) ∧ wisp.id = row.id
    · exact .inr both
    · exact .inl ⟨⟨row, ⟨mem, matched⟩, rfl⟩, both⟩

/-! ## The empty id -/

theorem trimStart_empty (start : String) : trimStart "" start = "" := by
  unfold trimStart
  split <;> simp

theorem issueHash_empty (knownPrefixes : List String) : issueHash knownPrefixes "" = "" := by
  unfold issueHash
  simp [trimStart_empty]

theorem hashPart_ne_empty (searched : partialIDSearchPart (s.hashPart input) = some part) :
    s.hashPart input ≠ "" := by
  intro empty
  have none : partialIDSearchPart "" = none := by decide
  simp [empty, none] at searched

theorem Exact.ne_empty (searched : partialIDSearchPart (s.hashPart input) = some part)
    (here : s.Exact input id) :
    id ≠ "" := by
  rintro rfl
  rw [Exact, issueHash_empty] at here
  exact hashPart_ne_empty searched here.symm

private theorem WispExact.ne_empty (searched : partialIDSearchPart (s.hashPart input) = some part)
    (here : s.WispExact input id) : id ≠ "" := by
  rcases here with plain | bare
  · exact plain.ne_empty searched
  · rintro rfl
    rw [wispHash, issueHash_empty, trimStart_empty] at bare
    exact hashPart_ne_empty searched bare.symm

/-! ## The resolution -/

/-- The search that decides: the first when it returns an abbreviation, and else the second. -/
theorem resolvePartialID_eq (wispIDs : List String) (stored : ¬ s.Stored input)
    (normalized : ¬ s.Stored (s.normalizedID input))
    (searched : partialIDSearchPart (s.hashPart input) = some part) (other : input ∉ ids) :
    s.resolvePartialID input ids wispIDs =
      if ∃ id ∈ ids, s.Abbreviated input id then resolvePass input (s.Exact input) (s.Abbreviated input) ids
      else resolvePass input (s.WispExact input) (s.WispAbbreviated input) wispIDs := by
  have exactly : ∀ a, (ids.filter (s.Exact input)).getLast? = some a →
      (∃ id ∈ ids, s.Abbreviated input id) ∧ a ≠ "" := by
    intro a last
    have held : a ∈ ids ∧ s.Exact input a := by simpa using List.mem_of_getLast? last
    exact ⟨⟨a, held.1, held.2.abbreviated⟩, held.2.ne_empty searched⟩
  unfold resolvePartialID
  rw [if_neg stored, if_neg normalized, searched]
  simp only [resolvePass, resolveWisps, scanMatches_eq _ _ other, List.nil_append]
  cases last : (ids.filter (s.Exact input)).getLast? with
  | some a =>
    obtain ⟨short, named⟩ := exactly a last
    rw [if_pos short]
    simp [named]
  | none =>
    have none : ∀ id ∈ ids, ¬ s.Exact input id := by simpa using last
    by_cases short : ∃ id ∈ ids, s.Abbreviated input id
    · obtain ⟨id, held, shortId⟩ := short
      have some : (ids.filter fun id => ¬ s.Exact input id ∧ s.Abbreviated input id) ≠ [] :=
        List.ne_nil_of_mem (a := id) (by simp [held, shortId, none id held])
      have short : ∃ id ∈ ids, s.Abbreviated input id := ⟨id, held, shortId⟩
      rw [if_pos short]
      simp only [Option.getD_none, ne_eq, not_true_eq_false, if_false]
      rw [if_neg some]
    · have empty : (ids.filter fun id => ¬ s.Exact input id ∧ s.Abbreviated input id) = [] := by
        simpa using fun id held _ shortId => short ⟨id, held, shortId⟩
      rw [if_neg short, empty]
      simp

/-- No search returns the input or its normalized form. -/
theorem ne_of_mem_searchIssueIDs (stored : ¬ s.Stored input)
    (normalized : ¬ s.Stored (s.normalizedID input))
    (held : id ∈ s.searchIssueIDs query) : id ≠ input ∧ id ≠ s.normalizedID input := by
  have kept := stored_of_mem_searchIssueIDs held
  constructor
  · rintro rfl
    exact stored kept
  · rintro rfl
    exact normalized kept

/-- The first search settles the resolution, when it returns a match. -/
theorem first_unambiguous (stored : ¬ s.Stored input)
    (normalized : ¬ s.Stored (s.normalizedID input))
    (searched : partialIDSearchPart (s.hashPart input) = some part) :
    Unambiguous (·.Perm (s.searchIssueIDs query)) (resolvePass input (s.Exact input) (s.Abbreviated input))
      (s.Rival input) ↔
    Settles (s.searchIssueIDs query) (s.Exact input) (s.Abbreviated input)
      (fun id => s.Stored id ∧ s.Exact input id)
      (fun id => s.Stored id ∧ s.Abbreviated input id) := by
  apply resolvePass_unambiguous
  · exact fun held => stored (stored_of_mem_searchIssueIDs held)
  · intro a _ here
    exact here.ne_empty searched
  · intro a held here
    exact ⟨stored_of_mem_searchIssueIDs held, here⟩
  · intro a held here b
    have quality : s.matchQuality input a = 4 := by simp [matchQuality, here]
    rw [Rival, and_iff_right (ne_of_mem_searchIssueIDs stored normalized held), quality,
      four_le_matchQuality]
  · intro a held differs short b
    have quality : s.matchQuality input a = 3 := by simp [matchQuality, differs, short]
    rw [Rival, and_iff_right (ne_of_mem_searchIssueIDs stored normalized held), quality,
      three_le_matchQuality]

/-- The second search settles it, when the first returns no match. -/
theorem second_unambiguous (stored : ¬ s.Stored input)
    (normalized : ¬ s.Stored (s.normalizedID input))
    (none : ∀ id ∈ s.searchIssueIDs query, ¬ s.Abbreviated input id)
    (searched : partialIDSearchPart (s.hashPart input) = some part) :
    Unambiguous (·.Perm (s.searchEphemeralIDs query))
      (resolvePass input (s.WispExact input) (s.WispAbbreviated input)) (s.Rival input) ↔
    Settles (s.searchEphemeralIDs query) (s.WispExact input) (s.WispAbbreviated input)
      (fun id => s.Stored id ∧ (s.Abbreviated input id ∨ s.Wisp id ∧ s.WispExact input id))
      (fun id => s.Stored id ∧ (s.Abbreviated input id ∨ s.Wisp id ∧ s.WispAbbreviated input id)) := by
  have plain {a : String} (held : a ∈ s.searchEphemeralIDs query) :
      ¬ s.Abbreviated input a ∧ ¬ s.Exact input a ∧ s.Wisp a := by
    obtain ⟨first, wisp⟩ := of_mem_searchEphemeralIDs held
    exact ⟨none a first, fun here => none a first here.abbreviated, wisp⟩
  have differ {a : String} (held : a ∈ s.searchEphemeralIDs query) :
      a ≠ input ∧ a ≠ s.normalizedID input :=
    ne_of_mem_searchIssueIDs stored normalized (of_mem_searchEphemeralIDs held).1
  apply resolvePass_unambiguous
  · exact fun held => stored (stored_of_mem_searchIssueIDs (of_mem_searchEphemeralIDs held).1)
  · intro a _ here
    exact here.ne_empty searched
  · intro a held here
    exact ⟨stored_of_mem_searchIssueIDs (of_mem_searchEphemeralIDs held).1,
      .inr ⟨(plain held).2.2, here⟩⟩
  · intro a held here b
    have quality : s.matchQuality input a = 2 := by simp [matchQuality, plain held, here]
    rw [Rival, and_iff_right (differ held), quality, two_le_matchQuality]
  · intro a held differs short b
    have quality : s.matchQuality input a = 1 := by simp [matchQuality, plain held, differs, short]
    rw [Rival, and_iff_right (differ held), quality, one_le_matchQuality]

variable (s input) in
/-- The searches settle the input: the first, and the second when the first returns no match. -/
def SearchesSettle : Prop :=
  ∀ part, partialIDSearchPart (s.hashPart input) = some part →
    Settles (s.searchIssueIDs part) (s.Exact input) (s.Abbreviated input)
      (fun id => s.Stored id ∧ s.Exact input id) (fun id => s.Stored id ∧ s.Abbreviated input id) ∧
    ((∀ id ∈ s.searchIssueIDs part, ¬ s.Abbreviated input id) →
      Settles (s.searchEphemeralIDs part) (s.WispExact input) (s.WispAbbreviated input)
        (fun id => s.Stored id ∧ (s.Abbreviated input id ∨ s.Wisp id ∧ s.WispExact input id))
        (fun id => s.Stored id ∧ (s.Abbreviated input id ∨ s.Wisp id ∧ s.WispAbbreviated input id)))

variable (s input) in
/-- The lists are what the two searches of a resolution return, each in some order. -/
def Searched (found : List String × List String) : Prop :=
  ∀ part, partialIDSearchPart (s.hashPart input) = some part →
    found.1.Perm (s.searchIssueIDs part) ∧ found.2.Perm (s.searchEphemeralIDs part)

/-- An input that is searched for is unambiguous just when the searches settle it. -/
theorem searched_unambiguous (stored : ¬ s.Stored input)
    (normalized : ¬ s.Stored (s.normalizedID input))
    (searched : partialIDSearchPart (s.hashPart input) = some part) :
    Unambiguous (s.Searched input) (fun found => s.resolvePartialID input found.1 found.2) (s.Rival input) ↔
      s.SearchesSettle input := by
  have orders (found : List String × List String) : s.Searched input found ↔
      found.1.Perm (s.searchIssueIDs part) ∧ found.2.Perm (s.searchEphemeralIDs part) := by
    simp [Searched, searched]
  have outcome (found : List String × List String) (order : s.Searched input found) :=
    resolvePartialID_eq found.2 stored normalized searched
      fun held => stored (stored_of_mem_searchIssueIDs (((orders found).mp order).1.subset held))
  have matched (found : List String × List String) (order : s.Searched input found) :
      (∃ id ∈ found.1, s.Abbreviated input id) ↔ ∃ id ∈ s.searchIssueIDs part, s.Abbreviated input id := by
    simp [((orders found).mp order).1.mem_iff]
  simp only [SearchesSettle, searched, Option.some.injEq, forall_eq']
  -- whichever search decides, the order of the other one is of no consequence
  by_cases short : ∃ id ∈ s.searchIssueIDs part, s.Abbreviated input id
  · rw [← first_unambiguous stored normalized searched,
      and_iff_left fun none => absurd short (by simpa using none)]
    apply Unambiguous.comp_iff Prod.fst
    · exact fun found order => ((orders found).mp order).1
    · exact fun ids perm => ⟨(ids, s.searchEphemeralIDs part), (orders _).mpr ⟨perm, .refl _⟩, rfl⟩
    · intro found order
      simp only [outcome found order, (matched found order).mpr short, if_true]
  · have none : ∀ id ∈ s.searchIssueIDs part, ¬ s.Abbreviated input id := by simpa using short
    have first : Settles (s.searchIssueIDs part) (s.Exact input) (s.Abbreviated input)
        (fun id => s.Stored id ∧ s.Exact input id) (fun id => s.Stored id ∧ s.Abbreviated input id) := by
      constructor
      · exact fun a held here => absurd here.abbreviated (none a held)
      · exact fun a _ single => absurd (of_filter_eq_singleton single).2
          (none a (of_filter_eq_singleton single).1)
    rw [and_iff_right first, forall_prop_of_true none,
      ← second_unambiguous stored normalized none searched]
    apply Unambiguous.comp_iff Prod.snd
    · exact fun found order => ((orders found).mp order).2
    · exact fun ids perm => ⟨(s.searchIssueIDs part, ids), (orders _).mpr ⟨.refl _, perm⟩, rfl⟩
    · intro found order
      simp only [outcome found order, matched found order, short, if_false]

/-- A resolution is unambiguous just when the input or its normalized form is stored or the searches
settle it. -/
theorem resolvePartialID_unambiguous (s : IdStore) (input : String) :
    Unambiguous (s.Searched input) (fun found => s.resolvePartialID input found.1 found.2) (s.Rival input) ↔
      s.Stored input ∨ s.Stored (s.normalizedID input) ∨ s.SearchesSettle input := by
  by_cases stored : s.Stored input
  · simp only [stored, true_or, iff_true]
    constructor
    · intro _ _ _ _
      simp [resolvePartialID, stored]
    · intro _ _ a found b rival
      simp only [resolvePartialID, stored, if_true, Resolution.found.injEq] at found
      exact absurd found.symm rival.1.1
  by_cases normalized : s.Stored (s.normalizedID input)
  · simp only [stored, normalized, true_or, or_true, iff_true]
    constructor
    · intro _ _ _ _
      simp [resolvePartialID, stored, normalized]
    · intro _ _ a found b rival
      simp only [resolvePartialID, stored, normalized, if_true, if_false,
        Resolution.found.injEq] at found
      exact absurd found.symm rival.1.2
  simp only [stored, normalized, false_or]
  cases searched : partialIDSearchPart (s.hashPart input) with
  | some part => exact searched_unambiguous stored normalized searched
  | none =>
    have settle : s.SearchesSettle input := by simp [SearchesSettle, searched]
    simp only [settle, iff_true]
    constructor
    · intro _ _ _ _
      simp [resolvePartialID, stored, normalized, searched]
    · intro _ _ a found
      simp [resolvePartialID, stored, normalized, searched] at found

/-- Two issues with one hash under two allowed prefixes. -/
def twinHashes : IdStore where
  issues := ⟨[{ id := "aa-x1k" }, { id := "bb-x1k" }], by decide⟩
  wisps := Table.empty
  issuePrefix := "bd"
  allowedPrefixes := "aa,bb"

/-- Which of them the hash resolves to is decided by the order of the search. -/
theorem twinHashes_ambiguous :
    ¬ Unambiguous (twinHashes.Searched "x1k") (fun found => twinHashes.resolvePartialID "x1k" found.1 found.2)
      (twinHashes.Rival "x1k") := by
  intro clear
  have searched : partialIDSearchPart (twinHashes.hashPart "x1k") = some "x1k" := by decide +kernel
  have first : twinHashes.searchIssueIDs "x1k" = ["aa-x1k", "bb-x1k"] := by decide +kernel
  have second : twinHashes.searchEphemeralIDs "x1k" = [] := by decide +kernel
  have order : twinHashes.Searched "x1k" (["aa-x1k", "bb-x1k"], []) := by
    simp [Searched, searched, first, second]
  have swapped : twinHashes.Searched "x1k" (["bb-x1k", "aa-x1k"], []) := by
    simp [Searched, searched, first, second, List.Perm.swap]
  have same := clear.same _ _ order swapped
  have found : twinHashes.resolvePartialID "x1k" ["aa-x1k", "bb-x1k"] [] = .found "bb-x1k" := by
    decide +kernel
  have found' : twinHashes.resolvePartialID "x1k" ["bb-x1k", "aa-x1k"] [] = .found "aa-x1k" := by
    decide +kernel
  simp [found, found'] at same

end IdStore
end Beads
