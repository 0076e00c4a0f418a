import Mathlib.Data.List.Infix
import Mathlib.Data.List.Count
import Mathlib.Data.List.Nodup
import Mathlib.Data.List.Induction
import Beads.Lib.Terminated

/-! Names in brackets that stand for values: replaced all at once, or one name after the other. The
second may also replace what an earlier value has brought in or completed. -/
namespace Beads.Lib

/-- The text with all occurrences replaced, with so many elements of a match still to pass over. -/
def replacing {α : Type} [DecidableEq α] (old new : List α) : Nat → List α → List α
  | _, [] => []
  | matched + 1, _ :: rest => replacing old new matched rest
  | 0, c :: rest =>
    if old.isPrefixOf (c :: rest) then new ++ replacing old new (old.length - 1) rest
    else c :: replacing old new 0 rest

/-! ## Names in brackets -/

section Brackets
variable {α : Type} {opening closing : α} {name name' text rest value value' : List α}

/-- A name between brackets. -/
def bracketed (opening closing : α) (name : List α) : List α := opening :: (name ++ [closing])

/-- A name without brackets. -/
structure Unbracketed (opening closing : α) (name : List α) : Prop where
  opening : opening ∉ name
  closing : closing ∉ name

theorem bracketed_inj (plain : Unbracketed opening closing name)
    (plain' : Unbracketed opening closing name')
    (starts : bracketed opening closing name <+: bracketed opening closing name' ++ rest) :
    name = name' := by
  obtain ⟨tail, same⟩ := starts
  simp only [bracketed, List.cons_append, List.cons.injEq, true_and, List.append_assoc,
    List.nil_append] at same
  exact (eq_before_stop plain.closing plain'.closing same).1

private theorem bracketed_infix_append (plain : opening ∉ text)
    (inside : bracketed opening closing name <:+: text ++ rest) :
    bracketed opening closing name <:+: rest := by
  induction text with
  | nil => exact inside
  | cons a text ih =>
    rw [List.mem_cons, not_or] at plain
    rw [List.cons_append, List.infix_cons_iff] at inside
    rcases inside with ⟨tail, here⟩ | later
    · exact absurd (List.cons.inj here).1 plain.1
    · exact ih plain.2 later

theorem not_opening_tail (apart : opening ≠ closing) (plain : Unbracketed opening closing name) :
    opening ∉ name ++ [closing] := by
  rw [List.mem_append, List.mem_singleton, not_or]
  exact ⟨plain.opening, apart⟩

end Brackets

section Filling
variable {α β : Type} (opening closing : α) (key : β → α)
variable {table : List (List α × List β)} {slot : List α × List β} {text rest front : List β}
  {name : List α}

/-- The names of a table have no brackets and are not there twice. -/
structure Distinct (table : List (List α × List β)) : Prop where
  apart : opening ≠ closing
  names : ∀ slot ∈ table, Unbracketed opening closing slot.1
  once : (table.map Prod.fst).Nodup

variable {opening closing key}

/-- Of the names in a table at most one begins a text. -/
theorem Distinct.eq_of_starts (distinct : Distinct opening closing table)
    {slot slot' : List α × List β}
    (held : slot ∈ table) (held' : slot' ∈ table) {keys : List α}
    (starts : bracketed opening closing slot.1 <+: keys)
    (starts' : bracketed opening closing slot'.1 <+: keys) : slot = slot' := by
  obtain ⟨tail, rfl⟩ := starts'
  have same : slot.1 = slot'.1 :=
    bracketed_inj (distinct.names slot held) (distinct.names slot' held') starts
  exact List.inj_on_of_nodup_map distinct.once held held' same

theorem starts_iff_keys (name : List α) (text : List β) :
    bracketed opening closing name <+: text.map key ↔
      ∃ front rest, text = front ++ rest ∧ front.map key = bracketed opening closing name := by
  constructor
  · rintro ⟨tail, same⟩
    obtain ⟨front, rest, rfl, keys, -⟩ := List.map_eq_append_iff.mp same.symm
    exact ⟨front, rest, rfl, keys⟩
  · rintro ⟨front, rest, rfl, keys⟩
    rw [List.map_append, keys]
    exact List.prefix_append _ _

variable (opening closing key) [DecidableEq α]

/-- The text with the values for the names in brackets, with so many elements of a match still to
pass over. An element of the text stands for its key. -/
def filling (table : List (List α × List β)) : Nat → List β → List β
  | _, [] => []
  | matched + 1, _ :: rest => filling table matched rest
  | 0, c :: rest =>
    match table.find? fun slot => (bracketed opening closing slot.1).isPrefixOf ((c :: rest).map key) with
    | some slot => slot.2 ++ filling table (slot.1.length + 1) rest
    | none => c :: filling table 0 rest

/-- One name after the other. -/
def fillingEach (table : List (List α × List β)) (text : List β) : List β :=
  table.foldl (fun text slot => filling opening closing key [slot] 0 text) text

variable {opening closing key}

theorem filling_nil (matched : Nat) : filling opening closing key table matched [] = [] := by
  unfold filling
  rfl

private theorem filling_pass (passed : List β) :
    filling opening closing key table passed.length (passed ++ rest) = filling opening closing key table 0 rest := by
  induction passed with
  | nil => rfl
  | cons a passed ih => exact ih

theorem filling_of_find {c : β} (found : (table.find? fun slot =>
      (bracketed opening closing slot.1).isPrefixOf ((c :: rest).map key)) = some slot) :
    filling opening closing key table 0 (c :: rest) =
      slot.2 ++ filling opening closing key table (slot.1.length + 1) rest := by
  rw [filling, found]

theorem filling_of_none {c : β} (found : (table.find? fun slot =>
      (bracketed opening closing slot.1).isPrefixOf ((c :: rest).map key)) = none) :
    filling opening closing key table 0 (c :: rest) = c :: filling opening closing key table 0 rest := by
  rw [filling, found]

theorem filling_miss {c : β}
    (absent : ∀ slot ∈ table, ¬bracketed opening closing slot.1 <+: (c :: rest).map key) :
    filling opening closing key table 0 (c :: rest) = c :: filling opening closing key table 0 rest := by
  refine filling_of_none (List.find?_eq_none.mpr fun slot held => ?_)
  rw [List.isPrefixOf_iff_prefix]
  exact absent slot held

theorem filling_found (found : (table.find? fun slot =>
      (bracketed opening closing slot.1).isPrefixOf ((front ++ rest).map key)) = some slot)
    (keys : front.map key = bracketed opening closing slot.1) :
    filling opening closing key table 0 (front ++ rest) = slot.2 ++ filling opening closing key table 0 rest := by
  cases front with
  | nil => cases keys
  | cons c front =>
    have length : slot.1.length + 1 = front.length := by
      have := congrArg List.length keys
      simp only [bracketed, List.length_map, List.length_cons, List.length_append,
        List.length_nil] at this
      omega
    rw [List.cons_append] at found ⊢
    rw [filling_of_find found, length, filling_pass]

theorem filling_match (distinct : Distinct opening closing table) (held : slot ∈ table)
    (keys : front.map key = bracketed opening closing slot.1) :
    filling opening closing key table 0 (front ++ rest) = slot.2 ++ filling opening closing key table 0 rest := by
  have starts : bracketed opening closing slot.1 <+: (front ++ rest).map key := by
    rw [List.map_append, keys]
    exact List.prefix_append _ _
  refine filling_found ?_ keys
  generalize (front ++ rest).map key = keys at starts ⊢
  cases first : table.find? fun slot => (bracketed opening closing slot.1).isPrefixOf keys with
  | none =>
    refine absurd (List.find?_eq_none.mp first slot held) ?_
    simpa [List.isPrefixOf_iff_prefix] using starts
  | some other =>
    have starts' : bracketed opening closing other.1 <+: keys := by
      simpa [List.isPrefixOf_iff_prefix] using List.find?_some first
    rw [distinct.eq_of_starts held (List.mem_of_find?_eq_some first) starts starts']

/-- Elements that are not brackets stay. -/
theorem filling_append (plain : opening ∉ text.map key) :
    filling opening closing key table 0 (text ++ rest) = text ++ filling opening closing key table 0 rest := by
  induction text with
  | nil => rfl
  | cons c text ih =>
    rw [List.map_cons, List.mem_cons, not_or] at plain
    rw [List.cons_append, filling_miss, ih plain.2, List.cons_append]
    rintro slot - ⟨tail, same⟩
    exact plain.1 (List.cons.inj same).1

theorem filling_absent (absent : ∀ slot ∈ table, ¬bracketed opening closing slot.1 <:+: text.map key) :
    filling opening closing key table 0 text = text := by
  induction text with
  | nil => exact filling_nil 0
  | cons c rest ih =>
    rw [filling_miss fun slot held here => absent slot held here.isInfix, ih]
    exact fun slot held later => absent slot held (List.infix_cons later)

/-- Another name in brackets stays. -/
theorem filling_other (apart : opening ≠ closing) (plain : Unbracketed opening closing name)
    (names : ∀ slot ∈ table, Unbracketed opening closing slot.1)
    (different : ∀ slot ∈ table, slot.1 ≠ name)
    (keys : front.map key = bracketed opening closing name) :
    filling opening closing key table 0 (front ++ rest) = front ++ filling opening closing key table 0 rest := by
  cases front with
  | nil => cases keys
  | cons c front =>
    have tail : front.map key = name ++ [closing] := (List.cons.inj keys).2
    rw [List.cons_append, filling_miss, filling_append]
    · rfl
    · rw [tail]
      exact not_opening_tail apart plain
    · intro slot held starts
      rw [← List.cons_append, List.map_append, keys] at starts
      exact different slot held (bracketed_inj (names slot held) plain starts)

end Filling

/-! ## More names -/

section More
variable {α : Type} [DecidableEq α] {opening closing : α} {table more : List (List α × List α)}
variable {name text : List α}

/-- Names that are not in the text, and those that are there already, change nothing. -/
theorem filling_more (absent : ∀ slot ∈ more, slot.1 ∉ table.map Prod.fst →
      ¬bracketed opening closing slot.1 <:+: text) (matched : Nat) :
    filling opening closing id (table ++ more) matched text = filling opening closing id table matched text := by
  induction text generalizing matched with
  | nil => rw [filling_nil, filling_nil]
  | cons c rest ih =>
    have ih := ih fun slot held fresh later => absent slot held fresh (List.infix_cons later)
    cases matched with
    | succ matched => exact ih matched
    | zero =>
      cases found : table.find? fun slot => (bracketed opening closing slot.1).isPrefixOf ((c :: rest).map id) with
      | some slot =>
        rw [filling_of_find found, filling_of_find (by rw [List.find?_append, found]; rfl), ih]
      | none =>
        have missed := List.find?_eq_none.mp found
        have none : ((table ++ more).find? fun slot =>
            (bracketed opening closing slot.1).isPrefixOf ((c :: rest).map id)) = none := by
          rw [List.find?_append, found, Option.none_or, List.find?_eq_none]
          intro slot held starts
          by_cases known : slot.1 ∈ table.map Prod.fst
          · obtain ⟨other, there, same⟩ := List.mem_map.mp known
            rw [← same] at starts
            exact missed other there starts
          · rw [List.isPrefixOf_iff_prefix, List.map_id] at starts
            exact absent slot held known starts.isInfix
        rw [filling_of_none found, filling_of_none none, ih]

/-- A name that the table knows is found there. -/
private theorem find?_of_known {slot : List α × List α} {rest : List α}
    (known : slot.1 ∈ table.map Prod.fst)
    (found : ((table ++ more).find? fun other => (bracketed opening closing other.1).isPrefixOf
      ((bracketed opening closing slot.1 ++ rest).map id)) = some slot) :
    (table.find? fun other => (bracketed opening closing other.1).isPrefixOf
      ((bracketed opening closing slot.1 ++ rest).map id)) = some slot := by
  obtain ⟨other, there, same⟩ := List.mem_map.mp known
  rw [List.find?_append] at found
  cases early : table.find? fun other => (bracketed opening closing other.1).isPrefixOf
      ((bracketed opening closing slot.1 ++ rest).map id) with
  | none =>
    refine absurd (List.find?_eq_none.mp early other there) ?_
    simp [same]
  | some early' =>
    rw [early] at found
    simpa using found

/-- Each name that is filled in takes its brackets with it. -/
theorem count_filling_more (apart : opening ≠ closing)
    (names : ∀ slot ∈ table ++ more, Unbracketed opening closing slot.1)
    (bare : ∀ slot ∈ table ++ more, opening ∉ slot.2) (text : List α) :
    (filling opening closing id (table ++ more) 0 text).count opening ≤
        (filling opening closing id table 0 text).count opening ∧
      (∀ slot ∈ more, slot.1 ∉ table.map Prod.fst → bracketed opening closing slot.1 <:+: text →
        (filling opening closing id (table ++ more) 0 text).count opening <
          (filling opening closing id table 0 text).count opening) := by
  have none {free : List α} (free' : opening ∉ free) : free.count opening = 0 :=
    List.count_eq_zero.mpr free'
  have shorter (slot : List α × List α) (rest : List α) :
      rest.length < (bracketed opening closing slot.1 ++ rest).length := by
    simp only [bracketed, List.length_append, List.length_cons]
    omega
  induction length : text.length using Nat.strong_induction_on generalizing text with
  | _ n ih =>
    subst length
    cases found : (table ++ more).find? fun slot => (bracketed opening closing slot.1).isPrefixOf (text.map id) with
    | none =>
      have missed {slot : List α × List α} (held : slot ∈ table ++ more) :
          ¬bracketed opening closing slot.1 <+: text := by
        simpa [List.isPrefixOf_iff_prefix] using List.find?_eq_none.mp found slot held
      cases text with
      | nil => simp [filling_nil, bracketed]
      | cons c rest =>
        obtain ⟨below, strictly⟩ := ih rest.length (by simp) rest rfl
        rw [filling_miss fun slot held => (List.map_id (c :: rest)).symm ▸ missed held,
          filling_miss fun slot held => (List.map_id (c :: rest)).symm ▸ missed (List.mem_append_left more held),
          List.count_cons, List.count_cons]
        refine ⟨by omega, fun slot held fresh inside => ?_⟩
        rcases List.infix_cons_iff.mp inside with here | later
        · exact absurd here (missed (List.mem_append_right table held))
        · have := strictly slot held fresh later
          omega
    | some slot =>
      have held := List.mem_of_find?_eq_some found
      have starts : bracketed opening closing slot.1 <+: text := by
        simpa [List.isPrefixOf_iff_prefix] using List.find?_some found
      obtain ⟨rest, rfl⟩ := starts
      obtain ⟨below, strictly⟩ := ih rest.length (shorter slot rest) rest rfl
      have tail := not_opening_tail apart (names slot held)
      rw [filling_found found (List.map_id _), List.count_append, none (bare slot held)]
      by_cases known : slot.1 ∈ table.map Prod.fst
      · have first := find?_of_known known found
        rw [filling_found first (List.map_id _), List.count_append, none (bare slot held)]
        refine ⟨by omega, fun later listed fresh inside => ?_⟩
        rw [bracketed, bracketed, List.cons_append, List.infix_cons_iff] at inside
        rcases inside with here | further
        · have same :=
            bracketed_inj (names later (List.mem_append_right table listed)) (names slot held) here
          exact absurd (same ▸ known) fresh
        · have := strictly later listed fresh (bracketed_infix_append tail further)
          omega
      · have other : filling opening closing id table 0 (bracketed opening closing slot.1 ++ rest) =
            bracketed opening closing slot.1 ++ filling opening closing id table 0 rest := by
          refine filling_other apart (names slot held)
            (fun other there => names other (List.mem_append_left more there))
            (fun other there same => known ?_) (List.map_id _)
          rw [← same]
          exact List.mem_map_of_mem there
        have fewer : 0 + (filling opening closing id (table ++ more) 0 rest).count opening <
            (filling opening closing id table 0 (bracketed opening closing slot.1 ++ rest)).count opening := by
          rw [other, bracketed, List.cons_append, List.count_cons_self, List.count_append]
          omega
        exact ⟨fewer.le, fun _ _ _ _ => fewer⟩

end More

/-! ## One name after the other -/

section Clashes
variable {α β : Type} [DecidableEq α] {opening closing : α} {key : β → α}
variable {table : List (List α × List β)} {slot : List α × List β} {text rest value : List β}
  {name : List α}

/-- Beside other texts a value may complete a name in brackets: the brackets open before the
value, or inside it. -/
def Clash (opening closing : α) (value name : List α) : Prop :=
  (∃ tail ∈ (name ++ [closing]).tails, tail ≠ [] ∧ (value <+: tail ∨ tail <+: value)) ∨
    ∃ tail ∈ value.tails, tail ≠ [] ∧
      (tail <+: bracketed opening closing name ∨ bracketed opening closing name <+: tail)

instance (value name : List α) : Decidable (Clash opening closing value name) := by
  unfold Clash
  infer_instance

/-- What the filled text begins with, the text began with, or a value has a part in it. -/
theorem prefix_filling (distinct : Distinct opening closing table) {start : List α}
    (starts : start <+: (filling opening closing key table 0 text).map key) :
    start <+: text.map key ∨
      ∃ tail, tail <:+ start ∧ tail ≠ [] ∧ ∃ slot ∈ table, slot.2.map key <+: tail ∨
        tail <+: slot.2.map key := by
  induction text generalizing start with
  | nil =>
    rw [filling_nil] at starts
    exact .inl starts
  | cons c rest ih =>
    cases start with
    | nil => exact .inl List.nil_prefix
    | cons a start =>
      by_cases found : ∃ slot ∈ table, bracketed opening closing slot.1 <+: (c :: rest).map key
      · obtain ⟨slot, held, here⟩ := found
        obtain ⟨front, behind, shape, keys⟩ := (starts_iff_keys _ _).mp here
        rw [shape, filling_match distinct held keys, List.map_append] at starts
        refine .inr ⟨a :: start, List.suffix_refl _, List.cons_ne_nil _ _, slot, held, ?_⟩
        exact List.prefix_or_prefix_of_prefix (List.prefix_append _ _) starts
      · rw [filling_miss fun slot held here => found ⟨slot, held, here⟩, List.map_cons,
          List.cons_prefix_cons] at starts
        rcases ih starts.2 with later | ⟨tail, within, some, met⟩
        · exact .inl (List.cons_prefix_cons.mpr ⟨starts.1, later⟩)
        · exact .inr ⟨tail, within.trans (List.suffix_cons _ _), some, met⟩

/-- A value that does not clash is passed over. -/
theorem filling_value (apart : ∀ tail ∈ (value.map key).tails, tail ≠ [] →
      ¬(tail <+: bracketed opening closing slot.1 ∨ bracketed opening closing slot.1 <+: tail)) :
    filling opening closing key [slot] 0 (value ++ rest) = value ++ filling opening closing key [slot] 0 rest := by
  induction value with
  | nil => rfl
  | cons c value ih =>
    have later : ∀ tail ∈ (value.map key).tails, tail ≠ [] →
        ¬(tail <+: bracketed opening closing slot.1 ∨ bracketed opening closing slot.1 <+: tail) := by
      intro tail held
      refine apart tail ?_
      rw [List.mem_tails] at held ⊢
      exact held.trans (List.suffix_cons _ _)
    rw [List.cons_append, filling_miss, ih later, List.cons_append]
    intro other held here
    rw [List.mem_singleton.mp held, ← List.cons_append, List.map_append] at here
    refine apart ((c :: value).map key) (by simp) (by simp) ?_
    exact List.prefix_or_prefix_of_prefix (List.prefix_append _ _) here

/-- One more name may be filled in afterwards, if no value before clashes with it. -/
theorem filling_filling (distinct : Distinct opening closing (table ++ [slot]))
    (safe : ∀ other ∈ table, ¬Clash opening closing (other.2.map key) slot.1) (text : List β) :
    filling opening closing key [slot] 0 (filling opening closing key table 0 text) =
      filling opening closing key (table ++ [slot]) 0 text := by
  have once := List.nodup_append.mp (List.map_append ▸ distinct.once)
  have names {other : List α × List β} (held : other ∈ table) :
      Unbracketed opening closing other.1 :=
    distinct.names other (List.mem_append_left _ held)
  have last : slot ∈ table ++ [slot] := List.mem_append_right _ (List.mem_singleton_self _)
  have before : Distinct opening closing table := ⟨distinct.apart, fun _ => names, once.1⟩
  have alone : Distinct opening closing [slot] :=
    ⟨distinct.apart, fun _ held => distinct.names _ (List.mem_append_right _ held), List.nodup_singleton _⟩
  induction length : text.length using Nat.strong_induction_on generalizing text with
  | _ n ih =>
    subst length
    by_cases found : ∃ other ∈ table, bracketed opening closing other.1 <+: text.map key
    · obtain ⟨other, held, here⟩ := found
      obtain ⟨front, rest, rfl, keys⟩ := (starts_iff_keys _ _).mp here
      have shorter : rest.length < (front ++ rest).length := by
        have := congrArg List.length keys
        simp only [bracketed, List.length_map, List.length_cons, List.length_append] at this ⊢
        omega
      rw [filling_match before held keys, filling_match distinct (List.mem_append_left _ held) keys,
        filling_value, ih rest.length shorter rest rfl]
      exact fun tail among some clash => safe other held (.inr ⟨tail, among, some, clash⟩)
    by_cases here : bracketed opening closing slot.1 <+: text.map key
    · obtain ⟨front, rest, rfl, keys⟩ := (starts_iff_keys _ _).mp here
      have shorter : rest.length < (front ++ rest).length := by
        have := congrArg List.length keys
        simp only [bracketed, List.length_map, List.length_cons, List.length_append] at this ⊢
        omega
      have different : ∀ other ∈ table, other.1 ≠ slot.1 := fun other held =>
        once.2.2 _ (List.mem_map_of_mem held) _ (List.mem_singleton_self _)
      rw [filling_other distinct.apart (distinct.names slot last) (fun _ => names) different keys,
        filling_match alone (List.mem_singleton_self _) keys, filling_match distinct last keys,
        ih rest.length shorter rest rfl]
    · cases text with
      | nil => rw [filling_nil, filling_nil, filling_nil]
      | cons c rest =>
        have absent : ¬∃ other ∈ table ++ [slot], bracketed opening closing other.1 <+:
            (c :: rest).map key := by
          rintro ⟨other, held, starts⟩
          rcases List.mem_append.mp held with held | held
          · exact found ⟨other, held, starts⟩
          · exact here (List.mem_singleton.mp held ▸ starts)
        have stays : ¬bracketed opening closing slot.1 <+:
            (c :: filling opening closing key table 0 rest).map key := by
          intro starts
          obtain ⟨first, starts⟩ := List.cons_prefix_cons.mp starts
          rcases prefix_filling before starts with later | ⟨tail, within, some, other, held, met⟩
          · exact here (List.cons_prefix_cons.mpr ⟨first, later⟩)
          · exact safe other held (.inl ⟨tail, (List.mem_tails _ _).mpr within, some, met⟩)
        rw [filling_miss fun other held starts => found ⟨other, held, starts⟩,
          filling_miss fun other held starts => absent ⟨other, held, starts⟩, filling_miss,
          ih rest.length (by simp) rest rfl]
        exact fun other held => List.mem_singleton.mp held ▸ stays

/-- Values that clash with no later name are never replaced. -/
theorem fillingEach_eq (distinct : Distinct opening closing table)
    (safe : table.Pairwise fun slot later => ¬Clash opening closing (slot.2.map key) later.1)
    (text : List β) :
    fillingEach opening closing key table text = filling opening closing key table 0 text := by
  induction table using List.reverseRecOn with
  | nil => exact (filling_absent fun _ held => absurd held List.not_mem_nil).symm
  | append_singleton table slot ih =>
    obtain ⟨before, -, later⟩ := List.pairwise_append.mp safe
    have first : Distinct opening closing table :=
      ⟨distinct.apart, fun other held => distinct.names other (List.mem_append_left _ held),
        (List.nodup_append.mp (List.map_append ▸ distinct.once)).1⟩
    have last : fillingEach opening closing key (table ++ [slot]) text =
        filling opening closing key [slot] 0 (fillingEach opening closing key table text) := List.foldl_concat ..
    have apart (other : List α × List β) (held : other ∈ table) :=
      later other held slot (List.mem_singleton_self _)
    rw [last, ih first before, filling_filling distinct apart]

end Clashes

/-! ## Where an element comes from -/

section Erasing
variable {α β : Type} [DecidableEq α] {opening closing : α} {key : β → α}

/-- What else the elements carry does not matter. -/
theorem map_filling (table : List (List α × List β)) (matched : Nat) (text : List β) :
    (filling opening closing key table matched text).map key =
      filling opening closing id (table.map fun slot => (slot.1, slot.2.map key)) matched (text.map key) := by
  induction text generalizing matched with
  | nil => rw [filling_nil, List.map_nil, filling_nil]
  | cons c rest ih =>
    cases matched with
    | succ matched => exact ih matched
    | zero =>
      have again : ((table.map fun slot => (slot.1, slot.2.map key)).find? fun slot =>
            (bracketed opening closing slot.1).isPrefixOf ((key c :: rest.map key).map id)) =
          (table.find? fun slot => (bracketed opening closing slot.1).isPrefixOf ((c :: rest).map key)).map
            fun slot => (slot.1, slot.2.map key) := by
        rw [List.find?_map, List.map_id]
        rfl
      cases found : table.find? fun slot => (bracketed opening closing slot.1).isPrefixOf ((c :: rest).map key) with
      | none =>
        rw [found] at again
        rw [filling_of_none found, List.map_cons, List.map_cons, filling_of_none again, ih]
      | some slot =>
        rw [found] at again
        rw [filling_of_find found, List.map_append, List.map_cons, filling_of_find again, ih]

theorem map_fillingEach (table : List (List α × List β)) (text : List β) :
    (fillingEach opening closing key table text).map key =
      fillingEach opening closing id (table.map fun slot => (slot.1, slot.2.map key)) (text.map key) := by
  unfold fillingEach
  induction table generalizing text with
  | nil => rfl
  | cons slot table ih =>
    rw [List.foldl_cons, ih, List.map_cons, List.foldl_cons, map_filling, List.map_singleton]

/-- Filling in one name replaces it. -/
theorem filling_singleton (name value : List α) (matched : Nat) (text : List α) :
    filling opening closing id [(name, value)] matched text =
      replacing (bracketed opening closing name) value matched text := by
  induction text generalizing matched with
  | nil => rw [filling_nil, replacing]
  | cons c rest ih =>
    cases matched with
    | succ matched => exact ih matched
    | zero =>
      have length : (bracketed opening closing name).length - 1 = name.length + 1 := by
        simp [bracketed]
      by_cases starts : (bracketed opening closing name).isPrefixOf (c :: rest) = true
      · have found : ([(name, value)].find? fun slot =>
            (bracketed opening closing slot.1).isPrefixOf ((c :: rest).map id)) = some (name, value) := by
          rw [List.find?_singleton, List.map_id, if_pos starts]
        rw [filling_of_find found, replacing, if_pos starts, length, ih]
      · have none : ([(name, value)].find? fun slot =>
            (bracketed opening closing slot.1).isPrefixOf ((c :: rest).map id)) = none := by
          rw [List.find?_singleton, List.map_id, if_neg starts]
        rw [filling_of_none none, replacing, if_neg starts, ih]

end Erasing

/-! ## Values that are replaced -/

section Replaced
variable {α β : Type} {opening closing : α} {key : β → α}
variable {table before later : List (List α × List β)} {slot other : List α × List β}
variable {text rest lead hole trail : List β} {name value : List α}

/-- The beginning of a name in brackets, or nothing. -/
def Lead (opening closing : α) (text : List α) : Prop :=
  text = [] ∨ ∃ start, text = opening :: start ∧ Unbracketed opening closing start

theorem Clash.completes (clash : Clash opening closing value name) (apart : opening ≠ closing)
    (plain : Unbracketed opening closing name) :
    ∃ lead trail, Lead opening closing lead ∧ opening ∉ trail ∧
      bracketed opening closing name <:+: lead ++ value ++ trail := by
  have tail := not_opening_tail apart plain
  rcases clash with ⟨behind, within, some, met⟩ | ⟨behind, within, some, met⟩
  · -- the brackets open before the value
    obtain ⟨start, shape⟩ := (List.mem_tails _ _).mp within
    have inside : start <+: name := by
      rcases List.eq_nil_or_concat behind with none | ⟨inner, last, rfl⟩
      · exact absurd none some
      · rw [List.concat_eq_append, ← List.append_assoc] at shape
        exact ⟨inner, (List.append_inj' shape rfl).1⟩
    have lead : Lead opening closing (opening :: start) :=
      .inr ⟨start, rfl, fun held => plain.opening (inside.subset held), fun held => plain.closing (inside.subset held)⟩
    rcases met with ⟨trail, rfl⟩ | ⟨trail, rfl⟩
    · refine ⟨opening :: start, trail, lead, fun held => tail (shape ▸ by simp [held]), ?_⟩
      rw [bracketed, ← shape, List.cons_append, List.cons_append, List.append_assoc]
    · refine ⟨opening :: start, [], lead, List.not_mem_nil, [], trail, ?_⟩
      rw [bracketed, ← shape]
      simp
  · -- the brackets open inside the value
    obtain ⟨front, rfl⟩ := (List.mem_tails _ _).mp within
    rcases met with ⟨trail, shape⟩ | inside
    · refine ⟨[], trail, .inl rfl, fun held => tail ?_, front, [], by simp [← shape]⟩
      cases behind with
      | nil => exact absurd rfl some
      | cons a behind =>
        rw [← (List.cons.inj shape).2]
        exact List.mem_append_right _ held
    · refine ⟨[], [], .inl rfl, List.not_mem_nil, ?_⟩
      rw [List.nil_append, List.append_nil]
      exact inside.isInfix.trans (List.suffix_append _ _).isInfix

variable [DecidableEq α]

private theorem filling_lead (apart : opening ≠ closing)
    (names : ∀ slot ∈ table, Unbracketed opening closing slot.1)
    (leads : Lead opening closing (lead.map key)) {more : List α}
    (opens : rest.map key = opening :: more) :
    filling opening closing key table 0 (lead ++ rest) = lead ++ filling opening closing key table 0 rest := by
  rcases leads with none | ⟨start, keys, plain⟩
  · rw [List.map_eq_nil_iff.mp none, List.nil_append, List.nil_append]
  · obtain ⟨c, lead, rfl, first, rfl⟩ := List.map_eq_cons_iff.mp keys
    rw [List.cons_append, filling_miss, filling_append plain.opening, List.cons_append]
    intro slot held starts
    rw [List.map_cons, List.map_append, opens, bracketed, List.cons_prefix_cons] at starts
    have ends : lead.map key ++ [opening] <+: lead.map key ++ opening :: more := ⟨more, by simp⟩
    rcases List.prefix_or_prefix_of_prefix starts.2 ends with inside | inside
    · have held : closing ∈ lead.map key ++ [opening] := inside.subset (by simp)
      rcases List.mem_append.mp held with held | held
      · exact plain.closing held
      · exact apart (List.mem_singleton.mp held).symm
    · exact not_opening_tail apart (names slot held) (inside.subset (by simp))

private theorem filling_plain (plain : opening ∉ text.map key) :
    filling opening closing key table 0 text = text := by
  have stays : filling opening closing key table 0
      (text ++ []) = text ++ filling opening closing key table 0 [] :=
    filling_append plain
  rwa [filling_nil, List.append_nil] at stays

section Counting
variable {early : β → Bool}

/-- Of the elements that are told apart from the value, none comes in, and some go where the name is
found. -/
theorem countP_filling (apart : opening ≠ closing) (plain : Unbracketed opening closing slot.1)
    (values : ∀ c ∈ slot.2, early c = false) (text : List β) :
    (filling opening closing key [slot] 0 text).countP early ≤ text.countP early ∧
      (bracketed opening closing slot.1 <:+: text.map key →
        (filling opening closing key [slot] 0 text).countP early < text.length) := by
  have alone : Distinct opening closing [slot] :=
    ⟨apart, fun _ held => List.mem_singleton.mp held ▸ plain, List.nodup_singleton _⟩
  have none : slot.2.countP early = 0 :=
    List.countP_eq_zero.mpr fun c held => by simp [values c held]
  induction length : text.length using Nat.strong_induction_on generalizing text with
  | _ n ih =>
    subst length
    by_cases here : bracketed opening closing slot.1 <+: text.map key
    · obtain ⟨front, rest, rfl, keys⟩ := (starts_iff_keys _ _).mp here
      have shorter : rest.length < (front ++ rest).length := by
        have := congrArg List.length keys
        simp only [bracketed, List.length_map, List.length_cons, List.length_append] at this ⊢
        omega
      obtain ⟨below, -⟩ := ih rest.length shorter rest rfl
      rw [filling_match alone (List.mem_singleton_self _) keys, List.countP_append, none,
        List.countP_append]
      have : rest.countP early ≤ rest.length := List.countP_le_length
      exact ⟨by omega, fun _ => by omega⟩
    · cases text with
      | nil =>
        rw [filling_nil]
        exact ⟨Nat.le_refl _,
          fun inside => absurd (List.infix_nil.mp inside) (List.cons_ne_nil _ _)⟩
      | cons c rest =>
        obtain ⟨below, strictly⟩ := ih rest.length (by simp) rest rfl
        have step (l : List β) :
            (c :: l).countP early = l.countP early + if early c then 1 else 0 := List.countP_cons
        rw [filling_miss fun other held => List.mem_singleton.mp held ▸ here, step, step]
        refine ⟨by omega, fun inside => ?_⟩
        rcases List.infix_cons_iff.mp inside with starts | later
        · exact absurd starts here
        · have := strictly later
          rw [List.length_cons]
          split <;> omega

private theorem countP_fillingEach (apart : opening ≠ closing)
    (names : ∀ slot ∈ table, Unbracketed opening closing slot.1)
    (values : ∀ slot ∈ table, ∀ c ∈ slot.2, early c = false) (text : List β) :
    (fillingEach opening closing key table text).countP early ≤ text.countP early ∧
      ((∃ slot ∈ table, bracketed opening closing slot.1 <:+: text.map key) →
        (fillingEach opening closing key table text).countP early < text.length) := by
  induction table generalizing text with
  | nil => exact ⟨Nat.le_refl _, fun ⟨_, held, _⟩ => absurd held List.not_mem_nil⟩
  | cons slot table ih =>
    obtain ⟨name, names⟩ := List.forall_mem_cons.mp names
    obtain ⟨value, values⟩ := List.forall_mem_cons.mp values
    obtain ⟨below, strictly⟩ := countP_filling apart name value text
    obtain ⟨below', strictly'⟩ := ih names values (filling opening closing key [slot] 0 text)
    refine ⟨below'.trans below, ?_⟩
    rintro ⟨other, held, inside⟩
    by_cases here : bracketed opening closing slot.1 <:+: text.map key
    · exact below'.trans_lt (strictly here)
    · have stays : filling opening closing key [slot] 0 text = text :=
        filling_absent fun other held => List.mem_singleton.mp held ▸ here
      rw [stays] at strictly'
      rcases List.mem_cons.mp held with rfl | held
      · exact absurd inside here
      · show (fillingEach opening closing key table (filling opening closing key [slot] 0 text)).countP early < _
        rw [stays]
        exact strictly' ⟨other, held, inside⟩

end Counting

/-- A value that clashes with a later name is replaced in some text. -/
theorem fillingEach_ne (start : α → β) (early : β → Bool)
    (distinct : Distinct opening closing (before ++ slot :: later)) (held : other ∈ later)
    (clash : Clash opening closing (slot.2.map key) other.1)
    (values : ∀ other ∈ later, ∀ c ∈ other.2, early c = false) (own : ∀ c ∈ slot.2, early c = true)
    (keys : ∀ a, key (start a) = a) (first : ∀ a, early (start a) = true) :
    ∃ text : List α, fillingEach opening closing key (before ++ slot :: later) (text.map start) ≠
      filling opening closing key (before ++ slot :: later) 0 (text.map start) := by
  have once := List.nodup_append.mp (List.map_append ▸ distinct.once)
  have names {table : List (List α × List β)} (sub : table ⊆ before ++ slot :: later)
      (slot : List α × List β)
      (held : slot ∈ table) : Unbracketed opening closing slot.1 := distinct.names slot (sub held)
  have among : slot ∈ before ++ slot :: later := by simp
  have among' : other ∈ before ++ slot :: later := by simp [held]
  have erase (text : List α) : (text.map start).map key = text := by
    have same : key ∘ start = id := funext keys
    rw [List.map_map, same, List.map_id]
  obtain ⟨lead, trail, leads, plain, inside⟩ :=
    clash.completes distinct.apart (distinct.names other among')
  have leads : Lead opening closing ((lead.map start).map key) := (erase lead).symm ▸ leads
  have plain : opening ∉ (trail.map start).map key := (erase trail).symm ▸ plain
  have opens : ((bracketed opening closing slot.1).map start ++ trail.map start).map key =
      opening :: (slot.1 ++ [closing] ++ trail) := by
    rw [List.map_append, erase, erase]
    rfl
  -- the slot is filled, and nothing else is found
  have filled {table : List (List α × List β)} (sub : table ⊆ before ++ slot :: later)
      (distinct : Distinct opening closing table) (held : slot ∈ table) :
      filling opening closing key table 0 ((lead ++ bracketed opening closing slot.1 ++ trail).map start) =
        lead.map start ++ slot.2 ++ trail.map start := by
    rw [List.append_assoc, List.map_append, List.map_append,
      filling_lead distinct.apart (names sub) leads opens,
      filling_match distinct held (erase _), filling_plain plain, List.append_assoc]
  have unfilled : fillingEach opening closing key before
        ((lead ++ bracketed opening closing slot.1 ++ trail).map start) =
      (lead ++ bracketed opening closing slot.1 ++ trail).map start := by
    refine List.foldlRecOn (motive := (· = (lead ++ bracketed opening closing slot.1 ++ trail).map start)) before _ rfl
      fun text same another held => ?_
    have single : [another] ⊆ before ++ slot :: later := by simp [held]
    have different : ∀ one ∈ [another], one.1 ≠ slot.1 := fun one held' =>
      List.mem_singleton.mp held' ▸ once.2.2 _ (List.mem_map_of_mem held) _ (by simp)
    rw [same, List.append_assoc, List.map_append, List.map_append,
      filling_lead distinct.apart (names single) leads opens,
      filling_other distinct.apart (distinct.names slot among) (names single) different (erase _), filling_plain plain]
  refine ⟨lead ++ bracketed opening closing slot.1 ++ trail, ?_⟩
  have alone : Distinct opening closing [slot] :=
    ⟨distinct.apart, names (by simp), List.nodup_singleton _⟩
  have split : fillingEach opening closing key (before ++ slot :: later)
        ((lead ++ bracketed opening closing slot.1 ++ trail).map start) =
      fillingEach opening closing key later (lead.map start ++ slot.2 ++ trail.map start) := by
    unfold fillingEach at unfilled ⊢
    rw [List.foldl_append, unfilled, List.foldl_cons,
      filled (by simp) alone (List.mem_singleton_self _)]
  rw [split, filled (List.Subset.refl _) distinct among]
  intro same
  have found : bracketed opening closing other.1 <:+:
      (lead.map start ++ slot.2 ++ trail.map start).map key := by
    rw [List.map_append, List.map_append, erase, erase]
    exact inside
  have fewer :=
    (countP_fillingEach distinct.apart (names (by simp)) values _).2 ⟨other, held, found⟩
  have all : (lead.map start ++ slot.2 ++ trail.map start).countP early =
      (lead.map start ++ slot.2 ++ trail.map start).length := by
    refine List.countP_eq_length.mpr fun c held => ?_
    simp only [List.mem_append, List.mem_map] at held
    rcases held with (⟨a, -, rfl⟩ | held) | ⟨a, -, rfl⟩
    · exact first a
    · exact own c held
    · exact first a
  rw [same, all] at fewer
  exact Nat.lt_irrefl _ fewer

end Replaced

/-! ## Marks -/

section Marks
variable {α τ : Type} [DecidableEq α] {opening closing : α} {start : τ}
  {slots : List (τ × List α × List α)}

/-- The value of a name, each element with the mark of the slot. -/
def traced (slot : τ × List α × List α) : List α × List (α × τ) :=
  (slot.2.1, slot.2.2.map fun a => (a, slot.1))

private theorem exists_of_not_pairwise {γ : Type} {related : γ → γ → Prop} {l : List γ}
    (some : ¬l.Pairwise related) :
    ∃ before a later, l = before ++ a :: later ∧ ∃ b ∈ later, ¬related a b := by
  induction l with
  | nil => exact absurd List.Pairwise.nil some
  | cons a l ih =>
    by_cases all : ∀ b ∈ l, related a b
    · obtain ⟨before, b, later, rfl, found⟩ :=
        ih fun rest => some (List.pairwise_cons.mpr ⟨all, rest⟩)
      exact ⟨a :: before, b, later, rfl, found⟩
    · exact ⟨[], a, l, rfl, by simpa using all⟩

/-- One name after the other gives the same as all at once, with every element from the same place,
exactly if no value clashes with a later name. -/
theorem fillingEach_eq_iff (distinct : Distinct opening closing (slots.map traced))
    (marks : (slots.map (·.1)).Nodup) (unused : start ∉ slots.map (·.1)) :
    (∀ text : List α, fillingEach opening closing Prod.fst (slots.map traced) (text.map fun a => (a, start)) =
      filling opening closing Prod.fst (slots.map traced) 0 (text.map fun a => (a, start))) ↔
        slots.Pairwise fun slot later => ¬Clash opening closing slot.2.2 later.2.1 := by
  have value (slot : τ × List α × List α) : (traced slot).2.map Prod.fst = slot.2.2 := by
    simp [traced, Function.comp_def]
  constructor
  · intro same
    classical
    by_contra some
    obtain ⟨before, slot, later, rfl, other, held, clash⟩ := exists_of_not_pairwise some
    rw [List.map_append, List.map_cons] at distinct marks unused same
    obtain ⟨-, marks, -⟩ := List.nodup_append.mp marks
    obtain ⟨own, -⟩ := List.nodup_cons.mp marks
    have late {mark : τ} : decide (mark ∉ later.map (·.1)) = true ↔ mark ∉ later.map (·.1) :=
      decide_eq_true_iff
    have values : ∀ other ∈ later.map traced, ∀ c ∈ other.2, decide
        (c.2 ∉ later.map (·.1)) = false := by
      intro other held c inside
      obtain ⟨slot, among, rfl⟩ := List.mem_map.mp held
      obtain ⟨a, -, rfl⟩ := List.mem_map.mp inside
      exact decide_eq_false (not_not.mpr (List.mem_map_of_mem among))
    have marked : ∀ c ∈ (traced slot).2, decide (c.2 ∉ later.map (·.1)) = true := by
      intro c inside
      obtain ⟨a, -, rfl⟩ := List.mem_map.mp inside
      exact late.mpr own
    have fresh : start ∉ later.map (·.1) := fun held => unused (by simp [held])
    obtain ⟨text, differ⟩ :=
      fillingEach_ne (fun a => (a, start)) (fun c => decide (c.2 ∉ later.map (·.1))) distinct
      (List.mem_map_of_mem held) ((value slot).symm ▸ not_not.mp clash) values marked (fun _ => rfl)
      (fun _ => late.mpr fresh)
    exact differ (same text)
  · intro safe text
    refine fillingEach_eq distinct (List.pairwise_map.mpr (safe.imp fun apart => ?_)) _
    rwa [value]

end Marks

end Beads.Lib
