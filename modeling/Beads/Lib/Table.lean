import Mathlib.Data.List.Nodup
import Mathlib.Data.List.Flatten

/-! Tables whose rows have a primary key, with the statements that act on them:
lookup by key, update of other columns, delete and insert, and the three-way
merge of two tables with the one both were made from. A table carries the
proof that its keys are distinct, so a lookup is exact. The last section is the
splitting of an id list into bounded batches that statements with an `IN`
clause are issued over. -/
namespace Beads.Lib

variable {ρ κ : Type*} {key : ρ → κ}

/-- Rows with distinct keys. -/
structure Table {ρ κ : Type*} (key : ρ → κ) where
  rows : List ρ
  distinct : (rows.map key).Nodup

namespace Table

instance : Membership ρ (Table key) := ⟨fun t r => r ∈ t.rows⟩

instance [DecidableEq ρ] (r : ρ) (t : Table key) : Decidable (r ∈ t) :=
  inferInstanceAs (Decidable (r ∈ t.rows))

instance (t : Table key) (p : ρ → Prop) [DecidablePred p] : Decidable (∃ r ∈ t, p r) :=
  inferInstanceAs (Decidable (∃ r ∈ t.rows, p r))

instance (t : Table key) (p : ρ → Prop) [DecidablePred p] : Decidable (∀ r ∈ t, p r) :=
  inferInstanceAs (Decidable (∀ r ∈ t.rows, p r))

@[ext]
theorem ext {t u : Table key} (same : t.rows = u.rows) : t = u := by
  cases t
  cases u
  cases same
  rfl

/-- The table without rows. -/
def empty : Table key := ⟨[], List.nodup_nil⟩

/-- Two rows with the same key are the same row. -/
theorem eq_of_key {t : Table key} {r s : ρ} (left : r ∈ t) (right : s ∈ t)
    (same : key r = key s) : r = s :=
  List.inj_on_of_nodup_map t.distinct left right same

section Find
variable [DecidableEq κ] {t : Table key} {k : κ} {r : ρ}

/-- `SELECT … WHERE key = ?`. -/
def find? (t : Table key) (k : κ) : Option ρ := t.rows.find? fun r => key r = k

theorem find?_eq_some : t.find? k = some r ↔ r ∈ t ∧ key r = k := by
  constructor
  · intro found
    exact ⟨List.mem_of_find?_eq_some found, by simpa using List.find?_some found⟩
  · rintro ⟨held, rfl⟩
    cases found : t.find? (key r) with
    | none => simpa using List.find?_eq_none.mp found r held
    | some s =>
      have same : key s = key r := by simpa using List.find?_some found
      rw [eq_of_key (List.mem_of_find?_eq_some found) held same]

theorem find?_eq_none : t.find? k = none ↔ ∀ r ∈ t, key r ≠ k := by
  rw [find?, List.find?_eq_none]
  simp only [decide_eq_true_eq]
  rfl

end Find

/-- `UPDATE` of columns other than the key; rows the statement does not match
are mapped to themselves. -/
def update (t : Table key) (f : ρ → ρ) (keeps : ∀ r, key (f r) = key r) : Table key where
  rows := t.rows.map f
  distinct := by
    rw [List.map_map, show key ∘ f = key from funext keeps]
    exact t.distinct

theorem mem_update {t : Table key} {f : ρ → ρ} {keeps : ∀ r, key (f r) = key r} {r : ρ} :
    r ∈ t.update f keeps ↔ ∃ old ∈ t, f old = r :=
  List.mem_map

theorem update_eq_self {t : Table key} {f : ρ → ρ} {keeps : ∀ r, key (f r) = key r}
    (same : ∀ r ∈ t, f r = r) :
    t.update f keeps = t := by
  refine ext ?_
  change t.rows.map f = t.rows
  exact (List.map_congr_left same).trans (List.map_id _)

theorem find?_update [DecidableEq κ] {t : Table key} {f : ρ → ρ} {keeps : ∀ r, key (f r) = key r}
    {k : κ} : (t.update f keeps).find? k = (t.find? k).map f := by
  refine Option.ext fun r => ?_
  simp only [find?_eq_some, mem_update, Option.map_eq_some_iff]
  constructor
  · rintro ⟨⟨old, held, rfl⟩, rfl⟩
    exact ⟨old, ⟨held, (keeps old).symm⟩, rfl⟩
  · rintro ⟨old, ⟨held, rfl⟩, rfl⟩
    exact ⟨⟨old, held, rfl⟩, keeps old⟩

/-- `UPDATE` of columns that may be part of the key; refused when two rows would
get the same key. -/
def rekey? [DecidableEq κ] (t : Table key) (f : ρ → ρ) : Option (Table key) :=
  if distinct : ((t.rows.map f).map key).Nodup then some ⟨t.rows.map f, distinct⟩ else none

theorem mem_of_rekey? [DecidableEq κ] {t u : Table key} {f : ρ → ρ} (rekeyed : t.rekey? f = some u)
    {r : ρ} : r ∈ u ↔ ∃ old ∈ t, f old = r := by
  unfold rekey? at rekeyed
  split at rekeyed
  · cases rekeyed
    exact List.mem_map
  · cases rekeyed

/-- `DELETE … WHERE`. -/
def delete (t : Table key) (p : ρ → Prop) [DecidablePred p] : Table key where
  rows := t.rows.filter fun r => ¬ p r
  distinct := t.distinct.sublist ((List.filter_sublist).map key)

theorem mem_delete {t : Table key} {p : ρ → Prop} [DecidablePred p] {r : ρ} :
    r ∈ t.delete p ↔ r ∈ t ∧ ¬ p r := by
  change r ∈ t.rows.filter _ ↔ _
  rw [List.mem_filter, decide_eq_true_eq]
  rfl

/-- `INSERT` of a row whose key is not taken. -/
def insert (t : Table key) (r : ρ) (fresh : ∀ s ∈ t, key s ≠ key r) : Table key where
  rows := t.rows ++ [r]
  distinct := by
    rw [List.map_append, List.map_singleton, List.nodup_append]
    refine ⟨t.distinct, List.nodup_singleton _, ?_⟩
    rintro k held _ last rfl
    obtain ⟨s, inside, rfl⟩ := List.mem_map.mp held
    exact fresh s inside (List.mem_singleton.mp last)

theorem mem_insert {t : Table key} {r s : ρ} {fresh : ∀ s ∈ t, key s ≠ key r} :
    s ∈ t.insert r fresh ↔ s ∈ t ∨ s = r := by
  change s ∈ t.rows ++ [r] ↔ _
  rw [List.mem_append, List.mem_singleton]
  rfl

/-- `INSERT … ON DUPLICATE KEY UPDATE` of a whole row. -/
def put [DecidableEq κ] (t : Table key) (r : ρ) : Table key :=
  (t.delete fun old => key old = key r).insert r fun _ held => (mem_delete.mp held).2

section Put
variable [DecidableEq κ] {t : Table key} {r : ρ} {k : κ}

theorem find?_put_self : (t.put r).find? (key r) = some r :=
  find?_eq_some.mpr ⟨mem_insert.mpr (Or.inr rfl), rfl⟩

theorem find?_put_of_ne (other : k ≠ key r) : (t.put r).find? k = t.find? k := by
  refine Option.ext fun found => ?_
  rw [find?_eq_some, find?_eq_some, put, mem_insert, mem_delete]
  constructor
  · rintro ⟨⟨held, -⟩ | rfl, named⟩
    · exact ⟨held, named⟩
    · exact absurd named.symm other
  · rintro ⟨held, named⟩
    exact ⟨Or.inl ⟨held, fun same => other (named.symm.trans same)⟩, named⟩

end Put

/-- `INSERT IGNORE`: a taken key keeps its row. -/
def insertIgnore [DecidableEq κ] (t : Table key) (r : ρ) : Table key :=
  if fresh : ∀ s ∈ t, key s ≠ key r then t.insert r fresh else t

theorem mem_insertIgnore [DecidableEq κ] {t : Table key} {r s : ρ} :
    s ∈ t.insertIgnore r ↔ s ∈ t ∨ (s = r ∧ ∀ old ∈ t, key old ≠ key r) := by
  unfold insertIgnore
  split
  · next fresh =>
    rw [mem_insert]
    exact or_congr_right (and_iff_left fresh).symm
  · next taken => exact (or_iff_left fun new => taken new.2).symm

section Copy
variable [DecidableEq κ] {κ' : Type*} [DecidableEq κ'] (unique : ρ → κ')

/-- `INSERT … SELECT` under a second unique key: refused when a key is taken. -/
def insertAll? (t : Table key) (rows : List ρ) : Option (Table key) :=
  if distinct : ((t.rows ++ rows).map key).Nodup ∧ ((t.rows ++ rows).map unique).Nodup then
    some ⟨t.rows ++ rows, distinct.1⟩
  else none

/-- `INSERT IGNORE … SELECT` under a second unique key. -/
def insertIgnoreAll (t : Table key) (rows : List ρ) : Table key :=
  rows.foldl (fun t r => if ∀ s ∈ t, unique s ≠ unique r then t.insertIgnore r else t) t

variable {unique} {t u : Table key} {rows : List ρ}

theorem rows_of_insertAll? (inserted : t.insertAll? unique rows = some u) :
    u.rows = t.rows ++ rows := by
  unfold insertAll? at inserted
  split at inserted
  · cases inserted
    rfl
  · cases inserted

/-- Where no key is taken, nothing is ignored. -/
theorem insertIgnoreAll_of_insertAll? (inserted : t.insertAll? unique rows = some u) :
    t.insertIgnoreAll unique rows = u := by
  have ⟨keys, uniques⟩ :
      ((t.rows ++ rows).map key).Nodup ∧ ((t.rows ++ rows).map unique).Nodup := by
    unfold insertAll? at inserted
    split at inserted
    · assumption
    · cases inserted
  refine ext ?_
  rw [rows_of_insertAll? inserted]
  clear inserted
  induction rows generalizing t with
  | nil => exact (List.append_nil t.rows).symm
  | cons r rows ih =>
    have keyFree : ∀ s ∈ t, key s ≠ key r := by
      intro s held same
      rw [List.map_append, List.nodup_append] at keys
      exact keys.2.2 (key s) (List.mem_map_of_mem held) (key r) (by simp) same
    have uniqueFree : ∀ s ∈ t, unique s ≠ unique r := by
      intro s held same
      rw [List.map_append, List.nodup_append] at uniques
      exact uniques.2.2 (unique s) (List.mem_map_of_mem held) (unique r) (by simp) same
    have step : (t.insertIgnore r).rows = t.rows ++ [r] := by
      rw [insertIgnore, dif_pos keyFree]
      rfl
    have rest : t.rows ++ r :: rows = (t.insertIgnore r).rows ++ rows := by
      rw [step, List.append_cons]
    rw [insertIgnoreAll, List.foldl_cons, if_pos uniqueFree, rest]
    exact ih (rest ▸ keys) (rest ▸ uniques)

end Copy

section Merge
variable [DecidableEq κ] [DecidableEq ρ] {base ours theirs : Table key}

/-- The row a merge keeps in place of one of theirs. -/
def mergeRow (base ours : Table key) (r : ρ) : Option ρ :=
  if ours.find? (key r) = base.find? (key r) then some r else ours.find? (key r)

theorem key_of_mergeRow {r s : ρ} (kept : mergeRow base ours r = some s) : key s = key r := by
  unfold mergeRow at kept
  split at kept
  · rw [Option.some.inj kept]
  · exact (find?_eq_some.mp kept).2

/-- The three-way merge, row by row: a row that we have not changed is theirs. -/
def merge (base ours theirs : Table key) : Table key where
  rows := theirs.rows.filterMap (mergeRow base ours) ++
    ours.rows.filter fun r => theirs.find? (key r) = none ∧ base.find? (key r) ≠ some r
  distinct := by
    have keys : (theirs.rows.filterMap (mergeRow base ours)).map key =
        (theirs.rows.filter fun r => (mergeRow base ours r).isSome).map key := by
      induction theirs.rows with
      | nil => rfl
      | cons r rest ih =>
        cases kept : mergeRow base ours r with
        | none => simpa [kept] using ih
        | some s => simpa [kept, key_of_mergeRow kept] using ih
    rw [List.map_append, keys, List.nodup_append]
    refine ⟨theirs.distinct.sublist (List.filter_sublist.map key),
      ours.distinct.sublist (List.filter_sublist.map key), ?_⟩
    rintro k left _ right rfl
    obtain ⟨r, inside, rfl⟩ := List.mem_map.mp left
    obtain ⟨s, added, same⟩ := List.mem_map.mp right
    obtain ⟨-, chosen⟩ := List.mem_filter.mp added
    simp only [decide_eq_true_eq] at chosen
    exact find?_eq_none.mp chosen.1 r (List.mem_filter.mp inside).1 same.symm

theorem mem_merge {r : ρ} : r ∈ merge base ours theirs ↔
    if ours.find? (key r) = base.find? (key r) then r ∈ theirs else r ∈ ours := by
  have member : r ∈ merge base ours theirs ↔
      (∃ s ∈ theirs, mergeRow base ours s = some r) ∨
        (r ∈ ours ∧ theirs.find? (key r) = none ∧ base.find? (key r) ≠ some r) := by
    change r ∈ theirs.rows.filterMap _ ++ ours.rows.filter _ ↔ _
    rw [List.mem_append, List.mem_filterMap, List.mem_filter, decide_eq_true_eq]
    rfl
  rw [member]
  split
  · next same =>
    constructor
    · rintro (⟨s, held, kept⟩ | ⟨held, -, changed⟩)
      · have back := key_of_mergeRow kept
        rw [mergeRow, ← back, if_pos same] at kept
        exact Option.some.inj kept ▸ held
      · exact absurd (same.symm.trans (find?_eq_some.mpr ⟨held, rfl⟩)) changed
    · exact fun held => Or.inl ⟨r, held, if_pos same⟩
  · next differ =>
    constructor
    · rintro (⟨s, held, kept⟩ | ⟨held, -⟩)
      · have back := key_of_mergeRow kept
        rw [mergeRow, ← back, if_neg differ] at kept
        exact (find?_eq_some.mp kept).1
      · exact held
    · intro held
      have found : ours.find? (key r) = some r := find?_eq_some.mpr ⟨held, rfl⟩
      cases there : theirs.find? (key r) with
      | none => exact Or.inr ⟨held, rfl, fun same => differ (found.trans same.symm)⟩
      | some s =>
        obtain ⟨inside, same⟩ := find?_eq_some.mp there
        exact Or.inl ⟨s, inside, by rw [mergeRow, same, if_neg differ, found]⟩

theorem find?_merge {k : κ} : (merge base ours theirs).find? k =
    if ours.find? k = base.find? k then theirs.find? k else ours.find? k := by
  refine Option.ext fun r => ?_
  rw [find?_eq_some, mem_merge]
  constructor
  · rintro ⟨held, rfl⟩
    split at held
    · next same => rw [if_pos same, find?_eq_some]; exact ⟨held, rfl⟩
    · next differ => rw [if_neg differ, find?_eq_some]; exact ⟨held, rfl⟩
  · intro found
    split at found
    · next same =>
      obtain ⟨held, rfl⟩ := find?_eq_some.mp found
      exact ⟨by rwa [if_pos same], rfl⟩
    · next differ =>
      obtain ⟨held, rfl⟩ := find?_eq_some.mp found
      exact ⟨by rwa [if_neg differ], rfl⟩

/-- The three-way merge with its rows merged in turn: a table that one side has not
changed is the other side's, and a row that all three tables have is combined. -/
def mergeWith (combine : ρ → ρ → ρ → ρ)
    (keeps : ∀ b o r, key b = key r → key o = key r → key (combine b o r) = key r)
    (base ours theirs : Table key) : Table key :=
  if ours.rows = base.rows then theirs
  else if theirs.rows = base.rows then ours
  else (merge base ours theirs).update
    (fun r => match base.find? (key r), ours.find? (key r), theirs.find? (key r) with
      | some b, some o, some t => combine b o t
      | _, _, _ => r)
    fun r => by
      split
      · next b o t left mid right =>
        have same := (find?_eq_some.mp right).2
        rw [keeps b o t ((find?_eq_some.mp left).2.trans same.symm) ((find?_eq_some.mp mid).2.trans same.symm), same]
      · rfl

variable {combine : ρ → ρ → ρ → ρ}
  {keeps : ∀ b o r, key b = key r → key o = key r → key (combine b o r) = key r}

theorem mergeWith_kept : mergeWith combine keeps base base theirs = theirs := if_pos rfl

theorem mergeWith_alone : mergeWith combine keeps base ours base = ours := by
  unfold mergeWith
  split
  · next same => exact (ext same).symm
  · exact if_pos rfl

end Merge

end Table

/-! ## Batches -/

section Batches
variable {α : Type*}

private def batchesAux (size : Nat) : Nat → List α → List (List α)
  | 0, _ => []
  | _ + 1, [] => []
  | n + 1, a :: rest => (a :: rest).take size :: batchesAux size n ((a :: rest).drop size)

/-- The list cut into consecutive batches of at most `size` elements. -/
def batches (size : Nat) (l : List α) : List (List α) := batchesAux size l.length l

private theorem batchesAux_flatten {size : Nat} (positive : 0 < size) (n : Nat) (l : List α)
    (enough : l.length ≤ n) : (batchesAux size n l).flatten = l := by
  induction n generalizing l with
  | zero =>
    rw [List.length_eq_zero_iff.mp (Nat.le_zero.mp enough)]
    rfl
  | succ n ih =>
    cases l with
    | nil => rfl
    | cons a rest =>
      rw [batchesAux, List.flatten_cons, ih, List.take_append_drop]
      simp only [List.length_drop, List.length_cons] at enough ⊢
      omega

private theorem batches_flatten {size : Nat} (positive : 0 < size) (l : List α) :
    (batches size l).flatten = l :=
  batchesAux_flatten positive l.length l (Nat.le_refl _)

/-- The batches cover the list and hold nothing else. -/
theorem mem_batches {size : Nat} (positive : 0 < size) {l : List α} {a : α} :
    (∃ batch ∈ batches size l, a ∈ batch) ↔ a ∈ l := by
  rw [← List.mem_flatten, batches_flatten positive]

end Batches

end Beads.Lib
