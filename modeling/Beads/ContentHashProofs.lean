import Mathlib.Data.List.Basic
import Mathlib.Tactic.Common
import Beads.Lib.Numbering
import Beads.ContentHash

/-! When the bytes fed to the content hash determine the hashed fields. The bytes determine
the sequence of the fields; what they leave open is how many of the fields between the
template flag and the molecule type are bonded sources and how many are waiters. -/
namespace Beads.Content
open Lib

/-! ## Numbers -/

section Decimals
variable {n m : Int64} {c : Char}

theorem digit_bounds (digit : c.isDigit = true) : 48 ≤ c.val.toNat ∧ c.val.toNat ≤ 57 := by
  simp only [Char.isDigit, Bool.and_eq_true, decide_eq_true_eq, ge_iff_le,
    UInt32.le_iff_toNat_le] at digit
  exact digit

theorem toNat_toUInt8 (digit : c.isDigit = true) : c.toUInt8.toNat = c.val.toNat := by
  have bounds := digit_bounds digit
  simp only [Char.toUInt8, UInt32.toNat_toUInt8]
  omega

private theorem ofNat_toUInt8 (digit : c.isDigit = true) : Char.ofNat c.toUInt8.toNat = c := by
  rw [toNat_toUInt8 digit]
  exact Char.ofNat_toNat c

private theorem chars_of_digits (k : Nat) :
    ((Nat.toDigits 10 k).map Char.toUInt8).map (fun b => Char.ofNat b.toNat) = Nat.toDigits 10 k := by
  rw [List.map_map]
  conv_rhs => rw [← List.map_id (Nat.toDigits 10 k)]
  apply List.map_congr_left
  intro c held
  exact ofNat_toUInt8 (isDigit_of_mem held)

private theorem digits_inj {k l : Nat}
    (same : (Nat.toDigits 10 k).map Char.toUInt8 = (Nat.toDigits 10 l).map Char.toUInt8) :
    k = l := by
  apply toDigits_inj
  rw [← chars_of_digits k, same, chars_of_digits]

theorem digits_bounds {b : UInt8} {k : Nat} (held : b ∈ (Nat.toDigits 10 k).map Char.toUInt8) :
    48 ≤ b.toNat ∧ b.toNat ≤ 57 := by
  obtain ⟨c, digit, rfl⟩ := List.mem_map.mp held
  rw [toNat_toUInt8 (isDigit_of_mem digit)]
  exact digit_bounds (isDigit_of_mem digit)

/-- A number is written with digits and a sign. -/
theorem decimal_symbols {b : UInt8} (held : b ∈ decimal n) :
    b = 45 ∨ 48 ≤ b.toNat ∧ b.toNat ≤ 57 := by
  unfold decimal at held
  split at held
  · rcases List.mem_cons.mp held with sign | digit
    · exact .inl sign
    · exact .inr (digits_bounds digit)
  · exact .inr (digits_bounds held)

private theorem decimal_plain (n : Int64) : (0 : UInt8) ∉ decimal n := by
  intro held
  simpa using decimal_symbols held

/-- A sign is no digit, and the sign and the digits give the number. -/
theorem decimal_inj (same : decimal n = decimal m) : n = m := by
  have signed : ∀ {k l : Nat}, 45 :: (Nat.toDigits 10 k).map Char.toUInt8 ≠
      (Nat.toDigits 10 l).map Char.toUInt8 := by
    intro k l same
    have := digits_bounds (same ▸ List.mem_cons_self)
    simp at this
  apply Int64.toInt_inj.mp
  unfold decimal at same
  split at same <;> split at same
  · have := digits_inj (List.cons.inj same).2
    omega
  · exact absurd same signed
  · exact absurd same.symm signed
  · have := digits_inj same
    omega

end Decimals

/-! ## The fields that are written -/

/-- The text of a flag. -/
def flagText (b : Bool) (label : Text) : Text := if b then label else []

/-- The fields before the bonded sources. -/
def Issue.front (i : Issue) : List Text :=
  [i.title, i.description, i.design, i.acceptanceCriteria, i.notes, i.specID, i.status, decimal i.priority,
    i.issueType, i.assignee, i.owner, i.createdBy, i.externalRef.getD [], i.sourceSystem,
    flagText i.pinned pinnedLabel, i.metadata, flagText i.isTemplate templateLabel]

/-- The fields of bonded sources. -/
def bondTexts (bonds : List BondRef) : List Text :=
  bonds.flatMap fun br => [br.sourceID, br.bondType, br.bondPoint]

/-- The fields from the bonded sources to the waiters. -/
def Issue.middle (i : Issue) : List Text :=
  bondTexts i.bondedFrom ++ [i.awaitType, i.awaitID, decimal i.timeout] ++ i.waiters

/-- The fields after the waiters. -/
def Issue.back (i : Issue) : List Text :=
  [i.molType, i.workType, i.eventKind, i.actor, i.target, i.payload]

section Written
variable {i j : Issue}

theorem str_h (w : HashFieldWriter) (s : Text) : (w.str s).h = w.h ++ terminated 0 [s] := by
  simp [HashFieldWriter.str]

private theorem strPtr_h (w : HashFieldWriter) (p : Option Text) :
    (w.strPtr p).h = w.h ++ terminated 0 [p.getD []] := by
  cases p <;> simp [HashFieldWriter.strPtr]

private theorem flag_h (w : HashFieldWriter) (b : Bool) (label : Text) :
    (w.flag b label).h = w.h ++ terminated 0 [flagText b label] := by
  cases b <;> simp [HashFieldWriter.flag, flagText]

private theorem int_h (w : HashFieldWriter) (n : Int64) :
    (w.int n).h = w.h ++ terminated 0 [decimal n] := by
  simp [HashFieldWriter.int]

private theorem duration_h (w : HashFieldWriter) (d : Int64) :
    (w.duration d).h = w.h ++ terminated 0 [decimal d] := by
  simp [HashFieldWriter.duration]

private theorem bonds_h (bonds : List BondRef) (w : HashFieldWriter) :
    (bonds.foldl (fun w br => ((w.str br.sourceID).str br.bondType).str br.bondPoint) w).h =
      w.h ++ terminated 0 (bondTexts bonds) := by
  induction bonds generalizing w with
  | nil => simp [bondTexts]
  | cons br bonds ih =>
    rw [List.foldl_cons, ih, str_h, str_h, str_h]
    simp [bondTexts]

private theorem waiters_h (waiters : List Text) (w : HashFieldWriter) :
    (waiters.foldl (fun w waiter => w.str waiter) w).h = w.h ++ terminated 0 waiters := by
  induction waiters generalizing w with
  | nil => simp
  | cons waiter waiters ih =>
    rw [List.foldl_cons, ih, str_h]
    simp

theorem hashedBytes_eq (i : Issue) :
    hashedBytes i = terminated 0 (i.front ++ (i.middle ++ i.back)) := by
  simp only [hashedBytes, str_h, strPtr_h, flag_h, int_h, duration_h, bonds_h, waiters_h]
  simp [Issue.front, Issue.middle, Issue.back]

private theorem flagText_inj {b b' : Bool} {label : Text} (long : label ≠ [])
    (same : flagText b label = flagText b' label) :
    b = b' := by
  cases b <;> cases b' <;> simp_all [flagText]

private theorem flagText_plain {b : Bool} {label : Text} (plain : (0 : UInt8) ∉ label) :
    (0 : UInt8) ∉ flagText b label := by
  cases b
  · simp [flagText]
  · exact plain

/-- Besides the text fields there are two numbers and two flags. -/
theorem mem_fields {text : Text} (held : text ∈ i.front ++ (i.middle ++ i.back)) :
    text ∈ i.texts ∨ text = decimal i.priority ∨ text = decimal i.timeout ∨
      text = flagText i.pinned pinnedLabel ∨ text = flagText i.isTemplate templateLabel := by
  simp only [Issue.front, Issue.middle, Issue.back, bondTexts, List.mem_append, List.mem_cons,
    List.not_mem_nil, or_false] at held
  simp only [Issue.texts, List.mem_append, List.mem_cons, List.not_mem_nil, or_false]
  grind

theorem fields_plain (clean : i.NulFree) :
    ∀ text ∈ i.front ++ (i.middle ++ i.back), (0 : UInt8) ∉ text := by
  intro text held
  rcases mem_fields held with listed | rfl | rfl | rfl | rfl
  · exact clean text listed
  · exact decimal_plain _
  · exact decimal_plain _
  · exact flagText_plain (by decide)
  · exact flagText_plain (by decide)

private theorem mem_fields_of_texts {text : Text} (held : text ∈ i.texts) :
    text ∈ i.front ++ (i.middle ++ i.back) := by
  simp only [Issue.texts, List.mem_append, List.mem_cons, List.not_mem_nil, or_false] at held
  simp only [Issue.front, Issue.middle, Issue.back, bondTexts, List.mem_append, List.mem_cons,
    List.not_mem_nil, or_false]
  grind

/-- The bytes determine the fields up to where the bonded sources end. -/
theorem hashedBytes_eq_iff (clean : i.NulFree) (clean' : j.NulFree) :
    hashedBytes i = hashedBytes j ↔ i.front = j.front ∧ i.middle = j.middle ∧ i.back = j.back := by
  rw [hashedBytes_eq, hashedBytes_eq]
  constructor
  · intro same
    have fields := terminated_inj (fields_plain clean) (fields_plain clean') same
    obtain ⟨front, rest⟩ := List.append_inj fields rfl
    obtain ⟨middle, back⟩ := List.append_inj' rest rfl
    exact ⟨front, middle, back⟩
  · rintro ⟨front, middle, back⟩
    rw [front, middle, back]

end Written

/-! ## Where the bonded sources end -/

section Middle
variable {i j : Issue}

theorem bondTexts_cons (br : BondRef) (bonds : List BondRef) :
    bondTexts (br :: bonds) = br.sourceID :: br.bondType :: br.bondPoint :: bondTexts bonds := rfl

theorem bondTexts_append (bonds bonds' : List BondRef) :
    bondTexts (bonds ++ bonds') = bondTexts bonds ++ bondTexts bonds' := List.flatMap_append

private theorem length_bondTexts (bonds : List BondRef) :
    (bondTexts bonds).length = 3 * bonds.length := by
  induction bonds with
  | nil => rfl
  | cons br bonds ih =>
    rw [bondTexts_cons]
    simp only [List.length_cons, ih]
    omega

/-- Three texts make a bonded source. -/
def bondsOf : List Text → List BondRef
  | sourceID :: bondType :: bondPoint :: rest => ⟨sourceID, bondType, bondPoint⟩ :: bondsOf rest
  | _ => []

private theorem bondTexts_bondsOf (n : Nat) (texts : List Text) (long : texts.length = 3 * n) :
    bondTexts (bondsOf texts) = texts := by
  fun_induction bondsOf texts generalizing n with
  | case1 sourceID bondType bondPoint rest ih =>
    simp only [List.length_cons] at long
    rw [bondTexts_cons, ih (n - 1) (by omega)]
  | case2 texts short =>
    cases texts with
    | nil => rfl
    | cons a texts =>
      cases texts with
      | nil => simp at long; omega
      | cons b texts =>
        cases texts with
        | nil => simp at long; omega
        | cons c texts => exact absurd rfl (short a b c texts)

/-- Read from the front, the fields between the template flag and the molecule type are the
same bonded sources as long as both issues have one; where one of them has no more, its
timeout stands where the other has a bond point. -/
theorem middle_cases {bonds bonds' : List BondRef} {t u t' u' : Text} {d d' : Int64}
    {ws ws' : List Text}
    (same : bondTexts bonds ++ [t, u, decimal d] ++ ws = bondTexts bonds' ++ [t', u', decimal d'] ++ ws') :
    (bonds = bonds' ∧ t = t' ∧ u = u' ∧ d = d' ∧ ws = ws') ∨
      (∃ br ∈ bonds, TimeoutText br.bondPoint) ∨
        ∃ n text, ws[3 * n + 2]? = some text ∧ TimeoutText text := by
  induction bonds generalizing bonds' with
  | nil =>
    cases bonds' with
    | nil =>
      simp only [bondTexts, List.flatMap_nil, List.nil_append, List.cons_append,
        List.cons.injEq] at same
      obtain ⟨rfl, rfl, number, rfl⟩ := same
      exact .inl ⟨rfl, rfl, rfl, decimal_inj number, rfl⟩
    | cons br bonds' =>
      rw [bondTexts_cons] at same
      simp only [bondTexts, List.flatMap_nil, List.nil_append, List.cons_append,
        List.cons.injEq] at same
      obtain ⟨-, -, -, rest⟩ := same
      refine .inr (.inr ⟨bonds'.length, decimal d', ?_, d', rfl⟩)
      change ws = bondTexts bonds' ++ [t', u', decimal d'] ++ ws' at rest
      rw [rest, List.append_assoc, List.getElem?_append_right (by rw [length_bondTexts]; omega),
        length_bondTexts]
      simp
  | cons br bonds ih =>
    cases bonds' with
    | nil =>
      rw [bondTexts_cons] at same
      simp only [bondTexts, List.flatMap_nil, List.nil_append, List.cons_append,
        List.cons.injEq] at same
      exact .inr (.inl ⟨br, List.mem_cons_self, d', same.2.2.1⟩)
    | cons br' bonds' =>
      rw [bondTexts_cons, bondTexts_cons] at same
      simp only [List.cons_append, List.cons.injEq] at same
      obtain ⟨source, type, point, rest⟩ := same
      have first : br = br' := by
        cases br
        cases br'
        simp_all
      rcases ih rest with ⟨rfl, others⟩ | ⟨other, held, text⟩ | waits
      · exact .inl ⟨by rw [first], others⟩
      · exact .inr (.inl ⟨other, List.mem_cons_of_mem _ held, text⟩)
      · exact .inr (.inr waits)

/-- Another reading of the same fields is another issue with the same bytes. -/
theorem rereads (clean : i.NulFree) (front : j.front = i.front) (middle : j.middle = i.middle)
    (back : j.back = i.back) : j.NulFree ∧ hashedBytes i = hashedBytes j := by
  constructor
  · intro text held
    have listed := mem_fields_of_texts held
    rw [front, middle, back] at listed
    exact fields_plain clean text listed
  · rw [hashedBytes_eq, hashedBytes_eq, front, middle, back]

private theorem sameContent_of_fields (front : i.front = j.front) (back : i.back = j.back)
    (bonds : i.bondedFrom = j.bondedFrom) (type : i.awaitType = j.awaitType)
    (id : i.awaitID = j.awaitID)
    (timeout : i.timeout = j.timeout) (waits : i.waiters = j.waiters) : SameContent i j := by
  simp only [Issue.front, Issue.back, List.cons.injEq, and_true] at front back
  obtain ⟨_, _, _, _, _, _, _, priority, _, _, _, _, _, _, pinned, _, template⟩ := front
  have priority := decimal_inj priority
  have pinned := flagText_inj (by decide) pinned
  have template := flagText_inj (by decide) template
  simp only [SameContent, Issue.mk.injEq, Option.some.injEq]
  grind

theorem SameContent.bonds (same : SameContent i j) : i.bondedFrom = j.bondedFrom := by
  simp only [SameContent, Issue.mk.injEq] at same
  grind

/-- A bond point that reads as a timeout: the bonded sources after it, and the wait that
the issue has, are read as waiters. -/
def Issue.cutAt (i : Issue) (before : List BondRef) (br : BondRef) (after : List BondRef)
    (d : Int64) : Issue :=
  { i with
    bondedFrom := before
    awaitType := br.sourceID
    awaitID := br.bondType
    timeout := d
    waiters := bondTexts after ++ [i.awaitType, i.awaitID, decimal i.timeout] ++ i.waiters }

/-- A waiter that reads as a timeout: the wait that the issue has, and the waiters before it,
are read as bonded sources. -/
def Issue.cutAfter (i : Issue) (before : List Text) (type id : Text) (d : Int64)
    (after : List Text) : Issue :=
  { i with
    bondedFrom := i.bondedFrom ++ ⟨i.awaitType, i.awaitID, decimal i.timeout⟩ :: bondsOf before
    awaitType := type
    awaitID := id
    timeout := d
    waiters := after }

private theorem middle_cutAt {before after : List BondRef} {br : BondRef} {d : Int64}
    (split : i.bondedFrom = before ++ br :: after) (text : br.bondPoint = decimal d) :
    (i.cutAt before br after d).middle = i.middle := by
  simp only [Issue.middle, Issue.cutAt, split, bondTexts_append, bondTexts_cons, text]
  simp

private theorem middle_cutAfter {before after : List Text} {type id : Text} {d : Int64} {n : Nat}
    (long : before.length = 3 * n)
    (split : i.waiters = before ++ type :: id :: decimal d :: after) :
    (i.cutAfter before type id d after).middle = i.middle := by
  simp only [Issue.middle, Issue.cutAfter, split, bondTexts_append, bondTexts_cons,
    bondTexts_bondsOf n before long]
  simp

/-- The two texts before a text at such a place are there. -/
theorem split_waiters {waiters : List Text} {n : Nat} {text : Text}
    (at_ : waiters[3 * n + 2]? = some text) :
    ∃ before type id after, before.length = 3 * n ∧
      waiters = before ++ type :: id :: text :: after := by
  obtain ⟨inside, value⟩ := List.getElem?_eq_some_iff.mp at_
  refine ⟨waiters.take (3 * n), waiters[3 * n], waiters[3 * n + 1], waiters.drop (3 * n + 3), ?_,
    ?_⟩
  · rw [List.length_take]
    omega
  · rw [← value, ← List.drop_eq_getElem_cons, ← List.drop_eq_getElem_cons,
      ← List.drop_eq_getElem_cons,
      List.take_append_drop]

end Middle

/-! ## What the bytes determine -/

/-- Exactly the issues without a second field that reads as a timeout at the right distance
share their bytes only with issues of the same content. -/
theorem hashedBytes_determine_iff (i : Issue) (clean : i.NulFree) :
    (∀ j : Issue, j.NulFree → hashedBytes i = hashedBytes j → SameContent i j) ↔ i.Unambiguous := by
  constructor
  · intro determined
    constructor
    · rintro br held ⟨d, text⟩
      obtain ⟨before, after, split⟩ := List.append_of_mem held
      obtain ⟨clean', bytes⟩ :=
        rereads (j := i.cutAt before br after d) clean rfl (middle_cutAt split text) rfl
      have bonds := (determined _ clean' bytes).bonds
      have lengths := congrArg List.length bonds
      simp only [split, Issue.cutAt, List.length_append, List.length_cons] at lengths
      omega
    · rintro n text held ⟨d, rfl⟩
      obtain ⟨before, type, id, after, long, split⟩ := split_waiters held
      obtain ⟨clean', bytes⟩ :=
        rereads (j := i.cutAfter before type id d after) clean rfl (middle_cutAfter long split) rfl
      have bonds := (determined _ clean' bytes).bonds
      have lengths := congrArg List.length bonds
      simp only [Issue.cutAfter, List.length_append, List.length_cons] at lengths
      omega
  · intro unambiguous j clean' bytes
    obtain ⟨front, middle, back⟩ := (hashedBytes_eq_iff clean clean').mp bytes
    rcases middle_cases middle with
      ⟨bonds, type, id, timeout, waits⟩ | ⟨br, held, text⟩ | ⟨n, text, at_, reads⟩
    · exact sameContent_of_fields front back bonds type id timeout waits
    · exact absurd text (unambiguous.bonds br held)
    · exact absurd reads (unambiguous.waits n text at_)

/-- A molecule bonded at `"0"` that waits on nothing. -/
def bondedAtZero : Issue where
  title := [116]
  description := []
  design := []
  acceptanceCriteria := []
  notes := []
  specID := []
  status := [111, 112, 101, 110]
  priority := 2
  issueType := [116, 97, 115, 107]
  assignee := []
  owner := []
  createdBy := []
  externalRef := none
  sourceSystem := []
  pinned := false
  metadata := []
  isTemplate := false
  bondedFrom := [⟨[97], [98], [48]⟩]
  awaitType := []
  awaitID := []
  timeout := 0
  waiters := []
  molType := []
  workType := []
  eventKind := []
  actor := []
  target := []
  payload := []

/-- The same bytes read as a gate with three waiters. -/
def waitedByThree : Issue :=
  { bondedAtZero with bondedFrom := [], awaitType := [97], awaitID := [98], waiters := [[], [], [48]] }

theorem bonded_same_bytes_as_waited :
    ¬ ∀ i j : Issue, i.NulFree → j.NulFree → hashedBytes i = hashedBytes j → SameContent i j := by
  intro determined
  have same := determined bondedAtZero waitedByThree (by decide) (by decide) (by decide)
  exact absurd same (by decide)

/-- A bonded source and three waiters, none of which is a number. -/
def bondedAndWaited : Issue :=
  { bondedAtZero with bondedFrom := [⟨[97], [98], [99]⟩], awaitType := [97], waiters := [[48], [49], [100]] }

theorem hashedBytes_determine_bondedAndWaited :
    bondedAndWaited.NulFree ∧
      ∀ j : Issue, j.NulFree → hashedBytes bondedAndWaited = hashedBytes j →
        SameContent bondedAndWaited j := by
  have letter {b : UInt8} (above : 57 < b.toNat) : ¬ TimeoutText [b] := by
    rintro ⟨d, same⟩
    rcases decimal_symbols (same ▸ List.mem_cons_self : b ∈ decimal d) with rfl | bounds
    · exact absurd above (by decide)
    · omega
  refine ⟨by decide, (hashedBytes_determine_iff _ (by decide)).mpr ⟨?_, ?_⟩⟩
  · intro br held
    rw [List.mem_singleton.mp held]
    exact letter (by decide)
  · intro n text held
    match n with
    | 0 =>
      cases held
      exact letter (by decide)
    | n + 1 => simp [bondedAndWaited, Nat.mul_add] at held

end Beads.Content
