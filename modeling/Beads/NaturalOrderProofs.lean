import Mathlib.Tactic.Common
import Beads.NaturalOrder

/-! When the comparison of ids is a strict weak order. Both versions compare segment by segment,
and the comparison of segments is numeric on numbers and textual elsewhere; a text such as `1a`
stands after `10` and before `2`. -/
namespace Beads.QueryPage
open Lib

/-! ## Decimal numbers -/

section Decimals
variable {as bs : List Char}

/-- The texts of numbers. -/
def Digits (l : List Char) : Prop := ∀ c ∈ l, 48 ≤ c.toNat ∧ c.toNat ≤ 57

theorem Digits.cons_iff {c : Char} : Digits (c :: as) ↔ (48 ≤ c.toNat ∧ c.toNat ≤ 57) ∧ Digits as :=
  List.forall_mem_cons

/-- A greater start stays greater under the same number of digits. -/
theorem ofDigitChars_lt_of_init (left : Digits as) (right : Digits bs)
    (length : as.length = bs.length) {m n : Nat}
    (lt : m < n) : Nat.ofDigitChars 10 as m < Nat.ofDigitChars 10 bs n := by
  induction as generalizing bs m n with
  | nil =>
    cases List.length_eq_zero_iff.mp length.symm
    simpa using lt
  | cons a as ih =>
    cases bs with
    | nil => simp at length
    | cons b bs =>
      rw [Digits.cons_iff] at left right
      rw [Nat.ofDigitChars_cons, Nat.ofDigitChars_cons]
      have zero : '0'.toNat = 48 := rfl
      exact ih left.2 right.2 (by simpa using length) (by omega)

/-- Of numbers with the same number of digits the lesser text is the lesser number. -/
theorem ofDigitChars_lt_of_lt (left : Digits as) (right : Digits bs)
    (length : as.length = bs.length) (init : Nat)
    (lt : as < bs) : Nat.ofDigitChars 10 as init < Nat.ofDigitChars 10 bs init := by
  induction as generalizing bs init with
  | nil =>
    cases List.length_eq_zero_iff.mp length.symm
    exact absurd lt (lt_irrefl _)
  | cons a as ih =>
    cases bs with
    | nil => simp at length
    | cons b bs =>
      rw [Digits.cons_iff] at left right
      rw [Nat.ofDigitChars_cons, Nat.ofDigitChars_cons]
      have rest : as.length = bs.length := by simpa using length
      rcases List.cons_lt_cons_iff.mp lt with first | ⟨rfl, later⟩
      · have less : a.toNat < b.toNat := first
        have zero : '0'.toNat = 48 := rfl
        exact ofDigitChars_lt_of_init left.2 right.2 rest (by omega)
      · exact ih left.2 right.2 rest _ later

/-- A number that does not start with a zero is above every shorter one. -/
theorem ofDigitChars_lt_of_shorter {b : Char} (left : Digits as) (right : Digits (b :: bs))
    (nonzero : b ≠ '0')
    (shorter : as.length < (b :: bs).length) :
    Nat.ofDigitChars 10 as 0 < Nat.ofDigitChars 10 (b :: bs) 0 := by
  rw [Digits.cons_iff] at right
  have positive : 48 < b.toNat := by
    have other : b.toNat ≠ '0'.toNat := fun same => nonzero (Char.toNat_inj.mp same)
    have zero : '0'.toNat = 48 := rfl
    omega
  rw [List.length_cons] at shorter
  have split := List.take_append_drop (bs.length - as.length) bs
  rw [← split, ← List.cons_append, Nat.ofDigitChars_append]
  apply ofDigitChars_lt_of_init left
  · intro c held
    exact right.2 c (List.mem_of_mem_drop held)
  · rw [List.length_drop]
    omega
  · rw [Nat.ofDigitChars_cons, Nat.ofDigitChars_eq_ofDigitChars_zero]
    have power : 0 < 10 ^ (bs.take (bs.length - as.length)).length := Nat.pow_pos (by decide)
    have zero : '0'.toNat = 48 := rfl
    have start : 0 < 10 * 0 + (b.toNat - '0'.toNat) := by omega
    have := Nat.mul_pos power start
    omega

theorem trimZeros_digits (digits : Digits as) : Digits (trimZeros as) := by
  fun_induction trimZeros as with
  | case1 c rest ih => exact ih (Digits.cons_iff.mp digits).2
  | case2 value _ => exact digits

theorem ofDigitChars_trimZeros (as : List Char) :
    Nat.ofDigitChars 10 (trimZeros as) 0 = Nat.ofDigitChars 10 as 0 := by
  fun_induction trimZeros as with
  | case1 c rest ih =>
    rw [ih, Nat.ofDigitChars_cons (c := '0')]
    rfl
  | case2 value _ => rfl

/-- What is left starts with a zero only when it is a single digit. -/
theorem trimZeros_cases (as : List Char) :
    (trimZeros as).length ≤ 1 ∨ ∃ b bs, trimZeros as = b :: bs ∧ b ≠ '0' := by
  fun_induction trimZeros as with
  | case1 c rest ih => exact ih
  | case2 value other =>
    cases value with
    | nil => exact .inl (by simp)
    | cons b bs =>
      cases bs with
      | nil => exact .inl (by simp)
      | cons c rest =>
        refine .inr ⟨b, c :: rest, rfl, ?_⟩
        rintro rfl
        exact other c rest rfl

private theorem ofDigitChars_lt_of_trimmed_shorter (left : Digits as) (right : Digits bs)
    (shorter : (trimZeros as).length < (trimZeros bs).length) (some : 1 ≤ (trimZeros as).length) :
    Nat.ofDigitChars 10 as 0 < Nat.ofDigitChars 10 bs 0 := by
  rw [← ofDigitChars_trimZeros as, ← ofDigitChars_trimZeros bs]
  rcases trimZeros_cases bs with single | ⟨b, rest, shape, nonzero⟩
  · omega
  · have digits := trimZeros_digits right
    rw [shape] at shorter digits ⊢
    exact ofDigitChars_lt_of_shorter (trimZeros_digits left) digits nonzero shorter

end Decimals

/-! ## Segments -/

section Compare
variable {left right : String}

theorem compareStrings_eq (left right : String) :
    compareStrings left right = threeWay left right := by
  unfold compareStrings threeWay
  rcases lt_trichotomy left right with less | same | greater
  · simp [less]
  · simp [same]
  · simp [greater, greater.asymm, greater.ne']

private theorem isDigits_iff {value : String} :
    isDigits value = true ↔ value.toList ≠ [] ∧ Digits value.toList := by
  simp [isDigits, Digits, ← String.toList_eq_nil_iff]

private theorem length_trimZeros_pos {l : List Char} (some : l ≠ []) :
    1 ≤ (trimZeros l).length := by
  fun_induction trimZeros l with
  | case1 c rest ih => exact ih (List.cons_ne_nil c rest)
  | case2 value _ => exact List.length_pos_iff.mpr some

/-- Length and then text compare the numbers. -/
theorem compareUnsignedDecimal_sign (hl : isDigits left = true) (hr : isDigits right = true) :
    (compareUnsignedDecimal left right < 0 ↔
      Nat.ofDigitChars 10 left.toList 0 < Nat.ofDigitChars 10 right.toList 0) ∧
    (0 < compareUnsignedDecimal left right ↔
      Nat.ofDigitChars 10 right.toList 0 < Nat.ofDigitChars 10 left.toList 0) := by
  obtain ⟨someL, digitsL⟩ := isDigits_iff.mp hl
  obtain ⟨someR, digitsR⟩ := isDigits_iff.mp hr
  have lengthL := length_trimZeros_pos someL
  have lengthR := length_trimZeros_pos someR
  simp only [compareUnsignedDecimal, trimLeadingZeros, String.length_ofList]
  rcases lt_trichotomy (trimZeros left.toList).length (trimZeros right.toList).length with
    less | same | greater
  · have := ofDigitChars_lt_of_trimmed_shorter digitsL digitsR less lengthL
    rw [if_pos less]
    omega
  · have order :=
      @ofDigitChars_lt_of_lt _ _ (trimZeros_digits digitsL) (trimZeros_digits digitsR) same 0
    have order' :=
      @ofDigitChars_lt_of_lt _ _ (trimZeros_digits digitsR) (trimZeros_digits digitsL) same.symm 0
    rw [ofDigitChars_trimZeros, ofDigitChars_trimZeros] at order order'
    rw [if_neg (by omega), if_neg (by omega), compareStrings_eq]
    rcases lt_trichotomy (trimZeros left.toList) (trimZeros right.toList) with lt | eq | gt
    · have texts : String.ofList (trimZeros left.toList) < String.ofList
          (trimZeros right.toList) := by
        rw [String.lt_iff_toList_lt]
        simpa using lt
      have := order lt
      rw [threeWay, if_pos texts]
      omega
    · have values : Nat.ofDigitChars 10 left.toList 0 = Nat.ofDigitChars 10 right.toList 0 := by
        rw [← ofDigitChars_trimZeros, eq, ofDigitChars_trimZeros]
      simp [eq, threeWay, values]
    · have texts : String.ofList (trimZeros right.toList) < String.ofList
          (trimZeros left.toList) := by
        rw [String.lt_iff_toList_lt]
        simpa using gt
      have := order' gt
      rw [threeWay, if_neg texts.asymm, if_neg texts.ne']
      omega
  · have := ofDigitChars_lt_of_trimmed_shorter digitsR digitsL greater lengthR
    rw [if_neg (by omega), if_pos greater]
    omega

/-- The comparison of two segments in Go. -/
def segmentOrder (a b : String) : Int :=
  if a = b then 0
  else match Query.atoi a, Query.atoi b with
    | some na, some nb => na - nb
    | _, _ => threeWay a b

/-- The comparison of two segments in Haxe. -/
def partOrder (a b : String) : Int :=
  if a = b then 0
  else if isDigits a ∧ isDigits b then compareUnsignedDecimal a b
  else threeWay a b

private theorem compareSegments_eq (sa sb : List String) :
    ListTree.compareSegments sa sb = lexCompare segmentOrder (fun m n => (m : Int) - n) sa sb := by
  induction sa generalizing sb with
  | nil => cases sb <;> rfl
  | cons a sa ih =>
    cases sb with
    | nil => rfl
    | cons b sb =>
      rw [ListTree.compareSegments, lexCompare, segmentOrder, ih]
      by_cases same : a = b
      · simp [same]
      · rw [if_neg same, if_neg same]
        have text : threeWay a b = if a < b then -1 else 1 := by simp [threeWay, same]
        cases Query.atoi a with
        | none => simp only [text]; split_ifs <;> simp_all
        | some na =>
          cases Query.atoi b with
          | none => simp only [text]; split_ifs <;> simp_all
          | some nb =>
            by_cases number : na = nb
            · simp [number]
            · have differ : na - nb ≠ 0 := by omega
              simp [number, differ]

private theorem compareParts_eq (sa sb : List String) :
    compareParts sa sb = lexCompare partOrder compareInts sa sb := by
  induction sa generalizing sb with
  | nil => cases sb <;> rfl
  | cons a sa ih =>
    cases sb with
    | nil => rfl
    | cons b sb =>
      rw [compareParts, lexCompare, partOrder, ih]
      by_cases same : a = b
      · simp [same]
      · rw [if_neg same, if_neg same]
        by_cases digits : isDigits a ∧ isDigits b
        · simp only [if_pos digits]
        · have text : threeWay a b ≠ 0 := by
            unfold threeWay
            split_ifs <;> simp
          simp only [if_neg digits, compareStrings_eq]
          rw [if_pos text]

private theorem segmentOrder_natural (a b : String) :
    segmentOrder a b ≤ 0 ↔ NaturalLe Query.atoi a b := by
  unfold segmentOrder NaturalLe
  by_cases same : a = b
  · subst same
    cases Query.atoi a <;> simp
  · rw [if_neg same]
    cases Query.atoi a with
    | none => exact threeWay_nonpos
    | some m =>
      cases Query.atoi b with
      | none => exact threeWay_nonpos
      | some n =>
        simp only
        omega

private theorem segmentOrder_swaps : Swaps segmentOrder := by
  intro a b
  unfold segmentOrder
  have turned := threeWay_swap a b
  by_cases same : a = b
  · simp [same]
  · rw [if_neg same, if_neg (Ne.symm same)]
    cases Query.atoi a <;> cases Query.atoi b <;> simp only <;> omega

private theorem partOrder_natural (a b : String) :
    partOrder a b ≤ 0 ↔ NaturalLe unsignedDecimal a b := by
  unfold partOrder NaturalLe unsignedDecimal
  by_cases same : a = b
  · subst same
    by_cases digits : isDigits a = true <;> simp [digits]
  · rw [if_neg same]
    by_cases digitsA : isDigits a = true
    · by_cases digitsB : isDigits b = true
      · have sign := compareUnsignedDecimal_sign digitsA digitsB
        simp only [digitsA, digitsB, and_self, if_true]
        omega
      · simp [digitsA, digitsB, threeWay_nonpos]
    · simp [digitsA, threeWay_nonpos]

private theorem partOrder_swaps : Swaps partOrder := by
  intro a b
  unfold partOrder
  have turned := threeWay_swap a b
  by_cases same : a = b
  · simp [same]
  · rw [if_neg same, if_neg (Ne.symm same)]
    by_cases digitsA : isDigits a = true
    · by_cases digitsB : isDigits b = true
      · have sign := compareUnsignedDecimal_sign digitsA digitsB
        have sign' := compareUnsignedDecimal_sign digitsB digitsA
        simp only [digitsA, digitsB, and_self, if_true]
        omega
      · simp only [digitsA, digitsB]
        simp
        omega
    · simp only [digitsA]
      simp
      omega

end Compare

/-! ## Ids -/

/-- Over a set of segments the ids are weakly ordered exactly when no segment that is no number
stands, as a text, between two numbers that are the other way round. Go and Haxe differ in what a
number is. -/
theorem naturalCompare_strictWeakOn_iff (segments : Segments) :
    (StrictWeakOn segments.ids (fun a b => ListTree.naturalCompareIDs a b < 0) ↔
      ∀ low ∈ segments.texts, ∀ high ∈ segments.texts, ∀ text ∈ segments.texts,
        ¬ Straddles Query.atoi low high text) ∧
    (StrictWeakOn segments.ids (fun a b => naturalCompareIds a b < 0) ↔
      ∀ low ∈ segments.texts, ∀ high ∈ segments.texts, ∀ text ∈ segments.texts,
        ¬ Straddles unsignedDecimal low high text) := by
  have singles : ∀ text ∈ segments.texts, ∃ id ∈ segments.ids, ListTree.splitIDSegments id =
      [text] := by
    intro text held
    have single := segments.single text held
    refine ⟨text, ?_, single⟩
    intro part listed
    rw [single, List.mem_singleton] at listed
    exact listed ▸ held
  have lengths : ByLength fun m n => (m : Int) - n := by
    intro m n
    simp only
    omega
  have lengths' : ByLength compareInts := by
    intro m n
    unfold compareInts
    split_ifs <;> omega
  constructor
  · exact naturalOrder_iff segmentOrder_swaps lengths segmentOrder_natural
      (fun a b => compareSegments_eq _ _)
      (fun id held => held) singles
  · exact naturalOrder_iff partOrder_swaps lengths' partOrder_natural
      (fun a b => compareParts_eq _ _)
      (fun id held => held) singles

theorem naturalCompare_not_transitive :
    ¬ StrictWeakOn Set.univ (fun a b => ListTree.naturalCompareIDs a b < 0) ∧
      ¬ StrictWeakOn Set.univ (fun a b => naturalCompareIds a b < 0) := by
  constructor
  · intro order
    have first : ListTree.naturalCompareIDs "bd-2" "bd-10" < 0 := by decide
    have second : ListTree.naturalCompareIDs "bd-10" "bd-1a" < 0 := by decide
    exact absurd (order.trans _ trivial _ trivial _ trivial first second) (by decide)
  · intro order
    have first : naturalCompareIds "bd-2" "bd-10" < 0 := by decide
    have second : naturalCompareIds "bd-10" "bd-1a" < 0 := by decide
    exact absurd (order.trans _ trivial _ trivial _ trivial first second) (by decide)

end Beads.QueryPage
