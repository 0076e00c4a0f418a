import Beads.PartialIds
import Beads.MoleculeProgress

/-! The ids of a bonded clone (`template.go`). A clone of a template below a molecule gets ids of
its own: the root the id of the parent and the child reference, every other issue in addition
what its old id adds to that of the old root. An issue whose old id does not start with that of
the root keeps the end of its old id only, after the last dot or else the last dash.

Two ends may be the same, so the clone has distinct ids under the condition of
`bondedIDs_nodup_iff` only. The first pass of `cloneSubgraphInto` is modelled as far as the ids
go; the issues that it creates are left out. -/
namespace Beads.Molecules
open Lib

/-! ## Child references -/

def isNameStart (c : Char) : Bool := isLower c || isUpper c || c = '_'

def isNamePart (c : Char) : Bool := isNameStart c || isDigit c

/-- A match of `variablePattern` at the start of a text: the name, and what follows. -/
def placeholder : List Char → Option (List Char × List Char)
  | '\x7b' :: '\x7b' :: c :: rest =>
    if isNameStart c then
      match rest.dropWhile isNamePart with
      | '\x7d' :: '\x7d' :: after => some (c :: rest.takeWhile isNamePart, after)
      | _ => none
    else none
  | _ => none

private theorem length_placeholder {text name after : List Char}
    (found : placeholder text = some (name, after)) :
    after.length < text.length := by
  unfold placeholder at found
  split at found
  · next c rest =>
    split at found
    · split at found
      · next rest' shape =>
        cases found
        have short := (List.dropWhile_sublist isNamePart (l := rest)).length_le
        rw [shape] at short
        simp only [List.length_cons] at short ⊢
        omega
      · cases found
    · cases found
  · cases found

/-- `substituteVariables`. A placeholder without a value is left as it is. -/
def substituteVariables (vars : List Char → Option (List Char)) : List Char → List Char
  | [] => []
  | c :: rest =>
    match _found : placeholder (c :: rest) with
    | some (name, after) =>
      (vars name).getD ('\x7b' :: '\x7b' :: name ++ ['\x7d', '\x7d']) ++ substituteVariables vars after
    | none => c :: substituteVariables vars rest
  termination_by text => text.length
  decreasing_by
    · exact length_placeholder _found
    · simp

/-- `CloneOptions`, with the fields that ids depend on. -/
structure CloneOptions where
  vars : List Char → Option (List Char)
  parentID : String
  childRef : String
  rootOnly : Bool

/-- The child reference after substitution. -/
def CloneOptions.reference (opts : CloneOptions) : List Char :=
  substituteVariables opts.vars opts.childRef.toList

/-- `bondedIDPattern`. -/
def isBondedID (text : List Char) : Bool :=
  text ≠ [] && text.all fun c => isLower c || isUpper c || isDigit c || c = '_' || c = '.' || c = '-'

/-! ## Ids -/

/-- What comes after the last mark. -/
def afterLast (mark : Char) (text : List Char) : Option (List Char) :=
  if mark ∈ text then some (text.reverse.takeWhile (· ≠ mark)).reverse else none

/-- `extractIDSuffix`. -/
def extractIDSuffix (id : List Char) : List Char :=
  match afterLast '.' id with
  | some suffix => suffix
  | none => (afterLast '-' id).getD id

/-- `getRelativeID`. -/
def getRelativeID (oldID rootID : List Char) : List Char :=
  if oldID = rootID then []
  else if (rootID ++ ['.']) <+: oldID then oldID.drop (rootID.length + 1)
  else []

/-- `generateBondedID`. -/
def generateBondedID (oldID rootID : String) (opts : CloneOptions) : Except String String :=
  let childRef := opts.reference
  if opts.parentID = "" then .ok ""
  else if childRef = [] then .error "childRef is empty after variable substitution"
  else if isBondedID childRef = false then
    .error ("invalid childRef '" ++ String.ofList childRef ++
      "': must be alphanumeric, dash, underscore, or dot only")
  else if oldID = rootID then .ok (String.ofList (opts.parentID.toList ++ '.' :: childRef))
  else
    let relativeID := getRelativeID oldID.toList rootID.toList
    let last := if relativeID = [] then extractIDSuffix oldID.toList else relativeID
    .ok (String.ofList (opts.parentID.toList ++ '.' :: childRef ++ '.' :: last))

namespace Subgraph
variable (g : Subgraph)

/-- The issues that are cloned. -/
def cloned (opts : CloneOptions) : List Step :=
  g.issues.rows.filter fun issue => !opts.rootOnly || issue.id = g.root.id

/-- The new ids of the first pass of `cloneSubgraphInto`, in the order of the issues. -/
def bondedIDs (opts : CloneOptions) : Except String (List String) :=
  (g.cloned opts).mapM fun issue =>
    match generateBondedID issue.id g.root.id opts with
    | .ok id => .ok id
    | .error message => .error ("failed to generate bonded ID for " ++ issue.id ++ ": " ++ message)

/-! ## When the new ids are distinct -/

/-- The part of a new id that comes from the old one. -/
def lastPart (oldID : String) : List Char :=
  let relativeID := getRelativeID oldID.toList g.root.id.toList
  if relativeID = [] then extractIDSuffix oldID.toList else relativeID

/-- The new id of an issue. -/
def bondedID (opts : CloneOptions) (oldID : String) : String :=
  if oldID = g.root.id then String.ofList (opts.parentID.toList ++ '.' :: opts.reference)
  else String.ofList (opts.parentID.toList ++ '.' :: opts.reference ++ '.' :: g.lastPart oldID)

variable {g} {opts : CloneOptions}

private theorem generateBondedID_eq (bonded : opts.parentID ≠ "")
    (valid : isBondedID opts.reference = true) (oldID : String) :
    generateBondedID oldID g.root.id opts = .ok (g.bondedID opts oldID) := by
  have some : opts.reference ≠ [] := by
    intro empty
    rw [empty] at valid
    exact absurd valid (by decide)
  rw [generateBondedID, if_neg bonded, if_neg some, if_neg (by simp [valid]), bondedID]
  split
  · rfl
  · rfl

private theorem bondedIDs_eq (bonded : opts.parentID ≠ "")
    (valid : isBondedID opts.reference = true) :
    g.bondedIDs opts = .ok ((g.cloned opts).map fun issue => g.bondedID opts issue.id) := by
  rw [bondedIDs]
  simp only [generateBondedID_eq bonded valid]
  exact List.mapM_pure ..

/-- Two ids below the root that differ have different relative parts. -/
theorem getRelativeID_inj {left right root : List Char} (below : getRelativeID left root ≠ [])
    (same : getRelativeID left root = getRelativeID right root) : left = right := by
  have shape {id : List Char} (below : getRelativeID id root ≠ []) :
      id = root ++ '.' :: getRelativeID id root := by
    rw [getRelativeID] at below ⊢
    split at below
    · exact absurd rfl below
    · next other =>
      rw [if_neg other]
      split at below
      · next starts =>
        rw [if_pos starts]
        obtain ⟨rest, rfl⟩ := starts
        simp
      · exact absurd rfl below
  calc left = root ++ '.' :: getRelativeID left root := shape below
    _ = root ++ '.' :: getRelativeID right root := by rw [same]
    _ = right := (shape (same ▸ below)).symm

private theorem bondedID_eq_iff {x y : String} : g.bondedID opts x = g.bondedID opts y ↔
    (x = g.root.id ∧ y = g.root.id) ∨
      (x ≠ g.root.id ∧ y ≠ g.root.id ∧ g.lastPart x = g.lastPart y) := by
  -- The id of a child is longer than that of the root.
  have longer (last : List Char) : opts.parentID.toList ++ '.' :: opts.reference ≠
      opts.parentID.toList ++ '.' :: opts.reference ++ '.' :: last := by simp
  rw [bondedID, bondedID]
  by_cases left : x = g.root.id
  · by_cases right : y = g.root.id
    · simp [left, right]
    · rw [if_pos left, if_neg right, String.ofList_inj]
      simp [left, right]
  · by_cases right : y = g.root.id
    · rw [if_neg left, if_pos right, String.ofList_inj]
      simp [left, right]
    · rw [if_neg left, if_neg right, String.ofList_inj]
      simp [left, right]

/-- The new ids of a bonded clone are distinct exactly when only the root is cloned, or no issue
that does not lie below the root by its id ends like another issue is named. -/
theorem bondedIDs_nodup_iff (g : Subgraph) (opts : CloneOptions) (bonded : opts.parentID ≠ "")
    (valid : isBondedID opts.reference = true) :
    ∃ ids, g.bondedIDs opts = .ok ids ∧ (ids.Nodup ↔ opts.rootOnly = true ∨
      ∀ x ∈ g.stepIDs, ∀ y ∈ g.stepIDs, x ≠ y → getRelativeID y.toList g.root.id.toList = [] →
        g.lastPart x ≠ extractIDSuffix y.toList) := by
  refine ⟨_, bondedIDs_eq bonded valid, ?_⟩
  have rows : (g.cloned opts).Nodup := (List.Nodup.of_map _ g.issues.distinct).filter _
  rw [List.nodup_map_iff_inj_on rows]
  have same {a b : Step} (left : a ∈ g.cloned opts) (right : b ∈ g.cloned opts)
      (ids : a.id = b.id) : a = b :=
    Table.eq_of_key (List.mem_filter.mp left).1 (List.mem_filter.mp right).1 ids
  cases single : opts.rootOnly with
  | true =>
    refine iff_of_true ?_ (.inl rfl)
    have root {a : Step} (held : a ∈ g.cloned opts) : a.id = g.root.id := by
      simpa [single] using (List.mem_filter.mp held).2
    intro a left b right _
    exact same left right ((root left).trans (root right).symm)
  | false =>
    have all {a : Step} : a ∈ g.cloned opts ↔ a ∈ g.issues.rows := by simp [cloned, single]
    rw [or_iff_right (by simp)]
    constructor
    · intro injective x inX y inY ne outside collide
      obtain ⟨a, heldA, rfl⟩ := List.mem_map.mp inX
      obtain ⟨b, heldB, rfl⟩ := List.mem_map.mp inY
      simp only [steps, List.mem_filter, decide_eq_true_eq] at heldA heldB
      have part : g.lastPart b.id = extractIDSuffix b.id.toList := by simp [lastPart, outside]
      have equal : g.bondedID opts a.id = g.bondedID opts b.id :=
        bondedID_eq_iff.mpr (.inr ⟨heldA.2, heldB.2, collide.trans part.symm⟩)
      exact ne (congrArg Step.id (injective a (all.mpr heldA.1) b (all.mpr heldB.1) equal))
    · intro apart a left b right equal
      rcases bondedID_eq_iff.mp equal with ⟨rootA, rootB⟩ | ⟨notA, notB, parts⟩
      · exact same left right (rootA.trans rootB.symm)
      · apply same left right
        by_contra ne
        have stepA : a.id ∈ g.stepIDs :=
          List.mem_map_of_mem (List.mem_filter.mpr ⟨all.mp left, by simpa using notA⟩)
        have stepB : b.id ∈ g.stepIDs :=
          List.mem_map_of_mem (List.mem_filter.mpr ⟨all.mp right, by simpa using notB⟩)
        by_cases outsideB : getRelativeID b.id.toList g.root.id.toList = []
        · exact apart a.id stepA b.id stepB ne outsideB (by rw [parts]; simp [lastPart, outsideB])
        · by_cases outsideA : getRelativeID a.id.toList g.root.id.toList = []
          · exact apart b.id stepB a.id stepA (Ne.symm ne) outsideA
              (by rw [← parts]; simp [lastPart, outsideA])
          · simp only [lastPart, outsideA, outsideB, if_false] at parts
            exact ne (String.toList_injective (getRelativeID_inj outsideA parts))

/-- A step of another prefix that ends like a step below the root is named. -/
def mixedTemplate : Subgraph where
  root := ⟨"tpl-1", .open⟩
  issues := ⟨[⟨"tpl-1", .open⟩, ⟨"tpl-1.a", .open⟩, ⟨"lib-a", .open⟩], by decide⟩
  dependencies := []

def bondArm : CloneOptions where
  vars _ := none
  parentID := "patrol-x7k"
  childRef := "arm-ace"
  rootOnly := false

theorem bondedIDs_nodup_iff_mixedTemplate :
    bondArm.parentID ≠ "" ∧ isBondedID bondArm.reference = true ∧
    ∃ ids, mixedTemplate.bondedIDs bondArm = .ok ids ∧ (ids.Nodup ↔ bondArm.rootOnly = true ∨
      ∀ x ∈ mixedTemplate.stepIDs, ∀ y ∈ mixedTemplate.stepIDs, x ≠ y →
        getRelativeID y.toList mixedTemplate.root.id.toList = [] →
        mixedTemplate.lastPart x ≠ extractIDSuffix y.toList) := by
  have bonded : bondArm.parentID ≠ "" := by decide
  have valid : isBondedID bondArm.reference = true := by decide +kernel
  exact ⟨bonded, valid, bondedIDs_nodup_iff mixedTemplate bondArm bonded valid⟩

/-- Both steps become the same issue. -/
theorem mixedTemplate_collides : bondArm.parentID ≠ "" ∧ isBondedID bondArm.reference = true ∧
    ∃ ids, mixedTemplate.bondedIDs bondArm = .ok ids ∧ ¬ ids.Nodup := by
  have run : mixedTemplate.bondedIDs bondArm =
      .ok ["patrol-x7k.arm-ace", "patrol-x7k.arm-ace.a", "patrol-x7k.arm-ace.a"] := by decide +kernel
  exact ⟨by decide, by decide +kernel, _, run, by decide⟩

end Subgraph

end Beads.Molecules
