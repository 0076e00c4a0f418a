import Mathlib.Data.Bool.AllAny
import Beads.QueryErrors
import Beads.QuerySyntaxProofs
import Beads.Lib.Recovery
import Beads.Lib.Numbering

/-! What the two query parsers report. The Go parser reports the first error from left to right.
The port does the same where it looks for a failure right after reading a token; where an operand
is awaited it does not look, and reads on. -/
namespace Beads.Query
open Lib

/-! ## Where the parsers stop -/

/-- What becomes of a failure with which the port parses an operand. -/
inductive Residue : ParserState → SyntaxError → SyntaxError → Prop where
  | skip {p q : ParserState} {failure noted last : SyntaxError}
      (opens : p.current.type = .not ∨ p.current.type = .lParen)
      (next : QueryParser.advance QueryLexer.nextToken (p, some failure) = (q, some noted))
      (rest : Residue q noted last) : Residue p failure last
  | field {p q : ParserState} {failure noted : SyntaxError} (field : p.current.type = .ident)
      (next : QueryParser.advance QueryLexer.nextToken (p, some failure) = (q, some noted)) : Residue p failure noted
  | other {p : ParserState} {failure : SyntaxError} (closed : p.current.type ≠ .not ∧ p.current.type ≠ .lParen)
      (other : p.current.type ≠ .ident) : Residue p failure (.expectedField p.current.pos p.current.type)

/-- The error of the Go parser and the last failure of the port, at the place where they stop. -/
inductive Ends (place : Place) : SyntaxError → SyntaxError → Prop where
  | checked {expected : Expected} {depth : Nat} {err : LexError} {cursor : Cursor}
      (taken : place.behind = some (expected, depth)) (checked : expected ≠ .operand)
      (failed : QueryLexer.nextToken place.state.cursor = (.error err, cursor)) :
      Ends place (.lexical err) (.lexical err)
  | onward {depth : Nat} {err : LexError} {cursor : Cursor} {last : SyntaxError}
      (taken : place.behind = some (.operand, depth))
      (failed : QueryLexer.nextToken place.state.cursor = (.error err, cursor))
      (residue : Residue ⟨place.state.current, cursor⟩ (.lexical err) last) : Ends place (.lexical err) last
  | refused {err : SyntaxError} (refused : place.behind = none) (named : place.refusal = some err) : Ends place err err

section Productions
variable {input : List UInt8}

/-- A place that the reader comes to, with a text that both lexers read alike. -/
def Reached (input : List UInt8) (expected : Expected) (depth : Nat) (p : ParserState) : Prop :=
  Reads input ⟨expected, depth, p⟩ ∧ Readable p

/-- The parsers stop at one place. -/
def Stops (input : List UInt8) (err failure : SyntaxError) : Prop :=
  ∃ place, Reads input place ∧ Readable place.state ∧ Ends place err failure

variable {expected expected' : Expected} {depth depth' : Nat} {p q : ParserState}

theorem advance_reached (reached : Reached input expected depth p)
    (taken : Place.behind ⟨expected, depth, p⟩ = some (expected', depth'))
    (next : Parser.advance Lexer.nextToken p = .ok q) :
    QueryParser.advance QueryLexer.nextToken (p, none) = (q, none) ∧
      Reached input expected' depth' q := by
  obtain ⟨equal, keeps⟩ := readable_same p reached.2
  rw [next] at equal
  refine ⟨advance_follows.accepted equal, .tail reached.1 ⟨taken, next⟩, keeps q equal⟩

theorem advance_failed (readable : Readable p) {err : SyntaxError}
    (failed : Parser.advance Lexer.nextToken p = .error err) :
    ∃ lexical cursor, err = .lexical lexical ∧
      QueryLexer.nextToken p.cursor = (.error lexical, cursor) ∧
      QueryParser.advance QueryLexer.nextToken (p, none) = (⟨p.current, cursor⟩, some (.lexical lexical)) := by
  rw [← (readable_same p readable).1] at failed
  rcases lexed : QueryLexer.nextToken p.cursor with ⟨lexical | token, cursor⟩
  · simp only [Parser.advance, strictly, lexed, Except.map, Except.error.injEq] at failed
    exact ⟨lexical, cursor, failed.symm, rfl, by simp only [QueryParser.advance, lexed]⟩
  · simp [Parser.advance, strictly, lexed, Except.map] at failed

/-- A failure right behind a token, looked at before anything else is read. -/
theorem stops_checked (reached : Reached input expected depth p)
    (taken : Place.behind ⟨expected, depth, p⟩ = some (expected', depth'))
    (checked : expected' ≠ .operand)
    {lexical : LexError} {cursor : Cursor}
    (failed : QueryLexer.nextToken p.cursor = (.error lexical, cursor)) :
    Stops input (.lexical lexical) (.lexical lexical) :=
  ⟨_, reached.1, reached.2, .checked taken checked failed⟩

theorem stops_refused (reached : Reached input expected depth p) {err : SyntaxError}
    (refused : Place.behind ⟨expected, depth, p⟩ = none)
    (named : Place.refusal ⟨expected, depth, p⟩ = some err) :
    Stops input err err :=
  ⟨_, reached.1, reached.2, .refused refused named⟩

/-- The last token of a production. -/
theorem last_reports (reached : Reached input expected depth p)
    (taken : Place.behind ⟨expected, depth, p⟩ = some (expected', depth'))
    (checked : expected' ≠ .operand) (node : Node) :
    Outcome (Reached input expected' depth') (Stops input)
      (Parser.advance Lexer.nextToken p >>= fun p => pure (node, p))
      (some (node, QueryParser.advance QueryLexer.nextToken (p, none))) := by
  cases next : Parser.advance Lexer.nextToken p with
  | ok q =>
    obtain ⟨same, reached'⟩ := advance_reached reached taken next
    rw [same]
    exact .accepted node reached'
  | error err =>
    obtain ⟨lexical, cursor, rfl, failed, same⟩ := advance_failed reached.2 next
    rw [same]
    exact .refused node _ (stops_checked reached taken checked failed)

/-- The port looks at the failure right after a step. -/
theorem checked_reports {post : ParserState → Prop}
    {strict : EarlyExit ParserState SyntaxError Node}
    {lenient : Lenient ParserState SyntaxError Node} (reached : Reached input expected depth p)
    (taken : Place.behind ⟨expected, depth, p⟩ = some (expected', depth'))
    (checked : expected' ≠ .operand)
    (onward : ∀ {q}, Reached input expected' depth' q →
      Outcome post (Stops input) (strict q) (lenient (q, none))) :
    Outcome post (Stops input) (Parser.advance Lexer.nextToken p >>= strict)
      (if (QueryParser.advance QueryLexer.nextToken (p, none)).2 ≠ none then
        some (QueryParser.placeholder, QueryParser.advance QueryLexer.nextToken (p, none))
      else lenient (QueryParser.advance QueryLexer.nextToken (p, none))) := by
  cases next : Parser.advance Lexer.nextToken p with
  | ok q =>
    obtain ⟨same, reached'⟩ := advance_reached reached taken next
    rw [same]
    exact onward reached'
  | error err =>
    obtain ⟨lexical, cursor, rfl, failed, same⟩ := advance_failed reached.2 next
    rw [same]
    exact .refused _ _ (stops_checked reached taken checked failed)

private theorem value_reports (field : String) (op : ComparisonOp)
    (reached : Reached input .value depth p) :
    Outcome (Reached input .more depth) (Stops input) (Parser.parseValue Lexer.nextToken field op p)
      (QueryParser.parseValue QueryLexer.nextToken field op (p, none)) := by
  unfold Parser.parseValue QueryParser.parseValue
  cases value : p.current.type.value? with
  | none => exact .refused _ _ (stops_refused reached (by simp [Place.behind, value]) rfl)
  | some type => exact last_reports reached (by simp [Place.behind, value]) (by simp) _

private theorem operator_reports (field : String) (reached : Reached input .operator depth p) :
    Outcome (Reached input .more depth) (Stops input) (Parser.parseOperator Lexer.nextToken field p)
      (QueryParser.parseOperator QueryLexer.nextToken field (p, none)) := by
  unfold Parser.parseOperator QueryParser.parseOperator
  cases comparison : p.current.type.comparison? with
  | none => exact .refused _ _ (stops_refused reached (by simp [Place.behind, comparison]) rfl)
  | some op =>
    have taken : Place.behind ⟨.operator, depth, p⟩ = some (.value, depth) := by
      simp [Place.behind, comparison]
    exact checked_reports reached taken (by simp) fun reached => value_reports field op reached

/-- An operand is awaited, at the start of the query or later. -/
def AtOperand (input : List UInt8) (depth : Nat) (p : ParserState) : Prop :=
  Reached input .operand depth p ∨ (Reached input .query depth p ∧ p.current.type ≠ .eof)

theorem AtOperand.reached (held : AtOperand input depth p) :
    ∃ expected, Reached input expected depth p ∧
      Place.behind ⟨expected, depth, p⟩ = Place.operand? depth p.current.type ∧
      Place.refusal ⟨expected, depth, p⟩ = some (.expectedField p.current.pos p.current.type) := by
  rcases held with reached | ⟨reached, more⟩
  · exact ⟨.operand, reached, rfl, rfl⟩
  · exact ⟨.query, reached, rfl, by simp [Place.refusal, more]⟩

private theorem comparison_reports (held : AtOperand input depth p)
    (closed : p.current.type ≠ .not ∧ p.current.type ≠ .lParen) :
    Outcome (Reached input .more depth) (Stops input) (Parser.parseComparison Lexer.nextToken p)
      (QueryParser.parseComparison QueryLexer.nextToken (p, none)) := by
  obtain ⟨expected, reached, behind, refusal⟩ := held.reached
  unfold Parser.parseComparison QueryParser.parseComparison
  by_cases field : p.current.type ≠ .ident
  · have refused : Place.operand? depth p.current.type = none := by
      unfold Place.operand?
      split <;> simp_all
    rw [if_pos field, if_pos field]
    exact .refused _ _ (stops_refused reached (behind.trans refused) refusal)
  · rw [if_neg field, if_neg field]
    rw [ne_eq, not_not] at field
    have taken : Place.behind ⟨expected, depth, p⟩ = some (.operator, depth) := by
      rw [behind, field]; rfl
    exact checked_reports reached taken (by simp) fun reached => operator_reports _ reached

/-! ## Operands -/

/-- The step to an operand, which the port goes on to even if the step has failed. -/
theorem operand_step {held : ParserState → Prop} (reached : ∀ {p}, held p → ∃ expected depth,
      Reached input expected depth p ∧
        Place.behind ⟨expected, depth, p⟩ = some (.operand, depth')) :
    StepReports held (AtOperand input depth') (Stops input) Residue (Parser.advance Lexer.nextToken)
      (QueryParser.advance QueryLexer.nextToken) where
  accepted here next := by
    obtain ⟨expected, depth, before, taken⟩ := reached here
    obtain ⟨same, after⟩ := advance_reached before taken next
    exact ⟨same, .inl after⟩
  refused here failed := by
    obtain ⟨expected, depth, before, taken⟩ := reached here
    obtain ⟨lexical, cursor, rfl, lexed, same⟩ := advance_failed before.2 failed
    exact ⟨_, _, same, fun last left => ⟨_, before.1, before.2, .onward taken lexed left⟩⟩

private theorem not_step :
    StepReports (fun p => AtOperand input depth p ∧ p.at .not = true) (AtOperand input depth)
    (Stops input) Residue (Parser.advance Lexer.nextToken)
    (QueryParser.advance QueryLexer.nextToken) := by
  refine operand_step fun {p} held => ?_
  obtain ⟨expected, reached, behind, -⟩ := held.1.reached
  have type : p.current.type = .not := of_decide_eq_true held.2
  exact ⟨expected, depth, reached, by rw [behind, type]; rfl⟩

private theorem paren_step : StepReports (fun p => AtOperand input depth p ∧ p.at .lParen = true)
    (AtOperand input (depth + 1)) (Stops input) Residue (Parser.advance Lexer.nextToken)
    (QueryParser.advance QueryLexer.nextToken) := by
  refine operand_step fun {p} held => ?_
  obtain ⟨expected, reached, behind, -⟩ := held.1.reached
  have type : p.current.type = .lParen := of_decide_eq_true held.2
  exact ⟨expected, depth, reached, by rw [behind, type]; rfl⟩

private theorem and_step :
    StepReports (fun p => Reached input .more depth p ∧ p.at .and = true) (AtOperand input depth)
    (Stops input) Residue (Parser.advance Lexer.nextToken)
    (QueryParser.advance QueryLexer.nextToken) := by
  refine operand_step fun {p} held => ⟨.more, depth, held.1, ?_⟩
  have type : p.current.type = .and := of_decide_eq_true held.2
  simp [Place.behind, Place.more?, type]

private theorem or_step :
    StepReports (fun p => (Reached input .more depth p ∧ p.at .and = false) ∧
      p.at .or = true) (AtOperand input depth)
      (Stops input) Residue (Parser.advance Lexer.nextToken)
      (QueryParser.advance QueryLexer.nextToken) := by
  refine operand_step fun {p} held => ⟨.more, depth, held.1.1, ?_⟩
  have type : p.current.type = .or := of_decide_eq_true held.2
  simp [Place.behind, Place.more?, type]

/-- An operand has ended, and no operator follows. -/
def Closed (input : List UInt8) (depth : Nat) (p : ParserState) : Prop :=
  (Reached input .more depth p ∧ p.at .and = false) ∧ p.at .or = false

private theorem closeParen_reports (node : Node) (held : Closed input (depth + 1) p) :
    Outcome (Reached input .more depth) (Stops input) (Parser.closeParen Lexer.nextToken node p)
      (QueryParser.closeParen QueryLexer.nextToken node (p, none)) := by
  obtain ⟨⟨reached, noAnd⟩, noOr⟩ := held
  have clear : ¬ (p, (none : Option SyntaxError)).2 ≠ none := by simp
  unfold Parser.closeParen QueryParser.closeParen
  by_cases closed : p.current.type ≠ .rParen
  · have refused : Place.more? (depth + 1) p.current.type = none := by
      simp only [ParserState.at, decide_eq_false_iff_not] at noAnd noOr
      unfold Place.more?
      split <;> simp_all
    rw [if_pos closed, if_neg clear, if_pos closed]
    exact .refused _ _ (stops_refused reached refused (by simp [Place.refusal]))
  · rw [if_neg closed, if_neg clear, if_neg closed]
    rw [ne_eq, not_not] at closed
    have taken : Place.behind ⟨.more, depth + 1, p⟩ = some (.more, depth) := by
      simp [Place.behind, Place.more?, closed]
    exact last_reports reached taken (by simp) node

/-- A failure is noted, or the one noted before stays. -/
theorem advance_noted (p : ParserState) (failure : SyntaxError) :
    ∃ q noted, QueryParser.advance QueryLexer.nextToken (p, some failure) = (q, some noted) := by
  unfold QueryParser.advance
  split
  · exact ⟨_, _, rfl⟩
  · exact ⟨_, _, rfl⟩

private theorem comparison_residual {failure : SyntaxError} {r : Node × QueryParser.State}
    (closed : p.current.type ≠ .not ∧ p.current.type ≠ .lParen)
    (result : QueryParser.parseComparison QueryLexer.nextToken (p, some failure) = some r) :
    ∃ last, r.2.2 = some last ∧ Residue p failure last := by
  unfold QueryParser.parseComparison at result
  by_cases field : p.current.type ≠ .ident
  · rw [if_pos field] at result
    cases result
    exact ⟨_, rfl, .other closed field⟩
  · rw [if_neg field] at result
    obtain ⟨q, noted, next⟩ := advance_noted p failure
    rw [next] at result
    cases result
    exact ⟨noted, rfl, .field (not_not.mp field) next⟩

section Primary
variable {parseOr : EarlyExit ParserState SyntaxError Node}
  {parseOr' : Lenient ParserState SyntaxError Node}

private theorem primary_reports
    (reports : Reports (AtOperand input (depth + 1)) (Closed input (depth + 1)) (Stops input) Residue parseOr parseOr')
    (held : AtOperand input depth p) (noNot : p.current.type ≠ .not) :
    Outcome (Reached input .more depth) (Stops input) (Parser.parsePrimary Lexer.nextToken parseOr p)
      (QueryParser.parsePrimary QueryLexer.nextToken parseOr' (p, none)) := by
  unfold Parser.parsePrimary QueryParser.parsePrimary
  by_cases paren : p.at .lParen = true
  · rw [if_pos paren, if_pos paren, ← bind_assoc]
    refine (Outcome.after_step paren_step reports ⟨held, paren⟩).bind
      (fun node _ held => closeParen_reports node held) fun node t failure r result => ?_
    rw [QueryParser.closeParen, if_pos (by simp)] at result
    cases result
    rfl
  · rw [if_neg paren, if_neg paren]
    exact comparison_reports held ⟨noNot, fun type => paren (decide_eq_true type)⟩

private theorem primary_residual (residual : Residual Residue parseOr') {failure : SyntaxError}
    {r : Node × QueryParser.State} (noNot : p.current.type ≠ .not)
    (result : QueryParser.parsePrimary QueryLexer.nextToken parseOr' (p, some failure) = some r) :
    ∃ last, r.2.2 = some last ∧ Residue p failure last := by
  unfold QueryParser.parsePrimary at result
  by_cases paren : p.at .lParen = true
  · rw [if_pos paren] at result
    obtain ⟨⟨node, t, failed⟩, inner, result⟩ := Option.bind_eq_some_iff.mp result
    obtain ⟨q, noted, next⟩ := advance_noted p failure
    rw [next] at inner
    obtain ⟨last, kept, left⟩ := residual inner
    change failed = some last at kept
    subst kept
    rw [QueryParser.closeParen, if_pos (by simp)] at result
    cases result
    exact ⟨last, rfl, .skip (.inr (of_decide_eq_true paren)) next left⟩
  · rw [if_neg paren] at result
    exact comparison_residual ⟨noNot, fun type => paren (decide_eq_true type)⟩ result

end Primary

theorem or_reports {parseNot : EarlyExit ParserState SyntaxError Node}
    {parseNot' : Lenient ParserState SyntaxError Node}
    (reports : Reports (AtOperand input depth) (Reached input .more depth) (Stops input) Residue parseNot parseNot')
    {fuel : Nat} : Reports (AtOperand input depth) (Closed input depth) (Stops input) Residue
      (Parser.parseOr Lexer.nextToken parseNot fuel)
      (QueryParser.parseOr QueryLexer.nextToken parseNot' fuel) :=
  (reports.chain and_step).chain or_step

private theorem not_reports {fuel : Nat} :
    Reports (AtOperand input depth) (Reached input .more depth) (Stops input) Residue
    (Parser.parseNot Lexer.nextToken fuel) (QueryParser.parseNot QueryLexer.nextToken fuel) := by
  induction fuel generalizing depth with
  | zero => exact ⟨fun _ => .spent _, fun _ _ _ result => by cases result⟩
  | succ fuel ih =>
    constructor
    · intro p held
      unfold Parser.parseNot QueryParser.parseNot
      by_cases negated : p.at .not = true
      · rw [if_pos negated, if_pos negated, ← bind_assoc]
        refine (Outcome.after_step not_step ih ⟨held, negated⟩).bind
          (fun node _ held => .accepted _ held) ?_
        intro node t failure r result
        cases result
        rfl
      · rw [if_neg negated, if_neg negated]
        exact primary_reports (or_reports ih) held fun type => negated (decide_eq_true type)
    · intro p failure r result
      unfold QueryParser.parseNot at result
      by_cases negated : p.at .not = true
      · rw [if_pos negated] at result
        obtain ⟨⟨node, t, failed⟩, inner, result⟩ := Option.bind_eq_some_iff.mp result
        obtain ⟨q, noted, next⟩ := advance_noted p failure
        rw [next] at inner
        obtain ⟨last, kept, left⟩ := (@ih depth).residual inner
        cases result
        exact ⟨last, kept, .skip (.inl (of_decide_eq_true negated)) next left⟩
      · rw [if_neg negated] at result
        exact primary_residual (or_reports (@ih depth)).residual
          (fun type => negated (decide_eq_true type)) result

/-- Both parsers stop at one place of a query that they refuse. -/
theorem parse_stops (text : (0 : UInt8) ∉ input) (plain : Plain input) {err err' : SyntaxError}
    (refused : parse input = .error err) (refused' : QuerySyntax.parse input = some (.error err')) :
    Stops input err err' := by
  have start : Reached input .first 0 ⟨⟨.eof, "", 0⟩, Cursor.ofBytes input⟩ :=
    ⟨.refl, ofBytes_text text, plain⟩
  have taken : Place.behind ⟨.first, 0, ⟨⟨.eof, "", 0⟩, Cursor.ofBytes input⟩⟩ = some (.query, 0) :=
    rfl
  unfold parse Parser.parseFrom at refused
  unfold QuerySyntax.parse QueryParser.parseFrom at refused'
  cases first : Parser.advance Lexer.nextToken ⟨⟨.eof, "", 0⟩, Cursor.ofBytes input⟩ with
  | error failure =>
    obtain ⟨lexical, cursor, rfl, failed, same⟩ := advance_failed start.2 first
    rw [first] at refused
    rw [same] at refused'
    cases refused
    cases refused'
    exact stops_checked start taken (by simp) failed
  | ok p =>
    obtain ⟨same, reached⟩ := advance_reached start taken first
    rw [first] at refused
    rw [same] at refused'
    change Parser.parseQuery Lexer.nextToken _ p = _ at refused
    unfold Parser.parseQuery at refused
    dsimp only at refused'
    by_cases empty : p.at .eof = true
    · rw [if_pos empty] at refused refused'
      cases refused
      cases refused'
      have type : p.current.type = .eof := of_decide_eq_true empty
      exact stops_refused reached (by simp [Place.behind, Place.operand?, type])
        (by simp [Place.refusal, type])
    · rw [if_neg empty] at refused refused'
      have held : AtOperand input 0 p := .inr ⟨reached, fun type => empty (decide_eq_true type)⟩
      have outcome : Outcome (Closed input 0) (Stops input)
          (Parser.parseOr Lexer.nextToken (Parser.parseNot Lexer.nextToken (input.length + 2)) (input.length + 2) p)
          (QueryParser.parseOr QueryLexer.nextToken (QueryParser.parseNot QueryLexer.nextToken (input.length + 2))
            (input.length + 2) (p, none)) := (or_reports not_reports).run held
      generalize Parser.parseOr Lexer.nextToken _ _ p = strict at outcome refused
      generalize QueryParser.parseOr QueryLexer.nextToken _ _ (p, none) = lenient at outcome refused'
      cases outcome with
      | spent failure => cases refused'
      | refused node t ends =>
        cases refused
        cases refused'
        exact ends
      | @accepted node q closed =>
        obtain ⟨⟨reached, noAnd⟩, noOr⟩ := closed
        by_cases last : q.at .eof = true
        · simp [last] at refused'
        · simp only [bind, Except.bind, last, Bool.not_false, if_true, throw, throwThe,
            MonadExceptOf.throw] at refused
          simp only [Option.map_some, last, Bool.not_false, if_true, Option.some.injEq] at refused'
          cases refused
          cases refused'
          simp only [ParserState.at, decide_eq_false_iff_not, decide_eq_true_eq] at noAnd noOr last
          refine stops_refused reached ?_ (by simp [Place.refusal, last])
          simp only [Place.behind]
          unfold Place.more?
          split <;> simp_all

end Productions

/-! ## One place -/

section Places
variable {input : List UInt8} {place place' : Place} {err failure : SyntaxError}

private theorem step_unique : Relator.RightUnique Place.Step := by
  intro a b c first second
  have taken := first.taken.symm.trans second.taken
  have next := first.next.symm.trans second.next
  obtain ⟨expected, depth, state⟩ := b
  cases taken
  cases next
  rfl

/-- There is one place where a reader stops. -/
theorem stuck_unique (reads : Reads input place) (reads' : Reads input place')
    (stuck : ∀ c, ¬ Place.Step place c) (stuck' : ∀ c, ¬ Place.Step place' c) : place = place' := by
  rcases Relation.ReflTransGen.total_of_right_unique step_unique reads reads' with path | path
  · rcases path.cases_head with same | ⟨c, step, -⟩
    · exact same
    · exact absurd step (stuck c)
  · rcases path.cases_head with same | ⟨c, step, -⟩
    · exact same.symm
    · exact absurd step (stuck' c)

theorem lexer_fails {p : ParserState} (readable : Readable p) {lexical : LexError} {cursor : Cursor}
    (failed : QueryLexer.nextToken p.cursor = (.error lexical, cursor)) :
    Lexer.nextToken p.cursor = .error lexical := by
  rw [← QueryLexer.nextToken_eq readable.1 readable.2, strictly, failed]
  rfl

theorem stuck_of_failed (readable : Readable place.state) {lexical : LexError} {cursor : Cursor}
    (failed : QueryLexer.nextToken place.state.cursor = (.error lexical, cursor)) :
    ∀ c, ¬ Place.Step place c := by
  intro c step
  have next := step.next
  rw [Parser.advance, lexer_fails readable failed] at next
  cases next

theorem stuck_of_refused (refused : place.behind = none) : ∀ c, ¬ Place.Step place c := by
  intro c step
  have taken := step.taken
  rw [refused] at taken
  cases taken

theorem Ends.stuck (ends : Ends place err failure) (readable : Readable place.state) :
    ∀ c, ¬ Place.Step place c := by
  cases ends with
  | checked _ _ failed => exact stuck_of_failed readable failed
  | onward _ failed _ => exact stuck_of_failed readable failed
  | refused refused _ => exact stuck_of_refused refused

/-- The Go parser reports the first error. -/
theorem Stops.first (stops : Stops input err failure) : FirstError input err := by
  obtain ⟨place, reads, readable, ends⟩ := stops
  cases ends with
  | checked taken _ failed => exact .lexical reads (by simp [taken]) (lexer_fails readable failed)
  | onward taken failed _ => exact .lexical reads (by simp [taken]) (lexer_fails readable failed)
  | refused refused named => exact .refused reads refused named

/-- A query is read to the end where the reader stops. -/
theorem reads_readable (text : (0 : UInt8) ∉ input) (plain : Plain input)
    (reads : Reads input place) :
    Readable place.state := by
  induction reads with
  | refl => exact ⟨ofBytes_text text, plain⟩
  | @tail b c before step readable =>
    have equal := (readable_same b.state readable)
    rw [step.next] at equal
    exact equal.2 _ equal.1

end Places

/-! ## Positions of lexical errors -/

/-- The position of an error between that before the token and that behind it. -/
def LexError.Between (before behind : Nat) : LexError → Prop
  | .expectedDigit pos => before < pos ∧ pos ≤ behind
  | .unexpectedCharacter _ pos => before ≤ pos ∧ pos < behind
  | .loneBang pos => before ≤ pos ∧ pos < behind
  | .unterminatedString pos => before ≤ pos ∧ pos < behind
  | .unterminatedEscape pos => before ≤ pos ∧ pos < behind

/-- The lexer goes on from its position; an unexpected character is the one there. -/
def Onward (c : Cursor) (result : QueryLexer.QueryLexResult) : Prop :=
  match result.1 with
  | .ok _ => c.pos ≤ result.2.pos
  | .error err => err.Between c.pos result.2.pos ∧
      ∀ char pos, err = .unexpectedCharacter char pos → c.rest.head? = some char

namespace QueryLexer
variable {c : Cursor}

theorem onward_ok {token : Token} {cursor : Cursor} (le : c.pos ≤ cursor.pos) :
    Onward c (.ok token, cursor) := le

theorem onward_ite {p : Prop} [Decidable p] {a b : QueryLexResult} (left : p → Onward c a)
    (right : ¬ p → Onward c b) :
    Onward c (if p then a else b) := by
  split
  · next held => exact left held
  · next other => exact right other

theorem onward_skip (token : Token) (n : Nat) : Onward c (.ok token, c.skip n) :=
  Nat.le_add_right _ _

theorem onward_readIdentifier : Onward c (readIdentifier c) := onward_skip _ _

private theorem onward_readQuoted (quote : Char) (value : List Char) {pos : Nat} (rest : List Char)
    (behind : c.pos < pos) :
    Onward c (readQuoted quote c.pos value pos rest) := by
  fun_induction readQuoted quote c.pos value pos rest with
  | case1 value pos => exact ⟨⟨Nat.le_refl _, behind⟩, by simp⟩
  | case2 => exact onward_ok (by simp only; omega)
  | case3 value pos r rest other plain ih => exact ih (by omega)
  | case4 value pos r other escape => exact ⟨⟨Nat.le_of_lt behind, Nat.lt_succ_self _⟩, by simp⟩
  | case5 value pos r other escape escaped rest ih => exact ih (by omega)

private theorem onward_readDigits {hadSign : Bool} {unsigned : Cursor} (le : c.pos ≤ unsigned.pos)
    (digit : (peek unsigned).any isDigit = true ∨ c.pos < unsigned.pos) :
    Onward c (readDigits c hadSign unsigned) := by
  unfold readDigits
  refine onward_ite (fun other => ?_) fun _ => ?_
  · rcases digit with digit | less
    · simp [digit] at other
    · exact ⟨⟨less, Nat.le_refl _⟩, by simp⟩
  · refine onward_ite (fun _ => onward_ok ?_) fun _ => onward_ite (fun _ => onward_readIdentifier)
      fun _ => onward_ok ?_
    · simp only [Cursor.skip]
      omega
    · simp only [Cursor.skip]
      omega

private theorem onward_readNumberOrDuration
    (start : (peek c).any isDigit = true ∨ peek c = some '-' ∨ peek c = some '+') :
    Onward c (readNumberOrDuration c) := by
  unfold readNumberOrDuration
  refine onward_ite (fun _ => onward_readDigits (Nat.le_succ _) (.inr (Nat.lt_succ_self _))) fun
    unsigned => ?_
  exact onward_readDigits (Nat.le_refl _) (.inl (start.resolve_right unsigned))

private theorem onward_operator {plain withEquals : TokenType} {text : String} :
    Onward c (operator plain withEquals text c.pos (c.skip 1)) :=
  onward_ite (fun _ => onward_ok (Nat.le_add_right_of_le (Nat.le_succ _))) fun _ => onward_skip _ _

theorem onward_tokenAt : Onward c (tokenAt c) := by
  unfold tokenAt
  obtain ⟨pos, rest⟩ := c
  cases rest with
  | nil => exact onward_ok (Nat.le_refl _)
  | cons r rest =>
    refine onward_ite (fun _ => onward_skip _ _) fun _ => ?_
    refine onward_ite (fun _ => onward_skip _ _) fun _ => ?_
    refine onward_ite (fun _ => onward_skip _ _) fun _ => ?_
    refine onward_ite (fun _ => onward_skip _ _) fun _ => ?_
    refine onward_ite (fun _ => ?_) fun _ => ?_
    · refine onward_ite (fun _ => onward_ok (Nat.le_add_right_of_le (Nat.le_succ _))) fun _ => ?_
      exact ⟨⟨Nat.le_refl _, Nat.lt_succ_self _⟩, by simp⟩
    refine onward_ite (fun _ => onward_operator) fun _ => ?_
    refine onward_ite (fun _ => onward_operator) fun _ => ?_
    refine onward_ite (fun _ => onward_readQuoted r [] rest (Nat.lt_succ_self _)) fun _ => ?_
    refine onward_ite (fun number => ?_) fun _ => ?_
    · apply onward_readNumberOrDuration
      simpa [peek, or_assoc] using number
    refine onward_ite (fun _ => onward_readIdentifier) fun _ => ?_
    refine ⟨⟨Nat.le_refl _, Nat.lt_succ_self _⟩, fun char pos same => ?_⟩
    cases same
    rfl

private theorem nextToken_le {token : Token} {cursor : Cursor}
    (lexed : nextToken c = (.ok token, cursor)) :
    c.pos ≤ cursor.pos := by
  have onward : Onward (skipWhitespace c) (nextToken c) := onward_tokenAt
  rw [lexed] at onward
  exact Nat.le_trans (Nat.le_add_right _ _) onward

theorem nextToken_between {err : LexError} {cursor : Cursor}
    (lexed : nextToken c = (.error err, cursor)) :
    err.Between c.pos cursor.pos := by
  have onward : Onward (skipWhitespace c) (nextToken c) := onward_tokenAt
  rw [lexed] at onward
  have le : c.pos ≤ (skipWhitespace c).pos := Nat.le_add_right _ _
  have between : err.Between (skipWhitespace c).pos cursor.pos := onward.1
  cases err <;> simp only [LexError.Between] at between ⊢ <;> omega

/-- Whitespace is passed over, and so never unexpected. -/
theorem nextToken_unexpected {char : Char} {pos : Nat} {cursor : Cursor}
    (lexed : nextToken c = (.error (.unexpectedCharacter char pos), cursor)) :
    isWhitespace char = false := by
  have onward : Onward (skipWhitespace c) (nextToken c) := onward_tokenAt
  rw [lexed] at onward
  have head : (c.rest.drop (c.rest.takeWhile isWhitespace).length).head? = some char :=
    onward.2 char pos rfl
  have dropped : (c.rest.takeWhile isWhitespace ++ c.rest.dropWhile isWhitespace).drop
      (c.rest.takeWhile isWhitespace).length = c.rest.dropWhile isWhitespace := List.drop_left
  rw [List.takeWhile_append_dropWhile] at dropped
  rw [dropped] at head
  have kept := List.head?_dropWhile_not isWhitespace c.rest
  rw [head] at kept
  simpa using kept

end QueryLexer

/-! ## What is left of a failure -/

section Residues
variable {p q : ParserState} {failure noted last : SyntaxError}

theorem advance_cases (next : QueryParser.advance QueryLexer.nextToken (p, some failure) = (q, some noted)) :
    (QueryLexer.nextToken p.cursor = (.ok q.current, q.cursor) ∧ noted = failure) ∨
      ∃ err, QueryLexer.nextToken p.cursor = (.error err, q.cursor) ∧ q.current = p.current ∧
        noted = .lexical err := by
  unfold QueryParser.advance at next
  split at next
  · next token cursor lexed =>
    cases next
    exact .inl ⟨lexed, rfl⟩
  · next err cursor lexed =>
    cases next
    exact .inr ⟨err, lexed, rfl, rfl⟩

/-- A lexical error behind the position of a state. -/
def Later (p : ParserState) (last : SyntaxError) : Prop :=
  ∃ err cursor behind, p.cursor.pos ≤ cursor.pos ∧ QueryLexer.nextToken cursor = (.error err, behind) ∧
    last = .lexical err

private theorem Later.mono (later : Later q last) (le : p.cursor.pos ≤ q.cursor.pos) :
    Later p last := by
  obtain ⟨err, cursor, behind, after, failed, rfl⟩ := later
  exact ⟨err, cursor, behind, le.trans after, failed, rfl⟩

private theorem between_le {err : LexError} {before behind : Nat}
    (between : err.Between before behind) :
    before ≤ behind := by
  cases err <;> simp only [LexError.Between] at between <;> omega

/-- A failure is kept, or a field is missed, or another failure is noted. -/
theorem Residue.kept_or (residue : Residue p failure last) :
    (Keeps p ∧ last = failure) ∨ (∃ pos type, last = .expectedField pos type) ∨ Later p last := by
  induction residue with
  | @skip p q failure noted last opens next rest ih =>
    rcases advance_cases next with ⟨lexed, rfl⟩ | ⟨err, lexed, same, rfl⟩
    · have le := QueryLexer.nextToken_le lexed
      rcases ih with ⟨keeps, rfl⟩ | missed | later
      · exact .inl ⟨.skip opens lexed keeps, rfl⟩
      · exact .inr (.inl missed)
      · exact .inr (.inr (later.mono le))
    · have le := between_le (QueryLexer.nextToken_between lexed)
      rcases ih with ⟨keeps, rfl⟩ | missed | later
      · exact .inr (.inr ⟨err, _, _, Nat.le_refl _, lexed, rfl⟩)
      · exact .inr (.inl missed)
      · exact .inr (.inr (later.mono le))
  | field field next =>
    rcases advance_cases next with ⟨lexed, rfl⟩ | ⟨err, lexed, -, rfl⟩
    · exact .inl ⟨.field field lexed, rfl⟩
    · exact .inr (.inr ⟨err, _, _, Nat.le_refl _, lexed, rfl⟩)
  | other => exact .inr (.inl ⟨_, _, rfl⟩)

private theorem Residue.eq_of_keeps (residue : Residue p failure last) (keeps : Keeps p) :
    last = failure := by
  induction residue with
  | @skip p q failure noted last opens next rest ih =>
    cases keeps with
    | skip _ lexed keeps =>
      rcases advance_cases next with ⟨lexed', rfl⟩ | ⟨err, lexed', -⟩
      · rw [lexed] at lexed'
        cases lexed'
        exact ih keeps
      · rw [lexed] at lexed'
        cases lexed'
    | field field lexed =>
      rw [field] at opens
      simp at opens
  | field field next =>
    cases keeps with
    | skip opens lexed keeps =>
      rw [field] at opens
      simp at opens
    | field _ lexed =>
      rcases advance_cases next with ⟨-, same⟩ | ⟨err, lexed', -⟩
      · exact same
      · rw [lexed] at lexed'
        cases lexed'
  | other closed other =>
    cases keeps with
    | skip opens _ _ => exact absurd opens (not_or.mpr closed)
    | field field _ => exact absurd field other

end Residues

/-! ## Texts -/

section Quoting
variable {c quote : Char}

theorem one_lt_escapeRune (held : c = quote ∨ c = '\\' ∨ isPrint c = false) :
    1 < (escapeRune quote c).length := by
  unfold escapeRune
  split
  · simp
  · next other =>
    rw [if_neg (by simpa [not_or.mp other] using held)]
    split <;> try simp
    split <;> simp [hexByte]

theorem escapeRune_plain (quotes : c ≠ quote) (slash : c ≠ '\\') (print : isPrint c = true) :
    escapeRune quote c = [c] := by
  simp [escapeRune, quotes, slash, print]

/-- An unexpected character is quoted alike if it can be printed. -/
theorem quoteCharacter_eq_iff (shown : QueryLexer.isWhitespace c = false) :
    QueryParser.quoteCharacter c = Parser.quoteRune c ↔ isPrint c = true := by
  have lists : QueryParser.quoteCharacter c = Parser.quoteRune c ↔ QueryParser.escaped c = escapeRune '\'' c := by
    rw [QueryParser.quoteCharacter, Parser.quoteRune, String.ofList_inj]
    simp
  rw [lists]
  by_cases slash : c = '\\'
  · subst slash
    decide
  by_cases quotes : c = '\''
  · subst quotes
    decide
  have plain : QueryParser.escaped c = [c] := by
    unfold QueryParser.escaped
    split <;> first | rfl | simp_all
    all_goals revert shown; decide
  rw [plain]
  constructor
  · intro same
    by_contra other
    have longer : 1 < (escapeRune '\'' c).length :=
      one_lt_escapeRune (.inr (.inr (Bool.not_eq_true _ ▸ other)))
    rw [← same] at longer
    simp at longer
  · intro print
    exact (escapeRune_plain quotes slash print).symm

private theorem flatMap_escapeRune_le (l : List Char) :
    l.length ≤ (l.flatMap (escapeRune quote)).length := by
  induction l with
  | nil => simp
  | cons c l ih =>
    have one : 1 ≤ (escapeRune quote c).length := by
      by_cases held : c = quote ∨ c = '\\' ∨ isPrint c = false
      · exact Nat.le_of_lt (one_lt_escapeRune held)
      · simp only [not_or, Bool.not_eq_false] at held
        rw [escapeRune_plain held.1 held.2.1 held.2.2]
        simp
    rw [List.flatMap_cons, List.length_append, List.length_cons]
    omega

/-- A value is quoted alike if it is a literal text. -/
theorem quote_eq_iff (value : String) :
    QueryParser.quote value = Parser.quote value ↔ Literal value := by
  have lists : QueryParser.quote value = Parser.quote value ↔
      value.toList.flatMap (escapeRune '"') = value.toList := by
    rw [QueryParser.quote, Parser.quote, String.ofList_inj]
    simp [eq_comm]
  rw [lists, Literal]
  generalize value.toList = l
  induction l with
  | nil => simp
  | cons c l ih =>
    rw [List.flatMap_cons, List.forall_mem_cons]
    constructor
    · intro same
      have plain : ¬ (c = '"' ∨ c = '\\' ∨ isPrint c = false) := by
        intro held
        have longer := one_lt_escapeRune held
        have rest : l.length ≤ (l.flatMap (escapeRune '"')).length := flatMap_escapeRune_le l
        have lengths := congrArg List.length same
        rw [List.length_append, List.length_cons] at lengths
        omega
      simp only [not_or, Bool.not_eq_false] at plain
      rw [escapeRune_plain plain.1 plain.2.1 plain.2.2, List.singleton_append,
        List.cons.injEq] at same
      exact ⟨plain, ih.mp same.2⟩
    · rintro ⟨⟨quotes, slash, print⟩, rest⟩
      rw [escapeRune_plain quotes slash print, ih.mpr rest]
      rfl

end Quoting

section Messages
variable {q q' : Char → String} {err err' : LexError}

/-- The message of a lexical error is the same if its character is printable. -/
theorem lexical_message_eq_iff
    (shown : ∀ char pos, err = .unexpectedCharacter char pos →
      QueryLexer.isWhitespace char = false) :
    QueryParser.message (.lexical err) = Parser.message (.lexical err) ↔ err.Printable := by
  cases err with
  | unexpectedCharacter char pos =>
    unfold QueryParser.message Parser.message SyntaxError.message LexError.message
    rw [String.append_left_inj, String.append_left_inj, String.append_right_inj]
    exact quoteCharacter_eq_iff (shown char pos rfl)
  | loneBang pos => exact iff_of_true rfl trivial
  | unterminatedString pos => exact iff_of_true rfl trivial
  | unterminatedEscape pos => exact iff_of_true rfl trivial
  | expectedDigit pos => exact iff_of_true rfl trivial

private theorem expectedEnd_message_eq_iff (value : String) (pos : Nat) :
    QueryParser.message (.expectedEnd value pos) = Parser.message (.expectedEnd value pos) ↔
      Literal value := by
  unfold QueryParser.message Parser.message SyntaxError.message
  rw [String.append_left_inj, String.append_left_inj, String.append_left_inj,
    String.append_right_inj, quote_eq_iff]

namespace LexError

/-- The kinds of lexical errors. -/
inductive Kind where
  | unexpected
  | bang
  | string
  | escape
  | digit
  deriving DecidableEq

def kind : LexError → Kind
  | .unexpectedCharacter _ _ => .unexpected
  | .loneBang _ => .bang
  | .unterminatedString _ => .string
  | .unterminatedEscape _ => .escape
  | .expectedDigit _ => .digit

def pos : LexError → Nat
  | .unexpectedCharacter _ pos => pos
  | .loneBang pos => pos
  | .unterminatedString pos => pos
  | .unterminatedEscape pos => pos
  | .expectedDigit pos => pos

/-- The first characters of the messages of a kind. -/
def Kind.lead : Kind → List Char
  | .unexpected => "unexpected cha".toList
  | .bang => "unexpected cha".toList
  | .string => "unterminated s".toList
  | .escape => "unterminated e".toList
  | .digit => "expected digit".toList

theorem take_text (text rest : String) (long : 14 ≤ text.toList.length) :
    (text ++ rest).toList.take 14 = text.toList.take 14 := by
  rw [String.toList_append, List.take_append_of_le_length long]

theorem take_message (q : Char → String) (err : LexError) :
    (err.message q).toList.take 14 = err.kind.lead := by
  cases err with
  | unexpectedCharacter char pos =>
    unfold message
    dsimp only
    rw [String.append_assoc, String.append_assoc, take_text _ _ (by simp)]
    rfl
  | loneBang pos =>
    unfold message
    dsimp only
    rw [String.append_assoc, take_text _ _ (by simp)]
    rfl
  | unterminatedString pos => exact take_text _ _ (by simp)
  | unterminatedEscape pos => exact take_text _ _ (by simp)
  | expectedDigit pos => exact take_text _ _ (by simp)

/-- A message ends with its position, or with a hint in parentheses. -/
theorem closes_iff (q : Char → String) (err : LexError) :
    (err.message q).toList.getLast? = some ')' ↔ err.kind = .bang := by
  have number (text : String) (n : Nat) : (text ++ n.repr).toList.getLast? ≠ some ')' := by
    intro last
    rw [String.toList_append, Nat.toList_repr,
      List.getLast?_append_of_ne_nil _ Nat.toDigits_ne_nil] at last
    exact not_mem_toDigits (by decide) (List.mem_of_getLast? last)
  cases err with
  | unexpectedCharacter char pos => exact iff_of_false (number _ _) (by simp [kind])
  | loneBang pos =>
    refine iff_of_true ?_ rfl
    unfold message
    dsimp only
    rw [String.toList_append, List.getLast?_append_of_ne_nil _ (by decide)]
    decide
  | unterminatedString pos => exact iff_of_false (number _ _) (by simp [kind])
  | unterminatedEscape pos => exact iff_of_false (number _ _) (by simp [kind])
  | expectedDigit pos => exact iff_of_false (number _ _) (by simp [kind])

/-- Messages of two kinds are different. -/
theorem kind_eq (same : err.message q = err'.message q') : err.kind = err'.kind := by
  have leads : ∀ k k' : Kind, k.lead = k'.lead → (k = .bang ↔ k' = .bang) → k = k' := by
    intro k k'
    cases k <;> cases k' <;> decide
  apply leads
  · rw [← take_message q, same, take_message]
  · rw [← closes_iff q, same, closes_iff]

/-- The number at the end of a text is read off it. -/
theorem repr_inj {text text' : String} {pos pos' : Nat} (space : text.toList.getLast? = some ' ')
    (space' : text'.toList.getLast? = some ' ') (same : text ++ pos.repr = text' ++ pos'.repr) :
    pos = pos' := by
  obtain ⟨before, spaced⟩ := List.getLast?_eq_some_iff.mp space
  obtain ⟨before', spaced'⟩ := List.getLast?_eq_some_iff.mp space'
  have lists := congrArg String.toList same
  rw [String.toList_append, String.toList_append, Nat.toList_repr, Nat.toList_repr, spaced, spaced',
    List.append_assoc, List.append_assoc] at lists
  have plain (n : Nat) : ' ' ∉ Nat.toDigits 10 n := not_mem_toDigits (by decide)
  exact toDigits_inj (eq_around_last (plain pos) (plain pos') lists).2

/-- Messages of one kind tell the position. -/
theorem pos_eq (same : err.message q = err'.message q') : err.pos = err'.pos := by
  have kinds := kind_eq same
  have space (text : String) : (text ++ " at position ").toList.getLast? = some ' ' := by
    rw [String.toList_append, List.getLast?_append_of_ne_nil _ (by decide)]
    decide
  cases err with
  | unexpectedCharacter char pos =>
    cases err' <;> cases kinds
    exact repr_inj (space _) (space _) same
  | loneBang pos =>
    cases err' <;> cases kinds
    unfold message at same
    dsimp only at same
    rw [String.append_left_inj] at same
    exact repr_inj (by decide) (by decide) same
  | unterminatedString pos =>
    cases err' <;> cases kinds
    exact repr_inj (by decide) (by decide) same
  | unterminatedEscape pos =>
    cases err' <;> cases kinds
    exact repr_inj (by decide) (by decide) same
  | expectedDigit pos =>
    cases err' <;> cases kinds
    exact repr_inj (by decide) (by decide) same

/-- Errors at different places have different messages. -/
theorem message_ne {before behind before' behind' : Nat} (between : err.Between before behind)
    (between' : err'.Between before' behind') (later : behind ≤ before') :
    err'.message q' ≠ err.message q := by
  intro same
  have kinds := kind_eq same
  have positions := pos_eq same
  cases err <;> cases err' <;> cases kinds <;> simp only [Between, LexError.pos] at between between' positions <;> omega

end LexError

theorem field_message_ne (q : Char → String) (quoteValue : String → String) (pos : Nat)
    (type : TokenType) :
    SyntaxError.message q' quoteValue (.expectedField pos type) ≠ err.message q := by
  intro same
  have lead : (SyntaxError.message q' quoteValue (.expectedField pos type)).toList.take 14 = err.kind.lead := by
    rw [same, LexError.take_message]
  unfold SyntaxError.message at lead
  dsimp only at lead
  rw [String.append_assoc, String.append_assoc, LexError.take_text _ _ (by simp)] at lead
  revert lead
  cases err.kind <;> decide

end Messages

/-! ## Reports -/

section Faithfulness
variable {input : List UInt8} {place : Place} {err failure : SyntaxError}

/-- What `Faithful` asks for at one place. -/
structure FaithfulAt (place : Place) : Prop where
  lexical : ∀ {expected depth err cursor}, place.behind = some (expected, depth) →
    QueryLexer.nextToken place.state.cursor = (.error err, cursor) →
      err.Printable ∧ (expected = .operand → Keeps ⟨place.state.current, cursor⟩)
  ending : place.behind = none → place.expected = .more → place.depth = 0 → Literal place.state.current.value

theorem shown_of_failed {lexical : LexError} {cursor behind : Cursor}
    (failed : QueryLexer.nextToken cursor = (.error lexical, behind)) :
    ∀ char pos, lexical = .unexpectedCharacter char pos → QueryLexer.isWhitespace char = false := by
  rintro char pos rfl
  exact QueryLexer.nextToken_unexpected failed

private theorem faithfulAt_lexical {expected : Expected} {depth : Nat} {lexical : LexError}
    {cursor : Cursor} (taken : place.behind = some (expected, depth))
    (failed : QueryLexer.nextToken place.state.cursor = (.error lexical, cursor)) :
    FaithfulAt place ↔
      lexical.Printable ∧ (expected = .operand → Keeps ⟨place.state.current, cursor⟩) := by
  refine ⟨fun faithful => faithful.lexical taken failed, fun held => ⟨?_, ?_⟩⟩
  · intro expected' depth' lexical' cursor' taken' failed'
    rw [taken] at taken'
    rw [failed] at failed'
    cases taken'
    cases failed'
    exact held
  · intro refused
    rw [taken] at refused
    cases refused

private theorem onward_message_eq_iff {lexical : LexError} {cursor : Cursor} {last : SyntaxError}
    (failed : QueryLexer.nextToken place.state.cursor = (.error lexical, cursor))
    (residue : Residue ⟨place.state.current, cursor⟩ (.lexical lexical) last) :
    QueryParser.message last = Parser.message (.lexical lexical) ↔
      lexical.Printable ∧ Keeps ⟨place.state.current, cursor⟩ := by
  constructor
  · intro same
    rcases residue.kept_or with
      ⟨keeps, rfl⟩ | ⟨pos, type, rfl⟩ | ⟨later, before, behind, after, failed', rfl⟩
    · exact ⟨(lexical_message_eq_iff (shown_of_failed failed)).mp same, keeps⟩
    · exact absurd same (field_message_ne _ _ pos type)
    · have between := QueryLexer.nextToken_between failed
      have between' := QueryLexer.nextToken_between failed'
      exact absurd same (LexError.message_ne between between' after)
  · rintro ⟨printable, keeps⟩
    rw [residue.eq_of_keeps keeps]
    exact (lexical_message_eq_iff (shown_of_failed failed)).mpr printable

private theorem refused_message_eq_iff (refused : place.behind = none)
    (named : place.refusal = some err) :
    QueryParser.message err = Parser.message err ↔ FaithfulAt place := by
  have faithful : FaithfulAt place ↔
      (place.expected = .more → place.depth = 0 → Literal place.state.current.value) := by
    refine ⟨fun faithful => faithful.ending refused, fun held => ⟨fun taken => ?_, fun _ => held⟩⟩
    rw [refused] at taken
    cases taken
  rw [faithful]
  obtain ⟨expected, depth, state⟩ := place
  cases expected with
  | first => cases named
  | query =>
    refine iff_of_true ?_ (by simp)
    cases named
    split <;> rfl
  | operand =>
    cases named
    exact iff_of_true rfl (by simp)
  | operator =>
    cases named
    exact iff_of_true rfl (by simp)
  | value =>
    cases named
    exact iff_of_true rfl (by simp)
  | more =>
    simp only [Place.refusal] at named
    by_cases inside : 0 < depth
    · rw [if_pos inside] at named
      cases named
      exact iff_of_true rfl fun _ none => absurd none (Nat.ne_of_gt inside)
    · rw [if_neg inside] at named
      by_cases last : state.current.type = .eof
      · rw [if_pos last] at named
        cases named
      · rw [if_neg last] at named
        cases named
        rw [expectedEnd_message_eq_iff]
        exact ⟨fun literal _ _ => literal, fun held => held rfl (Nat.eq_zero_of_not_pos inside)⟩

private theorem Ends.message_eq_iff (ends : Ends place err failure) :
    QueryParser.message failure = Parser.message err ↔ FaithfulAt place := by
  cases ends with
  | checked taken checked failed =>
    rw [faithfulAt_lexical taken failed, lexical_message_eq_iff (shown_of_failed failed)]
    exact ⟨fun printable => ⟨printable, fun operand => absurd operand checked⟩, And.left⟩
  | onward taken failed residue =>
    rw [faithfulAt_lexical taken failed, onward_message_eq_iff failed residue]
    simp
  | refused refused named => exact refused_message_eq_iff refused named

/-- Only the place where the reader stops matters. -/
theorem faithful_iff (text : (0 : UInt8) ∉ input) (plain : Plain input) (reads : Reads input place)
    (ends : Ends place err failure) : Faithful input ↔ FaithfulAt place := by
  have stuck := ends.stuck (reads_readable text plain reads)
  constructor
  · exact fun faithful => ⟨fun taken failed => faithful.lexical reads taken failed,
      faithful.ending reads⟩
  · intro faithful
    constructor
    · intro place' expected depth lexical cursor reads' taken failed
      have readable' := reads_readable text plain reads'
      cases stuck_unique reads reads' stuck (stuck_of_failed readable' failed)
      exact faithful.lexical taken failed
    · intro place' reads' refused
      cases stuck_unique reads reads' stuck (stuck_of_refused refused)
      exact faithful.ending refused

end Faithfulness

private theorem plainFrom_known {quote : Option Char} {l : List Char}
    (known : ∀ c ∈ l, isOtherNumber c = false) :
    plainFrom quote l = true := by
  fun_induction plainFrom quote l with
  | case1 => rfl
  | case2 c rest isQuote ih => exact ih fun d held => known d (List.mem_cons_of_mem _ held)
  | case3 c rest other ih =>
    rw [known c List.mem_cons_self, ih fun d held => known d (List.mem_cons_of_mem _ held)]
    rfl
  | case4 quote rest ih => exact ih fun d held => known d (List.mem_cons_of_mem _ held)
  | case5 => rfl
  | case6 quote escaped rest other ih => exact ih fun d held => known d (by simp [held])
  | case7 quote c rest other plain ih =>
    exact ih fun d held => known d (List.mem_cons_of_mem _ held)

private theorem plain_of_ascii {input : List UInt8} (ascii : ∀ b ∈ input, b < 128) :
    Plain input := by
  apply plainFrom_known
  intro c held
  obtain ⟨b, member, rfl⟩ := List.mem_map.mp held
  have small : b.toNat < 128 := UInt8.lt_iff_toNat_lt.mp (ascii b member)
  have valid : b.toNat.isValidChar := .inl (by omega)
  have value : (Char.ofNat b.toNat).toNat = b.toNat := by
    rw [Char.ofNat, dif_pos valid]
    rfl
  by_contra other
  rw [Bool.not_eq_false] at other
  simp only [isOtherNumber, List.mem_cons, List.not_mem_nil, or_false, decide_eq_true_eq] at other
  rcases other with same | same | same | same | same | same <;> rw [same] at value <;> simp at value <;> omega

/-- The port reports the first error, with the message of the Go parser, exactly if the query is
faithful. -/
theorem reports_first_iff (input : List UInt8) (text : (0 : UInt8) ∉ input)
    (ascii : ∀ b ∈ input, b < 128) {err err' : SyntaxError} (refused : parse input = .error err)
    (refused' : QuerySyntax.parse input = some (.error err')) :
    (QueryParser.message err' = Parser.message err ∧ FirstError input err) ↔ Faithful input := by
  have plain := plain_of_ascii ascii
  have stops := parse_stops text plain refused refused'
  have first := stops.first
  obtain ⟨place, reads, -, ends⟩ := stops
  rw [faithful_iff text plain reads ends, ends.message_eq_iff]
  exact and_iff_left first

/-- `NOT ! status=open` -/
def bangBeforeField : List UInt8 :=
  [78, 79, 84, 32, 33, 32, 115, 116, 97, 116, 117, 115, 61, 111, 112, 101, 110]

/-- Behind the error the port finds a field, and keeps the error. -/
theorem reports_first_bang : (0 : UInt8) ∉ bangBeforeField ∧ (∀ b ∈ bangBeforeField, b < 128) ∧
    parse bangBeforeField = .error (.lexical (.loneBang 4)) ∧
    QuerySyntax.parse bangBeforeField = some (.error (.lexical (.loneBang 4))) ∧
      Faithful bangBeforeField := by
  have refused : parse bangBeforeField = .error (.lexical (.loneBang 4)) := by decide +kernel
  have refused' : QuerySyntax.parse bangBeforeField = some (.error (.lexical (.loneBang 4))) := by
    decide +kernel
  have text : (0 : UInt8) ∉ bangBeforeField := by decide
  have ascii : ∀ b ∈ bangBeforeField, b < 128 := List.all_iff_forall_prop.mp (by decide)
  have lexed : Lexer.nextToken (Cursor.ofBytes bangBeforeField) =
      .ok (⟨.not, "NOT", 0⟩, (Cursor.ofBytes bangBeforeField).skip 3) := by decide +kernel
  have step : Place.Step (Place.start bangBeforeField)
      ⟨.query, 0, ⟨⟨.not, "NOT", 0⟩, (Cursor.ofBytes bangBeforeField).skip 3⟩⟩ :=
    ⟨rfl, by simp only [Place.start, Parser.advance, lexed]⟩
  have first : FirstError bangBeforeField (.lexical (.loneBang 4)) :=
    .lexical (.single step) (by decide) (by decide +kernel)
  exact ⟨text, ascii, refused, refused',
    (reports_first_iff _ text ascii refused refused').mp ⟨rfl, first⟩⟩

/-- `NOT !` -/
def bangAtEnd : List UInt8 := [78, 79, 84, 32, 33]

/-- The port reads past the error and reports the end of the query. -/
theorem bang_overwritten : (0 : UInt8) ∉ bangAtEnd ∧ (∀ b ∈ bangAtEnd, b < 128) ∧
    ∃ err err', parse bangAtEnd = .error err ∧ QuerySyntax.parse bangAtEnd = some (.error err') ∧
      QueryParser.message err' ≠ Parser.message err := by
  have refused : parse bangAtEnd = .error (.lexical (.loneBang 4)) := by decide +kernel
  have refused' : QuerySyntax.parse bangAtEnd = some (.error (.expectedField 5 .eof)) := by
    decide +kernel
  have other (pos : Nat) (type : TokenType) (err : LexError) :
      QueryParser.message (.expectedField pos type) ≠ Parser.message (.lexical err) := field_message_ne _ _ pos type
  exact ⟨by decide, List.all_iff_forall_prop.mp (by decide), _, _, refused, refused', other _ _ _⟩

end Beads.Query
