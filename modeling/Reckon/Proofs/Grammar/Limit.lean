import Reckon.Proofs.Grammar.Outcome
import Reckon.Proofs.Parts

set_option autoImplicit false

/-!
# The limit on nesting

A parser with a limit is compared with one that has levels to spare: it reads the same, or is cut off
with as many tokens ahead as it has levels left. What it reads nests no deeper than its limit.
-/

namespace Reckon

variable {P α β : Type}

def Cause.isTooDeep : Cause → Bool
  | tooDeep _ => true
  | _ => false

namespace Node

variable {levels more : Nat} {node : Node P}

def nests : Node P → Bool
  | unary .. | assignment .. | choice .. | whileLoop .. | forLoop .. => true
  | scope _ name _ _ => name = "anonymous"
  | literal .. | binary .. | retrieval .. => false

/-- The nodes on a way from a node down to a leaf. -/
inductive Path : Node P → List (Node P) → Prop where
  | leaf {node : Node P} (childless : node.children = []) : Path node [node]
  | step {node child : Node P} {path : List (Node P)} (member : child ∈ node.children) (below : Path child path) :
    Path node (node :: path)

def Nests (levels : Nat) (node : Node P) : Prop :=
  ∀ path, node.Path path → path.countP nests ≤ levels

theorem Nests.mono (holds : Nests levels node) (le : levels ≤ more) : Nests more node :=
  fun path walk => (holds path walk).trans le

theorem nests_above (inside : ∀ child ∈ node.children, Nests levels child) :
    Nests (levels + if node.nests then 1 else 0) node := by
  intro path walk
  cases walk with
  | leaf => simp
  | step member below => simpa [List.countP_cons] using inside _ member _ below

theorem nests_plain (plain : node.nests = false) (inside : ∀ child ∈ node.children, Nests levels child) :
    Nests levels node := by
  simpa [plain] using nests_above inside

theorem nests_deeper (inside : ∀ child ∈ node.children, Nests levels child) : Nests (levels + 1) node := by
  refine (nests_above inside).mono ?_
  split <;> omega

@[simp]
theorem nests_silenced (node : Node P) : node.silenced.nests = node.nests := by
  cases node <;> rfl

theorem Nests.silenced (holds : Nests levels node) : Nests levels node.silenced := by
  intro path walk
  cases walk with
  | leaf childless =>
    rw [children_silenced] at childless
    simpa using holds _ (.leaf childless)
  | step member below =>
    rw [children_silenced] at member
    simpa [List.countP_cons] using holds _ (.step member below)

theorem nests_mkBinary {left right : Node P} (one : Nests levels left) (two : Nests levels right)
    (operator : Token P) : Nests levels (mkBinary left operator right) :=
  nests_plain rfl (by simpa [mkBinary, children] using ⟨one, two⟩)

theorem nests_mkUnary {operand : Node P} (inner : Nests levels operand) (operator : Token P) :
    Nests (levels + 1) (mkUnary operator operand) :=
  nests_deeper (by simpa [mkUnary, children] using inner)

theorem nests_mkChoice {branches : List (Node P × Node P)}
    (inner : ∀ branch ∈ branches, Nests levels branch.1 ∧ Nests levels branch.2) (start : P) :
    Nests (levels + 1) (mkChoice start branches) := by
  refine nests_deeper fun child member => ?_
  obtain ⟨branch, chosen, either⟩ := List.mem_flatMap.1 member
  simp only [List.mem_cons, List.not_mem_nil, or_false] at either
  rcases either with rfl | rfl
  · exact (inner branch chosen).1
  · exact (inner branch chosen).2

end Node

namespace Parser

variable {least more : Nat} {good : α → Prop} {better : β → Prop} {stop : Token P} {ahead rest : List (Token P)}

/-- What a parser gives, next to one that has levels to spare: both read the same, and something good, or
both refuse the same, or the first is cut off, and not with fewer tokens ahead than given. -/
inductive Limited (least : Nat) (good : α → Prop) (ahead : List (Token P)) :
    Except (Fault P) (α × List (Token P)) → Except (Fault P) (α × List (Token P)) → Prop where
  | reads {value : α} {rest : List (Token P)} (holds : good value) (kept : rest.length ≤ ahead.length) :
    Limited least good ahead (.ok (value, rest)) (.ok (value, rest))
  | refuses {fault : Fault P} (shallow : fault.cause.isTooDeep = false) :
    Limited least good ahead (.error fault) (.error fault)
  | cut {fault : Fault P} {other : Except (Fault P) (α × List (Token P))} (deep : fault.cause.isTooDeep = true)
    (long : least ≤ ahead.length) : Limited least good ahead (.error fault) other

theorem Limited.mono {one two : Except (Fault P) (α × List (Token P))} (limited : Limited more good ahead one two)
    (le : least ≤ more) : Limited least good ahead one two := by
  cases limited with
  | reads holds kept => exact .reads holds kept
  | refuses shallow => exact .refuses shallow
  | cut deep long => exact .cut deep (le.trans long)

theorem Limited.behind {one two : Except (Fault P) (α × List (Token P))} (count : Nat)
    (limited : Limited least good rest one two) (taken : rest.length + count ≤ ahead.length) :
    Limited (least + count) good ahead one two := by
  cases limited with
  | reads holds kept => exact .reads holds (by omega)
  | refuses shallow => exact .refuses shallow
  | cut deep long => exact .cut deep (by omega)

def LimitedAt (least : Nat) (good : α → Prop) (stop : Token P) (ahead : List (Token P))
    (parser other : Parser P α) : Prop :=
  Limited least good ahead (outcome parser stop ahead) (outcome other stop ahead)

def Limits (least : Nat) (good : α → Prop) (stop : Token P) (parser other : Parser P α) : Prop :=
  ∀ ahead, LimitedAt least good stop ahead parser other

variable {parser other : Parser P α} {next later : α → Parser P β}

theorem LimitedAt.bind (first : LimitedAt least good stop ahead parser other)
    (second : ∀ value, good value → Limits least better stop (next value) (later value)) :
    LimitedAt least better stop ahead (parser >>= next) (other >>= later) := by
  change Limited least better ahead (outcome parser stop ahead >>= fun read => outcome (next read.1) stop read.2)
    (outcome other stop ahead >>= fun read => outcome (later read.1) stop read.2)
  unfold LimitedAt at first
  generalize outcome parser stop ahead = one at first ⊢
  generalize outcome other stop ahead = two at first ⊢
  cases first with
  | @reads value rest holds kept =>
    exact Limited.behind 0 (second value holds rest) kept
  | refuses shallow => exact .refuses shallow
  | cut deep long => exact .cut deep long

theorem Limits.bind (first : Limits least good stop parser other)
    (second : ∀ value, good value → Limits least better stop (next value) (later value)) :
    Limits least better stop (parser >>= next) (other >>= later) :=
  fun ahead => (first ahead).bind second

theorem Limits.mono (limits : Limits more good stop parser other) (le : least ≤ more) :
    Limits least good stop parser other :=
  fun ahead => Limited.mono (limits ahead) le

theorem Limits.weaken {fine : α → Prop} (limits : Limits least good stop parser other)
    (enough : ∀ value, good value → fine value) : Limits least fine stop parser other := by
  intro ahead
  have limited := limits ahead
  unfold LimitedAt at limited ⊢
  generalize outcome parser stop ahead = one at limited ⊢
  generalize outcome other stop ahead = two at limited ⊢
  cases limited with
  | reads holds kept => exact .reads (enough _ holds) kept
  | refuses shallow => exact .refuses shallow
  | cut deep long => exact .cut deep long

theorem limits_pure {value : α} (holds : good value) : Limits least good stop (pure value) (pure value) :=
  fun _ => .reads holds (Nat.le_refl _)

theorem limits_get : Limits least (fun _ => True) stop (get : Parser P (List (Token P))) get :=
  fun _ => .reads trivial (Nat.le_refl _)

theorem limits_peek : Limits least (fun _ => True) stop (peek : Parser P (Token P)) peek :=
  fun _ => .reads trivial (Nat.le_refl _)

theorem limits_take : Limits least (fun _ => True) stop (take : Parser P (Token P)) take :=
  fun ahead => .reads trivial (by simp)

theorem limits_skip (kinds : List Kind) : Limits least (fun _ => True) stop (skip kinds : Parser P Unit) (skip kinds) :=
  fun _ => .reads trivial (List.dropWhile_suffix _).length_le

theorem limits_unexpected (expected : List Kind) (help : Option String) :
    Limits least good stop (unexpected expected help) (unexpected expected help) := by
  refine limits_peek.bind fun token _ => ?_
  split
  · exact fun _ => .refuses rfl
  · exact fun _ => .refuses rfl

theorem limits_expect (kind : Kind) (help : Option String) :
    Limits least (fun _ => True) stop (expect kind help : Parser P (Token P)) (expect kind help) := by
  refine limits_peek.bind fun token _ => ?_
  split
  · exact limits_take
  · exact limits_unexpected _ _

theorem limits_accept? (kinds : List Kind) :
    Limits least (fun _ => True) stop (accept? kinds : Parser P (Option (Token P))) (accept? kinds) := by
  refine limits_peek.bind fun token _ => ?_
  split
  · exact limits_take.bind fun taken _ => limits_pure trivial
  · exact limits_pure trivial

theorem limits_acceptPastNewlines? (kinds : List Kind) :
    Limits least (fun _ => True) stop (acceptPastNewlines? kinds : Parser P (Option (Token P)))
      (acceptPastNewlines? kinds) := by
  intro ahead
  unfold LimitedAt
  rw [outcome_acceptPastNewlines?]
  split
  · exact .reads trivial (Nat.le_refl _)
  · rename_i token rest behind
    split
    · exact .reads trivial (Nat.le_of_lt (length_lt_of_pastNewlines behind))
    · exact .reads trivial (Nat.le_refl _)

theorem LimitedAt.take {token : Token P} {next later : Token P → Parser P β}
    (second : ∀ token, Limits least better stop (next token) (later token)) :
    LimitedAt (least + 1) better stop (token :: rest) (take >>= next) (take >>= later) :=
  Limited.behind 1 (second token rest) (Nat.le_refl _)

theorem LimitedAt.of_next {kind : Kind} (next : nextKind ahead = kind) (text : kind ≠ .endOfText)
    (limited : ∀ token rest, LimitedAt least good stop (token :: rest) parser other) :
    LimitedAt least good stop ahead parser other := by
  obtain ⟨token, rest, rfl, _⟩ := exists_cons_of_nextKind next text
  exact limited token rest

theorem limits_expect_bind (ended : stop.kind = .endOfText) {kind : Kind} (text : kind ≠ .endOfText)
    (help : Option String) {next later : Token P → Parser P β}
    (second : ∀ token, Limits least better stop (next token) (later token)) :
    Limits (least + 1) better stop (expect kind help >>= next) (expect kind help >>= later) := by
  intro ahead
  by_cases found : nextKind ahead = kind
  · obtain ⟨token, rest, rfl, same⟩ := exists_cons_of_nextKind found text
    have read : outcome (expect kind help) stop (token :: rest) = _ := outcome_expect_cons ended same help
    unfold LimitedAt
    rw [outcome_bind_of_ok next read, outcome_bind_of_ok later read]
    exact Limited.behind 1 (second token rest) (Nat.le_refl _)
  · have failed : outcome (expect kind help) stop ahead = outcome (unexpected [kind] help) stop ahead := by
      rw [outcome_expect ended, if_neg found, outcome_unexpected ended]
    unfold LimitedAt
    rw [outcome_bind_of_eq next failed, outcome_bind_of_eq later failed]
    have refused : Limits (least + 1) (fun _ => False) stop (unexpected [kind] help : Parser P (Token P)) _ :=
      limits_unexpected [kind] help
    exact refused.bind (fun _ => False.elim) ahead

end Parser

namespace Grammar

open Reckon.Parser Reckon.Node

variable {stop : Token P} {levels : Nat} {deeper further : Nested → Parser P (Node P)}

/-- The rules with so many levels left, next to rules with levels to spare. Signs are still ahead. -/
structure Spare (stop : Token P) (levels : Nat) (deeper further : Nested → Parser P (Node P)) : Prop where
  statement : Limits levels (Nests levels) stop (deeper .statement) (further .statement)
  complement : ∀ ahead, nextKind ahead = .not →
    LimitedAt (levels + 1) (Nests levels) stop ahead (deeper .complement) (further .complement)
  negation : ∀ ahead, nextKind ahead = .minus →
    LimitedAt (levels + 1) (Nests levels) stop ahead (deeper .negation) (further .negation)

theorem limits_moreOperands {least : Nat} {operators : List Kind} {operand other : Parser P (Node P)}
    (limits : Limits least (Nests levels) stop operand other) (steps : List (Token P)) {left : Node P}
    (holds : Nests levels left) : Limits least (Nests levels) stop (moreOperands operators operand steps left)
      (moreOperands operators other steps left) := by
  induction steps generalizing left with
  | nil => exact limits_pure holds
  | cons step steps ih =>
    refine (limits_accept? operators).bind fun accepted _ => ?_
    cases accepted with
    | none => exact limits_pure holds
    | some operator => exact limits.bind fun right holds' => ih (nests_mkBinary holds holds' operator)

theorem limits_operands {least : Nat} {operators : List Kind} {operand other : Parser P (Node P)}
    (limits : Limits least (Nests levels) stop operand other) :
    Limits least (Nests levels) stop (operands operators operand) (operands operators other) :=
  limits.bind fun _ holds => limits_get.bind fun steps _ => limits_moreOperands limits steps holds

theorem limits_factor (ended : stop.kind = .endOfText) (spare : Spare stop levels deeper further) :
    Limits (levels + 1) (Nests levels) stop (factor deeper) (factor further) := by
  intro ahead
  unfold LimitedAt factor
  rw [outcome_peek_bind, outcome_peek_bind, kind_headD ended]
  split
  next => exact (limits_take.bind fun token _ => limits_pure (nests_plain rfl (by simp [mkLiteral, children]))) ahead
  next => exact (limits_take.bind fun token _ => limits_pure (nests_plain rfl (by simp [mkRetrieval, children]))) ahead
  next => exact (limits_take.bind fun token _ => limits_pure (nests_plain rfl (by simp [mkRetrieval, children]))) ahead
  next next =>
    exact LimitedAt.of_next next (by decide) fun opening rest => LimitedAt.take fun _ =>
      spare.statement.bind fun tree holds => (limits_expect _ _).bind fun closing _ => limits_pure holds
  next next => exact spare.negation ahead next
  next => exact limits_unexpected _ _ ahead

theorem limits_comparison (ended : stop.kind = .endOfText) (spare : Spare stop levels deeper further) :
    Limits (levels + 1) (Nests levels) stop (comparison deeper) (comparison further) := by
  intro ahead
  unfold LimitedAt comparison
  rw [outcome_peek_bind, outcome_peek_bind, kind_headD ended]
  split
  next next => exact spare.complement ahead next
  next =>
    exact limits_operands (limits_operands (limits_operands (limits_operands (limits_factor ended spare)))) ahead

theorem limits_logical (ended : stop.kind = .endOfText) (spare : Spare stop levels deeper further) :
    Limits (levels + 1) (Nests levels) stop (logical deeper) (logical further) :=
  limits_operands (limits_comparison ended spare)

theorem limits_anotherStatement {least : Nat} (closing : Kind) :
    Limits least (fun _ => True) stop (anotherStatement closing : Parser P Bool) (anotherStatement closing) := by
  refine (limits_skip _).bind fun _ _ => limits_peek.bind fun next _ => ?_
  split
  · exact limits_pure trivial
  · split
    · exact limits_unexpected _ _
    · exact limits_pure trivial

theorem limits_statementEnd {least : Nat} (closing : Kind) :
    Limits least (fun _ => True) stop (statementEnd closing : Parser P Bool) (statementEnd closing) := by
  refine (limits_accept? _).bind fun terminator _ => ?_
  split
  · exact limits_pure trivial
  · refine (limits_accept? _).bind fun line _ => ?_
    split
    · exact limits_pure trivial
    · refine limits_peek.bind fun next _ => ?_
      split
      · exact limits_pure trivial
      · exact limits_unexpected _ _

theorem limits_statementList (spare : Spare stop levels deeper further) (closing : Kind) (steps : List (Token P)) :
    Limits levels (fun list => ∀ statement ∈ list, Nests levels statement) stop
      (statementList deeper closing steps) (statementList further closing steps) := by
  induction steps with
  | nil => exact (limits_anotherStatement closing).bind fun _ _ => limits_pure (by simp)
  | cons step steps ih =>
    refine (limits_anotherStatement closing).bind fun more _ => ?_
    split
    · refine spare.statement.bind fun statement holds => (limits_statementEnd closing).bind fun hidden _ =>
        ih.bind fun others inner => limits_pure (List.forall_mem_cons.2 ⟨?_, inner⟩)
      split
      · exact holds.silenced
      · exact holds
    · exact limits_pure (by simp)

theorem limits_statements (spare : Spare stop levels deeper further) (closing : Kind) :
    Limits levels (fun list => ∀ statement ∈ list.1 :: list.2, Nests levels statement) stop
      (statements deeper closing) (statements further closing) := by
  refine limits_get.bind fun steps _ => (limits_statementList spare closing steps).bind fun list inner => ?_
  split
  · exact limits_pure inner
  · exact limits_peek.bind fun next _ => limits_pure (by simpa using nests_plain rfl (by simp [mkLiteral, children]))

def InBlock (name : String) (levels : Nat) (tree : Node P) : Prop :=
  Nests (levels + 1) tree ∧ (name ≠ "anonymous" → Nests levels tree)

theorem inBlock_mkScope {first : Node P} {rest : List (Node P)}
    (inner : ∀ statement ∈ first :: rest, Nests levels statement) (name : String) (boundary : Bool) :
    InBlock name levels (mkScope name boundary first rest) :=
  ⟨nests_deeper inner, fun other => nests_plain (by simpa [mkScope, nests] using other) inner⟩

theorem limits_block (ended : stop.kind = .endOfText) (spare : Spare stop levels deeper further) (name : String)
    (boundary : Bool) :
    Limits (levels + 1) (InBlock name levels) stop (block deeper name boundary) (block further name boundary) :=
  limits_expect_bind ended (by decide) _ fun _ => (limits_statements spare .closeBrace).bind fun _ inner =>
    (limits_expect _ _).bind fun _ _ => limits_pure (inBlock_mkScope inner name boundary)

theorem limits_letStatement (ended : stop.kind = .endOfText) (spare : Spare stop levels deeper further) :
    Limits (levels + 1) (Nests (levels + 1)) stop (letStatement deeper) (letStatement further) :=
  limits_take.bind fun _ _ => limits_expect_bind ended (by decide) _ fun name => (limits_expect _ _).bind fun _ _ =>
    spare.statement.bind fun value holds => limits_pure (nests_deeper (by simpa [mkAssignment, children] using holds))

def InBranches (levels : Nat) (branches : List (Node P × Node P)) : Prop :=
  ∀ branch ∈ branches, Nests levels branch.1 ∧ Nests levels branch.2

theorem nests_always (word : Token P) : Nests levels (always word) :=
  nests_plain rfl (by simp [always, mkLiteral, children])

theorem limits_moreThenBranches (ended : stop.kind = .endOfText) (spare : Spare stop levels deeper further)
    (steps : List (Token P)) :
    Limits levels (InBranches levels) stop (moreThenBranches deeper steps) (moreThenBranches further steps) := by
  have logical := (limits_logical ended spare).mono (Nat.le_succ levels)
  induction steps with
  | nil => exact limits_pure (List.forall_mem_nil _)
  | cons step steps ih =>
    refine (limits_accept? _).bind fun accepted _ => ?_
    split
    · exact limits_pure (List.forall_mem_nil _)
    · split
      · exact logical.bind fun condition test => (limits_expect _ _).bind fun _ _ =>
          spare.statement.bind fun body holds => ih.bind fun others inner =>
            limits_pure (List.forall_mem_cons.2 ⟨⟨test, holds⟩, inner⟩)
      · exact spare.statement.bind fun body holds =>
          limits_pure (List.forall_mem_singleton.2 ⟨nests_always _, holds⟩)

theorem limits_thenBranches (ended : stop.kind = .endOfText) (spare : Spare stop levels deeper further)
    {condition : Node P} (test : Nests levels condition) :
    Limits levels (InBranches levels) stop (thenBranches deeper condition) (thenBranches further condition) :=
  limits_take.bind fun _ _ => spare.statement.bind fun _ holds => limits_get.bind fun steps _ =>
    (limits_moreThenBranches ended spare steps).bind fun _ inner =>
      limits_pure (List.forall_mem_cons.2 ⟨⟨test, holds⟩, inner⟩)

theorem limits_moreBlockBranches (ended : stop.kind = .endOfText) (spare : Spare stop levels deeper further)
    (steps : List (Token P)) :
    Limits levels (InBranches levels) stop (moreBlockBranches deeper steps) (moreBlockBranches further steps) := by
  have logical := (limits_logical ended spare).mono (Nat.le_succ levels)
  have block := fun name => (limits_block ended spare name true).mono (Nat.le_succ levels)
  induction steps with
  | nil => exact limits_pure (List.forall_mem_nil _)
  | cons step steps ih =>
    refine (limits_acceptPastNewlines? _).bind fun accepted _ => ?_
    split
    · exact limits_pure (List.forall_mem_nil _)
    · split
      · exact logical.bind fun condition test => (block "elif").bind fun body holds => ih.bind fun others inner =>
          limits_pure (List.forall_mem_cons.2 ⟨⟨test, holds.2 (by decide)⟩, inner⟩)
      · exact (block "else").bind fun body holds =>
          limits_pure (List.forall_mem_singleton.2 ⟨nests_always _, holds.2 (by decide)⟩)

theorem limits_blockBranches (ended : stop.kind = .endOfText) (spare : Spare stop levels deeper further)
    {condition : Node P} (test : Nests levels condition) :
    Limits levels (InBranches levels) stop (blockBranches deeper condition) (blockBranches further condition) :=
  ((limits_block ended spare "if" true).mono (Nat.le_succ levels)).bind fun _ holds => limits_get.bind fun steps _ =>
    (limits_moreBlockBranches ended spare steps).bind fun _ inner =>
      limits_pure (List.forall_mem_cons.2 ⟨⟨test, holds.2 (by decide)⟩, inner⟩)

theorem limits_ifStatement (ended : stop.kind = .endOfText) (spare : Spare stop levels deeper further)
    (word : Token P) (rest : List (Token P)) :
    LimitedAt (levels + 1) (Nests (levels + 1)) stop (word :: rest) (ifStatement deeper) (ifStatement further) := by
  refine LimitedAt.take fun word => ((limits_logical ended spare).mono (Nat.le_succ levels)).bind fun condition test =>
    limits_peek.bind fun next _ => ?_
  split
  · exact (limits_thenBranches ended spare test).bind fun branches inner => limits_pure (nests_mkChoice inner _)
  · exact (limits_blockBranches ended spare test).bind fun branches inner => limits_pure (nests_mkChoice inner _)
  · exact limits_unexpected _ _

theorem limits_forStatement (ended : stop.kind = .endOfText) (spare : Spare stop levels deeper further) :
    Limits (levels + 1) (Nests (levels + 1)) stop (forStatement deeper) (forStatement further) := by
  have logical := (limits_logical ended spare).mono (Nat.le_succ levels)
  have block := (limits_block ended spare "for" false).mono (Nat.le_succ levels)
  refine limits_take.bind fun word _ => limits_expect_bind ended (by decide) _ fun _ =>
    spare.statement.bind fun start first => (limits_expect _ _).bind fun _ _ => logical.bind fun condition test =>
      (limits_expect _ _).bind fun _ _ => spare.statement.bind fun step next => (limits_expect _ _).bind fun _ _ =>
        block.bind fun body round => limits_pure (nests_deeper ?_)
  simpa [mkFor, children] using ⟨first, test, next, round.2 (by decide)⟩

theorem limits_whileStatement (ended : stop.kind = .endOfText) (spare : Spare stop levels deeper further) :
    Limits (levels + 1) (Nests (levels + 1)) stop (whileStatement deeper) (whileStatement further) := by
  refine limits_take.bind fun word _ => (limits_logical ended spare).bind fun condition test =>
    (limits_block ended spare "while" false).bind fun body round => limits_pure (nests_deeper ?_)
  simpa [mkWhile, children] using ⟨test, round.2 (by decide)⟩

theorem limits_doStatement (ended : stop.kind = .endOfText) (spare : Spare stop levels deeper further) :
    Limits (levels + 1) (Nests (levels + 1)) stop (doStatement deeper) (doStatement further) := by
  refine limits_take.bind fun word _ => (limits_block ended spare "do-while" false).bind fun body round =>
    (limits_skip _).bind fun _ _ => limits_peek.bind fun next _ => ?_
  split
  · refine limits_take.bind fun again _ => (limits_logical ended spare).bind fun condition test =>
      limits_pure (nests_deeper ?_)
    simpa [mkWhile, children] using ⟨test, round.2 (by decide)⟩
  · exact limits_unexpected _ _

theorem limits_statement (ended : stop.kind = .endOfText) (spare : Spare stop levels deeper further) :
    Limits (levels + 1) (Nests (levels + 1)) stop (statement deeper) (statement further) := by
  intro ahead
  unfold LimitedAt statement
  rw [outcome_peek_bind, outcome_peek_bind, kind_headD ended]
  split
  next => exact limits_letStatement ended spare ahead
  next next => exact LimitedAt.of_next next (by decide) (limits_ifStatement ended spare)
  next => exact limits_forStatement ended spare ahead
  next => exact limits_whileStatement ended spare ahead
  next => exact limits_doStatement ended spare ahead
  next => exact ((limits_block ended spare "anonymous" true).weaken fun tree holds => holds.1) ahead
  next => exact ((limits_logical ended spare).weaken fun tree holds => holds.mono (Nat.le_succ levels)) ahead

theorem limitedAt_nested_zero (limit : Nat) (rule : Nested) {least : Nat} {good : Node P → Prop}
    {ahead : List (Token P)} (long : least ≤ ahead.length) (other : Parser P (Node P)) :
    LimitedAt least good stop ahead (nested limit 0 rule) other :=
  .cut rfl long

theorem limitedAt_mkUnary {operand other : Parser P (Node P)} {rest : List (Token P)} {sign : Token P}
    (limits : Limits (levels + 1) (Nests levels) stop operand other) :
    LimitedAt (levels + 2) (Nests (levels + 1)) stop (sign :: rest)
      (take >>= fun operator => operand >>= fun tree => pure (.mkUnary operator tree))
      (take >>= fun operator => other >>= fun tree => pure (.mkUnary operator tree)) :=
  LimitedAt.take fun operator => limits.bind fun _ holds => limits_pure (nests_mkUnary holds operator)

theorem spare_nested (ended : stop.kind = .endOfText) (limit limit' levels more : Nat) :
    Spare stop levels (nested limit levels) (nested limit' (levels + more)) := by
  induction levels with
  | zero =>
    constructor
    case statement => exact fun ahead => limitedAt_nested_zero limit _ (Nat.zero_le _) _
    all_goals
      intro ahead next
      exact LimitedAt.of_next next (by decide) fun sign rest => limitedAt_nested_zero limit _ (by simp) _
  | succ levels ih =>
    rw [Nat.add_right_comm]
    constructor
    case statement => exact limits_statement ended ih
    case complement =>
      exact fun ahead next => LimitedAt.of_next next (by decide) fun sign rest =>
        limitedAt_mkUnary (limits_comparison ended ih)
    case negation =>
      exact fun ahead next => LimitedAt.of_next next (by decide) fun sign rest =>
        limitedAt_mkUnary (limits_factor ended ih)

theorem limits_program (ended : stop.kind = .endOfText) (limit more : Nat) :
    Limits limit (Nests limit) stop (program limit) (program (limit + more)) :=
  (limits_statements (spare_nested ended limit (limit + more) limit more) .endOfText).bind fun _ inner =>
    limits_pure ((inBlock_mkScope inner "global" false).2 (by decide))

/-- The limit only cuts off. Without being cut off, a greater limit changes nothing; nothing is cut off by a
limit of as many levels as tokens, the end of the text among them; and no way down a tree that is read at a
limit passes more nodes that nest. -/
theorem ofTokens_limit [Inhabited P] {limit limit' : Nat} (le : limit ≤ limit') (tokens : List (Token P)) :
    ((∀ fault, Node.ofTokens limit tokens = .error fault → fault.cause.isTooDeep = false) →
      Node.ofTokens limit' tokens = Node.ofTokens limit tokens) ∧
    ((tokens.takeWhile fun token => token.kind ≠ .endOfText).length + 1 ≤ limit →
      ∀ fault, Node.ofTokens limit tokens = .error fault → fault.cause.isTooDeep = false) ∧
    ∀ tree, Node.ofTokens limit tokens = .ok tree → ∀ path, tree.Path path → path.countP Node.nests ≤ limit := by
  obtain ⟨more, rfl⟩ := Nat.exists_eq_add_of_le le
  have limited := limits_program (kind_endToken tokens) limit more (beforeEnd tokens)
  unfold LimitedAt at limited
  unfold Node.ofTokens
  rw [parse_eq, parse_eq]
  generalize outcome (program limit) (endToken tokens) (beforeEnd tokens) = one at limited ⊢
  generalize outcome (program (limit + more)) (endToken tokens) (beforeEnd tokens) = two at limited ⊢
  cases limited with
  | reads holds kept =>
    refine ⟨fun _ => rfl, fun _ fault failed => ?_, fun tree accepted => ?_⟩
    · cases failed
    · cases accepted
      exact holds
  | refuses shallow =>
    refine ⟨fun _ => rfl, fun _ fault failed => ?_, fun tree accepted => ?_⟩
    · cases failed
      exact shallow
    · cases accepted
  | cut deep long =>
    refine ⟨fun shallow => ?_, fun few => ?_, fun tree accepted => ?_⟩
    · have shallow := shallow _ rfl
      rw [deep] at shallow
      cases shallow
    · unfold beforeEnd at long
      omega
    · cases accepted

theorem ofTokens_limit_signs :
    let tokens : List (Token Unit) :=
      [.minus, .minus, .identifier, .endOfText].map fun kind => ⟨kind, none, .point ()⟩
    3 ≤ 32 ∧ Node.ofTokens 32 tokens = Node.ofTokens 3 tokens ∧
      (∀ fault, Node.ofTokens 4 tokens = .error fault → fault.cause.isTooDeep = false) ∧
      (∃ tree, Node.ofTokens 3 tokens = .ok tree ∧ ∀ path, tree.Path path → path.countP Node.nests ≤ 3) ∧
      ∃ fault, Node.ofTokens 2 tokens = .error fault ∧ fault.cause = .tooDeep 2 := by
  intro tokens
  obtain ⟨tree, accepted⟩ : ∃ tree, Node.ofTokens 3 tokens = .ok tree := ⟨_, rfl⟩
  obtain ⟨same, _, paths⟩ := ofTokens_limit (by decide : 3 ≤ 32) tokens
  have never := (ofTokens_limit (Nat.le_refl 4) tokens).2.1 (by decide)
  refine ⟨by decide, same ?_, never, ⟨tree, accepted, paths tree accepted⟩, _, rfl, rfl⟩
  intro fault failed
  rw [accepted] at failed
  cases failed

end Grammar

end Reckon
