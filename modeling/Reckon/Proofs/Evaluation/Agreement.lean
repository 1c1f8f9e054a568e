import Reckon.Proofs.Evaluation.Outcome
import Reckon.Proofs.Parts

set_option autoImplicit false

/-!
# Evaluation in contexts that agree

Evaluation sees no more of a context than what the names that it looks up are bound to. A scope of its own
begins with a last result of its own, so that the one outside is not looked up from within.
-/

namespace Reckon

variable {P α β : Type}

namespace Node

variable {node child : Node P} {name : String}

def retrievedName? : Node P → Option String
  | retrieval _ name => some name
  | _ => none

/-- The names that are looked up at any depth; the last result only where the scope is shared. -/
def Retrieves (node : Node P) (name : String) : Prop :=
  ∃ part, Part (fun node => name ≠ lastResult || node.sharesScope) part node ∧ part.retrievedName? = some name

theorem Retrieves.inside (retrieves : child.Retrieves name) (member : child ∈ node.children)
    (enters : name ≠ lastResult ∨ node.sharesScope = true) : node.Retrieves name := by
  obtain ⟨part, inner, named⟩ := retrieves
  exact ⟨part, .inside (by simpa using enters) member inner, named⟩

theorem retrieves_iff : node.Retrieves name ↔ node.retrievedName? = some name ∨
    (name ≠ lastResult ∨ node.sharesScope = true) ∧ ∃ child ∈ node.children, child.Retrieves name := by
  constructor
  · rintro ⟨part, inner, named⟩
    cases inner with
    | self => exact .inl named
    | inside entered member inner => exact .inr ⟨by simpa using entered, _, member, part, inner, named⟩
  · rintro (named | ⟨enters, child, member, retrieves⟩)
    · exact ⟨node, .self, named⟩
    · exact retrieves.inside member enters

end Node

/-- The contexts are in scopes of one name and bind these names alike. -/
structure Context.Agree (names : String → Prop) (first second : Context) : Prop where
  name : first.name = second.name
  alike : ∀ name, names name → first.get? name = second.get? name

structure Context.Kept (first second first' second' : Context) : Prop where
  names : first'.name = first.name ∧ second'.name = second.name
  outer : first'.outer = first.outer ∧ second'.outer = second.outer
  alike : ∀ name, first.get? name = second.get? name → first'.get? name = second'.get? name

inductive Alongside (first second : Context) :
    Option (Except (Fault P) α × Context) → Option (Except (Fault P) α × Context) → Prop where
  | endless : Alongside first second none none
  | ends {result : Except (Fault P) α} {first' second' : Context} (kept : Context.Kept first second first' second') :
    Alongside first second (some (result, first')) (some (result, second'))

namespace Context

variable {names : String → Prop} {first second first' second' first'' second'' : Context}

theorem Agree.mono {fewer : String → Prop} (agree : Agree names first second)
    (among : ∀ name, fewer name → names name) : Agree fewer first second :=
  ⟨agree.name, fun name member => agree.alike name (among name member)⟩

theorem Kept.refl (first second : Context) : Kept first second first second :=
  ⟨⟨rfl, rfl⟩, ⟨rfl, rfl⟩, fun _ same => same⟩

theorem Kept.trans (one : Kept first second first' second') (two : Kept first' second' first'' second'') :
    Kept first second first'' second'' where
  names := ⟨two.names.1.trans one.names.1, two.names.2.trans one.names.2⟩
  outer := ⟨two.outer.1.trans one.outer.1, two.outer.2.trans one.outer.2⟩
  alike := fun name same => two.alike name (one.alike name same)

theorem kept_set (first second : Context) (name : String) (value : Value) :
    Kept first second (first.set name value) (second.set name value) where
  names := ⟨rfl, rfl⟩
  outer := ⟨rfl, rfl⟩
  alike := fun key same => by rw [get?_set, get?_set, same]

theorem Agree.kept (agree : Agree names first second) (kept : Kept first second first' second') :
    Agree names first' second' where
  name := kept.names.1.trans (agree.name.trans kept.names.2.symm)
  alike := fun name member => kept.alike name (agree.alike name member)

theorem get?_child (context : Context) (name key : String) :
    (context.child name).get? key = if key = lastResult then some .null else context.get? key := by
  split
  next last =>
    subst last
    rfl
  next other =>
    have free : (Scope.new name).get? key = none := by
      simp [Scope.get?, Scope.new, List.lookup_cons, beq_false_of_ne other]
    simp only [child, get?, List.findSome?_cons, free]

theorem agree_child {inner : String → Prop}
    (alike : ∀ key, key ≠ lastResult → inner key → first.get? key = second.get? key) (name : String) :
    Agree inner (first.child name) (second.child name) where
  name := rfl
  alike := by
    intro key member
    rw [get?_child, get?_child]
    split
    · rfl
    · rename_i other
      exact alike key other member

theorem leave_of_outer {context inside : Context} {name : String} (outer : inside.outer = (context.child name).outer) :
    inside.leave = context := by
  simp only [leave, outer, child]

end Context

namespace Evaluation

open Context

def Sees (names : String → Prop) (evaluation : Evaluation P α) : Prop :=
  ∀ first second, Agree names first second →
    Alongside first second (outcome evaluation first) (outcome evaluation second)

variable {names : String → Prop}

theorem Sees.mono {fewer : String → Prop} {evaluation : Evaluation P α} (sees : Sees fewer evaluation)
    (among : ∀ name, fewer name → names name) : Sees names evaluation :=
  fun first second agree => sees first second (agree.mono among)

theorem Sees.bind {evaluation : Evaluation P α} {next : α → Evaluation P β} (one : Sees names evaluation)
    (two : ∀ value, Sees names (next value)) : Sees names (evaluation >>= next) := by
  intro first second agree
  have before := one first second agree
  generalize left : outcome evaluation first = ended at before
  generalize right : outcome evaluation second = ended' at before
  cases before with
  | endless =>
    rw [outcome_bind_of_none next left, outcome_bind_of_none next right]
    exact .endless
  | @ends result first' second' kept =>
    cases result with
    | error fault =>
      rw [outcome_bind_of_error next left, outcome_bind_of_error next right]
      exact .ends kept
    | ok value =>
      rw [outcome_bind_of_ok next left, outcome_bind_of_ok next right]
      have after := two value first' second' (agree.kept kept)
      generalize outcome (next value) first' = ended at after
      generalize outcome (next value) second' = ended' at after
      cases after with
      | endless => exact .endless
      | ends kept' => exact .ends (kept.trans kept')

theorem sees_lift (result : Except (Fault P) α) : Sees names (liftM result : Evaluation P α) := by
  intro first second _
  rw [outcome_lift, outcome_lift]
  exact .ends (.refl first second)

theorem sees_pure (value : α) : Sees names (pure value : Evaluation P α) := sees_lift (.ok value)

theorem sees_assign (name : String) (value : Value) : Sees names (assign name value : Evaluation P Unit) :=
  fun first second _ => .ends (kept_set first second name value)

theorem sees_retrieve {name : String} (seen : names name) (span : Span P) : Sees names (retrieve name span) := by
  intro first second agree
  rw [outcome_retrieve, outcome_retrieve, agree.alike name seen, agree.name]
  cases second.get? name with
  | none => exact .ends (.refl first second)
  | some value => exact .ends (.refl first second)

theorem Sees.inScope {inside : Evaluation P α} (sees : Sees names inside) {first second : Context}
    (alike : ∀ key, key ≠ lastResult → names key → first.get? key = second.get? key) (name : String) :
    ∃ ended : Option (Except (Fault P) α), outcome (inScope name inside) first = ended.map (·, first) ∧
      outcome (inScope name inside) second = ended.map (·, second) := by
  have inner := sees _ _ (agree_child alike name)
  rw [outcome_inScope, outcome_inScope]
  generalize outcome inside (first.child name) = ended at inner
  generalize outcome inside (second.child name) = ended' at inner
  cases inner with
  | endless => exact ⟨none, rfl, rfl⟩
  | @ends result first' second' kept =>
    refine ⟨some result, ?_, ?_⟩
    · rw [Option.map_some, leave_of_outer kept.outer.1]
      rfl
    · rw [Option.map_some, leave_of_outer kept.outer.2]
      rfl

theorem sees_inScope {inner : String → Prop} {inside : Evaluation P α} (sees : Sees inner inside)
    (among : ∀ key, key ≠ lastResult → inner key → names key) (name : String) : Sees names (inScope name inside) := by
  intro first second agree
  obtain ⟨ended, one, two⟩ :=
    sees.inScope (fun key other member => agree.alike key (among key other member)) name
  rw [one, two]
  cases ended with
  | none => exact .endless
  | some result => exact .ends (.refl first second)

theorem sees_repeatWhile {condition : Evaluation P Bool} {body : Evaluation P Unit} (test : Sees names condition)
    (round : Sees names body) (bound : Nat) : Sees names (repeatWhile condition body bound) := by
  induction bound with
  | zero => exact fun _ _ _ => .endless
  | succ bound ih =>
    refine test.bind fun holds => ?_
    cases holds with
    | false => exact sees_pure ()
    | true => exact round.bind fun _ => ih

end Evaluation

namespace Node

open Evaluation

variable {names : String → Prop} {bound : Nat}

abbrev SeesOnly (names : String → Prop) (bound : Nat) (node : Node P) : Prop := Sees names (evaluate bound node)

theorem sees_test {condition : Node P} (sees : SeesOnly names bound condition) : Sees names (test bound condition) :=
  sees.bind fun _ => sees_lift _

theorem sees_inTurn {list : List (Node P)} (sees : ∀ node ∈ list, SeesOnly names bound node) :
    Sees names (inTurn bound list) := by
  induction list with
  | nil => exact sees_pure ()
  | cons first rest ih =>
    obtain ⟨one, others⟩ := List.forall_mem_cons.1 sees
    exact one.bind fun _ => ih others

theorem sees_loop {condition : Node P} {pending round : List (Node P)} (test : SeesOnly names bound condition)
    (first : ∀ node ∈ pending, SeesOnly names bound node) (again : ∀ node ∈ round, SeesOnly names bound node)
    (rounds : Nat) : Sees names (loop bound pending condition round rounds) :=
  (sees_inTurn first).bind fun _ =>
    (sees_repeatWhile (sees_test test) (sees_inTurn again) rounds).bind fun _ => sees_pure Value.null

theorem sees_evaluateAll {list : List (Node P)} (sees : ∀ node ∈ list, SeesOnly names bound node) (value : Value) :
    Sees names (evaluateAll bound value list) := by
  induction list generalizing value with
  | nil => exact sees_pure value
  | cons first rest ih =>
    obtain ⟨one, others⟩ := List.forall_mem_cons.1 sees
    exact one.bind fun _ => (sees_assign _ _).bind fun _ => ih others _

theorem sees_evaluateBranches {list : List (Node P × Node P)}
    (sees : ∀ branch ∈ list, SeesOnly names bound branch.1 ∧ SeesOnly names bound branch.2) :
    Sees names (evaluateBranches bound list) := by
  induction list with
  | nil => exact sees_pure Value.null
  | cons branch rest ih =>
    obtain ⟨condition, body⟩ := branch
    obtain ⟨⟨test, chosen⟩, others⟩ := List.forall_mem_cons.1 sees
    rw [evaluateBranches_cons]
    refine (sees_test test).bind fun holds => ?_
    cases holds with
    | false => exact ih others
    | true => exact chosen

section Children

variable {node : Node P}

theorem sees_shared (shares : node.sharesScope = true)
    (sees : ∀ child ∈ node.children, SeesOnly child.Retrieves bound child) : SeesOnly node.Retrieves bound node := by
  -- In a shared scope the node looks up what its children do, the last result included.
  have inner : ∀ child ∈ node.children, SeesOnly node.Retrieves bound child :=
    fun child member => (sees child member).mono fun _ retrieves => retrieves.inside member (.inr shares)
  cases node with
  | literal mark value => exact sees_pure value
  | binary mark left operator right =>
    exact (inner left (by simp [children])).bind fun a =>
      (inner right (by simp [children])).bind fun b => sees_lift (a.binary operator b)
  | unary mark operator operand =>
    exact (inner operand (by simp [children])).bind fun a => sees_lift (a.unary operator)
  | assignment mark name value =>
    exact (inner value (by simp [children])).bind fun a => (sees_assign name a).bind fun _ => sees_pure a
  | retrieval mark name => exact sees_retrieve (retrieves_iff.2 (.inl rfl)) mark.span
  | scope mark name boundary statements =>
    cases boundary with
    | false => exact sees_evaluateAll inner .null
    | true => cases shares
  | choice mark branches =>
    exact sees_evaluateBranches fun branch member =>
      ⟨inner _ (condition_mem_children member), inner _ (body_mem_children member)⟩
  | whileLoop | forLoop => cases shares

theorem sees_own (own : node.sharesScope = false)
    (sees : ∀ child ∈ node.children, SeesOnly child.Retrieves bound child) :
    ∃ (name : String) (inside : Evaluation P Value), node.evaluate bound = inScope name inside ∧
      Sees (fun key => ∃ child ∈ node.children, child.Retrieves key) inside := by
  have inner : ∀ child ∈ node.children, SeesOnly (fun key => ∃ child ∈ node.children, child.Retrieves key) bound child :=
    fun child member => (sees child member).mono fun _ retrieves => ⟨child, member, retrieves⟩
  cases node with
  | scope mark name boundary statements =>
    cases boundary with
    | false => cases own
    | true => exact ⟨name, _, rfl, sees_evaluateAll inner .null⟩
  | whileLoop mark bodyFirst condition body =>
    have test := inner condition (by simp [children])
    have round : ∀ node ∈ [body], SeesOnly _ bound node := List.forall_mem_singleton.2 (inner body (by simp [children]))
    cases bodyFirst with
    | false => exact ⟨_, _, evaluate_whileLoop mark condition body, sees_loop test (List.forall_mem_nil _) round bound⟩
    | true => exact ⟨_, _, evaluate_doLoop mark condition body, sees_loop test round round bound⟩
  | forLoop mark start condition step body =>
    have first : ∀ node ∈ [start], SeesOnly _ bound node := List.forall_mem_singleton.2 (inner start (by simp [children]))
    have round : ∀ node ∈ [body, step], SeesOnly _ bound node :=
      List.forall_mem_cons.2 ⟨inner body (by simp [children]), List.forall_mem_singleton.2 (inner step (by simp [children]))⟩
    exact ⟨_, _, evaluate_forLoop mark start condition step body,
      sees_loop (inner condition (by simp [children])) first round bound⟩
  | _ => cases own

end Children

theorem sees_evaluate (node : Node P) : SeesOnly node.Retrieves bound node := by
  induction node using children_induction with
  | step node ih =>
    cases own : node.sharesScope with
    | true => exact sees_shared own ih
    | false =>
      obtain ⟨name, inside, evaluates, sees⟩ := sees_own own ih
      unfold SeesOnly
      rw [evaluates]
      -- Only the last result is not looked up through the node, and every scope begins with its own.
      exact sees_inScope sees (fun _ other inner => retrieves_iff.2 (.inr ⟨.inl other, inner⟩)) name

end Node

open Reckon.Evaluation

/-- Contexts of one name that bind alike what the node looks up give the same value or fault, or no end, under
every bound, and what they bound alike they bind alike afterwards. For a block
or a loop neither the last results outside nor the names of the scopes count. -/
theorem evaluate_agrees (node : Node P) (bound : Nat) (first second : Context) :
    (Context.Agree node.Retrieves first second →
      Alongside first second (outcome (node.evaluate bound) first) (outcome (node.evaluate bound) second)) ∧
    (node.sharesScope = false → (∀ name, name ≠ lastResult → first.get? name = second.get? name) →
      ∃ ended : Option (Except (Fault P) Value), outcome (node.evaluate bound) first = ended.map (·, first) ∧
        outcome (node.evaluate bound) second = ended.map (·, second)) := by
  refine ⟨Node.sees_evaluate node first second, fun own alike => ?_⟩
  have inner : ∀ child ∈ node.children, Node.SeesOnly child.Retrieves bound child :=
    fun child _ => Node.sees_evaluate child
  obtain ⟨name, inside, evaluates, sees⟩ := Node.sees_own own inner
  rw [evaluates]
  exact sees.inScope (fun key other _ => alike key other) name

theorem evaluate_agrees_block :
    let mark : Mark Unit := ⟨.point (), true⟩
    let block := Node.scope mark "anonymous" true [.literal mark (.boolean true), .retrieval mark lastResult]
    let node := Node.assignment mark "y" (.binary mark (.retrieval mark "x") ⟨.and, none, .point ()⟩ block)
    let first := (((Context.root "global").set "x" (.boolean true)).child "if").set lastResult (.boolean false)
    let second := ((Context.root "global").child "if").set "x" (.boolean true)
    let value := Value.boolean true
    Context.Agree node.Retrieves first second ∧
      Alongside first second (some (.ok value, first.set "y" value)) (some (.ok value, second.set "y" value) :
        Option (Except (Fault Unit) Value × Context)) ∧
      block.sharesScope = false ∧ (∀ name, name ≠ lastResult → first.get? name = second.get? name) ∧
      ∃ ended : Option (Except (Fault Unit) Value), outcome (block.evaluate 0) first = ended.map (·, first) ∧
        outcome (block.evaluate 0) second = ended.map (·, second) := by
  intro mark block node first second value
  have alike : ∀ name, name ≠ lastResult → first.get? name = second.get? name := by
    intro name other
    simp only [first, second, Context.get?_set, Context.get?_child, if_neg other]
  have agree : Context.Agree node.Retrieves first second := by
    refine ⟨rfl, fun name retrieves => alike name ?_⟩
    rintro rfl
    have other : ¬ (Node.retrieval mark "x").Retrieves lastResult := by
      rw [Node.retrieves_iff]
      simp [Node.retrievedName?, Node.children, lastResult]
    have closed : ¬ block.Retrieves lastResult := by
      rw [Node.retrieves_iff]
      simp [block, Node.retrievedName?, Node.sharesScope]
    rw [Node.retrieves_iff] at retrieves
    simp only [node, Node.retrievedName?, Node.children, List.mem_singleton, exists_eq_left, reduceCtorEq, false_or] at retrieves
    rw [Node.retrieves_iff] at retrieves
    simp [Node.retrievedName?, Node.children, other, closed] at retrieves
  have agrees := evaluate_agrees node 0 first second
  exact ⟨agree, agrees.1 agree, rfl, alike, (evaluate_agrees block 0 first second).2 rfl alike⟩

end Reckon
