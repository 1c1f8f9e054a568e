import Reckon.Proofs.Grammar.Shift
import Reckon.Proofs.Grammar.Unlimited

set_option autoImplicit false

/-!
# What is expected can be had

Where a rule meets a token that it cannot go on with, each of the kinds that it names there can be
completed: the tokens in front of that place, one of that kind and some more are read by the rule when
nothing limits the levels.
-/

namespace Reckon.Grammar

open Reckon.Parser

variable {P α β : Type} {stop token : Token P} {before ahead left rest taken : List (Token P)} {fault : Fault P}
  {front next middle last kinds : List Kind} {deeper : Nested → Parser P (Node P)}

/-- Kinds behind which no choice goes on. -/
def Plain (kinds : List Kind) : Prop := ∀ kind ∈ kinds, kind ∉ [Kind.elifWord, .elseWord, .endOfText]

instance (kinds : List Kind) : Decidable (Plain kinds) := by
  unfold Plain
  infer_instance

/-- The parser takes these tokens and tokens of these kinds when one of the next kinds is behind them. -/
def Reaches (next : List Kind) (before : List (Token P)) (kinds : List Kind) (parser : Parser P α) : Prop :=
  ∀ (tokens rest : List (Token P)) (stop : Token P), stop.kind = .endOfText →
    tokens.map Token.kind = kinds → nextKind rest ∈ next →
    ∃ value, outcome parser stop (before ++ (tokens ++ rest)) = .ok (value, rest)

/-- The fault says what is expected behind some of the tokens, and the parser goes on there with each of these
kinds. In front of all tokens, nothing but the kinds of `front` is expected. -/
inductive Explained (stop : Token P) (front next : List Kind) (parser : Parser P α) :
    List (Token P) → Fault P → Prop where
  | stuck (before : List (Token P)) {rest : List (Token P)} {expected : List Kind} {help : Option String} (some' : expected ≠ [])
    (fresh : before = [] → expected ⊆ front)
    (goes : ∀ kind ∈ expected, ∃ kinds, Plain kinds ∧ heads kinds next ⊆ [kind] ∧ Reaches next before kinds parser) :
    Explained stop front next parser (before ++ rest)
      ⟨surprise stop expected rest, (rest.headD stop).span, help⟩

def ExplainsAt (stop : Token P) (front next : List Kind) (ahead : List (Token P)) (parser other : Parser P α) : Prop :=
  ∀ fault, outcome parser stop ahead = .error fault → fault.cause.isTooDeep = false →
    Explained stop front next other ahead fault

theorem nextKind_congr (same : ahead.head? = rest.head?) : nextKind ahead = nextKind rest := by
  cases ahead <;> cases rest <;> simp_all [nextKind]

theorem Plain.unbranched {tokens : List (Token P)} (plain : Plain (tokens.map Token.kind)) (calm : nextKind rest ∈ quiet) :
    ¬ Branches (tokens ++ rest) := by
  have other : ∀ kind ∈ quiet, kind ≠ .newline ∧ kind ∉ [Kind.elifWord, .elseWord] := by decide
  induction tokens with
  | nil =>
    unfold Branches
    rw [List.nil_append]
    cases rest with
    | nil => exact (other _ calm).2
    | cons token behind =>
      rw [pastNewlines_cons (other _ calm).1]
      exact (other _ calm).2
  | cons token tokens ih =>
    obtain ⟨first, others⟩ := List.forall_mem_cons.1 plain
    unfold Branches at ih ⊢
    by_cases line : token.kind = .newline
    · rw [List.cons_append, pastNewlines_line line]
      exact ih others
    · rw [List.cons_append, pastNewlines_cons line]
      intro goes
      exact first (List.mem_append_left [Kind.endOfText] goes)

section Steps

variable {first second parser other : Parser P α} {further : Parser P β} {wider : List Kind}

theorem Explained.behind {whole : Parser P α} (explained : Explained stop front next second left fault)
    (calm : next ⊆ quiet)
    (same : ∀ (last : Token P) (other : List (Token P)), last.kind = .endOfText →
      (other.head? = left.head? ∨ nextKind other ∈ front) → (Branches other → Branches left) →
      outcome whole last (taken ++ other) = outcome second last other)
    (fresh : taken = [] → front ⊆ wider) : Explained stop wider next whole (taken ++ left) fault := by
  obtain @⟨before, rest, expected, help, some', inner, goes⟩ := explained
  rw [← List.append_assoc]
  refine .stuck _ some' (fun empty => ?_) fun kind member => ?_
  · obtain ⟨none, empty⟩ := List.append_eq_nil_iff.1 empty
    exact List.Subset.trans (inner empty) (fresh none)
  · obtain ⟨kinds, plain, heads', reaches⟩ := goes kind member
    refine ⟨kinds, plain, heads', fun tokens behind last ended kinds' follows => ?_⟩
    have ahead : (before ++ (tokens ++ behind)).head? = (before ++ rest).head? ∨
        nextKind (before ++ (tokens ++ behind)) ∈ front := by
      cases before with
      | nil =>
        have found := List.mem_singleton.1 (heads' (nextKind_append kinds' follows))
        rw [List.nil_append, found]
        exact .inr (inner rfl member)
      | cons token others => exact .inl rfl
    have stays : ¬ Branches (tokens ++ behind) := Plain.unbranched (kinds' ▸ plain) (calm follows)
    rw [List.append_assoc, same last _ ended ahead fun goes => branches_append goes stays]
    exact reaches tokens behind last ended kinds' follows

theorem ExplainsAt.behind (explains : ExplainsAt stop front next left first second) (taken : List (Token P))
    (calm : next ⊆ quiet) (start : outcome parser stop (taken ++ left) = outcome first stop left)
    (same : ∀ (last : Token P) (ahead : List (Token P)), last.kind = .endOfText →
      (ahead.head? = left.head? ∨ nextKind ahead ∈ front) → (Branches ahead → Branches left) →
      outcome other last (taken ++ ahead) = outcome second last ahead)
    (fresh : taken = [] → front ⊆ wider) : ExplainsAt stop wider next (taken ++ left) parser other := by
  intro fault fails shallow
  rw [start] at fails
  exact (explains fault fails shallow).behind calm same fresh

theorem ExplainsAt.past (explains : ExplainsAt stop front next left first second) (some' : taken ≠ [])
    (calm : next ⊆ quiet) (start : outcome parser stop (taken ++ left) = outcome first stop left)
    (same : ∀ (last : Token P) (ahead : List (Token P)), last.kind = .endOfText →
      outcome other last (taken ++ ahead) = outcome second last ahead) :
    ExplainsAt stop wider next (taken ++ left) parser other :=
  explains.behind taken calm start (fun last ahead ended _ _ => same last ahead ended) fun empty => absurd empty some'

theorem Reaches.bind {later : α → Parser P β} {one two : List Kind} (reaches : Reaches middle before one other)
    (ends : ∀ value, Ends last two (later value)) (follows : heads two last ⊆ middle) :
    Reaches last before (one ++ two) (other >>= later) := by
  intro tokens rest stop ended same behind
  obtain ⟨front, back, rfl, kinds, others⟩ := List.map_eq_append_iff.1 same
  rw [List.append_assoc]
  obtain ⟨value, reads⟩ := reaches front (back ++ rest) stop ended kinds (follows (nextKind_append others behind))
  obtain ⟨result, done⟩ := ends value back rest stop ended others behind
  exact ⟨result, (outcome_bind_of_ok later reads).trans done⟩

theorem Explained.bind {later : α → Parser P β} (explained : Explained stop front middle other ahead fault)
    (kinds : List Kind) (plain : Plain kinds) (follows : heads kinds last ⊆ middle) (ends : ∀ value, Ends last kinds (later value)) :
    Explained stop front last (other >>= later) ahead fault := by
  obtain @⟨before, rest, expected, help, some', fresh, goes⟩ := explained
  refine .stuck before some' fresh fun kind member => ?_
  obtain ⟨one, plain', heads', reaches⟩ := goes kind member
  refine ⟨one ++ kinds, ?_, ?_, reaches.bind ends follows⟩
  · intro kind member
    exact (List.mem_append.1 member).elim (plain' kind) (plain kind)
  · cases one with
    | nil => exact List.Subset.trans follows heads'
    | cons first others => exact heads'

theorem ExplainsAt.map (explains : ExplainsAt stop front next ahead parser other) (f : α → β) :
    ExplainsAt stop front next ahead (parser >>= fun value => pure (f value))
      (other >>= fun value => pure (f value)) := by
  intro fault fails shallow
  cases read : outcome parser stop ahead with
  | ok pair =>
    rw [outcome_bind_of_ok _ read] at fails
    cases fails
  | error fault' =>
    rw [outcome_bind_of_error _ read] at fails
    cases fails
    exact (explains _ read shallow).bind [] (List.forall_mem_nil _) (List.Subset.refl next) fun value => ends_pure (f value) next

theorem explains_take (front : List Kind) {one two : Token P → Parser P α} (calm : next ⊆ quiet)
    (explains : ExplainsAt stop front next rest (one token) (two token)) :
    ExplainsAt stop wider next (token :: rest) (take >>= one) (take >>= two) :=
  explains.past (List.cons_ne_nil token []) calm rfl fun _ _ _ => rfl

theorem explains_choose (front : List Kind) {one two : Token P → Parser P α} (calm : next ⊆ quiet)
    (explains : ExplainsAt stop front next ahead (one (ahead.headD stop)) (two (ahead.headD stop)))
    (alike : ∀ token : Token P, token.kind = nextKind ahead ∨ token.kind ∈ front →
      two token = two (ahead.headD stop)) (fresh : front ⊆ wider) :
    ExplainsAt stop wider next ahead (peek >>= one) (peek >>= two) := by
  refine explains.behind [] calm rfl (fun last behind ended' starts _ => ?_) (fun _ => fresh)
  rw [List.nil_append, outcome_peek_bind, alike]
  rw [kind_headD ended']
  exact starts.imp_left nextKind_congr

theorem explains_ok {value : α} (reads : outcome parser stop ahead = .ok (value, left)) :
    ExplainsAt stop front next ahead parser other := by
  intro fault fails _
  rw [reads] at fails
  cases fails

theorem explains_unexpected (ended : stop.kind = .endOfText) {expected : List Kind} (some' : expected ≠ [])
    (help : Option String)
    (goes : ∀ kind ∈ expected, ∃ kinds, Plain kinds ∧ heads kinds next ⊆ [kind] ∧ Ends next kinds other) :
    ExplainsAt stop expected next ahead (unexpected expected help) other := by
  intro fault fails _
  rw [outcome_unexpected ended] at fails
  cases fails
  exact .stuck [] some' (fun _ => List.Subset.refl _) goes

theorem explains_expect_bind (front kinds : List Kind) (ended : stop.kind = .endOfText) {kind : Kind} {help : Option String}
    {one two : Token P → Parser P α} (calm : next ⊆ quiet)
    (second : ∀ token rest, ahead = token :: rest → ExplainsAt stop front next rest (one token) (two token))
    (plain : Plain (kind :: kinds)) (ends : ∀ token, Ends next kinds (two token)) :
    ExplainsAt stop [kind] next ahead (expect kind help >>= one) (expect kind help >>= two) := by
  have text : kind ≠ .endOfText := fun same => plain kind List.mem_cons_self (by simp [same])
  by_cases same : nextKind ahead = kind
  · obtain ⟨token, rest, split, kind'⟩ := exists_cons_of_nextKind same text
    subst split
    have taken : ∀ (last : Token P) (behind : List (Token P)), last.kind = .endOfText →
        outcome (expect kind help) last (token :: behind) = .ok (token, behind) :=
      fun last behind ended => outcome_expect_cons ended kind' help
    exact (second token rest rfl).past (List.cons_ne_nil token []) calm (outcome_bind_of_ok _ (taken stop rest ended))
      fun last behind ended => outcome_bind_of_ok _ (taken last behind ended)
  · have fails : outcome (expect kind help) stop ahead =
        .error ⟨surprise stop [kind] ahead, (ahead.headD stop).span, help⟩ := by
      rw [outcome_expect ended, if_neg same]
    intro fault failed _
    rw [outcome_bind_of_error _ fails] at failed
    cases failed
    refine .stuck [] (List.cons_ne_nil kind []) (fun _ => List.Subset.refl _) fun other member => ?_
    cases List.mem_singleton.1 member
    exact ⟨kind :: kinds, plain, List.Subset.refl _, (ends_expect kind help _).bind ends (List.Subset.refl _)⟩

end Steps

/-- What the one parser reads are phrases of this form, and the other one reads all of them. -/
structure Reader (stop : Token P) (phrase : α → Phrase P) (parser other : Parser P α) : Prop where
  reads : ∀ {value : α} {ahead rest : List (Token P)}, outcome parser stop ahead = .ok (value, rest) →
    Reads (phrase value) ahead rest
  parsed : ∀ {last : Token P} {value : α} {ahead rest : List (Token P)}, last.kind = .endOfText →
    Reads (phrase value) ahead rest → outcome other last ahead = .ok (value, rest)
  least : ∀ value, (phrase value).least = 1

theorem closed_of_least {phrase : Phrase P} (least : phrase.least = 1) : phrase.Closed ahead rest := by
  cases phrase with
  | sequence => cases least
  | _ => trivial

theorem explains_bind (again kinds : List Kind) {phrase : α → Phrase P} {parser other : Parser P α} {one two : α → Parser P β}
    (reader : Reader stop phrase parser other)
    (explains : ExplainsAt stop front middle ahead parser other) (calm : last ⊆ quiet)
    (second : ∀ value left, left <:+ ahead → left.length < ahead.length →
      ExplainsAt stop again last left (one value) (two value))
    (settled : again ⊆ .newline :: quiet) (plain : Plain kinds) (follows : heads kinds last ⊆ middle)
    (ends : ∀ value, Ends last kinds (two value)) :
    ExplainsAt stop front last ahead (parser >>= one) (other >>= two) := by
  intro fault fails shallow
  cases read : outcome parser stop ahead with
  | error fault' =>
    rw [outcome_bind_of_error _ read] at fails
    cases fails
    exact (explains _ read shallow).bind kinds plain follows ends
  | ok pair =>
    obtain ⟨value, left⟩ := pair
    rw [outcome_bind_of_ok _ read] at fails
    have reads := reader.reads read
    have shorter := reads.length_le
    rw [reader.least value] at shorter
    obtain ⟨taken, split, shifted⟩ := reads.shifts
    have explained := second value left (split ▸ List.suffix_append taken left) (by omega) fault fails shallow
    rw [split]
    refine explained.behind calm (fun last other ended ahead branches => ?_) (fun empty => ?_)
    · -- What is behind the phrase now does not go on with it, so the phrase is read as before.
      have swaps : Swaps left other := ⟨ahead.imp nextKind_congr fun member => settled member, branches⟩
      exact outcome_bind_of_ok two (reader.parsed ended (shifted other swaps (closed_of_least (reader.least value))))
    · rw [split, empty, List.nil_append] at shorter
      omega

def operandStarts : List Kind := [.number, .identifier, .last, .openParen, .minus]

theorem ends_free : Ends quiet [.number] (free .statement : Parser P (Node P)) := by
  intro tokens rest stop ended kinds follows
  rw [outcome_free_statement ended]
  exact ends_statement tokens rest stop ended kinds follows

theorem ends_cons {kind : Kind} {parser : Parser P α} (inner : Token P → Parser P α)
    (step : ∀ (token stop : Token P) (rest : List (Token P)), token.kind = kind → stop.kind = .endOfText →
      outcome parser stop (token :: rest) = outcome (inner token) stop rest)
    (ends : ∀ token, Ends next kinds (inner token)) : Ends next (kind :: kinds) parser := by
  intro tokens rest stop ended same follows
  obtain ⟨token, others, rfl, kind', kinds'⟩ := List.map_eq_cons_iff.1 same
  obtain ⟨value, reads⟩ := ends token others rest stop ended kinds' follows
  exact ⟨value, (step token stop (others ++ rest) kind' ended).trans reads⟩

structure Accounts (stop : Token P) (deeper : Nested → Parser P (Node P)) : Prop where
  ended : stop.kind = .endOfText
  sound : Sound stop deeper
  statement : ∀ ahead, ExplainsAt stop operandStarts quiet ahead (deeper .statement) (free .statement)
  complement : ∀ sign rest, sign.kind = .not →
    ExplainsAt stop [] quiet (sign :: rest) (deeper .complement) (free .complement)
  negation : ∀ sign rest, sign.kind = .minus →
    ExplainsAt stop [] quiet (sign :: rest) (deeper .negation) (free .negation)

section Rules

variable (accounts : Accounts stop deeper)
include accounts

theorem reader_statement : Reader stop Phrase.statement (deeper .statement) (free .statement) where
  reads := accounts.sound.statement
  parsed := fun ended reads => reads.free_statement ended
  least := fun _ => rfl

theorem reader_rank (rank : Rank) : Reader stop (Phrase.expression rank) (rank.parser deeper) (rank.parser free) where
  reads := by
    have ended := accounts.ended
    have sound := accounts.sound
    have factors := tidy_factor sound.tidy
    intro tree ahead rest reads
    cases rank with
    | factor => exact reads_factor ended sound reads
    | power => exact reads_operands ended .power factors (by decide) (reads_factor ended sound) reads
    | term =>
      exact reads_operands ended .term (tidy_operands factors) (by decide)
        (reads_operands ended .power factors (by decide) (reads_factor ended sound)) reads
    | sum => exact reads_sum ended sound reads
    | comparison => exact reads_comparison ended sound reads
    | logical => exact reads_logical ended sound reads
  parsed := fun ended reads => reads.free_expression ended
  least := fun _ => rfl

theorem reader_block (name : String) (boundary : Bool) :
    Reader stop (Phrase.block name boundary) (block deeper name boundary) (block free name boundary) where
  reads := reads_block accounts.ended accounts.sound
  parsed := fun ended reads => reads.free_block ended
  least := fun _ => rfl

theorem explains_chain (rank : Rank)
    (explains : ∀ ahead, ExplainsAt stop operandStarts quiet ahead (rank.tighter.parser deeper) (rank.tighter.parser free))
    (tree : Node P) (ahead : List (Token P)) :
    ExplainsAt stop [] quiet ahead (chain rank.operators (rank.tighter.parser deeper) tree)
      (chain rank.operators (rank.tighter.parser free) tree) := by
  induction length : ahead.length using Nat.strong_induction_on generalizing ahead tree with
  | _ length ih =>
  by_cases kind : nextKind ahead ∈ rank.operators
  · have text : .endOfText ∉ rank.operators := operators_apart rank _ (by decide)
    cases ahead with
    | nil => exact absurd kind text
    | cons operator rest =>
      have tidy := tidy_rank accounts.sound.tidy rank.tighter
      have tidy' := tidy_rank (P := P) tidy_free rank.tighter
      have step := explains_bind [] [] (reader_rank accounts rank.tighter) (explains rest) (List.Subset.refl quiet)
        (fun right left suffix shorter => ih left.length (by rw [← length, List.length_cons]; omega)
          (.mkBinary tree operator right) left rfl)
        (List.nil_subset _) (List.forall_mem_nil _) (List.Subset.refl quiet)
        (fun right => ends_chain (operators_apart rank))
      exact step.past (List.cons_ne_nil operator []) (List.Subset.refl quiet) (chain_step accounts.ended text tidy kind)
        fun last other ended => chain_step ended text tidy' kind
  · exact explains_ok (chain_done accounts.ended kind)

theorem explains_operands (rank : Rank)
    (explains : ∀ ahead, ExplainsAt stop operandStarts quiet ahead (rank.tighter.parser deeper) (rank.tighter.parser free))
    (ahead : List (Token P)) :
    ExplainsAt stop operandStarts quiet ahead (operands rank.operators (rank.tighter.parser deeper))
      (operands rank.operators (rank.tighter.parser free)) :=
  explains_bind [] [] (reader_rank accounts rank.tighter) (explains ahead) (List.Subset.refl quiet)
    (fun tree left _ _ => explains_chain accounts rank explains tree left)
    (List.nil_subset _) (List.forall_mem_nil _) (List.Subset.refl quiet)
    (fun _ => ends_chain (operators_apart rank))

omit accounts in
theorem ends_factor {kind : Kind} (starts : kind ∈ operandStarts) :
    ∃ kinds, Plain kinds ∧ heads kinds quiet ⊆ [kind] ∧ Ends quiet kinds (factor free : Parser P (Node P)) := by
  have single : ∀ kind ∈ [Kind.number, .identifier, .last], Ends quiet [kind] (factor free : Parser P (Node P)) := by
    intro kind member tokens rest stop ended same follows
    obtain ⟨token, rfl, kind'⟩ := List.map_eq_singleton_iff.1 same
    unfold factor
    rw [outcome_peek_bind, List.singleton_append, List.headD_cons, kind']
    simp only [List.mem_cons, List.not_mem_nil, or_false] at member
    rcases member with rfl | rfl | rfl <;> exact ⟨_, rfl⟩
  have sign : Ends quiet [.minus, .number] (factor free : Parser P (Node P)) := by
    refine ends_cons (fun sign => factor free >>= fun operand => pure (.mkUnary sign operand)) ?_
      fun sign => (single .number (by decide)).map _
    intro sign stop rest kind ended
    unfold factor
    rw [outcome_peek_bind, List.headD_cons, kind]
    exact outcome_free_negation ended sign
  have group : Ends quiet [.openParen, .number, .closeParen] (factor free : Parser P (Node P)) := by
    have inner : ∀ help, Ends quiet [.number, .closeParen] (free .statement >>= fun tree : Node P =>
        expect .closeParen help >>= fun _ => pure tree) :=
      fun help => ends_free.bind (fun tree => (ends_expect .closeParen help quiet).map fun _ => tree) (by decide)
    intro tokens rest stop ended same follows
    obtain ⟨opening, others, rfl, kind, kinds⟩ := List.map_eq_cons_iff.1 same
    unfold factor
    rw [outcome_peek_bind, List.cons_append, List.headD_cons, kind]
    exact inner _ others rest stop ended kinds follows
  simp only [operandStarts, List.mem_cons, List.not_mem_nil, or_false] at starts
  rcases starts with rfl | rfl | rfl | rfl | rfl
  · exact ⟨_, by decide, List.Subset.refl _, single .number (by decide)⟩
  · exact ⟨_, by decide, List.Subset.refl _, single .identifier (by decide)⟩
  · exact ⟨_, by decide, List.Subset.refl _, single .last (by decide)⟩
  · exact ⟨_, by decide, List.Subset.refl _, group⟩
  · exact ⟨_, by decide, List.Subset.refl _, sign⟩

theorem explains_factor (ahead : List (Token P)) :
    ExplainsAt stop operandStarts quiet ahead (factor deeper) (factor free) := by
  have ended := accounts.ended
  by_cases starts : nextKind ahead ∈ operandStarts
  · cases ahead with
    | nil => simp [nextKind, operandStarts] at starts
    | cons token rest =>
      unfold factor
      refine explains_choose [] (List.Subset.refl quiet) ?_ (fun other same => ?_) (List.nil_subset _)
      · rw [List.headD_cons]
        simp only [operandStarts, nextKind, List.mem_cons, List.not_mem_nil, or_false] at starts
        rcases starts with kind | kind | kind | kind | kind <;> rw [kind]
        case inr.inr.inr.inl =>
          refine explains_take operandStarts (List.Subset.refl quiet) ?_
          refine explains_bind [.closeParen] [.closeParen] (reader_statement accounts)
            (accounts.statement rest) (List.Subset.refl quiet) (fun tree left _ _ => ?_) (by decide) (by decide)
            (by decide) (fun tree => (ends_expect .closeParen _ quiet).map fun _ => tree)
          exact explains_expect_bind [] [] ended (List.Subset.refl quiet)
            (fun _ _ _ => explains_ok rfl) (by decide) fun _ => ends_pure tree quiet
        case inr.inr.inr.inr => exact accounts.negation token rest kind
        all_goals exact explains_ok rfl
      · have kind : other.kind = token.kind := same.resolve_right List.not_mem_nil
        rw [kind, List.headD_cons]
  · intro fault fails shallow
    unfold factor at fails
    rw [outcome_peek_bind, kind_headD ended] at fails
    split at fails
    next next => simp [next, operandStarts] at starts
    next next => simp [next, operandStarts] at starts
    next next => simp [next, operandStarts] at starts
    next next => simp [next, operandStarts] at starts
    next next => simp [next, operandStarts] at starts
    next => exact explains_unexpected ended (by decide) _ (fun kind member => ends_factor member) fault fails shallow

theorem explains_sum (ahead : List (Token P)) :
    ExplainsAt stop operandStarts quiet ahead (sum deeper) (sum free) := by
  have powers := explains_operands accounts .power (explains_factor accounts)
  have terms := explains_operands accounts .term powers
  exact explains_operands accounts .sum terms ahead

theorem explains_comparison (ahead : List (Token P)) :
    ExplainsAt stop operandStarts quiet ahead (comparison deeper) (comparison free) := by
  have ended := accounts.ended
  unfold comparison
  by_cases complement : nextKind ahead = .not
  · obtain ⟨sign, rest, rfl, kind⟩ := exists_cons_of_nextKind complement (by decide)
    refine explains_choose [] (List.Subset.refl quiet) ?_ (fun other same => ?_) (List.nil_subset _)
    · rw [List.headD_cons, if_pos kind, if_pos kind]
      exact accounts.complement sign rest kind
    · have kind' : other.kind = .not := (same.resolve_right List.not_mem_nil).trans complement
      rw [List.headD_cons, if_pos kind', if_pos kind]
  · have plain : (ahead.headD stop).kind ≠ .not := by rwa [kind_headD ended]
    refine explains_choose operandStarts (List.Subset.refl quiet) ?_ (fun other same => ?_)
      (List.Subset.refl _)
    · rw [if_neg plain, if_neg plain]
      exact explains_operands accounts .comparison (explains_sum accounts) ahead
    · have apart : .not ∉ operandStarts := by decide
      have kind' : other.kind ≠ .not := by
        rcases same with same | member
        · rwa [same]
        · exact fun next => apart (next ▸ member)
      rw [if_neg kind', if_neg plain]

theorem explains_logical (ahead : List (Token P)) :
    ExplainsAt stop operandStarts quiet ahead (logical deeper) (logical free) :=
  explains_operands accounts .logical (explains_comparison accounts) ahead

theorem reader_logical : Reader stop (Phrase.expression .logical) (logical deeper) (logical free) :=
  reader_rank accounts .logical

section Sequences

variable {closing : Kind} (closes : closing ∈ [.closeBrace, .endOfText])
include closes

omit accounts in
theorem closing_calm : [closing] ⊆ quiet := by
  have calm : ∀ closing ∈ [Kind.closeBrace, .endOfText], [closing] ⊆ quiet := by decide
  exact calm closing closes

omit accounts closes in
theorem exists_separators (ahead : List (Token P)) :
    ∃ gap, pastSeparators gap = [] ∧ ahead = gap ++ pastSeparators ahead := by
  refine ⟨ahead.takeWhile fun token => [Kind.newline, Kind.terminator].contains token.kind, ?_,
    List.takeWhile_append_dropWhile.symm⟩
  unfold pastSeparators
  exact List.dropWhile_eq_nil_iff.2 fun token member => by simpa using List.mem_takeWhile_imp member

omit accounts in
theorem separators_expected {kind : Kind} (member : kind ∈ separators closing) :
    ∃ kinds : List Kind, kinds ⊆ [.newline, .terminator] ∧ Plain kinds ∧ heads kinds [closing] ⊆ [kind] := by
  simp only [separators, List.mem_cons, List.not_mem_nil, or_false] at member
  rcases member with rfl | rfl | rfl
  · exact ⟨[.newline], by decide, by decide, List.Subset.refl _⟩
  · exact ⟨[.terminator], by decide, by decide, List.Subset.refl _⟩
  · exact ⟨[], List.nil_subset _, List.forall_mem_nil _, List.Subset.refl _⟩

omit accounts in
theorem reaches_sequence (blank : pastSeparators before = []) (separate : kinds ⊆ [.newline, .terminator]) :
    Reaches [closing] before kinds (sequence free closing : Parser P (List (Node P))) := by
  intro tokens rest stop ended same follows
  have next := List.mem_singleton.1 follows
  have gap : pastSeparators tokens = [] := by
    refine List.dropWhile_eq_nil_iff.2 fun token member => ?_
    have kind : token.kind ∈ [Kind.newline, .terminator] := separate (same ▸ List.mem_map_of_mem member)
    simpa using kind
  have past : pastSeparators (before ++ (tokens ++ rest)) = rest := by
    rw [pastSeparators_append_nil blank, pastSeparators_append_nil gap, pastSeparators_closing closes next]
  exact ⟨[], by rw [sequence_done ended (by rw [past]; exact next), past]⟩

omit accounts in
theorem ends_statementEnd_bind {later : Bool → Parser P α} (ends : ∀ hidden, Ends [closing] [] (later hidden))
    {kind : Kind} (member : kind ∈ separators closing) :
    ∃ kinds, Plain kinds ∧ heads kinds [closing] ⊆ [kind] ∧ Ends [closing] kinds (statementEnd closing >>= later) := by
  simp only [separators, List.mem_cons, List.not_mem_nil, or_false] at member
  rcases member with rfl | rfl | rfl
  · refine ⟨[.newline], by decide, List.Subset.refl _, ends_cons (fun _ => later false) ?_ fun _ => ends false⟩
    intro token stop rest kind ended
    refine outcome_bind_of_ok _ ?_
    rw [outcome_statementEnd_cons ended, kind]
    rfl
  · refine ⟨[.terminator], by decide, List.Subset.refl _, ends_cons (fun _ => later true) ?_ fun _ => ends true⟩
    intro token stop rest kind ended
    refine outcome_bind_of_ok _ ?_
    rw [outcome_statementEnd_cons ended, kind]
    rfl
  · exact ⟨[], List.forall_mem_nil _, List.Subset.refl _,
      (ends_statementEnd closes).bind ends (List.Subset.refl _)⟩

theorem explains_statementEnd_bind (front : List Kind) {one two : Bool → Parser P α}
    (closed : ∀ hidden, nextKind ahead = closing → ∃ result, outcome (one hidden) stop ahead = .ok result)
    (second : ∀ hidden rest, rest <:+ ahead → ExplainsAt stop front [closing] rest (one hidden) (two hidden))
    (ends : ∀ hidden, Ends [closing] [] (two hidden)) :
    ExplainsAt stop (separators closing) [closing] ahead (statementEnd closing >>= one) (statementEnd closing >>= two) := by
  have ended := accounts.ended
  by_cases last : nextKind ahead = closing
  · obtain ⟨⟨result, left⟩, reads⟩ := closed false last
    exact explains_ok ((outcome_bind_of_ok one (outcome_statementEnd_closing ended closes last)).trans reads)
  · by_cases separates : nextKind ahead = .terminator ∨ nextKind ahead = .newline
    · obtain ⟨token, rest, rfl, kind⟩ : ∃ token rest, ahead = token :: rest ∧
          (token.kind = .terminator ∨ token.kind = .newline) := by
        cases ahead with
        | nil => simp [nextKind] at separates
        | cons token rest => exact ⟨token, rest, rfl, separates⟩
      have taken : ∀ (last : Token P) (behind : List (Token P)), last.kind = .endOfText →
          outcome (statementEnd closing) last (token :: behind) = .ok (decide (token.kind = .terminator), behind) := by
        intro last behind ended
        rw [outcome_statementEnd_cons ended]
        rcases kind with kind | kind <;> rw [kind] <;> rfl
      exact (second _ rest (List.suffix_cons token rest)).past (List.cons_ne_nil token []) (closing_calm closes)
        (outcome_bind_of_ok one (taken stop rest ended))
        fun last behind ended => outcome_bind_of_ok two (taken last behind ended)
    · obtain ⟨shown, line⟩ := not_or.1 separates
      have fails : outcome (statementEnd closing) stop ahead = _ := outcome_statementEnd ended closing
      rw [if_neg shown, if_neg line, if_neg last] at fails
      intro fault failed _
      rw [outcome_bind_of_error one fails] at failed
      cases failed
      exact .stuck [] (List.cons_ne_nil _ _) (fun _ => List.Subset.refl _) fun kind member =>
        ends_statementEnd_bind closes ends member

omit accounts closes in
theorem pastSeparators_apart (ahead : List (Token P)) :
    nextKind (pastSeparators ahead) ∉ [.newline, .terminator] := by
  induction ahead with
  | nil => simp [pastSeparators, nextKind]
  | cons token rest ih =>
    by_cases separates : token.kind = .newline ∨ token.kind = .terminator
    · rwa [pastSeparators_cons separates]
    · obtain ⟨line, shown⟩ := not_or.1 separates
      have stays : pastSeparators (token :: rest) = token :: rest := pastSeparators_eq line shown
      rw [stays]
      simpa [nextKind] using separates

theorem explains_oneStatement {bound : Nat}
    (others : ∀ rest : List (Token P), rest.length < bound →
      ExplainsAt stop (separators closing ++ operandStarts) [closing] rest (sequence deeper closing) (sequence free closing))
    (ahead : List (Token P)) (short : ahead.length ≤ bound) :
    ExplainsAt stop operandStarts [closing] ahead (oneStatement deeper closing (sequence deeper closing))
      (oneStatement free closing (sequence free closing)) := by
  have calm := closing_calm closes
  refine explains_bind (separators closing) [] (reader_statement accounts) (accounts.statement ahead)
    calm (fun statement left suffix shorter => ?_) ?_ (List.forall_mem_nil _) calm ?_
  · refine explains_statementEnd_bind accounts closes (separators closing ++ operandStarts)
      (fun hidden last => ?_) (fun hidden rest suffix => ?_) fun hidden => ?_
    · have reads : outcome (sequence deeper closing) stop left = .ok ([], left) := by
        have stays := pastSeparators_closing closes last
        rw [sequence_done accounts.ended (by rw [stays]; exact last), stays]
      exact ⟨_, outcome_bind_of_ok _ reads⟩
    · exact (others rest (by have := suffix.length_le; omega)).map _
    · exact (ends_sequence closes).map _
  · have settled : ∀ closing ∈ [Kind.closeBrace, .endOfText], separators closing ⊆ .newline :: quiet := by decide
    exact settled closing closes
  · exact fun statement => (ends_statementEnd closes).bind (fun hidden => (ends_sequence closes).map _) (List.Subset.refl _)

theorem explains_sequence (ahead : List (Token P)) :
    ExplainsAt stop (separators closing ++ operandStarts) [closing] ahead (sequence deeper closing)
      (sequence free closing) := by
  have ended := accounts.ended
  induction length : ahead.length using Nat.strong_induction_on generalizing ahead with
  | _ length ih =>
  obtain ⟨gap, blank, split⟩ := exists_separators ahead
  have shorter := (pastSeparators_suffix ahead).length_le
  by_cases last : nextKind (pastSeparators ahead) = closing
  · exact explains_ok (sequence_done ended last)
  have apart := pastSeparators_apart ahead
  by_cases finished : nextKind (pastSeparators ahead) = .endOfText
  · have fails : outcome (sequence deeper closing) stop ahead = _ := sequence_over ended last finished
    intro fault failed _
    rw [fails] at failed
    cases failed
    generalize pastSeparators ahead = left at split finished
    subst split
    have cause : Cause.unexpectedEnd (separators closing) = surprise stop (separators closing) left := by
      simp [surprise, finished]
    rw [cause]
    refine .stuck gap (List.cons_ne_nil _ _) (fun _ => List.subset_append_left _ _) fun kind member => ?_
    obtain ⟨kinds, separate, plain, heads'⟩ := separators_expected closes member
    exact ⟨kinds, plain, heads', reaches_sequence closes blank separate⟩
  · have one := explains_oneStatement accounts closes (fun rest bound => ih rest.length bound rest rfl)
      (pastSeparators ahead) (by omega)
    have start := sequence_step ended (accounts.sound.strict) last finished
    generalize pastSeparators ahead = left at split last apart finished one start
    subst split
    refine one.behind gap (closing_calm closes) start (fun stop' other ended' front _ => ?_) fun _ => List.subset_append_right _ _
    -- What is behind the separators still begins a statement.
    have inside : nextKind other ∉ [.newline, .terminator, closing, .endOfText] := by
      rcases front with same | starts
      · rw [nextKind_congr same]
        simp only [List.mem_cons, List.not_mem_nil, or_false, not_or] at apart ⊢
        exact ⟨apart.1, apart.2, last, finished⟩
      · have distinct : ∀ closing ∈ [Kind.closeBrace, .endOfText], ∀ kind ∈ operandStarts,
            kind ∉ [.newline, .terminator, closing, .endOfText] := by decide
        exact distinct closing closes _ starts
    simp only [List.mem_cons, List.not_mem_nil, or_false, not_or] at inside
    obtain ⟨line, shown, more, text⟩ := inside
    have past : pastSeparators (gap ++ other) = other := by
      rw [pastSeparators_append_nil blank, pastSeparators_eq line shown]
    have strict : Strict stop' (free .statement : Parser P (Node P)) := (sound_free ended').strict
    rw [sequence_step ended' strict (by rw [past]; exact more) (by rw [past]; exact text), past]

end Sequences

end Rules

end Reckon.Grammar
