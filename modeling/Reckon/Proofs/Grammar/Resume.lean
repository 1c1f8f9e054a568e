import Reckon.Proofs.Grammar.Rounds

set_option autoImplicit false

/-!
# Parsing a text that is continued

The same tokens are parsed twice with different lines behind them. As long as the parser stays in
front of the newline between, the lines make no difference. Where it gets behind the newline, a
fixed line behind it completes what was open, and without the lines it waits for more of them, unless
they begin with a further branch.
-/

namespace Reckon.Grammar

open Reckon.Parser

variable {P α β : Type} {late : P → Prop} {line word stop : Token P} {before more ahead rest : List (Token P)}

/-- A newline with the tokens of more lines behind it; their positions are late, its own is not. -/
structure Seam (late : P → Prop) (line : Token P) (more : List (Token P)) (stop : Token P) : Prop where
  newline : line.kind = .newline
  ended : stop.kind = .endOfText
  early : ¬ late line.span.start
  behind : ∀ token ∈ more ++ [stop], late token.span.start

def Early (late : P → Prop) (before : List (Token P)) : Prop :=
  ∀ token ∈ before, token.kind ≠ .endOfText ∧ ¬ late token.span.start

theorem Early.suffix {left : List (Token P)} (early : Early late before) (suffix : left <:+ before) :
    Early late left :=
  fun token member => early token (suffix.subset member)

def Broken (ahead : List (Token P)) : Prop := nextKind ahead ∈ [.newline, .endOfText]

def Branches (ahead : List (Token P)) : Prop := nextKind (pastNewlines ahead) ∈ [.elifWord, .elseWord]

instance : Decidable (Branches ahead) := inferInstanceAs (Decidable (_ ∈ [_, _]))

theorem Branches.append (branches : Branches ahead) (more : List (Token P)) : Branches (ahead ++ more) := by
  unfold Branches at branches ⊢
  cases split : pastNewlines ahead with
  | nil =>
    rw [split] at branches
    simp [nextKind] at branches
  | cons word behind =>
    rw [split] at branches
    rwa [pastNewlines_append_cons split]

theorem branches_map {Q : Type} (f : P → Q) : Branches (ahead.map (Token.map f)) ↔ Branches ahead := by
  unfold Branches pastNewlines
  rw [List.dropWhile_map]
  change nextKind ((ahead.dropWhile fun token => token.kind = .newline).map (Token.map f)) ∈ _ ↔ _
  cases ahead.dropWhile fun token => token.kind = .newline <;> rfl

theorem Seam.broken (seam : Seam late line more stop) : Broken (line :: more) := by
  simp [Broken, nextKind, seam.newline]

theorem broken_nil : Broken ([] : List (Token P)) := by simp [Broken, nextKind]

theorem not_branches_nil : ¬ Branches ([] : List (Token P)) := by simp [Branches, pastNewlines, nextKind]

theorem branches_else (kind : word.kind = .elseWord) : Branches [word] := by
  unfold Branches
  rw [pastNewlines_cons (by rw [kind]; decide)]
  simp [nextKind, kind]

/-- The parser took the newline, or finds fault with a token behind it. -/
def Beyond (late : P → Prop) (more : List (Token P)) : Except (Fault P) (α × List (Token P)) → Prop
  | .ok (_, rest) => rest.length ≤ more.length
  | .error fault => late fault.span.start

theorem not_beyond_read {left : List (Token P)} (value : α) :
    ¬ Beyond late more (.ok (value, left ++ line :: more)) := by
  change ¬ (left ++ line :: more).length ≤ more.length
  rw [List.length_append, List.length_cons]
  omega

theorem Seam.beyond {parser : Parser P α} (seam : Seam late line more stop) (tidy : Tidy parser)
    (suffix : rest <:+ more) : Beyond late more (outcome parser stop rest) := by
  cases read : outcome parser stop rest with
  | ok pair => exact ((tidy.suffix read).trans suffix).length_le
  | error fault =>
    obtain ⟨token, member, same, _⟩ := tidy.located read
    change late fault.span.start
    rw [same]
    apply seam.behind
    rcases List.mem_append.1 member with inside | last
    · exact List.mem_append_left _ (suffix.subset inside)
    · exact List.mem_append_right _ last

inductive Agree (late : P → Prop) (before : List (Token P)) (line : Token P) (more other : List (Token P)) :
    Except (Fault P) (α × List (Token P)) → Except (Fault P) (α × List (Token P)) → Prop where
  | beyond {first second : Except (Fault P) (α × List (Token P))} (past : Beyond late more first) :
    Agree late before line more other first second
  | read {value : α} {left : List (Token P)} (suffix : left <:+ before) :
    Agree late before line more other (.ok (value, left ++ line :: more)) (.ok (value, left ++ other))
  | refused {first second : Fault P} (early : ¬ late first.span.start) (closed : second.isContinuable = false) :
    Agree late before line more other (.error first) (.error second)

theorem Agree.longer {left other : List (Token P)} {first second : Except (Fault P) (α × List (Token P))}
    (agree : Agree late left line more other first second) (suffix : left <:+ before) :
    Agree late before line more other first second := by
  cases agree with
  | beyond past => exact .beyond past
  | read shorter => exact .read (shorter.trans suffix)
  | refused early closed => exact .refused early closed

theorem Agree.kept {left other : List (Token P)} {value : α} {second : Except (Fault P) (α × List (Token P))}
    (agree : Agree late before line more other (.ok (value, left ++ line :: more)) second) :
    left <:+ before ∧ second = .ok (value, left ++ other) := by
  generalize fixed : Except.ok (value, left ++ line :: more) = first at agree
  cases agree with
  | beyond past =>
    rw [← fixed] at past
    exact absurd past (not_beyond_read value)
  | @read _ left' suffix =>
    obtain ⟨rfl, same⟩ := Prod.mk.inj (Except.ok.inj fixed)
    cases List.append_cancel_right same
    exact ⟨suffix, rfl⟩
  | refused => cases fixed

theorem Agree.beyond_of_open {other : List (Token P)} {first : Except (Fault P) (α × List (Token P))}
    {fault : Fault P} (agree : Agree late before line more other first (.error fault))
    (continues : fault.isContinuable = true) : Beyond late more first := by
  cases agree with
  | beyond past => exact past
  | refused _ closed =>
    rw [continues] at closed
    cases closed

theorem Agree.front {other : List (Token P)} {value : α} {second : Except (Fault P) (α × List (Token P))}
    (agree : Agree late before line more other (.ok (value, rest)) second)
    (front : ¬ Beyond late more (.ok (value, rest))) : ∃ left, rest = left ++ line :: more := by
  cases agree with
  | beyond past => exact absurd past front
  | @read _ left suffix => exact ⟨left, rfl⟩

def fillers : List Kind :=
  [.closeBrace, .closeParen, .openBrace, .terminator, .number, .thenWord, .whileWord, .elseWord]

/-- The kinds that no statement can go on with. -/
def quiet : List Kind :=
  [.closeParen, .closeBrace, .openBrace, .terminator, .thenWord, .whileWord, .endOfText]

def heads (kinds next : List Kind) : List Kind :=
  match kinds with
  | [] => next
  | kind :: _ => [kind]

/-- The parser takes tokens of these kinds when one of the next kinds is behind them. -/
def Ends (next kinds : List Kind) (parser : Parser P α) : Prop :=
  ∀ (tokens rest : List (Token P)) (stop : Token P), stop.kind = .endOfText →
    tokens.map Token.kind = kinds → nextKind rest ∈ next →
    ∃ value, outcome parser stop (tokens ++ rest) = .ok (value, rest)

def Completes (next : List Kind) (before : List (Token P)) (kinds : List Kind) (parser : Parser P α) : Prop :=
  ∀ (line stop : Token P) (tokens rest : List (Token P)), line.kind = .newline → stop.kind = .endOfText →
    tokens.map Token.kind = kinds → nextKind rest ∈ next →
    ∃ value, outcome parser stop (before ++ line :: (tokens ++ rest)) = .ok (value, rest)

/-- Where this kind has to follow, the end of the text is open to more lines, or it is that kind. -/
def Waits (kind : Kind) : Except (Fault P) (α × List (Token P)) → Prop
  | .ok (_, rest) => rest = [] ∧ kind = .endOfText
  | .error fault => fault.isContinuable = true

/-- What is known of a parser with these tokens ahead, whichever lines stand behind them. -/
structure Resumes (late : P → Prop) (next : List Kind) (before : List (Token P)) (parser : Parser P α) : Prop where
  agrees : ∀ {line stop last : Token P} {more other : List (Token P)}, Seam late line more stop →
    last.kind = .endOfText → Broken other → (Branches more ∨ ¬ Branches other) →
    Agree late before line more other (outcome parser stop (before ++ line :: more))
      (outcome parser last (before ++ other))
  -- A line with `else` tells whether a choice is open as well.
  completes : ∀ {line word stop : Token P}, Seam late line [word] stop → word.kind = .elseWord →
    Beyond late [word] (outcome parser stop (before ++ [line, word])) →
    ∃ kinds, kinds ⊆ fillers ∧ Completes next before kinds parser
  -- Only lines with another branch are read where the tokens alone do not wait for more.
  waits : ∀ {line stop last : Token P} {more : List (Token P)} {kind : Kind}, Seam late line more stop →
    ¬ Branches more → Beyond late more (outcome parser stop (before ++ line :: more)) →
    last.kind = .endOfText → kind ∈ next → Waits kind (outcome parser last before)

theorem nextKind_append {tokens : List (Token P)} {kinds next : List Kind} (same : tokens.map Token.kind = kinds)
    (follows : nextKind rest ∈ next) : nextKind (tokens ++ rest) ∈ heads kinds next := by
  subst same
  cases tokens with
  | nil => exact follows
  | cons token others => exact List.mem_singleton.2 rfl

theorem Ends.bind {parser : Parser P α} {next : α → Parser P β} {first second middle last : List Kind}
    (one : Ends middle first parser) (two : ∀ value, Ends last second (next value))
    (follows : heads second last ⊆ middle) : Ends last (first ++ second) (parser >>= next) := by
  intro tokens rest stop ended same behind
  obtain ⟨front, back, rfl, kinds, others⟩ := List.map_eq_append_iff.1 same
  rw [List.append_assoc]
  obtain ⟨value, reads⟩ := one front (back ++ rest) stop ended kinds (follows (nextKind_append others behind))
  obtain ⟨result, done⟩ := two value back rest stop ended others behind
  exact ⟨result, (outcome_bind_of_ok next reads).trans done⟩

theorem Completes.bind {parser : Parser P α} {next : α → Parser P β} {first second middle last : List Kind}
    (one : Completes middle before first parser) (two : ∀ value, Ends last second (next value))
    (follows : heads second last ⊆ middle) : Completes last before (first ++ second) (parser >>= next) := by
  intro line stop tokens rest newline ended same behind
  obtain ⟨front, back, rfl, kinds, others⟩ := List.map_eq_append_iff.1 same
  rw [List.append_assoc]
  obtain ⟨value, reads⟩ :=
    one line stop front (back ++ rest) newline ended kinds (follows (nextKind_append others behind))
  obtain ⟨result, done⟩ := two value back rest stop ended others behind
  exact ⟨result, (outcome_bind_of_ok next reads).trans done⟩

theorem ends_pure (value : α) (next : List Kind) : Ends next [] (pure value : Parser P α) := by
  intro tokens rest stop ended same behind
  cases List.map_eq_nil_iff.1 same
  exact ⟨value, rfl⟩

theorem ends_expect (kind : Kind) (help : Option String) (next : List Kind) :
    Ends next [kind] (expect kind help : Parser P (Token P)) := by
  intro tokens rest stop ended same behind
  obtain ⟨token, single, kinds⟩ := List.map_eq_singleton_iff.1 same
  subst single
  exact ⟨token, outcome_expect_cons ended kinds help⟩

theorem waits_bind {parser : Parser P α} {next : α → Parser P β} {middle last kinds : List Kind} {kind : Kind}
    (waits : ∀ {kind}, kind ∈ middle → Waits kind (outcome parser stop before)) (fills : kinds ⊆ fillers)
    (ends : ∀ value, Ends last kinds (next value)) (follows : heads kinds last ⊆ middle) (expected : kind ∈ last)
    (ended : stop.kind = .endOfText) : Waits kind (outcome (parser >>= next) stop before) := by
  -- What follows the first parser is a filler, or it is what follows the second, which takes nothing.
  obtain ⟨first, member, which⟩ : ∃ first ∈ middle, first = kind ∧ kinds = [] ∨ first ∈ fillers := by
    cases kinds with
    | nil => exact ⟨kind, follows expected, .inl ⟨rfl, rfl⟩⟩
    | cons first others => exact ⟨first, follows (List.mem_singleton.2 rfl), .inr (fills List.mem_cons_self)⟩
  have alone := waits member
  cases one : outcome parser stop before with
  | error fault =>
    rw [one] at alone
    rw [outcome_bind_of_error next one]
    exact alone
  | ok pair =>
    obtain ⟨value, rest⟩ := pair
    rw [one] at alone
    obtain ⟨rfl, rfl⟩ := alone
    rcases which with ⟨rfl, rfl⟩ | filler
    · obtain ⟨result, reads⟩ := ends value [] [] stop ended rfl expected
      rw [outcome_bind_of_ok next one]
      exact reads ▸ ⟨rfl, rfl⟩
    · exact absurd filler (by decide)

theorem Ends.map {parser : Parser P α} {kinds next : List Kind} (ends : Ends next kinds parser) (f : α → β) :
    Ends next kinds (parser >>= fun value => pure (f value)) := by
  have done : Ends next (kinds ++ []) (parser >>= fun value => pure (f value)) :=
    ends.bind (fun value => ends_pure (f value) next) (List.Subset.refl next)
  rwa [List.append_nil] at done

theorem resumes_read {parser : Parser P α} {next : List Kind} {left : List (Token P)} (value : α)
    (suffix : left <:+ before)
    (reads : ∀ {stop ahead}, stop.kind = .endOfText → Broken ahead →
      outcome parser stop (before ++ ahead) = .ok (value, left ++ ahead)) : Resumes late next before parser where
  agrees := by
    intro line stop last more other seam ended broken branches
    rw [reads seam.ended seam.broken, reads ended broken]
    exact .read suffix
  completes := by
    intro line word stop seam kind past
    rw [reads seam.ended seam.broken] at past
    exact absurd past (not_beyond_read value)
  waits := by
    intro line stop last more kind seam unbranched past ended expected
    rw [reads seam.ended seam.broken] at past
    exact absurd past (not_beyond_read value)

theorem resumes_refused {parser : Parser P α} {next : List Kind} (early : Early late before)
    (refused : ∀ {stop ahead}, stop.kind = .endOfText → Broken ahead → ∃ fault : Fault P,
      outcome parser stop (before ++ ahead) = .error fault ∧
        fault.span = ((before ++ ahead).headD stop).span ∧ fault.isContinuable = false) :
    Resumes late next before parser := by
  have first : ∀ {line stop : Token P} {more : List (Token P)}, Seam late line more stop →
      ∃ fault : Fault P, outcome parser stop (before ++ line :: more) = .error fault ∧
        ¬ late fault.span.start := by
    intro line stop more seam
    obtain ⟨fault, fails, span, _⟩ := refused seam.ended seam.broken
    refine ⟨fault, fails, ?_⟩
    rw [span]
    cases before with
    | nil => exact seam.early
    | cons token others => exact (early token (by simp)).2
  have stays : ∀ {line stop : Token P} {more : List (Token P)}, Seam late line more stop →
      ¬ Beyond late more (outcome parser stop (before ++ line :: more)) := by
    intro line stop more seam
    obtain ⟨fault, fails, front⟩ := first seam
    rw [fails]
    exact front
  constructor
  · intro line stop last more other seam ended broken branches
    obtain ⟨fault, fails, front⟩ := first seam
    obtain ⟨fault', fails', _, closed⟩ := refused ended broken
    rw [fails, fails']
    exact .refused front closed
  · exact fun seam _ past => absurd past (stays seam)
  · exact fun seam _ past => absurd past (stays seam)

theorem resumes_past {parser : Parser P α} {next kinds : List Kind} (fills : kinds ⊆ fillers)
    (past : ∀ {line stop more}, Seam late line more stop →
      Beyond late more (outcome parser stop (before ++ line :: more)))
    (completes : Completes next before kinds parser)
    (waits : ∀ {last : Token P} {kind : Kind}, last.kind = .endOfText → kind ∈ next →
      Waits kind (outcome parser last before)) : Resumes late next before parser where
  agrees := fun seam _ _ _ => .beyond (past seam)
  completes := fun _ _ _ => ⟨kinds, fills, completes⟩
  waits := fun _ _ _ => waits

theorem Resumes.of_eq {parser other : Parser P α} {next : List Kind} {inner : List (Token P)}
    (resumes : Resumes late next inner other) (suffix : inner <:+ before)
    (same : ∀ {stop ahead}, stop.kind = .endOfText → Broken ahead →
      outcome parser stop (before ++ ahead) = outcome other stop (inner ++ ahead)) :
    Resumes late next before parser where
  agrees := by
    intro line stop last more other seam ended broken branches
    rw [same seam.ended seam.broken, same ended broken]
    exact (resumes.agrees seam ended broken branches).longer suffix
  completes := by
    intro line word stop seam kind past
    rw [same seam.ended seam.broken] at past
    obtain ⟨kinds, fills, completes⟩ := resumes.completes seam kind past
    refine ⟨kinds, fills, ?_⟩
    intro line stop tokens rest newline ended kinds behind
    rw [same ended (by simp [Broken, nextKind, newline])]
    exact completes line stop tokens rest newline ended kinds behind
  waits := by
    intro line stop last more kind seam unbranched past ended expected
    rw [same seam.ended seam.broken] at past
    have alone := same ended broken_nil
    rw [List.append_nil, List.append_nil] at alone
    rw [alone]
    exact resumes.waits seam unbranched past ended expected

theorem Agree.bind {parser : Parser P α} {next : α → Parser P β} {final : Token P} {other : List (Token P)}
    (agree : Agree late before line more other (outcome parser stop (before ++ line :: more))
      (outcome parser final (before ++ other)))
    (seam : Seam late line more stop) (tidy : Tidy parser) (others : ∀ value, Tidy (next value))
    (second : ∀ value left, left <:+ before →
      outcome parser stop (before ++ line :: more) = .ok (value, left ++ line :: more) →
      Agree late left line more other (outcome (next value) stop (left ++ line :: more))
        (outcome (next value) final (left ++ other))) :
    Agree late before line more other (outcome (parser >>= next) stop (before ++ line :: more))
      (outcome (parser >>= next) final (before ++ other)) := by
  cases one : outcome parser stop (before ++ line :: more) with
  | error fault =>
    rw [outcome_bind_of_error next one]
    rw [one] at agree
    generalize two : outcome parser final (before ++ other) = target at agree
    cases agree with
    | beyond past => exact .beyond past
    | refused early closed =>
      rw [outcome_bind_of_error next two]
      exact .refused early closed
  | ok pair =>
    obtain ⟨value, rest⟩ := pair
    rw [outcome_bind_of_ok next one]
    rw [one] at agree
    generalize two : outcome parser final (before ++ other) = target at agree
    cases agree with
    | beyond past =>
      -- What is left now lies behind the newline, and so does all that follows.
      have behind : rest <:+ more := by
        have shorter := tidy.suffix one
        have longer : more <:+ before ++ line :: more :=
          (List.suffix_cons line more).trans (List.suffix_append before _)
        exact List.suffix_of_suffix_length_le shorter longer past
      exact .beyond (seam.beyond (others value) behind)
    | @read _ left suffix =>
      rw [outcome_bind_of_ok next two]
      exact (second value left suffix one).longer suffix

theorem Resumes.bind {parser : Parser P α} {next : α → Parser P β} {middle last : List Kind}
    (first : Resumes late middle before parser) (tidy : Tidy parser) (others : ∀ value, Tidy (next value))
    (finish : ∃ kinds, kinds ⊆ fillers ∧ heads kinds last ⊆ middle ∧ ∀ value, Ends last kinds (next value))
    (second : ∀ value left, left <:+ before →
      (∃ stop ahead, stop.kind = .endOfText ∧ outcome parser stop (before ++ ahead) = .ok (value, left ++ ahead)) →
      Resumes late last left (next value)) :
    Resumes late last before (parser >>= next) where
  agrees := by
    intro line stop final more other seam ended broken branches
    apply (first.agrees seam ended broken branches).bind seam tidy others
    intro value left suffix reads
    exact (second value left suffix ⟨stop, _, seam.ended, reads⟩).agrees seam ended broken branches
  completes := by
    intro line word stop seam kind past
    have branches := branches_else kind
    obtain ⟨others, fills, follows, ends⟩ := finish
    -- What the first parser does in front of the newline, it does with every line behind it.
    have same : ∀ {last : Token P} {other : List (Token P)}, last.kind = .endOfText → Broken other →
        Agree late before line [word] other (outcome parser stop (before ++ [line, word]))
          (outcome parser last (before ++ other)) :=
      fun ended broken => first.agrees seam ended broken (.inl branches)
    by_cases early : Beyond late [word] (outcome parser stop (before ++ [line, word]))
    · obtain ⟨kinds, fills', completes⟩ := first.completes seam kind early
      exact ⟨kinds ++ others, List.append_subset.2 ⟨fills', fills⟩, completes.bind ends follows⟩
    cases one : outcome parser stop (before ++ [line, word]) with
    | error fault =>
      rw [outcome_bind_of_error next one] at past
      rw [one] at early
      exact absurd past early
    | ok pair =>
      obtain ⟨value, rest⟩ := pair
      rw [outcome_bind_of_ok next one] at past
      rw [one] at early same
      obtain ⟨left, rfl⟩ := (same seam.ended seam.broken).front early
      have suffix := (same seam.ended seam.broken).kept.1
      obtain ⟨kinds, fills', completes⟩ :=
        (second value left suffix ⟨stop, _, seam.ended, one⟩).completes seam kind past
      refine ⟨kinds, fills', ?_⟩
      intro line' last tokens behind newline ended kinds' follows'
      have broken : Broken (line' :: (tokens ++ behind)) := by simp [Broken, nextKind, newline]
      rw [outcome_bind_of_ok next (same ended broken).kept.2]
      exact completes line' last tokens behind newline ended kinds' follows'
  waits := by
    intro line stop final more kind seam unbranched past ended expected
    obtain ⟨others, fills, follows, ends⟩ := finish
    by_cases early : Beyond late more (outcome parser stop (before ++ line :: more))
    · exact waits_bind (first.waits seam unbranched early ended) fills ends follows expected ended
    have agree := first.agrees seam ended broken_nil (.inr not_branches_nil)
    rw [List.append_nil] at agree
    cases one : outcome parser stop (before ++ line :: more) with
    | error fault =>
      rw [outcome_bind_of_error next one] at past
      rw [one] at early
      exact absurd past early
    | ok pair =>
      obtain ⟨value, rest⟩ := pair
      rw [outcome_bind_of_ok next one] at past
      rw [one] at early agree
      obtain ⟨left, rfl⟩ := agree.front early
      obtain ⟨suffix, alone⟩ := agree.kept
      rw [List.append_nil] at alone
      rw [outcome_bind_of_ok next alone]
      exact (second value left suffix ⟨stop, _, seam.ended, one⟩).waits seam unbranched past ended expected

end Reckon.Grammar
