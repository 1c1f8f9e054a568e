import Reckon.Proofs.Cursor.Machine

set_option autoImplicit false

/-!
# The cursor follows the list

In front of the first end of the text, an index stands for the list of the tokens from there on. A
machine follows a parser from an index on when it ends as the parser does, with the index of what the
parser leaves and on the level that it began on.
-/

namespace Reckon.Cursor

open Reckon.Parser Reckon.Grammar

variable {P α β : Type} {input : Input P} {state later : State}

theorem run_bind_of_ok {machine : Machine P α} {value : α} (next : α → Machine P β)
    (ends : run machine input state = .ok (.ok value, later)) :
    run (machine >>= next) input state = run (next value) input later := by
  change (run machine input state >>= fun ended =>
    ExceptT.bindCont (fun value => (next value) input) ended.1 ended.2) = _
  rw [ends]
  rfl

theorem run_bind_of_fault {machine : Machine P α} {fault : Fault P} (next : α → Machine P β)
    (ends : run machine input state = .ok (.error fault, later)) :
    run (machine >>= next) input state = .ok (.error fault, later) := by
  change (run machine input state >>= fun ended =>
    ExceptT.bindCont (fun value => (next value) input) ended.1 ended.2) = _
  rw [ends]
  rfl

theorem run_tokenAt {index : Nat} {token : Token P} (state : State) (there : input.tokens[index]? = some token) :
    run (tokenAt index) input state = .ok (.ok token, state) := by
  have reads : run (read : Machine P (Input P)) input state = .ok (.ok input, state) := rfl
  refine (run_bind_of_ok _ reads).trans ?_
  dsimp only
  rw [there]
  rfl

theorem run_setDepth (state : State) {level : Nat} (fits : level ≤ input.limit) :
    run (setDepth level : Machine P Unit) input state = .ok (.ok (), { state with depth := level }) := by
  have chosen : run (setDepth level : Machine P Unit) input state =
      run (if level ≤ input.limit then modify fun state => { state with depth := level }
        else crash (.overflow level input.limit)) input state := rfl
  rw [chosen, if_pos fits]
  rfl

theorem run_caught {machine : Machine P α} {result : Except (Fault P) α}
    (ends : run machine input state = .ok (result, later)) :
    run (caught machine) input state = .ok (.ok result, later) := by
  change (run machine input state >>= fun ended => Except.ok (Except.ok ended.1, ended.2)) = _
  rw [ends]
  rfl

variable [Inhabited P] {tokens rest : List (Token P)} {token : Token P} {limit depth current : Nat}

def aheadAt (tokens : List (Token P)) (index : Nat) : List (Token P) := (beforeEnd tokens).drop index

omit [Inhabited P] in
theorem aheadAt_cons (split : aheadAt tokens current = token :: rest) :
    aheadAt tokens (current + 1) = rest ∧ current + 1 ≤ (beforeEnd tokens).length := by
  unfold aheadAt at split ⊢
  have inside : current < (beforeEnd tokens).length := by
    by_contra beyond
    rw [List.drop_eq_nil_of_le (by omega)] at split
    cases split
  refine ⟨?_, inside⟩
  rw [← List.tail_drop, split]
  rfl

theorem getElem?_closed (inside : current ≤ (beforeEnd tokens).length) :
    (closed tokens)[current]? = some ((aheadAt tokens current).headD (endToken tokens)) := by
  have split : beforeEnd tokens = (beforeEnd tokens).take current ++ aheadAt tokens current :=
    (List.take_append_drop current _).symm
  have there := getElem?_ahead split
  rw [List.length_take, Nat.min_eq_left inside] at there
  unfold closed
  split
  next last =>
    -- The last token ends the text, so the first end stands no later.
    obtain ⟨final, found, ended⟩ := (Option.any_eq_true _ _).1 last
    have shorter : (beforeEnd tokens).length < tokens.length := by
      have start : beforeEnd tokens <+: tokens := List.takeWhile_prefix _
      refine Nat.lt_of_le_of_ne start.length_le fun same => ?_
      have member := List.mem_of_getLast? found
      rw [← start.eq_of_length same] at member
      exact text_of_beforeEnd member (by simpa using ended)
    rwa [List.getElem?_append_left (by omega)] at there
  next => exact there

/-- The machine from the state ends as the parser does, and on the same level. -/
inductive Matches (tokens : List (Token P)) (depth current : Nat) :
    Except Crash (Except (Fault P) α × State) → Except (Fault P) (α × List (Token P)) → Prop where
  | reads {value : α} {next : Nat} (front : current ≤ next) (inside : next ≤ (beforeEnd tokens).length) :
    Matches tokens depth current (.ok (.ok value, ⟨next, depth⟩)) (.ok (value, aheadAt tokens next))
  | fails {fault : Fault P} {next : Nat} (front : current ≤ next) (inside : next ≤ (beforeEnd tokens).length) :
    Matches tokens depth current (.ok (.error fault, ⟨next, depth⟩)) (.error fault)

omit [Inhabited P] in
theorem Matches.earlier {next : Nat} {ended : Except Crash (Except (Fault P) α × State)}
    {read : Except (Fault P) (α × List (Token P))} (found : Matches tokens depth next ended read) (front : current ≤ next) :
    Matches tokens depth current ended read := by
  cases found with
  | reads front' inside => exact .reads (front.trans front') inside
  | fails front' inside => exact .fails (front.trans front') inside

def Follows (tokens : List (Token P)) (limit depth current : Nat) (machine : Machine P α) (parser : Parser P α) : Prop :=
  Matches tokens depth current (run machine ⟨closed tokens, limit⟩ ⟨current, depth⟩)
    (outcome parser (endToken tokens) (aheadAt tokens current))

variable {machine : Machine P α} {parser : Parser P α}

theorem follows_pure (value : α) (inside : current ≤ (beforeEnd tokens).length) :
    Follows tokens limit depth current (pure value) (pure value) :=
  .reads (Nat.le_refl _) inside

theorem Follows.of_eq {next : Nat} {machine' : Machine P α} {parser' : Parser P α}
    (follows : Follows tokens limit depth next machine' parser') (front : current ≤ next)
    (runs : run machine ⟨closed tokens, limit⟩ ⟨current, depth⟩ = run machine' ⟨closed tokens, limit⟩ ⟨next, depth⟩)
    (reads : outcome parser (endToken tokens) (aheadAt tokens current) =
      outcome parser' (endToken tokens) (aheadAt tokens next)) : Follows tokens limit depth current machine parser := by
  unfold Follows
  rw [runs, reads]
  exact follows.earlier front

theorem Follows.bind {step : α → Machine P β} {further : α → Parser P β}
    (first : Follows tokens limit depth current machine parser)
    (second : ∀ value next, current ≤ next → next ≤ (beforeEnd tokens).length →
      outcome parser (endToken tokens) (aheadAt tokens current) = .ok (value, aheadAt tokens next) →
      Follows tokens limit depth next (step value) (further value)) :
    Follows tokens limit depth current (machine >>= step) (parser >>= further) := by
  unfold Follows at first
  generalize ends : run machine ⟨closed tokens, limit⟩ ⟨current, depth⟩ = ended at first
  generalize read : outcome parser (endToken tokens) (aheadAt tokens current) = result at first
  cases first with
  | @reads value next front inside =>
    exact (second value next front inside read).of_eq front (run_bind_of_ok step ends) (outcome_bind_of_ok further read)
  | @fails fault next front inside =>
    unfold Follows
    rw [run_bind_of_fault step ends, outcome_bind_of_error further read]
    exact .fails front inside

theorem Follows.map (follows : Follows tokens limit depth current machine parser) (f : α → β) :
    Follows tokens limit depth current (machine >>= fun value => pure (f value))
      (parser >>= fun value => pure (f value)) :=
  follows.bind fun value _ _ inside _ => follows_pure (f value) inside

theorem run_peek (inside : current ≤ (beforeEnd tokens).length) :
    run peek ⟨closed tokens, limit⟩ ⟨current, depth⟩ =
      .ok (.ok ((aheadAt tokens current).headD (endToken tokens)), ⟨current, depth⟩) :=
  run_tokenAt ⟨current, depth⟩ (getElem?_closed inside)

theorem follows_peek_bind {step : Token P → Machine P α} {further : Token P → Parser P α}
    (inside : current ≤ (beforeEnd tokens).length)
    (next : Follows tokens limit depth current (step ((aheadAt tokens current).headD (endToken tokens)))
      (further ((aheadAt tokens current).headD (endToken tokens)))) :
    Follows tokens limit depth current (peek >>= step) (Parser.peek >>= further) :=
  next.of_eq (Nat.le_refl _) (run_bind_of_ok step (run_peek inside)) (outcome_peek_bind further)

theorem run_previous (split : aheadAt tokens current = token :: rest) :
    run previous ⟨closed tokens, limit⟩ ⟨current + 1, depth⟩ = .ok (.ok token, ⟨current + 1, depth⟩) := by
  have inside := (aheadAt_cons split).2
  have there : (closed tokens)[current]? = _ := getElem?_closed (by omega)
  rw [split] at there
  exact run_tokenAt ⟨current + 1, depth⟩ there

omit [Inhabited P] in
theorem text_of_aheadAt (split : aheadAt tokens current = token :: rest) : token.kind ≠ .endOfText :=
  text_of_beforeEnd ((List.drop_suffix current _).subset (split ▸ List.mem_cons_self : token ∈ aheadAt tokens current))

theorem run_advance (split : aheadAt tokens current = token :: rest) :
    run advance ⟨closed tokens, limit⟩ ⟨current, depth⟩ = .ok (.ok token, ⟨current + 1, depth⟩) := by
  have inside := (aheadAt_cons split).2
  refine (run_bind_of_ok _ (run_peek (by omega))).trans ?_
  rw [split, List.headD_cons]
  have text := text_of_aheadAt split
  simp only [ne_eq, text, not_false_eq_true, if_true]
  exact run_previous split

theorem follows_advance_bind {step : Token P → Machine P α} {further : Token P → Parser P α}
    (split : aheadAt tokens current = token :: rest)
    (next : Follows tokens limit depth (current + 1) (step token) (further token)) :
    Follows tokens limit depth current (advance >>= step) (take >>= further) := by
  refine next.of_eq (Nat.le_succ _) (run_bind_of_ok step (run_advance split)) ?_
  rw [outcome_take_bind, split, (aheadAt_cons split).1]
  rfl

theorem run_refuse (inside : current ≤ (beforeEnd tokens).length) (cause : Cause) (help : Option String) :
    run (refuse cause help : Machine P α) ⟨closed tokens, limit⟩ ⟨current, depth⟩ =
      .ok (.error ⟨cause, ((aheadAt tokens current).headD (endToken tokens)).span, help⟩, ⟨current, depth⟩) :=
  run_bind_of_ok _ (run_peek inside)

theorem run_unexpected (inside : current ≤ (beforeEnd tokens).length) (expected : List Kind) (help : Option String) :
    run (unexpected expected help : Machine P α) ⟨closed tokens, limit⟩ ⟨current, depth⟩ =
      .ok (.error ⟨surprise (endToken tokens) expected (aheadAt tokens current),
        ((aheadAt tokens current).headD (endToken tokens)).span, help⟩, ⟨current, depth⟩) := by
  refine (run_bind_of_ok _ (run_peek inside)).trans ?_
  unfold surprise
  rw [kind_headD (kind_endToken tokens)]
  split
  · exact run_refuse inside _ _
  · exact run_refuse inside _ _

theorem follows_unexpected (inside : current ≤ (beforeEnd tokens).length) (expected : List Kind) (help : Option String) :
    Follows tokens limit depth current (unexpected expected help : Machine P α) (Parser.unexpected expected help) := by
  unfold Follows
  rw [run_unexpected inside, outcome_unexpected (kind_endToken tokens)]
  exact .fails (Nat.le_refl _) inside

theorem follows_expect {kind : Kind} (text : kind ≠ .endOfText) (help : Option String)
    (inside : current ≤ (beforeEnd tokens).length) :
    Follows tokens limit depth current (expect kind help) (Parser.expect kind help) := by
  refine follows_peek_bind inside ?_
  split
  next same =>
    rw [kind_headD (kind_endToken tokens)] at same
    obtain ⟨token, rest, split, _⟩ := exists_cons_of_nextKind same text
    unfold Follows
    rw [run_advance split, outcome_take, split, List.headD_cons, List.tail_cons, ← (aheadAt_cons split).1]
    exact .reads (Nat.le_succ _) (aheadAt_cons split).2
  next => exact follows_unexpected inside _ _

theorem run_accept_some {kinds : List Kind} (split : aheadAt tokens current = token :: rest) (member : token.kind ∈ kinds) :
    run (accept kinds) ⟨closed tokens, limit⟩ ⟨current, depth⟩ = .ok (.ok true, ⟨current + 1, depth⟩) := by
  have inside := (aheadAt_cons split).2
  induction kinds with
  | nil => cases member
  | cons kind kinds ih =>
    refine (run_bind_of_ok _ (run_peek (by omega))).trans ?_
    rw [split, List.headD_cons]
    by_cases same : token.kind = kind
    · rw [if_pos same]
      exact run_bind_of_ok _ (run_advance split)
    · rw [if_neg same]
      exact ih ((List.mem_cons.1 member).resolve_left same)

theorem run_accept_none {kinds : List Kind} (inside : current ≤ (beforeEnd tokens).length)
    (apart : nextKind (aheadAt tokens current) ∉ kinds) :
    run (accept kinds) ⟨closed tokens, limit⟩ ⟨current, depth⟩ = .ok (.ok false, ⟨current, depth⟩) := by
  induction kinds with
  | nil => rfl
  | cons kind kinds ih =>
    obtain ⟨differs, others⟩ := not_or.1 (mt List.mem_cons.2 apart)
    refine (run_bind_of_ok _ (run_peek inside)).trans ?_
    rw [kind_headD (kind_endToken tokens), if_neg differs]
    exact ih others

theorem run_skip (limit depth : Nat) {kinds : List Kind} (text : .endOfText ∉ kinds) {rounds : Nat}
    (inside : current ≤ (beforeEnd tokens).length) (enough : (beforeEnd tokens).length - current < rounds) :
    ∃ next, run (skip kinds rounds) ⟨closed tokens, limit⟩ ⟨current, depth⟩ = .ok (.ok (), ⟨next, depth⟩) ∧
      current ≤ next ∧ next ≤ (beforeEnd tokens).length ∧
      aheadAt tokens next = (aheadAt tokens current).dropWhile fun token => kinds.contains token.kind := by
  induction rounds generalizing current with
  | zero => omega
  | succ rounds ih =>
    by_cases goes : nextKind (aheadAt tokens current) ∈ kinds
    · obtain ⟨token, rest, split, kind⟩ := exists_cons_of_nextKind rfl fun ended => text (ended ▸ goes)
      obtain ⟨behind, inside'⟩ := aheadAt_cons split
      have member : token.kind ∈ kinds := kind ▸ goes
      obtain ⟨next, runs, front, last, past⟩ := ih inside' (by omega)
      refine ⟨next, (run_bind_of_ok _ (run_accept_some split member)).trans runs, by omega, last, ?_⟩
      rw [past, behind, split, List.dropWhile_cons_of_pos (by simpa using member)]
    · refine ⟨current, run_bind_of_ok _ (run_accept_none inside goes), Nat.le_refl _, inside, ?_⟩
      cases split : aheadAt tokens current with
      | nil => rfl
      | cons token rest =>
        rw [split] at goes
        exact (List.dropWhile_cons_of_neg (by simpa [nextKind] using goes)).symm

theorem follows_skip_bind {kinds : List Kind} {rounds : Nat} {step : Unit → Machine P α} {further : Unit → Parser P α}
    (text : .endOfText ∉ kinds) (inside : current ≤ (beforeEnd tokens).length)
    (enough : (beforeEnd tokens).length - current < rounds)
    (second : ∀ {next}, next ≤ (beforeEnd tokens).length →
      Follows tokens limit depth next (step ()) (further ())) :
    Follows tokens limit depth current (skip kinds rounds >>= step) (Parser.skip kinds >>= further) := by
  obtain ⟨next, skipped, front, last, past⟩ := run_skip limit depth text inside enough
  refine (second last).of_eq front (run_bind_of_ok step skipped) ?_
  rw [outcome_skip_bind, past]

theorem run_newlinesEnd (limit : Nat) (state : State) {rounds start : Nat} (inside : start ≤ (beforeEnd tokens).length)
    (enough : (beforeEnd tokens).length - start < rounds) :
    ∃ index, run (newlinesEnd rounds start) ⟨closed tokens, limit⟩ state = .ok (.ok index, state) ∧
      start ≤ index ∧ index ≤ (beforeEnd tokens).length ∧
      aheadAt tokens index = pastNewlines (aheadAt tokens start) := by
  induction rounds generalizing start with
  | zero => omega
  | succ rounds ih =>
    have reads : run (newlinesEnd (rounds + 1) start) ⟨closed tokens, limit⟩ state =
        run (if ((aheadAt tokens start).headD (endToken tokens)).kind = .newline then newlinesEnd rounds (start + 1)
          else pure start) ⟨closed tokens, limit⟩ state :=
      run_bind_of_ok _ (run_tokenAt state (getElem?_closed inside))
    rw [reads, kind_headD (kind_endToken tokens)]
    by_cases line : nextKind (aheadAt tokens start) = .newline
    · obtain ⟨token, rest, split, kind⟩ := exists_cons_of_nextKind line (by decide)
      obtain ⟨behind, inside'⟩ := aheadAt_cons split
      obtain ⟨index, runs, front, last, past⟩ := ih inside' (by omega)
      rw [if_pos line]
      refine ⟨index, runs, by omega, last, ?_⟩
      rw [past, behind, split, pastNewlines_line kind]
    · rw [if_neg line]
      refine ⟨start, rfl, Nat.le_refl _, inside, ?_⟩
      cases split : aheadAt tokens start with
      | nil => rfl
      | cons token rest =>
        rw [split] at line
        exact (pastNewlines_cons line).symm

theorem run_acceptPastNewlines_some (limit depth : Nat) {rounds : Nat} {kind : Kind} (inside : current ≤ (beforeEnd tokens).length)
    (enough : (beforeEnd tokens).length - current < rounds)
    (behind : pastNewlines (aheadAt tokens current) = token :: rest) (same : token.kind = kind) :
    ∃ next, run (acceptPastNewlines rounds kind) ⟨closed tokens, limit⟩ ⟨current, depth⟩ =
        .ok (.ok true, ⟨next + 1, depth⟩) ∧ current ≤ next ∧ aheadAt tokens next = token :: rest := by
  obtain ⟨index, runs, front, last, past⟩ :=
    run_newlinesEnd limit ⟨current, depth⟩ inside enough
  refine ⟨index, ?_, front, past.trans behind⟩
  have start : run (acceptPastNewlines rounds kind) ⟨closed tokens, limit⟩ ⟨current, depth⟩ = _ :=
    (run_bind_of_ok _ runs).trans (run_bind_of_ok _ (run_tokenAt _ (getElem?_closed last)))
  rw [start, past, behind, List.headD_cons, if_pos same]
  rfl

theorem run_acceptPastNewlines_none (limit depth : Nat) {rounds : Nat} {kind : Kind} (inside : current ≤ (beforeEnd tokens).length)
    (enough : (beforeEnd tokens).length - current < rounds)
    (differs : nextKind (pastNewlines (aheadAt tokens current)) ≠ kind) :
    run (acceptPastNewlines rounds kind) ⟨closed tokens, limit⟩ ⟨current, depth⟩ =
      .ok (.ok false, ⟨current, depth⟩) := by
  obtain ⟨index, runs, front, last, past⟩ :=
    run_newlinesEnd limit ⟨current, depth⟩ inside enough
  have start : run (acceptPastNewlines rounds kind) ⟨closed tokens, limit⟩ ⟨current, depth⟩ = _ :=
    (run_bind_of_ok _ runs).trans (run_bind_of_ok _ (run_tokenAt _ (getElem?_closed last)))
  rw [start, past, kind_headD (kind_endToken tokens), if_neg differs]
  rfl

omit [Inhabited P] in
theorem run_enter (room : depth < limit) {all : List (Token P)} :
    run (enter : Machine P Unit) ⟨all, limit⟩ ⟨current, depth⟩ = .ok (.ok (), ⟨current, depth + 1⟩) := by
  have chosen : run (enter : Machine P Unit) ⟨all, limit⟩ ⟨current, depth⟩ =
      run (if limit ≤ depth then refuse (.tooDeep limit) (some "Split the expression into smaller statements with 'let'.")
        else setDepth (depth + 1)) ⟨all, limit⟩ ⟨current, depth⟩ := rfl
  rw [chosen, if_neg (by omega)]
  exact run_setDepth _ room

omit [Inhabited P] in
theorem run_leave (room : depth < limit) {all : List (Token P)} :
    run (leave : Machine P Unit) ⟨all, limit⟩ ⟨current, depth + 1⟩ = .ok (.ok (), ⟨current, depth⟩) :=
  run_setDepth ⟨current, depth + 1⟩ (Nat.le_of_lt room : depth ≤ (Input.mk all limit).limit)

omit [Inhabited P] in
theorem run_within {result : Except (Fault P) α} {next : Nat} (room : depth < limit) {all : List (Token P)}
    (ends : run machine ⟨all, limit⟩ ⟨current, depth + 1⟩ = .ok (result, ⟨next, depth + 1⟩)) :
    run (within machine) ⟨all, limit⟩ ⟨current, depth⟩ = .ok (result, ⟨next, depth⟩) := by
  refine (run_bind_of_ok _ (run_enter room)).trans ?_
  refine (run_bind_of_ok _ (run_caught ends)).trans ?_
  refine (run_bind_of_ok _ (run_leave room)).trans ?_
  cases result <;> rfl

theorem follows_within (room : depth < limit) (follows : Follows tokens limit (depth + 1) current machine parser) :
    Follows tokens limit depth current (within machine) parser := by
  unfold Follows at follows ⊢
  generalize ends : run machine ⟨closed tokens, limit⟩ ⟨current, depth + 1⟩ = ended at follows
  generalize outcome parser (endToken tokens) (aheadAt tokens current) = read at follows
  cases follows with
  | reads front inside =>
    rw [run_within room ends]
    exact .reads front inside
  | fails front inside =>
    rw [run_within room ends]
    exact .fails front inside

theorem follows_full (inside : current ≤ (beforeEnd tokens).length) :
    Follows tokens limit limit current (within machine)
      (Parser.refuse (.tooDeep limit) (some "Split the expression into smaller statements with 'let'.")) := by
  have full : run (enter : Machine P Unit) ⟨closed tokens, limit⟩ ⟨current, limit⟩ =
      run (if limit ≤ limit then refuse (.tooDeep limit) (some "Split the expression into smaller statements with 'let'.")
        else setDepth (limit + 1)) ⟨closed tokens, limit⟩ ⟨current, limit⟩ := rfl
  rw [if_pos (Nat.le_refl limit), run_refuse inside] at full
  unfold Follows
  rw [outcome_refuse]
  have ends : run (within machine) ⟨closed tokens, limit⟩ ⟨current, limit⟩ = _ := run_bind_of_fault _ full
  rw [ends]
  exact .fails (Nat.le_refl _) inside

end Reckon.Cursor
