import Reckon.Proofs.Alike
import Reckon.Proofs.Grammar.Truthful

set_option autoImplicit false

/-!
# Expectations are truthful

A fault that names kinds stands at a token. The tokens in front of it begin a program, and each kind
that is named can be had next.
-/

namespace Reckon

open Reckon.Parser Reckon.Grammar

variable {P Q : Type}

theorem surprise_expected {stop : Token P} {expected expected' : List Kind} {rest : List (Token P)}
    (names : surprise stop expected' rest = .unexpectedEnd expected ∨
      ∃ found, surprise stop expected' rest = .unexpectedToken found expected) : expected' = expected := by
  unfold surprise at names
  rcases names with same | ⟨found, same⟩ <;> split at same <;> cases same <;> rfl

theorem exists_behind {kind : Kind} {kinds : List Kind} (plain : Plain kinds) (starts : heads kinds [.endOfText] ⊆ [kind]) :
    ∃ behind, kinds = if kind = .endOfText then [] else kind :: behind := by
  have start : ∀ {other}, other ∈ heads kinds [.endOfText] → other = kind := fun member =>
    List.mem_singleton.1 (starts member)
  cases kinds with
  | nil => exact ⟨[], by rw [if_pos (start (List.mem_singleton.2 rfl)).symm]⟩
  | cons first behind =>
    obtain rfl : first = kind := start (List.mem_singleton.2 rfl)
    have text : first ≠ .endOfText := fun ended => plain first List.mem_cons_self (by simp [ended])
    exact ⟨behind, by rw [if_neg text]⟩

def numbered (tokens : List (Token P)) : List (Token (Nat × P)) :=
  tokens.mapIdx fun index token =>
    ⟨token.kind, token.payload, ⟨(index, token.span.start), (index + 1, token.span.stop)⟩⟩

theorem numbered_map (tokens : List (Token P)) : (numbered tokens).map (Token.map Prod.snd) = tokens := by
  refine List.ext_getElem? fun index => ?_
  unfold numbered
  rw [List.getElem?_map, List.getElem?_mapIdx, Option.map_map]
  exact Option.map_id'

variable [Inhabited P] [Inhabited Q]

def failure? (limit : Nat) (tokens : List (Token P)) : Option Nat :=
  match Node.ofTokens limit (numbered tokens) with
  | .ok _ => none
  | .error fault => some fault.span.start.1

theorem start_numbered {tokens : List (Token P)} {index : Nat} {token : Token (Nat × P)}
    (there : (numbered tokens ++ [lastEnd (numbered tokens)])[index]? = some token) : token.span.start.1 = index := by
  have size : (numbered tokens).length = tokens.length := List.length_mapIdx
  rcases Nat.lt_trichotomy index (numbered tokens).length with inside | last | beyond
  · rw [List.getElem?_append_left inside] at there
    unfold numbered at there
    rw [List.getElem?_mapIdx] at there
    obtain ⟨token', _, rfl⟩ := Option.map_eq_some_iff.1 there
    rfl
  · rw [last, List.getElem?_append_right (Nat.le_refl _), Nat.sub_self] at there
    cases there
    rw [last, size]
    unfold lastEnd numbered
    rw [List.getLast?_mapIdx]
    cases tokens with
    | nil => rfl
    | cons first others => simp [Span.point, List.getLast?_cons]
  · rw [List.getElem?_eq_none (by rw [List.length_append]; exact beyond)] at there
    cases there

/-- The tokens are parsed to a tree when levels enough are left. -/
def Accepted (tokens : List (Token P)) : Prop :=
  ∃ tree, ∀ limit, tokens.length < limit → Node.ofTokens limit tokens = .ok tree

theorem Accepted.map {tokens : List (Token P)} (accepted : Accepted tokens) {f : P → Q} (same : f default = default) :
    Accepted (tokens.map (Token.map f)) := by
  obtain ⟨tree, parsed⟩ := accepted
  refine ⟨tree.map f, fun limit room => ?_⟩
  rw [List.length_map] at room
  rw [ofTokens_map same, parsed limit room]
  rfl

variable {before more : List (Token P)} {kinds : List Kind}

theorem accepted_of_reaches (text : ∀ token ∈ before, token.kind ≠ .endOfText) (plain : Plain kinds)
    (reaches : Reaches [.endOfText] before kinds (sequence free .endOfText)) (same : more.map Token.kind = kinds) :
    Accepted (before ++ more) := by
  have all : beforeEnd (before ++ more) = before ++ more := by
    refine beforeEnd_eq fun token member => (List.mem_append.1 member).elim (text token) fun behind ended => ?_
    exact plain token.kind (same ▸ List.mem_map_of_mem behind) (by simp [ended])
  have ended := kind_endToken (before ++ more)
  obtain ⟨statements, read⟩ := reaches more [] (endToken (before ++ more)) ended same (List.mem_singleton.2 rfl)
  rw [List.append_nil] at read
  have reads := reads_sequence ended (sound_free ended) read
  refine ⟨scopeOf "global" false (endToken (before ++ more)) statements, fun limit room => ?_⟩
  have parsed : outcome (sequence (nested limit limit) .endOfText) (endToken (before ++ more)) (before ++ more) =
      .ok (statements, []) := reads.parsed ended limit limit (by decide) room
  unfold Node.ofTokens
  rw [parse_eq, all, outcome_program, parsed]
  rfl

theorem explained_ofTokens {limit : Nat} {tokens : List (Token P)} {fault : Fault P}
    (fails : Node.ofTokens limit tokens = .error fault) (shallow : fault.cause.isTooDeep = false) :
    Explained (endToken tokens) (separators .endOfText ++ operandStarts) [.endOfText]
      (sequence free .endOfText) (beforeEnd tokens) fault := by
  have accounts := accounts_nested (kind_endToken tokens) limit limit
  refine explains_sequence accounts (by decide) (beforeEnd tokens) fault ?_ shallow
  unfold Node.ofTokens at fails
  rw [parse_eq, outcome_program] at fails
  cases read : outcome (sequence (nested limit limit) .endOfText) (endToken tokens) (beforeEnd tokens) with
  | ok pair =>
    rw [read] at fails
    cases fails
  | error fault' =>
    rw [read] at fails
    cases fails
    rfl

section Numbered

variable {tokens : List (Token P)} {numbers rest : List (Token (Nat × P))}

theorem snd_default : (Prod.snd : Nat × P → P) default = default := rfl

theorem fails_numbered {limit : Nat} {fault : Fault P} (fails : Node.ofTokens limit tokens = .error fault) :
    ∃ located, Node.ofTokens limit (numbered tokens) = .error located ∧ located.map Prod.snd = fault := by
  have parsed := ofTokens_map snd_default limit (numbered tokens)
  rw [numbered_map, fails] at parsed
  cases found : Node.ofTokens limit (numbered tokens) with
  | ok tree =>
    rw [found] at parsed
    cases parsed
  | error located =>
    rw [found] at parsed
    exact ⟨located, rfl, (Except.error.inj parsed).symm⟩

omit [Inhabited P] in
theorem take_numbered (split : beforeEnd (numbered tokens) = numbers ++ rest) :
    numbers.map (Token.map Prod.snd) = tokens.take numbers.length := by
  have start : numbers <+: numbered tokens :=
    (List.prefix_append numbers rest).trans (split ▸ List.takeWhile_prefix _)
  calc numbers.map (Token.map Prod.snd)
      = ((numbered tokens).take numbers.length).map (Token.map Prod.snd) :=
        congrArg _ (List.prefix_iff_eq_take.1 start)
    _ = tokens.take numbers.length := by rw [List.map_take, numbered_map]

theorem getElem?_numbered (split : beforeEnd (numbered tokens) = numbers ++ rest) :
    (tokens ++ [lastEnd tokens])[numbers.length]? =
      some ((rest.headD (endToken (numbered tokens))).map Prod.snd) := by
  have whole : tokens ++ [lastEnd tokens] =
      (numbered tokens ++ [lastEnd (numbered tokens)]).map (Token.map Prod.snd) := by
    rw [List.map_append, numbered_map, List.map_singleton, ← lastEnd_map snd_default, numbered_map]
  rw [whole, List.getElem?_map, getElem?_ahead split]
  rfl

theorem accepted_numbered (split : beforeEnd (numbered tokens) = numbers ++ rest) (plain : Plain kinds)
    (reaches : Reaches [.endOfText] numbers kinds (sequence free .endOfText)) (same : more.map Token.kind = kinds) :
    Accepted (tokens.take numbers.length ++ more) := by
  have text : ∀ token ∈ numbers, token.kind ≠ .endOfText := fun token member =>
    text_of_beforeEnd (split ▸ List.mem_append_left rest member)
  -- Where the tokens that follow stand makes no difference.
  have lifted : Accepted (numbers ++ more.map (Token.map fun place => (0, place))) :=
    accepted_of_reaches text plain reaches (by rw [← same, List.map_map]; rfl)
  have accepted := lifted.map snd_default
  rw [List.map_append, take_numbered split, List.map_map] at accepted
  exact (List.map_id more) ▸ accepted

end Numbered

/-- Where a token or the end of the text is unexpected, the tokens in front of it begin a program, and each kind
that is expected goes on with one; the end of the text is expected where nothing has to follow. -/
theorem expected_kinds_follow {limit : Nat} {tokens : List (Token P)} {fault : Fault P} {expected : List Kind}
    (fails : Node.ofTokens limit tokens = .error fault)
    (names : fault.cause = .unexpectedEnd expected ∨ ∃ found, fault.cause = .unexpectedToken found expected) :
    ∃ index token, failure? limit tokens = some index ∧ (tokens ++ [lastEnd tokens])[index]? = some token ∧
      fault.span = token.span ∧ expected ≠ [] ∧ (∃ after, Accepted (tokens.take index ++ after)) ∧
      ∀ kind ∈ expected, ∃ kinds : List Kind, ∀ more : List (Token P),
        more.map Token.kind = (if kind = .endOfText then [] else kind :: kinds) →
          Accepted (tokens.take index ++ more) := by
  obtain ⟨located, found, rfl⟩ := fails_numbered fails
  have shallow : located.cause.isTooDeep = false := by
    change (located.map Prod.snd).cause.isTooDeep = false
    rcases names with cause | ⟨_, cause⟩ <;> rw [cause] <;> rfl
  have explained := explained_ofTokens found shallow
  generalize split : beforeEnd (numbered tokens) = ahead at explained
  obtain @⟨before, rest, expected', help, some', _, goes⟩ := explained
  obtain rfl := surprise_expected names
  have number := start_numbered (getElem?_ahead split)
  refine ⟨before.length, _, ?_, getElem?_numbered split, rfl, some', ?_, fun kind member => ?_⟩
  · unfold failure?
    rw [found]
    exact congrArg some number
  · obtain ⟨kind, member⟩ := List.exists_mem_of_ne_nil _ some'
    obtain ⟨kinds, plain, _, reaches⟩ := goes kind member
    exact ⟨kinds.map fun kind => ⟨kind, none, .point default⟩, accepted_numbered split plain reaches (by rw [List.map_map]; exact List.map_id kinds)⟩
  · obtain ⟨kinds, plain, starts, reaches⟩ := goes kind member
    obtain ⟨behind, rfl⟩ := exists_behind plain starts
    exact ⟨behind, fun more same => accepted_numbered split plain reaches same⟩

theorem expected_kinds_follow_do :
    ∃ index token, failure? 2 [bare .doWord, bare .openBrace, bare .closeBrace, bare .number] = some index ∧
      ([bare .doWord, bare .openBrace, bare .closeBrace, bare .number, bare .endOfText])[index]? = some token ∧
      Span.point () = token.span ∧ [Kind.whileWord, .newline] ≠ [] ∧
      (∃ after, Accepted ([bare .doWord, bare .openBrace, bare .closeBrace, bare .number].take index ++ after)) ∧
      ∀ kind ∈ [Kind.whileWord, .newline], ∃ kinds : List Kind, ∀ more : List (Token Unit),
        more.map Token.kind = (if kind = .endOfText then [] else kind :: kinds) →
          Accepted ([bare .doWord, bare .openBrace, bare .closeBrace, bare .number].take index ++ more) := by
  have fails : Node.ofTokens 2 [bare .doWord, bare .openBrace, bare .closeBrace, bare .number] = .error
      ⟨.unexpectedToken "<NUMBER>" [.whileWord, .newline], .point (),
        some "A 'do' block must be followed by 'while condition'."⟩ := rfl
  exact expected_kinds_follow fails (.inr ⟨_, rfl⟩)

end Reckon
