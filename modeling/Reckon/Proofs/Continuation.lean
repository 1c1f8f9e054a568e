import Reckon.Program
import Reckon.Proofs.Grammar.Continued
import Reckon.Proofs.Grammar.Derivation
import Reckon.Proofs.Grammar.Renaming
import Reckon.Proofs.Token.Seam

set_option autoImplicit false

/-!
# Continuing a source

When the text of a source can be completed by more lines, and what may be blamed then. Positions
count for their index alone.
-/

namespace Reckon

open Reckon.Parser Reckon.Grammar

/-! ## Lines that complete -/

def filling : Kind → List Char
  | .closeBrace => ['\x7d', ' ']
  | .closeParen => [')', ' ']
  | .openBrace => ['\x7b', ' ']
  | .terminator => [';', ' ']
  | .number => ['0', ' ']
  | .thenWord => ['t', 'h', 'e', 'n', ' ']
  | .whileWord => ['w', 'h', 'i', 'l', 'e', ' ']
  | _ => ['e', 'l', 's', 'e', ' ']

theorem front_filling {kind : Kind} (fills : kind ∈ fillers) (more : List Char) :
    ∃ c rest payload spelling, filling kind ++ more = c :: rest ∧
      Scan.front c rest = .token kind payload spelling (' ' :: more) := by
  simp only [fillers, List.mem_cons, List.not_mem_nil, or_false] at fills
  rcases fills with rfl | rfl | rfl | rfl | rfl | rfl | rfl | rfl <;> exact ⟨_, _, _, _, rfl, rfl⟩

theorem scan_fillings {kinds : List Kind} (fills : kinds ⊆ fillers) (p : Position) :
    ∃ tokens stop, Scan.scan p (kinds.flatMap filling) = .ok (tokens ++ [stop]) ∧
      tokens.map Token.kind = kinds := by
  induction kinds generalizing p with
  | nil => exact ⟨[], _, rfl, rfl⟩
  | cons kind others ih =>
    obtain ⟨c, rest, payload, spelling, written, found⟩ :=
      front_filling (fills (List.mem_cons_self)) (others.flatMap filling)
    have blank : Scan.front ' ' (others.flatMap filling) = .blank [' '] (others.flatMap filling) := rfl
    obtain ⟨tokens, stop, scanned, same⟩ :=
      ih (fun _ member => fills (List.mem_cons_of_mem _ member)) ((p.after spelling).after [' '])
    refine ⟨⟨kind, payload, ⟨p, p.after spelling⟩⟩ :: tokens, stop, ?_, by rw [List.map_cons, same]⟩
    rw [List.flatMap_cons, written, Scan.scan_token p found, Scan.scan_blank _ blank, scanned]
    rfl

theorem newline_notMem_fillings (kinds : List Kind) : '\n' ∉ kinds.flatMap filling := by
  intro member
  obtain ⟨kind, _, inside⟩ := List.mem_flatMap.1 member
  cases kind <;> exact absurd inside (by decide)

/-! ## Sources by indices -/

def blame {P α : Type} : Except (Fault P) α → Option (Fault P)
  | .ok _ => none
  | .error fault => some fault

theorem blame_eq_some {P α : Type} {result : Except (Fault P) α} {fault : Fault P} :
    blame result = some fault ↔ result = .error fault := by
  cases result <;> simp [blame]

theorem blame_eq_none {P α : Type} {result : Except (Fault P) α} :
    blame result = none ↔ ∃ value, result = .ok value := by
  cases result <;> simp [blame]

variable {source longer : Source} {ahead : List (Token Nat)} {stop : Token Nat}

structure Scanned (source : Source) (ahead : List (Token Nat)) (stop : Token Nat) : Prop where
  tokens : Scan.indexed source.tokens = .ok (ahead ++ [stop])
  text : ∀ token ∈ ahead, token.kind ≠ .endOfText
  ended : stop.kind = .endOfText

def parsedProgram (stop : Token Nat) (ahead : List (Token Nat)) :=
  outcome (sequence (nested Source.nestingLimit Source.nestingLimit) .endOfText) stop ahead

theorem renames_sequence {P Q : Type} {f : P → Q} (limit : Nat) (closing : Kind) :
    Renames f (List.map (Node.map f)) (sequence (nested limit limit) closing)
      (sequence (nested limit limit) closing) :=
  renames_get.bind fun steps => renames_statementList (renames_nested limit limit) closing steps

theorem program_of_tokens {before : List (Token Position)} {final : Token Position}
    (tokens : source.tokens = .ok (before ++ [final])) (text : ∀ token ∈ before, token.kind ≠ .endOfText)
    (ended : final.kind = .endOfText) (limit : Nat) :
    source.program limit = (outcome (program limit) final before).map Prod.fst :=
  (Source.program_of_ok tokens limit).trans (parse_append _ text ended)

theorem compile_of_tokens {before : List (Token Position)} {final : Token Position}
    (tokens : source.tokens = .ok (before ++ [final])) (text : ∀ token ∈ before, token.kind ≠ .endOfText)
    (ended : final.kind = .endOfText) :
    source.compile = (outcome (program Source.nestingLimit) final before).map Prod.fst :=
  program_of_tokens tokens text ended Source.nestingLimit

theorem Scanned.blame_compile (scanned : Scanned source ahead stop) :
    (blame source.compile).map (Fault.map Position.index) = blame (parsedProgram stop ahead) := by
  have tokens := scanned.tokens
  cases same : source.tokens with
  | error fault =>
    rw [same] at tokens
    cases tokens
  | ok list =>
    rw [same] at tokens
    obtain ⟨before, last, rfl, rfl, single⟩ := List.map_eq_append_iff.1 (Except.ok.inj tokens)
    obtain ⟨final, rfl, rfl⟩ := List.map_eq_singleton_iff.1 single
    have text : ∀ token ∈ before, token.kind ≠ .endOfText :=
      fun token member => scanned.text _ (List.mem_map_of_mem member)
    unfold parsedProgram
    rw [compile_of_tokens same text scanned.ended, outcome_program, renames_sequence Source.nestingLimit .endOfText final before]
    cases outcome (sequence (nested Source.nestingLimit Source.nestingLimit) .endOfText) final before <;> rfl

theorem Scanned.of_compile_error (scanned : Scanned source ahead stop) {fault : Fault Position}
    (failed : source.compile = .error fault) :
    parsedProgram stop ahead = .error (fault.map Position.index) := by
  have blamed := scanned.blame_compile
  rw [failed] at blamed
  exact blame_eq_some.1 blamed.symm

theorem Scanned.compile_ok (scanned : Scanned source ahead stop) {pair : List (Node Nat) × List (Token Nat)}
    (read : parsedProgram stop ahead = .ok pair) : ∃ program, source.compile = .ok program := by
  have blamed := scanned.blame_compile
  rw [read] at blamed
  exact blame_eq_none.1 (Option.map_eq_none_iff.1 blamed)

theorem Scanned.compile_error (scanned : Scanned source ahead stop) {fault : Fault Nat}
    (failed : parsedProgram stop ahead = .error fault) : ∃ later, source.compile = .error later := by
  have blamed := scanned.blame_compile
  rw [failed] at blamed
  obtain ⟨later, same, _⟩ := Option.map_eq_some_iff.1 blamed
  exact ⟨later, blame_eq_some.1 same⟩

theorem compile_error_of_tokens {fault : Fault Position} (failed : source.tokens = .error fault) :
    source.compile = .error fault :=
  Source.program_of_error failed Source.nestingLimit

theorem scan_final {p : Position} {text : List Char} {tokens : List (Token Position)}
    (scanned : Scan.scan p text = .ok tokens) : ∃ before final, tokens = before ++ [final] := by
  obtain ⟨before, ends⟩ := (Scan.scan_cover text scanned).ends
  exact ⟨before, _, ends⟩

theorem scan_inside {p : Position} {text : List Char} {before : List (Token Position)} {final : Token Position}
    (scanned : Scan.scan p text = .ok (before ++ [final])) :
    final.kind = .endOfText ∧ (∀ token ∈ before ++ [final], p.index ≤ token.span.start.index) ∧
      ∀ token ∈ before, token.kind ≠ .endOfText ∧ token.span.start.index < p.index + text.length := by
  have cover := Scan.scan_cover text scanned
  obtain ⟨front, ends⟩ := cover.ends
  obtain ⟨rfl, same⟩ := List.append_inj' ends rfl
  cases same
  refine ⟨rfl, cover.behind, ?_⟩
  intro token member
  obtain ⟨first, second, rfl⟩ := List.append_of_mem member
  obtain ⟨done, gap, spelling, rest, written, _, placed, _, facts⟩ :=
    cover.parts (List.append_assoc first (token :: second) [_])
  rcases facts with ⟨none, _⟩ | ⟨_, nonempty, spells, _⟩
  · simp at none
  · refine ⟨spells.kind_ne, ?_⟩
    have positive := List.length_pos_iff.2 nonempty
    rw [placed, Position.index_after, written]
    simp only [List.length_append]
    omega

theorem inside_of_tokens {before : List (Token Position)} {final : Token Position}
    (tokens : source.tokens = .ok (before ++ [final])) :
    (∀ token ∈ before, token.kind ≠ .endOfText) ∧ final.kind = .endOfText := by
  obtain ⟨ended, _, inside⟩ := scan_inside (Scan.tokens_eq_scan source ▸ tokens)
  exact ⟨fun token member => (inside token member).1, ended⟩

theorem compile_eq_ok {before : List (Token Position)} {final : Token Position} {program : Node Position}
    (tokens : source.tokens = .ok (before ++ [final])) :
    source.compile = .ok program ↔
      ∃ list, outcome (sequence (nested Source.nestingLimit Source.nestingLimit) .endOfText) final before =
        .ok (list, []) ∧ program = scopeOf "global" false final list := by
  obtain ⟨text, ended⟩ := inside_of_tokens tokens
  rw [compile_of_tokens tokens text ended, outcome_program]
  cases read : outcome (sequence (nested Source.nestingLimit Source.nestingLimit) .endOfText) final before with
  | error fault =>
    constructor
    · intro compiled
      cases compiled
    · rintro ⟨list, same, _⟩
      cases same
  | ok pair =>
    obtain ⟨list, left⟩ := pair
    obtain ⟨_, rfl⟩ := outcome_sequence_ends text ended read
    constructor
    · intro compiled
      cases compiled
      exact ⟨list, rfl, rfl⟩
    · rintro ⟨other, same, rfl⟩
      cases same
      rfl

theorem compile_derives {program : Node Position} (compiled : source.compile = .ok program) :
    ∃ tokens, source.tokens = .ok tokens ∧ Derives tokens program := by
  cases scanned : source.tokens with
  | error fault => cases (compile_error_of_tokens scanned).symm.trans compiled
  | ok tokens =>
    obtain ⟨before, final, rfl⟩ := scan_final (Scan.tokens_eq_scan source ▸ scanned)
    obtain ⟨text, ended⟩ := inside_of_tokens scanned
    obtain ⟨list, read, rfl⟩ := (compile_eq_ok scanned).1 compiled
    obtain ⟨reads, _⟩ := outcome_sequence_ends text ended read
    exact ⟨_, rfl, before, final, list, rfl, ended, reads, rfl⟩

def Behind (source : Source) (index : Nat) : Prop := source.text.toList.length < index

def Source.lineEnd (source : Source) : Position :=
  (Position.start source).after source.text.toList

def Source.nextLine (source : Source) : Position := source.lineEnd.next '\n'

theorem index_lineEnd (source : Source) : source.lineEnd.index = source.text.toList.length := by
  rw [Source.lineEnd, Position.index_after]
  exact Nat.zero_add _

theorem index_nextLine (source : Source) : source.nextLine.index = source.text.toList.length + 1 :=
  congrArg (· + 1) (index_lineEnd source)

def Source.lineToken (source : Source) : Token Nat :=
  ⟨.newline, none, ⟨source.lineEnd.index, source.nextLine.index⟩⟩

def byIndex (tokens : List (Token Position)) : List (Token Nat) := tokens.map (Token.map Position.index)

section Longer

variable {before rest : List (Token Position)} {final last : Token Position} {more : List Char}

theorem scanned_source (tokens : source.tokens = .ok (before ++ [final])) :
    Scanned source (byIndex before) (final.map Position.index) ∧ Early (Behind source) (byIndex before) := by
  obtain ⟨ended, _, inside⟩ := scan_inside (Scan.tokens_eq_scan source ▸ tokens)
  have start : (Position.start source).index = 0 := rfl
  refine ⟨⟨?_, ?_, ended⟩, ?_⟩
  · rw [tokens, byIndex, Scan.indexed, List.map_append]
    rfl
  · intro token member
    obtain ⟨origin, inner, rfl⟩ := List.mem_map.1 member
    exact (inside origin inner).1
  · intro token member
    obtain ⟨origin, inner, rfl⟩ := List.mem_map.1 member
    refine ⟨(inside origin inner).1, ?_⟩
    have bound := (inside origin inner).2
    change ¬ source.text.toList.length < origin.span.start.index
    omega

theorem indexed_longer (tokens : source.tokens = .ok (before ++ [final]))
    (text : longer.text.toList = source.text.toList ++ '\n' :: more) :
    Scan.indexed longer.tokens = (Scan.indexed (Scan.scan source.nextLine more)).map
      fun rest => byIndex before ++ source.lineToken :: rest := by
  have start : (Position.start longer).index = (Position.start source).index := rfl
  rw [Scan.tokens_eq_scan] at tokens ⊢
  rw [text, Scan.indexed_scan _ start, Scan.scan_line_ok _ more tokens, Scan.scan_newline]
  change Scan.indexed (((Scan.scan source.nextLine more).map _).map _) = _
  cases Scan.scan source.nextLine more with
  | error fault => rfl
  | ok list =>
    change Except.ok (List.map _ (before ++ _)) = _
    rw [List.map_append]
    rfl

theorem longer_error (tokens : source.tokens = .ok (before ++ [final]))
    (text : longer.text.toList = source.text.toList ++ '\n' :: more) {fault : Fault Position}
    (failed : Scan.scan source.nextLine more = .error fault) :
    ∃ later, longer.compile = .error later ∧ Behind source later.span.start.index := by
  have indexed := indexed_longer tokens text
  rw [failed] at indexed
  cases same : longer.tokens with
  | ok list =>
    rw [same] at indexed
    cases indexed
  | error later =>
    rw [same] at indexed
    refine ⟨later, compile_error_of_tokens same, ?_⟩
    have place : later.span.start.index = fault.span.start.index :=
      congrArg (fun fault : Fault Nat => fault.span.start) (Except.error.inj indexed)
    have bound := (Scan.scan_error_within failed).1
    rw [index_nextLine] at bound
    rw [place]
    exact bound

theorem longer_ok (tokens : source.tokens = .ok (before ++ [final]))
    (text : longer.text.toList = source.text.toList ++ '\n' :: more)
    (scanned : Scan.scan source.nextLine more = .ok (rest ++ [last])) :
    Scanned longer (byIndex before ++ source.lineToken :: byIndex rest) (last.map Position.index) ∧
      Seam (Behind source) source.lineToken (byIndex rest) (last.map Position.index) := by
  obtain ⟨ended, behind, inside⟩ := scan_inside scanned
  have indexed := indexed_longer tokens text
  rw [scanned] at indexed
  constructor
  · refine ⟨?_, ?_, ended⟩
    · rw [indexed, Scan.indexed, List.map_append]
      change Except.ok _ = _
      rw [List.append_assoc]
      rfl
    · intro token member
      rcases List.mem_append.1 member with old | new
      · exact (scanned_source tokens).1.text token old
      · rcases List.mem_cons.1 new with rfl | new
        · simp [Source.lineToken]
        · obtain ⟨origin, inner, rfl⟩ := List.mem_map.1 new
          exact (inside origin inner).1
  · refine ⟨rfl, ended, ?_, ?_⟩
    · change ¬ source.text.toList.length < source.lineEnd.index
      rw [index_lineEnd]
      exact Nat.lt_irrefl _
    · intro token member
      have origin : ∃ origin ∈ rest ++ [last], token = origin.map Position.index := by
        rcases List.mem_append.1 member with old | new
        · obtain ⟨origin, inner, rfl⟩ := List.mem_map.1 old
          exact ⟨origin, List.mem_append_left _ inner, rfl⟩
        · exact ⟨last, List.mem_append_right _ (by simp), List.mem_singleton.1 new⟩
      obtain ⟨origin, inner, rfl⟩ := origin
      have bound := behind origin inner
      rw [index_nextLine] at bound
      exact bound

end Longer

/-! ## What more lines can do -/

theorem resumes_program {late : Nat → Prop} (early : Early late ahead) :
    Resumes late [.endOfText] ahead
      (sequence (nested Source.nestingLimit Source.nestingLimit) .endOfText) :=
  resumes_sequence (inner_nested late _ _) (by decide) early

theorem toList_addLine (source : Source) (line : String) :
    (source.addLine line).text.toList = source.text.toList ++ '\n' :: line.toList := by
  have single : "\n".toList = ['\n'] := rfl
  simp only [Source.addLine, String.toList_append, single, List.append_assoc, List.singleton_append]

theorem line_completes {before : List (Token Position)} {final : Token Position}
    (tokens : source.tokens = .ok (before ++ [final])) {word : Token Nat}
    (seam : Seam (Behind source) source.lineToken [word] stop) (kind : word.kind = .elseWord)
    (past : Beyond (Behind source) [word] (parsedProgram stop (byIndex before ++ [source.lineToken, word]))) :
    ∃ line : String, '\n' ∉ line.toList ∧ ∃ program, (source.addLine line).compile = .ok program := by
  obtain ⟨kinds, fills, completes⟩ := (resumes_program (scanned_source tokens).2).completes seam kind past
  obtain ⟨rest, last, scanned, same⟩ := scan_fillings fills source.nextLine
  refine ⟨String.ofList (kinds.flatMap filling), ?_, ?_⟩
  · rw [String.toList_ofList]
    exact newline_notMem_fillings kinds
  · have text := toList_addLine source (String.ofList (kinds.flatMap filling))
    rw [String.toList_ofList] at text
    obtain ⟨longer, _⟩ := longer_ok tokens text scanned
    have kinds' : (byIndex rest).map Token.kind = kinds := by
      rw [byIndex, List.map_map]
      exact same
    obtain ⟨value, reads⟩ :=
      completes source.lineToken (last.map Position.index) (byIndex rest) [] rfl longer.ended kinds' (by decide)
    rw [List.append_nil] at reads
    exact longer.compile_ok reads

theorem scan_else (p : Position) :
    Scan.scan p "else".toList = .ok ([⟨.elseWord, some (.name "else"), ⟨p, p.after "else".toList⟩⟩] ++
      [⟨.endOfText, none, .point (p.after "else".toList)⟩]) := rfl

theorem scanned_else {before : List (Token Position)} {final : Token Position}
    (tokens : source.tokens = .ok (before ++ [final])) :
    ∃ word stop, word.kind = .elseWord ∧ Seam (Behind source) source.lineToken [word] stop ∧
      Scanned (source.addLine "else") (byIndex before ++ [source.lineToken, word]) stop := by
  obtain ⟨scanned, seam⟩ := longer_ok tokens (toList_addLine source "else") (scan_else source.nextLine)
  exact ⟨_, _, rfl, seam, scanned⟩

theorem length_text (source : Source) : source.text.toList.length = source.text.length :=
  String.length_toList

section Open

variable {before : List (Token Position)} {final : Token Position} {fault : Fault Position}

theorem tokens_of_open (failed : source.compile = .error fault) (open' : fault.isContinuable = true) :
    ∃ before final, source.tokens = .ok (before ++ [final]) := by
  cases tokens : source.tokens with
  | error early =>
    cases failed.symm.trans (compile_error_of_tokens tokens)
    obtain ⟨_, c, _, _, cause, _⟩ := Scan.scan_error _ (Scan.tokens_eq_scan source ▸ tokens)
    rw [Fault.isContinuable, cause] at open'
    cases open'
  | ok list =>
    obtain ⟨before, final, rfl⟩ := scan_final tokens
    exact ⟨before, final, rfl⟩

theorem beyond_of_open (failed : source.compile = .error fault) (open' : fault.isContinuable = true)
    (tokens : source.tokens = .ok (before ++ [final])) {line stop : Token Nat} {more : List (Token Nat)}
    (seam : Seam (Behind source) line more stop) :
    Beyond (Behind source) more (parsedProgram stop (byIndex before ++ line :: more)) := by
  obtain ⟨scanned, early⟩ := scanned_source tokens
  -- The text alone is the text with no lines behind it.
  have agree := (resumes_program early).agrees seam scanned.ended broken_nil (.inr not_branches_nil)
  have alone := scanned.of_compile_error failed
  rw [parsedProgram] at alone
  rw [List.append_nil, alone] at agree
  exact agree.beyond_of_open open'

end Open

theorem open_source_continues {source : Source} {fault : Fault Position} (failed : source.compile = .error fault)
    (open' : fault.isContinuable = true) :
    (∃ line : String, '\n' ∉ line.toList ∧ ∃ program, (source.addLine line).compile = .ok program) ∧
      ∀ line later, (source.addLine line).compile = .error later →
        source.text.length ≤ later.span.start.index := by
  obtain ⟨before, final, tokens⟩ := tokens_of_open failed open'
  constructor
  · obtain ⟨word, stop, kind, seam, _⟩ := scanned_else tokens
    exact line_completes tokens seam kind (beyond_of_open failed open' tokens seam)
  · intro line later failed'
    have text := toList_addLine source line
    rw [← length_text]
    cases next : Scan.scan source.nextLine line.toList with
    | error fault' =>
      obtain ⟨other, same, behind⟩ := longer_error tokens text next
      cases failed'.symm.trans same
      exact Nat.le_of_lt behind
    | ok more =>
      obtain ⟨rest, last, rfl⟩ := scan_final next
      obtain ⟨longer, seam⟩ := longer_ok tokens text next
      have behind := beyond_of_open failed open' tokens seam
      rw [longer.of_compile_error failed'] at behind
      exact Nat.le_of_lt behind

theorem open_source_continues_nested :
    let source : Source := ⟨"nested", "(do \x7b for (let i = 0; i < 3; let i = i + 1) \x7b i\n"⟩
    ∃ fault, source.compile = .error fault ∧ fault.isContinuable = true ∧
      (∃ line : String, '\n' ∉ line.toList ∧ ∃ program, (source.addLine line).compile = .ok program) ∧
      ∀ line later, (source.addLine line).compile = .error later →
        source.text.length ≤ later.span.start.index := by
  intro source
  have blamed : (blame source.compile).map Fault.isContinuable = some true := by decide +kernel
  obtain ⟨fault, failed, continues⟩ := Option.map_eq_some_iff.1 blamed
  have failed := blame_eq_some.1 failed
  exact ⟨fault, failed, continues, open_source_continues failed continues⟩

/-! ## What can never be completed -/

namespace Source

def addLines (source : Source) (lines : List String) : Source := lines.foldl addLine source

/-- The line is added in vain: what is at fault then stands in front of it. -/
def Refuses (source : Source) (line : String) : Prop :=
  ∃ fault, (source.addLine line).compile = .error fault ∧ fault.span.start.index ≤ source.text.length

end Source

theorem Source.addLines_eq (source : Source) {lines : List String} (more : lines ≠ []) :
    source.addLines lines = source.addLine ("\n".intercalate lines) := by
  induction lines generalizing source with
  | nil => exact absurd rfl more
  | cons first others ih =>
    cases others with
    | nil => rw [String.intercalate_singleton]; rfl
    | cons second others =>
      change (source.addLine first).addLines (second :: others) = _
      rw [ih _ (List.cons_ne_nil second others), String.intercalate_cons_cons]
      simp [addLine, String.append_assoc]

theorem longer_illegal {fault : Fault Position} (failed : source.tokens = .error fault) {more : List Char}
    (text : longer.text.toList = source.text.toList ++ '\n' :: more) :
    ∃ later, longer.compile = .error later ∧ later.span.start.index < source.text.toList.length := by
  have start : (Position.start longer).index = (Position.start source).index := rfl
  rw [Scan.tokens_eq_scan] at failed
  have same : Scan.indexed longer.tokens = .error (fault.map Position.index) := by
    rw [Scan.tokens_eq_scan, text, Scan.indexed_scan _ start, Scan.scan_line_error _ more failed]
    rfl
  cases result : longer.tokens with
  | ok list =>
    rw [result] at same
    cases same
  | error later =>
    rw [result] at same
    refine ⟨later, compile_error_of_tokens result, ?_⟩
    have place : later.span.start.index = fault.span.start.index :=
      congrArg (fun fault : Fault Nat => fault.span.start) (Except.error.inj same)
    have bound := (Scan.scan_error_within failed).2
    rw [place]
    exact Nat.lt_of_lt_of_eq bound (Nat.zero_add _)

/-- Behind any newlines the text begins with another branch of a choice. -/
def Source.StartsBranch (source : Source) : Prop :=
  ∃ tokens, source.tokens = .ok tokens ∧ Branches tokens

instance (source : Source) : Decidable source.StartsBranch :=
  match same : source.tokens with
  | .ok tokens => decidable_of_iff (Branches tokens) (by simp [Source.StartsBranch, same])
  | .error fault => isFalse (by simp [Source.StartsBranch, same])

theorem addLine_fails_or_scans (source : Source) (line : String) :
    (∃ later, (source.addLine line).compile = .error later) ∨ ∃ before final rest last,
      source.tokens = .ok (before ++ [final]) ∧ Scan.scan source.nextLine line.toList = .ok (rest ++ [last]) := by
  have text := toList_addLine source line
  cases tokens : source.tokens with
  | error early =>
    obtain ⟨later, failed, _⟩ := longer_illegal tokens text
    exact .inl ⟨later, failed⟩
  | ok list =>
    obtain ⟨before, final, rfl⟩ := scan_final tokens
    cases next : Scan.scan source.nextLine line.toList with
    | error fault =>
      obtain ⟨later, failed, _⟩ := longer_error tokens text next
      exact .inl ⟨later, failed⟩
    | ok list =>
      obtain ⟨rest, last, rfl⟩ := scan_final next
      exact .inr ⟨before, final, rest, last, rfl, rfl⟩

theorem startsBranch_of_scan {p : Position} {text : String} {rest : List (Token Position)} {last : Token Position}
    (scanned : Scan.scan p text.toList = .ok (rest ++ [last])) (branches : Branches (byIndex rest)) (name : String) :
    Source.StartsBranch ⟨name, text⟩ := by
  obtain ⟨tokens, there, same⟩ := Scan.scan_anywhere scanned (.start ⟨name, text⟩)
  refine ⟨tokens, (Scan.tokens_eq_scan _).trans there, ?_⟩
  rw [← branches_map, same, branches_map]
  exact ((branches_map Position.index).1 branches).append [last]

theorem Scanned.parsed (scanned : Scanned source ahead stop) {program : Node Position}
    (compiled : source.compile = .ok program) : ∃ list, parsedProgram stop ahead = .ok (list, []) := by
  cases read : parsedProgram stop ahead with
  | error fault =>
    obtain ⟨later, failed⟩ := scanned.compile_error read
    cases compiled.symm.trans failed
  | ok pair =>
    obtain ⟨list, rest⟩ := pair
    obtain ⟨_, rfl⟩ := outcome_sequence_ends scanned.text scanned.ended read
    exact ⟨list, rfl⟩

theorem Source.startsBranch_of_addLine {fault : Fault Position} {program : Node Position} {line : String}
    (failed : source.compile = .error fault) (closed : fault.isContinuable = false)
    (compiled : (source.addLine line).compile = .ok program) (name : String) : Source.StartsBranch ⟨name, line⟩ := by
  rcases addLine_fails_or_scans source line with ⟨later, same⟩ | ⟨before, final, rest, last, tokens, next⟩
  · cases compiled.symm.trans same
  obtain ⟨longer, seam⟩ := longer_ok tokens (toList_addLine source line) next
  obtain ⟨scanned, early⟩ := scanned_source tokens
  have past : Beyond (Behind source) (byIndex rest) (parsedProgram (last.map Position.index)
      (byIndex before ++ source.lineToken :: byIndex rest)) := by
    obtain ⟨list, read⟩ := longer.parsed compiled
    rw [read]
    exact Nat.zero_le _
  by_contra other
  have unbranched : ¬ Branches (byIndex rest) := fun branches => other (startsBranch_of_scan next branches name)
  -- Lines without a branch are read to their end only where the text alone waits for them.
  have waits := (resumes_program early).waits seam unbranched past scanned.ended (List.mem_singleton.2 rfl)
  have alone := scanned.of_compile_error failed
  rw [parsedProgram] at alone
  rw [alone] at waits
  exact Bool.false_ne_true (closed.symm.trans waits)

theorem refuses_else_iff {before : List (Token Position)} {word : Token Nat}
    (probe : Scanned (source.addLine "else") (byIndex before ++ [source.lineToken, word]) stop) :
    source.Refuses "else" ↔
      ¬ Beyond (Behind source) [word] (parsedProgram stop (byIndex before ++ [source.lineToken, word])) := by
  constructor
  · rintro ⟨later, failed, place⟩ past
    rw [probe.of_compile_error failed] at past
    have late : source.text.toList.length < later.span.start.index := past
    rw [length_text] at late
    omega
  · intro front
    cases result : parsedProgram stop (byIndex before ++ [source.lineToken, word]) with
    | ok pair =>
      obtain ⟨list, rest⟩ := pair
      have none := (outcome_sequence_ends probe.text probe.ended result).2
      rw [result, none] at front
      exact absurd (Nat.zero_le _) front
    | error blamed =>
      obtain ⟨later, failed⟩ := probe.compile_error result
      cases result.symm.trans (probe.of_compile_error failed)
      refine ⟨later, failed, ?_⟩
      rw [← length_text]
      rw [result] at front
      exact Nat.le_of_not_lt front

theorem Source.Refuses.never (refuses : source.Refuses "else") {lines : List String} (more : lines ≠ []) :
    ∃ later, (source.addLines lines).compile = .error later := by
  rw [source.addLines_eq more]
  rcases addLine_fails_or_scans source ("\n".intercalate lines) with fails | ⟨before, final, rest, last, tokens, next⟩
  · exact fails
  obtain ⟨longer, seam⟩ := longer_ok tokens (toList_addLine source _) next
  obtain ⟨word, stop, kind, seam', probe⟩ := scanned_else tokens
  -- What is refused in front of `else` is refused in front of all other lines.
  have agree := (resumes_program (scanned_source tokens).2).agrees seam' longer.ended seam.broken
    (.inl (branches_else kind))
  have front := (refuses_else_iff probe).1 refuses
  obtain ⟨later, failed, _⟩ := refuses
  have blamed := probe.of_compile_error failed
  rw [blamed] at front
  rw [parsedProgram] at blamed
  rw [blamed] at agree
  generalize result : outcome _ _ _ = second at agree
  cases agree with
  | beyond late => exact absurd late front
  | refused => exact longer.compile_error result

theorem Source.refuses_of_never
    (never : ∀ lines, lines ≠ [] → ∃ later, (source.addLines lines).compile = .error later) :
    source.Refuses "else" := by
  cases tokens : source.tokens with
  | error early =>
    obtain ⟨later, same, place⟩ := longer_illegal tokens (toList_addLine source "else")
    refine ⟨later, same, ?_⟩
    rw [← length_text]
    exact Nat.le_of_lt place
  | ok list =>
    obtain ⟨before, final, rfl⟩ := scan_final tokens
    obtain ⟨word, stop, kind, seam, probe⟩ := scanned_else tokens
    rw [refuses_else_iff probe]
    intro past
    obtain ⟨line, _, program, compiled⟩ := line_completes tokens seam kind past
    obtain ⟨later, failed⟩ := never [line] (by simp)
    cases compiled.symm.trans failed

theorem Source.Refuses.closed (refuses : source.Refuses "else") : source.isOpen = false := by
  unfold Source.isOpen
  cases failed : source.compile with
  | ok program => rfl
  | error fault =>
    rw [← Bool.not_eq_true]
    intro open'
    obtain ⟨before, final, tokens⟩ := tokens_of_open failed open'
    obtain ⟨word, stop, kind, seam, probe⟩ := scanned_else tokens
    exact (refuses_else_iff probe).1 refuses (beyond_of_open failed open' tokens seam)

/-- No lines at all complete a source exactly when it refuses `else`, and such a source is not open. A source
that fails and is not open is completed by no lines but those that begin with another branch of a choice. -/
theorem never_completed_iff (source : Source) :
    ((∀ lines, lines ≠ [] → ∃ later, (source.addLines lines).compile = .error later) ↔
      source.Refuses "else") ∧ (source.Refuses "else" → source.isOpen = false) ∧
    ∀ fault, source.compile = .error fault → fault.isContinuable = false →
      ∀ lines, lines ≠ [] → ¬ Source.StartsBranch ⟨source.name, "\n".intercalate lines⟩ →
        ∃ later, (source.addLines lines).compile = .error later := by
  refine ⟨⟨Source.refuses_of_never, ?_⟩, Source.Refuses.closed, ?_⟩
  · intro refuses lines more
    exact refuses.never more
  · intro fault failed closed lines more other
    rw [source.addLines_eq more]
    cases compiled : (source.addLine ("\n".intercalate lines)).compile with
    | error later => exact ⟨later, rfl⟩
    | ok program => exact absurd (source.startsBranch_of_addLine failed closed compiled source.name) other

theorem never_completed_iff_parentheses :
    let source : Source := ⟨"<stdin>", "(if true \x7b1\x7d"⟩
    let lines := ["", ")"]
    ∃ fault, source.compile = .error fault ∧ fault.isContinuable = false ∧
      ¬ Source.StartsBranch ⟨source.name, "\n".intercalate lines⟩ ∧
      ∃ later, (source.addLines lines).compile = .error later := by
  intro source lines
  have blamed : (blame source.compile).map Fault.isContinuable = some false := by decide +kernel
  obtain ⟨fault, failed, closed⟩ := Option.map_eq_some_iff.1 blamed
  have failed := blame_eq_some.1 failed
  have other : ¬ Source.StartsBranch ⟨source.name, "\n".intercalate lines⟩ := by decide +kernel
  exact ⟨fault, failed, closed, other,
    (never_completed_iff source).2.2 fault failed closed lines (List.cons_ne_nil _ _) other⟩

/-- Behind the block of a choice in parentheses the end of the text is final, and yet `else` goes on. -/
theorem choice_in_parentheses :
    let source : Source := ⟨"<stdin>", "(if true \x7b1\x7d"⟩
    (∃ fault, source.compile = .error fault ∧ fault.isContinuable = false) ∧
      ∃ program, (source.addLine "else \x7b2\x7d)").compile = .ok program := by
  intro source
  have blamed : (blame source.compile).map Fault.isContinuable = some false := by decide +kernel
  have completed : (blame (source.addLine "else \x7b2\x7d)").compile).isNone = true := by decide +kernel
  obtain ⟨fault, failed, closed⟩ := Option.map_eq_some_iff.1 blamed
  exact ⟨⟨fault, blame_eq_some.1 failed, closed⟩, blame_eq_none.1 (Option.isNone_iff_eq_none.1 completed)⟩

end Reckon
