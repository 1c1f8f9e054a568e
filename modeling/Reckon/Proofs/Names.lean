import Reckon.Context
import Reckon.Proofs.Continuation
import Reckon.Proofs.Grammar.Shape

set_option autoImplicit false

/-!
# Names in sources

A source can assign to words alone. The last result has no word for a name.
-/

namespace Reckon

open Reckon.Parser Reckon.Grammar

def IsWord (name : String) : Prop :=
  name.toList ≠ [] ∧ (∀ c ∈ name.toList, Scan.isLetter c = true) ∧ ∀ entry ∈ Scan.keywords, entry.1 ≠ name.toList

instance (name : String) : Decidable (IsWord name) :=
  decidable_of_iff (name.toList ≠ [] ∧ name.toList.all Scan.isLetter = true ∧
    ∀ entry ∈ Scan.keywords, entry.1 ≠ name.toList) <| by simp [IsWord]

theorem not_isWord_lastResult : ¬ IsWord lastResult := by
  decide

variable {source : Source}

theorem names_of_tokens {tokens : List (Token Position)} (scanned : source.tokens = .ok tokens)
    {token : Token Position} (member : token ∈ tokens) :
    (token.kind = .identifier → IsWord token.name) ∧ (token.kind = .last → token.name = lastResult) := by
  obtain ⟨before, after, split⟩ := List.append_of_mem member
  obtain ⟨_, _, spelling, _, _, _, _, _, _, _, facts⟩ := tokens_parts scanned split
  rcases facts with ⟨_, ended, _⟩ | ⟨_, nonempty, spells, _⟩
  · simp [ended]
  · obtain ⟨kind, payload, span⟩ := token
    dsimp only at spells
    cases spells with
    | mark written => constructor <;> rintro rfl <;> cases written
    | word written other =>
      constructor
      · rintro rfl
        cases written
      · exact fun same => absurd same other
    | last => exact ⟨by simp, fun _ => rfl⟩
    | identifier nonempty letters free =>
      refine ⟨fun _ => ?_, by simp⟩
      change IsWord (String.ofList spelling)
      refine ⟨by simpa using nonempty, by simpa using letters, ?_⟩
      rintro ⟨keyword, kind⟩ listed
      obtain ⟨text, word, same⟩ := Option.map_eq_some_iff.1 (Scan.word_of_mem_keywords listed)
      rw [← same]
      simpa using free kind text word
    | number => simp

theorem compile_shaped {program : Node Position} (compiled : source.compile = .ok program) :
    ∃ span first rest, program = .scope ⟨span, true⟩ "global" false (first :: rest) ∧
      ∀ statement ∈ first :: rest, Node.Shaped IsWord false statement := by
  obtain ⟨_, scanned, before, final, list, rfl, _, reads, rfl⟩ := compile_derives compiled
  have named : Named IsWord before :=
    fun token member => (names_of_tokens scanned (List.mem_append_left _ member)).1
  exact ⟨_, _, _, rfl, shaped_filled (reads.shaped named)⟩

end Reckon
