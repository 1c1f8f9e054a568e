import Reckon.Token.Scan

set_option autoImplicit false

/-!
# Scanning without steps

A step for each character is enough, so that scanning has equations that do not count steps.
-/

namespace Reckon.Scan

def scan (p : Position) (text : List Char) : Except (Fault Position) (List (Token Position)) :=
  tokensFrom text.length p text

theorem takes_of_front {c : Char} {rest : List Char} {found : Front} (same : front c rest = found) :
    found.Takes (c :: rest) :=
  same ▸ front_takes c rest

theorem length_lt_of_takes {c : Char} {rest spelling left : List Char}
    (takes : spelling ≠ [] ∧ spelling ++ left = c :: rest) : left.length < (c :: rest).length := by
  have positive := List.length_pos_iff.2 takes.1
  rw [← takes.2, List.length_append]
  omega

theorem length_lt_of_blank {c : Char} {rest spelling left : List Char}
    (found : front c rest = .blank spelling left) : left.length < (c :: rest).length :=
  length_lt_of_takes (takes_of_front found)

theorem length_lt_of_token {c : Char} {rest spelling left : List Char} {kind : Kind}
    {payload : Option Payload} (found : front c rest = .token kind payload spelling left) :
    left.length < (c :: rest).length :=
  length_lt_of_takes (takes_of_front found)

theorem tokensFrom_enough {steps : Nat} {text : List Char} (room : text.length ≤ steps) (p : Position) :
    tokensFrom steps p text = scan p text := by
  have same : ∀ (first second : Nat) (p : Position) (text : List Char), text.length ≤ first →
      text.length ≤ second → tokensFrom first p text = tokensFrom second p text := by
    intro first
    induction first with
    | zero =>
      intro second p text one two
      cases List.length_eq_zero_iff.1 (Nat.le_zero.1 one)
      cases second <;> rfl
    | succ first ih =>
      intro second p text one two
      cases text with
      | nil => cases second <;> rfl
      | cons c rest =>
        cases second with
        | zero => cases two
        | succ second =>
          unfold tokensFrom
          cases found : front c rest with
          | blank spelling left =>
            have shorter := length_lt_of_blank found
            exact ih second _ _ (by omega) (by omega)
          | token kind payload spelling left =>
            have shorter := length_lt_of_token found
            dsimp only
            rw [ih second _ left (by omega) (by omega)]
          | illegal before c help => rfl
  exact same _ _ _ _ room (Nat.le_refl _)

theorem scan_blank {c : Char} {rest spelling left : List Char} (p : Position)
    (found : front c rest = .blank spelling left) : scan p (c :: rest) = scan (p.after spelling) left := by
  have shorter := length_lt_of_blank found
  rw [scan, List.length_cons, tokensFrom, found]
  exact tokensFrom_enough (Nat.le_of_lt_succ shorter) _

theorem scan_token {c : Char} {rest spelling left : List Char} {kind : Kind} {payload : Option Payload}
    (p : Position) (found : front c rest = .token kind payload spelling left) :
    scan p (c :: rest) =
      (scan (p.after spelling) left).map (⟨kind, payload, ⟨p, p.after spelling⟩⟩ :: ·) := by
  have shorter := length_lt_of_token found
  rw [scan, List.length_cons, tokensFrom, found]
  dsimp only
  rw [tokensFrom_enough (Nat.le_of_lt_succ shorter)]
  cases scan (p.after spelling) left <;> rfl

theorem scan_illegal {c wrong : Char} {rest before : List Char} {help : Option String} (p : Position)
    (found : front c rest = .illegal before wrong help) :
    scan p (c :: rest) =
      .error ⟨.illegalCharacter wrong, ⟨p.after before, (p.after before).next wrong⟩, help⟩ := by
  rw [scan, List.length_cons, tokensFrom, found]
  rfl

theorem tokens_eq_scan (source : Source) :
    source.tokens = scan (.start source) source.text.toList := rfl

theorem text_induction {motive : List Char → Prop} (nil : motive [])
    (blank : ∀ {c : Char} {rest spelling left : List Char}, front c rest = .blank spelling left →
      motive left → motive (c :: rest))
    (token : ∀ {c : Char} {rest spelling left : List Char} {kind : Kind} {payload : Option Payload},
      front c rest = .token kind payload spelling left → motive left → motive (c :: rest))
    (illegal : ∀ {c wrong : Char} {rest before : List Char} {help : Option String},
      front c rest = .illegal before wrong help → motive (c :: rest))
    (text : List Char) : motive text := by
  induction size : text.length using Nat.strongRecOn generalizing text with
  | ind size ih =>
    cases text with
    | nil => exact nil
    | cons c rest =>
      cases found : front c rest with
      | blank spelling left =>
        have shorter := length_lt_of_blank found
        exact blank found (ih left.length (size ▸ shorter) left rfl)
      | token kind payload spelling left =>
        have shorter := length_lt_of_token found
        exact token found (ih left.length (size ▸ shorter) left rfl)
      | illegal before wrong help => exact illegal found

end Reckon.Scan
