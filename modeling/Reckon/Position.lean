import Reckon.Text.Lines

set_option autoImplicit false

/-!
# Positions in a source text

A position counts characters, lines, columns and bytes at once. Moving past a character keeps the
four in step.
-/

namespace Reckon

structure Source where
  name : String
  text : String
deriving DecidableEq, Repr

instance : Inhabited Source := ⟨⟨"", ""⟩⟩

/-- A place in a source; `index` counts characters and `offset` bytes, lines count from 1. -/
structure Position where
  source : Source
  index : Nat
  line : Nat
  column : Nat
  offset : Nat
deriving DecidableEq, Repr

namespace Position

def start (source : Source) : Position :=
  { source, index := 0, line := 1, column := 0, offset := 0 }

instance : Inhabited Position := ⟨start default⟩

def next (p : Position) (c : Char) : Position :=
  { p with
    index := p.index + 1
    line := if c = '\n' then p.line + 1 else p.line
    column := if c = '\n' then 0 else p.column + 1
    offset := p.offset + c.utf8Size }

def after (p : Position) (spelling : List Char) : Position :=
  spelling.foldl next p

@[simp]
theorem after_nil (p : Position) : p.after [] = p := rfl

@[simp]
theorem after_cons (p : Position) (c : Char) (spelling : List Char) :
    p.after (c :: spelling) = (p.next c).after spelling := rfl

theorem after_append (p : Position) (first second : List Char) :
    p.after (first ++ second) = (p.after first).after second :=
  List.foldl_append

@[simp]
theorem source_after (p : Position) (spelling : List Char) : (p.after spelling).source = p.source := by
  induction spelling generalizing p with
  | nil => rfl
  | cons c rest ih => simp [ih, next]

theorem index_after (p : Position) (spelling : List Char) :
    (p.after spelling).index = p.index + spelling.length := by
  induction spelling generalizing p with
  | nil => rfl
  | cons c rest ih => simp [ih, next]; omega

def current? (p : Position) : Option Char :=
  p.source.text.toList[p.index]?

def advance (p : Position) : Position :=
  match p.current? with
  | some c => p.next c
  -- The end of the text is not passed.
  | none => p

def advanceBy (p : Position) (count : Nat) : Position :=
  count.repeat advance p

def lineText? (p : Position) : Option (List Char) :=
  -- Lines count from 1, and no line has the number 0.
  match p.line with
  | 0 => none
  | before + 1 => (Text.lines p.source.text.toList)[before]?

def describe (p : Position) : String :=
  p.source.name ++ ":" ++ toString p.line ++ ":" ++ toString p.column

end Position

structure Span (P : Type) where
  start : P
  stop : P
deriving DecidableEq, Repr

namespace Span

variable {P Q : Type}

instance [Inhabited P] : Inhabited (Span P) := ⟨⟨default, default⟩⟩

def point (p : P) : Span P := ⟨p, p⟩

def through (first last : Span P) : Span P := ⟨first.start, last.stop⟩

def map (f : P → Q) (span : Span P) : Span Q := ⟨f span.start, f span.stop⟩

@[simp]
theorem map_point (f : P → Q) (p : P) : (point p).map f = point (f p) := rfl

@[simp]
theorem map_through (f : P → Q) (first last : Span P) :
    (first.through last).map f = (first.map f).through (last.map f) := rfl

end Span

end Reckon
