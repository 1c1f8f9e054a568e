import Reckon.Fault
import Reckon.Text.Blank

set_option autoImplicit false

/-!
# Annotated reports

A fault drawn in colour under the line it is found on. A report shows one line and keeps to
characters that are one column wide.
-/

namespace Reckon.Fault

namespace Report

def paint (text colour : String) : String :=
  "\x1b[" ++ colour ++ "m" ++ text ++ "\x1b[0m"

def copies (count : Nat) (text : String) : String :=
  String.join (List.replicate count text)

def frame : String := "38;5;246"

def gutter : String := "38;5;240"

def plain : String := "38;5;249"

def category : Cause → String × String
  | .illegalCharacter _ => ("Lexical Error", "31")
  | .unexpectedToken .. | .unexpectedEnd _ | .tooDeep _ => ("Parse Error", "33")
  | _ => ("Runtime Error", "35")

structure Place where
  number : Nat
  offset : Nat
  line : List Char

def locate (index number offset : Nat) : List (List Char) → Option Place
  | [] => none
  -- The end of the text counts to the last line.
  | [line] => some ⟨number, offset, line⟩
  | line :: rest =>
    if offset + line.length ≤ index then locate index (number + 1) (offset + line.length) rest
    else some ⟨number, offset, line⟩

def width (shown : List Char) (column : Nat) : Nat :=
  -- A tab reaches to the next multiple of four columns.
  if shown[column]? = some '\t' then (column / 4 + 1) * 4 - column else 1

def paintCharacter (shown : List Char) (colour : Nat → String) (c : Char) (column : Nat) : String :=
  if Text.isBlank c then copies (width shown column) (paint " " (colour column))
  else paint c.toString (colour column)

def bar (shown : List Char) (colour : String) (first stop branch column : Nat) : String :=
  let wide := width shown column
  if first ≤ column ∧ column < stop then
    paint (if column = branch then "┬" else "─") colour ++ copies (wide - 1) (paint "─" colour)
  else copies wide " "

def arrow (shown : List Char) (colour : String) (branch column : Nat) : String :=
  let wide := width shown column
  if column = branch then paint "╰" colour ++ copies (wide - 1) (paint "─" colour)
  else if branch < column then copies wide (paint "─" colour)
  else copies wide " "

def columns (count : Nat) (draw : Nat → String) : String :=
  String.join ((List.range count).map draw)

def drawing (name message : String) (help : Option String) (colour : String) (start stop : Nat)
    (place : Place) : String :=
  let number := toString place.number
  let margin := number.length
  let blank := " " ++ paint (copies (margin + 1) " " ++ "│") gutter ++ " "
  let indent := copies (margin + 2) " "
  let title := indent ++ paint "╭" frame ++ paint "─" frame ++ paint "[" frame ++ name ++ ":" ++ number ++
    ":" ++ toString (start - place.offset + 1) ++ paint "]" frame ++ "\n"
  let shown := Text.trimEnd place.line
  let first := start - place.offset
  let last := stop - place.offset
  let branch := (start + stop) / 2 - place.offset
  let colourAt column := if first ≤ column ∧ column < last then colour else plain
  let body :=
    if stop ≤ place.offset + place.line.length then
      " " ++ paint (number ++ " │") frame ++ " " ++
        String.join (shown.zipIdx.map fun (c, column) => paintCharacter shown colourAt c column) ++ "\n" ++
        blank ++ columns (last + 2) (bar shown colour first last branch) ++ "\n" ++
        blank ++ columns (last + 2) (arrow shown colour branch) ++ " " ++ message ++ "\n"
    else blank ++ "\n"
  let note :=
    match help with
    | some help =>
      blank ++ "\n" ++ blank ++ paint "Note" "38;5;115" ++ ": " ++ paint "help" "36" ++ ": " ++ help ++ "\n"
    | none => ""
  title ++ indent ++ paint "│" frame ++ "\n" ++ body ++ note ++
    paint (copies (margin + 2) "─" ++ "╯") frame ++ "\n"

end Report

open Report

def report (fault : Fault Position) : String :=
  let source := fault.span.start.source
  let text := source.text.toList
  let name := if source.name = "" then "<repl>" else source.name
  let start := fault.span.start.index
  let stop := max fault.span.stop.index (start + 1)
  let (label, colour) := category fault.cause
  let message := fault.cause.message
  let header := paint "Error:" "31" ++ " " ++ paint label colour ++ ": " ++ message ++ "\n"
  -- A span outside the text leaves only the header.
  let place := if text.length < start ∨ text.length < stop - 1 then none
    else locate start 1 0 (Text.printedLines text)
  match place with
  | some place => header ++ drawing name message fault.help colour start stop place
  | none => header

end Reckon.Fault
