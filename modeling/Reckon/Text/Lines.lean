set_option autoImplicit false

/-!
# Lines of a text

A text is cut into lines in two ways: at newlines alone, which the cut removes, and at every
character that ends a line in print, which then stays with its line.
-/

namespace Reckon.Text

def extendFirst {α : Type} (first : α) : List (List α) → List (List α)
  | [] => [[first]]
  | line :: rest => (first :: line) :: rest

@[simp]
theorem flatten_extendFirst {α : Type} (first : α) (lines : List (List α)) :
    (extendFirst first lines).flatten = first :: lines.flatten := by
  cases lines <;> simp [extendFirst]

/-- What stands between the marks; a text without a mark is one piece. -/
def pieces (mark : Char) (text : List Char) : List (List Char) :=
  text.foldr (fun c rest => if c = mark then [] :: rest else extendFirst c rest) [[]]

theorem pieces_cons (mark c : Char) (rest : List Char) :
    pieces mark (c :: rest) = if c = mark then [] :: pieces mark rest else extendFirst c (pieces mark rest) :=
  rfl

theorem pieces_ne_nil (mark : Char) (text : List Char) : pieces mark text ≠ [] := by
  induction text with
  | nil => simp [pieces]
  | cons c rest ih =>
    rw [pieces_cons]
    split
    · simp
    · cases h : pieces mark rest <;> simp [extendFirst]

theorem mark_notMem_pieces {mark : Char} {text piece : List Char} (h : piece ∈ pieces mark text) :
    mark ∉ piece := by
  induction text generalizing piece with
  | nil =>
    have h : piece = [] := by simpa [pieces] using h
    simp [h]
  | cons c rest ih =>
    rw [pieces_cons] at h
    split at h
    · rcases List.mem_cons.1 h with rfl | h
      · simp
      · exact ih h
    · rename_i ordinary
      cases e : pieces mark rest with
      | nil => exact absurd e (pieces_ne_nil mark rest)
      | cons first more =>
        rw [e, extendFirst] at h
        rcases List.mem_cons.1 h with rfl | h
        · have := @ih first (by simp [e])
          simp [this, Ne.symm ordinary]
        · exact ih (by simp [e, h])

def lines (text : List Char) : List (List Char) := pieces '\n' text

theorem lines_ne_nil (text : List Char) : lines text ≠ [] := pieces_ne_nil '\n' text

theorem newline_notMem_lines {text line : List Char} (h : line ∈ lines text) : '\n' ∉ line :=
  mark_notMem_pieces h

def isLineEnd (c : Char) : Bool :=
  c ∈ ['\n', '\u000b', '\u000c', '\r', '\u0085', '\u2028', '\u2029']

/-- The printed lines, each with its ending; after a final ending no empty line follows. -/
def printedLines : List Char → List (List Char)
  | [] => []
  | '\r' :: '\n' :: rest => ['\r', '\n'] :: printedLines rest
  | c :: rest =>
    if isLineEnd c then [c] :: printedLines rest else extendFirst c (printedLines rest)

theorem flatten_printedLines (text : List Char) : (printedLines text).flatten = text := by
  fun_induction printedLines text <;> simp_all

end Reckon.Text
