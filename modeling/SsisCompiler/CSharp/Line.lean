import SsisCompiler.Text.Basic

/-!
# Program text

Program text is a list of lines, each with its indentation. A comment takes one line for each line of
its text. Strings of any kind stand in verbatim literals, and texts of the package on single lines of
documentation comments.
-/

namespace SsisCompiler.CSharp

/-! ## Verbatim literals -/

/-- The inside of a verbatim literal: a quote is written twice, all else once. -/
def doubleQuotes : List Char → List Char
  | [] => []
  | c :: cs => if c == '"' then '"' :: '"' :: doubleQuotes cs else c :: doubleQuotes cs

/-- A string literal in which only the quote has a special form. -/
def verbatim (s : String) : String :=
  String.ofList ('@' :: '"' :: doubleQuotes s.toList ++ ['"'])

/-! ## Documentation comments -/

/-- A character as it stands in a documentation comment. -/
def docChar (c : Char) : List Char :=
  match c with
  | '&' => "&amp;".toList
  | '<' => "&lt;".toList
  | '>' => "&gt;".toList
  | c => [c]

/-- A text in one line of a documentation comment. -/
def docText (s : String) : String :=
  String.ofList ((Text.oneLine s).toList.flatMap docChar)

/-! ## Lines -/

/-- A line of program text. -/
structure Line where
  indent : String
  text : String
  deriving DecidableEq, Repr

namespace Line

/-- A line without anything on it. -/
def blank : Line := ⟨"", ""⟩

/-- A line with its end. -/
def render (line : Line) : String :=
  line.indent ++ line.text ++ "\n"

/-- The text of some lines. -/
def renderAll (lines : List Line) : String :=
  String.join (lines.map render)

@[simp] theorem renderAll_nil : renderAll [] = "" := rfl

theorem renderAll_cons (line : Line) (lines : List Line) :
    renderAll (line :: lines) = line.indent ++ line.text ++ "\n" ++ renderAll lines := by
  simp [renderAll, render]

theorem renderAll_append (a b : List Line) : renderAll (a ++ b) = renderAll a ++ renderAll b := by
  simp [renderAll, String.join_append]

end Line

/-- The indentation one level deeper. -/
def deeper (indent : String) : String :=
  indent ++ "    "

/-- The indentation some levels deeper. -/
def deeperBy (indent : String) : Nat → String
  | 0 => indent
  | depth + 1 => deeper (deeperBy indent depth)

/-- One line of a comment. -/
def commentText (line : String) : String :=
  if line.isEmpty then "//" else "// " ++ line

/-- A text as comment lines. -/
def comment (indent text : String) : List Line :=
  if text.isEmpty then [⟨indent, "//"⟩]
  else (Text.lines text).map fun line => ⟨indent, commentText line⟩

/-- The word that marks what could not be compiled. -/
def placeholderMark : String := "UNTRANSLATED"

/-- A comment in place of something that could not be compiled. -/
def placeholder (indent text : String) : List Line :=
  comment indent (placeholderMark ++ ": " ++ text)

end SsisCompiler.CSharp
