import SsisCompiler.Compile.Program

/-!
# The text of the members

What a field, a method and a statement look like in the text of a program, written down once more as
plain text: each line is its words behind four spaces for each level. A method stands at some level;
its body stands one level deeper, and a statement as much deeper again as it is placed.

Results:
* `CSharp.Statement.renderAll_lines`, `CSharp.Body.renderAll_lines`: the lines of a statement and of a
  body.
* `CSharp.Method.render_eq_text`: the lines of a method are its documentation, the header with the name
  and the parameters, and the body between braces.
* `Compile.Program.memberText_eq`: the members are the fields and the methods, each in its region.
-/

namespace SsisCompiler.CSharp

/-! ## Lines -/

/-- Four spaces for each level. -/
def indentAt (level : Nat) : String :=
  String.join (List.replicate level "    ")

/-- Some words as a line at a level. -/
def lineAt (level : Nat) (words : String) : String :=
  indentAt level ++ words ++ "\n"

/-- Lines at one level. -/
def linesAt (level : Nat) (lines : List String) : String :=
  String.join (lines.map (lineAt level))

theorem indentAt_succ (level : Nat) : indentAt (level + 1) = deeper (indentAt level) := by
  simp [indentAt, deeper, List.replicate_succ', String.join_append]

theorem deeperBy_indentAt (level depth : Nat) :
    deeperBy (indentAt level) depth = indentAt (level + depth) := by
  induction depth with
  | zero => rfl
  | succ depth ih => rw [deeperBy, ih, ← Nat.add_assoc, indentAt_succ]

namespace Line

theorem renderAll_flatMap {α : Type} (f : α → List Line) (xs : List α) :
    renderAll (xs.flatMap f) = String.join (xs.map fun x => renderAll (f x)) := by
  induction xs with
  | nil => rfl
  | cons x xs ih =>
    rw [List.flatMap_cons, renderAll_append, ih, List.map_cons, String.join_cons]

theorem renderAll_map {α : Type} (level : Nat) (words : α → String) (xs : List α) :
    renderAll (xs.map fun x => ⟨indentAt level, words x⟩) = linesAt level (xs.map words) := by
  simp only [renderAll, linesAt, List.map_map]
  rfl

theorem renderAll_lineAt (level : Nat) (words : String) (rest : List Line) :
    renderAll (⟨indentAt level, words⟩ :: rest) = lineAt level words ++ renderAll rest :=
  renderAll_cons _ rest

theorem renderAll_blank (rest : List Line) : renderAll (blank :: rest) = "\n" ++ renderAll rest := by
  simp [renderAll_cons, blank]

end Line

/-! ## Statements -/

/-- The lines of a comment, without indentation: the mark stands before each line of the text. -/
def commentWords (text : String) : List String :=
  if text = "" then ["//"]
  else (Text.lines text).map fun line => if line = "" then "//" else "// " ++ line

theorem renderAll_comment (level : Nat) (text : String) :
    Line.renderAll (comment (indentAt level) text) = linesAt level (commentWords text) := by
  have hwords : commentText = fun line => if line = "" then "//" else "// " ++ line := by
    funext line
    simp [commentText]
  unfold comment commentWords
  by_cases htext : text = ""
  · subst htext
    exact Line.renderAll_map level id ["//"]
  · rw [if_neg (by simpa using htext), if_neg htext, Line.renderAll_map, hwords]

namespace Statement

/-- The lines of a statement, without indentation. -/
def words : Statement → List String
  | .declare v => [v.typeName ++ " " ++ v.name ++ " = " ++ v.initialValue ++ ";"]
  | .assign name value => [name ++ " = " ++ value ++ ";"]
  | .call method arguments =>
    [method ++ "(" ++ ", ".intercalate (arguments.map fun v => "ref " ++ v.name) ++ ");"]
  | .acquire v => ["using (" ++ (v.typeName ++ " " ++ v.name ++ " = " ++ v.initialValue) ++ ")"]
  | .forEach typeName name collection =>
    ["foreach (" ++ typeName ++ " " ++ name ++ " in " ++ collection ++ ")"]
  | .openBlock => ["\x7b"]
  | .closeBlock => ["\x7d"]
  | .code text => [text]
  | .comment text => commentWords text
  | .placeholder subject text => commentWords ("UNTRANSLATED" ++ subject ++ ": " ++ text)

theorem renderAll_lines (level : Nat) (s : Statement) :
    Line.renderAll (s.lines (indentAt level)) = linesAt level s.words := by
  cases s with
  | comment text => exact renderAll_comment level text
  | placeholder subject text => exact renderAll_comment level _
  | declare | assign | call | acquire | forEach | openBlock | closeBlock | code =>
    exact Line.renderAll_map level id [_]

end Statement

/-- The text of a body at a level. -/
def Body.text (level : Nat) (body : Body) : String :=
  String.join (body.map fun placed => linesAt (level + placed.depth) placed.statement.words)

theorem Body.renderAll_lines (level : Nat) (body : Body) :
    Line.renderAll (body.lines (indentAt level)) = body.text level := by
  simp only [lines, text, Line.renderAll_flatMap, deeperBy_indentAt, Statement.renderAll_lines]

/-! ## Methods -/

namespace Method

/-- The text of a method at a level: the paragraphs of its documentation, the line with its name and
parameters, the body between braces, and an empty line. -/
def text (level : Nat) (m : Method) : String :=
  lineAt level "/// <summary>"
    ++ linesAt level (m.summary.map fun paragraph => "/// " ++ docText paragraph)
    ++ lineAt level "/// </summary>"
    ++ lineAt level ("public static void " ++ m.name ++ "("
      ++ ", ".intercalate (m.parameters.map fun v => "ref " ++ v.typeName ++ " " ++ v.name) ++ ")")
    ++ lineAt level "\x7b" ++ m.body.text (level + 1) ++ lineAt level "\x7d" ++ "\n"

theorem render_eq_text (level : Nat) (m : Method) : m.render (indentAt level) = m.text level := by
  have hheader : m.header = "public static void " ++ m.name ++ "("
      ++ ", ".intercalate (m.parameters.map fun v => "ref " ++ v.typeName ++ " " ++ v.name) ++ ")" :=
    rfl
  rw [render, lines, hheader, ← indentAt_succ]
  simp only [Line.renderAll_append, Line.renderAll_map, Line.renderAll_lineAt,
    Line.renderAll_blank, Line.renderAll_nil, Body.renderAll_lines, text, String.append_assoc,
    String.append_empty]

end Method

end SsisCompiler.CSharp

namespace SsisCompiler.Compile.Program

open CSharp (Line lineAt linesAt)

/-- The text of the fields: each with its type, its name and its initial value on a line. -/
def fieldRegion (p : Program) : String :=
  lineAt 2 "#region Global Variables"
    ++ linesAt 2 (p.fields.map fun v =>
      "public static " ++ (v.typeName ++ " " ++ v.name ++ " = " ++ v.initialValue) ++ ";")
    ++ lineAt 2 "#endregion" ++ "\n\n"

/-- The text of the methods, one after the other. -/
def methodRegion (p : Program) : String :=
  lineAt 2 "#region SSIS Code" ++ String.join (p.methods.map (·.method.text 2))
    ++ lineAt 2 "#endregion"

theorem memberIndent_eq : memberIndent = CSharp.indentAt 2 := by
  decide

theorem renderAll_fieldLines (p : Program) : Line.renderAll p.fieldLines = p.fieldRegion := by
  have hfield : fieldLine (CSharp.indentAt 2) = fun v => ⟨CSharp.indentAt 2,
      "public static " ++ (v.typeName ++ " " ++ v.name ++ " = " ++ v.initialValue) ++ ";"⟩ := rfl
  rw [fieldLines, memberIndent_eq, hfield]
  simp only [Line.renderAll_append, Line.renderAll_map, Line.renderAll_lineAt,
    Line.renderAll_blank, Line.renderAll_nil, fieldRegion, String.append_assoc,
    String.append_empty]
  rfl

theorem renderAll_methodLines (p : Program) : Line.renderAll p.methodLines = p.methodRegion := by
  have hmethod : ∀ m : CSharp.Method, Line.renderAll (m.lines (CSharp.indentAt 2)) = m.text 2 :=
    CSharp.Method.render_eq_text 2
  rw [methodLines, memberIndent_eq]
  simp only [Line.renderAll_append, Line.renderAll_flatMap, Line.renderAll_lineAt, Line.renderAll_nil,
    hmethod, methodRegion, String.append_empty]

/-- The members of a program are its fields and its methods, spelled out. -/
theorem memberText_eq (p : Program) : p.memberText = p.fieldRegion ++ p.methodRegion := by
  rw [memberText, Line.renderAll_append, renderAll_fieldLines, renderAll_methodLines]

end SsisCompiler.Compile.Program
