import SsisCompiler.Proofs.CSharp.Placeholders
import SsisCompiler.Proofs.CSharp.SourceLines
import SsisCompiler.Proofs.Compile.OptionEffects

/-!
# Names of the package in the text of a program

The text of a program begins with a comment that has the name of the package, and goes on with the
imports, the namespace and the members. The name goes into its comment as it is.

Results:
* `Program.exists_source_eq`, `exists_compile_eq`: where the name of the package and the namespace
  stand.
* `comments_hold_iff`: which texts and names stay inside their comments.
-/

namespace SsisCompiler.Template

theorem textLines_cons (line : String) (lines : List String) :
    textLines (line :: lines) = .text (line ++ "\n" ++ String.join (lines.map (· ++ "\n"))) := by
  rw [textLines, List.map_cons, String.join_cons]

theorem exists_parts_header : ∃ imports opening closing : String, parts .header = [
    .text "// Generated from SSIS package ", .slot "package_name", .text ("\n" ++ imports),
    .slot "sql_smo_using", .text "\nnamespace ", .slot "namespace", .text ("\n" ++ opening),
    .text "            ", .slot "main_function", .text closing, .slot "table_param_static",
    .text "\n"] := by
  simp only [parts, textLines_cons, String.empty_append]
  exact ⟨_, _, _, rfl⟩

/-- The filled header: the name on its first line, and the namespace on a line of its own. -/
theorem exists_fill_header (main smo tables : String) :
    ∃ imports opening, ∀ ns name, fill .header [("main_function", main), ("namespace", ns),
      ("package_name", name), ("sql_smo_using", smo), ("table_param_static", tables)] =
        .ok ("// Generated from SSIS package " ++ name ++ "\n" ++ imports ++ "\nnamespace " ++ ns ++
          "\n" ++ opening) := by
  obtain ⟨imports, opening, closing, hparts⟩ := exists_parts_header
  refine ⟨imports ++ smo, opening ++ "            " ++ main ++ closing ++ tables ++ "\n",
    fun ns name => ?_⟩
  have hfill : fillParts [("main_function", main), ("namespace", ns), ("package_name", name),
      ("sql_smo_using", smo), ("table_param_static", tables)] [
        .text "// Generated from SSIS package ", .slot "package_name", .text ("\n" ++ imports),
        .slot "sql_smo_using", .text "\nnamespace ", .slot "namespace", .text ("\n" ++ opening),
        .text "            ", .slot "main_function", .text closing, .slot "table_param_static",
        .text "\n"] =
      .ok ("// Generated from SSIS package " ++ (name ++ ("\n" ++ imports ++ (smo ++
        ("\nnamespace " ++ (ns ++ ("\n" ++ opening ++ ("            " ++ (main ++ (closing ++
          (tables ++ ("\n" ++ "")))))))))))) := rfl
  rw [fill, hparts, hfill]
  simp only [String.append_assoc, String.append_empty]

end SsisCompiler.Template

namespace SsisCompiler.Compile

open CSharp (IsCommentOnly Line commentMark hasHarmlessEnds isLineTerminator isSpaces sourceLines)
open Package (Reading)

/-! ## The text of a program -/

/-- What stands before the name of the package on the first line of a program. -/
def titleWords : String := "// Generated from SSIS package "

/-- The first line of a program for a package with a name. -/
def titleLine (name : String) : String :=
  titleWords ++ name

namespace Program

theorem exists_headerText_eq (p : Program) (options : Options) :
    ∃ imports opening, ∀ t project, p.headerText Template.fill options t project =
      .ok (titleLine (t.root.name.getD project) ++ "\n" ++ imports ++ "\nnamespace " ++
        CSharp.sanitize project ++ "\n" ++ opening) := by
  obtain ⟨smo, hsmo⟩ := Template.exists_fill_nil (t := .smoUsing) (by decide)
  obtain ⟨tables, htables⟩ := Template.exists_fill_nil (t := .tableParameters) (by decide)
  have hheader (smo tables : String) := Template.exists_fill_header p.entryPoint smo tables
  obtain ⟨mode, useSmo⟩ := options
  cases useSmo <;> cases mode <;> simp only [headerText, hsmo, htables]
  · obtain ⟨imports, opening, h⟩ := hheader "" tables
    exact ⟨imports, opening, fun t project => h _ _⟩
  · obtain ⟨imports, opening, h⟩ := hheader "" ""
    exact ⟨imports, opening, fun t project => h _ _⟩
  · obtain ⟨imports, opening, h⟩ := hheader smo tables
    exact ⟨imports, opening, fun t project => h _ _⟩
  · obtain ⟨imports, opening, h⟩ := hheader smo ""
    exact ⟨imports, opening, fun t project => h _ _⟩

/-- Where names stand in the text of a program: the package's name on the first line, and the project's
as the namespace. All else in the text comes from the options and the members. -/
theorem exists_source_eq (p : Program) (options : Options) :
    ∃ imports opening footer, ∀ t project, p.source Template.fill options t project =
      .ok (titleLine (t.root.name.getD project) ++ "\n" ++
        (imports ++ "\nnamespace " ++ CSharp.sanitize project ++ "\n" ++ opening ++ p.memberText ++
          footer)) := by
  obtain ⟨imports, opening, hheader⟩ := p.exists_headerText_eq options
  obtain ⟨footer, hfooter⟩ := Template.exists_fill_nil (t := .footer) (by decide)
  refine ⟨imports, opening, footer, fun t project => ?_⟩
  have hsource : p.source Template.fill options t project =
      .ok (titleLine (t.root.name.getD project) ++ "\n" ++ imports ++ "\nnamespace " ++
        CSharp.sanitize project ++ "\n" ++ opening ++ p.memberText ++ footer) := by
    rw [source, hheader, hfooter]
    rfl
  rw [hsource]
  simp only [String.append_assoc]

end Program

/-- The text of a package that was read and has a program, whatever the project is called. -/
theorem exists_compile_eq {settings : Settings} {text : String} {reading : Reading} {p : Program}
    (hreading : Reading.ofText? { precedence := settings.precedence } text = some reading)
    (hp : Program.ofTree? settings.options reading.tree = some p) :
    ∃ imports opening footer, ∀ project, compile settings project text = .ok ⟨
      titleLine (reading.tree.root.name.getD project) ++ "\n" ++
        (imports ++ "\nnamespace " ++ CSharp.sanitize project ++ "\n" ++ opening ++ p.memberText ++
          footer), p, reading.warnings⟩ := by
  obtain ⟨imports, opening, footer, hsource⟩ := p.exists_source_eq settings.options
  refine ⟨imports, opening, footer, fun project => ?_⟩
  rw [compile_of_reading settings hreading]
  exact compileReading_of_ofTree? hp (hsource reading.tree project)

/-! ## Comments -/

theorem isLineTerminator_of_isSpaces {indent : String} (h : isSpaces indent = true) :
    ∀ c ∈ indent.toList, isLineTerminator c = false := by
  intro c hc
  obtain rfl := beq_iff_eq.1 (List.all_eq_true.1 h c hc)
  rfl

theorem toList_title (name rest : String) : (titleLine name ++ "\n" ++ rest).toList =
    (titleLine name).toList ++ '\n' :: rest.toList := by
  simp

/-- The title is the first line of a program exactly if no line ends inside the name. -/
theorem head?_sourceLines_title (name rest : String) :
    (sourceLines (titleLine name ++ "\n" ++ rest).toList).head? = some (titleLine name).toList ↔
      ∀ c ∈ name.toList, isLineTerminator c = false := by
  have hwords : titleWords.toList.all (!isLineTerminator ·) = true := by decide
  have hplain : ∀ c ∈ titleWords.toList, isLineTerminator c = false := by
    intro c hc
    simpa using List.all_eq_true.1 hwords c hc
  have htitle : (titleLine name).toList = titleWords.toList ++ name.toList := String.toList_append
  rw [toList_title, CSharp.head?_sourceLines_append_newline, htitle]
  simp only [List.forall_mem_append, and_iff_right hplain]

/-- Which texts stay inside their comments. A comment and a placeholder hold their text exactly if every
end of a line in it is a line feed, goes with one, or has the mark of the comment behind it. The name of
a package stands behind the title's words on the first line of the program exactly if no line ends in
it; else what stands behind that end begins lines of the program. -/
theorem comments_hold_iff (indent text : String) (hindent : isSpaces indent = true) (p : Program)
    (options : Options) :
    (IsCommentOnly indent (Line.renderAll (CSharp.comment indent text)) ↔
      hasHarmlessEnds (commentMark indent) text.toList = true) ∧
    (IsCommentOnly indent (Line.renderAll (CSharp.placeholder indent text)) ↔
      hasHarmlessEnds (commentMark indent) text.toList = true) ∧
    ∃ rest : String → String, ∀ t project, ∃ source,
      p.source Template.fill options t project = .ok source ∧
      source = titleLine (t.root.name.getD project) ++ "\n" ++ rest project ∧
      sourceLines source.toList =
        sourceLines (Text.dropFinalReturn (titleLine (t.root.name.getD project)).toList) ++
          sourceLines (rest project).toList ∧
      ((sourceLines source.toList).head? = some (titleLine (t.root.name.getD project)).toList ↔
        ∀ c ∈ (t.root.name.getD project).toList, isLineTerminator c = false) := by
  have hplain := isLineTerminator_of_isSpaces hindent
  obtain ⟨imports, opening, footer, hsource⟩ := p.exists_source_eq options
  refine ⟨CSharp.isCommentOnly_comment_iff hplain text,
    CSharp.isCommentOnly_placeholder_iff hplain text, fun project => imports ++ "\nnamespace " ++
      CSharp.sanitize project ++ "\n" ++ opening ++ p.memberText ++ footer, fun t project => ?_⟩
  refine ⟨_, hsource t project, rfl, ?_, head?_sourceLines_title _ _⟩
  rw [toList_title, CSharp.sourceLines_append_newline]

/-- A program without members. -/
def emptyProgram : Program := ⟨[], [], "Start", 0⟩

/-- A comment holds a text with returns before line feeds and with a line that is marked by itself, and
the name of a package that is one line. -/
theorem comments_hold_iff_marked :
    isSpaces "  " = true ∧
      IsCommentOnly "  " (Line.renderAll (CSharp.comment "  " "a\r\r\n\n\u2028  // b\r")) ∧
      ∃ source, emptyProgram.source Template.fill {} ⟨⟨"k", some "A B", [], [], [], none⟩, #[]⟩ "P" =
          .ok source ∧
        (sourceLines source.toList).head? = some (titleLine "A B").toList := by
  obtain ⟨hcomment, -, rest, hsource⟩ := comments_hold_iff "  "
    "a\r\r\n\n\u2028  // b\r" (by decide) emptyProgram {}
  obtain ⟨source, hok, -, -, hfirst⟩ := hsource ⟨⟨"k", some "A B", [], [], [], none⟩, #[]⟩ "P"
  have hname : ['A', ' ', 'B'].all (!isLineTerminator ·) = true := by decide
  refine ⟨by decide, hcomment.2 (by decide), source, hok, hfirst.2 fun c hc => ?_⟩
  simpa using List.all_eq_true.1 hname c hc

/-- A package whose name has a line feed, with an expression that has a return. -/
def brokenText : String :=
  "<DTS:Executable xmlns:DTS=\"d\" DTS:ObjectName=\"A&#10;B\">" ++
    "<DTS:Executable DTS:ObjectName=\"T\" DTS:CreationName=\"Microsoft.ExpressionTask\">" ++
      "<ExpressionTask Expression=\"FOO(&#13;x)\"/></DTS:Executable></DTS:Executable>"

/-- The expression leaves the comment of its placeholder, and the name leaves the first line. -/
theorem not_comments_hold_brokenText :
    ∃ out, compile {} "P" brokenText = .ok out ∧
      out.program.methods.map (·.method.body) = [[⟨0, .placeholder " EXPRESSION" "FOO(\rx)"⟩]] ∧
      ¬ IsCommentOnly "            " (Line.renderAll
        (CSharp.Statement.lines "            " (.placeholder " EXPRESSION" "FOO(\rx)"))) ∧
      (sourceLines out.source.toList).head? ≠ some (titleLine "A\nB").toList := by
  have hread : (Reading.ofText? { precedence := Settings.precedence {} } brokenText).map (fun reading =>
      (reading.tree.root.name, (Program.ofTree? {} reading.tree).map fun p =>
        p.methods.map (·.method.body))) =
      some (some "A\nB", some [[⟨0, .placeholder " EXPRESSION" "FOO(\rx)"⟩]]) := by
    decide +kernel
  obtain ⟨reading, hreading, hpair⟩ := Option.map_eq_some_iff.1 hread
  obtain ⟨hname, hprogram⟩ := Prod.mk.inj hpair
  obtain ⟨p, hp, hbody⟩ := Option.map_eq_some_iff.1 hprogram
  obtain ⟨imports, opening, footer, hcompile⟩ := exists_compile_eq hreading hp
  refine ⟨_, hcompile "P", hbody, by decide +kernel, ?_⟩
  dsimp only
  rw [hname, Option.getD_some, ne_eq, head?_sourceLines_title]
  intro hfirst
  exact absurd (hfirst '\n' (by decide)) (by decide)

end SsisCompiler.Compile
