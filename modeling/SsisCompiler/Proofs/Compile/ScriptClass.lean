import SsisCompiler.Compile.Task.Script
import SsisCompiler.Proofs.Names.Fresh
import SsisCompiler.Proofs.Text.Pieces

/-!
# The class that a script task calls

A script task calls the main class of its script by the namespace that the source declares. The
namespace is cut out of a line of the source: what stands behind the word, without the braces and
semicolons at the end of the line. What stands behind the name on that line, and is neither a brace nor a
semicolon at the end, stays with the name.

Results:
* `declaredNamespace?_eq`: what is taken for the namespace, given the name and the rest of its line.
* `leftover_eq_empty_iff`: when the rest of the line leaves nothing behind.
* `scriptTask_calls_iff`: when a task calls the class in the namespace that the line declares.
-/

namespace SsisCompiler.Compile

open CSharp (Body Line Statement)
open Package (NodeId Tree)

/-! ## Lines that declare a namespace -/

/-- Whether a character is dropped from the end of a declaration. -/
def isCloser (c : Char) : Bool :=
  c == '\x7b' || c == ';'

/-- Whether a line begins as the declaration of a namespace, but for blanks. -/
def beginsNamespace (line : String) : Bool :=
  "namespace ".toList.isPrefixOf (Text.trim line).toList

/-- A name, not empty, with neither a blank nor a brace nor a semicolon in it. -/
def IsSpaceName (name : String) : Prop :=
  name ≠ "" ∧ ∀ c ∈ name.toList, Text.isBlank c = false ∧ isCloser c = false

theorem isSpaceName_of_isIdentifier {name : String} (h : CSharp.isIdentifier name = true) :
    IsSpaceName name := by
  obtain ⟨c, cs, hchars, -⟩ := (CSharp.isIdentifier_eq_true_iff name).1 h
  refine ⟨?_, fun c hc => ?_⟩
  · rintro rfl
    cases hchars
  · have hident := CSharp.isIdentChar_of_isIdentifier h c hc
    constructor
    · rw [← Bool.not_eq_true]
      intro hblank
      have hnot := Text.of_isBlank (p := (!CSharp.isIdentChar ·)) (by decide +kernel) hblank
      rw [hident] at hnot
      cases hnot
    · unfold isCloser
      rw [Bool.or_eq_false_iff, beq_eq_false_iff_ne, beq_eq_false_iff_ne]
      constructor <;> rintro rfl <;> exact absurd hident (by decide)

/-- Names with a dot between them. -/
theorem IsSpaceName.dot {name other : String} (h : IsSpaceName name) (hother : IsSpaceName other) :
    IsSpaceName (name ++ "." ++ other) := by
  refine ⟨by simp [h.1], fun c hc => ?_⟩
  rw [String.toList_append, String.toList_append, List.mem_append, List.mem_append] at hc
  rcases hc with (hc | hc) | hc
  · exact h.2 c hc
  · obtain rfl : c = '.' := by simpa using hc
    decide
  · exact hother.2 c hc

/-- The first declaration of a namespace in a source: the name and the rest of its line. -/
def FirstDeclaration (text name rest : String) : Prop :=
  ∃ line, (Text.lines text).find? beginsNamespace = some line ∧
    Text.trim line = "namespace " ++ name ++ rest

/-- What the rest of a line leaves with the name before it. -/
def leftover (rest : String) : String :=
  String.ofList (Text.dropEndWhile Text.isBlank (Text.dropEndWhile isCloser rest.toList))

/-- Behind a name, only the end of a text is dropped. -/
theorem dropEndWhile_append_name {p : Char → Bool} {name : List Char} (hne : name ≠ [])
    (hname : ∀ c ∈ name, p c = false) (before rest : List Char) :
    Text.dropEndWhile p (before ++ (name ++ rest)) =
      before ++ (name ++ Text.dropEndWhile p rest) := by
  obtain ⟨front, last, rfl⟩ := (List.eq_nil_or_concat name).resolve_left hne
  have hlast : p last = false := hname last (by simp)
  have hend := Text.dropEndWhile_append_cons hlast (before ++ front) rest
  simpa using hend

theorem trimWhile_append_name {p : Char → Bool} {name : List Char} (hne : name ≠ [])
    (hname : ∀ c ∈ name, p c = false) (rest : List Char) :
    Text.trimWhile p (name ++ rest) = name ++ Text.dropEndWhile p rest := by
  have hfront : (name ++ rest).dropWhile p = name ++ rest := by
    obtain ⟨c, cs, rfl⟩ := List.exists_cons_of_ne_nil hne
    rw [List.cons_append, List.dropWhile_cons, if_neg (by simp [hname c])]
  rw [Text.trimWhile, hfront]
  exact dropEndWhile_append_name hne hname [] rest

/-- The characters of a line that declares a namespace. It is trimmed, so it has no blank at its end. -/
theorem toList_trim {line name rest : String} (hname : IsSpaceName name)
    (h : Text.trim line = "namespace " ++ name ++ rest) :
    (Text.trim line).toList = "namespace ".toList ++ (name.toList ++ rest.toList) ∧
      Text.dropEndWhile Text.isBlank rest.toList = rest.toList := by
  have hlist : (Text.trim line).toList = "namespace ".toList ++ (name.toList ++ rest.toList) := by
    rw [h, String.toList_append, String.toList_append, List.append_assoc]
  refine ⟨hlist, ?_⟩
  have hne : name.toList ≠ [] := by simpa using hname.1
  have hend : Text.dropEndWhile Text.isBlank (Text.trim line).toList = (Text.trim line).toList := by
    rw [Text.trim, String.toList_ofList, Text.trimWhile, Text.dropEndWhile_dropEndWhile]
  rw [hlist, dropEndWhile_append_name hne fun c hc => (hname.2 c hc).1] at hend
  exact List.append_cancel_left (List.append_cancel_left hend)

theorem namespaceOfLine?_eq {line name rest : String} (hname : IsSpaceName name)
    (h : Text.trim line = "namespace " ++ name ++ rest) :
    namespaceOfLine? line = some (name ++ leftover rest) := by
  obtain ⟨hlist, hrest⟩ := toList_trim hname h
  have hne : name.toList ≠ [] := by simpa using hname.1
  have hblank : ∀ c ∈ name.toList, Text.isBlank c = false := fun c hc => (hname.2 c hc).1
  have hcloser : ∀ c ∈ name.toList, isCloser c = false := fun c hc => (hname.2 c hc).2
  have hdrop : (Text.trim line).toList.drop "namespace ".toList.length =
      name.toList ++ rest.toList := by
    rw [hlist, List.drop_left]
  have hstart : "namespace ".toList.isPrefixOf (Text.trim line).toList = true := by
    rw [hlist]
    exact List.isPrefixOf_iff_prefix.2 (List.prefix_append _ _)
  -- the three cuts, one after the other, leave the name and a part of the rest
  have hname' : Text.trimWhile Text.isBlank (Text.dropEndWhile isCloser
      (Text.trimWhile Text.isBlank (name.toList ++ rest.toList))) =
        (name ++ leftover rest).toList := by
    rw [trimWhile_append_name hne hblank, hrest,
      ← List.nil_append (name.toList ++ rest.toList), dropEndWhile_append_name hne hcloser,
      List.nil_append, trimWhile_append_name hne hblank, String.toList_append, leftover,
      String.toList_ofList]
  unfold namespaceOfLine?
  dsimp only
  rw [if_pos hstart, hdrop]
  show (if (Text.trimWhile Text.isBlank (Text.dropEndWhile isCloser _)).isEmpty then none
    else some (String.ofList (Text.trimWhile Text.isBlank (Text.dropEndWhile isCloser _)))) = _
  rw [hname', String.ofList_toList, if_neg]
  simp [hne]

theorem namespaceOfLine?_eq_none {line : String} (h : beginsNamespace line = false) :
    namespaceOfLine? line = none := by
  unfold namespaceOfLine?
  dsimp only
  rw [if_neg]
  rw [← beginsNamespace, h]
  exact Bool.false_ne_true

/-- A search that passes over what is not looked for finds what it would find at the first place that
is. -/
theorem findSome?_of_find? {α β : Type} {p : α → Bool} {f : α → Option β} {list : List α} {a : α}
    {b : β} (hfind : list.find? p = some a) (hskip : ∀ x, p x = false → f x = none)
    (hf : f a = some b) : list.findSome? f = some b := by
  induction list with
  | nil => cases hfind
  | cons x list ih =>
    rw [List.findSome?_cons]
    cases hx : p x with
    | true =>
      rw [List.find?_cons_of_pos hx] at hfind
      obtain rfl := Option.some.inj hfind
      rw [hf]
    | false =>
      rw [List.find?_cons_of_neg (by simp [hx])] at hfind
      rw [hskip x hx]
      exact ih hfind

/-- What is taken for the namespace of a source. -/
theorem declaredNamespace?_eq {text name rest : String} (hname : IsSpaceName name)
    (h : FirstDeclaration text name rest) :
    declaredNamespace? text = some (name ++ leftover rest) := by
  obtain ⟨line, hline, htrim⟩ := h
  exact findSome?_of_find? hline (fun _ => namespaceOfLine?_eq_none) (namespaceOfLine?_eq hname htrim)

/-! ## The rest of the line -/

theorem dropEndWhile_eq_nil_iff (p : Char → Bool) (cs : List Char) :
    Text.dropEndWhile p cs = [] ↔ ∀ c ∈ cs, p c = true := by
  rw [Text.dropEndWhile, List.reverse_eq_nil_iff, List.dropWhile_eq_nil_iff]
  simp

/-- The rest of a line leaves nothing with the name exactly if it is blanks and then closers. -/
theorem leftover_eq_empty_iff (rest : String) :
    leftover rest = "" ↔ ∃ blanks closers, rest.toList = blanks ++ closers ∧
      (∀ c ∈ blanks, Text.isBlank c = true) ∧ ∀ c ∈ closers, isCloser c = true := by
  rw [leftover, String.ofList_eq_empty_iff, dropEndWhile_eq_nil_iff]
  constructor
  · intro hblanks
    refine ⟨Text.dropEndWhile isCloser rest.toList, (rest.toList.reverse.takeWhile isCloser).reverse,
      ?_, hblanks, fun c hc => ?_⟩
    · rw [Text.dropEndWhile, ← List.reverse_append, List.takeWhile_append_dropWhile,
        List.reverse_reverse]
    · exact List.mem_takeWhile_imp (List.mem_reverse.1 hc)
  · rintro ⟨blanks, closers, hrest, hblanks, hclosers⟩ c hc
    have hcut : Text.dropEndWhile isCloser (blanks ++ closers) = Text.dropEndWhile isCloser blanks := by
      rw [Text.dropEndWhile, List.reverse_append,
        List.dropWhile_append_of_pos (by simpa using hclosers), Text.dropEndWhile]
    rw [hrest, hcut] at hc
    exact hblanks c ((Text.dropEndWhile_isPrefix _ _).subset hc)

/-! ## The call -/

/-- The class that a task calls: the first source of that name decides. -/
theorem mainNamespace?_eq {files : List (String × String)} {file : String × String} {space : String}
    (hfile : files.find? (fun file => Text.equalIgnoringCase (scriptStem file.1) scriptClass) =
      some file) (hspace : declaredNamespace? file.2 = some space) :
    mainNamespace? files = some space := by
  rw [← List.head?_filter] at hfile
  obtain ⟨others, hothers⟩ := List.head?_eq_some_iff.1 hfile
  rw [mainNamespace?, hothers, List.findSome?_cons, hspace]

theorem lines_callScript (indent method space : String) :
    (Body.placedAt 0 (callScript method (some space))).lines indent =
      CSharp.comment indent ("Script sources: scripts/" ++ method ++ "/") ++
        [⟨indent, space ++ ".ScriptMain script = new " ++ space ++ ".ScriptMain();"⟩,
          ⟨indent, "script.Main();"⟩] := by
  have htext : space ++ "." ++ scriptClass ++ " " ++ "script" ++ " = " ++
      ("new " ++ (space ++ "." ++ scriptClass) ++ "()") ++ ";" =
        space ++ ".ScriptMain script = new " ++ space ++ ".ScriptMain();" := by
    simp only [scriptClass, String.append_assoc]
    rfl
  rw [← htext]
  simp [Body.placedAt, callScript, Body.lines, Statement.lines, Statement.newLocal,
    CSharp.Variable.declaration, CSharp.deeperBy]

/-- The call of a class tells which class it is, although the name stands in it twice. -/
theorem callLine_inj {a b : String} (h : a ++ ".ScriptMain script = new " ++ a ++ ".ScriptMain();" =
    b ++ ".ScriptMain script = new " ++ b ++ ".ScriptMain();") : a = b := by
  have hlist := congrArg String.toList h
  simp only [String.toList_append, List.append_assoc] at hlist
  have hlength := congrArg List.length hlist
  simp only [List.length_append] at hlength
  exact String.toList_inj.1 (List.append_inj hlist (by omega)).1

/-- The body of a task whose script is not written in Visual Basic and has a main source that declares
a namespace. -/
theorem lines_scriptTask {site : Site} {project : NodeId} {file : String × String}
    (hproject : site.tree.findDescendant? site.id "ScriptProject" = some project)
    (hlanguage : isVisualBasic (site.tree.node project) = false)
    (hfile : (sourceFiles site.tree project).find?
      (fun file => Text.equalIgnoringCase (scriptStem file.1) scriptClass) = some file)
    {space : String} (hspace : declaredNamespace? file.2 = some space) (indent : String) :
    site.scriptTask.body.lines indent =
      CSharp.comment indent ("Script sources: scripts/" ++ site.method ++ "/") ++
        [⟨indent, space ++ ".ScriptMain script = new " ++ space ++ ".ScriptMain();"⟩,
          ⟨indent, "script.Main();"⟩] := by
  have hsome : (sourceFiles site.tree project).isEmpty = false := by
    rw [List.isEmpty_eq_false_iff]
    exact List.ne_nil_of_mem (List.mem_of_find?_eq_some hfile)
  rw [Site.scriptTask, hproject]
  dsimp only
  rw [hsome, hlanguage, mainNamespace?_eq hfile hspace, ← lines_callScript]
  rfl

/-- A script task calls the class in the namespace that its source declares exactly if nothing but blanks
and then braces and semicolons stands behind the name on its line. The task has a project that is not
written in Visual Basic, and the first declaration in the first source named after the class has some
name and some rest of the line. A body of one line, or a comment, behind the name goes into the call. -/
theorem scriptTask_calls_iff {site : Site} {project : NodeId} {file : String × String}
    (hproject : site.tree.findDescendant? site.id "ScriptProject" = some project)
    (hlanguage : isVisualBasic (site.tree.node project) = false)
    (hfile : (sourceFiles site.tree project).find?
      (fun file => Text.equalIgnoringCase (scriptStem file.1) scriptClass) = some file)
    {name rest : String} (hname : IsSpaceName name)
    (hdeclaration : FirstDeclaration file.2 name rest) (indent : String) :
    [⟨indent, name ++ ".ScriptMain script = new " ++ name ++ ".ScriptMain();"⟩,
        ⟨indent, "script.Main();"⟩] <:+ site.scriptTask.body.lines indent ↔
      ∃ blanks closers, rest.toList = blanks ++ closers ∧
        (∀ c ∈ blanks, Text.isBlank c = true) ∧ ∀ c ∈ closers, isCloser c = true := by
  rw [lines_scriptTask hproject hlanguage hfile (declaredNamespace?_eq hname hdeclaration),
    ← leftover_eq_empty_iff]
  constructor
  · intro hsuffix
    have hlast := (List.suffix_of_suffix_length_le hsuffix (List.suffix_append _ _)
      (Nat.le_refl _)).eq_of_length rfl
    have htext := congrArg Line.text (List.cons.inj hlast).1
    have hspace : name ++ leftover rest = name ++ "" := by
      rw [String.append_empty]
      exact (callLine_inj htext).symm
    rw [← String.toList_inj, String.toList_append, String.toList_append] at hspace
    exact String.toList_inj.1 (List.append_cancel_left hspace)
  · intro hrest
    rw [hrest, String.append_empty]
    exact List.suffix_append _ _

/-- A task with a script of one source. -/
def scriptSite (text : String) : Site where
  tree := {
    root := { kind := "DTS:Executable" },
    entries := #[⟨0, { kind := "ScriptProject" }⟩,
      ⟨1, { kind := "ProjectItem", attributes := [("Name", "ScriptMain.cs")],
            content := some text }⟩] }
  id := 0
  method := "Run"

/-- A source that opens its namespace on the line of the declaration. -/
def openedSource : String := "using System;\n  namespace ST_1.csproj \x7b\n\x7d"

theorem scriptTask_calls_iff_opened :
    [⟨"", "ST_1.csproj.ScriptMain script = new ST_1.csproj.ScriptMain();"⟩,
      ⟨"", "script.Main();"⟩] <:+ (scriptSite openedSource).scriptTask.body.lines "" := by
  have hname : IsSpaceName ("ST_1" ++ "." ++ "csproj") :=
    (isSpaceName_of_isIdentifier (by decide)).dot (isSpaceName_of_isIdentifier (by decide))
  have hdeclaration : FirstDeclaration openedSource "ST_1.csproj" " \x7b" :=
    ⟨"  namespace ST_1.csproj \x7b", by decide +kernel, by decide +kernel⟩
  have hproject : (scriptSite openedSource).tree.findDescendant? 0 "ScriptProject" = some 1 := by
    decide +kernel
  have hfile : (sourceFiles (scriptSite openedSource).tree 1).find?
      (fun file => Text.equalIgnoringCase (scriptStem file.1) scriptClass) =
        some ("ScriptMain.cs", openedSource) := by
    decide +kernel
  refine (scriptTask_calls_iff hproject (by decide +kernel) hfile hname hdeclaration "").2 ?_
  exact ⟨[' '], ['\x7b'], by decide +kernel, List.forall_mem_singleton.2 (by decide),
    List.forall_mem_singleton.2 (by decide)⟩

/-- A source with a namespace of one line. -/
def oneLineSource : String := "namespace N \x7b class ScriptMain \x7b \x7d \x7d"

/-- The body of the namespace goes into the call. -/
theorem scriptTask_oneLineSource :
    FirstDeclaration oneLineSource "N" " \x7b class ScriptMain \x7b \x7d \x7d" ∧
    (scriptSite oneLineSource).scriptTask.body.lines "" =
      [⟨"", "// Script sources: scripts/Run/"⟩,
        ⟨"", "N \x7b class ScriptMain \x7b \x7d \x7d.ScriptMain script = " ++
          "new N \x7b class ScriptMain \x7b \x7d \x7d.ScriptMain();"⟩,
        ⟨"", "script.Main();"⟩] ∧
    ⟨"", "N.ScriptMain script = new N.ScriptMain();"⟩ ∉
      (scriptSite oneLineSource).scriptTask.body.lines "" := by
  have hlines : (scriptSite oneLineSource).scriptTask.body.lines "" =
      [⟨"", "// Script sources: scripts/Run/"⟩,
        ⟨"", "N \x7b class ScriptMain \x7b \x7d \x7d.ScriptMain script = " ++
          "new N \x7b class ScriptMain \x7b \x7d \x7d.ScriptMain();"⟩,
        ⟨"", "script.Main();"⟩] := by decide +kernel
  refine ⟨⟨oneLineSource, by decide +kernel, by decide +kernel⟩, hlines, ?_⟩
  rw [hlines]
  decide +kernel

end SsisCompiler.Compile
