import SsisCompiler.Proofs.Compile.MemberText
import SsisCompiler.Proofs.Compile.Methods

/-!
# Every executable has its method

The text of a program has a region with the texts of all methods, one after the other.

Results:
* `exists_of_compile`: what a package becomes is the program of the tree that was read.
* `methods_of_compile`: the methods are those of the executables of the package depth first, once
  each and in document order.
-/

namespace SsisCompiler.Compile

open CSharp (lineAt linesAt)
open Package (Layout Reading Tree)

namespace Program

theorem exists_of_source {p : Program} {fill : Filler} {options : Options} {t : Tree}
    {project source : String} (h : p.source fill options t project = .ok source) :
    ∃ header footer, p.headerText fill options t project = .ok header ∧
      fill .footer [] = .ok footer ∧
      source = header ++ (p.fieldRegion ++ p.methodRegion) ++ footer := by
  unfold Program.source at h
  cases hheader : p.headerText fill options t project with
  | error e => simp [hheader, bind, Except.bind] at h
  | ok header =>
    cases hfooter : fill .footer [] with
    | error e => simp [hheader, hfooter, bind, Except.bind] at h
    | ok footer =>
      rw [hheader, hfooter] at h
      refine ⟨header, footer, rfl, rfl, ?_⟩
      rw [← memberText_eq]
      exact (Except.ok.inj h).symm

end Program

/-- What a package becomes is the program of the tree that was read from it. -/
theorem exists_of_compile {settings : Settings} {project text : String} {out : Output}
    (h : compile settings project text = .ok out) :
    ∃ reading, Reading.ofText? { precedence := settings.precedence } text = some reading ∧
      reading.tree.Preordered ∧
      Program.ofTree? settings.options reading.tree = some out.program ∧
      out.program.source Template.fill settings.options reading.tree project = .ok out.source := by
  unfold compile compileWith at h
  split at h
  · cases h
  · rename_i reading hreading
    refine ⟨reading, hreading, ?_, ?_⟩
    · obtain ⟨e, -, rfl⟩ := Option.map_eq_some_iff.1 hreading
      exact Package.preordered_ofElement _ e
    · unfold compileReading at h
      split at h
      · cases h
      · rename_i program hprogram
        split at h
        · cases h
        · rename_i source hsource
          obtain rfl := Except.ok.inj h
          exact ⟨hprogram, hsource⟩

/-- No executable of a package is lost, repeated or moved. The methods of the program are those of the
listing that has each executable before the executables that it runs, in the same order; the listing is
in document order without repetition. Each method has the name that its executable has in the end, no
two have one name, and as many executables have a name as there are methods. The region of the methods
is the texts of exactly these methods, each with the documentation of its executable, the line that
declares it under its name, and its body; the program starts with the first. -/
theorem methods_of_compile (settings : Settings) (project text : String) (out : Output)
    (h : compile settings project text = .ok out) :
    ∃ reading listing entry names header footer,
      Reading.ofText? { precedence := settings.precedence } text = some reading ∧
      DepthFirst reading.tree (Layout.ofTree reading.tree).executables listing ∧
      listing.Pairwise (· < ·) ∧
      out.program.methods.map (·.id) = listing ∧
      (Layout.ofTree reading.tree).executables.head? = some entry ∧
      (Program.setup settings.options reading.tree).methodsOf
        (Layout.ofTree reading.tree).executables [] (Program.startNames reading.tree entry) =
        (out.program.methods, names) ∧
      (∀ c ∈ out.program.methods, names.nameOf? c.id = some c.method.name ∧
        c.method.summary = (Program.setup settings.options reading.tree).summary c.id ∧
        ∃ moment, c = ((Program.setup settings.options reading.tree).method c.id
          c.method.parameters moment).1) ∧
      (out.program.methods.map (·.method.name)).Nodup ∧
      out.program.methodCount = listing.length ∧
      out.program.methods.head?.map (·.method.name) = some out.program.entryPoint ∧
      out.program.headerText Template.fill settings.options reading.tree project = .ok header ∧
      Template.fill .footer [] = .ok footer ∧
      out.source = header ++ (out.program.fieldRegion ++
        (lineAt 2 "#region SSIS Code" ++ String.join (out.program.methods.map fun c =>
          lineAt 2 "/// <summary>"
            ++ linesAt 2 (c.method.summary.map fun paragraph => "/// " ++ CSharp.docText paragraph)
            ++ lineAt 2 "/// </summary>"
            ++ lineAt 2 ("public static void " ++ c.method.name ++ "(" ++ ", ".intercalate
              (c.method.parameters.map fun v => "ref " ++ v.typeName ++ " " ++ v.name) ++ ")")
            ++ lineAt 2 "\x7b" ++ c.method.body.text 3 ++ lineAt 2 "\x7d" ++ "\n")
          ++ lineAt 2 "#endregion")) ++ footer := by
  obtain ⟨reading, hreading, ht, hprogram, hsource⟩ := exists_of_compile h
  obtain ⟨entry, names, hrun⟩ := Program.exists_run hprogram
  obtain ⟨header, footer, hheader, hfooter, htext⟩ := Program.exists_of_source hsource
  obtain ⟨hlisting, horder⟩ := hrun.depthFirst ht
  refine ⟨reading, _, entry, names, header, footer, hreading, hlisting, horder, rfl, hrun.head,
    hrun.methods, ?_, hrun.nodup_names ht, ?_, hrun.entryPoint_eq ht, hheader, hfooter, htext⟩
  · intro c hc
    obtain ⟨moment, hmoment⟩ := hrun.exists_compiledFrom ht c hc
    have hmethod := hmoment.eq_method
    refine ⟨hrun.nameOf?_final ht c hc, ?_, moment, hmethod⟩
    rw [hmethod, Setup.method]
  · rw [hrun.methodCount_eq ht, List.length_map]

/-- A sequence with a variable, which runs an executable of its own name. -/
def nestedText : String :=
  "<DTS:Executable xmlns:DTS=\"d\">" ++
    "<DTS:Executable DTS:ObjectName=\"A\" DTS:CreationName=\"STOCK:SEQUENCE\">" ++
      "<DTS:Variables><DTS:Variable DTS:ObjectName=\"v\"/></DTS:Variables>" ++
      "<DTS:Executable DTS:ObjectName=\"A\" DTS:Description=\"x&lt;1\"/>" ++
    "</DTS:Executable></DTS:Executable>"

/-- The members of the program of `nestedText`, line by line. -/
def nestedMembers : List String := [
  "        #region Global Variables",
  "        #endregion",
  "",
  "",
  "        #region SSIS Code",
  "        /// <summary>",
  "        /// DTS:Executable 'A'",
  "        /// </summary>",
  "        public static void A()",
  "        \x7b",
  "            dynamic v = null;",
  "            A2(ref v);",
  "        \x7d",
  "",
  "        /// <summary>",
  "        /// DTS:Executable 'A'",
  "        /// x&lt;1",
  "        /// </summary>",
  "        public static void A2(ref dynamic v)",
  "        \x7b",
  "            // UNTRANSLATED: task type '' has no translation",
  "            throw new NotImplementedException(@\"A2 is not translated\");",
  "        \x7d",
  "",
  "        #endregion"]

theorem methods_of_compile_nestedText :
    ∃ out header footer, compile {} "P" nestedText = .ok out ∧
      out.program.methods.map (fun c => (c.id, c.method.name)) = [(1, "A"), (4, "A2")] ∧
      out.program.methodCount = out.program.methods.length ∧
      out.program.methods.head?.map (·.method.name) = some out.program.entryPoint ∧
      out.source = header ++ String.join (nestedMembers.map (· ++ "\n")) ++ footer := by
  have hout : ((compile {} "P" nestedText).toOption.map fun out =>
      (out.program.methods.map fun c => (c.id, c.method.name),
        out.program.fieldRegion ++ out.program.methodRegion)) =
      some ([(1, "A"), (4, "A2")], String.join (nestedMembers.map (· ++ "\n"))) := by
    decide +kernel
  generalize h : compile {} "P" nestedText = result at hout ⊢
  cases result with
  | error e => cases hout
  | ok out =>
    obtain ⟨hmethods, hmembers⟩ := Prod.mk.inj (Option.some.inj hout)
    obtain ⟨_, _, _, _, header, footer, _, _, _, hlisting, _, _, _, _, hcount, hentry, _, _, htext⟩ :=
      methods_of_compile _ _ _ out h
    refine ⟨out, header, footer, rfl, hmethods, ?_, hentry, ?_⟩
    · rw [hcount, ← hlisting, List.length_map]
    · rw [← hmembers]
      exact htext

end SsisCompiler.Compile
