import SsisCompiler.Proofs.Compile.Members
import SsisCompiler.Proofs.Compile.SourceText

/-!
# Identifiers of declarations

What a program declares has a name made from one of the package or of the project. A variable's name is
marked if it reads as a keyword, and a method gets a name that is none. The namespace is what the name
of the project reads as.

Results:
* `sanitize_mem_keywords_iff`: which names read as keywords.
* `isDeclarable_variableIdent`, `isDeclarable_sanitize_iff`: which identifiers may be declared.
* `Program.Run.isDeclarable_declaredNames`: the names inside a method.
* `declared_names_legal`: all names that a program declares.
-/

namespace SsisCompiler.CSharp

/-! ## Names that may be declared -/

/-- A name that a declaration may have: a plain identifier that is no keyword, or a keyword that is
marked as a name. -/
def IsDeclarable (name : String) : Prop :=
  (isIdentifier name = true ∧ name ∉ keywords) ∨ ∃ keyword ∈ keywords, name = "@" ++ keyword

instance (name : String) : Decidable (IsDeclarable name) :=
  inferInstanceAs (Decidable (_ ∨ _))

theorem isDeclarable_iff_of_isIdentifier {name : String} (h : isIdentifier name = true) :
    IsDeclarable name ↔ name ∉ keywords := by
  constructor
  · rintro (⟨-, hkeyword⟩ | ⟨keyword, -, rfl⟩)
    · exact hkeyword
    · exact absurd rfl (marked_ne_of_isIdentifier h keyword)
  · exact fun hkeyword => Or.inl ⟨h, hkeyword⟩

theorem isDeclarable_variableIdent (s : String) : IsDeclarable (variableIdent s) := by
  rcases variableIdent_cases s with ⟨hkeyword, heq⟩ | ⟨-, heq⟩ | ⟨hkeyword, -, heq⟩
  · exact Or.inr ⟨sanitize s, hkeyword, heq⟩
  · rw [heq]
    decide
  · rw [heq]
    exact Or.inl ⟨isIdentifier_sanitize s, hkeyword⟩

/-! ## Names that read as keywords -/

theorem identChar_eq_iff {c d : Char} (hd : d.isAlpha = true) : identChar c = d ↔ c = d := by
  unfold identChar
  split
  · rfl
  · rename_i hc
    constructor
    · rintro rfl
      cases hd
    · rintro rfl
      exact absurd (by simp [isIdentChar, Char.isAlphanum, hd]) hc

theorem map_identChar_eq_iff {word : List Char} (hword : ∀ d ∈ word, d.isAlpha = true)
    (cs : List Char) : cs.map identChar = word ↔ cs = word := by
  induction cs generalizing word with
  | nil => rfl
  | cons c cs ih =>
    cases word with
    | nil => simp
    | cons d word =>
      obtain ⟨hd, hword⟩ := List.forall_mem_cons.1 hword
      rw [List.map_cons, List.cons.injEq, List.cons.injEq, identChar_eq_iff hd, ih hword]

/-- Letters stay as they are, and nothing else becomes letters: the underscore that is put before a digit
is none. -/
theorem identChars_eq_iff {d : Char} {word : List Char} (hd : d.isAlpha = true)
    (hword : ∀ e ∈ word, e.isAlpha = true) (cs : List Char) :
    identChars cs = d :: word ↔ cs = d :: word := by
  have hfront : '_' ≠ d := by
    rintro rfl
    cases hd
  cases cs with
  | nil =>
    refine iff_of_false (fun h => hfront ?_) (by simp)
    exact (List.cons_eq_cons.1 h).1
  | cons c cs =>
    rw [identChars]
    split
    · rename_i hdigit
      refine iff_of_false (fun h => hfront (List.cons_eq_cons.1 h).1) fun h => ?_
      obtain ⟨rfl, -⟩ := List.cons_eq_cons.1 h
      have hletter := Text.of_isDigit (p := (!Char.isAlpha ·)) (by decide) hdigit
      rw [hd] at hletter
      cases hletter
    · exact map_identChar_eq_iff (List.forall_mem_cons.2 ⟨hd, hword⟩) _

/-- A name reads as a keyword exactly if it is that keyword, apart from blanks around it. -/
theorem sanitize_mem_keywords_iff (s : String) : sanitize s ∈ keywords ↔ Text.trim s ∈ keywords := by
  have hletters : keywords.all (fun keyword => keyword.toList != [] && keyword.toList.all Char.isAlpha) =
      true := by
    decide
  have hread : ∀ keyword ∈ keywords, sanitize s = keyword ↔ Text.trim s = keyword := by
    intro keyword hkeyword
    have hword := List.all_eq_true.1 hletters keyword hkeyword
    rw [Bool.and_eq_true, bne_iff_ne, List.all_eq_true] at hword
    obtain ⟨d, word, hcons⟩ := List.exists_cons_of_ne_nil hword.1
    rw [hcons, List.forall_mem_cons] at hword
    rw [← String.toList_inj, ← String.toList_inj, sanitize, Text.trim, String.toList_ofList,
      String.toList_ofList, hcons]
    exact identChars_eq_iff hword.2.1 hword.2.2 _
  constructor
  · intro h
    rw [(hread _ h).1 rfl]
    exact h
  · intro h
    rw [(hread _ h).2 rfl]
    exact h

theorem isDeclarable_sanitize_iff (s : String) :
    IsDeclarable (sanitize s) ↔ Text.trim s ∉ keywords := by
  rw [isDeclarable_iff_of_isIdentifier (isIdentifier_sanitize s), sanitize_mem_keywords_iff]

end SsisCompiler.CSharp

namespace SsisCompiler.Compile

open CSharp (IsDeclarable isDeclarable_variableIdent)
open Package (Layout NodeId Reading Tree)

/-! ## Names in methods -/

theorem isDeclarable_declaredVariable (t : Tree) (id : NodeId) :
    IsDeclarable (declaredVariable t id).name := by
  simp only [declaredVariable, variableName]
  exact isDeclarable_variableIdent _

theorem isDeclarable_declaredIn (t : Tree) (id : NodeId) :
    ∀ name ∈ (declaredIn t id).map (·.name), IsDeclarable name := by
  rw [List.forall_mem_map]
  intro v hv
  unfold declaredIn at hv
  split at hv
  · obtain ⟨i, -, rfl⟩ := List.mem_map.1 hv
    exact isDeclarable_declaredVariable t i
  · exact absurd hv List.not_mem_nil

/-- The names of the locals that are no variables of the package. -/
def fixedLocalNames : List String :=
  ["connstr", "sql", "conn", "server", "cmd", "dr", "script", "message", "client", "item"]

theorem fixedLocals_subset (t : Tree) (useSmo : Bool) (id : NodeId) :
    fixedLocals t useSmo id ⊆ fixedLocalNames := by
  unfold fixedLocals sqlLocals scriptLocals
  dsimp only
  split
  · split_ifs <;> decide
  · split
    · exact List.nil_subset _
    · split_ifs <;> decide
  · decide
  · split_ifs <;> decide
  · exact List.nil_subset _

theorem isDeclarable_fixedLocals (t : Tree) (useSmo : Bool) (id : NodeId) :
    ∀ name ∈ fixedLocals t useSmo id, IsDeclarable name := by
  have hnames : ∀ name ∈ fixedLocalNames, IsDeclarable name := by decide
  exact fun name hname => hnames name (fixedLocals_subset t useSmo id hname)

theorem Program.InScope.isDeclarable {t : Tree} {p : Program} {i : NodeId} {name : String}
    (h : p.InScope t i name) : IsDeclarable name := by
  obtain ⟨m, -, -, hname⟩ := h
  exact isDeclarable_declaredIn t m.id name hname

namespace Program.Run

variable {options : Options} {t : Tree} {p : Program} {entry : NodeId} {final : Names}

theorem isDeclarable_fields (h : Run options t p entry final) :
    ∀ v ∈ p.fields, IsDeclarable v.name := by
  rw [h.fields, List.forall_mem_map]
  exact fun id _ => isDeclarable_declaredVariable t id

theorem isDeclarable_name (h : Run options t p entry final) (ht : t.Preordered) {c : Compiled}
    (hc : c ∈ p.methods) : IsDeclarable c.method.name := by
  have hlegal := (h.sound ht).legal_of_nameOf? (h.nameOf?_final ht c hc)
  exact Or.inl ⟨hlegal.isIdentifier, hlegal.not_keyword⟩

/-- The names inside a method are those of variables of the package and those of the fixed locals. -/
theorem isDeclarable_declaredNames (h : Run options t p entry final) (ht : t.Preordered) {c : Compiled}
    (hc : c ∈ p.methods) : ∀ name ∈ declaredNames c.method, IsDeclarable name := by
  obtain ⟨moment, hmoment⟩ := h.exists_compiledFrom ht c hc
  intro name hname
  rw [declaredNames, hmoment.declared_eq, ← List.append_assoc, Setup.append_declared_declareAll,
    List.mem_append, Setup.mem_map_name_declareAll] at hname
  rcases hname with hname | hname
  · exact ((h.inScope_iff ht hc name).2 hname).isDeclarable
  · exact isDeclarable_fixedLocals _ _ _ name hname

end Program.Run

/-! ## Names of a program -/

/-- Fields, methods, parameters and locals have names that may be declared. The namespace of a program is
an identifier as well, but no mark is put before a keyword there: it may be declared exactly if the name
of the project is no keyword, apart from blanks around it. The text of the program has the namespace and
the members, spelled out with the names that they declare. -/
theorem declared_names_legal (settings : Settings) (project text : String) (out : Output)
    (h : compile settings project text = .ok out) :
    ∃ reading imports opening footer,
      Reading.ofText? { precedence := settings.precedence } text = some reading ∧
      out.source = titleLine (reading.tree.root.name.getD project) ++ "\n" ++ (imports ++
        "\nnamespace " ++ CSharp.sanitize project ++ "\n" ++ opening ++ out.program.memberText ++
          footer) ∧
      out.program.memberText = out.program.fieldRegion ++ out.program.methodRegion ∧
      CSharp.isIdentifier (CSharp.sanitize project) = true ∧
      (IsDeclarable (CSharp.sanitize project) ↔ Text.trim project ∉ CSharp.keywords) ∧
      (∀ v ∈ out.program.fields, IsDeclarable v.name) ∧
      ∀ c ∈ out.program.methods, IsDeclarable c.method.name ∧
        ∀ name ∈ declaredNames c.method, IsDeclarable name := by
  obtain ⟨reading, hreading, ht, hprogram, hsource⟩ := exists_of_compile h
  obtain ⟨entry, final, hrun⟩ := Program.exists_run hprogram
  obtain ⟨imports, opening, footer, hfilled⟩ := out.program.exists_source_eq settings.options
  rw [hfilled reading.tree project, Except.ok.injEq] at hsource
  exact ⟨reading, imports, opening, footer, hreading, hsource.symm,
    out.program.memberText_eq, CSharp.isIdentifier_sanitize project,
    CSharp.isDeclarable_sanitize_iff project, hrun.isDeclarable_fields, fun c hc =>
      ⟨hrun.isDeclarable_name ht hc, hrun.isDeclarable_declaredNames ht hc⟩⟩

/-- A package of keywords: a variable, and a sequence of the same name with a variable of its own around
an executable. -/
def keywordText : String :=
  "<DTS:Executable xmlns:DTS=\"d\"><DTS:Variable DTS:ObjectName=\"class\"/>" ++
    "<DTS:Executable DTS:ObjectName=\"class\" DTS:CreationName=\"STOCK:SEQUENCE\">" ++
      "<DTS:Variable DTS:ObjectName=\"int\"/><DTS:Executable DTS:ObjectName=\"1-a\"/>" ++
        "</DTS:Executable></DTS:Executable>"

theorem exists_program_keywordText :
    ∃ reading p, Reading.ofText? { precedence := Settings.precedence {} } keywordText = some reading ∧
      Program.ofTree? {} reading.tree = some p ∧ p.fields.map (·.name) = ["@class"] ∧
      p.methods.map (fun c => (c.method.name, declaredNames c.method)) =
        [("class2", ["@int"]), ("_1_a", ["@int"])] := by
  have hread : (Reading.ofText? { precedence := Settings.precedence {} } keywordText).map (fun reading =>
      (Program.ofTree? {} reading.tree).map fun p => (p.fields.map (·.name),
        p.methods.map fun c => (c.method.name, declaredNames c.method))) =
      some (some (["@class"], [("class2", ["@int"]), ("_1_a", ["@int"])])) := by
    decide +kernel
  obtain ⟨reading, hreading, hprogram⟩ := Option.map_eq_some_iff.1 hread
  obtain ⟨p, hp, hnames⟩ := Option.map_eq_some_iff.1 hprogram
  obtain ⟨hfields, hmethods⟩ := Prod.mk.inj hnames
  exact ⟨reading, p, hreading, hp, hfields, hmethods⟩

/-- In a project whose name is no keyword all of them may be declared. -/
theorem declared_names_legal_keywordText :
    ∃ out, compile {} " my class " keywordText = .ok out ∧
      IsDeclarable (CSharp.sanitize " my class ") ∧
      out.program.fields.map (·.name) = ["@class"] ∧ (∀ v ∈ out.program.fields, IsDeclarable v.name) ∧
      out.program.methods.map (fun c => (c.method.name, declaredNames c.method)) =
        [("class2", ["@int"]), ("_1_a", ["@int"])] ∧
      ∀ c ∈ out.program.methods, IsDeclarable c.method.name ∧
        ∀ name ∈ declaredNames c.method, IsDeclarable name := by
  obtain ⟨reading, p, hreading, hp, hfields, hmethods⟩ := exists_program_keywordText
  obtain ⟨imports, opening, footer, hcompile⟩ := exists_compile_eq hreading hp
  obtain ⟨-, -, -, -, -, -, -, -, hproject, hfieldsLegal, hmethodsLegal⟩ :=
    declared_names_legal {} " my class " keywordText _ (hcompile " my class ")
  exact ⟨_, hcompile " my class ", hproject.2 (by decide), hfields, hfieldsLegal, hmethods,
    hmethodsLegal⟩

/-- The namespace of a project that is named by a keyword is the keyword. -/
theorem not_declared_names_legal_keywordText :
    ∃ out before behind, compile {} "class" keywordText = .ok out ∧
      out.source = before ++ "\nnamespace class\n" ++ behind ∧ ¬ IsDeclarable "class" := by
  obtain ⟨reading, p, hreading, hp, -, -⟩ := exists_program_keywordText
  obtain ⟨imports, opening, footer, hcompile⟩ := exists_compile_eq hreading hp
  have hnamespace : "\nnamespace " ++ CSharp.sanitize "class" ++ "\n" = "\nnamespace class\n" := by
    decide
  refine ⟨_, titleLine (reading.tree.root.name.getD "class") ++ "\n" ++ imports,
    opening ++ p.memberText ++ footer, hcompile "class", ?_, by decide⟩
  rw [← hnamespace]
  simp only [String.append_assoc]

end SsisCompiler.Compile
