import SsisCompiler.Proofs.Compile.Coverage
import SsisCompiler.Proofs.Compile.Locals
import SsisCompiler.Proofs.Expression.Grammar
import SsisCompiler.Proofs.Names.First

/-!
# The names of members

A program is a class whose members are the fields, the methods of the executables, and what the
templates around them declare. Methods get names that are free; a field is called as its variable is,
and the templates are as they are.

Results:
* `variableIdent_eq_iff`: which names of variables give one identifier.
* `templateMembers_eq`: what the templates declare.
* `Program.Run.names_requests`: the names of methods are those that a session hands out, asked in the
  order of the methods.
* `distinctMembers_iff`: when the members of a program have names of their own.
-/

namespace SsisCompiler.CSharp

/-! ## Identifiers of variables -/

theorem variableIdent_cases (s : String) :
    (sanitize s ∈ keywords ∧ variableIdent s = "@" ++ sanitize s) ∨
      (sanitize s = "Main" ∧ variableIdent s = "Main_") ∨
      (sanitize s ∉ keywords ∧ sanitize s ≠ "Main" ∧ variableIdent s = sanitize s) := by
  unfold variableIdent
  dsimp only
  split_ifs with hkeyword hmain
  · exact Or.inl ⟨by simpa using hkeyword, rfl⟩
  · obtain heq : sanitize s = "Main" := by simpa [fixedMembers] using hmain
    exact Or.inr (Or.inl ⟨heq, by rw [heq]; decide⟩)
  · exact Or.inr (Or.inr ⟨by simpa using hkeyword, by simpa [fixedMembers] using hmain, rfl⟩)

theorem marked_ne_of_isIdentifier {name : String} (hname : isIdentifier name = true) (s : String) :
    "@" ++ s ≠ name := by
  rintro rfl
  obtain ⟨c, cs, hcs, hc, -⟩ := (isIdentifier_eq_true_iff _).1 hname
  rw [String.toList_append] at hcs
  obtain rfl : '@' = c := (List.cons.inj hcs).1
  revert hc
  decide

/-- A plain name is the identifier of the variables that read so. The name of the fixed member is the
identifier of none: a variable that reads so is set apart. -/
theorem variableIdent_eq_name_iff {name : String} (hname : isIdentifier name = true)
    (hkeyword : name ∉ keywords) (s : String) :
    variableIdent s = name ↔
      (sanitize s = name ∧ name ≠ "Main") ∨ (sanitize s = "Main" ∧ name = "Main_") := by
  have hmain : "Main" ∉ keywords := by decide
  rcases variableIdent_cases s with ⟨hmem, heq⟩ | ⟨hfixed, heq⟩ | ⟨-, hne, heq⟩
  · refine iff_of_false (heq ▸ marked_ne_of_isIdentifier hname _) ?_
    rintro (⟨hsame, -⟩ | ⟨hsame, -⟩)
    · exact hkeyword (hsame ▸ hmem)
    · exact hmain (hsame ▸ hmem)
  · rw [heq, hfixed]
    constructor
    · rintro rfl
      exact Or.inr ⟨rfl, rfl⟩
    · rintro (⟨hsame, hne⟩ | ⟨-, hset⟩)
      · exact absurd hsame.symm hne
      · exact hset.symm
  · rw [heq]
    constructor
    · intro hsame
      exact Or.inl ⟨hsame, hsame ▸ hne⟩
    · rintro (⟨hsame, -⟩ | ⟨hfixed, -⟩)
      · exact hsame
      · exact absurd hfixed hne

theorem variableIdent_ne_main (s : String) : variableIdent s ≠ "Main" := by
  rw [ne_eq, variableIdent_eq_name_iff (by decide) (by decide)]
  rintro (⟨-, hne⟩ | ⟨-, hset⟩)
  · exact hne rfl
  · revert hset
    decide

theorem variableIdent_eq_iff_sanitize_eq {name : String} (hname : isIdentifier name = true)
    (hkeyword : name ∉ keywords) (hfixed : name ≠ "Main" ∧ name ≠ "Main_") (s : String) :
    variableIdent s = name ↔ sanitize s = name := by
  simp only [variableIdent_eq_name_iff hname hkeyword, ne_eq, hfixed, not_false_eq_true, and_true,
    and_false, or_false]

/-- Two names of variables that give one identifier: they read the same as identifiers, or one of them
is set apart from the fixed member and the other reads so from the start. -/
def SameIdent (a b : String) : Prop :=
  sanitize a = sanitize b ∨ (sanitize a = "Main" ∧ sanitize b = "Main_") ∨
    (sanitize a = "Main_" ∧ sanitize b = "Main")

instance (a b : String) : Decidable (SameIdent a b) :=
  inferInstanceAs (Decidable (_ ∨ _ ∨ _))

theorem variableIdent_eq_iff (a b : String) : variableIdent a = variableIdent b ↔ SameIdent a b := by
  have hmain : "Main" ∉ keywords ∧ "Main_" ∉ keywords := by decide
  unfold SameIdent
  rcases variableIdent_cases a with ⟨hmem, heq⟩ | ⟨hfixed, heq⟩ | ⟨hnot, hne, heq⟩
  · -- only keywords are marked
    have hread : sanitize a ≠ "Main" ∧ sanitize a ≠ "Main_" :=
      ⟨fun h => hmain.1 (h ▸ hmem), fun h => hmain.2 (h ▸ hmem)⟩
    simp only [hread, false_and, or_false]
    rcases variableIdent_cases b with ⟨-, heq'⟩ | ⟨hfixed', heq'⟩ | ⟨hnot', -, heq'⟩
    · rw [heq, heq', String.append_right_inj]
    · rw [heq, heq', hfixed']
      exact iff_of_false (marked_ne_of_isIdentifier (by decide) _) hread.1
    · rw [heq, heq']
      exact iff_of_false (marked_ne_of_isIdentifier (isIdentifier_sanitize b) _)
        fun h => hnot' (h ▸ hmem)
  · rw [heq, hfixed, eq_comm, variableIdent_eq_name_iff (by decide) hmain.2]
    simp +decide [eq_comm, or_comm]
  · rw [heq, eq_comm, variableIdent_eq_name_iff (isIdentifier_sanitize a) hnot]
    simp only [hne, ne_eq, not_false_eq_true, and_true, false_and, false_or]
    rw [eq_comm, and_comm]

end SsisCompiler.CSharp

namespace SsisCompiler.Compile

open CSharp (SameIdent Variable sanitize variableIdent)
open Package (Layout NodeId Reading Tree)

/-! ## Members of templates -/

/-- The member that a line of a template declares: what stands behind the modifiers and the type, up to
its parameters. -/
def memberOfLine? (line : List Char) : Option String :=
  let words := (Text.split Text.isBlank (line.takeWhile (· != '('))).filter (!·.isEmpty)
  match words with
  | [access, modifier, _, name] =>
    if access = "public".toList ∧ modifier = "static".toList then
      some (String.ofList (name.takeWhile CSharp.isIdentChar))
    else none
  | _ => none

/-- The members that a template declares, in order. -/
def membersOf (template : Template) : List String :=
  template.parts.flatMap fun part =>
    match part with
    | .text s => (Text.split (· == '\n') s.toList).filterMap memberOfLine?
    | .slot _ => []

/-- The members of a program that come from templates. -/
def templateMembers (options : Options) : List String :=
  membersOf .header
    ++ (if options.useSmo then membersOf .smoUsing else [])
    ++ (if options.sqlMode = .sql2008 then membersOf .tableParameters else [])
    ++ membersOf .footer

theorem toList_textLines (lines : List String) :
    (String.join (lines.map (· ++ "\n"))).toList = lines.flatMap (·.toList ++ ['\n']) := by
  induction lines with
  | nil => rfl
  | cons line lines ih =>
    rw [List.map_cons, String.join_cons, String.toList_append, String.toList_append, ih,
      List.flatMap_cons]
    rfl

theorem membersOf_eq (template : Template) :
    membersOf template = match template with
      | .header => ["Main"]
      | .tableParameters => ["ToTableParameter", "AddTableParameter"]
      | _ => [] := by
  -- the lines are put apart first: a text of many lines takes long to read
  cases template <;>
    simp only [membersOf, Template.parts, Template.textLines, List.flatMap_cons, List.flatMap_nil,
      toList_textLines] <;>
    decide +kernel

theorem templateMembers_eq (options : Options) :
    templateMembers options = "Main" ::
      if options.sqlMode = .sql2008 then ["ToTableParameter", "AddTableParameter"] else [] := by
  simp only [templateMembers, membersOf_eq, ite_self, List.append_nil, List.singleton_append]

/-! ## The order in which names are asked for -/

/-- What the method of an executable asks about names: its own name, and if it is a container, that no
method takes the name of a variable that it lends, and the names of the methods that it calls. -/
def methodRequests (t : Tree) (id : NodeId) (scope : List Variable) : List Request :=
  match Executable.ofNode? t id with
  | some (.container _) =>
    .ask id :: ((lentVariables t id scope).map (fun v => .reserve v.name)
      ++ (t.executablesOf id).map .ask)
  | _ => [.ask id]

/-- The variables that the method of an executable lends, or would lend if it called any. -/
def lentBy (t : Tree) (id : NodeId) (scope : List Variable) : List Variable :=
  (Setup.declareAll (declaredIn t id) scope).2

/-- What the methods of an outline ask about names, in order. -/
def requestsOf (t : Tree) : Outline → List Variable → List Request
  | .done, _ => []
  | .executable id inner rest, scope =>
    methodRequests t id scope ++ requestsOf t inner (lentBy t id scope) ++ requestsOf t rest scope

/-- What a program asks about names, in order: its fields come first, then where it starts, then all
methods. -/
def Program.requests (t : Tree) : List Request :=
  match (Layout.ofTree t).executables with
  | [] => []
  | entry :: rest =>
    .declare ((Layout.ofTree t).globals.map (declaredVariable t)) :: .ask entry ::
      requestsOf t (Outline.ofIds t (entry :: rest)) []

namespace Request

theorem names_serveAll_ask (t : Tree) (ids : List NodeId) (s : Session) :
    (serveAll t (ids.map .ask) s).2.names = (s.names.giveAll t ids).2 := by
  induction ids generalizing s with
  | nil => rfl
  | cons id ids ih => exact ih _

theorem names_serveAll_reserve (t : Tree) (vs : List Variable) (s : Session) :
    (serveAll t (vs.map fun v => .reserve v.name) s).2.names =
      vs.foldl (fun names v => names.reserve v.name) s.names := by
  induction vs generalizing s with
  | nil => rfl
  | cons v vs ih => exact ih _

end Request

namespace Setup

variable (s : Setup) (id : NodeId) (scope : List Variable)

/-- A method lends the variables and leaves the names that its requests say. -/
theorem method_requests (session : Session) :
    (s.method id scope session.names).2 = (lentBy s.tree id scope,
      (Request.serveAll s.tree (methodRequests s.tree id scope) session).2.names) := by
  cases hid : Executable.ofNode? s.tree id with
  | none =>
    simp only [method, body, lentBy, declaredIn, methodRequests, hid]
    rfl
  | some executable =>
    cases executable with
    | task kind =>
      simp only [method, body, lentBy, declaredIn, methodRequests, hid]
      rfl
    | container container =>
      rw [(s.method_of_container id scope session.names hid).2, containerBody_lent, lentBy,
        declaredIn_of_container hid]
      simp only [methodRequests, hid, Request.serveAll_cons, Request.serveAll_append,
        Request.names_serveAll_ask, Request.names_serveAll_reserve, calledMethods]
      rfl

theorem names_requestsOf (outline : Outline) (session : Session) :
    (Request.serveAll s.tree (requestsOf s.tree outline scope) session).2.names =
      (s.methods outline scope session.names).2 := by
  induction outline generalizing scope session with
  | done => rfl
  | executable id inner rest ihinner ihrest =>
    rw [requestsOf, Request.serveAll_append, Request.serveAll_append, methods_executable]
    dsimp only
    rw [ihrest, ihinner, method_requests]

end Setup

namespace Program.Run

variable {options : Options} {t : Tree} {p : Program} {entry : NodeId} {final : Names}

theorem requests_eq (h : Run options t p entry final) :
    requests t = .declare p.fields :: .ask entry ::
      requestsOf t (Outline.ofIds t (Layout.ofTree t).executables) [] := by
  obtain ⟨rest, hrest⟩ := List.head?_eq_some_iff.1 h.head
  rw [requests, hrest, h.fields]

/-- The names of a program's methods are those that a new session hands out. -/
theorem names_requests (h : Run options t p entry final) :
    (Request.serveAll t (requests t) { options := options }).2.names = final := by
  let start := (Request.serveAll t [.declare p.fields, .ask entry] { options := options }).2
  have hstart : start.names = startNames t entry := by
    have hfields := Request.names_declareGlobals { options := options } p.fields
    show ((Session.declareGlobals { options := options } p.fields).names.give t entry).2 = _
    rw [hfields, h.fields, startNames, reservedNames]
  have happend : requests t = [.declare p.fields, .ask entry] ++
      requestsOf t (Outline.ofIds t (Layout.ofTree t).executables) [] := h.requests_eq
  rw [happend, Request.serveAll_append, h.final_eq, ← hstart]
  exact (setup options t).names_requestsOf [] _ start

/-- Some method has a name exactly if an executable is the first to take it. -/
theorem exists_name_iff (h : Run options t p entry final) (ht : t.Preordered) {name : String}
    (hlegal : LegalName name) (hname : IsUnnumbered name) :
    (∃ c ∈ p.methods, c.method.name = name) ↔
      ∃ id, (requests t).find? (Request.takes t name) = some (.ask id) := by
  have hfirst (id : NodeId) : final.nameOf? id = some name ↔
      (requests t).find? (Request.takes t name) = some (.ask id) := by
    rw [← h.names_requests]
    exact Request.nameOf?_serveAll_eq_iff hlegal hname (requests t) Names.sound_empty
      (Names.untaken_empty t name) id
  constructor
  · rintro ⟨c, hc, rfl⟩
    exact ⟨c.id, (hfirst c.id).1 (h.nameOf?_final ht c hc)⟩
  · rintro ⟨id, hid⟩
    have hgiven := (hfirst id).2 hid
    obtain ⟨c, hc, rfl⟩ := List.mem_map.1
      ((h.mem_ids_final ht id).1 (Names.mem_ids_of_nameOf? hgiven))
    exact ⟨c, hc, Option.some.inj ((h.nameOf?_final ht c hc).symm.trans hgiven)⟩

/-- No method has the name of a field. -/
theorem name_not_mem_fields (h : Run options t p entry final) (ht : t.Preordered) {c : Compiled}
    (hc : c ∈ p.methods) : c.method.name ∉ p.fields.map (·.name) := by
  intro hmem
  have hgrows := Request.grows_serve t (.declare p.fields) { options := options }
  have hused := Request.mem_used_serve t (.declare p.fields) { options := options } hmem
  have hname := h.nameOf?_final ht c hc
  -- when the fields were declared, no executable had a name yet
  rw [← h.names_requests, h.requests_eq, Request.serveAll_cons,
    Request.nameOf?_serveAll_of_used _ hused] at hname
  have hempty : Names.nameOf? {} c.id = some c.method.name :=
    hgrows.nameOf?_of_not_asked List.not_mem_nil hname
  cases hempty

theorem name_ne_main (h : Run options t p entry final) (ht : t.Preordered) {c : Compiled}
    (hc : c ∈ p.methods) : c.method.name ≠ "Main" := by
  have hlegal := (h.sound ht).legal_of_nameOf? (h.nameOf?_final ht c hc)
  simpa [CSharp.fixedMembers] using hlegal.not_fixed

end Program.Run

/-! ## Fields -/

/-- The name that a variable of a package shows. -/
def shownName (t : Tree) (id : NodeId) : String :=
  (t.node id).name.getD "variable"

theorem variableIdent_eq_program_iff (s : String) :
    variableIdent s = "Program" ↔ sanitize s = "Program" :=
  CSharp.variableIdent_eq_iff_sanitize_eq (by decide) (by decide) (by decide) s

theorem variableIdent_mem_templateMembers (options : Options) (s : String) :
    variableIdent s ∈ templateMembers options ↔ options.sqlMode = .sql2008 ∧
      (sanitize s = "ToTableParameter" ∨ sanitize s = "AddTableParameter") := by
  have hto : variableIdent s = "ToTableParameter" ↔ sanitize s = "ToTableParameter" :=
    CSharp.variableIdent_eq_iff_sanitize_eq (by decide) (by decide) (by decide) s
  have hadd : variableIdent s = "AddTableParameter" ↔ sanitize s = "AddTableParameter" :=
    CSharp.variableIdent_eq_iff_sanitize_eq (by decide) (by decide) (by decide) s
  rw [templateMembers_eq, List.mem_cons, ← hto, ← hadd]
  split_ifs with hmode
  · simp [hmode, CSharp.variableIdent_ne_main]
  · simp [hmode, CSharp.variableIdent_ne_main]

namespace Program.Run

variable {options : Options} {t : Tree} {p : Program} {entry : NodeId} {final : Names}

theorem map_name_fields (h : Run options t p entry final) :
    p.fields.map (·.name) =
      (Layout.ofTree t).globals.map fun id => variableIdent (shownName t id) := by
  rw [h.fields, List.map_map]
  refine List.map_congr_left fun id _ => ?_
  simp only [Function.comp_apply, declaredVariable, variableName, shownName]

theorem nodup_fields_iff (h : Run options t p entry final) :
    (p.fields.map (·.name)).Nodup ↔ (Layout.ofTree t).globals.Pairwise (fun a b =>
      ¬ SameIdent (shownName t a) (shownName t b)) := by
  rw [h.map_name_fields, List.Nodup, List.pairwise_map]
  simp only [ne_eq, CSharp.variableIdent_eq_iff]

theorem fields_free_iff (h : Run options t p entry final) :
    (∀ name ∈ p.fields.map (·.name), name ≠ "Program" ∧ name ∉ templateMembers options) ↔
      ∀ id ∈ (Layout.ofTree t).globals, sanitize (shownName t id) ≠ "Program" ∧
        (options.sqlMode = .sql2008 → sanitize (shownName t id) ≠ "ToTableParameter" ∧
          sanitize (shownName t id) ≠ "AddTableParameter") := by
  rw [h.map_name_fields, List.forall_mem_map]
  simp only [ne_eq, variableIdent_eq_program_iff, variableIdent_mem_templateMembers, not_and, not_or]

theorem main_not_mem_fields (h : Run options t p entry final) :
    "Main" ∉ p.fields.map (·.name) := by
  rw [h.map_name_fields, List.mem_map]
  rintro ⟨id, -, hmain⟩
  exact CSharp.variableIdent_ne_main _ hmain

theorem program_not_mem_methods_iff (h : Run options t p entry final) (ht : t.Preordered) :
    "Program" ∉ p.methods.map (·.method.name) ↔
      ∀ id, (requests t).find? (Request.takes t "Program") ≠ some (.ask id) := by
  have hlegal : LegalName "Program" := ⟨by decide, by decide, by decide⟩
  have hname : IsUnnumbered "Program" := isUnnumbered_of_getLast? (c := 'm') (by decide) (by decide)
  rw [List.mem_map, h.exists_name_iff ht hlegal hname, not_exists]

end Program.Run

/-! ## All members -/

/-- The members of a program have names of their own: no two fields have the same name, no field has
that of a method, and no field or method has that of the class. -/
structure Program.DistinctMembers (options : Options) (p : Program) : Prop where
  nodup_fields : (p.fields.map (·.name)).Nodup
  field_ne_method : ∀ name ∈ p.fields.map (·.name),
    name ∉ templateMembers options ∧ name ∉ p.methods.map (·.method.name)
  field_ne_class : "Program" ∉ p.fields.map (·.name)
  method_ne_class : "Program" ∉ p.methods.map (·.method.name)

/-- When the members of a program have names of their own. The names of methods are free from each other,
from the fields and from the entry point, and so are the fields from the entry point. Beyond that the
names are as they are: the variables of the package must give identifiers that differ, none of them may
read as the class or as a helper of the templates, and the name of the class must not be taken by an
executable before a variable reserves it. -/
theorem distinctMembers_iff (settings : Settings) (project text : String) (out : Output)
    (h : compile settings project text = .ok out) :
    ∃ reading, Reading.ofText? { precedence := settings.precedence } text = some reading ∧
      out.program.fields.map (·.name) = (Layout.ofTree reading.tree).globals.map
        (fun id => variableIdent (shownName reading.tree id)) ∧
      "Main" ∉ out.program.fields.map (·.name) ∧
      (out.program.methods.map (·.method.name)).Nodup ∧
      (∀ c ∈ out.program.methods, c.method.name ≠ "Main" ∧
        c.method.name ∉ out.program.fields.map (·.name)) ∧
      (out.program.DistinctMembers settings.options ↔
        (Layout.ofTree reading.tree).globals.Pairwise (fun a b =>
          ¬ SameIdent (shownName reading.tree a) (shownName reading.tree b)) ∧
        (∀ id ∈ (Layout.ofTree reading.tree).globals,
          sanitize (shownName reading.tree id) ≠ "Program" ∧
          (settings.options.sqlMode = .sql2008 →
            sanitize (shownName reading.tree id) ≠ "ToTableParameter" ∧
            sanitize (shownName reading.tree id) ≠ "AddTableParameter")) ∧
        ∀ id, (Program.requests reading.tree).find? (Request.takes reading.tree "Program") ≠
          some (.ask id)) := by
  obtain ⟨reading, hreading, ht, hprogram, -⟩ := exists_of_compile h
  obtain ⟨entry, final, hrun⟩ := Program.exists_run hprogram
  refine ⟨reading, hreading, hrun.map_name_fields, hrun.main_not_mem_fields, hrun.nodup_names ht,
    fun c hc => ⟨hrun.name_ne_main ht hc, hrun.name_not_mem_fields ht hc⟩, ?_⟩
  rw [← hrun.nodup_fields_iff, ← hrun.fields_free_iff, ← hrun.program_not_mem_methods_iff ht]
  constructor
  · intro hdistinct
    refine ⟨hdistinct.nodup_fields, fun name hname => ⟨?_, ?_⟩, hdistinct.method_ne_class⟩
    · rintro rfl
      exact hdistinct.field_ne_class hname
    · exact (hdistinct.field_ne_method name hname).1
  · rintro ⟨hnodup, hfree, hclass⟩
    refine ⟨hnodup, fun name hname => ⟨(hfree name hname).2, fun hmethod => ?_⟩,
      fun hfield => (hfree _ hfield).1 rfl, hclass⟩
    obtain ⟨c, hc, rfl⟩ := List.mem_map.1 hmethod
    exact hrun.name_not_mem_fields ht hc hname

/-- A package with a variable named as the entry point, and a variable and an executable of one name. -/
def sharedText : String :=
  "<DTS:Executable xmlns:DTS=\"d\"><DTS:Variable DTS:ObjectName=\"Main\"/>" ++
    "<DTS:Variable DTS:ObjectName=\"A\"/><DTS:Executable DTS:ObjectName=\"A\"/></DTS:Executable>"

theorem distinctMembers_iff_sharedText :
    ∃ out, compile {} "P" sharedText = .ok out ∧
      out.program.fields.map (·.name) = ["Main_", "A"] ∧
      out.program.methods.map (·.method.name) = ["A2"] ∧ out.program.DistinctMembers {} := by
  have hnames : ((compile {} "P" sharedText).toOption.map fun out =>
      (out.program.fields.map (·.name), out.program.methods.map (·.method.name))) =
        some (["Main_", "A"], ["A2"]) := by decide +kernel
  have hreads : ((Reading.ofText? { precedence := Settings.precedence {} } sharedText).map fun reading =>
      ((Layout.ofTree reading.tree).globals.map (fun id => sanitize (shownName reading.tree id)),
        (Program.requests reading.tree).find? (Request.takes reading.tree "Program"))) =
          some (["Main", "A"], none) := by decide +kernel
  have hapart : ["Main", "A"].Pairwise fun a b =>
      ¬ (a = b ∨ (a = "Main" ∧ b = "Main_") ∨ (a = "Main_" ∧ b = "Main")) := by decide
  have hplain : ∀ name ∈ ["Main", "A"], name ≠ "Program" ∧
      (SqlMode.sql2008 = .sql2008 → name ≠ "ToTableParameter" ∧ name ≠ "AddTableParameter") := by
    decide
  obtain ⟨out, hout, hmembers⟩ := Option.map_eq_some_iff.1 hnames
  obtain ⟨hfields, hmethods⟩ := Prod.mk.inj hmembers
  have h := Expression.eq_ok_of_toOption hout
  obtain ⟨reading, hreading, -, -, -, -, hiff⟩ := distinctMembers_iff {} "P" sharedText out h
  rw [hreading, Option.map_some, Option.some.injEq, Prod.mk.injEq] at hreads
  obtain ⟨hglobals, hfind⟩ := hreads
  rw [← hglobals, List.pairwise_map] at hapart
  rw [← hglobals, List.forall_mem_map] at hplain
  exact ⟨out, h, hfields, hmethods, hiff.2 ⟨hapart, hplain, fun id => by simp [hfind]⟩⟩

/-- A package with a variable named as a helper of the templates. -/
def helperText : String :=
  "<DTS:Executable xmlns:DTS=\"d\"><DTS:Variable DTS:ObjectName=\"ToTableParameter\"/>" ++
    "<DTS:Executable DTS:ObjectName=\"A\"/></DTS:Executable>"

/-- The field keeps the name, which is that of a method of the program. -/
theorem not_distinctMembers_helperText :
    ∃ out, compile {} "P" helperText = .ok out ∧
      out.program.fields.map (·.name) = ["ToTableParameter"] ∧
      "ToTableParameter" ∈ templateMembers {} ∧ ¬ out.program.DistinctMembers {} := by
  have hfields : ((compile {} "P" helperText).toOption.map fun out =>
      out.program.fields.map (·.name)) = some ["ToTableParameter"] := by decide +kernel
  have hmember : "ToTableParameter" ∈ templateMembers {} := by
    rw [templateMembers_eq]
    decide
  obtain ⟨out, hout, hname⟩ := Option.map_eq_some_iff.1 hfields
  refine ⟨out, Expression.eq_ok_of_toOption hout, hname, hmember, fun hdistinct => ?_⟩
  exact (hdistinct.field_ne_method "ToTableParameter" (by simp [hname])).1 hmember

end SsisCompiler.Compile
