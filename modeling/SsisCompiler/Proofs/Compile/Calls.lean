import SsisCompiler.Proofs.Compile.MemberText
import SsisCompiler.Proofs.Compile.Methods

/-!
# Calls and the methods called

A container's calls are written before the methods that they call. The names agree because a node keeps
the name that it got, and the arguments agree because a method is compiled with what was lent to it.

Results:
* `CompiledFrom.exists_call`: what a container calls for an executable, by the name it has in the end.
* `Run.exists_called`: the call of an executable and the executable's own method.
* `calls_agree`: every call agrees with the method called, and only the variable of a loop over a
  collection can hide a method that is called inside the loop.
* `lent_type_eq_iff`: when a lent variable has the same type in the caller and in the method called.
-/

namespace SsisCompiler.Compile

open CSharp (Method Statement Variable)
open Markup (Content Element StartTag)
open Package (NodeId Reading Tree)

/-! ## The calls of a container -/

namespace Setup

section CalledMethods

variable (s : Setup) (id : NodeId) (scope : List Variable) (names : Names)

theorem exists_calledMethod {k : Nat} {child : NodeId}
    (h : (s.tree.executablesOf id)[k]? = some child) :
    ∃ name, (s.calledMethods id scope names).1[k]? = some name ∧
      (s.calledMethods id scope names).2.nameOf? child = some name := by
  have hlt : k < (s.calledMethods id scope names).1.length := by
    rw [calledMethods, Names.length_giveAll]
    exact (List.getElem?_eq_some_iff.1 h).1
  refine ⟨_, List.getElem?_eq_getElem hlt, ?_⟩
  rw [← List.getElem?_eq_getElem hlt]
  exact Names.nameOf?_giveAll s.tree _ _ h

/-- The names of called methods that had none before are new, and are not those of lent variables. -/
theorem calledMethods_fresh {names : Names} (hnodup : (s.tree.executablesOf id).Nodup)
    (hnew : ∀ i ∈ s.tree.executablesOf id, i ∉ names.ids) {name : String}
    (h : name ∈ (s.calledMethods id scope names).1) :
    name ∉ (lentVariables s.tree id scope).map (·.name) ∧ name ∉ names.used := by
  have hreserved := Names.grows_reserveAll (lentVariables s.tree id scope) names
  have hfresh : name ∉ ((lentVariables s.tree id scope).foldl
      (fun names v => names.reserve v.name) names).used := by
    refine Names.giveAll_not_mem_used s.tree hnodup (fun i hi => ?_) h
    rw [hreserved.mem_ids, List.mem_nil_iff, or_false]
    exact hnew i hi
  refine ⟨fun hlent => ?_, fun hused => hfresh (hreserved.used_subset hused)⟩
  obtain ⟨v, hv, rfl⟩ := List.mem_map.1 hlent
  exact hfresh (Names.mem_used_reserveAll _ _ hv)

end CalledMethods

namespace CompiledFrom

variable {s : Setup} {start final : Names} {c : Compiled} {moment : Names} {container : Container}

theorem body_eq (h : s.CompiledFrom start final c moment)
    (hc : Executable.ofNode? s.tree c.id = some (.container container)) :
    c.method.body = (s.containerBody c.id container c.method.parameters
      (moment.give s.tree c.id).2).1.body :=
  (congrArg (·.method.body) h.eq_method).trans (s.method_of_container _ _ _ hc).1

theorem calls_eq (h : s.CompiledFrom start final c moment)
    (hc : Executable.ofNode? s.tree c.id = some (.container container)) :
    c.method.body.calls =
      (s.calledMethods c.id c.method.parameters (moment.give s.tree c.id).2).1.map
        (Statement.call · (lentVariables s.tree c.id c.method.parameters)) := by
  rw [h.body_eq hc, calls_containerBody]

theorem locals_eq (h : s.CompiledFrom start final c moment)
    (hc : Executable.ofNode? s.tree c.id = some (.container container)) :
    c.method.body.locals =
      (declareAll (ownVariables s.tree c.id) c.method.parameters).1.flatMap (·.locals) := by
  rw [h.body_eq hc, locals_containerBody]

theorem length_calls (h : s.CompiledFrom start final c moment)
    (hc : Executable.ofNode? s.tree c.id = some (.container container)) :
    c.method.body.calls.length = (s.tree.executablesOf c.id).length := by
  rw [h.calls_eq hc, List.length_map, calledMethods, Names.length_giveAll]

/-- A container calls an executable by the name that the executable has in the end. This is the name of
no variable that the container lends, and none of those used at the start. Of what the container's body
declares, it can only be the name of a loop's variable. -/
theorem exists_call (h : s.CompiledFrom start final c moment)
    (hc : Executable.ofNode? s.tree c.id = some (.container container))
    (hnodup : (s.tree.executablesOf c.id).Nodup) {k : Nat} {child : NodeId}
    (hchild : (s.tree.executablesOf c.id)[k]? = some child) :
    ∃ name, final.nameOf? child = some name ∧
      c.method.body.calls[k]? =
        some (.call name (lentVariables s.tree c.id c.method.parameters)) ∧
      name ∉ (lentVariables s.tree c.id c.method.parameters).map (·.name) ∧ name ∉ start.used ∧
      (name ∈ c.method.body.declared ↔ container = .forEachLoop ∧ name = "item") := by
  obtain ⟨name, hk, hname⟩ := s.exists_calledMethod c.id c.method.parameters
    (moment.give s.tree c.id).2 hchild
  have hmem := List.mem_of_getElem? hk
  have hnew : ∀ i ∈ s.tree.executablesOf c.id, i ∉ (moment.give s.tree c.id).2.ids := by
    intro i hi
    exact h.unnamed i (by rwa [callees_of_container hc])
  obtain ⟨hlent, hused⟩ := s.calledMethods_fresh c.id c.method.parameters hnodup hnew hmem
  refine ⟨name, h.keeps ?_, ?_, hlent, fun hstart => hused ?_, ?_⟩
  · rw [(s.method_of_container _ _ _ hc).2]
    exact hname
  · rw [h.calls_eq hc, List.getElem?_map, hk]
    rfl
  · exact (Names.grows_give _ _ _).used_subset (h.used_subset hstart)
  · rw [h.body_eq hc, s.mem_declared_containerBody _ _ _ _ hlent]
    have hcalls := List.ne_nil_of_mem hmem
    exact ⟨fun hand => ⟨hand.1, hand.2.2⟩, fun hand => ⟨hand.1, hcalls, hand.2⟩⟩

end CompiledFrom

end Setup

/-! ## The calls of a program -/

namespace Program.Run

variable {options : Options} {t : Tree} {p : Program} {entry : NodeId} {final : Names}

/-- The call of an executable, and the method of the executable. -/
theorem exists_called (h : Run options t p entry final) (ht : t.Preordered) {c : Compiled}
    (hc : c ∈ p.methods) {container : Container}
    (hcontainer : Executable.ofNode? t c.id = some (.container container)) {k : Nat} {child : NodeId}
    (hchild : (t.executablesOf c.id)[k]? = some child) :
    ∃ m ∈ p.methods, m.id = child ∧
      m.method.parameters = lentVariables t c.id c.method.parameters ∧
      c.method.body.calls[k]? = some (.call m.method.name m.method.parameters) ∧
      m.method.name ∉ m.method.parameters.map (·.name) ∧
      m.method.name ∉ p.fields.map (·.name) ∧
      (m.method.name ∈ c.method.body.declared ↔
        container = .forEachLoop ∧ m.method.name = "item") := by
  obtain ⟨moment, hmoment⟩ := h.exists_compiledFrom ht c hc
  have hmem : child ∈ callees t c.id := by
    rw [callees_of_container hcontainer]
    exact List.mem_of_getElem? hchild
  obtain ⟨m, hm, rfl, hparameters⟩ := h.exists_callee ht c hc child hmem
  obtain ⟨name, hname, hcall, hlent, hstart, hdeclared⟩ :=
    hmoment.exists_call hcontainer ((ht.pairwise_lt_executablesOf c.id).imp Nat.ne_of_lt) hchild
  obtain rfl : name = m.method.name :=
    Option.some.inj (hname.symm.trans (h.nameOf?_final ht m hm))
  refine ⟨m, hm, rfl, hparameters, ?_, ?_, fun hfield => hstart ?_, hdeclared⟩
  · rw [hparameters]
    exact hcall
  · rw [hparameters]
    exact hlent
  rw [h.fields] at hfield
  obtain ⟨v, hv, hvname⟩ := List.mem_map.1 hfield
  rw [← hvname]
  exact mem_used_startNames t entry hv

/-- Whatever a container calls is the method of one of its executables. -/
theorem exists_called_of_mem (h : Run options t p entry final) (ht : t.Preordered) {c : Compiled}
    (hc : c ∈ p.methods) {container : Container}
    (hcontainer : Executable.ofNode? t c.id = some (.container container)) {name : String}
    {arguments : List Variable} (hcall : Statement.call name arguments ∈ c.method.body.calls) :
    ∃ m ∈ p.methods, m.id ∈ t.executablesOf c.id ∧ m.method.name = name ∧
      m.method.parameters = arguments ∧
      arguments = lentVariables t c.id c.method.parameters := by
  obtain ⟨moment, hmoment⟩ := h.exists_compiledFrom ht c hc
  obtain ⟨k, hk, hget⟩ := List.mem_iff_getElem.1 hcall
  have hchild : k < (t.executablesOf c.id).length := by
    rw [← show (setup options t).tree = t from rfl, ← hmoment.length_calls hcontainer]
    exact hk
  obtain ⟨m, hm, hid, hparameters, hcalled, -⟩ :=
    h.exists_called ht hc hcontainer (List.getElem?_eq_getElem hchild)
  rw [List.getElem?_eq_getElem hk, hget] at hcalled
  obtain ⟨rfl, rfl⟩ := Statement.call.inj (Option.some.inj hcalled)
  exact ⟨m, hm, hid ▸ List.getElem_mem hchild, rfl, rfl, hparameters⟩

end Program.Run

/-- Whether a name that a method calls is that of a variable there: one that the method was lent, one
that it declares itself, or a field of the program. -/
def Program.Hides (p : Program) (caller : Method) (name : String) : Prop :=
  name ∈ caller.parameters.map (·.name) ∨ name ∈ caller.body.declared ∨
    name ∈ p.fields.map (·.name)

instance (p : Program) (caller : Method) (name : String) : Decidable (p.Hides caller name) :=
  inferInstanceAs (Decidable (_ ∨ _ ∨ _))

/-- Every call agrees with the method called. A container calls each of its executables once, in
document order, by the name of the executable's method and with exactly the parameters of that method;
these are the variables that the container lends, all with different names. The name is that of none of
them and of no field. So the only variable that can hide a method called is that of a loop over a
collection. The text of the members has the headers and the calls of these methods, spelled out. -/
theorem calls_agree (o : Package.Options) (e : Element) (options : Options) (p : Program)
    (h : Program.ofTree? options (Reading.ofElement o e).tree = some p) :
    p.memberText = p.fieldRegion ++ p.methodRegion ∧
    (p.methods.map (·.id)).Nodup ∧
    (∀ c ∈ p.methods, (c.method.parameters.map (·.name)).Nodup) ∧
    ∀ c ∈ p.methods, ∀ container,
      Executable.ofNode? (Reading.ofElement o e).tree c.id = some (.container container) →
      ((Reading.ofElement o e).tree.executablesOf c.id).Pairwise (· < ·) ∧
      c.method.body.calls.length = ((Reading.ofElement o e).tree.executablesOf c.id).length ∧
      ∀ (k : Nat) child, ((Reading.ofElement o e).tree.executablesOf c.id)[k]? = some child →
        ∃ m ∈ p.methods, m.id = child ∧
          c.method.body.calls[k]? = some (.call m.method.name m.method.parameters) ∧
          (∀ indent, (Statement.call m.method.name m.method.parameters).lines indent =
            [⟨indent, m.method.name ++ "("
              ++ ", ".intercalate ((m.method.parameters.map (·.name)).map ("ref " ++ ·)) ++ ");"⟩]) ∧
          m.method.parameters =
            lentVariables (Reading.ofElement o e).tree c.id c.method.parameters ∧
          m.method.name ∉ m.method.parameters.map (·.name) ∧
          m.method.name ∉ p.fields.map (·.name) ∧
          (p.Hides c.method m.method.name ↔
            container = .forEachLoop ∧ m.method.name = "item") := by
  have ht := Package.preordered_ofElement o e
  obtain ⟨entry, final, hrun⟩ := Program.exists_run h
  refine ⟨p.memberText_eq, hrun.nodup_ids ht, hrun.nodup_parameters ht,
    fun c hc container hcontainer => ?_⟩
  obtain ⟨moment, hmoment⟩ := hrun.exists_compiledFrom ht c hc
  refine ⟨ht.pairwise_lt_executablesOf c.id, hmoment.length_calls hcontainer,
    fun k child hchild => ?_⟩
  obtain ⟨m, hm, hid, hparameters, hcall, hlent, hfield, hdeclared⟩ :=
    hrun.exists_called ht hc hcontainer hchild
  refine ⟨m, hm, hid, hcall, fun indent => ?_, hparameters, hlent, hfield, ?_⟩
  · rw [List.map_map]
    rfl
  · -- the parameters of the caller are among the variables that it lends
    have hparameter : m.method.name ∉ c.method.parameters.map (·.name) := by
      rw [hparameters] at hlent
      exact fun hmem => hlent ((mem_map_name_lentVariables _ _ _ _).2 (Or.inl hmem))
    rw [Program.Hides, ← hdeclared]
    simp only [hparameter, hfield, or_false, false_or]

/-- A tag of a package. -/
def packageTag (kind : String) (attributes : List (String × String)) : StartTag where
  written := "DTS:" ++ kind
  localName := kind
  namespaceUri := some "dts"
  attributes := attributes.map fun (name, value) => ⟨"DTS:" ++ name, name, some "dts", value⟩
  scope := [(some "DTS", "dts")]
  place := ⟨1, 1⟩

/-- A variable of a package, and what follows it. -/
def variableContent (name type : String) (rest : Content StartTag) : Content StartTag :=
  .element (packageTag "Variable" [("ObjectName", name), ("DataType", type)]) .done rest

/-- An executable of a package with what is inside it, and what follows it. -/
def executableContent (name type : String) (body rest : Content StartTag) : Content StartTag :=
  .element (packageTag "Executable" [("ObjectName", name), ("CreationName", type)]) body rest

/-- A loop over a collection that runs an executable with the name of the loop's own variable, and one
with the name of a variable that the loop lends. -/
def loopElement : Element where
  tag := packageTag "Executable" []
  body := executableContent "Loop" "STOCK:FOREACHLOOP"
    (variableContent "x" "3"
      (executableContent "x" "" .done (executableContent "item" "" .done .done))) .done

/-- The program of the loop. -/
def loopProgram : Program :=
  (Program.ofTree? {} (Reading.ofElement {} loopElement).tree).get (by decide +kernel)

theorem ofTree?_loopElement :
    Program.ofTree? {} (Reading.ofElement {} loopElement).tree = some loopProgram :=
  (Option.some_get _).symm

/-- The executable with the name of a lent variable gets another name, and is not hidden. -/
theorem calls_agree_loopElement :
    Program.ofTree? {} (Reading.ofElement {} loopElement).tree = some loopProgram ∧
      ∃ c ∈ loopProgram.methods, c.method.body.calls.length = 2 ∧
        ∃ m ∈ loopProgram.methods, m.id = 3 ∧ m.method.name ≠ "item" ∧
          c.method.body.calls[0]? = some (.call m.method.name m.method.parameters) ∧
          ¬ loopProgram.Hides c.method m.method.name := by
  obtain ⟨c, hc, hid⟩ : ∃ c ∈ loopProgram.methods, c.id = 1 := by decide +kernel
  have hname : ∀ m ∈ loopProgram.methods, m.id = 3 → m.method.name ≠ "item" := by decide +kernel
  have hagree := (calls_agree {} loopElement {} loopProgram ofTree?_loopElement).2.2.2 c hc
    .forEachLoop (by rw [hid]; decide +kernel)
  have hchildren : (Reading.ofElement {} loopElement).tree.executablesOf c.id = [3, 4] := by
    rw [hid]
    decide +kernel
  rw [hchildren] at hagree
  obtain ⟨m, hm, hmid, hcall, -, -, -, -, hhides⟩ := hagree.2.2 0 3 rfl
  refine ⟨ofTree?_loopElement, c, hc, hagree.2.1, m, hm, hmid, hname m hm hmid, hcall, ?_⟩
  rw [hhides]
  exact fun hitem => hname m hm hmid hitem.2

/-- The executable with the name of the loop's variable keeps its name, and the call is hidden. -/
theorem hides_loopElement :
    Program.ofTree? {} (Reading.ofElement {} loopElement).tree = some loopProgram ∧
      ∃ c ∈ loopProgram.methods, ∃ m ∈ loopProgram.methods,
        Statement.call m.method.name m.method.parameters ∈ c.method.body.calls ∧
        loopProgram.Hides c.method m.method.name :=
  ⟨ofTree?_loopElement, by decide +kernel⟩

/-! ## The types of lent variables -/

section LentTypes

variable (t : Tree) (id : NodeId) {scope : List Variable} {v : Variable}

theorem eq_of_mem_lentVariables (hscope : (scope.map (·.name)).Nodup)
    (hv : v ∈ lentVariables t id scope) :
    some v = ((ownVariables t id).reverse.find? (·.name == v.name)).or
      (scope.find? (·.name == v.name)) := by
  rw [← Setup.find?_declareAll]
  exact (Variable.find?_eq_some_of_nodup (nodup_lentVariables t id hscope) hv).symm

theorem exists_declared_of_mem_lentVariables (hv : v ∈ lentVariables t id scope) :
    ∃ declared, (scope ++ (Setup.declareAll (ownVariables t id) scope).1.flatMap (·.locals)).find?
      (·.name == v.name) = some declared := by
  have hname : v.name ∈ (scope ++
      (Setup.declareAll (ownVariables t id) scope).1.flatMap (·.locals)).map (·.name) := by
    rw [List.map_append, ← Setup.map_name_declareAll]
    exact List.mem_map_of_mem hv
  obtain ⟨w, hw, hwname⟩ := List.mem_map.1 hname
  exact Option.isSome_iff_exists.1 (List.find?_isSome.2 ⟨w, hw, by simpa using hwname⟩)

/-- A lent variable has the type that its name is declared with exactly if this is the type of the
container's last variable of the name. -/
theorem typeName_eq_iff {own : List Variable} {declared : Variable}
    (hdeclared : some declared = (scope.find? (·.name == v.name)).or
      (own.find? (·.name == v.name)))
    (hv : some v = (own.reverse.find? (·.name == v.name)).or (scope.find? (·.name == v.name))) :
    declared.typeName = v.typeName ↔
      ∀ w, own.reverse.find? (·.name == v.name) = some w → w.typeName = declared.typeName := by
  cases hlast : own.reverse.find? (·.name == v.name) with
  | some last =>
    obtain rfl : v = last := by simpa [hlast] using hv
    exact ⟨fun htype w hw => (Option.some.inj hw) ▸ htype.symm, fun hall => (hall v rfl).symm⟩
  | none =>
    -- without a variable of its own, the container lends what it was lent
    rw [hlast, Option.none_or] at hv
    rw [← hv, Option.some_or] at hdeclared
    obtain rfl := Option.some.inj hdeclared
    exact ⟨fun _ w hw => (by cases hw), fun _ => rfl⟩

end LentTypes

/-- The type of a lent variable. In the caller, each name is declared once: by the parameter of the
name, or else by the first variable of the name among the container's own. The method called takes it
with the type of the container's last variable of the name, or else of the parameter. So the types are
the same exactly if the container has no variable of the name, or its last one has the type that the
name is declared with. The text of the members has these declarations and parameters, spelled out with
their types. -/
theorem lent_type_eq_iff (o : Package.Options) (e : Element) (options : Options) (p : Program)
    (h : Program.ofTree? options (Reading.ofElement o e).tree = some p) :
    p.memberText = p.fieldRegion ++ p.methodRegion ∧
    ∀ c ∈ p.methods, ∀ container,
      Executable.ofNode? (Reading.ofElement o e).tree c.id = some (.container container) →
      ((c.method.parameters ++ c.method.body.locals).map (·.name)).Nodup ∧
      ∀ name arguments, Statement.call name arguments ∈ c.method.body.calls →
        ∃ m ∈ p.methods, m.method.name = name ∧ m.method.parameters = arguments ∧
          ∀ v ∈ m.method.parameters,
            ∃ declared ∈ c.method.parameters ++ c.method.body.locals, declared.name = v.name ∧
              some declared = (c.method.parameters.find? (·.name == v.name)).or
                ((ownVariables (Reading.ofElement o e).tree c.id).find? (·.name == v.name)) ∧
              some v = ((ownVariables (Reading.ofElement o e).tree c.id).reverse.find?
                (·.name == v.name)).or (c.method.parameters.find? (·.name == v.name)) ∧
              (declared.typeName = v.typeName ↔
                ∀ w, (ownVariables (Reading.ofElement o e).tree c.id).reverse.find?
                  (·.name == v.name) = some w → w.typeName = declared.typeName) := by
  have ht := Package.preordered_ofElement o e
  obtain ⟨entry, final, hrun⟩ := Program.exists_run h
  refine ⟨p.memberText_eq, fun c hc container hcontainer => ?_⟩
  obtain ⟨moment, hmoment⟩ := hrun.exists_compiledFrom ht c hc
  have hparameters := hrun.nodup_parameters ht c hc
  have hlocals := hmoment.locals_eq hcontainer
  refine ⟨?_, fun name arguments hcall => ?_⟩
  · rw [hlocals, List.map_append, ← Setup.map_name_declareAll]
    exact Setup.nodup_declareAll _ hparameters
  obtain ⟨m, hm, -, hname, rfl, hlent⟩ := hrun.exists_called_of_mem ht hc hcontainer hcall
  refine ⟨m, hm, hname, rfl, fun v hv => ?_⟩
  rw [hlent] at hv
  obtain ⟨declared, hfind⟩ := exists_declared_of_mem_lentVariables _ _ hv
  have hfirst := Setup.find?_declared_declareAll (ownVariables (Reading.ofElement o e).tree c.id)
    c.method.parameters v.name
  rw [hfind] at hfirst
  have hlast := eq_of_mem_lentVariables _ _ hparameters hv
  refine ⟨declared, ?_, by simpa using List.find?_some hfind, hfirst, hlast,
    typeName_eq_iff hfirst hlast⟩
  rw [hlocals]
  exact List.mem_of_find?_eq_some hfind

/-- A sequence with an integer variable around a sequence that has a text variable of the same name. -/
def retypedElement : Element where
  tag := packageTag "Executable" []
  body := executableContent "Outer" "STOCK:SEQUENCE"
    (variableContent "v" "3" (executableContent "Inner" "STOCK:SEQUENCE"
      (variableContent "v" "8" (executableContent "Task" "" .done .done)) .done)) .done

/-- The program of the two sequences. -/
def retypedProgram : Program :=
  (Program.ofTree? {} (Reading.ofElement {} retypedElement).tree).get (by decide +kernel)

theorem ofTree?_retypedElement :
    Program.ofTree? {} (Reading.ofElement {} retypedElement).tree = some retypedProgram :=
  (Option.some_get _).symm

/-- The outer sequence has one variable, and lends it with the type that it declares. -/
theorem lent_type_eq_iff_retypedElement :
    Program.ofTree? {} (Reading.ofElement {} retypedElement).tree = some retypedProgram ∧
      ∃ c ∈ retypedProgram.methods, c.id = 1 ∧
        ∃ m ∈ retypedProgram.methods, m.method.name = "Inner" ∧
          ∃ v ∈ m.method.parameters, v.typeName = "int" ∧
            ∃ declared ∈ c.method.parameters ++ c.method.body.locals,
              declared.name = v.name ∧ declared.typeName = v.typeName := by
  let v : Variable := ⟨"v", "int", "default(int)"⟩
  obtain ⟨c, hc, hid, hempty, hcall⟩ : ∃ c ∈ retypedProgram.methods, c.id = 1 ∧
      c.method.parameters = [] ∧ Statement.call "Inner" [v] ∈ c.method.body.calls := by
    decide +kernel
  obtain ⟨m, hm, hname, hparameters, htypes⟩ :=
    ((lent_type_eq_iff {} retypedElement {} retypedProgram ofTree?_retypedElement).2 c hc .sequence
      (by rw [hid]; decide +kernel)).2 "Inner" [v] hcall
  have hv : v ∈ m.method.parameters := by simp [hparameters]
  obtain ⟨declared, hmem, hdeclared, hfirst, -, htype⟩ := htypes v hv
  have hown : ownVariables (Reading.ofElement {} retypedElement).tree c.id = [v] := by
    rw [hid]
    decide +kernel
  rw [hown] at hfirst htype
  obtain rfl : declared = v := by simpa [hempty] using hfirst
  refine ⟨ofTree?_retypedElement, c, hc, hid, m, hm, hname, v, hv, rfl, v, hmem, rfl, htype.2 ?_⟩
  intro w hw
  obtain rfl : v = w := by simpa using hw
  rfl

/-- The inner sequence takes its variable as an integer, and lends it as a text. -/
theorem lent_type_ne_retypedElement :
    Program.ofTree? {} (Reading.ofElement {} retypedElement).tree = some retypedProgram ∧
      ∃ c ∈ retypedProgram.methods, ∃ m ∈ retypedProgram.methods,
        Statement.call m.method.name m.method.parameters ∈ c.method.body.calls ∧
        ∃ v ∈ m.method.parameters, ∃ declared ∈ c.method.parameters ++ c.method.body.locals,
          declared.name = v.name ∧ declared.typeName ≠ v.typeName :=
  ⟨ofTree?_retypedElement, by decide +kernel⟩

end SsisCompiler.Compile
