import Mathlib.Data.List.Nodup
import SsisCompiler.Compile.Method

/-!
# The body of a container

What a container's method declares and calls, and which variables it lends. A variable of a name that
is there already takes the place of the old one in the list of lent variables, but the method still
declares the name only once.

Results:
* `find?_declareAll`: the lent variable of a name is the container's last one, or else the one that the
  container was lent itself.
* `find?_declared_declareAll`: the variable that a name is declared with is the one that the container
  was lent, or else the container's first one.
* `calls_containerBody`: the calls in a container's body are one for each method, in order.
* `mem_declared_containerBody`: what a container's body declares is lent to the methods called, except
  for the variable of a loop over a collection.
-/

namespace SsisCompiler.CSharp

/-! ## Variables in scope -/

namespace Variable

theorem isDeclared_eq_true_iff (name : String) (vs : List Variable) :
    isDeclared name vs = true ↔ name ∈ vs.map (·.name) := by
  simp [isDeclared]

theorem map_name_declareIn (v : Variable) (vs : List Variable) :
    (v.declareIn vs).map (·.name) =
      if isDeclared v.name vs = true then vs.map (·.name) else vs.map (·.name) ++ [v.name] := by
  induction vs with
  | nil => simp [declareIn, isDeclared]
  | cons w vs ih =>
    by_cases h : w.name = v.name
    · simp [declareIn, isDeclared, h]
    · have hcons : isDeclared v.name (w :: vs) = isDeclared v.name vs := by simp [isDeclared, h]
      rw [hcons]
      simp only [declareIn, beq_iff_eq, h, if_false, List.map_cons, ih]
      split_ifs
      · rfl
      · rfl

theorem mem_map_name_declareIn (v : Variable) (vs : List Variable) (name : String) :
    name ∈ (v.declareIn vs).map (·.name) ↔ name = v.name ∨ name ∈ vs.map (·.name) := by
  rw [map_name_declareIn]
  split
  · rename_i h
    rw [isDeclared_eq_true_iff] at h
    exact ⟨Or.inr, fun hname => hname.elim (fun heq => heq ▸ h) fun hmem => hmem⟩
  · rw [List.mem_append, List.mem_singleton, or_comm]

theorem nodup_declareIn (v : Variable) {vs : List Variable} (h : (vs.map (·.name)).Nodup) :
    ((v.declareIn vs).map (·.name)).Nodup := by
  rw [map_name_declareIn]
  split
  · exact h
  · rename_i hnot
    rw [isDeclared_eq_true_iff] at hnot
    rw [List.nodup_append]
    refine ⟨h, List.nodup_singleton _, ?_⟩
    rintro name hname other hother rfl
    exact hnot (List.mem_singleton.1 hother ▸ hname)

theorem find?_declareIn (v : Variable) (vs : List Variable) (name : String) :
    (v.declareIn vs).find? (·.name == name) =
      if v.name = name then some v else vs.find? (·.name == name) := by
  induction vs with
  | nil => by_cases h : v.name = name <;> simp [declareIn, h]
  | cons w vs ih =>
    by_cases hw : w.name = v.name
    · by_cases h : v.name = name <;> simp [declareIn, hw, h]
    · simp only [declareIn, beq_iff_eq, hw, if_false, List.find?_cons, ih]
      by_cases h : v.name = name
      · have hne : (w.name == name) = false := by simpa [← h] using hw
        simp [h, hne]
      · simp [h]

theorem find?_eq_some_of_nodup {vs : List Variable} (h : (vs.map (·.name)).Nodup) {v : Variable}
    (hv : v ∈ vs) : vs.find? (·.name == v.name) = some v := by
  induction vs with
  | nil => cases hv
  | cons w vs ih =>
    obtain ⟨hw, hnodup⟩ := List.nodup_cons.1 h
    rcases List.mem_cons.1 hv with rfl | hv
    · simp
    · have hne : w.name ≠ v.name := fun heq => hw (List.mem_map.2 ⟨v, hv, heq.symm⟩)
      rw [List.find?_cons_of_neg (by simpa using hne)]
      exact ih hnodup hv

end Variable

/-! ## What statements call and declare -/

namespace Statement

/-- Whether a statement calls a method of the program. -/
def isCall : Statement → Bool
  | .call _ _ => true
  | _ => false

/-- The local variable that a statement declares on a line of its own. -/
def locals : Statement → List Variable
  | .declare v => [v]
  | _ => []

/-- Whether a statement calls no method and declares nothing. -/
def isInert (s : Statement) : Bool :=
  !s.isCall && s.declared.isEmpty

theorem locals_of_isInert {s : Statement} (h : s.isInert = true) : s.locals = [] := by
  cases s <;> simp_all [isInert, isCall, locals, declared]

end Statement

namespace Body

/-- The calls of methods of the program, in order. -/
def calls (body : Body) : List Statement :=
  (body.map (·.statement)).filter (·.isCall)

/-- The local variables that have a declaration of their own, in order. -/
def locals (body : Body) : List Variable :=
  body.flatMap (·.statement.locals)

/-- A body that calls no method and declares nothing. -/
def Inert (body : Body) : Prop :=
  ∀ placed ∈ body, placed.statement.isInert = true

@[simp]
theorem calls_append (a b : Body) : calls (a ++ b) = calls a ++ calls b := by
  simp [calls]

@[simp]
theorem declared_append (a b : Body) : declared (a ++ b) = declared a ++ declared b := by
  simp [declared]

@[simp]
theorem locals_append (a b : Body) : locals (a ++ b) = locals a ++ locals b := by
  simp [locals]

@[simp]
theorem calls_placedAt (depth : Nat) (statements : List Statement) :
    calls (placedAt depth statements) = statements.filter (·.isCall) := by
  simp [calls, placedAt, Function.comp_def]

@[simp]
theorem declared_placedAt (depth : Nat) (statements : List Statement) :
    declared (placedAt depth statements) = statements.flatMap (·.declared) := by
  simp [declared, placedAt, List.flatMap_map]

@[simp]
theorem locals_placedAt (depth : Nat) (statements : List Statement) :
    locals (placedAt depth statements) = statements.flatMap (·.locals) := by
  simp [locals, placedAt, List.flatMap_map]

theorem inert_nil : Inert [] :=
  List.forall_mem_nil _

theorem inert_append {a b : Body} (ha : Inert a) (hb : Inert b) : Inert (a ++ b) := by
  intro placed h
  exact (List.mem_append.1 h).elim (ha placed) (hb placed)

theorem inert_placedAt (depth : Nat) {statements : List Statement}
    (h : ∀ s ∈ statements, s.isInert = true) : Inert (placedAt depth statements) := by
  intro placed hplaced
  obtain ⟨s, hs, rfl⟩ := List.mem_map.1 hplaced
  exact h s hs

theorem Inert.calls_eq {body : Body} (h : Inert body) : calls body = [] := by
  rw [calls, List.filter_eq_nil_iff]
  intro s hs
  obtain ⟨placed, hplaced, rfl⟩ := List.mem_map.1 hs
  have hinert := h placed hplaced
  simp only [Statement.isInert, Bool.and_eq_true, Bool.not_eq_true'] at hinert
  simp [hinert.1]

theorem Inert.declared_eq {body : Body} (h : Inert body) : declared body = [] := by
  rw [declared, List.flatMap_eq_nil_iff]
  intro placed hplaced
  have hinert := h placed hplaced
  simp only [Statement.isInert, Bool.and_eq_true, List.isEmpty_iff] at hinert
  exact hinert.2

theorem Inert.locals_eq {body : Body} (h : Inert body) : locals body = [] := by
  rw [locals, List.flatMap_eq_nil_iff]
  intro placed hplaced
  exact Statement.locals_of_isInert (h placed hplaced)

end Body

end SsisCompiler.CSharp

namespace SsisCompiler.Compile

open CSharp (Body Statement Variable)
open Package (NodeId Tree)

/-! ## Declarations -/

namespace Setup

theorem declareAll_cons (v : Variable) (vs scope : List Variable) :
    declareAll (v :: vs) scope =
      ((if Variable.isDeclared v.name scope then .assign v.name v.initialValue else .declare v)
          :: (declareAll vs (v.declareIn scope)).1,
        (declareAll vs (v.declareIn scope)).2) := rfl

theorem mem_map_name_declareAll (vs scope : List Variable) (name : String) :
    name ∈ (declareAll vs scope).2.map (·.name) ↔
      name ∈ scope.map (·.name) ∨ name ∈ vs.map (·.name) := by
  induction vs generalizing scope with
  | nil => simp [declareAll]
  | cons v vs ih =>
    rw [declareAll_cons, ih, Variable.mem_map_name_declareIn, List.map_cons, List.mem_cons]
    tauto

/-- The names after declarations are those before and those of the new locals. -/
theorem map_name_declareAll (vs scope : List Variable) :
    (declareAll vs scope).2.map (·.name) =
      scope.map (·.name) ++ ((declareAll vs scope).1.flatMap (·.locals)).map (·.name) := by
  induction vs generalizing scope with
  | nil => simp [declareAll]
  | cons v vs ih =>
    rw [declareAll_cons, ih, Variable.map_name_declareIn, List.flatMap_cons]
    split_ifs
    · simp [Statement.locals]
    · simp [Statement.locals]

theorem nodup_declareAll (vs : List Variable) {scope : List Variable}
    (h : (scope.map (·.name)).Nodup) : ((declareAll vs scope).2.map (·.name)).Nodup := by
  induction vs generalizing scope with
  | nil => exact h
  | cons v vs ih => exact ih (Variable.nodup_declareIn v h)

/-- The variable of a name after declarations: the last one declared, or else the one before. -/
theorem find?_declareAll (vs scope : List Variable) (name : String) :
    (declareAll vs scope).2.find? (·.name == name) =
      (vs.reverse.find? (·.name == name)).or (scope.find? (·.name == name)) := by
  induction vs generalizing scope with
  | nil => rfl
  | cons v vs ih =>
    rw [declareAll_cons, ih, Variable.find?_declareIn, List.reverse_cons, List.find?_append]
    by_cases h : v.name = name
    · simp [h]
    · simp [h]

/-- The first declaration of a name that is not in scope is the one that is written as such. -/
theorem find?_locals_declareAll (vs scope : List Variable) {name : String}
    (h : name ∉ scope.map (·.name)) :
    ((declareAll vs scope).1.flatMap (·.locals)).find? (·.name == name) =
      vs.find? (·.name == name) := by
  induction vs generalizing scope with
  | nil => rfl
  | cons v vs ih =>
    rw [declareAll_cons, List.flatMap_cons, List.find?_append]
    by_cases hv : v.name = name
    · have hnot : Variable.isDeclared v.name scope = false := by
        rw [Bool.eq_false_iff, ne_eq, Variable.isDeclared_eq_true_iff, hv]
        exact h
      rw [hnot, if_neg Bool.false_ne_true]
      simp [hv, Statement.locals]
    · have hrest : name ∉ (v.declareIn scope).map (·.name) := by
        rw [Variable.mem_map_name_declareIn]
        exact fun hmem => hmem.elim (fun heq => hv heq.symm) h
      rw [ih _ hrest]
      split_ifs
      · simp [Statement.locals, hv]
      · simp [Statement.locals, hv]

/-- The variable that a name is declared with: the one in scope, or else the first of the new ones. -/
theorem find?_declared_declareAll (vs scope : List Variable) (name : String) :
    (scope ++ (declareAll vs scope).1.flatMap (·.locals)).find? (·.name == name) =
      (scope.find? (·.name == name)).or (vs.find? (·.name == name)) := by
  rw [List.find?_append]
  cases h : scope.find? (·.name == name) with
  | some v => rfl
  | none =>
    have hnot : name ∉ scope.map (·.name) := by simpa using h
    rw [find?_locals_declareAll vs scope hnot]

theorem calls_declareAll (vs scope : List Variable) :
    (declareAll vs scope).1.filter (·.isCall) = [] := by
  induction vs generalizing scope with
  | nil => rfl
  | cons v vs ih =>
    rw [declareAll_cons]
    split_ifs
    · exact ih _
    · exact ih _

theorem mem_declared_declareAll (vs scope : List Variable) {name : String}
    (h : name ∈ (declareAll vs scope).1.flatMap (·.declared)) : name ∈ vs.map (·.name) := by
  induction vs generalizing scope with
  | nil => cases h
  | cons v vs ih =>
    rw [declareAll_cons, List.flatMap_cons, List.mem_append] at h
    rcases h with h | h
    · split_ifs at h
      · cases h
      · exact List.mem_map.2 ⟨v, List.mem_cons_self, (List.mem_singleton.1 h).symm⟩
    · exact List.mem_cons_of_mem _ (ih _ h)

/-! ## Loops -/

theorem inert_ofGap (t : Tree) (id : NodeId) (gap : Gap) : (Fragment.ofGap t id gap).body.Inert := by
  refine Body.inert_placedAt 0 ?_
  intro s hs
  rw [List.mem_singleton.1 hs]
  cases gap <;> rfl

theorem inert_loopPart (s : Setup) (id : NodeId) (key fallback : String) :
    (s.loopPart id key fallback).2.body.Inert := by
  unfold loopPart
  split
  · exact Body.inert_nil
  · split_ifs
    · exact Body.inert_nil
    · split
      · exact Body.inert_nil
      · exact inert_ofGap _ _ _

theorem inert_forLoopHead (s : Setup) (id : NodeId) : (s.forLoopHead id).body.Inert := by
  refine Body.inert_append (Body.inert_append (Body.inert_append ?_ ?_) ?_) ?_
  · exact inert_loopPart s id _ _
  · exact inert_loopPart s id _ _
  · exact inert_loopPart s id _ _
  · refine Body.inert_placedAt 0 ?_
    intro statement h
    rcases List.mem_cons.1 h with rfl | h
    · rfl
    · rw [List.mem_singleton.1 h]
      rfl

theorem inert_close : (Fragment.statements 0 [.closeBlock]).body.Inert :=
  Body.inert_placedAt 0 (by simp [Statement.isInert, Statement.isCall, Statement.declared])

theorem inert_idleBody (s : Setup) (id : NodeId) (container : Container) :
    (s.idleBody id container).body.Inert := by
  have hcomment (depth : Nat) :
      (Fragment.statements depth [.comment "No executables"]).body.Inert :=
    Body.inert_placedAt depth (by simp [Statement.isInert, Statement.isCall, Statement.declared])
  cases container with
  | forLoop =>
    exact Body.inert_append (Body.inert_append (inert_forLoopHead s id) (hcomment 1)) inert_close
  | package => exact hcomment 0
  | sequence => exact hcomment 0
  | forEachLoop => exact hcomment 0

/-- The calls of a container stand at one depth. Nothing behind them declares or calls anything, and
before them only a loop over a collection declares its variable. -/
theorem body_callBody (s : Setup) (id : NodeId) (container : Container) (calls : List Statement) :
    ∃ depth before after,
      (s.callBody id container calls).body = before ++ Body.placedAt depth calls ++ after ∧
      Body.calls before = [] ∧ Body.locals before = [] ∧
      Body.declared before = (if container = .forEachLoop then ["item"] else []) ∧
      Body.Inert after := by
  cases container with
  | package =>
    exact ⟨0, [], [], by simp [callBody, Fragment.statements], rfl, rfl, rfl, Body.inert_nil⟩
  | sequence =>
    exact ⟨0, [], [], by simp [callBody, Fragment.statements], rfl, rfl, rfl, Body.inert_nil⟩
  | forLoop =>
    have hhead := inert_forLoopHead s id
    exact ⟨1, (s.forLoopHead id).body, _, rfl, hhead.calls_eq, hhead.locals_eq, hhead.declared_eq,
      inert_close⟩
  | forEachLoop =>
    have hgap := inert_ofGap s.tree id (.enumerator (s.enumeratorName id))
    refine ⟨1, (s.forEachHead id).body, _, rfl, ?_, ?_, ?_, inert_close⟩
    · rw [forEachHead, Fragment.append_body, Body.calls_append, hgap.calls_eq]
      rfl
    · rw [forEachHead, Fragment.append_body, Body.locals_append, hgap.locals_eq]
      rfl
    · rw [forEachHead, Fragment.append_body, Body.declared_append, hgap.declared_eq]
      rfl

end Setup

/-! ## Containers -/

/-- The variables that a container declares itself, in order. -/
def ownVariables (t : Tree) (id : NodeId) : List Variable :=
  (t.variablesOf id).map (declaredVariable t)

/-- The variables that a container lends if it was lent `scope` itself. -/
def lentVariables (t : Tree) (id : NodeId) (scope : List Variable) : List Variable :=
  (Setup.declareAll (ownVariables t id) scope).2

theorem mem_map_name_lentVariables (t : Tree) (id : NodeId) (scope : List Variable) (name : String) :
    name ∈ (lentVariables t id scope).map (·.name) ↔
      name ∈ scope.map (·.name) ∨ name ∈ (ownVariables t id).map (·.name) :=
  Setup.mem_map_name_declareAll _ _ _

theorem nodup_lentVariables (t : Tree) (id : NodeId) {scope : List Variable}
    (h : (scope.map (·.name)).Nodup) : ((lentVariables t id scope).map (·.name)).Nodup :=
  Setup.nodup_declareAll _ h

namespace Setup

/-- The names of the methods that a container calls, and the names after them. -/
def calledMethods (s : Setup) (id : NodeId) (scope : List Variable) (names : Names) :
    List String × Names :=
  ((lentVariables s.tree id scope).foldl (fun names v => names.reserve v.name) names).giveAll s.tree
    (s.tree.executablesOf id)

theorem containerBody_lent (s : Setup) (id : NodeId) (container : Container)
    (scope : List Variable) (names : Names) :
    (s.containerBody id container scope names).2 =
      (lentVariables s.tree id scope, (s.calledMethods id scope names).2) := rfl

theorem containerBody_body (s : Setup) (id : NodeId) (container : Container)
    (scope : List Variable) (names : Names) :
    (s.containerBody id container scope names).1.body =
      Body.placedAt 0 (declareAll (ownVariables s.tree id) scope).1 ++
        (if (s.calledMethods id scope names).1.isEmpty then s.idleBody id container
          else s.callBody id container ((s.calledMethods id scope names).1.map
            (Statement.call · (lentVariables s.tree id scope)))).body := rfl

variable (s : Setup) (id : NodeId) (container : Container) (scope : List Variable) (names : Names)

/-- A container calls each method once, in order, and lends all variables to each. -/
theorem calls_containerBody :
    (s.containerBody id container scope names).1.body.calls =
      (s.calledMethods id scope names).1.map
        (Statement.call · (lentVariables s.tree id scope)) := by
  rw [containerBody_body, Body.calls_append, Body.calls_placedAt, calls_declareAll]
  split_ifs with h
  · rw [(inert_idleBody s id container).calls_eq, List.isEmpty_iff.1 h]
    rfl
  · obtain ⟨depth, before, after, hbody, hbefore, -, -, hafter⟩ := body_callBody s id container
      ((s.calledMethods id scope names).1.map (Statement.call · (lentVariables s.tree id scope)))
    rw [hbody, Body.calls_append, Body.calls_append, hbefore, hafter.calls_eq,
      Body.calls_placedAt, List.filter_eq_self.2]
    · simp
    · intro call hcall
      obtain ⟨name, -, rfl⟩ := List.mem_map.1 hcall
      rfl

theorem locals_containerBody :
    (s.containerBody id container scope names).1.body.locals =
      (declareAll (ownVariables s.tree id) scope).1.flatMap (·.locals) := by
  rw [containerBody_body, Body.locals_append, Body.locals_placedAt]
  split_ifs with h
  · rw [(inert_idleBody s id container).locals_eq, List.append_nil]
  · obtain ⟨depth, before, after, hbody, -, hbefore, -, hafter⟩ := body_callBody s id container
      ((s.calledMethods id scope names).1.map (Statement.call · (lentVariables s.tree id scope)))
    rw [hbody, Body.locals_append, Body.locals_append, hbefore, hafter.locals_eq,
      Body.locals_placedAt]
    simp [List.flatMap_map, Statement.locals]

theorem declared_containerBody :
    (s.containerBody id container scope names).1.body.declared =
      (declareAll (ownVariables s.tree id) scope).1.flatMap (·.declared) ++
        if container = .forEachLoop ∧ (s.calledMethods id scope names).1 ≠ [] then ["item"]
        else [] := by
  rw [containerBody_body, Body.declared_append, Body.declared_placedAt]
  congr 1
  by_cases h : (s.calledMethods id scope names).1 = []
  · rw [if_pos (List.isEmpty_iff.2 h), (inert_idleBody s id container).declared_eq, if_neg]
    exact fun hand => hand.2 h
  · obtain ⟨depth, before, after, hbody, -, -, hbefore, hafter⟩ := body_callBody s id container
      ((s.calledMethods id scope names).1.map (Statement.call · (lentVariables s.tree id scope)))
    rw [if_neg (mt List.isEmpty_iff.1 h), hbody, Body.declared_append, Body.declared_append,
      hbefore, hafter.declared_eq, Body.declared_placedAt]
    simp [h, List.flatMap_map, Statement.declared]

/-- Of the names that a container's body declares, only that of a loop over a collection is not
lent. -/
theorem mem_declared_containerBody {name : String}
    (h : name ∉ (lentVariables s.tree id scope).map (·.name)) :
    name ∈ (s.containerBody id container scope names).1.body.declared ↔
      container = .forEachLoop ∧ (s.calledMethods id scope names).1 ≠ [] ∧ name = "item" := by
  rw [declared_containerBody, List.mem_append]
  have hown : name ∉ (declareAll (ownVariables s.tree id) scope).1.flatMap (·.declared) := by
    intro hmem
    exact h ((mem_map_name_lentVariables _ _ _ _).2 (Or.inr (mem_declared_declareAll _ _ hmem)))
  split_ifs with hloop
  · simp [hown, hloop]
  · simp only [hown, List.not_mem_nil, or_self, false_iff]
    exact fun hand => hloop ⟨hand.1, hand.2.1⟩

end Setup

end SsisCompiler.Compile
