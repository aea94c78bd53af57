import SsisCompiler.Compile.Connection
import SsisCompiler.Compile.Setting
import SsisCompiler.Proofs.Compile.Calls
import SsisCompiler.Proofs.Package.Markers

/-!
# Texts that are computed at run time

A property whose value is an expression gets its text at run time, so its value is no fixed text. Where
a fixed text is wanted, some sources are asked one after the other, each a property or an attribute of
a node, and the first that has a text gives it. `settingSources` and `connectionSources` say which
sources these are for the setting of a task and for the connection string of a connection.

Results:
* `ExpressionsHeld`: in a tree that was read, what is an expression is the value of a property.
* `fixedSetting?_eq`, `storedConnection?_eq`: settings and connection strings come from their sources.
* `givesRunTimeText_iff`: when the text that is taken for a fixed one is an expression.
-/

namespace SsisCompiler.Package

open Markup (Element)

/-! ## Properties that are expressions -/

/-- What is an expression in a node is the value of a property. -/
def Node.ExpressionsHeld (node : Node) : Prop :=
  ∀ name ∈ node.expressions, (node.properties.get? name).isSome

theorem expressionsHeld_nodeOfElement (o : Options) (x : Element) :
    (Node.ofElement o x.tag x.body).ExpressionsHeld := by
  obtain ⟨node, hnode, heq⟩ := holdsMarkers_nodeOfElement o x
  intro name hname
  rw [heq] at hname ⊢
  obtain ⟨marker, hlast, -⟩ := (hnode.expression name).1 hname
  dsimp only
  rw [hnode.value, hlast]
  rfl

theorem expressionsHeld_ofElement (o : Options) (e : Element) (id : NodeId) :
    ((Reading.ofElement o e).tree.node id).ExpressionsHeld := by
  by_cases hid : id < (Reading.ofElement o e).tree.size
  · obtain ⟨p, hp⟩ := exists_address hid
    obtain ⟨x, hx⟩ := (hasNode_of_address hp).exists_at
    rw [node_ofElement hp hx]
    exact expressionsHeld_nodeOfElement o x
  · have hroot : (Reading.ofElement o e).tree.node id = Node.ofElement o e.tag e.body := by
      cases id with
      | zero => rfl
      | succ id =>
        have hentry : (Reading.ofElement o e).tree.entries[id]? = none :=
          Array.getElem?_eq_none (Nat.le_of_succ_le_succ (Nat.le_of_not_lt hid))
        simp only [Tree.node, Tree.entry?, hentry]
        rfl
    rw [hroot]
    exact expressionsHeld_nodeOfElement o e

/-! ## Sources of a text -/

/-- Where a text stands in a tree. -/
inductive Source
  | property (id : NodeId) (name : String)
  | attribute (id : NodeId) (name : String)
  deriving DecidableEq, Repr

namespace Source

/-- The text that a source has. -/
def text? (t : Tree) : Source → Option String
  | .property id name => (t.node id).properties.get? name
  | .attribute id name => (t.node id).attribute? name

/-- Whether what stands in a source is an expression. -/
def isRunTime (t : Tree) : Source → Bool
  | .property id name => (t.node id).isExpression name
  | .attribute _ _ => false

/-- The sources of a name in a node, in the order in which they are asked. -/
def ofNode (name : String) (id : NodeId) : List Source :=
  [.property id name, .attribute id name]

/-- The first of some sources that has a text. -/
def first? (t : Tree) (sources : List Source) : Option Source :=
  sources.find? fun source => (source.text? t).isSome

/-- The text that some sources give. -/
def textOf? (t : Tree) (sources : List Source) : Option String :=
  (first? t sources).bind (text? t)

/-- Whether the text that some sources give is an expression. -/
def givesRunTimeText (t : Tree) (sources : List Source) : Bool :=
  (first? t sources).any (isRunTime t)

variable (t : Tree)

theorem textOf?_eq_findSome? (sources : List Source) :
    textOf? t sources = sources.findSome? (text? t) := by
  induction sources with
  | nil => rfl
  | cons source rest ih =>
    rw [textOf?, first?, List.find?_cons, List.findSome?_cons]
    cases htext : source.text? t with
    | some text => simpa using htext
    | none => exact ih

theorem lookup_eq_textOf? (name : String) (id : NodeId) :
    (t.node id).lookup name = textOf? t (ofNode name id) := by
  rw [textOf?_eq_findSome?, ofNode, List.findSome?_cons, List.findSome?_cons]
  unfold Node.lookup text?
  dsimp only
  cases (t.node id).properties.get? name with
  | some value => rfl
  | none => cases (t.node id).attribute? name <;> rfl

theorem textOf?_append (a b : List Source) :
    textOf? t (a ++ b) = (textOf? t a).or (textOf? t b) := by
  simp only [textOf?_eq_findSome?, List.findSome?_append]

/-- Several nodes give the text of the first that has one. -/
theorem textOf?_flatMap (name : String) (ids : List NodeId) :
    textOf? t (ids.flatMap (ofNode name)) = ids.findSome? fun id => (t.node id).lookup name := by
  induction ids with
  | nil => rfl
  | cons id rest ih =>
    rw [List.flatMap_cons, textOf?_append, ← lookup_eq_textOf?, ih, List.findSome?_cons]
    cases (t.node id).lookup name <;> rfl

theorem isSome_first? (sources : List Source) :
    (first? t sources).isSome = (textOf? t sources).isSome := by
  rw [Bool.eq_iff_iff, textOf?_eq_findSome?, first?, List.find?_isSome, List.findSome?_isSome_iff]

theorem first?_append (a b : List Source) :
    first? t (a ++ b) = (first? t a).or (first? t b) :=
  List.find?_append

theorem givesRunTimeText_eq_true_iff (sources : List Source) :
    givesRunTimeText t sources = true ↔
      ∃ source, first? t sources = some source ∧ source.isRunTime t = true :=
  Option.any_eq_true _ _

/-- Sources without expressions change nothing behind others. -/
theorem givesRunTimeText_append (a : List Source) {b : List Source}
    (hb : ∀ source ∈ b, source.isRunTime t = false) :
    givesRunTimeText t (a ++ b) = givesRunTimeText t a := by
  unfold givesRunTimeText
  rw [first?_append]
  cases first? t a with
  | some source => rfl
  | none =>
    rw [Option.none_or, Option.any_none, Option.any_eq_false]
    intro source hsource
    exact hb source (List.mem_of_find?_eq_some hsource)

variable {t} {name : String}

theorem isExpression_of_isRunTime {id : NodeId} {source : Source} (hmem : source ∈ ofNode name id)
    (h : source.isRunTime t = true) : (t.node id).isExpression name = true := by
  rcases List.mem_cons.1 hmem with rfl | hmem
  · exact h
  · rw [List.mem_singleton.1 hmem] at h
    cases h

/-- A node gives an expression for a name exactly if the name's property is one. -/
theorem givesRunTimeText_ofNode {id : NodeId} (hheld : (t.node id).ExpressionsHeld) :
    givesRunTimeText t (ofNode name id) = (t.node id).isExpression name := by
  rw [Bool.eq_iff_iff, givesRunTimeText_eq_true_iff]
  constructor
  · rintro ⟨source, hsource, hrun⟩
    exact isExpression_of_isRunTime (List.mem_of_find?_eq_some hsource) hrun
  · intro h
    have htext : ((t.node id).properties.get? name).isSome := hheld name (List.contains_iff_mem.1 h)
    exact ⟨.property id name, by simp only [first?, ofNode, List.find?_cons, text?, htext], h⟩

/-- Of several nodes, the first that has a text for the name decides. -/
theorem givesRunTimeText_flatMap (hheld : ∀ id, (t.node id).ExpressionsHeld) (ids : List NodeId) :
    givesRunTimeText t (ids.flatMap (ofNode name)) =
      (ids.find? fun id => ((t.node id).lookup name).isSome).any
        fun id => (t.node id).isExpression name := by
  induction ids with
  | nil => rfl
  | cons id rest ih =>
    have hsome := isSome_first? t (ofNode name id)
    rw [← lookup_eq_textOf?] at hsome
    rw [List.flatMap_cons, List.find?_cons, ← hsome, givesRunTimeText, first?_append]
    cases hfirst : first? t (ofNode name id) with
    | some source =>
      have hnode : givesRunTimeText t (ofNode name id) = (t.node id).isExpression name :=
        givesRunTimeText_ofNode (hheld id)
      rw [givesRunTimeText, hfirst] at hnode
      exact hnode
    | none => exact ih

end Source

end SsisCompiler.Package

namespace SsisCompiler.Compile

open Markup (Content Element StartTag)
open Package (Layout NodeId Reading Source Tree)

/-! ## Settings and connections -/

/-- The sources of a setting: the task's data node, and then its own node, where an expression does not
count. -/
def settingSources (t : Tree) (id : NodeId) (data : Option NodeId) (key : String) : List Source :=
  data.toList.flatMap (Source.ofNode key)
    ++ (Source.ofNode key id).filter fun source => !source.isRunTime t

/-- The sources of a connection string: a node, and then the nodes below it. -/
def connectionSources (t : Tree) (id : NodeId) : List Source :=
  (id :: t.descendants id).flatMap (Source.ofNode "ConnectionString")

/-- What a task's own node gives for a setting. -/
theorem textOf?_filter_ofNode (t : Tree) (id : NodeId) (key : String) :
    Source.textOf? t ((Source.ofNode key id).filter fun source => !source.isRunTime t) =
      if (t.node id).isExpression key then (t.node id).attribute? key else (t.node id).lookup key := by
  have hattribute : Source.isRunTime t (.attribute id key) = false := rfl
  have hproperty : Source.isRunTime t (.property id key) = (t.node id).isExpression key := rfl
  simp only [Source.ofNode, List.filter_cons, List.filter_nil, hattribute, hproperty]
  cases (t.node id).isExpression key with
  | true =>
    show Source.textOf? t [.attribute id key] = (t.node id).attribute? key
    rw [Source.textOf?_eq_findSome?, List.findSome?_cons, Source.text?]
    cases (t.node id).attribute? key <;> rfl
  | false => exact (Source.lookup_eq_textOf? t key id).symm

theorem fixedSetting?_eq (t : Tree) (id : NodeId) (data : Option NodeId) (key : String) :
    fixedSetting? t id data key = Source.textOf? t (settingSources t id data key) := by
  rw [settingSources, Source.textOf?_append, textOf?_filter_ofNode]
  unfold fixedSetting?
  cases data with
  | none => rfl
  | some d =>
    rw [Option.toList_some, List.flatMap_singleton, ← Source.lookup_eq_textOf?, Option.bind_some]
    cases (t.node d).lookup key <;> rfl

theorem storedConnection?_eq (t : Tree) (id : NodeId) :
    storedConnection? t id = Source.textOf? t (connectionSources t id) := by
  rw [connectionSources, Source.textOf?_flatMap, storedConnection?]

theorem givesRunTimeText_settingSources {t : Tree} (hheld : ∀ id, (t.node id).ExpressionsHeld)
    (id : NodeId) (data : Option NodeId) (key : String) :
    Source.givesRunTimeText t (settingSources t id data key) =
      data.any fun d => (t.node d).isExpression key := by
  rw [settingSources, Source.givesRunTimeText_append]
  · cases data with
    | none => rfl
    | some d =>
      rw [Option.toList_some, List.flatMap_singleton]
      exact Source.givesRunTimeText_ofNode (hheld d)
  · intro source hsource
    simpa using (List.mem_filter.1 hsource).2

/-- When a text that is taken for a fixed one is an expression, in any tree that was read. The fixed
text of a setting is one exactly if the setting is an expression in the task's data node. The string of
a reference is that of the first connection referred to; it is one exactly if it is an expression in the
first node, from that connection on downwards, that has a connection string at all. -/
theorem givesRunTimeText_iff (o : Package.Options) (e : Element) (id : NodeId)
    (data : Option NodeId) (key reference : String) :
    let t := (Reading.ofElement o e).tree
    (fixedSetting? t id data key = Source.textOf? t (settingSources t id data key) ∧
      (Source.givesRunTimeText t (settingSources t id data key) = true ↔
        ∃ d, data = some d ∧ (t.node d).isExpression key = true)) ∧
    ∀ connection, connection? t reference = some connection →
      ∃ manager, (Layout.ofTree t).connections.find? (isReferred t (Text.trim reference)) =
          some manager ∧
        connection.stored = Source.textOf? t (connectionSources t manager) ∧
        (Source.givesRunTimeText t (connectionSources t manager) = true ↔
          ∃ i, (manager :: t.descendants manager).find?
              (fun i => ((t.node i).lookup "ConnectionString").isSome) = some i ∧
            (t.node i).isExpression "ConnectionString" = true) := by
  intro t
  have hheld : ∀ id, (t.node id).ExpressionsHeld := Package.expressionsHeld_ofElement o e
  refine ⟨⟨fixedSetting?_eq t id data key, ?_⟩, fun connection hconnection => ?_⟩
  · rw [givesRunTimeText_settingSources hheld]
    exact Option.any_eq_true _ _
  · obtain ⟨manager, hmanager, rfl⟩ := Option.map_eq_some_iff.1 hconnection
    refine ⟨manager, hmanager, storedConnection?_eq t manager, ?_⟩
    rw [connectionSources, Source.givesRunTimeText_flatMap hheld]
    exact Option.any_eq_true _ _

/-- A property that is an expression. -/
def expressionContent (name expression : String) : Content StartTag :=
  .element (packageTag "PropertyExpression" [("Name", name)]) (.text expression .done) .done

/-- A connection of a package with what is inside it, and what follows it. -/
def connectionContent (name : String) (body rest : Content StartTag) : Content StartTag :=
  .element (packageTag "ConnectionManager" [("ObjectName", name)]) body rest

/-- A connection whose string is an expression, a connection whose string stands in a node below it,
and a task with a data node whose statement is an expression. -/
def boundElement : Element where
  tag := packageTag "Executable" []
  body := connectionContent "C" (expressionContent "ConnectionString" "@[User::Cs]")
    (connectionContent "D"
      (.element (packageTag "ConnectionManager" [("ConnectionString", "Server=s")]) .done .done)
      (executableContent "Load" "Microsoft.ExecuteSQLTask"
        (.element (packageTag "SqlTaskData" [])
          (expressionContent "SqlStatementSource" "@[User::Sql]") .done) .done))

/-- The string of the second connection is fixed, and so is the name of the task. -/
theorem givesRunTimeText_iff_boundElement :
    let t := (Reading.ofElement {} boundElement).tree
    connection? t "D" = some ⟨"D", some "Server=s"⟩ ∧
      (∃ manager, (Layout.ofTree t).connections.find? (isReferred t "D") = some manager ∧
        Source.textOf? t (connectionSources t manager) = some "Server=s" ∧
        Source.givesRunTimeText t (connectionSources t manager) = false) ∧
      Source.givesRunTimeText t (settingSources t 4 (some 5) "ObjectName") = false := by
  intro t
  have hconnection : connection? t "D" = some ⟨"D", some "Server=s"⟩ := by decide +kernel
  have htrim : Text.trim "D" = "D" := by decide +kernel
  obtain ⟨⟨-, hsetting⟩, hconnections⟩ :=
    givesRunTimeText_iff {} boundElement 4 (some 5) "ObjectName" "D"
  obtain ⟨manager, hmanager, hstored, hiff⟩ := hconnections _ hconnection
  have hfixed : ∀ manager ∈ (Layout.ofTree t).connections, isReferred t (Text.trim "D") manager = true →
      ∀ i ∈ manager :: t.descendants manager, (t.node i).isExpression "ConnectionString" = false := by
    decide +kernel
  refine ⟨hconnection, ⟨manager, htrim ▸ hmanager, hstored.symm, ?_⟩, ?_⟩
  · rw [Bool.eq_false_iff, ne_eq, hiff]
    rintro ⟨i, hi, hexpression⟩
    rw [hfixed manager (List.mem_of_find?_eq_some hmanager) (List.find?_some hmanager) i
      (List.mem_of_find?_eq_some hi)] at hexpression
    cases hexpression
  · rw [Bool.eq_false_iff, ne_eq, hsetting]
    rintro ⟨d, hd, hexpression⟩
    obtain rfl := Option.some.inj hd
    have hplain : (t.node 5).isExpression "ObjectName" = false := by decide +kernel
    rw [hplain] at hexpression
    cases hexpression

/-- The string of the first connection and the statement of the task are expressions, and both are
taken for fixed texts. -/
theorem givesRunTimeText_boundElement :
    let t := (Reading.ofElement {} boundElement).tree
    connection? t "C" = some ⟨"C", some "@[User::Cs]"⟩ ∧
      (Layout.ofTree t).connections.find? (isReferred t "C") = some 1 ∧
      Source.textOf? t (connectionSources t 1) = some "@[User::Cs]" ∧
      Source.givesRunTimeText t (connectionSources t 1) = true ∧
      fixedSetting? t 4 (some 5) "SqlStatementSource" = some "@[User::Sql]" ∧
      Source.givesRunTimeText t (settingSources t 4 (some 5) "SqlStatementSource") = true := by
  decide +kernel

end SsisCompiler.Compile
