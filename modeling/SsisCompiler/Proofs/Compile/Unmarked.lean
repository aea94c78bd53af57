import SsisCompiler.Compile.Method
import SsisCompiler.Proofs.CSharp.Placeholders
import SsisCompiler.Proofs.Compile.Markers
import SsisCompiler.Proofs.Expression.Unmarked
import SsisCompiler.Proofs.Names.Registry

/-!
# Packages without the mark

If the mark stands in none of the texts of a package, it stands in nothing that a program takes from
them: settings and connections, the names and values of variables, the names of methods.

Results:
* `isUnmarked_ofNode`: what the expressions of a package see of it.
* `unmarked_fixedSetting`, `unmarked_expressionSetting`: the settings of a task.
* `isUnmarked_declaredVariable`: the variables of a package.
* `Names.unmarked_giveAll`: the names of methods.
* `unmarked_serverConnection`, `unmarked_renameMarkers`: what connections and statements are rewritten
  to.
* `unmarked_mainNamespace`: the namespace that a script declares.
-/

namespace SsisCompiler.Package

open CSharp (Unmarked)

/-! ## Nodes -/

namespace Node

/-- The texts of a node that may get into a program. -/
def texts (node : Node) : List String :=
  node.kind :: (node.name.toList ++ node.attributes.map (·.2) ++ node.properties.map (·.2)
    ++ node.content.toList)

/-- That the mark stands in none of the texts of a node. -/
def IsUnmarked (node : Node) : Prop :=
  ∀ text ∈ node.texts, Unmarked text

instance (node : Node) : Decidable node.IsUnmarked :=
  inferInstanceAs (Decidable (∀ text ∈ node.texts, Unmarked text))

namespace IsUnmarked

variable {node : Node} (h : node.IsUnmarked)
include h

theorem kind : Unmarked node.kind :=
  h _ (by simp [texts])

theorem name : ∀ name ∈ node.name, Unmarked name :=
  fun name hname => h name (by simp [texts, Option.mem_def.1 hname])

theorem content : ∀ text ∈ node.content, Unmarked text :=
  fun text htext => h text (by simp [texts, Option.mem_def.1 htext])

theorem property (key : String) : ∀ value ∈ node.properties.get? key, Unmarked value := by
  intro value hvalue
  obtain ⟨before, after, hfields, -⟩ := List.lookup_eq_some_iff.1 (Option.mem_def.1 hvalue)
  exact h value (by simp [texts, hfields])

theorem attributeValue (key : String) : ∀ value ∈ node.attribute? key, Unmarked value := by
  have hvalues : ∀ field ∈ node.attributes, Unmarked field.2 := by
    intro field hfield
    refine h field.2 ?_
    simp only [texts, List.mem_cons, List.mem_append, List.mem_map]
    exact Or.inr (Or.inl (Or.inl (Or.inr ⟨field, hfield, rfl⟩)))
  intro value hvalue
  unfold Node.attribute? at hvalue
  split at hvalue
  · rename_i found hfound
    obtain rfl := Option.mem_some.1 hvalue
    obtain ⟨before, after, hfields, -⟩ := List.lookup_eq_some_iff.1 hfound
    exact hvalues (key, found) (by simp [hfields])
  · obtain ⟨field, hfield, rfl⟩ := Option.map_eq_some_iff.1 hvalue
    exact hvalues field (List.mem_of_find?_eq_some hfield)

theorem lookup (key : String) : ∀ value ∈ node.lookup key, Unmarked value := by
  intro value hvalue
  unfold Node.lookup at hvalue
  split at hvalue
  · rename_i found hfound
    obtain rfl := Option.mem_some.1 hvalue
    exact h.property key found hfound
  · exact h.attributeValue key value hvalue

theorem localKind : Unmarked node.localKind :=
  h.kind.of_isInfix (Text.afterLast_isInfix ':' node.kind)

theorem label : Unmarked node.label := by
  unfold Node.label
  split
  · rename_i name hname
    simp +decide [h.kind, h.name name hname]
  · exact h.kind

end IsUnmarked

end Node

namespace Tree

/-- All nodes of a tree. -/
def nodes (t : Tree) : List Node :=
  t.root :: t.entries.toList.map (·.node)

/-- That the mark stands in none of the texts of a tree. -/
def IsUnmarked (t : Tree) : Prop :=
  ∀ node ∈ t.nodes, node.IsUnmarked

instance (t : Tree) : Decidable t.IsUnmarked :=
  inferInstanceAs (Decidable (∀ node ∈ t.nodes, node.IsUnmarked))

theorem IsUnmarked.node {t : Tree} (h : t.IsUnmarked) (id : NodeId) : (t.node id).IsUnmarked := by
  unfold Tree.node
  split
  · rename_i entry hentry
    cases id with
    | zero => cases hentry
    | succ id =>
      refine h entry.node (List.mem_cons_of_mem _ (List.mem_map_of_mem ?_))
      exact Array.mem_toList_iff.2 (Array.mem_of_getElem? hentry)
  · exact h t.root List.mem_cons_self

end Tree

end SsisCompiler.Package

namespace SsisCompiler.Compile

open CSharp (Unmarked Variable)
open Package (NodeId Tree)

section Tree

variable {t : Tree} (ht : t.IsUnmarked)
include ht

/-! ## Settings -/

theorem isUnmarked_ofNode (id : NodeId) : (Expression.Surroundings.ofNode t id).IsUnmarked := by
  have hname : ∀ i, Unmarked ((t.node i).name.getD "") := fun i =>
    CSharp.unmarked_getD (ht.node i).name (by decide)
  exact ⟨hname _, (ht.node _).lookup "DTSID", hname id⟩

theorem unmarked_fixedSetting (id : NodeId) (data : Option NodeId) (key : String) :
    ∀ value ∈ fixedSetting? t id data key, Unmarked value := by
  intro value hvalue
  unfold fixedSetting? at hvalue
  split at hvalue
  · rename_i found hfound
    obtain rfl := Option.mem_some.1 hvalue
    obtain ⟨d, -, hd⟩ := Option.bind_eq_some_iff.1 hfound
    exact (ht.node d).lookup key found hd
  · dsimp only at hvalue
    split at hvalue
    · exact (ht.node id).attributeValue key value hvalue
    · exact (ht.node id).lookup key value hvalue

theorem unmarked_expressionSetting (id : NodeId) (key : String) :
    ∀ expression ∈ expressionSetting? (t.node id) key, Unmarked expression := by
  intro expression hexpression
  unfold expressionSetting? at hexpression
  split at hexpression
  · exact (ht.node id).property key expression hexpression
  · cases hexpression

/-! ## Variables -/

theorem unmarked_storedValue (id : NodeId) : ∀ value ∈ storedValue? t id, Unmarked value := by
  intro value hvalue
  unfold storedValue? at hvalue
  dsimp only at hvalue
  rcases Option.or_eq_some_iff.1 hvalue with hvalue | ⟨-, hvalue⟩
  · rcases Option.or_eq_some_iff.1 hvalue with hvalue | ⟨-, hvalue⟩
    · exact (ht.node id).property "Value" value hvalue
    · obtain ⟨node, hnode, hcontent⟩ := Option.bind_eq_some_iff.1 hvalue
      obtain ⟨i, -, rfl⟩ := Option.map_eq_some_iff.1 hnode
      exact (ht.node i).content value hcontent
  · exact (ht.node id).content value hvalue

theorem unmarked_variableName (id : NodeId) : Unmarked (variableName t id) := by
  unfold variableName
  exact CSharp.unmarked_variableIdent (CSharp.unmarked_getD (ht.node id).name (by decide))

theorem isUnmarked_declaredVariable (id : NodeId) : (declaredVariable t id).IsUnmarked := by
  refine ⟨?_, CSharp.unmarked_typeName _, CSharp.unmarked_initialValue _ (unmarked_storedValue ht id)⟩
  dsimp only [declaredVariable]
  exact unmarked_variableName ht id

end Tree

theorem unmarked_referenceIdent {reference : String} (h : Unmarked reference) :
    Unmarked (referenceIdent reference) := by
  unfold referenceIdent
  dsimp only
  refine CSharp.unmarked_variableIdent (h.of_isInfix ?_)
  rw [String.toList_ofList]
  exact ((Text.trimWhile_isInfix _ _).trans (List.dropWhile_suffix _).isInfix).trans
    (Text.afterLastPiece_isInfix _ _)

/-! ## Names of methods -/

namespace Names

/-- That the mark stands in none of the names given. -/
def IsUnmarked (names : Names) : Prop :=
  ∀ entry ∈ names.given, Unmarked entry.2

theorem unmarked_base {t : Tree} (ht : t.IsUnmarked) (id : NodeId) : Unmarked (base t id) := by
  have hfallback : Unmarked (base.fallback t (t.node id) id) := by
    unfold base.fallback
    have hkind := CSharp.unmarked_sanitize (ht.node id).localKind
    simp +decide [hkind]
  unfold base
  dsimp only
  split
  · rename_i name hname
    split
    · exact hfallback
    · exact CSharp.unmarked_sanitize ((ht.node id).name name hname)
  · exact hfallback

theorem unmarked_fresh (names : Names) {base : String} (h : Unmarked base) :
    Unmarked (names.fresh base) := by
  rcases names.fresh_cases base with ⟨-, hfresh⟩ | ⟨n, -, -, hfresh⟩
  · rw [hfresh]
    exact h
  · rw [hfresh]
    simp [h]

theorem isUnmarked_reserveAll {names : Names} (h : names.IsUnmarked) (vs : List Variable) :
    (vs.foldl (fun names v => names.reserve v.name) names).IsUnmarked := by
  induction vs generalizing names with
  | nil => exact h
  | cons v vs ih =>
    have hreserved : (names.reserve v.name).IsUnmarked := h
    exact ih hreserved

variable {t : Tree} (ht : t.IsUnmarked)
include ht

theorem unmarked_give {names : Names} (h : names.IsUnmarked) (id : NodeId) :
    Unmarked (names.give t id).1 ∧ (names.give t id).2.IsUnmarked := by
  cases hid : names.nameOf? id with
  | some name =>
    rw [give_of_named t hid]
    exact ⟨h _ (mem_given_of_nameOf? hid), h⟩
  | none =>
    rw [give_of_unnamed t hid]
    have hname := names.unmarked_fresh (unmarked_base ht id)
    exact ⟨hname, List.forall_mem_cons.2 ⟨hname, h⟩⟩

theorem unmarked_giveAll {names : Names} (h : names.IsUnmarked) (ids : List NodeId) :
    (∀ name ∈ (names.giveAll t ids).1, Unmarked name) ∧ (names.giveAll t ids).2.IsUnmarked := by
  induction ids generalizing names with
  | nil => exact ⟨by simp [giveAll], h⟩
  | cons id ids ih =>
    obtain ⟨hname, hnames⟩ := unmarked_give ht h id
    obtain ⟨hrest, hfinal⟩ := ih hnames
    rw [giveAll_cons]
    exact ⟨List.forall_mem_cons.2 ⟨hname, hrest⟩, hfinal⟩

end Names

/-! ## Connections -/

theorem unmarked_of_mem_connectionParts {connection part : String} (h : Unmarked connection)
    (hpart : part ∈ connectionParts connection) : Unmarked part := by
  obtain ⟨piece, hpiece, rfl⟩ := List.mem_map.1 hpart
  refine h.of_isInfix ?_
  rw [String.toList_ofList]
  exact Text.infix_of_mem_split hpiece

theorem unmarked_connectionValue {connection : String} (h : Unmarked connection) (key : String) :
    ∀ value ∈ connectionValue? connection key, Unmarked value := by
  intro value hvalue
  obtain ⟨part, hpart, hfound⟩ := List.exists_of_findSome?_eq_some hvalue
  have hunmarked := unmarked_of_mem_connectionParts h hpart
  unfold partValue? at hfound
  split at hfound
  · rename_i k v hsplit
    split at hfound
    · obtain rfl := Option.some.inj hfound
      exact hunmarked.of_isInfix ((Text.trim_isInfix v).trans (Text.infix_of_splitOnce hsplit).2)
    · cases hfound
  · cases hfound

theorem unmarked_serverConnection {connection : String} (h : Unmarked connection) :
    Unmarked (serverConnection connection) := by
  have hparts : ∀ part ∈ ((connectionParts connection).map Text.trim).filter isKeptPart,
      Unmarked part := by
    intro part hpart
    obtain ⟨whole, hwhole, rfl⟩ := List.mem_map.1 (List.mem_of_mem_filter hpart)
    exact (unmarked_of_mem_connectionParts h hwhole).of_isInfix (Text.trim_isInfix whole)
  rw [serverConnection]
  generalize ((connectionParts connection).map Text.trim).filter isKeptPart = parts at hparts
  induction parts with
  | nil => exact (by decide : Unmarked "")
  | cons part parts ih =>
    obtain ⟨hpart, hrest⟩ := List.forall_mem_cons.1 hparts
    rw [List.map_cons, String.join_cons, CSharp.unmarked_append_append (by decide) (by decide)]
    exact ⟨by simp +decide [hpart], ih hrest⟩

theorem unmarked_connection {t : Tree} (ht : t.IsUnmarked) {reference : String}
    {connection : Connection} (h : connection? t reference = some connection) :
    Unmarked connection.name ∧ ∀ stored ∈ connection.stored, Unmarked stored := by
  obtain ⟨id, -, rfl⟩ := Option.map_eq_some_iff.1 h
  refine ⟨CSharp.unmarked_getD (ht.node id).name (by decide), fun stored hstored => ?_⟩
  obtain ⟨i, -, hfound⟩ := List.exists_of_findSome?_eq_some hstored
  exact (ht.node i).lookup "ConnectionString" stored hfound

/-! ## Statements and their parameters -/

theorem respells_renameFrom (region : Region) (n : Nat) (cs : List Char) :
    CSharp.Respells cs (renameFrom region n cs) := by
  fun_induction renameFrom region n cs with
  | case1 => exact .nil
  | case2 n cs ih =>
    refine .replace '?' ('@' :: 'p' :: (toString n).toList) (by simp) ?_ ih
    intro d hd
    rcases List.mem_cons.1 hd with rfl | hd
    · decide
    · rcases List.mem_cons.1 hd with rfl | hd
      · decide
      · exact CSharp.outside_repr n d hd
  | case3 n cs ih => exact .keep '/' (.keep '*' ih)
  | case4 n c cs _ _ ih => exact .keep c ih
  | case5 close n c cs ih => exact .keep c ih
  | case6 last n c cs ih => exact .keep c ih

theorem unmarked_renameMarkers {statement : String} (h : Unmarked statement) :
    Unmarked (renameMarkers statement) := by
  refine CSharp.Respells.unmarked ?_ h
  rw [renameMarkers, String.toList_ofList]
  exact respells_renameFrom .plain 0 statement.toList

theorem unmarked_parameterName {name : String} (h : Unmarked name) :
    Unmarked (parameterName name) := by
  have htrim := h.of_isInfix (Text.trim_isInfix name)
  unfold parameterName
  dsimp only
  split
  · simp +decide [htrim]
  · split
    · exact htrim
    · simp +decide [htrim]

theorem unmarked_columnCode {name : String} (h : Unmarked name) : Unmarked (columnCode name) := by
  unfold columnCode
  split
  · simp
  · exact CSharp.unmarked_verbatim h

/-- That the mark stands in neither part of a binding. -/
structure Binding.IsUnmarked (b : Binding) : Prop where
  name : Unmarked b.name
  variableName : Unmarked b.variableName

theorem isUnmarked_of_mem_bindings {t : Tree} (ht : t.IsUnmarked) {data : Option NodeId}
    {kind nameKey : String} {b : Binding} (h : b ∈ bindings t data kind nameKey) : b.IsUnmarked := by
  cases data with
  | none => cases h
  | some data =>
    obtain ⟨node, hnode, hb⟩ := List.mem_filterMap.1 h
    obtain ⟨id, -, rfl⟩ := List.mem_map.1 (List.mem_of_mem_filter hnode)
    unfold Binding.ofNode? at hb
    split at hb
    · rename_i name reference hname hreference
      obtain rfl := Option.some.inj hb
      refine ⟨(ht.node id).lookup nameKey name hname, ?_⟩
      dsimp only
      exact unmarked_referenceIdent ((ht.node id).lookup "DtsVariableName" reference hreference)
    · cases hb

/-! ## Scripts -/

theorem unmarked_namespaceOfLine {line : String} (h : Unmarked line) :
    ∀ name ∈ namespaceOfLine? line, Unmarked name := by
  intro name hname
  unfold namespaceOfLine? at hname
  dsimp only at hname
  split at hname
  · split at hname
    · cases hname
    · obtain rfl := Option.mem_some.1 hname
      refine h.of_isInfix ?_
      rw [String.toList_ofList]
      exact (((Text.trimWhile_isInfix _ _).trans (Text.dropEndWhile_isPrefix _ _).isInfix).trans
        (Text.trimWhile_isInfix _ _)).trans
          ((List.drop_suffix _ _).isInfix.trans (Text.trim_isInfix line))
  · cases hname

theorem unmarked_mainNamespace {files : List (String × String)} (h : ∀ file ∈ files, Unmarked file.2) :
    ∀ name ∈ mainNamespace? files, Unmarked name := by
  intro name hname
  obtain ⟨file, hfile, hfound⟩ := List.exists_of_findSome?_eq_some hname
  obtain ⟨line, hline, hspace⟩ := List.exists_of_findSome?_eq_some hfound
  have hunmarked := (h file (List.mem_of_mem_filter hfile)).of_isInfix (Text.infix_of_mem_lines hline).1
  exact unmarked_namespaceOfLine hunmarked name hspace

theorem unmarked_of_mem_sourceFiles {t : Tree} (ht : t.IsUnmarked) {project : NodeId}
    {file : String × String} (h : file ∈ sourceFiles t project) : Unmarked file.2 := by
  obtain ⟨node, hnode, hfile⟩ := List.mem_filterMap.1 h
  obtain ⟨id, -, rfl⟩ := List.mem_map.1 hnode
  unfold sourceFile? at hfile
  split at hfile
  · split at hfile
    · rename_i name text hname htext
      split at hfile
      · obtain rfl := Option.some.inj hfile
        exact (ht.node id).content text htext
      · cases hfile
    · cases hfile
  · cases hfile

end SsisCompiler.Compile
