import SsisCompiler.Proofs.Package.Mirror

/-!
# What the markers of an element say

Markers are read one after the other, and each changes the node around it: a property keeps the place
that its first marker gave it and takes the value of its last one, it becomes an expression and stops
being one as the markers alternate, and only the first marker of the name property names the node.

`HoldsMarkers` says what a node has of a row of markers, looking at the whole row at once. One more marker
at the end of the row keeps it, and so does everything else that stands in an element.

Results:
* `HoldsMarkers.addMarker`: what one more marker does.
* `holdsMarkers_addContent`: what all markers of a chain do.
* `markers_ofElement`: the properties, the expressions and the name of every node of a tree.
-/

namespace SsisCompiler.Markup

/-- The pieces of text in a chain, at every depth, in document order. -/
def Content.textsWithin : Content StartTag → List String
  | .done => []
  | .text s rest => s :: rest.textsWithin
  | .comment _ rest => rest.textsWithin
  | .instruction _ rest => rest.textsWithin
  | .element _ body rest => body.textsWithin ++ rest.textsWithin

theorem Content.allText_eq_join (c : Content StartTag) : c.allText = String.join c.textsWithin := by
  induction c with
  | done => rfl
  | text s rest ih => rw [allText, textsWithin, String.join_cons, ih]
  | comment _ rest ih => exact ih
  | instruction _ rest ih => exact ih
  | element _ body rest ihbody ihrest =>
    rw [allText, textsWithin, String.join_append, ihbody, ihrest]

end SsisCompiler.Markup

namespace SsisCompiler.Package

open Markup (Address Content Element StartTag)

/-! ## Named values -/

namespace Fields

theorem get?_cons (name value other : String) (rest : Fields) :
    get? ((name, value) :: rest) other = if other = name then some value else get? rest other := by
  simp only [get?, List.lookup_cons]
  by_cases h : other = name
  · simp [h]
  · simp only [beq_eq_false_iff_ne.2 h, if_neg h]

theorem get?_insert (name value : String) (fields : Fields) (other : String) :
    (fields.insert name value).get? other =
      if other = name then some value else fields.get? other := by
  induction fields with
  | nil => exact get?_cons name value other []
  | cons field rest ih =>
    obtain ⟨n, v⟩ := field
    rw [insert]
    split_ifs with hn ho ho
    · rw [get?_cons, if_pos ho]
    · obtain rfl : n = name := by simpa using hn
      rw [get?_cons, get?_cons, if_neg ho, if_neg ho]
    · have hne : other ≠ n := fun heq => hn (by simp [← heq, ho])
      rw [get?_cons, if_neg hne, ih, if_pos ho]
    · rw [get?_cons, get?_cons, ih, if_neg ho]

/-- A name that is there keeps its place; a new one comes last. -/
theorem names_insert (name value : String) (fields : Fields) :
    (fields.insert name value).names =
      if name ∈ fields.names then fields.names else fields.names ++ [name] := by
  induction fields with
  | nil => rfl
  | cons field rest ih =>
    obtain ⟨n, v⟩ := field
    rw [insert]
    by_cases hn : n = name
    · simp [names, hn]
    · have hne : name ≠ n := fun heq => hn heq.symm
      simp only [names, List.map_cons] at ih ⊢
      rw [if_neg (by simpa using hn), List.map_cons, ih]
      by_cases hmem : name ∈ rest.map (·.1) <;> simp [hmem, hne]

/-- The attribute fields of a tag, looked up by name. -/
theorem get?_attributes (attributes : List Markup.Attribute) (name : String) :
    get? (attributes.map fun a => (a.written, a.value)) name =
      (attributes.find? (·.written == name)).map (·.value) := by
  induction attributes with
  | nil => rfl
  | cons a rest ih =>
    rw [List.map_cons, get?_cons, ih, List.find?_cons]
    by_cases h : name = a.written
    · simp [h]
    · simp [h, beq_eq_false_iff_ne.2 (Ne.symm h)]

end Fields

/-! ## Rows of markers -/

namespace Options

/-- A child element that is a marker with a name, by that name. -/
def named? (o : Options) (y : Element) : Option (String × Element) :=
  if o.isMarker y.tag then (o.markerName? y.tag).map (·, y) else none

/-- The markers with a name directly in an element, in order. -/
def namedMarkers (o : Options) (x : Element) : List (String × Element) :=
  x.children.filterMap o.named?

end Options

/-- The text that a marker holds, at every depth. -/
def markerText (marker : String × Element) : String :=
  String.join marker.2.body.textsWithin

/-- The last marker of a name. -/
def lastNamed? (markers : List (String × Element)) (name : String) : Option (String × Element) :=
  markers.findRev? (·.1 == name)

theorem lastNamed?_concat (markers : List (String × Element)) (marker : String × Element)
    (name : String) :
    lastNamed? (markers ++ [marker]) name =
      if name = marker.1 then some marker else lastNamed? markers name := by
  simp only [lastNamed?, List.findRev?_eq_find?_reverse, List.reverse_append, List.reverse_singleton,
    List.singleton_append, List.find?_cons]
  by_cases h : name = marker.1
  · simp [h]
  · rw [beq_eq_false_iff_ne.2 (Ne.symm h), if_neg h]

theorem mem_of_lastNamed? {markers : List (String × Element)} {marker : String × Element}
    {name : String} (h : lastNamed? markers name = some marker) : name ∈ markers.map (·.1) := by
  rw [lastNamed?, List.findRev?_eq_find?_reverse] at h
  have hname : marker.1 = name := by simpa using List.find?_some h
  rw [← hname]
  exact List.mem_map_of_mem (List.mem_reverse.1 (List.mem_of_find?_eq_some h))

/-- What a node has of a row of markers: a property for each name, in the order in which the names first
come, with the text of the last marker of the name; the properties whose last marker is one with an
expression; and the text of the first marker of the name property as its name. -/
structure HoldsMarkers (o : Options) (markers : List (String × Element)) (node : Node) : Prop where
  names : node.properties.names = (markers.map (·.1)).eraseDups
  value : ∀ name, node.properties.get? name = (lastNamed? markers name).map markerText
  expression : ∀ name, name ∈ node.expressions ↔
    ∃ marker, lastNamed? markers name = some marker ∧ o.isExpression marker.2.tag = true
  title : node.name = (markers.find? (·.1 == o.nameProperty)).map markerText

theorem mem_addName (name other : String) (names : List String) :
    other ∈ addName name names ↔ other = name ∨ other ∈ names := by
  unfold addName
  split_ifs with h
  · have hmem : name ∈ names := by simpa using h
    constructor
    · exact Or.inr
    · rintro (rfl | hother)
      · exact hmem
      · exact hother
  · simp [or_comm]

theorem mem_removeName (name other : String) (names : List String) :
    other ∈ removeName name names ↔ other ≠ name ∧ other ∈ names := by
  simp [removeName, and_comm]

/-- One more marker with a name. -/
theorem HoldsMarkers.addMarker {o : Options} {markers : List (String × Element)} {node : Node}
    (h : HoldsMarkers o markers node) {tag : StartTag} {name : String}
    (hname : o.markerName? tag = some name) (body : Content StartTag) :
    HoldsMarkers o (markers ++ [(name, ⟨tag, body⟩)]) (node.addMarker o tag body) := by
  have htext : body.allText = markerText (name, ⟨tag, body⟩) := body.allText_eq_join
  simp only [Node.addMarker, hname, htext]
  constructor
  · show Fields.names (Fields.insert _ _ _) = _
    rw [Fields.names_insert, h.names, List.map_append, List.eraseDups_append]
    by_cases hmem : name ∈ markers.map (·.1)
    · rw [if_pos (List.mem_eraseDups.2 hmem)]
      simp [List.removeAll, hmem]
    · rw [if_neg (by rwa [List.mem_eraseDups])]
      simp [List.removeAll, hmem, List.eraseDups_cons]
  · intro other
    rw [lastNamed?_concat]
    show Fields.get? (Fields.insert _ _ _) other = _
    rw [Fields.get?_insert, h.value]
    split_ifs <;> rfl
  · intro other
    rw [lastNamed?_concat]
    dsimp only
    by_cases hother : other = name
    · rw [if_pos hother]
      split_ifs with hexpression
      · simp [mem_addName, hother, hexpression]
      · simp [mem_removeName, hother, hexpression]
    · rw [if_neg hother, ← h.expression]
      split_ifs
      · simp [mem_addName, hother]
      · simp [mem_removeName, hother]
  · dsimp only
    rw [List.find?_append, h.title]
    cases hfirst : markers.find? (·.1 == o.nameProperty) with
    | some first => simp
    | none => by_cases hmatch : name = o.nameProperty <;> simp [hmatch]

/-- What stands in an element besides markers with a name changes none of this. -/
theorem HoldsMarkers.addText {o : Options} {markers : List (String × Element)} {node : Node}
    (h : HoldsMarkers o markers node) (s : String) : HoldsMarkers o markers (node.addText o s) := by
  unfold Node.addText
  split_ifs
  · exact h
  · split
    · exact h
    · exact ⟨h.names, h.value, h.expression, h.title⟩

/-- All markers of a chain, behind those that were read before. -/
theorem holdsMarkers_addContent {o : Options} (c : Content StartTag)
    {markers : List (String × Element)} {node : Node} (h : HoldsMarkers o markers node) :
    HoldsMarkers o (markers ++ c.children.filterMap o.named?) (node.addContent o c) := by
  induction c generalizing markers node with
  | done =>
    rw [Content.children, List.filterMap_nil, List.append_nil]
    exact h
  | text s rest ih => exact ih (h.addText s)
  | comment _ rest ih => exact ih h
  | instruction _ rest ih => exact ih h
  | element tag body rest _ ih =>
    rw [Node.addContent, Content.children, List.filterMap_cons, Options.named?]
    split_ifs with hmarker
    · cases hname : o.markerName? tag with
      | none => simpa [Node.addMarker, hname] using ih h
      | some name => simpa using ih (h.addMarker hname body)
    · exact ih h

theorem holdsMarkers_empty (o : Options) (kind : String) (attributes : Fields) :
    HoldsMarkers o [] { kind := kind, attributes := attributes } where
  names := rfl
  value _ := rfl
  expression _ := by simp [lastNamed?]
  title := rfl

/-! ## The nodes of a tree -/

theorem nameByAttribute_eq (o : Options) (node : Node) :
    node.nameByAttribute o =
      { node with name := node.name.or (node.attributes.get? o.nameAttribute) } := by
  unfold Node.nameByAttribute
  cases node with
  | mk kind name attributes properties expressions content => cases name <;> rfl

/-- The node of an element has what the markers in it say, and an attribute names it if no marker
does. -/
theorem holdsMarkers_nodeOfElement (o : Options) (x : Element) :
    ∃ node, HoldsMarkers o (o.namedMarkers x) node ∧ Node.ofElement o x.tag x.body =
      { node with
        name := node.name.or ((x.tag.attributes.find? (·.written == o.nameAttribute)).map (·.value)) } := by
  let fields : Fields := x.tag.attributes.map fun a => (a.written, a.value)
  refine ⟨Node.addContent o { kind := kindOfTag x.tag, attributes := fields } x.body, ?_, ?_⟩
  · exact holdsMarkers_addContent x.body (holdsMarkers_empty o (kindOfTag x.tag) fields)
  · obtain ⟨-, hattributes⟩ :=
      kind_addContent o x.body { kind := kindOfTag x.tag, attributes := fields }
    rw [Node.ofElement, nameByAttribute_eq, hattributes, Fields.get?_attributes]

/-- What the markers with a name directly in an element give its node, in every tree. The properties are
the names of the markers, each once, in the order in which they first come; the value of a property is
all text below the last marker of its name, and it is an expression exactly if that marker is one with
an expression, so every expression is a property. The node is named by the first marker of the name
property, even by an empty one, or else by the name attribute, or else not at all. -/
theorem markers_ofElement (o : Options) (e : Element) :
    (o.addresses e).length = (Reading.ofElement o e).tree.size ∧
    ∀ (k : Nat) (p : Address), (o.addresses e)[k]? = some p →
      ∃ x, e.at? p = some x ∧
        ((Reading.ofElement o e).tree.node k).properties.names =
          ((o.namedMarkers x).map (·.1)).eraseDups ∧
        (∀ name, ((Reading.ofElement o e).tree.node k).properties.get? name =
          (lastNamed? (o.namedMarkers x) name).map markerText) ∧
        (∀ name, name ∈ ((Reading.ofElement o e).tree.node k).expressions ↔
          ∃ marker, lastNamed? (o.namedMarkers x) name = some marker ∧
            o.isExpression marker.2.tag = true) ∧
        ((Reading.ofElement o e).tree.node k).expressions ⊆
          ((Reading.ofElement o e).tree.node k).properties.names ∧
        ((Reading.ofElement o e).tree.node k).name =
          (((o.namedMarkers x).find? (·.1 == o.nameProperty)).map markerText).or
            ((x.tag.attributes.find? (·.written == o.nameAttribute)).map (·.value)) := by
  refine ⟨(size_ofElement o e).symm, fun k p h => ?_⟩
  obtain ⟨x, hx⟩ := (hasNode_of_address h).exists_at
  obtain ⟨node, hnode, heq⟩ := holdsMarkers_nodeOfElement o x
  rw [node_ofElement h hx, heq]
  refine ⟨x, hx, hnode.names, hnode.value, hnode.expression, ?_, ?_⟩
  · intro name hname
    obtain ⟨marker, hlast, -⟩ := (hnode.expression name).1 hname
    show name ∈ node.properties.names
    rw [hnode.names, List.mem_eraseDups]
    exact mem_of_lastNamed? hlast
  · dsimp only
    rw [hnode.title]

/-- A marker of the given tag with a name and a text. -/
def namedMarker (tag name text : String) (rest : Content StartTag) : Content StartTag :=
  .element { bareTag tag with attributes := [⟨"DTS:Name", "DTS:Name", none, name⟩] }
    (.text text .done) rest

/-- An element with an attribute for its name, an empty marker for it, and a property that is set, made
an expression and set again around one that stays an expression. -/
def remarkedElement : Element where
  tag := { bareTag "a" with attributes := [⟨"DTS:ObjectName", "DTS:ObjectName", none, "attribute"⟩] }
  body := namedMarker "DTS:Property" "x" "1" (namedMarker "DTS:PropertyExpression" "ObjectName" ""
    (namedMarker "DTS:PropertyExpression" "x" "@y" (namedMarker "DTS:PropertyExpression" "z" "@w"
      (namedMarker "DTS:Property" "x" "2" (namedMarker "DTS:Property" "ObjectName" "late" .done)))))

theorem markers_ofElement_remarkedElement :
    ((Reading.ofElement {} remarkedElement).tree.node 0).properties.names = ["x", "ObjectName", "z"] ∧
      ((Reading.ofElement {} remarkedElement).tree.node 0).properties.get? "x" = some "2" ∧
      "x" ∉ ((Reading.ofElement {} remarkedElement).tree.node 0).expressions ∧
      "z" ∈ ((Reading.ofElement {} remarkedElement).tree.node 0).expressions ∧
      ((Reading.ofElement {} remarkedElement).tree.node 0).name = some "" := by
  obtain ⟨-, hnodes⟩ := markers_ofElement {} remarkedElement
  obtain ⟨x, hx, hnames, hvalue, hexpression, -, hname⟩ := hnodes 0 [] rfl
  obtain rfl := Option.some.inj hx
  have hlast : ∀ name ∈ ["x", "z"],
      (lastNamed? (Options.namedMarkers {} remarkedElement) name).map
        (fun marker => Options.isExpression {} marker.2.tag) = some (name == "z") := by decide +kernel
  refine ⟨?_, ?_, fun hmem => ?_, ?_, ?_⟩
  · rw [hnames]
    decide +kernel
  · rw [hvalue]
    decide +kernel
  · obtain ⟨marker, hmarker, htrue⟩ := (hexpression "x").1 hmem
    have hfalse := hlast "x" (by decide)
    rw [hmarker, Option.map_some, htrue] at hfalse
    exact absurd hfalse (by decide)
  · obtain ⟨marker, hmarker, htrue⟩ := Option.map_eq_some_iff.1 (hlast "z" (by decide))
    exact (hexpression "z").2 ⟨marker, hmarker, by simpa using htrue⟩
  · rw [hname]
    decide +kernel

end SsisCompiler.Package
