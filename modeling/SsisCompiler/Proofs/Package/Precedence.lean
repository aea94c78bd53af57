import SsisCompiler.Proofs.Package.Mirror

/-!
# What the precedence of text decides

Of several pieces of text in an element, the precedence says whether the first or the last is the
content of its node. Text and markers are read in one pass, and elements may stand between them, so two passes
with different precedences are kept in step: their nodes agree in all but the content
(`Node.withoutContent`).

Results:
* `withoutContent_ofElement`, `warningsOf_keeping`: under any precedence the tree of an element has the
  same nodes in all but their content, and the same is skipped.
* `content_ofElement_first`, `content_ofElement_last`: the content is the first or the last text that
  shows something.
* `ofElement_keeping`: the two precedences compared.
-/

namespace SsisCompiler.Markup

/-- The pieces of text directly in a chain, in order. -/
def Content.texts : Content StartTag → List String
  | .done => []
  | .text s rest => s :: rest.texts
  | .comment _ rest => rest.texts
  | .instruction _ rest => rest.texts
  | .element _ _ rest => rest.texts

/-- The pieces of text directly in a chain that hold more than blanks, in order. -/
def Content.shownTexts (c : Content StartTag) : List String :=
  c.texts.filter fun s => !Text.isAllBlank s

theorem Content.shownTexts_text (s : String) (rest : Content StartTag) :
    (Content.text s rest).shownTexts =
      if Text.isAllBlank s then rest.shownTexts else s :: rest.shownTexts := by
  cases h : Text.isAllBlank s <;> simp [shownTexts, texts, h]

end SsisCompiler.Markup

namespace SsisCompiler.Package

open Markup (Address Content Element StartTag)

/-- The same options with another precedence. -/
def Options.keeping (o : Options) (p : Precedence) : Options :=
  { o with precedence := p }

theorem isMarker_keeping (o : Options) (p : Precedence) (tag : StartTag) :
    (o.keeping p).isMarker tag = o.isMarker tag := rfl

theorem markerName?_keeping (o : Options) (p : Precedence) (tag : StartTag) :
    (o.keeping p).markerName? tag = o.markerName? tag := rfl

/-! ## All but the content -/

/-- A node without the text that stands in it. -/
def Node.withoutContent (node : Node) : Node :=
  { node with content := none }

/-- An entry without the text that stands in its node. -/
def Entry.withoutContent (entry : Entry) : Entry :=
  ⟨entry.parent, entry.node.withoutContent⟩

/-- A tree without the text that stands in its nodes. -/
def Tree.withoutContent (t : Tree) : Tree where
  root := t.root.withoutContent
  entries := t.entries.map Entry.withoutContent

namespace Tree

variable (t : Tree) (id : NodeId)

theorem size_withoutContent : t.withoutContent.size = t.size := by
  simp [size, withoutContent]

theorem entry?_withoutContent :
    t.withoutContent.entry? id = (t.entry? id).map Entry.withoutContent := by
  cases id with
  | zero => rfl
  | succ id => simp [withoutContent, entry?]

theorem node_withoutContent : t.withoutContent.node id = (t.node id).withoutContent := by
  simp only [node, entry?_withoutContent]
  cases t.entry? id <;> rfl

theorem parent?_withoutContent : t.withoutContent.parent? id = t.parent? id := by
  simp only [parent?, entry?_withoutContent]
  cases t.entry? id <;> rfl

theorem children_withoutContent : t.withoutContent.children id = t.children id := by
  simp only [children, resolve, size_withoutContent, parent?_withoutContent]

end Tree

theorem withoutContent_addText (o : Options) (s : String) (node : Node) :
    (node.addText o s).withoutContent = node.withoutContent := by
  unfold Node.addText
  split_ifs
  · rfl
  · split <;> rfl

/-- A marker changes nodes that agree in all but the content in the same way. -/
theorem withoutContent_addMarker (o : Options) (p : Precedence) (tag : StartTag)
    (body : Content StartTag) (node : Node) :
    (node.addMarker (o.keeping p) tag body).withoutContent =
      node.withoutContent.addMarker o tag body := by
  unfold Node.addMarker
  rw [markerName?_keeping]
  cases o.markerName? tag <;> rfl

/-- Two passes over a chain are kept in step. -/
theorem withoutContent_addContent (o : Options) (p q : Precedence) (c : Content StartTag)
    {node node' : Node} (h : node.withoutContent = node'.withoutContent) :
    (node.addContent (o.keeping p) c).withoutContent =
      (node'.addContent (o.keeping q) c).withoutContent := by
  induction c generalizing node node' with
  | done => exact h
  | text s rest ih =>
    apply ih
    rw [withoutContent_addText, withoutContent_addText, h]
  | comment _ rest ih => exact ih h
  | instruction _ rest ih => exact ih h
  | element tag body rest _ ih =>
    rw [Node.addContent, Node.addContent, isMarker_keeping, isMarker_keeping]
    split_ifs
    · apply ih
      rw [withoutContent_addMarker, withoutContent_addMarker, h]
    · exact ih h

theorem withoutContent_nameByAttribute (o : Options) (p : Precedence) (node : Node) :
    (node.nameByAttribute (o.keeping p)).withoutContent = node.withoutContent.nameByAttribute o := by
  have hname : node.withoutContent.name = node.name := rfl
  unfold Node.nameByAttribute
  rw [hname]
  cases node.name <;> rfl

theorem withoutContent_nodeOfElement (o : Options) (p q : Precedence) (tag : StartTag)
    (body : Content StartTag) :
    (Node.ofElement (o.keeping p) tag body).withoutContent =
      (Node.ofElement (o.keeping q) tag body).withoutContent := by
  unfold Node.ofElement
  rw [withoutContent_nameByAttribute, withoutContent_nameByAttribute,
    withoutContent_addContent o p q body rfl]

theorem withoutContent_entriesOf (o : Options) (p q : Precedence) (c : Content StartTag)
    (parent next : NodeId) :
    (entriesOf (o.keeping p) parent next c).map Entry.withoutContent =
      (entriesOf (o.keeping q) parent next c).map Entry.withoutContent := by
  induction c generalizing parent next with
  | done => rfl
  | text _ rest ih => exact ih parent next
  | comment _ rest ih => exact ih parent next
  | instruction _ rest ih => exact ih parent next
  | element tag body rest ihbody ihrest =>
    have hinner := ihbody next (next + 1)
    -- what comes behind the element is numbered by how many nodes are in it
    have hlength := congrArg List.length hinner
    rw [List.length_map, List.length_map] at hlength
    rw [entriesOf, entriesOf, isMarker_keeping, isMarker_keeping]
    split_ifs
    · exact ihrest parent next
    · simp only [List.map_append, List.map_cons, Entry.withoutContent]
      rw [hinner, hlength, ihrest, withoutContent_nodeOfElement o p q]

theorem withoutContent_ofElement (o : Options) (p q : Precedence) (e : Element) :
    (Reading.ofElement (o.keeping p) e).tree.withoutContent =
      (Reading.ofElement (o.keeping q) e).tree.withoutContent := by
  simp only [Reading.ofElement, Tree.withoutContent, List.map_toArray]
  rw [withoutContent_nodeOfElement o p q, withoutContent_entriesOf o p q]

theorem warningsOf_keeping (o : Options) (p : Precedence) (kind : String) (c : Content StartTag) :
    warningsOf (o.keeping p) kind c = warningsOf o kind c := by
  induction c generalizing kind with
  | done => rfl
  | text _ rest ih => exact ih kind
  | comment _ rest ih => exact congrArg (_ :: ·) (ih kind)
  | instruction _ rest ih => exact congrArg (_ :: ·) (ih kind)
  | element tag body rest ihbody ihrest =>
    rw [warningsOf, warningsOf, isMarker_keeping, markerName?_keeping, ihbody, ihrest]

/-! ## The content -/

theorem content_addMarker (o : Options) (tag : StartTag) (body : Content StartTag) (node : Node) :
    (node.addMarker o tag body).content = node.content := by
  unfold Node.addMarker
  split <;> rfl

/-- Under the first precedence a node keeps the text that it has, or else takes the first one that shows
something. -/
theorem content_addContent_first (o : Options) (c : Content StartTag) (node : Node) :
    (node.addContent (o.keeping .first) c).content = node.content.or c.shownTexts.head? := by
  induction c generalizing node with
  | done => exact Option.or_none.symm
  | text s rest ih =>
    rw [Node.addContent, ih, Content.shownTexts_text, Node.addText]
    split_ifs
    · rfl
    · cases h : node.content with
      | none => simp [Options.keeping]
      | some v => simp [Options.keeping, h]
  | comment _ rest ih => exact ih node
  | instruction _ rest ih => exact ih node
  | element tag body rest _ ih =>
    rw [Node.addContent]
    split_ifs
    · rw [ih, content_addMarker]
      rfl
    · exact ih node

/-- Under the last precedence a node takes the last text that shows something, or else keeps the one
that it has. -/
theorem content_addContent_last (o : Options) (c : Content StartTag) (node : Node) :
    (node.addContent (o.keeping .last) c).content = c.shownTexts.getLast?.or node.content := by
  induction c generalizing node with
  | done => rfl
  | text s rest ih =>
    rw [Node.addContent, ih, Content.shownTexts_text, Node.addText]
    split_ifs
    · rfl
    · rw [List.getLast?_cons]
      cases rest.shownTexts.getLast? <;> simp [Options.keeping]
  | comment _ rest ih => exact ih node
  | instruction _ rest ih => exact ih node
  | element tag body rest _ ih =>
    rw [Node.addContent]
    split_ifs
    · rw [ih, content_addMarker]
      rfl
    · exact ih node

theorem content_nameByAttribute (o : Options) (node : Node) :
    (node.nameByAttribute o).content = node.content := by
  unfold Node.nameByAttribute
  split <;> rfl

theorem content_ofElement_first (o : Options) (tag : StartTag) (body : Content StartTag) :
    (Node.ofElement (o.keeping .first) tag body).content = body.shownTexts.head? := by
  unfold Node.ofElement
  rw [content_nameByAttribute, content_addContent_first]
  rfl

theorem content_ofElement_last (o : Options) (tag : StartTag) (body : Content StartTag) :
    (Node.ofElement (o.keeping .last) tag body).content = body.shownTexts.getLast? := by
  unfold Node.ofElement
  rw [content_nameByAttribute, content_addContent_last, Option.or_none]

/-! ## The two precedences -/

theorem map_fst_nodesOf_keeping (o : Options) (p : Precedence) (i : Nat) (c : Content StartTag) :
    ((o.keeping p).nodesOf i c).map (·.1) = (o.nodesOf i c).map (·.1) := by
  induction c generalizing i with
  | done => rfl
  | text _ rest ih => exact ih i
  | comment _ rest ih => exact ih i
  | instruction _ rest ih => exact ih i
  | element tag body rest ihbody ihrest =>
    have hunder : ∀ entries : List (Address × Node),
        (entries.map (under [i])).map (·.1) = (entries.map (·.1)).map ([i] ++ ·) := by
      intro entries
      rw [List.map_map, List.map_map]
      rfl
    rw [Options.nodesOf, Options.nodesOf, isMarker_keeping]
    split_ifs
    · exact ihrest (i + 1)
    · simp only [List.map_append, hunder, List.map_cons, under, ihbody, ihrest]

/-- Which elements have nodes, and in which order, does not depend on the precedence. -/
theorem addresses_keeping (o : Options) (p : Precedence) (e : Element) :
    (o.keeping p).addresses e = o.addresses e := by
  unfold Options.addresses Options.nodes
  rw [List.map_cons, List.map_cons, map_fst_nodesOf_keeping]

/-- The precedence decides on nothing but content. Under both precedences the tree of an element has the
same nodes in all but their content, with the same children and parents, and the warnings are the same.
Each node is that of an element; its content is the first or the last text directly in that element that
holds more than blanks, so it has content under one precedence exactly if it has content under the
other. -/
theorem ofElement_keeping (o : Options) (e : Element) :
    (Reading.ofElement (o.keeping .first) e).warnings =
      (Reading.ofElement (o.keeping .last) e).warnings ∧
    (Reading.ofElement (o.keeping .first) e).tree.size =
      (Reading.ofElement (o.keeping .last) e).tree.size ∧
    (∀ k, ((Reading.ofElement (o.keeping .first) e).tree.node k).withoutContent =
        ((Reading.ofElement (o.keeping .last) e).tree.node k).withoutContent ∧
      (Reading.ofElement (o.keeping .first) e).tree.children k =
        (Reading.ofElement (o.keeping .last) e).tree.children k ∧
      (Reading.ofElement (o.keeping .first) e).tree.parent? k =
        (Reading.ofElement (o.keeping .last) e).tree.parent? k) ∧
    (o.addresses e).length = (Reading.ofElement (o.keeping .first) e).tree.size ∧
    ∀ (k : Nat) (p : Address), (o.addresses e)[k]? = some p →
      ∃ x, e.at? p = some x ∧
        ((Reading.ofElement (o.keeping .first) e).tree.node k).content = x.body.shownTexts.head? ∧
        ((Reading.ofElement (o.keeping .last) e).tree.node k).content = x.body.shownTexts.getLast? ∧
        (((Reading.ofElement (o.keeping .first) e).tree.node k).content.isSome ↔
          ((Reading.ofElement (o.keeping .last) e).tree.node k).content.isSome) := by
  have htree := withoutContent_ofElement o .first .last e
  refine ⟨?_, ?_, fun k => ⟨?_, ?_, ?_⟩, ?_, fun k p h => ?_⟩
  · exact (warningsOf_keeping o .first _ e.body).trans (warningsOf_keeping o .last _ e.body).symm
  · rw [← Tree.size_withoutContent, htree, Tree.size_withoutContent]
  · rw [← Tree.node_withoutContent, htree, Tree.node_withoutContent]
  · rw [← Tree.children_withoutContent, htree, Tree.children_withoutContent]
  · rw [← Tree.parent?_withoutContent, htree, Tree.parent?_withoutContent]
  · rw [size_ofElement, addresses_keeping]
  · obtain ⟨x, hx⟩ := (hasNode_of_address h).exists_at
    have hfirst : ((Reading.ofElement (o.keeping .first) e).tree.node k).content =
        x.body.shownTexts.head? := by
      rw [node_ofElement (by rw [addresses_keeping]; exact h) hx, content_ofElement_first]
    have hlast : ((Reading.ofElement (o.keeping .last) e).tree.node k).content =
        x.body.shownTexts.getLast? := by
      rw [node_ofElement (by rw [addresses_keeping]; exact h) hx, content_ofElement_last]
    refine ⟨x, hx, hfirst, hlast, ?_⟩
    rw [hfirst, hlast, List.isSome_head?, List.getLast?_isSome]

/-- An element with blank text, two pieces of text around a marker and an element, and more blank
text. -/
def spokenElement : Element where
  tag := bareTag "a"
  body := .text " " (.element (bareTag "b") (.text "inner" .done) (.text "first"
    (.element (bareTag "DTS:Property") (.text "named" .done) (.text "last" (.comment ⟨1, 40⟩
      (.text " " .done))))))

/-- The node of the element has its first or its last piece of text that is not blank, and the node
inside has its own under both precedences. -/
theorem ofElement_keeping_spokenElement :
    Options.addresses {} spokenElement = [[], [0]] ∧
      ((Reading.ofElement (Options.keeping {} .first) spokenElement).tree.node 0).content =
        some "first" ∧
      ((Reading.ofElement (Options.keeping {} .last) spokenElement).tree.node 0).content =
        some "last" ∧
      ((Reading.ofElement (Options.keeping {} .first) spokenElement).tree.node 1).content =
        ((Reading.ofElement (Options.keeping {} .last) spokenElement).tree.node 1).content ∧
      (Reading.ofElement (Options.keeping {} .first) spokenElement).warnings =
        (Reading.ofElement (Options.keeping {} .last) spokenElement).warnings := by
  have haddresses : Options.addresses {} spokenElement = [[], [0]] := by decide +kernel
  obtain ⟨hwarnings, -, -, -, hnodes⟩ := ofElement_keeping {} spokenElement
  obtain ⟨x, hx, hfirst, hlast, -⟩ := hnodes 0 [] (by rw [haddresses]; rfl)
  obtain rfl := Option.some.inj hx
  obtain ⟨y, hy, hfirst', hlast', -⟩ := hnodes 1 [0] (by rw [haddresses]; rfl)
  obtain rfl := Option.some.inj hy
  refine ⟨haddresses, ?_, ?_, ?_, hwarnings⟩
  · rw [hfirst]
    decide +kernel
  · rw [hlast]
    decide +kernel
  · rw [hfirst', hlast']
    decide +kernel

end SsisCompiler.Package
