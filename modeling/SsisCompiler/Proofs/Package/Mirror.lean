import SsisCompiler.Proofs.Package.Addresses

/-!
# Trees mirror documents

The nodes of a tree are numbered in document order, so the node with the number `k` is made from the
element with the `k`-th address. `EnteredByAddress` is what the recursion keeps: the parent of a node is
at the node's address without its last step, wherever the chain stands in the document.

Results:
* `node_ofElement`: each node is made from the element at its address.
* `exists_parent?_of_address`, `children_ofElement`: parents and children by address.
* `ofElement_mirrors`: the tree of an element has the nodes, kinds, attributes, children and parents that
  the element gives.
-/

namespace SsisCompiler.Package

open Markup (Address Content Element StartTag)

/-! ## Nodes by number -/

theorem map_node_entriesOf (o : Options) (c : Content StartTag) (i : Nat) (parent next : NodeId) :
    (entriesOf o parent next c).map (·.node) = (o.nodesOf i c).map (·.2) := by
  induction c generalizing i parent next with
  | done => rfl
  | text _ rest ih => exact ih i parent next
  | comment _ rest ih => exact ih i parent next
  | instruction _ rest ih => exact ih i parent next
  | element tag body rest ihbody ihrest =>
    rw [entriesOf, Options.nodesOf]
    split_ifs
    · exact ihrest (i + 1) parent next
    · simp only [List.map_append, List.map_cons, List.map_map]
      rw [ihbody 0, ihrest (i + 1)]
      rfl

theorem length_entriesOf (o : Options) (c : Content StartTag) (i : Nat) (parent next : NodeId) :
    (entriesOf o parent next c).length = (o.nodesOf i c).length := by
  rw [← List.length_map (·.node), map_node_entriesOf o c i, List.length_map]

/-- Nodes that are numbered from `next` on inside the node `outer` are entered under the node at their
address without its last step. -/
def EnteredByAddress (outer next : NodeId) (nodes : List (Address × Node)) (entries : List Entry) :
    Prop :=
  ∀ {k : Nat} {p : Address} {n : Node}, nodes[k]? = some (p, n) →
    ∃ entry, entries[k]? = some entry ∧
      ((p.dropLast = [] ∧ entry.parent = outer) ∨
        ∃ l m, nodes[l]? = some (p.dropLast, m) ∧ entry.parent = next + l)

theorem enteredByAddress_element {outer next : NodeId} {i : Nat} {node : Node}
    {inner rest : List (Address × Node)} {innerEntries restEntries : List Entry}
    (hlength : innerEntries.length = inner.length) (hne : ∀ entry ∈ inner, entry.1 ≠ [])
    (hinner : EnteredByAddress next (next + 1) inner innerEntries)
    (hrest : EnteredByAddress outer (next + 1 + innerEntries.length) rest restEntries) :
    EnteredByAddress outer next ((([], node) :: inner).map (under [i]) ++ rest)
      (⟨outer, node⟩ :: innerEntries ++ restEntries) := by
  intro k p n h
  rw [List.map_cons] at h ⊢
  rcases getElem?_element_cases h with ⟨rfl, heq⟩ | ⟨j, rfl, -, hin⟩ | ⟨j, rfl, hbehind⟩
  · obtain ⟨rfl, -⟩ := Prod.mk.inj heq
    exact ⟨_, rfl, Or.inl ⟨rfl, rfl⟩⟩
  · rw [List.getElem?_map, Option.map_eq_some_iff] at hin
    obtain ⟨⟨q, _⟩, hin, heq⟩ := hin
    obtain ⟨rfl, rfl⟩ := Prod.mk.inj heq
    obtain ⟨entry, hentry, hparent⟩ := hinner hin
    have hq : ([i] ++ q).dropLast = i :: q.dropLast :=
      List.dropLast_cons_of_ne_nil (hne _ (List.mem_of_getElem? hin))
    have hlt := (List.getElem?_eq_some_iff.1 hentry).1
    refine ⟨entry, ?_, Or.inr ?_⟩
    · rw [List.cons_append, List.getElem?_cons_succ, List.getElem?_append_left hlt, hentry]
    · rw [hq]
      rcases hparent with ⟨hnil, hparent⟩ | ⟨l, m, hl, hparent⟩
      · exact ⟨0, node, by simp [under, hnil], hparent⟩
      · have hl' := (List.getElem?_eq_some_iff.1 hl).1
        refine ⟨l + 1, m, ?_, by rw [hparent, Nat.add_assoc, Nat.add_comm 1 l]⟩
        rw [List.cons_append, List.getElem?_cons_succ,
          List.getElem?_append_left (by rwa [List.length_map]), List.getElem?_map, hl]
        rfl
  · obtain ⟨entry, hentry, hparent⟩ := hrest hbehind
    refine ⟨entry, ?_, hparent.imp_right ?_⟩
    · rw [List.length_map, ← hlength, List.getElem?_append_right (by simp [List.length_cons])]
      simpa using hentry
    · rintro ⟨l, m, hl, hparent⟩
      refine ⟨inner.length + 1 + l, m, ?_, by rw [hparent, hlength, Nat.add_assoc next]; ac_rfl⟩
      rw [List.getElem?_append_right (by simp [List.length_cons])]
      simpa using hl

theorem enteredByAddress_entriesOf (o : Options) (c : Content StartTag) (i : Nat)
    (outer next : NodeId) :
    EnteredByAddress outer next (o.nodesOf i c) (entriesOf o outer next c) := by
  induction c generalizing i outer next with
  | done => intro k p n h; simp [Options.nodesOf] at h
  | text _ rest ih => exact ih i outer next
  | comment _ rest ih => exact ih i outer next
  | instruction _ rest ih => exact ih i outer next
  | element tag body rest ihbody ihrest =>
    rw [Options.nodesOf, entriesOf]
    split_ifs
    · exact ihrest (i + 1) outer next
    · refine enteredByAddress_element (length_entriesOf o body 0 next (next + 1)) ?_
        (ihbody 0 next (next + 1)) (ihrest (i + 1) outer _)
      intro entry hentry
      obtain ⟨j, q, -, hq⟩ := exists_cons_of_mem_nodesOf hentry
      simp [hq]

/-! ## The element of a node -/

/-- What is found inside an element leaves the kind and the attributes of its node as they are. -/
theorem kind_addContent (o : Options) (c : Content StartTag) (node : Node) :
    (node.addContent o c).kind = node.kind ∧ (node.addContent o c).attributes = node.attributes := by
  induction c generalizing node with
  | done => exact ⟨rfl, rfl⟩
  | text s rest ih =>
    obtain ⟨hkind, hattributes⟩ := ih (node.addText o s)
    rw [Node.addContent, hkind, hattributes, Node.addText]
    split_ifs
    · exact ⟨rfl, rfl⟩
    · split <;> exact ⟨rfl, rfl⟩
  | comment _ rest ih => exact ih node
  | instruction _ rest ih => exact ih node
  | element tag body rest _ ih =>
    rw [Node.addContent]
    split_ifs
    · obtain ⟨hkind, hattributes⟩ := ih (node.addMarker o tag body)
      rw [hkind, hattributes, Node.addMarker]
      split <;> exact ⟨rfl, rfl⟩
    · exact ih node

theorem kind_nodeOfElement (o : Options) (tag : StartTag) (body : Content StartTag) :
    (Node.ofElement o tag body).kind = kindOfTag tag ∧
      (Node.ofElement o tag body).attributes =
        tag.attributes.map (fun a => (a.written, a.value)) := by
  obtain ⟨hkind, hattributes⟩ := kind_addContent o body
    { kind := kindOfTag tag, attributes := tag.attributes.map fun a => (a.written, a.value) }
  unfold Node.ofElement Node.nameByAttribute
  dsimp only
  split <;> exact ⟨hkind, hattributes⟩

/-! ## The tree of an element -/

section Tree

variable (o : Options) (e : Element)

theorem size_ofElement : (Reading.ofElement o e).tree.size = (o.addresses e).length := by
  simp [Reading.ofElement, Tree.size, Options.addresses, Options.nodes, length_entriesOf o e.body 0]

variable {o e} {k : Nat} {p : Address}

theorem lt_size_of_address (h : (o.addresses e)[k]? = some p) :
    k < (Reading.ofElement o e).tree.size := by
  rw [size_ofElement]
  exact (List.getElem?_eq_some_iff.1 h).1

theorem exists_address (h : k < (Reading.ofElement o e).tree.size) :
    ∃ p, (o.addresses e)[k]? = some p := by
  rw [size_ofElement] at h
  exact ⟨_, List.getElem?_eq_getElem h⟩

theorem hasNode_of_address (h : (o.addresses e)[k]? = some p) : HasNode o e p :=
  (mem_addresses o e p).1 (List.mem_of_getElem? h)

/-- Two nodes at one address are the same. -/
theorem address_inj {l : Nat} (hk : (o.addresses e)[k]? = some p)
    (hl : (o.addresses e)[l]? = some p) : k = l := by
  obtain ⟨hlt, -⟩ := List.getElem?_eq_some_iff.1 hk
  exact (List.getElem?_inj hlt (nodup_addresses o e)).1 (hk.trans hl.symm)

/-- Node numbers are in document order. -/
theorem address_before {l : Nat} {q : Address} (hk : (o.addresses e)[k]? = some p)
    (hl : (o.addresses e)[l]? = some q) (hlt : k < l) : p.Before q := by
  obtain ⟨hkl, rfl⟩ := List.getElem?_eq_some_iff.1 hk
  obtain ⟨hll, rfl⟩ := List.getElem?_eq_some_iff.1 hl
  exact List.pairwise_iff_getElem.1 (pairwise_addresses o e) k l hkl hll hlt

/-- Each node is made from the element at its address. -/
theorem node_ofElement {x : Element} (h : (o.addresses e)[k]? = some p) (hx : e.at? p = some x) :
    (Reading.ofElement o e).tree.node k = Node.ofElement o x.tag x.body := by
  rw [Options.addresses, List.getElem?_map, Option.map_eq_some_iff] at h
  obtain ⟨⟨_, n⟩, hn, rfl⟩ := h
  obtain ⟨-, y, hy, rfl⟩ := (mem_nodes o e _ n).1 (List.mem_of_getElem? hn)
  obtain rfl := Option.some.inj (hx.symm.trans hy)
  cases k with
  | zero => exact (Prod.mk.inj (Option.some.inj hn)).2
  | succ k =>
    have hentries := map_node_entriesOf o e.body 0 0 1
    have hnode : ((entriesOf o 0 1 e.body).map (·.node))[k]? = some (Node.ofElement o x.tag x.body) := by
      rw [hentries, List.getElem?_map]
      exact congrArg (Option.map (·.2)) hn
    rw [List.getElem?_map, Option.map_eq_some_iff] at hnode
    obtain ⟨entry, hentry, hnode⟩ := hnode
    simp [Reading.ofElement, Tree.node, Tree.entry?, hentry, hnode]

theorem parent?_of_address_nil (h : (o.addresses e)[k]? = some []) :
    (Reading.ofElement o e).tree.parent? k = none := by
  obtain rfl : 0 = k := address_inj rfl h
  rfl

/-- The parent of a node is at the node's address without its last step. -/
theorem exists_parent?_of_address (h : (o.addresses e)[k]? = some p) (hne : p ≠ []) :
    ∃ l, (Reading.ofElement o e).tree.parent? k = some l ∧
      (o.addresses e)[l]? = some p.dropLast := by
  rw [Options.addresses, List.getElem?_map, Option.map_eq_some_iff] at h
  obtain ⟨⟨_, n⟩, hn, rfl⟩ := h
  cases k with
  | zero => exact absurd (Prod.mk.inj (Option.some.inj hn)).1.symm hne
  | succ k =>
    obtain ⟨entry, hentry, hparent⟩ := enteredByAddress_entriesOf o e.body 0 0 1 hn
    refine ⟨entry.parent, by simp [Reading.ofElement, Tree.parent?, Tree.entry?, hentry], ?_⟩
    rcases hparent with ⟨hnil, hparent⟩ | ⟨l, m, hl, hparent⟩
    · rw [hnil, hparent]
      rfl
    · rw [hparent, Nat.add_comm 1 l, Options.addresses, Options.nodes, List.map_cons,
        List.getElem?_cons_succ, List.getElem?_map, hl]
      rfl

/-- The children of a node are at its address with one step more. -/
theorem mem_children_iff_address {c : Nat} (h : (o.addresses e)[k]? = some p) :
    c ∈ (Reading.ofElement o e).tree.children k ↔ ∃ i, (o.addresses e)[c]? = some (p ++ [i]) := by
  rw [Tree.mem_children_iff (preordered_ofElement o e).parent_lt (lt_size_of_address h)]
  constructor
  · intro hc
    obtain ⟨q, hq⟩ := exists_address (Tree.lt_size_of_parent? hc)
    have hne : q ≠ [] := by
      rintro rfl
      rw [parent?_of_address_nil hq] at hc
      cases hc
    obtain ⟨l, hl, hdrop⟩ := exists_parent?_of_address hq hne
    obtain rfl := Option.some.inj (hl.symm.trans hc)
    obtain rfl := Option.some.inj (hdrop.symm.trans h)
    exact ⟨q.getLast hne, by rw [List.dropLast_concat_getLast, hq]⟩
  · rintro ⟨i, hi⟩
    obtain ⟨l, hl, hdrop⟩ := exists_parent?_of_address hi (by simp)
    rw [List.dropLast_concat] at hdrop
    rw [hl, address_inj hdrop h]

end Tree

/-- The places of the child elements that are no markers. -/
def Options.childPlaces (o : Options) (x : Element) : List Nat :=
  (List.range x.children.length).filter fun i => x.children[i]?.any fun y => !o.isMarker y.tag

theorem mem_childPlaces (o : Options) (x : Element) (i : Nat) :
    i ∈ o.childPlaces x ↔ ∃ y, x.children[i]? = some y ∧ o.isMarker y.tag = false := by
  rw [Options.childPlaces, List.mem_filter, List.mem_range]
  cases h : x.children[i]? with
  | none => simp
  | some y => simp [(List.getElem?_eq_some_iff.1 h).1]

/-- The children of a node are the nodes of the child elements that are no markers, in order. -/
theorem children_ofElement {o : Options} {e x : Element} {k : Nat} {p : Address}
    (h : (o.addresses e)[k]? = some p) (hx : e.at? p = some x) :
    ((Reading.ofElement o e).tree.children k).map ((o.addresses e)[·]?) =
      (o.childPlaces x).map fun i => some (p ++ [i]) := by
  let address (c : Nat) : Address := ((o.addresses e)[c]?).getD []
  have haddress : ∀ c ∈ (Reading.ofElement o e).tree.children k,
      (o.addresses e)[c]? = some (address c) := by
    intro c hc
    obtain ⟨i, hi⟩ := (mem_children_iff_address h).1 hc
    simp [address, hi]
  -- both lists are in document order, so it is enough that they have the same members
  have hlist : ((Reading.ofElement o e).tree.children k).map address =
      (o.childPlaces x).map fun i => p ++ [i] := by
    refine List.Pairwise.eq_of_mem_iff (r := List.Lex (· < ·)) ?_ ?_ fun q => ?_
    · refine List.pairwise_map.2 ((Tree.pairwise_lt_children _ k).imp_of_mem fun ha hb hab => ?_)
      exact address_before (haddress _ ha) (haddress _ hb) hab
    · refine List.pairwise_map.2 ((List.pairwise_lt_range.filter _).imp fun hab => ?_)
      exact List.Lex.append_left _ (.rel hab) p
    · rw [List.mem_map, List.mem_map]
      constructor
      · rintro ⟨c, hc, rfl⟩
        obtain ⟨i, hi⟩ := (mem_children_iff_address h).1 hc
        refine ⟨i, (mem_childPlaces o x i).2 ?_, by simp [address, hi]⟩
        exact (hasNode_concat (hasNode_of_address h) hx i).1 (hasNode_of_address hi)
      · rintro ⟨i, hi, rfl⟩
        have hnode := (hasNode_concat (hasNode_of_address h) hx i).2 ((mem_childPlaces o x i).1 hi)
        obtain ⟨c, hc⟩ := List.mem_iff_getElem?.1 ((mem_addresses o e _).2 hnode)
        exact ⟨c, (mem_children_iff_address h).2 ⟨i, hc⟩, by simp [address, hc]⟩
  calc ((Reading.ofElement o e).tree.children k).map ((o.addresses e)[·]?)
      = (((Reading.ofElement o e).tree.children k).map address).map some := by
        rw [List.map_map]
        exact List.map_congr_left haddress
    _ = (o.childPlaces x).map fun i => some (p ++ [i]) := by
        rw [hlist, List.map_map]
        rfl

/-- The tree of an element mirrors the element. It has one node for each element in it that is no marker
and in no marker, or is the element itself, numbered in the order of their start tags. Each node has
the kind and the attributes of its element; its children are the nodes of the child elements that are
no markers, in order; and its parent is the node of the element around its own. -/
theorem ofElement_mirrors (o : Options) (e : Element) :
    (∀ p, p ∈ o.addresses e ↔ HasNode o e p) ∧
    (o.addresses e).Pairwise Address.Before ∧
    (Reading.ofElement o e).tree.size = (o.addresses e).length ∧
    (Reading.ofElement o e).tree.descendants 0 =
      List.range' 1 ((Reading.ofElement o e).tree.size - 1) ∧
    ∀ (k : Nat) (p : Address), (o.addresses e)[k]? = some p →
      ∃ x, e.at? p = some x ∧
        ((Reading.ofElement o e).tree.node k).kind = kindOfTag x.tag ∧
        ((Reading.ofElement o e).tree.node k).attributes =
          x.tag.attributes.map (fun a => (a.written, a.value)) ∧
        ((Reading.ofElement o e).tree.children k).map ((o.addresses e)[·]?) =
          (o.childPlaces x).map (fun i => some (p ++ [i])) ∧
        (p = [] → (Reading.ofElement o e).tree.parent? k = none) ∧
        (p ≠ [] → ∃ l, (Reading.ofElement o e).tree.parent? k = some l ∧
          (o.addresses e)[l]? = some p.dropLast) := by
  have ht := preordered_ofElement o e
  refine ⟨mem_addresses o e, pairwise_addresses o e, size_ofElement o e, ht.descendants_root,
    fun k p h => ?_⟩
  obtain ⟨x, hx⟩ := (hasNode_of_address h).exists_at
  obtain ⟨hkind, hattributes⟩ := kind_nodeOfElement o x.tag x.body
  rw [node_ofElement h hx]
  refine ⟨x, hx, hkind, hattributes, children_ofElement h hx, ?_, exists_parent?_of_address h⟩
  rintro rfl
  exact parent?_of_address_nil h

/-- A tag without attributes. -/
def bareTag (name : String) : StartTag where
  written := name
  localName := name
  namespaceUri := none
  attributes := []
  scope := []
  place := ⟨1, 1⟩

/-- An element with a marker around an element, then an element around another, then a third. -/
def markedElement : Element where
  tag := bareTag "a"
  body := .element (bareTag "DTS:Property") (.element (bareTag "b") .done .done)
    (.element (bareTag "b") (.element (bareTag "c") .done .done)
      (.comment ⟨2, 1⟩ (.element (bareTag "d") .done .done)))

/-- The element inside the marker has no node, and the marker is no child. -/
theorem ofElement_mirrors_markedElement :
    Options.addresses {} markedElement = [[], [1], [1, 0], [2]] ∧
      ((Reading.ofElement {} markedElement).tree.children 0).map
          ((Options.addresses {} markedElement)[·]?) = [some [1], some [2]] ∧
      ∃ l, (Reading.ofElement {} markedElement).tree.parent? 2 = some l ∧
        (Options.addresses {} markedElement)[l]? = some [1] := by
  have haddresses : Options.addresses {} markedElement = [[], [1], [1, 0], [2]] := by decide +kernel
  obtain ⟨-, -, -, -, hnodes⟩ := ofElement_mirrors {} markedElement
  refine ⟨haddresses, ?_, ?_⟩
  · obtain ⟨x, hx, -, -, hchildren, -⟩ := hnodes 0 [] (by rw [haddresses]; rfl)
    obtain rfl := Option.some.inj hx
    rw [hchildren]
    decide +kernel
  · obtain ⟨x, -, -, -, -, -, hparent⟩ := hnodes 2 [1, 0] (by rw [haddresses]; rfl)
    exact hparent (by decide)

end SsisCompiler.Package
