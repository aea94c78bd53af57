import Mathlib.Data.List.Lex
import Mathlib.Data.List.Sort
import SsisCompiler.Proofs.Package.DocumentOrder

/-!
# Addresses of elements

An element inside another is known by its address: which child element to go to at each step inwards.
The order of start tags is the order of addresses, an address coming before those that go on from it.

`HasNode` says which elements become nodes of a tree, by their addresses alone, and `Options.nodes`
lists these nodes in document order.

Results:
* `mem_nodes`: the listing has a node for exactly these elements, each made from its element.
* `pairwise_addresses`: the listing is in document order.
-/

namespace SsisCompiler.Markup

/-! ## Elements inside an element -/

/-- Where an element stands inside another: which child element it is in at each step inwards. -/
abbrev Address := List Nat

/-- The order of start tags: an element comes before the elements inside it, and before its later
siblings and the elements inside them. -/
abbrev Address.Before (p q : Address) : Prop :=
  List.Lex (· < ·) p q

/-- The elements directly in a chain, in order. -/
def Content.children : Content StartTag → List Element
  | .done => []
  | .text _ rest => rest.children
  | .comment _ rest => rest.children
  | .instruction _ rest => rest.children
  | .element tag body rest => ⟨tag, body⟩ :: rest.children

namespace Element

/-- The child elements of an element, in order. -/
def children (e : Element) : List Element :=
  e.body.children

/-- The element at an address inside an element. -/
def at? (e : Element) : Address → Option Element
  | [] => some e
  | i :: p =>
    match e.children[i]? with
    | some child => child.at? p
    | none => none

@[simp]
theorem at?_nil (e : Element) : e.at? [] = some e := rfl

theorem at?_cons {e child : Element} {i : Nat} (h : e.children[i]? = some child) (p : Address) :
    e.at? (i :: p) = child.at? p := by
  simp only [at?, h]

theorem exists_child_of_at?_cons {e x : Element} {i : Nat} {p : Address}
    (h : e.at? (i :: p) = some x) : ∃ child, e.children[i]? = some child ∧ child.at? p = some x := by
  unfold at? at h
  split at h
  · rename_i child hchild
    exact ⟨child, hchild, h⟩
  · cases h

theorem at?_append {e x : Element} {p : Address} (h : e.at? p = some x) (q : Address) :
    e.at? (p ++ q) = x.at? q := by
  induction p generalizing e with
  | nil =>
    obtain rfl := Option.some.inj h
    rfl
  | cons i p ih =>
    obtain ⟨child, hchild, hx⟩ := exists_child_of_at?_cons h
    rw [List.cons_append, at?_cons hchild, ih hx]

end Element

end SsisCompiler.Markup

namespace SsisCompiler.Package

open Markup (Address Content Element StartTag)

/-! ## Elements that have nodes -/

/-- An element has a node in the tree of `e` if it is `e` itself, or if neither it nor an element
around it inside `e` is a marker. -/
structure HasNode (o : Options) (e : Element) (p : Address) : Prop where
  exists_at : ∃ x, e.at? p = some x
  not_marker : ∀ q, q <+: p → q ≠ [] → ∀ y, e.at? q = some y → o.isMarker y.tag = false

theorem hasNode_nil (o : Options) (e : Element) : HasNode o e [] where
  exists_at := ⟨e, rfl⟩
  not_marker _ hq hne := absurd (List.prefix_nil.1 hq) hne

theorem hasNode_cons {o : Options} {e : Element} {i : Nat} {p : Address} :
    HasNode o e (i :: p) ↔
      ∃ x, e.children[i]? = some x ∧ o.isMarker x.tag = false ∧ HasNode o x p := by
  constructor
  · rintro ⟨⟨y, hy⟩, hmarker⟩
    obtain ⟨x, hx, hy⟩ := Element.exists_child_of_at?_cons hy
    refine ⟨x, hx, ?_, ⟨y, hy⟩, fun q hq _ z hz => ?_⟩
    · exact hmarker [i] (by simp) (by simp) x (by rw [Element.at?_cons hx, Element.at?_nil])
    · exact hmarker (i :: q) (by simpa using hq) (by simp) z (by rw [Element.at?_cons hx, hz])
  · rintro ⟨x, hx, hmarker, ⟨y, hy⟩, hinside⟩
    refine ⟨⟨y, by rw [Element.at?_cons hx, hy]⟩, fun q hq hne z hz => ?_⟩
    cases q with
    | nil => exact absurd rfl hne
    | cons j q =>
      obtain ⟨rfl, hrest⟩ := List.cons_prefix_cons.1 hq
      rw [Element.at?_cons hx] at hz
      cases q with
      | nil =>
        obtain rfl := Option.some.inj hz
        exact hmarker
      | cons k q => exact hinside _ hrest (by simp) z hz

/-- Below an element that has a node, the same elements have nodes as in the tree of that element. -/
theorem hasNode_append {o : Options} {e x : Element} {p : Address} (hp : HasNode o e p)
    (hx : e.at? p = some x) (q : Address) : HasNode o e (p ++ q) ↔ HasNode o x q := by
  induction p generalizing e with
  | nil =>
    obtain rfl := Option.some.inj hx
    rfl
  | cons j p ih =>
    obtain ⟨child, hchild, hmarker, hinside⟩ := hasNode_cons.1 hp
    rw [Element.at?_cons hchild] at hx
    rw [List.cons_append, hasNode_cons, ← ih hinside hx]
    simp [hchild, hmarker]

theorem hasNode_concat {o : Options} {e x : Element} {p : Address} (hp : HasNode o e p)
    (hx : e.at? p = some x) (i : Nat) :
    HasNode o e (p ++ [i]) ↔ ∃ y, x.children[i]? = some y ∧ o.isMarker y.tag = false := by
  rw [hasNode_append hp hx, hasNode_cons]
  simp only [hasNode_nil, and_true]

/-! ## The nodes in document order -/

/-- What stands at an address inside the element at another address. -/
def under {α : Type} (p : Address) (entry : Address × α) : Address × α :=
  (p ++ entry.1, entry.2)

namespace Options

/-- The nodes of a chain in document order, each with the address of its element; the elements of the
chain are counted from `i` on. -/
def nodesOf (o : Options) (i : Nat) : Content StartTag → List (Address × Node)
  | .done => []
  | .text _ rest => o.nodesOf i rest
  | .comment _ rest => o.nodesOf i rest
  | .instruction _ rest => o.nodesOf i rest
  | .element tag body rest =>
    if o.isMarker tag then o.nodesOf (i + 1) rest
    else
      (([], Node.ofElement o tag body) :: o.nodesOf 0 body).map (under [i])
        ++ o.nodesOf (i + 1) rest

/-- The nodes of an element's tree in document order, each with the address of its element. -/
def nodes (o : Options) (e : Element) : List (Address × Node) :=
  ([], Node.ofElement o e.tag e.body) :: o.nodesOf 0 e.body

/-- The addresses of the elements that the nodes of a tree are made from, by number. -/
def addresses (o : Options) (e : Element) : List Address :=
  (o.nodes e).map (·.1)

end Options

theorem mem_nodesOf (o : Options) (c : Content StartTag) (i : Nat) (p : Address) (n : Node) :
    (p, n) ∈ o.nodesOf i c ↔
      ∃ j x q, c.children[j]? = some x ∧ o.isMarker x.tag = false ∧ (q, n) ∈ o.nodes x ∧
        p = (i + j) :: q := by
  induction c generalizing i with
  | done => simp [Options.nodesOf, Content.children]
  | text _ rest ih => exact ih i
  | comment _ rest ih => exact ih i
  | instruction _ rest ih => exact ih i
  | element tag body rest _ ih =>
    have hrest : (p, n) ∈ o.nodesOf (i + 1) rest ↔
        ∃ j x q, (Content.element tag body rest).children[j + 1]? = some x ∧
          o.isMarker x.tag = false ∧ (q, n) ∈ o.nodes x ∧ p = (i + (j + 1)) :: q := by
      rw [ih]
      simp only [Content.children, List.getElem?_cons_succ, Nat.add_assoc, Nat.add_comm 1]
    have hfirst : (p, n) ∈ (o.nodes ⟨tag, body⟩).map (under [i]) ↔
        ∃ q, (q, n) ∈ o.nodes ⟨tag, body⟩ ∧ p = i :: q := by
      simp [under, eq_comm]
    rw [Options.nodesOf]
    constructor
    · intro h
      split_ifs at h with hmarker
      · obtain ⟨j, x, q, h⟩ := hrest.1 h
        exact ⟨j + 1, x, q, h⟩
      · rcases List.mem_append.1 h with h | h
        · obtain ⟨q, hq, rfl⟩ := hfirst.1 h
          exact ⟨0, _, q, rfl, by simpa using hmarker, hq, rfl⟩
        · obtain ⟨j, x, q, h⟩ := hrest.1 h
          exact ⟨j + 1, x, q, h⟩
    · rintro ⟨j, x, q, hx, hmarker, hq, hp⟩
      cases j with
      | zero =>
        obtain rfl : (⟨tag, body⟩ : Element) = x := Option.some.inj hx
        rw [if_neg (by simp [hmarker])]
        exact List.mem_append_left _ (hfirst.2 ⟨q, hq, hp⟩)
      | succ j =>
        have h := hrest.2 ⟨j, x, q, hx, hmarker, hq, hp⟩
        split_ifs
        · exact h
        · exact List.mem_append_right _ h

/-- The nodes of a tree are those of the elements that have one, and each is made from its element. -/
theorem mem_nodes (o : Options) (e : Element) (p : Address) (n : Node) :
    (p, n) ∈ o.nodes e ↔
      HasNode o e p ∧ ∃ x, e.at? p = some x ∧ n = Node.ofElement o x.tag x.body := by
  induction p generalizing e with
  | nil =>
    rw [Options.nodes, List.mem_cons, mem_nodesOf]
    simp [hasNode_nil]
  | cons i p ih =>
    rw [Options.nodes, List.mem_cons, mem_nodesOf]
    constructor
    · rintro (h | ⟨j, x, q, hx, hmarker, hq, hp⟩)
      · cases h
      · obtain ⟨rfl, rfl⟩ : i = j ∧ p = q := by simpa using hp
        obtain ⟨hp, y, hy, hn⟩ := (ih x).1 hq
        exact ⟨hasNode_cons.2 ⟨x, hx, hmarker, hp⟩, y, by rw [Element.at?_cons hx, hy], hn⟩
    · rintro ⟨hp, y, hy, hn⟩
      obtain ⟨x, hx, hmarker, hp⟩ := hasNode_cons.1 hp
      rw [Element.at?_cons hx] at hy
      exact Or.inr ⟨i, x, p, hx, hmarker, (ih x).2 ⟨hp, y, hy, hn⟩, by simp⟩

theorem mem_addresses (o : Options) (e : Element) (p : Address) :
    p ∈ o.addresses e ↔ HasNode o e p := by
  rw [Options.addresses, List.mem_map]
  constructor
  · rintro ⟨⟨_, n⟩, h, rfl⟩
    exact ((mem_nodes o e _ n).1 h).1
  · intro h
    obtain ⟨x, hx⟩ := h.exists_at
    exact ⟨(p, _), (mem_nodes o e p _).2 ⟨h, x, hx, rfl⟩, rfl⟩

/-- The addresses in a chain begin with the places of its elements. -/
theorem exists_cons_of_mem_nodesOf {o : Options} {c : Content StartTag} {i : Nat}
    {entry : Address × Node} (h : entry ∈ o.nodesOf i c) : ∃ j q, i ≤ j ∧ entry.1 = j :: q := by
  obtain ⟨j, _, q, -, -, -, hp⟩ := (mem_nodesOf o c i entry.1 entry.2).1 h
  exact ⟨i + j, q, by omega, hp⟩

theorem pairwise_nodesOf (o : Options) (c : Content StartTag) (i : Nat) :
    (o.nodesOf i c).Pairwise fun a b => Address.Before a.1 b.1 := by
  induction c generalizing i with
  | done => exact .nil
  | text _ rest ih => exact ih i
  | comment _ rest ih => exact ih i
  | instruction _ rest ih => exact ih i
  | element tag body rest ihbody ihrest =>
    rw [Options.nodesOf]
    split_ifs
    · exact ihrest (i + 1)
    · refine List.pairwise_append.2 ⟨?_, ihrest (i + 1), fun a ha b hb => ?_⟩
      · rw [List.pairwise_map]
        have hinside : (([], Node.ofElement o tag body) :: o.nodesOf 0 body).Pairwise
            fun a b => Address.Before a.1 b.1 := by
          refine List.pairwise_cons.2 ⟨fun b hb => ?_, ihbody 0⟩
          obtain ⟨j, q, -, hq⟩ := exists_cons_of_mem_nodesOf hb
          rw [hq]
          exact .nil
        exact hinside.imp fun h => .cons h
      · obtain ⟨inner, -, rfl⟩ := List.mem_map.1 ha
        obtain ⟨j, q, hj, hq⟩ := exists_cons_of_mem_nodesOf hb
        rw [hq]
        exact .rel (by omega)

/-- Nodes are listed in document order. -/
theorem pairwise_addresses (o : Options) (e : Element) :
    (o.addresses e).Pairwise Address.Before := by
  refine List.pairwise_map.2 (List.pairwise_cons.2 ⟨fun b hb => ?_, pairwise_nodesOf o e.body 0⟩)
  obtain ⟨j, q, -, hq⟩ := exists_cons_of_mem_nodesOf hb
  rw [hq]
  exact .nil

theorem nodup_addresses (o : Options) (e : Element) : (o.addresses e).Nodup :=
  (pairwise_addresses o e).imp fun h heq => by
    subst heq
    exact irrefl_of (List.Lex (· < ·)) _ h

end SsisCompiler.Package
