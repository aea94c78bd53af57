import SsisCompiler.Proofs.Package.Mirror

/-!
# Parts of a document and parts of its tree

What is read from an element depends on nothing outside it. A listing by address has what is at or below
an address all together (`HasBlock`), and this block is the listing of the element there, whose own
addresses go on from it. The nodes of a tree and what was skipped in making it are two such listings.

Results:
* `hasBlock_nodes`, `hasBlock_skips`: the blocks of an element.
* `address_add`: the node numbers of an element and of the document differ by the element's own number.
* `ofElement_at`: the tree of an element inside another is a part of the other's tree, and so are its
  warnings.
-/

namespace SsisCompiler.Package

open Markup (Address Content Element StartTag)

/-! ## Listings by address -/

section Listing

variable {α : Type}

theorem map_under_nil (entries : List (Address × α)) : entries.map (under []) = entries :=
  List.map_id' entries

theorem map_under_cons (i : Nat) (p : Address) (entries : List (Address × α)) :
    entries.map (under (i :: p)) = (entries.map (under p)).map (under [i]) := by
  rw [List.map_map]
  rfl

/-- What a listing has at an address and below it stands together, and is the given block. -/
def HasBlock (p : Address) (block listing : List (Address × α)) : Prop :=
  ∃ before after, listing = before ++ block.map (under p) ++ after ∧
    ∀ entry ∈ before ++ after, ¬ p <+: entry.1

theorem hasBlock_append {p : Address} {block rest : List (Address × α)}
    (h : ∀ entry ∈ rest, ¬ p <+: entry.1) : HasBlock p block (block.map (under p) ++ rest) :=
  ⟨[], rest, rfl, h⟩

theorem HasBlock.append_left {p : Address} {block listing : List (Address × α)}
    (h : HasBlock p block listing) (before : List (Address × α))
    (hbefore : ∀ entry ∈ before, ¬ p <+: entry.1) : HasBlock p block (before ++ listing) := by
  obtain ⟨before', after, rfl, houtside⟩ := h
  refine ⟨before ++ before', after, by simp only [List.append_assoc], fun entry hentry => ?_⟩
  rw [List.append_assoc, List.mem_append] at hentry
  exact hentry.elim (hbefore entry) (houtside entry)

/-- A block of a block. -/
theorem HasBlock.trans {i : Nat} {p : Address} {a b c : List (Address × α)} (hbc : HasBlock [i] b c)
    (hab : HasBlock p a b) : HasBlock (i :: p) a c := by
  obtain ⟨before, after, rfl, houtside⟩ := hbc
  obtain ⟨before', after', rfl, houtside'⟩ := hab
  refine ⟨before ++ before'.map (under [i]), after'.map (under [i]) ++ after, ?_, ?_⟩
  · rw [map_under_cons i p]
    simp only [List.map_append, List.append_assoc]
  · intro entry hentry hprefix
    have hsplit : entry ∈ before ++ after ∨ entry ∈ (before' ++ after').map (under [i]) := by
      simp only [List.map_append, List.mem_append] at hentry ⊢
      tauto
    rcases hsplit with hentry | hentry
    · exact houtside entry hentry (List.IsPrefix.trans (by simp) hprefix)
    · obtain ⟨inner, hinner, rfl⟩ := List.mem_map.1 hentry
      exact houtside' inner hinner (List.cons_prefix_cons.1 hprefix).2

/-- A listing that has what is in a child element as a block, if the child is no marker, has what is in
any element with a node as a block, however deep that is. -/
theorem hasBlock_of_children {o : Options} {listing : Element → List (Address × α)}
    (h : ∀ {e x : Element} {i : Nat}, e.children[i]? = some x → o.isMarker x.tag = false →
      HasBlock [i] (listing x) (listing e))
    {e x : Element} {p : Address} (hp : HasNode o e p) (hx : e.at? p = some x) :
    HasBlock p (listing x) (listing e) := by
  induction p generalizing e with
  | nil =>
    obtain rfl := Option.some.inj hx
    exact ⟨[], [], by rw [map_under_nil, List.append_nil, List.nil_append], by simp⟩
  | cons i p ih =>
    obtain ⟨child, hchild, hmarker, hinside⟩ := hasNode_cons.1 hp
    rw [Element.at?_cons hchild] at hx
    exact (h hchild hmarker).trans (ih hinside hx)

theorem not_prefix_of_mem_map_under {i j : Nat} (hne : i ≠ j) {entries : List (Address × α)} :
    ∀ entry ∈ entries.map (under [j]), ¬ [i] <+: entry.1 := by
  intro entry hentry hprefix
  obtain ⟨inner, -, rfl⟩ := List.mem_map.1 hentry
  exact hne (List.cons_prefix_cons.1 hprefix).1

end Listing

/-! ## Nodes -/

theorem hasBlock_nodesOf (o : Options) (c : Content StartTag) {x : Element} {j : Nat} (i : Nat)
    (hx : c.children[j]? = some x) (hmarker : o.isMarker x.tag = false) :
    HasBlock [i + j] (o.nodes x) (o.nodesOf i c) := by
  induction c generalizing i j with
  | done => cases hx
  | text _ rest ih => exact ih i hx
  | comment _ rest ih => exact ih i hx
  | instruction _ rest ih => exact ih i hx
  | element tag body rest _ ih =>
    rw [Options.nodesOf]
    cases j with
    | zero =>
      obtain rfl : (⟨tag, body⟩ : Element) = x := Option.some.inj hx
      rw [if_neg (by simp [hmarker])]
      refine hasBlock_append fun entry hentry hprefix => ?_
      obtain ⟨l, q, hl, hq⟩ := exists_cons_of_mem_nodesOf hentry
      rw [hq, List.cons_prefix_cons] at hprefix
      omega
    | succ j =>
      have hrest := ih (i + 1) hx
      rw [Nat.add_right_comm] at hrest
      split_ifs
      · exact hrest
      · exact hrest.append_left _ (not_prefix_of_mem_map_under (by omega))

theorem hasBlock_nodes {o : Options} {e x : Element} {p : Address} (hp : HasNode o e p)
    (hx : e.at? p = some x) : HasBlock p (o.nodes x) (o.nodes e) := by
  refine hasBlock_of_children (fun {e x i} hx hmarker => ?_) hp hx
  have hinside := hasBlock_nodesOf o e.body 0 hx hmarker
  rw [Nat.zero_add] at hinside
  exact hinside.append_left [_] (by simp)

/-! ## What is skipped -/

namespace Options

/-- What is skipped in a chain inside a node of the given kind, in the order of its places, each with
the address of the element that it stands in directly; the elements of the chain are counted from `i`
on. -/
def skipsOf (o : Options) (kind : String) (i : Nat) : Content StartTag → List (Address × Warning)
  | .done => []
  | .text _ rest => o.skipsOf kind i rest
  | .comment place rest => ([], ⟨kind, .comment, place⟩) :: o.skipsOf kind i rest
  | .instruction place rest => ([], ⟨kind, .instruction, place⟩) :: o.skipsOf kind i rest
  | .element tag body rest =>
    if o.isMarker tag then
      match o.markerName? tag with
      | some _ => o.skipsOf kind (i + 1) rest
      | none =>
        ([], ⟨kind, .unnamedMarker (kindOfTag tag), tag.place⟩) :: o.skipsOf kind (i + 1) rest
    else (o.skipsOf (kindOfTag tag) 0 body).map (under [i]) ++ o.skipsOf kind (i + 1) rest

/-- What is skipped in an element, in the order of its places, each with the address of the element that
it stands in directly. -/
def skips (o : Options) (e : Element) : List (Address × Warning) :=
  o.skipsOf (kindOfTag e.tag) 0 e.body

end Options

theorem map_snd_skipsOf (o : Options) (c : Content StartTag) (kind : String) (i : Nat) :
    (o.skipsOf kind i c).map (·.2) = warningsOf o kind c := by
  induction c generalizing kind i with
  | done => rfl
  | text _ rest ih => exact ih kind i
  | comment _ rest ih => exact congrArg (_ :: ·) (ih kind i)
  | instruction _ rest ih => exact congrArg (_ :: ·) (ih kind i)
  | element tag body rest ihbody ihrest =>
    rw [Options.skipsOf, warningsOf]
    split_ifs
    · cases o.markerName? tag with
      | some _ => exact ihrest kind (i + 1)
      | none => exact congrArg (_ :: ·) (ihrest kind (i + 1))
    · rw [List.map_append, List.map_map, ← ihbody (kindOfTag tag) 0, ← ihrest kind (i + 1)]
      rfl

theorem warnings_ofElement (o : Options) (e : Element) :
    (Reading.ofElement o e).warnings = (o.skips e).map (·.2) :=
  (map_snd_skipsOf o e.body _ 0).symm

/-- What is skipped in a chain stands in its own element, or in one of its child elements. -/
theorem not_prefix_of_mem_skipsOf {o : Options} {c : Content StartTag} {kind : String} {i j : Nat}
    (hlt : j < i) : ∀ entry ∈ o.skipsOf kind i c, ¬ [j] <+: entry.1 := by
  induction c generalizing i with
  | done => simp [Options.skipsOf]
  | text _ rest ih => exact ih hlt
  | comment _ rest ih => simpa [Options.skipsOf] using ih hlt
  | instruction _ rest ih => simpa [Options.skipsOf] using ih hlt
  | element tag body rest _ ih =>
    have hrest := ih (Nat.lt_succ_of_lt hlt)
    rw [Options.skipsOf]
    split_ifs
    · split
      · exact hrest
      · simpa using hrest
    · intro entry hentry
      rcases List.mem_append.1 hentry with hentry | hentry
      · exact not_prefix_of_mem_map_under (Nat.ne_of_lt hlt) entry hentry
      · exact hrest entry hentry

theorem hasBlock_skipsOf (o : Options) (c : Content StartTag) {x : Element} {j : Nat} (kind : String)
    (i : Nat) (hx : c.children[j]? = some x) (hmarker : o.isMarker x.tag = false) :
    HasBlock [i + j] (o.skips x) (o.skipsOf kind i c) := by
  induction c generalizing i j with
  | done => cases hx
  | text _ rest ih => exact ih i hx
  | comment _ rest ih => exact (ih i hx).append_left [_] (by simp)
  | instruction _ rest ih => exact (ih i hx).append_left [_] (by simp)
  | element tag body rest _ ih =>
    rw [Options.skipsOf]
    cases j with
    | zero =>
      obtain rfl : (⟨tag, body⟩ : Element) = x := Option.some.inj hx
      rw [if_neg (by simp [hmarker])]
      exact hasBlock_append (not_prefix_of_mem_skipsOf (Nat.lt_succ_self i))
    | succ j =>
      have hrest := ih (i + 1) hx
      rw [Nat.add_right_comm] at hrest
      split_ifs
      · split
        · exact hrest
        · exact hrest.append_left [_] (by simp)
      · exact hrest.append_left _ (not_prefix_of_mem_map_under (by omega))

theorem hasBlock_skips {o : Options} {e x : Element} {p : Address} (hp : HasNode o e p)
    (hx : e.at? p = some x) : HasBlock p (o.skips x) (o.skips e) := by
  refine hasBlock_of_children (fun {e x i} hx hmarker => ?_) hp hx
  have hinside := hasBlock_skipsOf o e.body (kindOfTag e.tag) 0 hx hmarker
  rwa [Nat.zero_add] at hinside

/-! ## Parts of a tree -/

section Part

variable {o : Options} {e x : Element} {k : Nat} {p : Address}
  (hk : (o.addresses e)[k]? = some p) (hx : e.at? p = some x)

include hk hx

/-- The numbers of the nodes of an element differ by the element's own number. -/
theorem address_add {j : Nat} {q : Address} (hj : (o.addresses x)[j]? = some q) :
    (o.addresses e)[k + j]? = some (p ++ q) := by
  obtain ⟨before, after, hnodes, -⟩ := hasBlock_nodes (hasNode_of_address hk) hx
  have hblock : o.addresses e =
      before.map (·.1) ++ ((o.addresses x).map (p ++ ·) ++ after.map (·.1)) := by
    simp only [Options.addresses, hnodes, List.map_append, List.map_map, List.append_assoc]
    rfl
  have hget : ∀ {l : Nat} {r : Address}, (o.addresses x)[l]? = some r →
      (o.addresses e)[before.length + l]? = some (p ++ r) := by
    intro l r hl
    have hlt := (List.getElem?_eq_some_iff.1 hl).1
    rw [hblock, List.getElem?_append_right (by simp), List.length_map, Nat.add_sub_cancel_left,
      List.getElem?_append_left (by rwa [List.length_map]), List.getElem?_map, hl]
    rfl
  -- the block begins at the element's own node
  have hstart : before.length = k := address_inj (by simpa using hget (l := 0) rfl) hk
  rw [← hstart]
  exact hget hj

theorem exists_eq_add {i : Nat} {q : Address} (hi : (o.addresses e)[i]? = some (p ++ q)) :
    ∃ j, i = k + j ∧ (o.addresses x)[j]? = some q := by
  have hq := (hasNode_append (hasNode_of_address hk) hx q).1 (hasNode_of_address hi)
  obtain ⟨j, hj⟩ := List.mem_iff_getElem?.1 ((mem_addresses o x q).2 hq)
  exact ⟨j, address_inj hi (address_add hk hx hj), hj⟩

theorem node_add {j : Nat} (hj : j < (Reading.ofElement o x).tree.size) :
    (Reading.ofElement o x).tree.node j = (Reading.ofElement o e).tree.node (k + j) := by
  obtain ⟨q, hq⟩ := exists_address hj
  obtain ⟨y, hy⟩ := (hasNode_of_address hq).exists_at
  rw [node_ofElement hq hy, node_ofElement (address_add hk hx hq)]
  rw [Element.at?_append hx, hy]

theorem children_add {j : Nat} (hj : j < (Reading.ofElement o x).tree.size) :
    (Reading.ofElement o e).tree.children (k + j) =
      ((Reading.ofElement o x).tree.children j).map (k + ·) := by
  obtain ⟨q, hq⟩ := exists_address hj
  have hadd := address_add hk hx hq
  refine List.Pairwise.eq_of_mem_iff (Tree.pairwise_lt_children _ _) ?_ fun c => ?_
  · exact List.pairwise_map.2 ((Tree.pairwise_lt_children _ j).imp fun hab =>
      Nat.add_lt_add_left hab k)
  · rw [mem_children_iff_address hadd, List.mem_map]
    constructor
    · rintro ⟨i, hi⟩
      rw [List.append_assoc] at hi
      obtain ⟨c', rfl, hc'⟩ := exists_eq_add hk hx hi
      exact ⟨c', (mem_children_iff_address hq).2 ⟨i, hc'⟩, rfl⟩
    · rintro ⟨c', hc', rfl⟩
      obtain ⟨i, hi⟩ := (mem_children_iff_address hq).1 hc'
      exact ⟨i, by rw [address_add hk hx hi, List.append_assoc]⟩

theorem parent?_add {j : Nat} (hpos : 0 < j) (hj : j < (Reading.ofElement o x).tree.size) :
    (Reading.ofElement o e).tree.parent? (k + j) =
      ((Reading.ofElement o x).tree.parent? j).map (k + ·) := by
  obtain ⟨q, hq⟩ := exists_address hj
  have hne : q ≠ [] := by
    rintro rfl
    have := address_inj (l := 0) hq rfl
    omega
  obtain ⟨l, hl, hdrop⟩ := exists_parent?_of_address hq hne
  obtain ⟨l', hl', hdrop'⟩ := exists_parent?_of_address (address_add hk hx hq) (by simp [hne])
  rw [List.dropLast_append_of_ne_nil hne] at hdrop'
  rw [hl, hl', address_inj hdrop' (address_add hk hx hdrop)]
  rfl

theorem descends_add {j : Nat} (hj : (Reading.ofElement o x).tree.Descends 0 j) :
    (Reading.ofElement o e).tree.Descends k (k + j) := by
  induction hj with
  | refl => exact .refl
  | @tail c j _ hparent ih =>
    refine ih.tail ?_
    have hlt := (preordered_ofElement o x).parent_lt hparent
    rw [parent?_add hk hx (by omega) (Tree.lt_size_of_parent? hparent), hparent]
    rfl

theorem exists_eq_add_of_descends {i : Nat} (hi : (Reading.ofElement o e).tree.Descends k i) :
    ∃ j, j < (Reading.ofElement o x).tree.size ∧ i = k + j := by
  induction hi with
  | refl => exact ⟨0, Nat.succ_pos _, rfl⟩
  | @tail c i _ hparent ih =>
    obtain ⟨j, hj, rfl⟩ := ih
    have hsize : k + j < (Reading.ofElement o e).tree.size := by
      have hlt := (preordered_ofElement o e).parent_lt hparent
      have := Tree.lt_size_of_parent? hparent
      omega
    have hchild := (Tree.mem_children_iff (preordered_ofElement o e).parent_lt hsize).2 hparent
    rw [children_add hk hx hj, List.mem_map] at hchild
    obtain ⟨c, hc, rfl⟩ := hchild
    exact ⟨c, Tree.lt_size_of_mem_children hc, rfl⟩

theorem descendants_add :
    (Reading.ofElement o e).tree.descendants k =
      List.range' (k + 1) ((Reading.ofElement o x).tree.size - 1) := by
  refine (preordered_ofElement o e).descendants_eq_range' (lt_size_of_address hk) fun i => ?_
  constructor
  · rintro ⟨h, hlt⟩
    obtain ⟨j, hj, rfl⟩ := exists_eq_add_of_descends hk hx h
    omega
  · rintro ⟨hlt, hle⟩
    obtain ⟨j, rfl⟩ : ∃ j, i = k + j := ⟨i - k, by omega⟩
    exact ⟨descends_add hk hx ((preordered_ofElement o x).descends_root (by omega)), hlt⟩

end Part

/-- Reading is compositional. Take an element with a node inside another element. The part of the other's
tree from this node on, as far as it goes below the node, is the tree of the element: with its numbers
raised by the node's number, it has the same nodes, children and parents, except that the node itself
has a parent there. The warnings of the element are those about what stands in it, which are all
together among the warnings of the whole. -/
theorem ofElement_at (o : Options) (e x : Element) (k : Nat) (p : Address)
    (hk : (o.addresses e)[k]? = some p) (hx : e.at? p = some x) :
    (Reading.ofElement o e).tree.descendants k =
      List.range' (k + 1) ((Reading.ofElement o x).tree.size - 1) ∧
    (Reading.ofElement o x).tree.parent? 0 = none ∧
    (∀ j, j < (Reading.ofElement o x).tree.size →
      k + j < (Reading.ofElement o e).tree.size ∧
      (Reading.ofElement o x).tree.node j = (Reading.ofElement o e).tree.node (k + j) ∧
      (Reading.ofElement o e).tree.children (k + j) =
        ((Reading.ofElement o x).tree.children j).map (k + ·) ∧
      (0 < j → (Reading.ofElement o e).tree.parent? (k + j) =
        ((Reading.ofElement o x).tree.parent? j).map (k + ·))) ∧
    (Reading.ofElement o e).warnings = (o.skips e).map (·.2) ∧
    ∃ before inside after, o.skips e = before ++ inside ++ after ∧
      (∀ skip ∈ inside, p <+: skip.1) ∧
      (∀ skip ∈ before ++ after, ¬ p <+: skip.1) ∧
      (Reading.ofElement o x).warnings = inside.map (·.2) := by
  refine ⟨descendants_add hk hx, rfl, fun j hj => ⟨?_, node_add hk hx hj, children_add hk hx hj,
    fun hpos => parent?_add hk hx hpos hj⟩, warnings_ofElement o e, ?_⟩
  · obtain ⟨q, hq⟩ := exists_address hj
    exact lt_size_of_address (address_add hk hx hq)
  · obtain ⟨before, after, hskips, houtside⟩ := hasBlock_skips (hasNode_of_address hk) hx
    refine ⟨before, (o.skips x).map (under p), after, hskips, ?_, houtside, ?_⟩
    · intro skip hskip
      obtain ⟨inner, -, rfl⟩ := List.mem_map.1 hskip
      exact List.prefix_append p inner.1
    · rw [warnings_ofElement, List.map_map]
      rfl

/-- An element with a comment before, inside and behind an element that holds another. -/
def commentedElement : Element where
  tag := bareTag "a"
  body := .comment ⟨1, 4⟩ (.element (bareTag "b")
    (.element (bareTag "c") .done (.comment ⟨1, 15⟩ .done)) (.comment ⟨1, 27⟩ .done))

/-- The element inside has two nodes of three and one warning of three. -/
theorem ofElement_at_commentedElement :
    ∃ x, commentedElement.at? [0] = some x ∧
      (Reading.ofElement {} commentedElement).tree.size = 3 ∧
      (Reading.ofElement {} x).tree.size = 2 ∧
      (Reading.ofElement {} x).tree.node 1 = (Reading.ofElement {} commentedElement).tree.node 2 ∧
      (Reading.ofElement {} commentedElement).tree.parent? 2 =
        ((Reading.ofElement {} x).tree.parent? 1).map (1 + ·) ∧
      (Reading.ofElement {} commentedElement).warnings.map (·.place) =
        [⟨1, 4⟩, ⟨1, 15⟩, ⟨1, 27⟩] ∧
      ∃ before inside after, Options.skips {} commentedElement = before ++ inside ++ after ∧
        (Reading.ofElement {} x).warnings = inside.map (·.2) := by
  have hx : commentedElement.at? [0] =
      some ⟨bareTag "b", .element (bareTag "c") .done (.comment ⟨1, 15⟩ .done)⟩ := rfl
  obtain ⟨-, -, hnodes, -, before, inside, after, hskips, -, -, hwarnings⟩ :=
    ofElement_at {} commentedElement _ 1 [0] (by decide +kernel) hx
  obtain ⟨-, hnode, -, hparent⟩ := hnodes 1 (by decide +kernel)
  exact ⟨_, hx, by decide +kernel, by decide +kernel, hnode, hparent (by decide), by decide +kernel,
    before, inside, after, hskips, hwarnings⟩

end SsisCompiler.Package
