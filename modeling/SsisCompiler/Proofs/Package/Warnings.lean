import SsisCompiler.Proofs.Markup.Places
import SsisCompiler.Proofs.Package.Mirror

/-!
# What is warned about

Reading an element makes one warning for each comment, each processing instruction and each marker
without a name that stands directly in an element with a node. The warnings of all elements are put into
one list while the elements are read, one inside the other, so the list of an element is cut in two by
what is warned about in its child elements. As a whole it is a permutation of the lists of the single
elements, and it is in the order of places.

Results:
* `warningsOf_perm`: the warnings of a chain, taken apart by elements.
* `openings_warningsOf_sublist`: each warning is about a part of the document, in document order.
* `place_ne_of_inside_marker`: none is about what stands inside a marker.
* `ofElement_warns`: the warnings of every element of a document.
-/

namespace SsisCompiler.Package

open Markup (Address Content Element Opening Position StartTag)

/-! ## Warnings by element -/

namespace Options

/-- What is to be warned about directly in a chain inside a node of the given kind, in order. -/
def skippedOf (o : Options) (kind : String) : Content StartTag → List Warning
  | .done => []
  | .text _ rest => o.skippedOf kind rest
  | .comment place rest => ⟨kind, .comment, place⟩ :: o.skippedOf kind rest
  | .instruction place rest => ⟨kind, .instruction, place⟩ :: o.skippedOf kind rest
  | .element tag _ rest =>
    if o.isMarker tag && (o.markerName? tag).isNone then
      ⟨kind, .unnamedMarker (kindOfTag tag), tag.place⟩ :: o.skippedOf kind rest
    else o.skippedOf kind rest

/-- What is to be warned about directly in an element, in order. -/
def skippedIn (o : Options) (x : Element) : List Warning :=
  o.skippedOf (kindOfTag x.tag) x.body

/-- The elements of a chain that have nodes, in document order. -/
def elementsOf (o : Options) : Content StartTag → List Element
  | .done => []
  | .text _ rest => o.elementsOf rest
  | .comment _ rest => o.elementsOf rest
  | .instruction _ rest => o.elementsOf rest
  | .element tag body rest =>
    if o.isMarker tag then o.elementsOf rest
    else ⟨tag, body⟩ :: (o.elementsOf body ++ o.elementsOf rest)

end Options

theorem parentKind_of_mem_skippedOf {o : Options} {kind : String} {c : Content StartTag} :
    ∀ w ∈ o.skippedOf kind c, w.parentKind = kind := by
  induction c with
  | done => simp [Options.skippedOf]
  | text _ rest ih => exact ih
  | comment _ rest ih => exact List.forall_mem_cons.2 ⟨rfl, ih⟩
  | instruction _ rest ih => exact List.forall_mem_cons.2 ⟨rfl, ih⟩
  | element tag body rest _ ih =>
    unfold Options.skippedOf
    split_ifs
    · exact List.forall_mem_cons.2 ⟨rfl, ih⟩
    · exact ih

/-- The warnings of a chain are those directly in it and those directly in its elements with nodes. -/
theorem warningsOf_perm (o : Options) (kind : String) (c : Content StartTag) :
    (warningsOf o kind c).Perm (o.skippedOf kind c ++ (o.elementsOf c).flatMap o.skippedIn) := by
  induction c generalizing kind with
  | done => exact .nil
  | text _ rest ih => exact ih kind
  | comment _ rest ih => exact (ih kind).cons _
  | instruction _ rest ih => exact (ih kind).cons _
  | element tag body rest ihbody ihrest =>
    unfold warningsOf Options.skippedOf Options.elementsOf
    by_cases hmarker : o.isMarker tag = true
    · simp only [hmarker, if_true, Bool.true_and]
      cases o.markerName? tag with
      | none => exact (ihrest kind).cons _
      | some name => exact ihrest kind
    · simp only [hmarker, Bool.false_and, Bool.false_eq_true, if_false]
      -- the warnings inside the element move behind those directly in the chain
      have hmoved := ((ihbody (kindOfTag tag)).append (ihrest kind)).trans
        (List.perm_append_comm_assoc _ _ _)
      rw [List.append_assoc, ← List.flatMap_append] at hmoved
      exact hmoved

/-- The elements at the addresses of nodes are the element itself and those of its chain. -/
theorem map_at?_nodesOf (o : Options) (c : Content StartTag) (e : Element) (i : Nat)
    (h : ∀ j, e.children[i + j]? = c.children[j]?) :
    (o.nodesOf i c).map (fun entry => e.at? entry.1) = (o.elementsOf c).map some := by
  induction c generalizing e i with
  | done => rfl
  | text _ rest ih => exact ih e i h
  | comment _ rest ih => exact ih e i h
  | instruction _ rest ih => exact ih e i h
  | element tag body rest ihbody ihrest =>
    have hfirst : e.children[i]? = some ⟨tag, body⟩ := h 0
    have hbehind : ∀ j, e.children[i + 1 + j]? = rest.children[j]? := by
      intro j
      rw [Nat.add_assoc, Nat.add_comm 1 j, h (j + 1)]
      rfl
    have hinside := ihbody ⟨tag, body⟩ 0 (fun j => by rw [Nat.zero_add]; rfl)
    unfold Options.nodesOf Options.elementsOf
    split_ifs
    · exact ihrest e (i + 1) hbehind
    · have hunder : ∀ entry : Address × Node, e.at? (under [i] entry).1 =
          (⟨tag, body⟩ : Element).at? entry.1 := fun entry => Element.at?_cons hfirst entry.1
      rw [List.map_append, ihrest e (i + 1) hbehind, List.map_map]
      simp only [Function.comp_def, hunder, List.map_cons, hinside, List.map_append, List.cons_append,
        Element.at?_nil]

theorem filterMap_at?_addresses (o : Options) (e : Element) :
    (o.addresses e).filterMap e.at? = e :: o.elementsOf e.body := by
  have hinside := map_at?_nodesOf o e.body e 0 (fun j => by rw [Nat.zero_add]; rfl)
  have hall : (o.addresses e).map e.at? = (e :: o.elementsOf e.body).map some := by
    rw [Options.addresses, Options.nodes, List.map_map, List.map_cons, List.map_cons, ← hinside]
    rfl
  calc (o.addresses e).filterMap e.at?
      = ((o.addresses e).map e.at?).filterMap id := by rw [List.filterMap_map]; rfl
    _ = e :: o.elementsOf e.body := by rw [hall, List.filterMap_map]; exact List.filterMap_some

/-! ## Warnings by place -/

/-- How what is warned about begins in the document. -/
def Warning.opening (w : Warning) : Opening :=
  match w.skipped with
  | .comment => .ofComment w.place
  | .instruction => .ofInstruction w.place
  | .unnamedMarker _ => .ofTag w.place

theorem Warning.place_opening (w : Warning) : w.opening.place = w.place := by
  unfold Warning.opening
  split <;> rfl

/-- Each warning is about a part of the chain, and the warnings are in document order. -/
theorem openings_warningsOf_sublist (o : Options) (kind : String) (c : Content StartTag) :
    ((warningsOf o kind c).map Warning.opening).Sublist (c.openings (·.place)) := by
  induction c generalizing kind with
  | done => exact .slnil
  | text _ rest ih => exact ih kind
  | comment _ rest ih => exact (ih kind).cons_cons _
  | instruction _ rest ih => exact (ih kind).cons_cons _
  | element tag body rest ihbody ihrest =>
    have hrest := (ihrest kind).trans (List.sublist_append_right (body.openings (·.place)) _)
    unfold warningsOf
    split_ifs
    · split
      · exact hrest.cons _
      · exact hrest.cons_cons _
    · rw [List.map_append]
      exact ((ihbody _).append (ihrest kind)).cons _

/-- A warning of a chain that begins with an element is about the element itself, or about something in
it if it is no marker, or about something behind it. -/
theorem mem_warningsOf_element {o : Options} {kind : String} {tag : StartTag}
    {body rest : Content StartTag} {w : Warning} (h : w ∈ warningsOf o kind (.element tag body rest)) :
    w.place = tag.place ∨ (o.isMarker tag = false ∧ w ∈ warningsOf o (kindOfTag tag) body) ∨
      w ∈ warningsOf o kind rest := by
  unfold warningsOf at h
  split_ifs at h with hmarker
  · split at h
    · exact Or.inr (Or.inr h)
    · rcases List.mem_cons.1 h with rfl | h
      · exact Or.inl rfl
      · exact Or.inr (Or.inr h)
  · rcases List.mem_append.1 h with h | h
    · exact Or.inr (Or.inl ⟨by simpa using hmarker, h⟩)
    · exact Or.inr (Or.inr h)

theorem exists_opening_of_mem_warningsOf {o : Options} {kind : String} {c : Content StartTag}
    {w : Warning} (h : w ∈ warningsOf o kind c) :
    ∃ opening ∈ c.openings (·.place), w.place = opening.place :=
  ⟨w.opening, (openings_warningsOf_sublist o kind c).subset (List.mem_map_of_mem h),
    w.place_opening.symm⟩

/-- Where no two parts of a chain have the same place, nothing that stands inside a marker is warned
about. -/
theorem place_ne_of_inside_marker {o : Options} {kind : String} {c : Content StartTag}
    (hplaces : (c.openings (·.place)).Pairwise fun a b => a.place.Before b.place) {y : Element}
    (hy : y ∈ c.elements) (hmarker : o.isMarker y.tag = true) {opening : Opening}
    (hopening : opening ∈ y.body.openings (·.place)) {w : Warning} (hw : w ∈ warningsOf o kind c) :
    w.place ≠ opening.place := by
  have hinside : ∀ {c : Content StartTag}, y ∈ c.elements → opening ∈ c.openings (·.place) :=
    fun hy => (Markup.openings_sublist_of_mem_elements hy).subset (List.mem_cons_of_mem _ hopening)
  induction c generalizing kind with
  | done => cases hy
  | text _ rest ih => exact ih hplaces hy hw
  | comment place rest ih =>
    obtain ⟨hfirst, hplaces⟩ := List.pairwise_cons.1 hplaces
    rcases List.mem_cons.1 hw with rfl | hw
    · exact (hfirst opening (hinside (c := rest) hy)).ne
    · exact ih hplaces hy hw
  | instruction place rest ih =>
    obtain ⟨hfirst, hplaces⟩ := List.pairwise_cons.1 hplaces
    rcases List.mem_cons.1 hw with rfl | hw
    · exact (hfirst opening (hinside (c := rest) hy)).ne
    · exact ih hplaces hy hw
  | element tag body rest ihbody ihrest =>
    obtain ⟨hfirst, hplaces⟩ := List.pairwise_cons.1 hplaces
    obtain ⟨hbody, hrest, hacross⟩ := List.pairwise_append.1 hplaces
    have hy' : (y = ⟨tag, body⟩ ∨ y ∈ body.elements) ∨ y ∈ rest.elements := by
      rwa [Content.elements, List.mem_cons, List.mem_append, ← or_assoc] at hy
    -- what is inside the marker is inside this element or behind it
    have hside : opening ∈ body.openings (·.place) ∨ y ∈ rest.elements := by
      refine hy'.imp_left ?_
      rintro (rfl | hy)
      · exact hopening
      · exact hinside hy
    rcases mem_warningsOf_element hw with htag | ⟨hplain, hw⟩ | hw
    · rw [htag]
      exact (hfirst opening (List.mem_append.2 (hside.imp_right hinside))).ne
    · rcases hy' with (rfl | hy) | hy
      · rw [hmarker] at hplain
        cases hplain
      · exact ihbody hbody hy hw
      · obtain ⟨other, hother, hplace⟩ := exists_opening_of_mem_warningsOf hw
        rw [hplace]
        exact (hacross other hother opening (hinside hy)).ne
    · rcases hside with hopening | hy
      · obtain ⟨other, hother, hplace⟩ := exists_opening_of_mem_warningsOf hw
        rw [hplace]
        exact (hacross opening hopening other hother).ne.symm
      · exact ihrest hrest hy hw

/-! ## The elements of a document -/

/-- The warnings of an element of a document. There is one for each comment, each processing instruction
and each marker without a name directly in an element that has a node, no other and none twice. Each
carries the kind of that node. They are in the order of their places, and the text of the document at
these places begins as what is warned about does. None is about what stands inside a marker. -/
theorem ofElement_warns (o : Options) (text : String) (root e : Element)
    (hroot : Element.ofText? text = some root) (he : e ∈ root.elements) :
    (Reading.ofElement o e).warnings.Perm
      (((o.addresses e).filterMap e.at?).flatMap o.skippedIn) ∧
    (∀ (k : Nat) (p : Address) (x : Element), (o.addresses e)[k]? = some p → e.at? p = some x →
      ∀ w ∈ o.skippedIn x, w.parentKind = ((Reading.ofElement o e).tree.node k).kind) ∧
    (Reading.ofElement o e).warnings.Pairwise (fun v w => v.place.Before w.place) ∧
    (∀ w ∈ (Reading.ofElement o e).warnings, ∃ before rest,
      text.toList = before ++ (w.opening.text ++ rest) ∧ w.place = Position.start.after before) ∧
    ∀ y ∈ e.body.elements, o.isMarker y.tag = true → ∀ opening ∈ y.body.openings (·.place),
      ∀ w ∈ (Reading.ofElement o e).warnings, w.place ≠ opening.place := by
  -- the parts of the element are among those of the document
  have hsub : e.openings.Sublist root.openings := by
    rcases List.mem_cons.1 he with rfl | he
    · exact List.Sublist.refl _
    · exact (Markup.openings_sublist_of_mem_elements he).cons _
  have hplaced := ((Markup.wellPlaced_ofText? hroot).sublist hsub).sublist (List.sublist_cons_self _ _)
  have hwarnings := openings_warningsOf_sublist o (kindOfTag e.tag) e.body
  refine ⟨?_, ?_, ?_, ?_, ?_⟩
  · rw [filterMap_at?_addresses]
    exact warningsOf_perm o (kindOfTag e.tag) e.body
  · intro k p x hk hx w hw
    rw [node_ofElement hk hx, (kind_nodeOfElement o x.tag x.body).1]
    exact parentKind_of_mem_skippedOf w hw
  · have hincreasing := List.pairwise_map.1 (hplaced.increasing.sublist hwarnings)
    simp only [Warning.place_opening] at hincreasing
    exact hincreasing
  · intro w hw
    obtain ⟨before, rest, hshows⟩ :=
      hplaced.shows w.opening (hwarnings.subset (List.mem_map_of_mem hw))
    exact ⟨before, rest, hshows.rest_eq, w.place_opening.symm.trans hshows.place_eq⟩
  · intro y hy hmarker opening hopening w hw
    exact place_ne_of_inside_marker hplaced.increasing hy hmarker hopening hw

/-- A document with comments around and inside elements, an instruction, and a marker without a name. -/
def annotatedText : String :=
  "<a xmlns:DTS=\"d\"><!--1-->\n<b><?p?></b><DTS:Property><!--x--></DTS:Property><!--4--></a>"

theorem ofElement_warns_annotatedText :
    ∃ root, Element.ofText? annotatedText = some root ∧
      (Reading.ofElement {} root).warnings.map (fun w => (w.parentKind, w.place)) =
        [("a", ⟨1, 18⟩), ("b", ⟨2, 4⟩), ("a", ⟨2, 13⟩), ("a", ⟨2, 50⟩)] ∧
      (Reading.ofElement {} root).warnings.Perm
        (((Options.addresses {} root).filterMap root.at?).flatMap (Options.skippedIn {})) ∧
      (Reading.ofElement {} root).warnings.Pairwise (fun v w => v.place.Before w.place) := by
  have hread : (Element.ofText? annotatedText).map (fun root =>
      (Reading.ofElement {} root).warnings.map fun w => (w.parentKind, w.place)) =
        some [("a", ⟨1, 18⟩), ("b", ⟨2, 4⟩), ("a", ⟨2, 13⟩), ("a", ⟨2, 50⟩)] := by decide +kernel
  obtain ⟨root, hroot, hplaces⟩ := Option.map_eq_some_iff.1 hread
  obtain ⟨hperm, -, hincreasing, -⟩ :=
    ofElement_warns {} annotatedText root root hroot List.mem_cons_self
  exact ⟨root, hroot, hplaces, hperm, hincreasing⟩

end SsisCompiler.Package
