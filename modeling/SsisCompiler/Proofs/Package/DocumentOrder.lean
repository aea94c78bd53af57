import Mathlib.Data.List.Sort
import Mathlib.Logic.Relation
import Mathlib.Tactic.SplitIfs
import SsisCompiler.Package.Layout
import SsisCompiler.Package.Reading

/-!
# Document order

The nodes of a package that was read are numbered in the order of their start tags. So the nodes below
a node come right behind it, before any other node that is not below it.

`Tree.Preordered` says this by the numbers of parents alone, and `Tree.Apart` is the order in which two
nodes of which neither is below the other stand.

Results:
* `preordered_ofElement`: the tree of every element is numbered in document order.
* `Preordered.lt_of_descends`: what is below a node comes before every later node that is not.
* `Preordered.apart_owned`, `Preordered.apart_executables`: the things that a node owns, and the
  executables at the top, stand apart from each other in document order.
* `mem_descendants_iff`, `Preordered.descendants_eq_range'`: the listing of what is below a node has
  exactly that, in document order.
-/

namespace SsisCompiler.Package

open Markup (Content Element StartTag)

/-! ## Numbers of parents -/

/-- Numbers are given in document order: a parent comes before its children, and the nodes between a
parent and one of its children are below that parent. -/
structure Tree.Preordered (t : Tree) : Prop where
  parent_lt : ∀ {i p : Nat}, t.parent? i = some p → p < i
  nested : ∀ {i j p q : Nat}, t.parent? j = some p → t.parent? i = some q → p < i → i ≤ j → p ≤ q

/-- The same of the parents of nodes that are numbered from `next` on, inside the node `outer`. -/
structure NumberedFrom (outer next : Nat) (parents : List Nat) : Prop where
  outer_or_le : ∀ {k p : Nat}, parents[k]? = some p → p = outer ∨ next ≤ p
  parent_lt : ∀ {k p : Nat}, parents[k]? = some p → p < next + k
  nested : ∀ {j k p q : Nat}, parents[j]? = some p → parents[k]? = some q → p < next + k → k ≤ j →
    p ≤ q

theorem numberedFrom_nil (outer next : Nat) : NumberedFrom outer next [] :=
  ⟨by simp, by simp, by simp⟩

/-- Where something stands among what is listed of an element: it is the element's own, or of a node
inside the element, or of one behind it. -/
theorem getElem?_element_cases {α : Type} {own a : α} {inner rest : List α} {k : Nat}
    (h : (own :: inner ++ rest)[k]? = some a) :
    (k = 0 ∧ a = own) ∨ (∃ i, k = i + 1 ∧ i < inner.length ∧ inner[i]? = some a) ∨
      ∃ i, k = inner.length + 1 + i ∧ rest[i]? = some a := by
  cases k with
  | zero =>
    left
    exact ⟨rfl, by simpa using h.symm⟩
  | succ k =>
    right
    rw [List.cons_append, List.getElem?_cons_succ, List.getElem?_append] at h
    split_ifs at h with hk
    · left
      exact ⟨k, rfl, hk, h⟩
    · right
      exact ⟨k - inner.length, by omega, h⟩

theorem numberedFrom_element {outer next : Nat} {inner rest : List Nat} (hlt : outer < next)
    (hinner : NumberedFrom next (next + 1) inner)
    (hrest : NumberedFrom outer (next + 1 + inner.length) rest) :
    NumberedFrom outer next (outer :: inner ++ rest) where
  outer_or_le h := by
    rcases getElem?_element_cases h with ⟨-, rfl⟩ | ⟨i, -, -, hi⟩ | ⟨i, -, hi⟩
    · exact Or.inl rfl
    · have := hinner.outer_or_le hi
      omega
    · have := hrest.outer_or_le hi
      omega
  parent_lt h := by
    rcases getElem?_element_cases h with ⟨rfl, rfl⟩ | ⟨i, rfl, -, hi⟩ | ⟨i, rfl, hi⟩
    · omega
    · have := hinner.parent_lt hi
      omega
    · have := hrest.parent_lt hi
      omega
  nested := by
    intro j k p q hp hq hlt' hle
    -- by the later node: inside the element all parents are from `next` on, behind it they are
    -- `outer` or behind it too
    rcases getElem?_element_cases hp with ⟨rfl, rfl⟩ | ⟨i, rfl, hi, hin⟩ | ⟨i, rfl, hbehind⟩
    · rcases getElem?_element_cases hq with ⟨-, rfl⟩ | ⟨l, hl, -, -⟩ | ⟨l, hl, -⟩ <;> omega
    · have hge := hinner.outer_or_le hin
      rcases getElem?_element_cases hq with ⟨rfl, -⟩ | ⟨l, rfl, -, hl⟩ | ⟨l, rfl, -⟩
      · omega
      · exact hinner.nested hin hl (by omega) (by omega)
      · omega
    · rcases hrest.outer_or_le hbehind with rfl | hge
      · rcases getElem?_element_cases hq with ⟨-, rfl⟩ | ⟨l, -, -, hl⟩ | ⟨l, -, hl⟩
        · omega
        · have := hinner.outer_or_le hl
          omega
        · have := hrest.outer_or_le hl
          omega
      · rcases getElem?_element_cases hq with ⟨rfl, -⟩ | ⟨l, rfl, hin, -⟩ | ⟨l, rfl, hl⟩
        · omega
        · omega
        · exact hrest.nested hbehind hl (by omega) (by omega)

theorem numberedFrom_entriesOf (o : Options) (content : Content StartTag) :
    ∀ outer next : Nat, outer < next →
      NumberedFrom outer next ((entriesOf o outer next content).map (·.parent)) := by
  induction content with
  | done => intro outer next _; exact numberedFrom_nil outer next
  | text _ rest ih => exact ih
  | comment _ rest ih => exact ih
  | instruction _ rest ih => exact ih
  | element tag body rest ihbody ihrest =>
    intro outer next hlt
    rw [entriesOf]
    split_ifs
    · exact ihrest outer next hlt
    · have hinner := ihbody next (next + 1) (by omega)
      have hrest := ihrest outer (next + 1 + (entriesOf o next (next + 1) body).length) (by omega)
      rw [List.map_append, List.map_cons]
      exact numberedFrom_element hlt hinner (by rwa [List.length_map])

theorem parent?_ofElement (o : Options) (e : Element) {i p : Nat} :
    (Reading.ofElement o e).tree.parent? i = some p ↔
      ∃ k, i = k + 1 ∧ ((entriesOf o 0 1 e.body).map (·.parent))[k]? = some p := by
  cases i with
  | zero => simp [Tree.parent?, Tree.entry?]
  | succ k => simp [Tree.parent?, Tree.entry?, Reading.ofElement]

theorem preordered_ofElement (o : Options) (e : Element) :
    (Reading.ofElement o e).tree.Preordered := by
  have hentries := numberedFrom_entriesOf o e.body 0 1 (by omega)
  constructor
  · intro i p h
    obtain ⟨k, rfl, hk⟩ := (parent?_ofElement o e).1 h
    have := hentries.parent_lt hk
    omega
  · intro i j p q hj hi hlt hle
    obtain ⟨k, rfl, hk⟩ := (parent?_ofElement o e).1 hj
    obtain ⟨l, rfl, hl⟩ := (parent?_ofElement o e).1 hi
    exact hentries.nested hk hl (by omega) (by omega)

/-! ## Nodes below a node -/

namespace Tree

/-- A node is below another or is it: going from parent to parent leads there. -/
abbrev Descends (t : Tree) : Nat → Nat → Prop :=
  Relation.ReflTransGen fun p i => t.parent? i = some p

theorem lt_size_of_parent? {t : Tree} {i p : Nat} (h : t.parent? i = some p) : i < t.size := by
  cases i with
  | zero => cases h
  | succ k =>
    simp only [parent?, entry?, Option.map_eq_some_iff] at h
    obtain ⟨entry, hentry, -⟩ := h
    have hk := (Array.getElem?_eq_some_iff.1 hentry).1
    unfold size
    omega

theorem exists_parent?_of_lt_size {t : Tree} {i : Nat} (hpos : 0 < i) (h : i < t.size) :
    ∃ q, t.parent? i = some q := by
  obtain ⟨k, rfl⟩ : ∃ k, i = k + 1 := ⟨i - 1, by omega⟩
  have hk : k < t.entries.size := by
    unfold size at h
    omega
  exact ⟨_, by rw [parent?, entry?, Array.getElem?_eq_getElem hk, Option.map_some]⟩

theorem lt_size_of_descends {t : Tree} {a d : Nat} (ha : a < t.size) (h : t.Descends a d) :
    d < t.size := by
  rcases Relation.ReflTransGen.cases_tail h with rfl | ⟨p, -, hp⟩
  · exact ha
  · exact lt_size_of_parent? hp

theorem le_of_descends {t : Tree} (hparent : ∀ {i p : Nat}, t.parent? i = some p → p < i)
    {a d : Nat} (h : t.Descends a d) : a ≤ d := by
  induction h with
  | refl => exact Nat.le_refl a
  | tail _ hstep ih =>
    have := hparent hstep
    omega

/-- Two nodes above one node are one above the other. -/
theorem descends_or_descends {t : Tree} {a b d : Nat} (ha : t.Descends a d) (hb : t.Descends b d) :
    t.Descends a b ∨ t.Descends b a := by
  have hunique : Relator.RightUnique (Function.swap fun p i : Nat => t.parent? i = some p) := by
    intro i p q hp hq
    exact Option.some.inj ((hp : t.parent? i = some p).symm.trans hq)
  have hup := Relation.ReflTransGen.total_of_right_unique hunique
    (Relation.reflTransGen_swap.2 ha) (Relation.reflTransGen_swap.2 hb)
  exact hup.symm.imp Relation.reflTransGen_swap.1 Relation.reflTransGen_swap.1

/-- One node comes before another that is not below it. -/
structure Apart (t : Tree) (a b : Nat) : Prop where
  lt : a < b
  not_descends : ¬ t.Descends a b

namespace Preordered

variable {t : Tree} (ht : t.Preordered)

include ht

theorem le_of_descends {a d : Nat} (h : t.Descends a d) : a ≤ d :=
  Tree.le_of_descends ht.parent_lt h

/-- The nodes between a node and a child of it are below it. -/
theorem descends_of_between {c d i : Nat} (h : t.parent? d = some c) (hlt : c < i) (hle : i ≤ d) :
    t.Descends c i := by
  induction i using Nat.strongRecOn with
  | ind i ih =>
    obtain ⟨q, hq⟩ := exists_parent?_of_lt_size (by omega)
      (Nat.lt_of_le_of_lt hle (lt_size_of_parent? h))
    have hqi := ht.parent_lt hq
    have hcq := ht.nested h hq hlt hle
    rcases Nat.eq_or_lt_of_le hcq with rfl | hcq
    · exact .single hq
    · exact (ih q hqi hcq (by omega)).tail hq

/-- What is below a node comes before every later node that is not below it. -/
theorem lt_of_descends {a b d : Nat} (hab : t.Apart a b) (h : t.Descends a d) : d < b := by
  induction h with
  | refl => exact hab.lt
  | @tail c d hac hparent ih =>
    rcases Nat.lt_or_ge d b with hlt | hge
    · exact hlt
    · exact absurd (hac.trans (ht.descends_of_between hparent ih hge)) hab.not_descends

theorem apart_of_descends {a b x y : Nat} (hab : t.Apart a b) (hx : t.Descends a x)
    (hy : t.Descends b y) : t.Apart x y where
  lt := by
    have := ht.lt_of_descends hab hx
    have := ht.le_of_descends hy
    omega
  not_descends hxy := by
    rcases descends_or_descends (hx.trans hxy) hy with h | h
    · exact hab.not_descends h
    · have := ht.le_of_descends h
      have := hab.lt
      omega

/-- Lists of nodes below nodes that stand apart are joined to one list of nodes that stand apart. -/
theorem apart_flatMap {ids : List Nat} {f : Nat → List Nat} (hids : ids.Pairwise t.Apart)
    (hf : ∀ a ∈ ids, (f a).Pairwise t.Apart) (hbelow : ∀ a ∈ ids, ∀ x ∈ f a, t.Descends a x) :
    (ids.flatMap f).Pairwise t.Apart := by
  rw [List.pairwise_flatMap]
  refine ⟨hf, hids.imp_of_mem fun ha hb hab x hx y hy => ?_⟩
  exact ht.apart_of_descends hab (hbelow _ ha x hx) (hbelow _ hb y hy)

end Preordered

/-! ## Children and owned nodes -/

theorem mem_children {t : Tree} {id i : Nat} (h : i ∈ t.children id) :
    t.parent? i = some (t.resolve id) := by
  simp only [children, List.mem_filter, beq_iff_eq] at h
  exact h.2

theorem pairwise_lt_children (t : Tree) (id : Nat) : (t.children id).Pairwise (· < ·) :=
  (List.pairwise_lt_range' 1).filter _

theorem mem_childrenOfKind_iff {t : Tree} {id i : Nat} {kind : String} :
    i ∈ t.childrenOfKind id kind ↔ i ∈ t.children id ∧ (t.node i).kind = kind := by
  rw [childrenOfKind, List.mem_filter, beq_iff_eq]

theorem mem_childrenOfKind {t : Tree} {id i : Nat} {kind : String}
    (h : i ∈ t.childrenOfKind id kind) : i ∈ t.children id ∧ (t.node i).kind = kind :=
  mem_childrenOfKind_iff.1 h

theorem resolve_eq {t : Tree} {id : Nat} (h : id < t.size) : t.resolve id = id := by
  simp [resolve, h]

/-- An owned node is of the wanted kind, and a child of its owner or of a group in it. -/
theorem mem_owned {t : Tree} {wrapper kind : String} {id i : Nat} (h : i ∈ t.owned wrapper kind id) :
    (t.node i).kind = kind ∧
      (i ∈ t.children id ∨ ∃ g ∈ t.children id, (t.node g).kind = wrapper ∧ i ∈ t.children g) := by
  simp only [owned, List.mem_flatMap] at h
  obtain ⟨c, hc, hi⟩ := h
  split_ifs at hi with hkind hwrapper
  · obtain rfl := List.mem_singleton.1 hi
    exact ⟨by simpa using hkind, Or.inl hc⟩
  · obtain ⟨hchild, hkind'⟩ := mem_childrenOfKind hi
    exact ⟨hkind', Or.inr ⟨c, hc, by simpa using hwrapper, hchild⟩⟩
  · cases hi

theorem descends_of_mem_children {t : Tree} {id i : Nat} (hid : id < t.size)
    (h : i ∈ t.children id) : t.Descends id i := by
  have hparent := mem_children h
  rw [resolve_eq hid] at hparent
  exact .single hparent

theorem lt_size_of_mem_children {t : Tree} {id i : Nat} (h : i ∈ t.children id) : i < t.size :=
  lt_size_of_parent? (mem_children h)

theorem descends_of_mem_owned {t : Tree} {wrapper kind : String} {id i : Nat} (hid : id < t.size)
    (h : i ∈ t.owned wrapper kind id) : t.Descends id i := by
  rcases (mem_owned h).2 with hi | ⟨g, hg, -, hi⟩
  · exact descends_of_mem_children hid hi
  · exact (descends_of_mem_children hid hg).trans
      (descends_of_mem_children (lt_size_of_mem_children hg) hi)

theorem lt_size_of_mem_owned {t : Tree} {wrapper kind : String} {id i : Nat}
    (h : i ∈ t.owned wrapper kind id) : i < t.size := by
  rcases (mem_owned h).2 with hi | ⟨g, -, -, hi⟩
  · exact lt_size_of_mem_children hi
  · exact lt_size_of_mem_children hi

namespace Preordered

variable {t : Tree} (ht : t.Preordered)

include ht

theorem lt_of_mem_children {id i : Nat} (hid : id < t.size) (h : i ∈ t.children id) : id < i := by
  have hparent := mem_children h
  rw [resolve_eq hid] at hparent
  exact ht.parent_lt hparent

theorem lt_of_mem_owned {wrapper kind : String} {id i : Nat} (hid : id < t.size)
    (h : i ∈ t.owned wrapper kind id) : id < i := by
  rcases (mem_owned h).2 with hi | ⟨g, hg, -, hi⟩
  · exact ht.lt_of_mem_children hid hi
  · have := ht.lt_of_mem_children hid hg
    have := ht.lt_of_mem_children (lt_size_of_mem_children hg) hi
    omega

theorem apart_children (id : Nat) : (t.children id).Pairwise t.Apart := by
  refine (pairwise_lt_children t id).imp_of_mem fun {i j} hi hj hij => ⟨hij, fun hdescends => ?_⟩
  have hpi := ht.parent_lt (mem_children hi)
  rcases (Relation.ReflTransGen.cases_tail_iff _ _ _).1 hdescends with rfl | ⟨p, hip, hpj⟩
  · omega
  · have hle := ht.le_of_descends hip
    rw [mem_children hj] at hpj
    obtain rfl := Option.some.inj hpj
    omega

theorem apart_childrenOfKind (id : Nat) (kind : String) :
    (t.childrenOfKind id kind).Pairwise t.Apart :=
  (ht.apart_children id).filter _

/-- The things of one kind that a node owns stand apart from each other, in document order. -/
theorem apart_owned (wrapper kind : String) (id : Nat) :
    (t.owned wrapper kind id).Pairwise t.Apart := by
  refine ht.apart_flatMap (ht.apart_children id) (fun c _ => ?_) (fun c hc x hx => ?_)
  · split_ifs
    · exact List.pairwise_singleton _ _
    · exact ht.apart_childrenOfKind c kind
    · exact .nil
  · split_ifs at hx
    · obtain rfl := List.mem_singleton.1 hx
      exact .refl
    · exact descends_of_mem_children (lt_size_of_mem_children hc) (mem_childrenOfKind hx).1
    · cases hx

theorem pairwise_lt_executablesOf (id : Nat) : (t.executablesOf id).Pairwise (· < ·) :=
  (ht.apart_owned _ _ id).imp fun hapart => hapart.lt

end Preordered

/-! ## Descendants -/

section Descendants

variable {t : Tree} (hparent : ∀ {i p : Nat}, t.parent? i = some p → p < i)

include hparent

theorem mem_children_iff {id i : Nat} (hid : id < t.size) :
    i ∈ t.children id ↔ t.parent? i = some id := by
  refine ⟨fun h => resolve_eq hid ▸ mem_children h, fun h => ?_⟩
  have hlt := hparent h
  have hsize := lt_size_of_parent? h
  simp only [children, resolve_eq hid, List.mem_filter, List.mem_range'_1, h, beq_self_eq_true,
    and_true]
  omega

/-- What is listed below a node is below it. -/
theorem descends_of_mem_descendantsWithin {depth id i : Nat} (hid : id < t.size)
    (h : i ∈ t.descendantsWithin depth id) : t.Descends id i ∧ id < i := by
  induction depth generalizing id with
  | zero => cases h
  | succ depth ih =>
    obtain ⟨c, hc, hi⟩ := List.mem_flatMap.1 h
    have hchild := (mem_children_iff hparent hid).1 hc
    have hlt := hparent hchild
    rcases List.mem_cons.1 hi with rfl | hi
    · exact ⟨.single hchild, hlt⟩
    · obtain ⟨hdescends, hlt'⟩ := ih (lt_size_of_parent? hchild) hi
      exact ⟨.head hchild hdescends, by omega⟩

/-- What is below a node is listed, if the depth allows for all numbers between the two. -/
theorem mem_descendantsWithin_of_descends {depth id i : Nat} (h : t.Descends id i) (hlt : id < i)
    (hdepth : i ≤ id + depth) : i ∈ t.descendantsWithin depth id := by
  induction depth generalizing id with
  | zero => omega
  | succ depth ih =>
    rcases Relation.ReflTransGen.cases_head h with rfl | ⟨c, hchild, hrest⟩
    · omega
    · have hc := hparent hchild
      have hid : id < t.size := Nat.lt_trans hc (lt_size_of_parent? hchild)
      refine List.mem_flatMap.2 ⟨c, (mem_children_iff hparent hid).2 hchild, ?_⟩
      have hle := le_of_descends hparent hrest
      rcases Nat.eq_or_lt_of_le hle with rfl | hci
      · exact List.mem_cons_self
      · exact List.mem_cons_of_mem _ (ih hrest hci (by omega))

theorem mem_descendants_iff {id i : Nat} (hid : id < t.size) :
    i ∈ t.descendants id ↔ t.Descends id i ∧ id < i := by
  refine ⟨descends_of_mem_descendantsWithin hparent hid, fun ⟨h, hlt⟩ => ?_⟩
  have hsize := lt_size_of_descends hid h
  exact mem_descendantsWithin_of_descends hparent h hlt (by omega)

end Descendants

namespace Preordered

variable {t : Tree} (ht : t.Preordered)

include ht

theorem pairwise_lt_descendantsWithin {depth id : Nat} (hid : id < t.size) :
    (t.descendantsWithin depth id).Pairwise (· < ·) := by
  induction depth generalizing id with
  | zero => exact .nil
  | succ depth ih =>
    have hbelow : ∀ c ∈ t.children id, ∀ i ∈ t.descendantsWithin depth c, t.Descends c i ∧ c < i :=
      fun c hc i hi => descends_of_mem_descendantsWithin ht.parent_lt (lt_size_of_mem_children hc) hi
    have hinside : ∀ c ∈ t.children id, ∀ i ∈ c :: t.descendantsWithin depth c, t.Descends c i := by
      intro c hc i hi
      rcases List.mem_cons.1 hi with rfl | hi
      · exact .refl
      · exact (hbelow c hc i hi).1
    refine List.pairwise_flatMap.2 ⟨fun c hc => ?_, ?_⟩
    · exact List.pairwise_cons.2 ⟨fun i hi => (hbelow c hc i hi).2,
        ih (lt_size_of_mem_children hc)⟩
    · refine (ht.apart_children id).imp_of_mem fun {a b} ha hb hab i hi j hj => ?_
      exact (ht.apart_of_descends hab (hinside a ha i hi) (hinside b hb j hj)).lt

/-- The nodes below a node are listed in document order. -/
theorem descendants_eq_range' {id count : Nat} (hid : id < t.size)
    (h : ∀ i, t.Descends id i ∧ id < i ↔ id < i ∧ i ≤ id + count) :
    t.descendants id = List.range' (id + 1) count := by
  refine (ht.pairwise_lt_descendantsWithin hid).eq_of_mem_iff (List.pairwise_lt_range' 1)
    fun i => ?_
  rw [← descendants, mem_descendants_iff ht.parent_lt hid, h, List.mem_range'_1]
  omega

theorem descends_root {i : Nat} (h : i < t.size) : t.Descends 0 i := by
  induction i using Nat.strongRecOn with
  | ind i ih =>
    cases i with
    | zero => exact .refl
    | succ i =>
      obtain ⟨p, hp⟩ := exists_parent?_of_lt_size (Nat.succ_pos i) h
      have hlt := ht.parent_lt hp
      exact (ih p hlt (by omega)).tail hp

theorem descendants_root : t.descendants 0 = List.range' 1 (t.size - 1) := by
  have hsize : 0 < t.size := Nat.succ_pos _
  refine ht.descendants_eq_range' hsize fun i => ?_
  constructor
  · rintro ⟨h, hpos⟩
    have := lt_size_of_descends hsize h
    omega
  · rintro ⟨hpos, hle⟩
    exact ⟨ht.descends_root (by omega), hpos⟩

end Preordered

end Tree

/-! ## The executables at the top -/

theorem mem_executables {t : Tree} {i : Nat} (h : i ∈ (Layout.ofTree t).executables) :
    i < t.size ∧ (t.node i).kind = executableKind := by
  simp only [Layout.ofTree] at h
  split at h
  · obtain ⟨g, -, hi⟩ := List.mem_flatMap.1 h
    obtain ⟨hi, hkind⟩ := Tree.mem_childrenOfKind hi
    exact ⟨Tree.lt_size_of_mem_children hi, hkind⟩
  · obtain ⟨hi, hkind⟩ := Tree.mem_childrenOfKind h
    exact ⟨Tree.lt_size_of_mem_children hi, hkind⟩

theorem Tree.Preordered.apart_executables {t : Tree} (ht : t.Preordered) :
    (Layout.ofTree t).executables.Pairwise t.Apart := by
  simp only [Layout.ofTree]
  split
  · refine ht.apart_flatMap (ht.apart_childrenOfKind 0 _)
      (fun g _ => ht.apart_childrenOfKind g _) (fun g hg x hx => ?_)
    exact Tree.descends_of_mem_children (Tree.lt_size_of_mem_children (Tree.mem_childrenOfKind hg).1)
      (Tree.mem_childrenOfKind hx).1
  · exact ht.apart_childrenOfKind 0 _

end SsisCompiler.Package
