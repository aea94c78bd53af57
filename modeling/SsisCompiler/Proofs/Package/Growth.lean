import Mathlib.Data.List.Induction
import SsisCompiler.Proofs.Package.Walks

/-!
# Trees that grow

A tree is made from its root by entering nodes one after the other. `Tree.Reached` is what can be
reached so, under a condition on the number that a node is entered under.

If only numbers of nodes in the tree are used, the links up and down agree and every walk ends. A number
that no node has yet is kept, and a later node may get it. Going up from there then goes on, and
`Tree.LeavesOpen` says when that leads round in a circle.

Results:
* `children_add_of_lt`, `children_add_size`: what entering a node does to the lists of children.
* `reached_has_iff`: the trees reached by entering nodes under nodes are those in which parents come
  before their children.
* `reached_ofElement`: a tree that was read is one of them.
* `links_agree`: a tree reached by entering nodes under nodes is well-formed.
* `exists_climbs_add_iff`, `reached_leavesOpen_iff`: when all ways up end.
* `add_of_size_le`: what entering a node under a number that is not in the tree does.
-/

namespace SsisCompiler.Package

namespace Tree

/-- A tree made from a root by entering nodes, each under a number that is allowed in the tree
before. -/
inductive Reached (allowed : Tree → Nat → Prop) : Tree → Prop
  | root (node : Node) : Reached allowed { root := node }
  | add {t : Tree} {parent : Nat} (node : Node) (ht : Reached allowed t)
      (hparent : allowed t parent) : Reached allowed (t.add parent node)

/-- A number that a node of the tree has. -/
def Has (t : Tree) (id : Nat) : Prop := id < t.size

/-- Any number. -/
def Any (_ : Tree) (_ : Nat) : Prop := True

/-- A number from which no way up leads to the number that the next node gets. -/
def LeavesOpen (t : Tree) (id : Nat) : Prop := t.size ∉ id :: t.ancestors id

instance (t : Tree) (id : Nat) : Decidable (t.Has id) := Nat.decLt id t.size

instance (t : Tree) (id : Nat) : Decidable (t.LeavesOpen id) := inferInstanceAs (Decidable (_ ∉ _))

/-! ## One node more -/

section Add

variable (t : Tree) (parent : Nat) (node : Node)

theorem size_add : (t.add parent node).size = t.size + 1 := by
  simp [size, add]

theorem parent?_add_size : (t.add parent node).parent? t.size = some parent := by
  simp [parent?, entry?, add, size]

theorem parent?_size : t.parent? t.size = none := by
  simp [parent?, entry?, size]

theorem parent?_add_of_ne {i : Nat} (h : i ≠ t.size) :
    (t.add parent node).parent? i = t.parent? i := by
  cases i with
  | zero => rfl
  | succ i =>
    have hne : i ≠ t.entries.size := fun heq => h (congrArg (· + 1) heq)
    simp only [parent?, entry?, add, Array.getElem?_push, if_neg hne]

/-- A way up by one step stays when a node is entered. -/
theorem parent?_add_of_parent? {i p : Nat} (h : t.parent? i = some p) :
    (t.add parent node).parent? i = some p := by
  rw [parent?_add_of_ne t parent node (Nat.ne_of_lt (lt_size_of_parent? h)), h]

/-- The entered node is put behind the children of its parent, and no other list of children changes. -/
theorem children_add_of_lt {i : Nat} (h : i < t.size) :
    (t.add parent node).children i =
      if parent = i then t.children i ++ [t.size] else t.children i := by
  have hi : i < (t.add parent node).size := by
    rw [size_add]
    omega
  have hold : (List.range' i (t.size - i)).filter
        (fun j => (t.add parent node).parent? j == some i) =
      (List.range' i (t.size - i)).filter (fun j => t.parent? j == some i) := by
    refine List.filter_congr fun j hj => ?_
    rw [List.mem_range'_1] at hj
    rw [parent?_add_of_ne t parent node (by omega)]
  have hsize : t.size + 1 - i = t.size - i + 1 := by omega
  have hlast : i + (t.size - i) = t.size := by omega
  simp only [children, resolve_eq h, resolve_eq hi, size_add, hsize, List.range'_1_concat, hlast,
    List.filter_append, hold, List.filter_singleton, parent?_add_size, Option.some_beq_some,
    Bool.cond_eq_ite, beq_iff_eq]
  split_ifs
  · rfl
  · rw [List.append_nil]

/-- The entered node has no children, unless it was entered under its own number. -/
theorem children_add_size :
    (t.add parent node).children t.size = if parent = t.size then [t.size] else [] := by
  have hsize : t.size < (t.add parent node).size := by
    rw [size_add]
    exact Nat.lt_succ_self _
  simp only [children, resolve_eq hsize, size_add, Nat.add_sub_cancel_left, List.range'_one,
    List.filter_singleton, parent?_add_size, Option.some_beq_some, Bool.cond_eq_ite, beq_iff_eq]

end Add

/-! ## Nodes entered under nodes -/

/-- Entering a node under a node of the tree keeps parents before their children. -/
theorem parent_lt_add {t : Tree} {parent : Nat} (node : Node) (hparent : parent < t.size)
    (ht : ∀ {i p : Nat}, t.parent? i = some p → p < i) {i p : Nat}
    (h : (t.add parent node).parent? i = some p) : p < i := by
  rcases Nat.decEq i t.size with hne | rfl
  · rw [parent?_add_of_ne t parent node hne] at h
    exact ht h
  · rw [parent?_add_size] at h
    obtain rfl := Option.some.inj h
    exact hparent

theorem Reached.parent_lt {t : Tree} (ht : t.Reached Has) {i p : Nat} (h : t.parent? i = some p) :
    p < i := by
  induction ht generalizing i p with
  | root node => cases i <;> cases h
  | add node _ hparent ih => exact parent_lt_add node hparent ih h

/-- Entering the nodes of a tree again, in the order of their numbers. -/
theorem reached_of_parent_lt (root : Node) (entries : List Entry)
    (h : ∀ {i p : Nat}, parent? ⟨root, entries.toArray⟩ i = some p → p < i) :
    Reached Has ⟨root, entries.toArray⟩ := by
  induction entries using List.reverseRecOn with
  | nil => exact .root root
  | append_singleton entries last ih =>
    have hadd : (⟨root, (entries ++ [last]).toArray⟩ : Tree) =
        add ⟨root, entries.toArray⟩ last.parent last.node := by
      simp [add]
    rw [hadd] at h ⊢
    exact .add last.node (ih fun hp => h (parent?_add_of_parent? _ _ _ hp))
      (h (parent?_add_size _ _ _))

theorem reached_has_iff {t : Tree} :
    t.Reached Has ↔ ∀ {i p : Nat}, t.parent? i = some p → p < i :=
  ⟨fun ht _ _ h => ht.parent_lt h, fun h => reached_of_parent_lt t.root t.entries.toList h⟩

/-- The nodes of a tree that was read can be entered one after the other, each under a node. -/
theorem reached_ofElement (o : Options) (e : Markup.Element) :
    (Reading.ofElement o e).tree.Reached Has :=
  reached_has_iff.2 (preordered_ofElement o e).parent_lt

theorem getElem?_siblingIndex {t : Tree} {i p : Nat} (hp : t.parent? i = some p)
    (h : i ∈ t.children p) : (t.children p)[t.siblingIndex i]? = some i := by
  simp only [siblingIndex, hp]
  cases hindex : (t.children p).idxOf? i with
  | none => exact absurd h (List.idxOf?_eq_none_iff.1 hindex)
  | some k =>
    obtain ⟨hk, hget, -⟩ := List.idxOf?_eq_some_iff.1 hindex
    exact List.getElem?_eq_some_iff.2 ⟨hk, hget⟩

/-- The last number on the way up from a node of the tree is the root's. -/
theorem Climbs.getLast?_eq {t : Tree} (ht : t.Reached Has) {id : Nat} {out : List Nat}
    (h : t.Climbs id out) (hid : id < t.size) : (id :: out).getLast? = some 0 := by
  induction h with
  | @top id hnone =>
    cases id with
    | zero => rfl
    | succ id =>
      obtain ⟨p, hp⟩ := exists_parent?_of_lt_size (Nat.succ_pos id) hid
      rw [hnone] at hp
      cases hp
  | up hp _ ih =>
    rw [List.getLast?_cons_cons]
    exact ih (Nat.lt_trans (ht.parent_lt hp) hid)

/-- A tree in which every node was entered under a node is well-formed. The root has no parent; every
other node has a parent with a smaller number, and stands once among the children of that parent, at its
place there, and among no other children. Going up from a node ends, by ever smaller numbers, at the
root. The visit of what is below a node ends too; it lists the children, each followed by what is below
it, and lists no node twice. And a node is below another exactly if the other is above it. -/
theorem links_agree {t : Tree} (ht : t.Reached Has) :
    t.parent? 0 = none ∧
    (∀ i, 0 < i → i < t.size → ∃ p, t.parent? i = some p ∧ p < i ∧
      (t.children p).count i = 1 ∧ (∀ q, q < t.size → q ≠ p → i ∉ t.children q) ∧
      (t.children p)[t.siblingIndex i]? = some i) ∧
    ∀ i, i < t.size →
      t.Climbs i (t.ancestors i) ∧
      (i :: t.ancestors i).Pairwise (· > ·) ∧
      (i :: t.ancestors i).getLast? = some 0 ∧
      t.Walks (t.children i) (t.descendants i) ∧
      t.descendants i = (t.children i).flatMap (fun c => c :: t.descendants c) ∧
      (t.descendants i).Nodup ∧
      ∀ x, x ∈ t.descendants i ↔ i ∈ t.ancestors x := by
  have hlt : ∀ {i p : Nat}, t.parent? i = some p → p < i := ht.parent_lt
  refine ⟨rfl, fun i hpos hi => ?_, fun i hi => ?_⟩
  · obtain ⟨p, hp, hpi, hmem⟩ := exists_mem_children hlt hpos hi
    have hnodup : (t.children p).Nodup := (pairwise_lt_children t p).imp Nat.ne_of_lt
    refine ⟨p, hp, hpi, List.count_eq_one_of_mem hnodup hmem, ?_, getElem?_siblingIndex hp hmem⟩
    intro q hq hne hmem'
    rw [mem_children_iff hlt hq, hp] at hmem'
    exact hne (Option.some.inj hmem').symm
  · have hclimbs := climbs_ancestors hlt i
    have hne := parent?_ne_self hlt i
    exact ⟨hclimbs, hclimbs.pairwise_gt hlt, hclimbs.getLast?_eq ht hi, walks_descendants hne,
      descendants_eq_flatMap hne, nodup_descendants hlt i,
      fun x => mem_descendants_iff_mem_ancestors hlt hi⟩

/-- A tree in which a node gets a second child after another node got one. -/
def grownTree : Tree :=
  (((Tree.add { root := { kind := "a" } } 0 { kind := "b" }).add 1 { kind := "c" }).add 0
    { kind := "d" }).add 1 { kind := "e" }

/-- The children of a node stand together though one was entered later. -/
theorem links_agree_grownTree :
    grownTree.Reached Has ∧ grownTree.descendants 0 = [1, 2, 4, 3] ∧
      grownTree.Walks (grownTree.children 0) [1, 2, 4, 3] ∧ grownTree.Climbs 4 [1, 0] ∧
      (grownTree.children 1)[grownTree.siblingIndex 4]? = some 4 ∧
      (4 ∈ grownTree.descendants 0 ↔ 0 ∈ grownTree.ancestors 4) := by
  have ht : grownTree.Reached Has :=
    .add _ (.add _ (.add _ (.add _ (.root _) (by decide)) (by decide)) (by decide)) (by decide)
  have hdescendants : grownTree.descendants 0 = [1, 2, 4, 3] := by decide
  have hancestors : grownTree.ancestors 4 = [1, 0] := by decide
  obtain ⟨-, hlinks, hwalks⟩ := links_agree ht
  obtain ⟨p, hp, -, -, -, hindex⟩ := hlinks 4 (by decide) (by decide)
  obtain rfl : p = 1 := Option.some.inj (hp.symm.trans (by decide))
  obtain ⟨-, -, -, hwalk, -, -, hmem⟩ := hwalks 0 (by decide)
  obtain ⟨hclimb, -⟩ := hwalks 4 (by decide)
  rw [hdescendants] at hwalk
  rw [hancestors] at hclimb
  exact ⟨ht, hdescendants, hwalk, hclimb, hindex, hmem 4⟩

/-! ## Nodes entered under any number -/

/-- A way up stays when a node is entered. -/
theorem Above.add {t : Tree} {a i : Nat} (h : t.Above a i) (parent : Nat) (node : Node) :
    (t.add parent node).Above a i :=
  Relation.TransGen.mono (fun _ _ hstep => parent?_add_of_parent? t parent node hstep) a i h

/-- A way up that ends before the number of the entered node ends there still. -/
theorem Climbs.add {t : Tree} {i : Nat} {out : List Nat} (h : t.Climbs i out)
    (hfree : t.size ∉ i :: out) (parent : Nat) (node : Node) : (t.add parent node).Climbs i out := by
  induction h with
  | top hnone =>
    refine .top ?_
    rwa [parent?_add_of_ne t parent node fun heq => hfree (by simp [heq])]
  | up hp _ ih =>
    exact .up (parent?_add_of_parent? t parent node hp) (ih (List.not_mem_of_not_mem_cons hfree))

/-- A way up that ends after a node was entered ended before. -/
theorem exists_climbs_of_add {t : Tree} {parent : Nat} {node : Node} {i : Nat} {out : List Nat}
    (h : (t.add parent node).Climbs i out) : ∃ out', t.Climbs i out' := by
  induction h with
  | @top i hnone =>
    rcases Nat.decEq i t.size with hne | rfl
    · rw [parent?_add_of_ne t parent node hne] at hnone
      exact ⟨[], .top hnone⟩
    · exact ⟨[], .top (parent?_size t)⟩
  | @up i p out hp _ ih =>
    rcases Nat.decEq i t.size with hne | rfl
    · rw [parent?_add_of_ne t parent node hne] at hp
      obtain ⟨out', hout'⟩ := ih
      exact ⟨p :: out', .up hp hout'⟩
    · exact ⟨[], .top (parent?_size t)⟩

/-- If going up from the number that a node is entered under leads to the node's own number, the node is
above itself. -/
theorem above_size_of_not_leavesOpen {t : Tree} {parent : Nat} (node : Node) {out : List Nat}
    (hout : t.Climbs parent out) (h : ¬ t.LeavesOpen parent) :
    (t.add parent node).Above t.size t.size := by
  rw [LeavesOpen, not_not, ← hout.eq_ancestors, List.mem_cons, hout.mem_iff] at h
  exact (above_iff (parent?_add_size t parent node)).2 (h.imp_right fun h => h.add parent node)

/-- What one entered node does: all ways up end afterwards if they did before and none is closed. -/
theorem exists_climbs_add_iff (t : Tree) (parent : Nat) (node : Node) :
    (∀ i, ∃ out, (t.add parent node).Climbs i out) ↔
      (∀ i, ∃ out, t.Climbs i out) ∧ t.LeavesOpen parent := by
  constructor
  · intro h
    have hold : ∀ i, ∃ out, t.Climbs i out := by
      intro i
      obtain ⟨out, hout⟩ := h i
      exact exists_climbs_of_add hout
    refine ⟨hold, ?_⟩
    by_contra hclosed
    obtain ⟨out, hout⟩ := hold parent
    obtain ⟨out', hout'⟩ := h t.size
    exact hout'.not_above (above_size_of_not_leavesOpen node hout hclosed)
  · rintro ⟨hold, hopen⟩ i
    -- only ways up that ended at the entered node's number go on, and they go on as those of its parent
    obtain ⟨out, hout⟩ := hold parent
    rw [LeavesOpen, ← hout.eq_ancestors] at hopen
    have hnew := Climbs.up (parent?_add_size t parent node) (hout.add hopen parent node)
    obtain ⟨out', hout'⟩ := hold i
    induction hout' with
    | @top i hnone =>
      rcases Nat.decEq i t.size with hne | rfl
      · rw [← parent?_add_of_ne t parent node hne] at hnone
        exact ⟨[], .top hnone⟩
      · exact ⟨_, hnew⟩
    | @up i p _ hp _ ih =>
      obtain ⟨rest, hrest⟩ := ih
      exact ⟨p :: rest, .up (parent?_add_of_parent? t parent node hp) hrest⟩

theorem climbs_root (node : Node) (i : Nat) : Climbs { root := node } i [] := by
  refine .top ?_
  cases i <;> rfl

/-- All ways up end exactly in the trees that are reached without closing one. -/
theorem reached_leavesOpen_iff {t : Tree} (ht : t.Reached Any) :
    t.Reached LeavesOpen ↔ ∀ i, ∃ out, t.Climbs i out := by
  constructor
  · intro h
    clear ht
    induction h with
    | root node => exact fun i => ⟨[], climbs_root node i⟩
    | @add t parent node _ hopen ih => exact (exists_climbs_add_iff t parent node).2 ⟨ih, hopen⟩
  · intro h
    induction ht with
    | root node => exact .root node
    | @add t parent node _ _ ih =>
      obtain ⟨hold, hopen⟩ := (exists_climbs_add_iff t parent node).1 h
      exact .add node (ih hold) hopen

/-- All ways up end exactly if no node is above itself. -/
theorem exists_climbs_iff_not_above {t : Tree} (ht : t.Reached Any) :
    (∀ i, ∃ out, t.Climbs i out) ↔ ∀ i, ¬ t.Above i i := by
  constructor
  · intro h i
    obtain ⟨out, hout⟩ := h i
    exact hout.not_above
  · intro h
    induction ht with
    | root node => exact fun i => ⟨[], climbs_root node i⟩
    | @add t parent node _ _ ih =>
      have hold := ih fun i hi => h i (hi.add parent node)
      refine (exists_climbs_add_iff t parent node).2 ⟨hold, ?_⟩
      by_contra hclosed
      obtain ⟨out, hout⟩ := hold parent
      exact h t.size (above_size_of_not_leavesOpen node hout hclosed)

theorem leavesOpen_iff_of_size_le {t : Tree} {parent : Nat} (h : t.size ≤ parent) :
    t.LeavesOpen parent ↔ parent ≠ t.size := by
  have hnone := parent?_of_size_le h
  rw [LeavesOpen, ← (Climbs.top hnone).eq_ancestors, List.mem_singleton, ne_comm]

/-- A node entered under a number that is not in the tree leaves every list of children as it was, and
has no children itself unless the number is its own. The visit of what is below a node ends, and lists
the descendants, except at a node that was entered under its own number; only such a node is below
itself. Going up lists the ancestors where it ends. It ends everywhere, and no node is above itself,
exactly if the number is not the node's own and no node entered before it closed a way up. -/
theorem add_of_size_le {t : Tree} (ht : t.Reached Any) (parent : Nat) (hparent : t.size ≤ parent)
    (node : Node) :
    (∀ i, i < t.size → (t.add parent node).children i = t.children i) ∧
    (t.add parent node).children t.size = (if parent = t.size then [t.size] else []) ∧
    (∀ i, (t.add parent node).Holds i i ↔ (t.add parent node).parent? i = some i) ∧
    (∀ i out, (t.add parent node).Walks ((t.add parent node).children i) out ↔
      (t.add parent node).parent? i ≠ some i ∧ out = (t.add parent node).descendants i) ∧
    (∀ i out, (t.add parent node).Climbs i out → out = (t.add parent node).ancestors i) ∧
    ((∀ i, ¬ (t.add parent node).Above i i) ↔ parent ≠ t.size ∧ t.Reached LeavesOpen) ∧
    ((∀ i, ∃ out, (t.add parent node).Climbs i out) ↔ parent ≠ t.size ∧ t.Reached LeavesOpen) := by
  have hends : (∀ i, ∃ out, (t.add parent node).Climbs i out) ↔
      parent ≠ t.size ∧ t.Reached LeavesOpen := by
    rw [exists_climbs_add_iff, ← reached_leavesOpen_iff ht, leavesOpen_iff_of_size_le hparent,
      and_comm]
  refine ⟨fun i hi => ?_, children_add_size t parent node, holds_self_iff, walks_children_iff,
    fun i out h => h.eq_ancestors, ?_, hends⟩
  · rw [children_add_of_lt t parent node hi, if_neg (by omega)]
  · rw [← exists_climbs_iff_not_above (.add node ht trivial), hends]

/-- A tree with a node under a number that no node has, and a node under that one. -/
def strayTree : Tree :=
  (Tree.add { root := { kind := "a" } } 5 { kind := "b" }).add 1 { kind := "c" }

/-- One more node under such a number changes no list of children, and all ways up end. -/
theorem add_of_size_le_strayTree :
    (strayTree.Reached Any ∧ strayTree.size ≤ 7 ∧ strayTree.Reached LeavesOpen) ∧
      (strayTree.add 7 { kind := "d" }).children 1 = strayTree.children 1 ∧
      (strayTree.add 7 { kind := "d" }).children 3 = [] ∧
      (strayTree.add 7 { kind := "d" }).Walks [2] [2] ∧
      (∀ i, ¬ (strayTree.add 7 { kind := "d" }).Above i i) ∧
      ∀ i, ∃ out, (strayTree.add 7 { kind := "d" }).Climbs i out := by
  have ht : strayTree.Reached Any := .add _ (.add _ (.root _) trivial) trivial
  have hopen : strayTree.Reached LeavesOpen := .add _ (.add _ (.root _) (by decide)) (by decide)
  obtain ⟨hchildren, hnew, -, hwalks, -, habove, hclimbs⟩ :=
    add_of_size_le ht 7 (by decide) { kind := "d" }
  exact ⟨⟨ht, by decide, hopen⟩, hchildren 1 (by decide), hnew, (hwalks 1 [2]).2 (by decide),
    habove.2 ⟨by decide, hopen⟩, hclimbs.2 ⟨by decide, hopen⟩⟩

/-- Two nodes, each entered under the number of the other. -/
def crossedTree : Tree :=
  (Tree.add { root := { kind := "a" } } 2 { kind := "b" }).add 1 { kind := "c" }

/-- A node entered under the number that it gets itself is its own child, and neither loop ends there.
Where two nodes stand under each other, each is above itself after the next node too, and going up does
not end. -/
theorem own_child_crossedTree :
    (crossedTree.Reached Any ∧ crossedTree.size ≤ 3) ∧
      (crossedTree.add 3 { kind := "d" }).children 3 = [3] ∧
      (crossedTree.add 3 { kind := "d" }).Holds 3 3 ∧
      (¬ ∃ out, (crossedTree.add 3 { kind := "d" }).Walks
        ((crossedTree.add 3 { kind := "d" }).children 3) out) ∧
      (crossedTree.add 3 { kind := "d" }).Above 3 3 ∧
      (¬ ∃ out, (crossedTree.add 3 { kind := "d" }).Climbs 3 out) ∧
      (crossedTree.add 9 { kind := "d" }).Above 1 1 ∧
      ¬ ∃ out, (crossedTree.add 9 { kind := "d" }).Climbs 1 out := by
  have hown : (crossedTree.add 3 { kind := "d" }).parent? 3 = some 3 := by decide
  have habove : (crossedTree.add 3 { kind := "d" }).Above 3 3 := .single hown
  have hcrossed : (crossedTree.add 9 { kind := "d" }).Above 1 1 :=
    .head (b := 2) (by decide) (.single (by decide))
  refine ⟨⟨.add _ (.add _ (.root _) trivial) trivial, by decide⟩, by decide,
    (holds_self_iff 3).2 hown, ?_, habove, ?_, hcrossed, ?_⟩
  · rintro ⟨out, hout⟩
    exact ((walks_children_iff 3 out).1 hout).1 hown
  · rintro ⟨out, hout⟩
    exact hout.not_above habove
  · rintro ⟨out, hout⟩
    exact hout.not_above hcrossed

end Tree

end SsisCompiler.Package
