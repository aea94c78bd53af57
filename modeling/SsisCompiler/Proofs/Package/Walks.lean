import Mathlib.Data.List.Perm.Subperm
import SsisCompiler.Proofs.Package.DocumentOrder

/-!
# Walks through a tree

Two loops go through a tree. One goes from parent to parent, the other visits what is below a node,
with a stack of the nodes that are still to be visited. Nothing in a loop counts its steps, so whether it
ends is a question about the tree: `Tree.Climbs` and `Tree.Walks` hold of what a loop has listed when it
ends, and of nothing if it does not.

Results:
* `Climbs.eq_ancestors`: what the way up lists, if it ends, are the ancestors.
* `walks_children_iff`: the visit ends except at a node that is its own child, and lists the descendants.
* `induction_on_children`, `bounded_size`: recursion over children, as induction and as an equation for
  what is computed down to a depth.
* `descendants_eq_flatMap`: the descendants of a node are its children, each followed by its own
  descendants.
* `nodup_descendants`, `mem_descendants_iff_mem_ancestors`: if parents have smaller numbers than their
  children, no descendant is listed twice, and the two loops agree on what is below what.
-/

namespace SsisCompiler.Package

namespace Tree

/-! ## The two loops -/

/-- Going from parent to parent ends, and has listed these numbers. -/
inductive Climbs (t : Tree) : Nat → List Nat → Prop
  | top {id : Nat} (hnone : t.parent? id = none) : Climbs t id []
  | up {id parent : Nat} {out : List Nat} (hparent : t.parent? id = some parent)
      (hout : Climbs t parent out) : Climbs t id (parent :: out)

/-- The visit of the nodes on a stack ends, and has listed these numbers. The node on top is taken off
and listed, and its children are put on the stack, the first one on top. -/
inductive Walks (t : Tree) : List Nat → List Nat → Prop
  | done : Walks t [] []
  | visit {id : Nat} {stack out : List Nat} (hout : Walks t (t.children id ++ stack) out) :
      Walks t (id :: stack) (id :: out)

/-- Going up from a node, by at least one step, leads to a number. -/
abbrev Above (t : Tree) : Nat → Nat → Prop :=
  Relation.TransGen fun p i => t.parent? i = some p

/-- Going down from a node, by at least one step, leads to another. -/
abbrev Holds (t : Tree) : Nat → Nat → Prop :=
  Relation.TransGen fun p i => i ∈ t.children p

/-! ## Going up -/

section Up

variable {t : Tree} {id : Nat} {out : List Nat}

theorem descends_iff {a : Nat} : t.Descends a id ↔ id = a ∨ t.Above a id :=
  Relation.reflTransGen_iff_eq_or_transGen

theorem above_iff_exists {a : Nat} :
    t.Above a id ↔ ∃ p, t.Descends a p ∧ t.parent? id = some p :=
  Relation.TransGen.tail'_iff

theorem above_iff {a parent : Nat} (h : t.parent? id = some parent) :
    t.Above a id ↔ a = parent ∨ t.Above a parent := by
  rw [above_iff_exists, eq_comm, ← descends_iff]
  constructor
  · rintro ⟨p, hap, hp⟩
    obtain rfl := Option.some.inj (hp.symm.trans h)
    exact hap
  · intro hap
    exact ⟨parent, hap, h⟩

theorem not_above_of_parent?_eq_none {a : Nat} (h : t.parent? id = none) : ¬ t.Above a id := by
  rw [above_iff_exists]
  rintro ⟨p, -, hp⟩
  rw [h] at hp
  cases hp

namespace Climbs

theorem unique {out' : List Nat} (h : t.Climbs id out) (h' : t.Climbs id out') : out = out' := by
  induction h generalizing out' with
  | top hnone =>
    cases h' with
    | top => rfl
    | up hparent =>
      rw [hnone] at hparent
      cases hparent
  | up hparent _ ih =>
    cases h' with
    | top hnone =>
      rw [hnone] at hparent
      cases hparent
    | up hparent' hout' =>
      obtain rfl := Option.some.inj (hparent.symm.trans hparent')
      rw [ih hout']

/-- What is listed on the way up is what is above. -/
theorem mem_iff (h : t.Climbs id out) (a : Nat) : a ∈ out ↔ t.Above a id := by
  induction h with
  | top hnone => simp [not_above_of_parent?_eq_none hnone]
  | up hparent _ ih => rw [List.mem_cons, above_iff hparent, ih]

/-- From a number on the way up, the rest of the way is shorter. -/
theorem exists_shorter (h : t.Climbs id out) {a : Nat} (ha : a ∈ out) :
    ∃ rest, t.Climbs a rest ∧ rest.length < out.length := by
  induction h with
  | top => cases ha
  | @up id parent out _ hout ih =>
    rcases List.mem_cons.1 ha with rfl | ha
    · exact ⟨out, hout, Nat.lt_succ_self _⟩
    · obtain ⟨rest, hrest, hlt⟩ := ih ha
      exact ⟨rest, hrest, Nat.lt_succ_of_lt hlt⟩

/-- A way up that ends never comes back to where it started. -/
theorem not_mem (h : t.Climbs id out) : id ∉ out := by
  intro hid
  obtain ⟨rest, hrest, hlt⟩ := h.exists_shorter hid
  rw [h.unique hrest] at hlt
  exact Nat.lt_irrefl _ hlt

theorem not_above (h : t.Climbs id out) : ¬ t.Above id id := by
  rw [← h.mem_iff]
  exact h.not_mem

theorem nodup (h : t.Climbs id out) : (id :: out).Nodup := by
  induction h with
  | top => simp
  | up hparent hout ih => exact List.nodup_cons.2 ⟨(up hparent hout).not_mem, ih⟩

/-- Only the last number on the way up may be that of no node. -/
theorem lt_size_of_mem_dropLast (h : t.Climbs id out) :
    ∀ a ∈ (id :: out).dropLast, a < t.size := by
  induction h with
  | top => simp
  | up hparent _ ih =>
    intro a ha
    rw [List.dropLast_cons_of_ne_nil (by simp)] at ha
    rcases List.mem_cons.1 ha with rfl | ha
    · exact lt_size_of_parent? hparent
    · exact ih a ha

/-- A way up that ends has no more steps than the tree has nodes. -/
theorem length_le (h : t.Climbs id out) : out.length ≤ t.size := by
  have hnodup : (id :: out).dropLast.Nodup := h.nodup.sublist (List.dropLast_sublist _)
  have hrange : (id :: out).dropLast ⊆ List.range t.size := by
    intro a ha
    exact List.mem_range.2 (h.lt_size_of_mem_dropLast a ha)
  have hle := (hnodup.subperm hrange).length_le
  rwa [List.length_dropLast, List.length_cons, Nat.add_sub_cancel, List.length_range] at hle

theorem ancestorsWithin_eq (h : t.Climbs id out) {steps : Nat} (hle : out.length ≤ steps) :
    t.ancestorsWithin steps id = out := by
  induction h generalizing steps with
  | top hnone =>
    cases steps with
    | zero => rfl
    | succ steps => rw [ancestorsWithin, hnone]
  | @up id parent out hparent _ ih =>
    obtain ⟨steps, rfl⟩ : ∃ n, steps = n + 1 := ⟨steps - 1, by rw [List.length_cons] at hle; omega⟩
    rw [ancestorsWithin, hparent]
    show parent :: t.ancestorsWithin steps parent = parent :: out
    rw [ih (Nat.le_of_succ_le_succ hle)]

/-- What is listed on a way up that ends are the ancestors. -/
theorem eq_ancestors (h : t.Climbs id out) : out = t.ancestors id :=
  (h.ancestorsWithin_eq h.length_le).symm

end Climbs

end Up

/-! ## Going down -/

section Down

variable {t : Tree} {id : Nat}

theorem resolve_lt_size (t : Tree) (id : Nat) : t.resolve id < t.size := by
  unfold resolve
  split_ifs with h
  · exact h
  · exact Nat.succ_pos _

theorem parent?_of_size_le (h : t.size ≤ id) : t.parent? id = none := by
  cases hp : t.parent? id with
  | none => rfl
  | some p => exact absurd (lt_size_of_parent? hp) (Nat.not_lt_of_le h)

theorem children_of_size_le (h : t.size ≤ id) : t.children id = t.children 0 := by
  have hresolve : t.resolve id = t.resolve 0 := by
    rw [resolve, if_neg (Nat.not_lt_of_le h), resolve_eq (Nat.succ_pos _)]
  simp only [children, hresolve]

theorem node_of_size_le (h : t.size ≤ id) : t.node id = t.node 0 := by
  have hentry : t.entry? id = none := by
    have hparent := parent?_of_size_le h
    rwa [parent?, Option.map_eq_none_iff] at hparent
  rw [node, hentry]
  rfl

theorem mem_children_iff_le {i : Nat} :
    i ∈ t.children id ↔ t.parent? i = some (t.resolve id) ∧ t.resolve id ≤ i := by
  simp only [children, List.mem_filter, beq_iff_eq, List.mem_range'_1]
  constructor
  · rintro ⟨⟨hle, -⟩, hparent⟩
    exact ⟨hparent, hle⟩
  · rintro ⟨hparent, hle⟩
    have hlt := lt_size_of_parent? hparent
    exact ⟨⟨hle, by omega⟩, hparent⟩

/-- A node entered under its own number is its own child. -/
theorem mem_children_self (hown : t.parent? id = some id) : id ∈ t.children id := by
  rw [mem_children_iff_le, resolve_eq (lt_size_of_parent? hown)]
  exact ⟨hown, Nat.le_refl id⟩

/-- Except at a node that is its own child, children have greater numbers than their parent. -/
theorem resolve_lt_of_mem_children {i : Nat} (hid : t.parent? id ≠ some id) (h : i ∈ t.children id) :
    t.resolve id < i := by
  obtain ⟨hparent, hle⟩ := mem_children_iff_le.1 h
  refine Nat.lt_of_le_of_ne hle fun heq => ?_
  rw [heq] at hparent
  unfold resolve at heq
  split_ifs at heq
  · rw [heq] at hid
    exact hid hparent
  · rw [← heq] at hparent
    cases hparent

/-- A child of another node is not its own child. -/
theorem parent?_ne_of_mem_children {i : Nat} (hid : t.parent? id ≠ some id) (h : i ∈ t.children id) :
    t.parent? i ≠ some i := by
  rw [(mem_children_iff_le.1 h).1]
  intro heq
  have hlt := resolve_lt_of_mem_children hid h
  rw [Option.some.inj heq] at hlt
  exact Nat.lt_irrefl _ hlt

/-- A depth that allows for all numbers from a node on allows, less one, for all numbers from its child
on. -/
theorem size_le_of_mem_children {i depth : Nat} (hid : t.parent? id ≠ some id)
    (h : i ∈ t.children id) (hdepth : t.size ≤ t.resolve id + (depth + 1)) :
    t.size ≤ t.resolve i + depth := by
  have hlt : Nat.succ (t.resolve id) ≤ i := resolve_lt_of_mem_children hid h
  rw [resolve_eq (lt_size_of_mem_children h)]
  omega

/-- What holds of a node whenever it holds of its children holds of every node, except at one that is
its own child. -/
@[elab_as_elim]
theorem induction_on_children {motive : Nat → Prop}
    (step : ∀ id, t.parent? id ≠ some id → (∀ i ∈ t.children id, motive i) → motive id)
    (hid : t.parent? id ≠ some id) : motive id := by
  -- children have greater numbers, which stay below the size
  induction hrest : t.size - t.resolve id using Nat.strongRecOn generalizing id with
  | ind rest ih =>
    refine step id hid fun i hi => ih _ ?_ (parent?_ne_of_mem_children hid hi) rfl
    rw [← hrest, resolve_eq (lt_size_of_mem_children hi)]
    exact Nat.sub_lt_sub_left (resolve_lt_size t id) (resolve_lt_of_mem_children hid hi)

/-! ## Recursion cut off at a depth -/

section Bounded

variable {α : Type} {f : Nat → Nat → α} (join : Nat → (Nat → α) → α)
  (hf : ∀ depth id, f (depth + 1) id = join id (f depth))
  (hjoin : ∀ {id : Nat} {g g' : Nat → α}, (∀ i ∈ t.children id, g i = g' i) → join id g = join id g')

include hf hjoin

/-- A recursion over children does not depend on the depth at which it is cut off, if that allows for
all numbers from the node on. -/
theorem bounded_eq {depth depth' : Nat} (hid : t.parent? id ≠ some id)
    (hdepth : t.size ≤ t.resolve id + depth) (hdepth' : t.size ≤ t.resolve id + depth') :
    f depth id = f depth' id := by
  induction depth generalizing id depth' with
  | zero => exact absurd hdepth (Nat.not_le_of_lt (resolve_lt_size t id))
  | succ depth ih =>
    cases depth' with
    | zero => exact absurd hdepth' (Nat.not_le_of_lt (resolve_lt_size t id))
    | succ depth' =>
      rw [hf, hf]
      refine hjoin fun i hi => ih (parent?_ne_of_mem_children hid hi) ?_ ?_
      · exact size_le_of_mem_children hid hi hdepth
      · exact size_le_of_mem_children hid hi hdepth'

/-- No tree is deeper than its size, so a recursion cut off there is not cut off at all. -/
theorem bounded_size (hid : t.parent? id ≠ some id) : f t.size id = join id (f t.size) := by
  show f (t.entries.size + 1) id = _
  rw [hf]
  refine hjoin fun i hi => bounded_eq join hf hjoin (parent?_ne_of_mem_children hid hi) ?_ ?_
  · exact size_le_of_mem_children hid hi (Nat.le_add_left t.size _)
  · exact Nat.le_add_left t.size _

end Bounded

/-- The descendants of a node are its children, each followed by its own descendants. -/
theorem descendants_eq_flatMap (hid : t.parent? id ≠ some id) :
    t.descendants id = (t.children id).flatMap fun i => i :: t.descendants i := by
  refine bounded_size (fun id g => (t.children id).flatMap fun i => i :: g i) (fun _ _ => rfl) ?_ hid
  intro id g g' h
  exact List.flatMap_congr fun i hi => congrArg (i :: ·) (h i hi)

/-! ## The stack -/

theorem Walks.unique {stack out out' : List Nat} (h : t.Walks stack out) (h' : t.Walks stack out') :
    out = out' := by
  induction h generalizing out' with
  | done =>
    cases h'
    rfl
  | visit _ ih =>
    cases h' with
    | visit hout' => rw [ih hout']

/-- What lies deeper in the stack waits until what is above it has been visited, with all that is
below. -/
theorem Walks.append {stack stack' out out' : List Nat} (h : t.Walks stack out)
    (h' : t.Walks stack' out') : t.Walks (stack ++ stack') (out ++ out') := by
  induction h with
  | done => exact h'
  | visit _ ih =>
    rw [List.append_assoc] at ih
    exact .visit ih

theorem walks_flatMap {stack : List Nat} (h : ∀ i ∈ stack, t.Walks [i] (i :: t.descendants i)) :
    t.Walks stack (stack.flatMap fun i => i :: t.descendants i) := by
  induction stack with
  | nil => exact .done
  | cons i stack ih =>
    rw [List.flatMap_cons, ← List.singleton_append]
    exact (h i List.mem_cons_self).append (ih fun j hj => h j (List.mem_cons_of_mem i hj))

theorem walks_single (hid : t.parent? id ≠ some id) : t.Walks [id] (id :: t.descendants id) := by
  refine induction_on_children (fun id hid ih => ?_) hid
  apply Walks.visit
  rw [List.append_nil, descendants_eq_flatMap hid]
  exact walks_flatMap ih

theorem walks_descendants (hid : t.parent? id ≠ some id) :
    t.Walks (t.children id) (t.descendants id) := by
  cases walks_single hid with
  | visit hout => rwa [List.append_nil] at hout

/-- A node that is its own child never leaves the stack. -/
theorem Walks.parent?_ne {stack out : List Nat} (h : t.Walks stack out) (hid : id ∈ stack) :
    t.parent? id ≠ some id := by
  intro hown
  induction h with
  | done => cases hid
  | visit _ ih =>
    apply ih
    rcases List.mem_cons.1 hid with rfl | hid
    · exact List.mem_append_left _ (mem_children_self hown)
    · exact List.mem_append_right _ hid

/-- The visit of what is below a node ends exactly if the node is not its own child, and has then listed
the descendants. -/
theorem walks_children_iff (id : Nat) (out : List Nat) :
    t.Walks (t.children id) out ↔ t.parent? id ≠ some id ∧ out = t.descendants id := by
  constructor
  · intro h
    have hid : t.parent? id ≠ some id := by
      intro hown
      exact h.parent?_ne (mem_children_self hown) hown
    exact ⟨hid, h.unique (walks_descendants hid)⟩
  · rintro ⟨hid, rfl⟩
    exact walks_descendants hid

theorem resolve_lt_of_holds {i : Nat} (hid : t.parent? id ≠ some id) (h : t.Holds id i) :
    t.resolve id < i ∧ i < t.size ∧ t.parent? i ≠ some i := by
  induction h with
  | single h =>
    exact ⟨resolve_lt_of_mem_children hid h, lt_size_of_mem_children h,
      parent?_ne_of_mem_children hid h⟩
  | tail _ h ih =>
    obtain ⟨hlt, hsize, hne⟩ := ih
    have hlt' := resolve_lt_of_mem_children hne h
    rw [resolve_eq hsize] at hlt'
    exact ⟨Nat.lt_trans hlt hlt', lt_size_of_mem_children h, parent?_ne_of_mem_children hne h⟩

/-- Going down leads back to a node only if the node is its own child. -/
theorem holds_self_iff (id : Nat) : t.Holds id id ↔ t.parent? id = some id := by
  constructor
  · intro h
    by_contra hid
    obtain ⟨hlt, hsize, -⟩ := resolve_lt_of_holds hid h
    rw [resolve_eq hsize] at hlt
    exact Nat.lt_irrefl _ hlt
  · intro hown
    exact .single (mem_children_self hown)

end Down

/-! ## Parents with smaller numbers -/

section Ordered

variable {t : Tree} (hparent : ∀ {i p : Nat}, t.parent? i = some p → p < i)

include hparent

theorem parent?_ne_self (id : Nat) : t.parent? id ≠ some id := by
  intro hown
  exact Nat.lt_irrefl _ (hparent hown)

/-- Every node but the root is among the children of its parent. -/
theorem exists_mem_children {i : Nat} (hpos : 0 < i) (hi : i < t.size) :
    ∃ p, t.parent? i = some p ∧ p < i ∧ i ∈ t.children p := by
  obtain ⟨p, hp⟩ := exists_parent?_of_lt_size hpos hi
  have hlt := hparent hp
  exact ⟨p, hp, hlt, (mem_children_iff hparent (Nat.lt_trans hlt hi)).2 hp⟩

theorem climbs_ancestors (id : Nat) : t.Climbs id (t.ancestors id) := by
  have hends : ∃ out, t.Climbs id out := by
    induction id using Nat.strongRecOn with
    | ind id ih =>
      cases hp : t.parent? id with
      | none => exact ⟨[], .top hp⟩
      | some p =>
        obtain ⟨out, hout⟩ := ih p (hparent hp)
        exact ⟨p :: out, .up hp hout⟩
  obtain ⟨out, hout⟩ := hends
  rwa [← hout.eq_ancestors]

theorem above_iff_descends {a i : Nat} : t.Above a i ↔ t.Descends a i ∧ a < i := by
  constructor
  · intro h
    obtain ⟨b, hab, hb⟩ := above_iff_exists.1 h
    have hle := le_of_descends hparent hab
    have hlt := hparent hb
    exact ⟨h.to_reflTransGen, by omega⟩
  · rintro ⟨h, hlt⟩
    rcases descends_iff.1 h with heq | h
    · omega
    · exact h

/-- What is listed below a node are the nodes that list it above them. -/
theorem mem_descendants_iff_mem_ancestors {id i : Nat} (hid : id < t.size) :
    i ∈ t.descendants id ↔ id ∈ t.ancestors i := by
  rw [mem_descendants_iff hparent hid, (climbs_ancestors hparent i).mem_iff,
    above_iff_descends hparent]

/-- On the way up the numbers get smaller. -/
theorem Climbs.pairwise_gt {id : Nat} {out : List Nat} (h : t.Climbs id out) :
    (id :: out).Pairwise (· > ·) := by
  induction h with
  | top => simp
  | up hp hout ih =>
    refine List.pairwise_cons.2 ⟨fun a ha => ?_, ih⟩
    exact ((above_iff_descends hparent).1 (((up hp hout).mem_iff a).1 ha)).2

/-- A node is not below its sibling. -/
theorem not_descends_of_mem_children {id a b : Nat} (ha : a ∈ t.children id)
    (hb : b ∈ t.children id) (hne : a ≠ b) : ¬ t.Descends a b := by
  intro h
  rcases Relation.ReflTransGen.cases_tail h with heq | ⟨p, hap, hp⟩
  · exact hne heq.symm
  · obtain rfl := Option.some.inj (hp.symm.trans (mem_children hb))
    have hle := le_of_descends hparent hap
    exact absurd (hparent (mem_children ha)) (Nat.not_lt_of_le hle)

theorem nodup_descendants (id : Nat) : (t.descendants id).Nodup := by
  refine induction_on_children (fun id hid ih => ?_) (parent?_ne_self hparent id)
  have hbelow : ∀ i ∈ t.children id, ∀ x ∈ i :: t.descendants i, t.Descends i x := by
    intro i hi x hx
    rcases List.mem_cons.1 hx with rfl | hx
    · exact .refl
    · exact ((mem_descendants_iff hparent (lt_size_of_mem_children hi)).1 hx).1
  rw [descendants_eq_flatMap hid, List.nodup_flatMap]
  constructor
  · intro i hi
    refine List.nodup_cons.2 ⟨fun hmem => ?_, ih i hi⟩
    exact Nat.lt_irrefl _ ((mem_descendants_iff hparent (lt_size_of_mem_children hi)).1 hmem).2
  · -- a common descendant would put one of two siblings below the other
    refine (pairwise_lt_children t id).imp_of_mem fun {a b} ha hb hlt x hxa hxb => ?_
    have hne := Nat.ne_of_lt hlt
    rcases descends_or_descends (hbelow a ha x hxa) (hbelow b hb x hxb) with h | h
    · exact not_descends_of_mem_children hparent ha hb hne h
    · exact not_descends_of_mem_children hparent hb ha hne.symm h

end Ordered

end Tree

end SsisCompiler.Package
