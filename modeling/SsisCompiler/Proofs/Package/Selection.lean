import SsisCompiler.Proofs.Package.Mirror

/-!
# What a node owns

A node owns things of a kind directly or inside groups, and a group may stand before, between or behind
the things that are owned directly. `Tree.Owns` says what is owned by the numbers of parents alone, and
`Tree.ListsOwned` that a list has exactly this, in document order.

Results:
* `Tree.Preordered.mem_owned_iff_owns`: what is selected for a node is what it owns.
* `Tree.Preordered.listsOwned_owned`: it is selected in document order.
* `Tree.Preordered.filter_owned`: the directly owned ones are the children of the kind.
* `Tree.Preordered.executables_eq`: the two ways of selecting the executables at the top agree.
* `layout_selects`: the selections of every package that was read.
-/

namespace SsisCompiler.Package

open Markup (Element)

namespace Tree

/-- A node is owned by another: it has the wanted kind, and its parent is the owner or a child of the
owner that groups such nodes. -/
structure Owns (t : Tree) (wrapper kind : String) (id i : Nat) : Prop where
  kind_eq : (t.node i).kind = kind
  parent : t.parent? i = some id ∨
    ∃ group, t.parent? group = some id ∧ (t.node group).kind = wrapper ∧ t.parent? i = some group

/-- A list has exactly the nodes that a node owns, each once and in document order. -/
structure ListsOwned (t : Tree) (wrapper kind : String) (id : Nat) (ids : List Nat) : Prop where
  increasing : ids.Pairwise (· < ·)
  nodup : ids.Nodup
  mem_iff : ∀ i, i ∈ ids ↔ t.Owns wrapper kind id i

theorem mem_owned_iff {t : Tree} {wrapper kind : String} (hne : wrapper ≠ kind) {id i : Nat} :
    i ∈ t.owned wrapper kind id ↔ (t.node i).kind = kind ∧
      (i ∈ t.children id ∨ ∃ g ∈ t.children id, (t.node g).kind = wrapper ∧ i ∈ t.children g) := by
  refine ⟨mem_owned, ?_⟩
  rintro ⟨hkind, hi | ⟨g, hg, hwrapper, hi⟩⟩
  · exact List.mem_flatMap.2 ⟨i, hi, by simp [hkind]⟩
  · refine List.mem_flatMap.2 ⟨g, hg, ?_⟩
    simp [hwrapper, hne, mem_childrenOfKind_iff, hi, hkind]

namespace Preordered

variable {t : Tree} (ht : t.Preordered) {wrapper kind : String} (hne : wrapper ≠ kind) {id : Nat}
  (hid : id < t.size)

include ht hne hid

theorem mem_owned_iff_owns {i : Nat} : i ∈ t.owned wrapper kind id ↔ t.Owns wrapper kind id i := by
  have hchild {i : Nat} := mem_children_iff ht.parent_lt (i := i) hid
  have hinner {g i : Nat} (hg : t.parent? g = some id) :=
    mem_children_iff ht.parent_lt (i := i) (lt_size_of_parent? hg)
  rw [mem_owned_iff hne]
  constructor
  · rintro ⟨hkind, hi | ⟨g, hg, hwrapper, hi⟩⟩
    · exact ⟨hkind, Or.inl (hchild.1 hi)⟩
    · have hparent := hchild.1 hg
      exact ⟨hkind, Or.inr ⟨g, hparent, hwrapper, (hinner hparent).1 hi⟩⟩
  · rintro ⟨hkind, hi | ⟨g, hg, hwrapper, hi⟩⟩
    · exact ⟨hkind, Or.inl (hchild.2 hi)⟩
    · exact ⟨hkind, Or.inr ⟨g, hchild.2 hg, hwrapper, (hinner hg).2 hi⟩⟩

theorem listsOwned_owned : t.ListsOwned wrapper kind id (t.owned wrapper kind id) := by
  have hincreasing : (t.owned wrapper kind id).Pairwise (· < ·) :=
    (ht.apart_owned wrapper kind id).imp fun hapart => hapart.lt
  exact ⟨hincreasing, hincreasing.imp fun hlt => Nat.ne_of_lt hlt,
    fun i => ht.mem_owned_iff_owns hne hid⟩

/-- Of what a node owns, the children of the node are the ones that are not inside a group. -/
theorem filter_owned : (t.owned wrapper kind id).filter (fun i => t.parent? i == some id) =
    t.childrenOfKind id kind := by
  have hlists := ht.listsOwned_owned hne hid
  refine (hlists.increasing.filter _).eq_of_mem_iff ((pairwise_lt_children t id).filter _)
    fun i => ?_
  rw [List.mem_filter, hlists.mem_iff, beq_iff_eq, mem_childrenOfKind_iff,
    mem_children_iff ht.parent_lt hid]
  constructor
  · rintro ⟨howns, hparent⟩
    exact ⟨hparent, howns.kind_eq⟩
  · rintro ⟨hparent, hkind⟩
    exact ⟨⟨hkind, Or.inl hparent⟩, hparent⟩

end Preordered

/-- Without children of the kind, all that a node owns stands in its groups. -/
theorem mem_owned_of_childrenOfKind_eq_nil {t : Tree} {wrapper kind : String} (hne : wrapper ≠ kind)
    {id i : Nat} (hdirect : t.childrenOfKind id kind = []) :
    i ∈ t.owned wrapper kind id ↔
      i ∈ (t.childrenOfKind id wrapper).flatMap fun group => t.childrenOfKind group kind := by
  rw [mem_owned_iff hne, List.mem_flatMap]
  constructor
  · rintro ⟨hkind, hi | ⟨g, hg, hwrapper, hi⟩⟩
    · have hmem : i ∈ t.childrenOfKind id kind := mem_childrenOfKind_iff.2 ⟨hi, hkind⟩
      rw [hdirect] at hmem
      cases hmem
    · exact ⟨g, mem_childrenOfKind_iff.2 ⟨hg, hwrapper⟩, mem_childrenOfKind_iff.2 ⟨hi, hkind⟩⟩
  · rintro ⟨g, hg, hi⟩
    obtain ⟨hg, hwrapper⟩ := mem_childrenOfKind hg
    obtain ⟨hi, hkind⟩ := mem_childrenOfKind hi
    exact ⟨hkind, Or.inr ⟨g, hg, hwrapper, hi⟩⟩

/-- The executables at the top are those of the root that stand in no group, or all of the root's if
every one stands in a group. -/
theorem Preordered.executables_eq {t : Tree} (ht : t.Preordered) :
    (Layout.ofTree t).executables =
      if (t.executablesOf 0).filter (fun i => t.parent? i == some 0) = [] then t.executablesOf 0
      else (t.executablesOf 0).filter fun i => t.parent? i == some 0 := by
  have hne : executableGroupKind ≠ executableKind := by decide
  have hfilter : (t.executablesOf 0).filter (fun i => t.parent? i == some 0) =
      t.childrenOfKind 0 executableKind :=
    ht.filter_owned hne (Nat.succ_pos _)
  have htop : (Layout.ofTree t).executables.Pairwise (· < ·) :=
    ht.apart_executables.imp fun hapart => hapart.lt
  rw [hfilter]
  simp only [Layout.ofTree] at htop ⊢
  cases hdirect : t.childrenOfKind 0 executableKind with
  | nil =>
    rw [if_pos rfl]
    rw [hdirect] at htop
    refine htop.eq_of_mem_iff (ht.pairwise_lt_executablesOf 0) fun i => ?_
    exact (mem_owned_of_childrenOfKind_eq_nil hne hdirect).symm
  | cons first rest => rw [if_neg (by simp)]

end Tree

/-- The selections of a package that was read. For every node, its executables and its variables are
listed exactly and in document order, and so are the variables and the connections of the package. The
executables at the top are the root's own ones that stand in no group if there are any, and all of the
root's otherwise. -/
theorem layout_selects (o : Options) (e : Element) :
    (∀ id < (Reading.ofElement o e).tree.size,
      (Reading.ofElement o e).tree.ListsOwned "DTS:Executables" "DTS:Executable" id
        ((Reading.ofElement o e).tree.executablesOf id) ∧
      (Reading.ofElement o e).tree.ListsOwned "DTS:Variables" "DTS:Variable" id
        ((Reading.ofElement o e).tree.variablesOf id)) ∧
    (Layout.ofTree (Reading.ofElement o e).tree).globals =
      (Reading.ofElement o e).tree.variablesOf 0 ∧
    (Reading.ofElement o e).tree.ListsOwned "DTS:ConnectionManagers" "DTS:ConnectionManager" 0
      (Layout.ofTree (Reading.ofElement o e).tree).connections ∧
    (Layout.ofTree (Reading.ofElement o e).tree).executables =
      let direct := ((Reading.ofElement o e).tree.executablesOf 0).filter fun i =>
        (Reading.ofElement o e).tree.parent? i == some 0
      if direct = [] then (Reading.ofElement o e).tree.executablesOf 0 else direct := by
  have ht := preordered_ofElement o e
  refine ⟨fun id hid => ⟨?_, ?_⟩, rfl, ?_, ht.executables_eq⟩
  · exact ht.listsOwned_owned (by decide) hid
  · exact ht.listsOwned_owned (by decide) hid
  · exact ht.listsOwned_owned (by decide) (Nat.succ_pos _)

/-- A package with groups of executables before and behind an executable of its own. -/
def groupedElement : Element where
  tag := bareTag "DTS:Executable"
  body := .element (bareTag "DTS:Executables")
    (.element (bareTag "DTS:Executable") (.element (bareTag "DTS:Executable") .done .done) .done)
    (.element (bareTag "DTS:Executable") .done
      (.element (bareTag "DTS:Executables")
        (.element (bareTag "DTS:Variable") .done (.element (bareTag "DTS:Executable") .done .done))
        .done))

theorem layout_selects_groupedElement :
    (Reading.ofElement {} groupedElement).tree.executablesOf 0 = [2, 4, 7] ∧
      (Reading.ofElement {} groupedElement).tree.Owns "DTS:Executables" "DTS:Executable" 0 7 ∧
      ¬ (Reading.ofElement {} groupedElement).tree.Owns "DTS:Executables" "DTS:Executable" 0 3 ∧
      (Layout.ofTree (Reading.ofElement {} groupedElement).tree).executables = [4] := by
  obtain ⟨hnodes, -, -, htop⟩ := layout_selects {} groupedElement
  have hroot : (Reading.ofElement {} groupedElement).tree.executablesOf 0 = [2, 4, 7] := by
    decide +kernel
  have hlists := (hnodes 0 (by decide +kernel)).1
  rw [hroot] at hlists
  refine ⟨hroot, (hlists.mem_iff 7).1 (by decide), fun howns => ?_, ?_⟩
  · exact absurd ((hlists.mem_iff 3).2 howns) (by decide)
  · rw [htop]
    decide +kernel

end SsisCompiler.Package
