import SsisCompiler.Compile.Executable
import SsisCompiler.Proofs.Package.DocumentOrder

/-!
# The executables of a package, depth first

`DepthFirst` lists executables, each before those that it runs, with nothing said of a depth. An
outline is built down to a bounded depth; `Outline.Covers` says that the bound cut nothing off.

Results:
* `covers_ofIds`: the outline of executables of a package that was read is cut off nowhere.
* `Outline.Covers.depthFirst`: its executables are the listing.
* `DepthFirst.pairwise_lt`: the listing is in document order, without repetition.
-/

namespace SsisCompiler.Compile

open Package (NodeId Tree)

theorem mem_callees {t : Tree} {id i : Nat} (h : i ∈ callees t id) : i ∈ t.executablesOf id := by
  unfold callees at h
  split at h
  · exact h
  · cases h

theorem exists_container_of_mem_callees {t : Tree} {id i : Nat} (h : i ∈ callees t id) :
    ∃ container, Executable.ofNode? t id = some (.container container) := by
  unfold callees at h
  split at h
  · exact ⟨_, by assumption⟩
  · cases h

theorem callees_of_container {t : Tree} {id : Nat} {container : Container}
    (h : Executable.ofNode? t id = some (.container container)) :
    callees t id = t.executablesOf id := by
  simp [callees, h]

theorem lt_size_of_mem_callees {t : Tree} {id i : Nat} (h : i ∈ callees t id) : i < t.size :=
  Tree.lt_size_of_mem_owned (mem_callees h)

theorem apart_callees {t : Tree} (ht : t.Preordered) (id : Nat) :
    (callees t id).Pairwise t.Apart := by
  unfold callees
  split
  · exact ht.apart_owned _ _ id
  · exact .nil

/-! ## Listings -/

/-- A list of executables with all that they run, each before those that it runs. -/
inductive DepthFirst (t : Tree) : List NodeId → List NodeId → Prop
  | nil : DepthFirst t [] []
  | cons {id : NodeId} {ids inner rest : List NodeId} :
      DepthFirst t (callees t id) inner → DepthFirst t ids rest →
        DepthFirst t (id :: ids) (id :: (inner ++ rest))

namespace DepthFirst

variable {t : Tree}

theorem head?_eq {ids listing : List NodeId} (h : DepthFirst t ids listing) :
    listing.head? = ids.head? := by
  cases h <;> rfl

/-- What is listed is one of the executables listed, or below one. -/
theorem exists_descends {ids listing : List Nat} (h : DepthFirst t ids listing)
    (hids : ∀ id ∈ ids, id < t.size) : ∀ x ∈ listing, ∃ a ∈ ids, t.Descends a x := by
  induction h with
  | nil => simp
  | @cons id ids inner rest _ _ ihinner ihrest =>
    have hid : id < t.size := hids id List.mem_cons_self
    intro x hx
    rcases List.mem_cons.1 hx with rfl | hx
    · exact ⟨x, List.mem_cons_self, .refl⟩
    rcases List.mem_append.1 hx with hx | hx
    · obtain ⟨c, hc, hcx⟩ := ihinner (fun _ => lt_size_of_mem_callees) x hx
      exact ⟨id, List.mem_cons_self, (Tree.descends_of_mem_owned hid (mem_callees hc)).trans hcx⟩
    · obtain ⟨a, ha, hax⟩ := ihrest (fun i hi => hids i (List.mem_cons_of_mem _ hi)) x hx
      exact ⟨a, List.mem_cons_of_mem _ ha, hax⟩

theorem pairwise_lt (ht : t.Preordered) {ids listing : List Nat} (h : DepthFirst t ids listing)
    (hids : ∀ id ∈ ids, id < t.size) (hapart : ids.Pairwise t.Apart) : listing.Pairwise (· < ·) := by
  induction h with
  | nil => exact .nil
  | @cons id ids inner rest hinner hrest ihinner ihrest =>
    have hid : id < t.size := hids id List.mem_cons_self
    have hids' : ∀ i ∈ ids, i < t.size := fun i hi => hids i (List.mem_cons_of_mem _ hi)
    obtain ⟨hfirst, hapart'⟩ := List.pairwise_cons.1 hapart
    -- what is inside comes behind the executable itself
    have hbehind : ∀ x ∈ inner, t.Descends id x ∧ id < x := by
      intro x hx
      obtain ⟨c, hc, hcx⟩ := hinner.exists_descends (fun _ => lt_size_of_mem_callees) x hx
      have hlt := ht.lt_of_mem_owned hid (mem_callees hc)
      have hle := ht.le_of_descends hcx
      exact ⟨(Tree.descends_of_mem_owned hid (mem_callees hc)).trans hcx,
        Nat.lt_of_lt_of_le hlt hle⟩
    -- and before all that stands apart from it
    have hbefore : ∀ x, t.Descends id x → ∀ y ∈ rest, x < y := by
      intro x hx y hy
      obtain ⟨b, hb, hby⟩ := hrest.exists_descends hids' y hy
      exact (ht.apart_of_descends (hfirst b hb) hx hby).lt
    refine List.pairwise_cons.2 ⟨fun y hy => ?_, List.pairwise_append.2 ⟨?_, ?_, ?_⟩⟩
    · rcases List.mem_append.1 hy with hy | hy
      · exact (hbehind y hy).2
      · exact hbefore id .refl y hy
    · exact ihinner (fun _ => lt_size_of_mem_callees) (apart_callees ht id)
    · exact ihrest hids' hapart'
    · intro x hx y hy
      exact hbefore x (hbehind x hx).1 y hy

end DepthFirst

/-! ## Outlines -/

namespace Outline

/-- An outline of executables with all that they run. -/
inductive Covers (t : Tree) : List NodeId → Outline → Prop
  | done : Covers t [] .done
  | executable {id : NodeId} {ids : List NodeId} {inner rest : Outline} :
      Covers t (callees t id) inner → Covers t ids rest →
        Covers t (id :: ids) (.executable id inner rest)

theorem covers_within {t : Tree} (ht : t.Preordered) (depth : Nat) (ids : List Nat)
    (hids : ∀ id ∈ ids, id < t.size ∧ t.size ≤ id + depth) : Covers t ids (within t depth ids) := by
  induction depth generalizing ids with
  | zero =>
    cases ids with
    | nil => exact .done
    | cons id ids =>
      have := hids id List.mem_cons_self
      omega
  | succ depth ihdepth =>
    induction ids with
    | nil => exact .done
    | cons id ids ihids =>
      have hid := hids id List.mem_cons_self
      refine .executable (ihdepth (callees t id) fun c hc => ?_)
        (ihids fun i hi => hids i (List.mem_cons_of_mem _ hi))
      have hlt := ht.lt_of_mem_owned hid.1 (mem_callees hc)
      exact ⟨lt_size_of_mem_callees hc, by omega⟩

/-- No outline of executables of a package that was read is cut off. -/
theorem covers_ofIds {t : Tree} (ht : t.Preordered) {ids : List Nat}
    (hids : ∀ id ∈ ids, id < t.size) : Covers t ids (ofIds t ids) :=
  covers_within ht _ ids fun id hid => ⟨hids id hid, by omega⟩

/-- The executables of an outline that are inside others. -/
def nested : Outline → List NodeId
  | .done => []
  | .executable _ inner rest => inner.ids ++ rest.nested

namespace Covers

variable {t : Tree} {ids : List NodeId} {outline : Outline}

theorem depthFirst (h : Covers t ids outline) : DepthFirst t ids outline.ids := by
  induction h with
  | done => exact .nil
  | executable _ _ ihinner ihrest => exact .cons ihinner ihrest

theorem perm_ids (h : Covers t ids outline) : outline.ids.Perm (ids ++ outline.nested) := by
  induction h with
  | done => exact .nil
  | @executable id ids inner rest _ _ _ ihrest =>
    refine .cons id ?_
    calc (inner.ids ++ rest.ids).Perm (inner.ids ++ (ids ++ rest.nested)) := ihrest.append_left _
      _ = (inner.ids ++ ids) ++ rest.nested := (List.append_assoc _ _ _).symm
      List.Perm _ ((ids ++ inner.ids) ++ rest.nested) := List.perm_append_comm.append_right _
      _ = ids ++ (inner.ids ++ rest.nested) := List.append_assoc _ _ _

theorem mem_ids (h : Covers t ids outline) {id : NodeId} (hid : id ∈ ids) : id ∈ outline.ids :=
  h.perm_ids.mem_iff.2 (List.mem_append_left _ hid)

end Covers

end Outline

end SsisCompiler.Compile
