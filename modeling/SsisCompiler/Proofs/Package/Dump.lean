import Mathlib.Data.List.Forall2
import Mathlib.Data.List.Perm.Basic
import Mathlib.Data.Nat.Find
import SsisCompiler.Package.Dump
import SsisCompiler.Proofs.Package.Walks

/-!
# What the nested view of a tree shows

The nested view of a tree leaves out the numbers of nodes and whatever a node does not have. Nothing is
lost by that: the numbers come back from the order of the nodes, because the nodes below a node are
numbered right behind it, and what is left out is told apart from anything that could be shown.

`Json.Same` compares values without regard to the order of members in objects, and `Node.Agrees`
compares nodes without regard to the order of attributes and properties.

Results:
* `same_nodeToJson_iff`: the objects of two nodes are the same exactly if the nodes agree and their
  children are shown the same.
* `eq_of_flatMap_range'`: children are known by how many nodes are below each of them.
* `same_toJson_iff`: the views of two trees are the same exactly if the trees agree.
-/

namespace SsisCompiler.Json

/-! ## Values without the order of members -/

mutual

/-- Two values are the same, but for the order of the members of objects. -/
inductive Same : Json → Json → Prop
  | null : Same .null .null
  | number (n : Nat) : Same (.number n) (.number n)
  | text (s : String) : Same (.text s) (.text s)
  | array {items items' : List Json} (h : List.Forall₂ Same items items') :
      Same (.array items) (.array items')
  | object {members members' ordered : List (String × Json)}
      (h : List.Forall₂ SameMember members ordered) (hperm : ordered.Perm members') :
      Same (.object members) (.object members')

/-- Two members have the same key and the same value. -/
inductive SameMember : String × Json → String × Json → Prop
  | mk (key : String) {value value' : Json} (h : Same value value') :
      SameMember (key, value) (key, value')

end

/-- The members of one object are those of another, in some order. -/
def SameMembers (members members' : List (String × Json)) : Prop :=
  ∃ ordered, List.Forall₂ SameMember members ordered ∧ ordered.Perm members'

theorem same_text_iff {s : String} {value : Json} : Same (.text s) value ↔ value = .text s := by
  constructor
  · intro h
    cases h
    rfl
  · rintro rfl
    exact .text s

theorem same_array_iff {items items' : List Json} :
    Same (.array items) (.array items') ↔ List.Forall₂ Same items items' := by
  constructor
  · intro h
    cases h with
    | array h => exact h
  · exact .array

theorem SameMembers.of_perm {members members' sorted sorted' : List (String × Json)}
    (h : SameMembers sorted sorted') (hperm : members.Perm sorted) (hperm' : sorted'.Perm members') :
    SameMembers members members' := by
  obtain ⟨ordered, hsame, hordered⟩ := h
  obtain ⟨ordered', hsame', hperm''⟩ := List.perm_comp_forall₂ hperm hsame
  exact ⟨ordered', hsame', (hperm''.trans hordered).trans hperm'⟩

theorem same_sortedObject_iff {members members' : List (String × Json)} :
    Same (.sortedObject members) (.sortedObject members') ↔ SameMembers members members' := by
  have hperm : ∀ ms : List (String × Json),
      (ms.mergeSort fun a b => decide (a.1 ≤ b.1)).Perm ms := fun ms => List.mergeSort_perm ms _
  unfold sortedObject
  constructor
  · intro h
    cases h with
    | object h hordered => exact SameMembers.of_perm ⟨_, h, hordered⟩ (hperm _).symm (hperm _)
  · intro h
    obtain ⟨ordered, hsame, hordered⟩ := h.of_perm (hperm members) (hperm members').symm
    exact .object hsame hordered

theorem exists_of_mem_of_forall₂ {α : Type} {r : α → α → Prop} {xs ys : List α}
    (h : List.Forall₂ r xs ys) {x : α} (hx : x ∈ xs) : ∃ y ∈ ys, r x y := by
  induction h with
  | nil => cases hx
  | cons hr _ ih =>
    rcases List.mem_cons.1 hx with rfl | hx
    · exact ⟨_, List.mem_cons_self, hr⟩
    · obtain ⟨y, hy, hr⟩ := ih hx
      exact ⟨y, List.mem_cons_of_mem _ hy, hr⟩

/-- A member that each of two objects may have, and nothing else under its key, is there in both or in
none, with the same value. -/
theorem SameMembers.optional {members members' : List (String × Json)}
    (h : SameMembers members members') (key : String) {present present' : Bool} {value value' : Json}
    (hmem : ∀ v, (key, v) ∈ members ↔ present = true ∧ v = value)
    (hmem' : ∀ v, (key, v) ∈ members' ↔ present' = true ∧ v = value') :
    present = present' ∧ (present = true → Same value value') := by
  obtain ⟨ordered, hsame, hordered⟩ := h
  have hright : present = true → present' = true ∧ Same value value' := by
    intro hpresent
    obtain ⟨⟨_, v⟩, hv, hsame⟩ := exists_of_mem_of_forall₂ hsame ((hmem value).2 ⟨hpresent, rfl⟩)
    cases hsame with
    | mk _ hsame =>
      obtain ⟨hpresent', rfl⟩ := (hmem' v).1 (hordered.mem_iff.1 hv)
      exact ⟨hpresent', hsame⟩
  have hleft : present' = true → present = true := by
    intro hpresent'
    have hv := hordered.mem_iff.2 ((hmem' value').2 ⟨hpresent', rfl⟩)
    have hflip := List.Forall₂.flip (R := flip SameMember) hsame
    obtain ⟨⟨_, v⟩, hv, hsame⟩ := exists_of_mem_of_forall₂ hflip hv
    cases hsame with
    | mk _ _ => exact ((hmem v).1 hv).1
  exact ⟨Bool.eq_iff_iff.2 ⟨fun hp => (hright hp).1, hleft⟩, fun hp => (hright hp).2⟩

/-- A list that is shown only if it is not empty is there in both objects or in none, so that it is the
same in either case. -/
theorem SameMembers.list {α : Type} {members members' : List (String × Json)}
    (h : SameMembers members members') (key : String) (shown : List α → Json) {xs ys : List α}
    (hnil : Same (shown []) (shown []))
    (hmem : ∀ v, (key, v) ∈ members ↔ (!xs.isEmpty) = true ∧ v = shown xs)
    (hmem' : ∀ v, (key, v) ∈ members' ↔ (!ys.isEmpty) = true ∧ v = shown ys) :
    Same (shown xs) (shown ys) := by
  obtain ⟨hempty, hsame⟩ := h.optional key hmem hmem'
  cases xs with
  | nil =>
    cases ys with
    | nil => exact hnil
    | cons => cases hempty
  | cons => exact hsame rfl

/-! ## Texts -/

theorem same_texts_iff {xs ys : List String} :
    List.Forall₂ Same (xs.map .text) (ys.map .text) ↔ xs = ys := by
  have heq : (fun a b : String => Same (.text a) (.text b)) = (· = ·) := by
    funext a b
    rw [same_text_iff, Json.text.injEq]
    exact propext eq_comm
  rw [List.forall₂_map_left_iff, List.forall₂_map_right_iff, heq, List.forall₂_eq_eq_eq]

theorem same_ofOption_self (a : Option String) : Same (.ofOption a) (.ofOption a) := by
  cases a with
  | none => exact .null
  | some s => exact .text s

theorem eq_of_same_ofOption {a b : Option String} (hsome : a.isSome = b.isSome)
    (h : a.isSome = true → Same (.ofOption a) (.ofOption b)) : a = b := by
  cases a with
  | none =>
    cases b with
    | none => rfl
    | some b => cases hsome
  | some a =>
    cases b with
    | none => cases hsome
    | some b =>
      have hsame : Same (.text a) (.text b) := h rfl
      rw [same_text_iff, Json.text.injEq] at hsame
      rw [hsame]

end SsisCompiler.Json

namespace SsisCompiler.Package

open Json (Same SameMember SameMembers)
open Markup (Element)

/-! ## Nodes -/

/-- Two nodes have the same data, but for the order of attributes and properties. -/
structure Node.Agrees (node node' : Node) : Prop where
  kind : node.kind = node'.kind
  name : node.name = node'.name
  content : node.content = node'.content
  expressions : node.expressions = node'.expressions
  attributes : node.attributes.Perm node'.attributes
  properties : node.properties.Perm node'.properties

/-- The member that a field is shown as. -/
def fieldMember (field : String × String) : String × Json :=
  (field.1, .text field.2)

theorem fieldMember_injective : Function.Injective fieldMember := by
  rintro ⟨k, v⟩ ⟨k', v'⟩ h
  simpa [fieldMember] using h

/-- Fields are shown the same exactly if they are the same in some order. -/
theorem same_fields_iff {fields fields' : Fields} :
    Same fields.toJson fields'.toJson ↔ fields.Perm fields' := by
  unfold Fields.toJson
  rw [Json.same_sortedObject_iff]
  show SameMembers (fields.map fieldMember) (fields'.map fieldMember) ↔ _
  rw [← List.map_perm_map_iff fieldMember_injective]
  constructor
  · rintro ⟨ordered, hsame, hordered⟩
    have heq : List.Forall₂ (· = ·) (fields.map fieldMember) ordered := by
      rw [List.forall₂_map_left_iff] at hsame ⊢
      refine hsame.imp fun field member hmember => ?_
      cases hmember with
      | mk _ hvalue =>
        rw [Json.same_text_iff.1 hvalue]
        rfl
    rw [List.forall₂_eq_eq_eq] at heq
    rwa [heq]
  · intro hperm
    refine ⟨_, List.forall₂_same.2 fun member hmember => ?_, hperm⟩
    obtain ⟨field, -, rfl⟩ := List.mem_map.1 hmember
    exact .mk field.1 (.text field.2)

/-- The members of a node's object before they are sorted. -/
def Node.members (node : Node) (children : List Json) : List (String × Json) :=
  [("kind", .text node.kind)]
    ++ optionalMember "name" node.name.isSome (.ofOption node.name)
    ++ optionalMember "attributes" (!node.attributes.isEmpty) node.attributes.toJson
    ++ optionalMember "properties" (!node.properties.isEmpty) node.properties.toJson
    ++ optionalMember "expressions" (!node.expressions.isEmpty)
      (.array (node.expressions.map .text))
    ++ optionalMember "content" node.content.isSome (.ofOption node.content)
    ++ optionalMember "children" (!children.isEmpty) (.array children)

theorem toJson_eq_members (node : Node) (children : List Json) :
    node.toJson children = .sortedObject (node.members children) := rfl

theorem mem_optionalMember {key key' : String} {present : Bool} {value value' : Json} :
    (key', value') ∈ optionalMember key present value ↔
      present = true ∧ key' = key ∧ value' = value := by
  unfold optionalMember
  split_ifs with h <;> simp [h]

theorem forall₂_optionalMember (key : String) (present : Bool) {value value' : Json}
    (h : Same value value') :
    List.Forall₂ SameMember (optionalMember key present value) (optionalMember key present value') := by
  unfold optionalMember
  split_ifs
  · exact .cons (.mk key h) .nil
  · exact .nil

theorem mem_members {node : Node} {children : List Json} {key : String} {value : Json} :
    (key, value) ∈ node.members children ↔
      (key = "kind" ∧ value = .text node.kind) ∨
      (node.name.isSome = true ∧ key = "name" ∧ value = .ofOption node.name) ∨
      ((!node.attributes.isEmpty) = true ∧ key = "attributes" ∧ value = node.attributes.toJson) ∨
      ((!node.properties.isEmpty) = true ∧ key = "properties" ∧ value = node.properties.toJson) ∨
      ((!node.expressions.isEmpty) = true ∧ key = "expressions" ∧
        value = .array (node.expressions.map .text)) ∨
      (node.content.isSome = true ∧ key = "content" ∧ value = .ofOption node.content) ∨
      ((!children.isEmpty) = true ∧ key = "children" ∧ value = .array children) := by
  simp only [Node.members, List.mem_append, mem_optionalMember, List.mem_singleton, Prod.mk.injEq,
    or_assoc]

/-- The objects of two nodes are the same exactly if the nodes agree and their children are shown the
same. -/
theorem same_nodeToJson_iff {node node' : Node} {children children' : List Json} :
    Same (node.toJson children) (node'.toJson children') ↔
      node.Agrees node' ∧ List.Forall₂ Same children children' := by
  rw [toJson_eq_members, toJson_eq_members, Json.same_sortedObject_iff]
  constructor
  · intro h
    obtain ⟨-, hkind⟩ : true = true ∧ (true = true → Same (.text node.kind) (.text node'.kind)) :=
      h.optional "kind" (by simp [mem_members]) (by simp [mem_members])
    obtain ⟨hsome, hname⟩ : node.name.isSome = node'.name.isSome ∧
        (node.name.isSome = true → Same (.ofOption node.name) (.ofOption node'.name)) :=
      h.optional "name" (by simp [mem_members]) (by simp [mem_members])
    obtain ⟨hsome', hcontent⟩ : node.content.isSome = node'.content.isSome ∧
        (node.content.isSome = true → Same (.ofOption node.content) (.ofOption node'.content)) :=
      h.optional "content" (by simp [mem_members]) (by simp [mem_members])
    have hexpressions : Same (.array (node.expressions.map .text))
        (.array (node'.expressions.map .text)) :=
      h.list "expressions" (fun xs => .array (xs.map .text)) (.array .nil)
        (by simp [mem_members]) (by simp [mem_members])
    have hattributes : Same node.attributes.toJson node'.attributes.toJson :=
      h.list "attributes" Fields.toJson (same_fields_iff.2 (.refl _))
        (by simp [mem_members]) (by simp [mem_members])
    have hproperties : Same node.properties.toJson node'.properties.toJson :=
      h.list "properties" Fields.toJson (same_fields_iff.2 (.refl _))
        (by simp [mem_members]) (by simp [mem_members])
    have hchildren : Same (.array children) (.array children') :=
      h.list "children" .array (.array .nil) (by simp [mem_members])
        (by simp [mem_members])
    rw [Json.same_array_iff] at hexpressions hchildren
    refine ⟨⟨?_, ?_, ?_, ?_, ?_, ?_⟩, hchildren⟩
    · exact (Json.text.inj (Json.same_text_iff.1 (hkind rfl))).symm
    · exact Json.eq_of_same_ofOption hsome hname
    · exact Json.eq_of_same_ofOption hsome' hcontent
    · exact Json.same_texts_iff.1 hexpressions
    · exact same_fields_iff.1 hattributes
    · exact same_fields_iff.1 hproperties
  · rintro ⟨h, hchildren⟩
    have hempty : children.isEmpty = children'.isEmpty := by cases hchildren <;> rfl
    refine ⟨_, ?_, .refl _⟩
    unfold Node.members
    rw [h.kind, h.name, h.expressions, h.content, h.attributes.isEmpty_eq, h.properties.isEmpty_eq,
      hempty]
    refine List.rel_append (List.rel_append (List.rel_append (List.rel_append (List.rel_append
      (List.rel_append ?_ ?_) ?_) ?_) ?_) ?_) ?_
    · exact .cons (.mk _ (.text _)) .nil
    · exact forall₂_optionalMember _ _ (Json.same_ofOption_self _)
    · exact forall₂_optionalMember _ _ (same_fields_iff.2 h.attributes)
    · exact forall₂_optionalMember _ _ (same_fields_iff.2 h.properties)
    · exact forall₂_optionalMember _ _ (.array (Json.same_texts_iff.2 rfl))
    · exact forall₂_optionalMember _ _ (Json.same_ofOption_self _)
    · exact forall₂_optionalMember _ _ (.array hchildren)

/-! ## Trees -/

namespace Tree

/-- What a node is shown as, with all that is below it. -/
def jsonAt (t : Tree) (id : Nat) : Json :=
  t.toJsonWithin t.size id

theorem jsonAt_eq {t : Tree} {id : Nat} (hid : t.parent? id ≠ some id) :
    t.jsonAt id = (t.node id).toJson ((t.children id).map t.jsonAt) := by
  refine bounded_size (fun id g => (t.node id).toJson ((t.children id).map g)) (fun _ _ => rfl) ?_ hid
  intro id g g' h
  exact congrArg _ (List.map_congr_left h)

/-! ## Numbers from the order of nodes -/

section Order

variable {t : Tree} (ht : t.Preordered)

include ht

/-- The nodes between a node and one below it are below it too. -/
theorem Preordered.descends_of_le {a d i : Nat} (h : t.Descends a d) (hlt : a < i) (hle : i ≤ d) :
    t.Descends a i := by
  induction h with
  | refl => omega
  | @tail c d hac hparent ih =>
    rcases Nat.lt_or_ge c i with hci | hic
    · exact hac.trans (ht.descends_of_between hparent hci hle)
    · exact ih hic

/-- The nodes below a node are those right behind it, up to some number. -/
theorem Preordered.exists_descendants_eq {id : Nat} (hid : id < t.size) :
    ∃ count, t.descendants id = List.range' (id + 1) count := by
  classical
  have hlast := Nat.findGreatest_spec (P := fun n => t.Descends id (id + n)) (Nat.zero_le t.size)
    Relation.ReflTransGen.refl
  refine ⟨Nat.findGreatest (fun n => t.Descends id (id + n)) t.size,
    ht.descendants_eq_range' hid fun i => ?_⟩
  constructor
  · rintro ⟨h, hlt⟩
    have hsize := lt_size_of_descends hid h
    have hle := Nat.le_findGreatest (P := fun n => t.Descends id (id + n)) (m := i - id)
      (by omega : i - id ≤ t.size) (by rwa [Nat.add_sub_cancel' (Nat.le_of_lt hlt)])
    omega
  · rintro ⟨hlt, hle⟩
    exact ⟨ht.descends_of_le hlast hlt hle, hlt⟩

/-- A node with what is below it are the numbers from its own on. -/
theorem Preordered.cons_descendants {id : Nat} (hid : id < t.size) :
    id :: t.descendants id = List.range' id ((t.descendants id).length + 1) := by
  obtain ⟨count, h⟩ := ht.exists_descendants_eq hid
  rw [h, List.length_range', List.range'_succ]

theorem Preordered.flatMap_children {id : Nat} (hid : id < t.size) :
    ∃ count, (t.children id).flatMap (fun i => List.range' i ((t.descendants i).length + 1)) =
      List.range' (id + 1) count := by
  obtain ⟨count, h⟩ := ht.exists_descendants_eq hid
  refine ⟨count, ?_⟩
  rw [← h, descendants_eq_flatMap (parent?_ne_self ht.parent_lt id)]
  exact List.flatMap_congr fun i hi => (ht.cons_descendants (lt_size_of_mem_children hi)).symm

end Order

/-- Numbers from which blocks of numbers start are known by the lengths of the blocks, if the blocks
stand one behind the other. -/
theorem eq_of_flatMap_range' {f g : Nat → Nat} {xs ys : List Nat}
    (h : List.Forall₂ (fun x y => f x = g y) xs ys) {start count count' : Nat}
    (hxs : xs.flatMap (fun x => List.range' x (f x + 1)) = List.range' start count)
    (hys : ys.flatMap (fun y => List.range' y (g y + 1)) = List.range' start count') : xs = ys := by
  induction h generalizing start count count' with
  | nil => rfl
  | @cons x y xs ys hxy _ ih =>
    rw [List.flatMap_cons, eq_comm, List.range'_eq_append_iff] at hxs hys
    obtain ⟨n, -, hx, hxs⟩ := hxs
    obtain ⟨m, -, hy, hys⟩ := hys
    rw [List.range'_inj] at hx hy
    obtain ⟨rfl, hx⟩ := hx
    obtain ⟨rfl, hy⟩ := hy
    have hstart : x = start := by omega
    have hstart' : y = start := by omega
    rw [hxy] at hxs
    rw [hstart, hstart', ih hxs hys]

/-! ## Two trees -/

section Compare

variable {t u : Tree} (ht : t.Preordered) (hu : u.Preordered)

include ht hu

theorem same_jsonAt_iff (i j : Nat) :
    Same (t.jsonAt i) (u.jsonAt j) ↔
      (t.node i).Agrees (u.node j) ∧
        List.Forall₂ (fun c c' => Same (t.jsonAt c) (u.jsonAt c')) (t.children i) (u.children j) := by
  rw [jsonAt_eq (parent?_ne_self ht.parent_lt i), jsonAt_eq (parent?_ne_self hu.parent_lt j),
    same_nodeToJson_iff, List.forall₂_map_left_iff, List.forall₂_map_right_iff]

omit ht hu in
theorem length_flatMap_eq {f g : Nat → List Nat} {xs ys : List Nat}
    (h : List.Forall₂ (fun x y => (f x).length = (g y).length) xs ys) :
    (xs.flatMap f).length = (ys.flatMap g).length := by
  induction h with
  | nil => rfl
  | cons hxy _ ih =>
    rw [List.flatMap_cons, List.flatMap_cons, List.length_append, List.length_append, hxy, ih]

/-- Nodes that are shown the same have equally many nodes below them. -/
theorem length_descendants_eq {i j : Nat} (h : Same (t.jsonAt i) (u.jsonAt j)) :
    (t.descendants i).length = (u.descendants j).length := by
  have hall : ∀ j, Same (t.jsonAt i) (u.jsonAt j) →
      (t.descendants i).length = (u.descendants j).length := by
    refine induction_on_children (fun i hi ih j h => ?_) (parent?_ne_self ht.parent_lt i)
    have hchildren := (List.forall₂_and_left (p := (· ∈ t.children i)) _ _).2
      ⟨fun _ hc => hc, ((same_jsonAt_iff ht hu i j).1 h).2⟩
    rw [descendants_eq_flatMap hi, descendants_eq_flatMap (parent?_ne_self hu.parent_lt j)]
    refine length_flatMap_eq (hchildren.imp fun c c' hc => ?_)
    rw [List.length_cons, List.length_cons, ih c hc.1 c' hc.2]
  exact hall j h

/-- Nodes of one number that are shown the same have the same children. -/
theorem children_eq_of_same {i : Nat} (hi : i < t.size) (hi' : i < u.size)
    (h : Same (t.jsonAt i) (u.jsonAt i)) : t.children i = u.children i := by
  obtain ⟨count, hcount⟩ := ht.flatMap_children hi
  obtain ⟨count', hcount'⟩ := hu.flatMap_children hi'
  have hchildren := ((same_jsonAt_iff ht hu i i).1 h).2
  exact eq_of_flatMap_range' (hchildren.imp fun c c' hc => length_descendants_eq ht hu hc) hcount
    hcount'

theorem size_eq_of_same (h : Same t.toJson u.toJson) : t.size = u.size := by
  have hlength := length_descendants_eq ht hu (i := 0) (j := 0) h
  rw [ht.descendants_root, hu.descendants_root, List.length_range', List.length_range'] at hlength
  have hpos : 0 < t.size := Nat.succ_pos _
  have hpos' : 0 < u.size := Nat.succ_pos _
  omega

/-- If two trees are shown the same, so are any two nodes of one number. -/
theorem same_jsonAt_of_same (h : Same t.toJson u.toJson) {i : Nat} (hi : i < t.size) :
    Same (t.jsonAt i) (u.jsonAt i) := by
  have hsize := size_eq_of_same ht hu h
  induction i using Nat.strongRecOn with
  | ind i ih =>
    cases i with
    | zero => exact h
    | succ i =>
      -- a node is shown where its parent is
      obtain ⟨p, -, hlt, hmem⟩ := exists_mem_children ht.parent_lt (Nat.succ_pos i) hi
      have hpsize : p < t.size := Nat.lt_trans hlt hi
      have hsame := ih p hlt hpsize
      have hchildren := ((same_jsonAt_iff ht hu p p).1 hsame).2
      rw [← children_eq_of_same ht hu hpsize (hsize ▸ hpsize) hsame, List.forall₂_same] at hchildren
      exact hchildren (i + 1) hmem

/-- Two trees whose nodes are numbered in document order agree if they are shown the same. -/
theorem agrees_of_same (h : Same t.toJson u.toJson) (k : Nat) :
    (t.node k).Agrees (u.node k) ∧ t.children k = u.children k ∧ t.parent? k = u.parent? k := by
  have hsize := size_eq_of_same ht hu h
  have hinside : ∀ i, i < t.size → (t.node i).Agrees (u.node i) ∧ t.children i = u.children i := by
    intro i hi
    have hsame := same_jsonAt_of_same ht hu h hi
    exact ⟨((same_jsonAt_iff ht hu i i).1 hsame).1, children_eq_of_same ht hu hi (hsize ▸ hi) hsame⟩
  rcases Nat.lt_or_ge k t.size with hk | hk
  · obtain ⟨hnode, hchildren⟩ := hinside k hk
    refine ⟨hnode, hchildren, ?_⟩
    cases k with
    | zero => rfl
    | succ k =>
      obtain ⟨p, hp, hlt, hmem⟩ := exists_mem_children ht.parent_lt (Nat.succ_pos k) hk
      have hpsize : p < t.size := Nat.lt_trans hlt hk
      rw [(hinside p hpsize).2] at hmem
      rw [hp, (mem_children_iff hu.parent_lt (hsize ▸ hpsize)).1 hmem]
  · -- a number that is not in the trees is read as the root
    have hk' : u.size ≤ k := hsize ▸ hk
    obtain ⟨hnode, hchildren⟩ := hinside 0 (Nat.succ_pos _)
    rw [node_of_size_le hk, node_of_size_le hk', children_of_size_le hk, children_of_size_le hk',
      parent?_of_size_le hk, parent?_of_size_le hk']
    exact ⟨hnode, hchildren, rfl⟩

theorem same_of_agrees
    (h : ∀ k, (t.node k).Agrees (u.node k) ∧ t.children k = u.children k) (i : Nat) :
    Same (t.jsonAt i) (u.jsonAt i) := by
  refine induction_on_children (fun i hi ih => ?_) (parent?_ne_self ht.parent_lt i)
  rw [same_jsonAt_iff ht hu, ← (h i).2, List.forall₂_same]
  exact ⟨(h i).1, ih⟩

end Compare

end Tree

/-- The nested view shows everything. The views of the trees of two elements, whatever the options, are
the same up to the order of members exactly if the trees have equally many nodes, and the nodes of one
number have the same kind, name, content and expressions, the same attributes and properties in some
order, and the same children and parent. -/
theorem same_toJson_iff (o o' : Options) (e e' : Element) :
    Same (Reading.ofElement o e).tree.toJson (Reading.ofElement o' e').tree.toJson ↔
      (Reading.ofElement o e).tree.size = (Reading.ofElement o' e').tree.size ∧
      ∀ k, ((Reading.ofElement o e).tree.node k).Agrees ((Reading.ofElement o' e').tree.node k) ∧
        (Reading.ofElement o e).tree.children k = (Reading.ofElement o' e').tree.children k ∧
        (Reading.ofElement o e).tree.parent? k = (Reading.ofElement o' e').tree.parent? k := by
  have ht := preordered_ofElement o e
  have hu := preordered_ofElement o' e'
  constructor
  · intro h
    exact ⟨Tree.size_eq_of_same ht hu h, Tree.agrees_of_same ht hu h⟩
  · rintro ⟨-, h⟩
    exact Tree.same_of_agrees ht hu (fun k => ⟨(h k).1, (h k).2.1⟩) 0

end SsisCompiler.Package
