import SsisCompiler.Proofs.Names.Registry

/-!
# Who gets a name

A name that no number can make is given at most once, to the node that takes it first. A request takes
a name if it asks for a node whose method name is made from it, or if it reserves it. So it is the first
request that takes the name which decides: the node that it asks for gets the name, and if it reserves
the name then no method ever has it.

Results:
* `nameOf?_serveAll_of_used`: a name in use is given to no other node.
* `nameOf?_serveAll_eq_iff`: a node has a name in the end exactly if the first request that takes the
  name asks for the node.
-/

namespace SsisCompiler.Compile

open CSharp (Variable)
open Package (NodeId Tree)

/-- A name that is no other name with a number behind it. -/
def IsUnnumbered (name : String) : Prop :=
  ∀ (base : String) (n : Nat), base ++ toString n ≠ name

theorem isUnnumbered_of_getLast? {name : String} {c : Char} (hlast : name.toList.getLast? = some c)
    (hc : c.isDigit = false) : IsUnnumbered name := by
  rintro base n rfl
  rw [String.toList_append, Nat.toString_eq_repr, Nat.toList_repr,
    List.getLast?_append_of_ne_nil _ Nat.toDigits_ne_nil] at hlast
  have hdigit : c.isDigit = true :=
    Nat.isDigit_of_mem_toDigits (by omega) (by omega) (List.mem_of_getLast? hlast)
  rw [hc] at hdigit
  cases hdigit

namespace Names

variable {t : Tree} {name : String}

theorem fresh_eq_iff {names : Names} (hlegal : LegalName name) (hname : IsUnnumbered name)
    (hused : name ∉ names.used) (base : String) : names.fresh base = name ↔ base = name := by
  constructor
  · intro h
    rcases fresh_cases names base with ⟨-, heq⟩ | ⟨n, -, -, heq⟩
    · exact heq.symm.trans h
    · exact absurd (heq.symm.trans h) (hname base n)
  · rintro rfl
    have hfree : ¬ names.isTaken base = true := by
      rw [isTaken_eq_true_iff]
      simp [taken, hused, hlegal.not_keyword, hlegal.not_fixed]
    rw [fresh, if_neg hfree]

theorem Grows.nameOf?_of_not_asked {asked : List NodeId} {a b : Names} (h : Grows asked a b)
    {id : NodeId} (hid : id ∉ asked) (hname : b.nameOf? id = some name) :
    a.nameOf? id = some name := by
  cases hold : a.nameOf? id with
  | some other => rw [← hname, h.keeps hold]
  | none =>
    rw [nameOf?_eq_none_iff] at hold
    exact absurd (((h.mem_ids id).1 (mem_ids_of_nameOf? hname)).resolve_left hold) hid

/-- Nothing has taken a name yet. -/
structure Untaken (t : Tree) (name : String) (names : Names) : Prop where
  not_used : name ∉ names.used
  base_ne : ∀ id ∈ names.ids, base t id ≠ name

theorem untaken_empty (t : Tree) (name : String) : Untaken t name {} :=
  ⟨List.not_mem_nil, by simp [ids]⟩

theorem Untaken.nameOf?_ne {names : Names} (h : Untaken t name names) (hs : names.Sound)
    (id : NodeId) : names.nameOf? id ≠ some name :=
  fun hid => h.not_used (hs.mem_used _ (mem_given_of_nameOf? hid))

theorem Untaken.give {names : Names} (h : Untaken t name names) (hlegal : LegalName name)
    (hname : IsUnnumbered name) {id : NodeId} (hid : base t id ≠ name) :
    Untaken t name (names.give t id).2 where
  not_used := by
    cases hgiven : names.nameOf? id with
    | some other =>
      rw [give_of_named t hgiven]
      exact h.not_used
    | none =>
      have hne := mt (fresh_eq_iff hlegal hname h.not_used (base t id)).1 hid
      rw [give_of_unnamed t hgiven, List.mem_cons, not_or]
      exact ⟨Ne.symm hne, h.not_used⟩
  base_ne i hi := by
    rcases ((grows_give t id names).mem_ids i).1 hi with hold | hnew
    · exact h.base_ne i hold
    · rw [List.mem_singleton.1 hnew]
      exact hid

theorem Untaken.reserve {names : Names} (h : Untaken t name names) {other : String}
    (hother : other ≠ name) : Untaken t name (names.reserve other) where
  not_used hmem := (List.mem_cons.1 hmem).elim (fun heq => hother heq.symm) h.not_used
  base_ne := h.base_ne

theorem Untaken.reserveAll {names : Names} (h : Untaken t name names) {vs : List Variable}
    (hvs : name ∉ vs.map (·.name)) :
    Untaken t name (vs.foldl (fun names v => names.reserve v.name) names) := by
  induction vs generalizing names with
  | nil => exact h
  | cons v vs ih =>
    obtain ⟨hv, hrest⟩ := not_or.1 (mt List.mem_cons.2 hvs)
    exact ih (h.reserve (Ne.symm hv)) hrest

/-- The node that takes a name gets it. -/
theorem Untaken.give_eq {names : Names} (h : Untaken t name names) (hlegal : LegalName name)
    (hname : IsUnnumbered name) {id : NodeId} (hid : base t id = name) :
    (names.give t id).1 = name := by
  have hnew : names.nameOf? id = none := by
    rw [nameOf?_eq_none_iff]
    exact fun hmem => h.base_ne id hmem hid
  rw [give_of_unnamed t hnew]
  exact (fresh_eq_iff hlegal hname h.not_used _).2 hid

end Names

namespace Request

/-- Whether a request takes a name. -/
def takes (t : Tree) (name : String) : Request → Bool
  | .ask id => Names.base t id == name
  | request => request.reserved.contains name

variable {t : Tree} {name : String}

theorem serveAll_cons (t : Tree) (request : Request) (requests : List Request) (s : Session) :
    (serveAll t (request :: requests) s).2 = (serveAll t requests (request.serve t s).2).2 := rfl

/-- A name in use is given to no other node. -/
theorem nameOf?_serve_of_used (request : Request) {s : Session} (h : name ∈ s.names.used)
    (id : NodeId) :
    (request.serve t s).2.names.nameOf? id = some name ↔ s.names.nameOf? id = some name := by
  have hgrows := grows_serve t request s
  refine ⟨fun hid => ?_, hgrows.keeps⟩
  cases request with
  | ask i =>
    by_cases hold : i ∈ s.names.ids
    · obtain ⟨other, hother⟩ := Option.ne_none_iff_exists'.1
        (mt (Names.nameOf?_eq_none_iff s.names i).1 (not_not.2 hold))
      have hserve : (serve t s (.ask i)).2.names = s.names :=
        congrArg Prod.snd (Names.give_of_named t hother)
      rwa [hserve] at hid
    · refine hgrows.nameOf?_of_not_asked (fun hasked => ?_) hid
      obtain rfl := List.mem_singleton.1 hasked
      have hgiven := (Names.nameOf?_give t id s.names).symm.trans hid
      exact absurd h (Option.some.inj hgiven ▸ Names.give_not_mem_used t hold)
  | reserve other => exact hgrows.nameOf?_of_not_asked List.not_mem_nil hid
  | declare fields => exact hgrows.nameOf?_of_not_asked List.not_mem_nil hid

theorem nameOf?_serveAll_of_used (requests : List Request) {s : Session}
    (h : name ∈ s.names.used) (id : NodeId) :
    (serveAll t requests s).2.names.nameOf? id = some name ↔ s.names.nameOf? id = some name := by
  induction requests generalizing s with
  | nil => exact Iff.rfl
  | cons request requests ih =>
    rw [serveAll_cons, ih ((grows_serve t request s).used_subset h), nameOf?_serve_of_used request h]

theorem untaken_serve (hlegal : LegalName name) (hname : IsUnnumbered name) {request : Request}
    (hrequest : request.takes t name = false) {s : Session} (h : s.names.Untaken t name) :
    (request.serve t s).2.names.Untaken t name := by
  cases request with
  | ask id => exact h.give hlegal hname (by simpa [takes] using hrequest)
  | reserve other => exact h.reserve (Ne.symm (by simpa [takes, reserved] using hrequest))
  | declare fields =>
    rw [serve, names_declareGlobals]
    exact h.reserveAll (by simpa [takes, reserved] using hrequest)

/-- A request that takes a name uses it up, and gives it to the node that it asks for. -/
theorem nameOf?_serve_of_takes (hlegal : LegalName name) (hname : IsUnnumbered name)
    {request : Request} (hrequest : request.takes t name = true) {s : Session}
    (hs : s.names.Sound) (h : s.names.Untaken t name) :
    name ∈ (request.serve t s).2.names.used ∧
      ∀ id, (request.serve t s).2.names.nameOf? id = some name ↔ request = .ask id := by
  have hgrows := grows_serve t request s
  have hsound := hgrows.sound hs
  -- a request that only reserves names gives none
  have hnobody (hasked : request.asked = []) (id : NodeId) :
      (request.serve t s).2.names.nameOf? id ≠ some name :=
    fun hid => h.nameOf?_ne hs id (hgrows.nameOf?_of_not_asked (hasked ▸ List.not_mem_nil) hid)
  cases request with
  | ask i =>
    have hgiven : (serve t s (.ask i)).2.names.nameOf? i = some name := by
      rw [← h.give_eq hlegal hname (by simpa [takes] using hrequest)]
      exact Names.nameOf?_give t i s.names
    refine ⟨hsound.mem_used _ (Names.mem_given_of_nameOf? hgiven), fun id => ⟨fun hid => ?_, ?_⟩⟩
    · rw [hsound.nameOf?_inj hgiven hid]
    · intro heq
      obtain rfl := Request.ask.inj heq
      exact hgiven
  | reserve other =>
    exact ⟨mem_used_serve t _ s (by simpa [takes] using hrequest),
      fun id => iff_of_false (hnobody rfl id) (by simp)⟩
  | declare fields =>
    exact ⟨mem_used_serve t _ s (by simpa [takes] using hrequest),
      fun id => iff_of_false (hnobody rfl id) (by simp)⟩

/-- The first request that takes a name decides who has it in the end. -/
theorem nameOf?_serveAll_eq_iff (hlegal : LegalName name) (hname : IsUnnumbered name)
    (requests : List Request) {s : Session} (hs : s.names.Sound) (h : s.names.Untaken t name)
    (id : NodeId) :
    (serveAll t requests s).2.names.nameOf? id = some name ↔
      requests.find? (takes t name) = some (.ask id) := by
  induction requests generalizing s with
  | nil => exact ⟨fun hid => absurd hid (h.nameOf?_ne hs id), fun hfind => by cases hfind⟩
  | cons request requests ih =>
    rw [serveAll_cons]
    by_cases hrequest : request.takes t name = true
    · obtain ⟨hused, hiff⟩ := nameOf?_serve_of_takes hlegal hname hrequest hs h
      rw [List.find?_cons_of_pos hrequest, Option.some.injEq, ← hiff]
      exact nameOf?_serveAll_of_used requests hused id
    · rw [List.find?_cons_of_neg hrequest]
      exact ih ((grows_serve t request s).sound hs)
        (untaken_serve hlegal hname (Bool.eq_false_iff.2 hrequest) h)

end Request

end SsisCompiler.Compile
