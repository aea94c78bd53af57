import Mathlib.Data.Finset.Card
import SsisCompiler.Compile.Session
import SsisCompiler.Proofs.Names.Fresh

/-!
# The registry of method names

A session hands out method names, reserves names and declares the variables of the program, in any
order. `Names.Sound` is what holds of the names of every session, and `Names.Grows` is what any number
of steps does to them: names that were given stay, and exactly the nodes that were asked for get one.

Results:
* `grows_give`, `grows_reserve`: what each step does.
* `grows_serveAll`: what every run of a session does.
* `serveAll_names`: the names that a new session hands out over any run.
-/

namespace SsisCompiler.Compile

open CSharp (Variable isIdentifier)
open Package (NodeId Tree)

/-- A name that a method may have: a plain identifier, no keyword and no member of every program. -/
structure LegalName (name : String) : Prop where
  isIdentifier : isIdentifier name = true
  not_keyword : name ∉ CSharp.keywords
  not_fixed : name ∉ CSharp.fixedMembers

namespace Names

/-- The name that a node got. -/
def nameOf? (names : Names) (id : NodeId) : Option String :=
  names.given.lookup id

/-- The nodes that have a name. -/
def ids (names : Names) : List NodeId :=
  names.given.map (·.1)

/-- What holds of the names of every session. -/
structure Sound (names : Names) : Prop where
  nodup_ids : names.ids.Nodup
  nodup_names : (names.given.map (·.2)).Nodup
  mem_used : ∀ entry ∈ names.given, entry.2 ∈ names.used
  legal : ∀ entry ∈ names.given, LegalName entry.2

theorem sound_empty : Sound {} :=
  ⟨.nil, .nil, by simp, by simp⟩

theorem mem_given_of_nameOf? {names : Names} {id : NodeId} {name : String}
    (h : names.nameOf? id = some name) : (id, name) ∈ names.given := by
  obtain ⟨before, after, hgiven, -⟩ := List.lookup_eq_some_iff.1 h
  rw [hgiven]
  simp

theorem nameOf?_eq_none_iff (names : Names) (id : NodeId) :
    names.nameOf? id = none ↔ id ∉ names.ids := by
  simp only [nameOf?, ids, List.lookup_eq_none_iff, List.mem_map, not_exists, not_and]
  constructor
  · intro h entry hentry heq
    simpa [heq] using h entry hentry
  · intro h entry hentry
    simpa using fun heq => h entry hentry heq.symm

theorem mem_ids_of_nameOf? {names : Names} {id : NodeId} {name : String}
    (h : names.nameOf? id = some name) : id ∈ names.ids := by
  by_contra hnot
  rw [(nameOf?_eq_none_iff names id).2 hnot] at h
  cases h

theorem count_eq_length_ids (names : Names) : names.count = names.ids.length := by
  simp [count, ids]

/-- Two nodes that have one name are the same node. -/
theorem Sound.nameOf?_inj {names : Names} (hs : names.Sound) {i j : NodeId} {name : String}
    (hi : names.nameOf? i = some name) (hj : names.nameOf? j = some name) : i = j := by
  have heq := List.inj_on_of_nodup_map hs.nodup_names (mem_given_of_nameOf? hi)
    (mem_given_of_nameOf? hj) rfl
  exact congrArg Prod.fst heq

theorem Sound.legal_of_nameOf? {names : Names} (hs : names.Sound) {id : NodeId} {name : String}
    (h : names.nameOf? id = some name) : LegalName name :=
  hs.legal _ (mem_given_of_nameOf? h)

/-! ## Steps -/

theorem give_of_named (t : Tree) {names : Names} {id : NodeId} {name : String}
    (h : names.nameOf? id = some name) : names.give t id = (name, names) := by
  unfold nameOf? at h
  simp only [give, h]

theorem give_of_unnamed (t : Tree) {names : Names} {id : NodeId} (h : names.nameOf? id = none) :
    names.give t id =
      (names.fresh (base t id), ⟨(id, names.fresh (base t id)) :: names.given,
        names.fresh (base t id) :: names.used⟩) := by
  unfold nameOf? at h
  simp only [give, h]

theorem nameOf?_give (t : Tree) (id : NodeId) (names : Names) :
    (names.give t id).2.nameOf? id = some (names.give t id).1 := by
  cases h : names.nameOf? id with
  | none =>
    rw [give_of_unnamed t h]
    simp [nameOf?]
  | some name =>
    rw [give_of_named t h]
    exact h

theorem fresh_not_mem_used (names : Names) (base : String) : names.fresh base ∉ names.used := by
  intro hmem
  have hfree := isTaken_fresh names base
  rw [(isTaken_eq_true_iff names _).2 (by simp [taken, hmem])] at hfree
  cases hfree

theorem legalName_fresh (t : Tree) (id : NodeId) (names : Names) :
    LegalName (names.fresh (base t id)) := by
  have hnot : names.fresh (base t id) ∉ names.taken := by
    rw [← isTaken_eq_true_iff, isTaken_fresh]
    simp
  simp only [taken, List.mem_append, not_or] at hnot
  exact ⟨isIdentifier_fresh names (isIdentifier_base t id), hnot.1.2, hnot.2⟩

/-- What steps that name the nodes `asked` make of some names. -/
structure Grows (asked : List NodeId) (names names' : Names) : Prop where
  keeps : ∀ {id name}, names.nameOf? id = some name → names'.nameOf? id = some name
  used_subset : names.used ⊆ names'.used
  mem_ids : ∀ id, id ∈ names'.ids ↔ id ∈ names.ids ∨ id ∈ asked
  sound : names.Sound → names'.Sound

theorem Grows.refl (names : Names) : Grows [] names names :=
  ⟨fun h => h, fun _ h => h, by simp, fun h => h⟩

theorem Grows.trans {asked asked' : List NodeId} {a b c : Names} (hab : Grows asked a b)
    (hbc : Grows asked' b c) : Grows (asked ++ asked') a c where
  keeps h := hbc.keeps (hab.keeps h)
  used_subset _ h := hbc.used_subset (hab.used_subset h)
  mem_ids id := by rw [hbc.mem_ids, hab.mem_ids, List.mem_append, or_assoc]
  sound h := hbc.sound (hab.sound h)

theorem Grows.congr {asked asked' : List NodeId} {a b : Names} (h : Grows asked a b)
    (hsame : ∀ id, id ∈ asked ↔ id ∈ asked') : Grows asked' a b :=
  ⟨h.keeps, h.used_subset, fun id => by rw [h.mem_ids, hsame], h.sound⟩

theorem grows_reserve (name : String) (names : Names) : Grows [] names (names.reserve name) where
  keeps h := h
  used_subset _ h := List.mem_cons_of_mem _ h
  mem_ids id := by simp [reserve, ids]
  sound h := ⟨h.nodup_ids, h.nodup_names, fun entry hentry =>
    List.mem_cons_of_mem _ (h.mem_used entry hentry), h.legal⟩

theorem grows_give (t : Tree) (id : NodeId) (names : Names) :
    Grows [id] names (names.give t id).2 := by
  cases h : names.nameOf? id with
  | some name =>
    rw [give_of_named t h]
    refine ⟨fun h => h, fun _ h => h, fun i => ?_, fun h => h⟩
    have hid := mem_ids_of_nameOf? h
    simp only [List.mem_singleton]
    exact ⟨Or.inl, fun hi => hi.elim (fun hi => hi) fun hi => hi ▸ hid⟩
  | none =>
    have hid := (nameOf?_eq_none_iff names id).1 h
    rw [give_of_unnamed t h]
    refine ⟨?_, fun _ h => List.mem_cons_of_mem _ h, fun i => ?_, fun hs => ?_⟩
    · intro i name hi
      have hne : i ≠ id := by
        rintro rfl
        rw [h] at hi
        cases hi
      unfold nameOf? at hi ⊢
      rw [List.lookup_cons, beq_eq_false_iff_ne.2 hne]
      exact hi
    · simp [ids, or_comm]
    · have hfresh := fresh_not_mem_used names (base t id)
      refine ⟨List.nodup_cons.2 ⟨hid, hs.nodup_ids⟩, List.nodup_cons.2 ⟨?_, hs.nodup_names⟩, ?_, ?_⟩
      · intro hmem
        obtain ⟨entry, hentry, heq⟩ := List.mem_map.1 hmem
        have hused := hs.mem_used entry hentry
        rw [heq] at hused
        exact hfresh hused
      · intro entry hentry
        rcases List.mem_cons.1 hentry with rfl | hentry
        · exact List.mem_cons_self
        · exact List.mem_cons_of_mem _ (hs.mem_used entry hentry)
      · intro entry hentry
        rcases List.mem_cons.1 hentry with rfl | hentry
        · exact legalName_fresh t id names
        · exact hs.legal entry hentry

/-- A name that is given for the first time is none of those in use. -/
theorem give_not_mem_used (t : Tree) {id : NodeId} {names : Names} (h : id ∉ names.ids) :
    (names.give t id).1 ∉ names.used := by
  rw [give_of_unnamed t ((nameOf?_eq_none_iff names id).2 h)]
  exact fresh_not_mem_used names _

/-! ## Several steps -/

theorem grows_reserveAll (vs : List Variable) (names : Names) :
    Grows [] names (vs.foldl (fun names v => names.reserve v.name) names) := by
  induction vs generalizing names with
  | nil => exact .refl names
  | cons v vs ih => exact (grows_reserve v.name names).trans (ih (names.reserve v.name))

theorem mem_used_reserveAll (vs : List Variable) (names : Names) {v : Variable} (hv : v ∈ vs) :
    v.name ∈ (vs.foldl (fun names v => names.reserve v.name) names).used := by
  induction vs generalizing names with
  | nil => cases hv
  | cons w vs ih =>
    rcases List.mem_cons.1 hv with rfl | hv
    · exact (grows_reserveAll vs _).used_subset List.mem_cons_self
    · exact ih (names.reserve w.name) hv

theorem giveAll_cons (t : Tree) (id : NodeId) (ids : List NodeId) (names : Names) :
    giveAll t (id :: ids) names =
      ((names.give t id).1 :: ((names.give t id).2.giveAll t ids).1,
        ((names.give t id).2.giveAll t ids).2) := rfl

theorem grows_giveAll (t : Tree) (ids : List NodeId) (names : Names) :
    Grows ids names (names.giveAll t ids).2 := by
  induction ids generalizing names with
  | nil => exact .refl names
  | cons id ids ih => exact (grows_give t id names).trans (ih _)

theorem length_giveAll (t : Tree) (ids : List NodeId) (names : Names) :
    (names.giveAll t ids).1.length = ids.length := by
  induction ids generalizing names with
  | nil => rfl
  | cons id ids ih => rw [giveAll_cons, List.length_cons, List.length_cons, ih]

theorem nameOf?_giveAll (t : Tree) (ids : List NodeId) (names : Names) {k : Nat} {id : NodeId}
    (h : ids[k]? = some id) :
    (names.giveAll t ids).2.nameOf? id = (names.giveAll t ids).1[k]? := by
  induction ids generalizing names k with
  | nil => simp at h
  | cons first ids ih =>
    rw [giveAll_cons]
    cases k with
    | zero =>
      obtain rfl : first = id := by simpa using h
      exact (grows_giveAll t ids _).keeps (nameOf?_give t first names)
    | succ k => exact ih _ h

/-- Names that are given for the first time are none of those in use. -/
theorem giveAll_not_mem_used (t : Tree) {ids : List NodeId} {names : Names} (hnodup : ids.Nodup)
    (hnew : ∀ id ∈ ids, id ∉ names.ids) {name : String} (h : name ∈ (names.giveAll t ids).1) :
    name ∉ names.used := by
  induction ids generalizing names with
  | nil => cases h
  | cons id ids ih =>
    obtain ⟨hid, hnodup⟩ := List.nodup_cons.1 hnodup
    rw [giveAll_cons, List.mem_cons] at h
    rcases h with rfl | h
    · exact give_not_mem_used t (hnew id List.mem_cons_self)
    · intro hused
      refine ih hnodup (fun i hi => ?_) h ((grows_give t id names).used_subset hused)
      rw [(grows_give t id names).mem_ids, List.mem_singleton]
      rintro (hmem | rfl)
      · exact hnew i (List.mem_cons_of_mem _ hi) hmem
      · exact hid hi

end Names

/-! ## Runs of a session -/

/-- What can be asked of a session about names. -/
inductive Request
  /-- The name of a node's method. -/
  | ask (id : NodeId)
  /-- That no method takes a name. -/
  | reserve (name : String)
  /-- That these are the variables of the program. -/
  | declare (fields : List Variable)
  deriving DecidableEq, Repr

namespace Request

/-- The nodes that a request asks a name for. -/
def asked : Request → List NodeId
  | .ask id => [id]
  | _ => []

/-- The names that no method may take from a request on. -/
def reserved : Request → List String
  | .reserve name => [name]
  | .declare fields => fields.map (·.name)
  | _ => []

/-- The answer to a request, with the node that it is about, and the session after it. -/
def serve (t : Tree) (s : Session) : Request → List (NodeId × String) × Session
  | .ask id =>
    let (name, s) := s.methodName t id
    ([(id, name)], s)
  | .reserve name => ([], s.reserve name)
  | .declare fields => ([], s.declareGlobals fields)

/-- The answers to requests one after the other, and the session after them. -/
def serveAll (t : Tree) : List Request → Session → List (NodeId × String) × Session
  | [], s => ([], s)
  | request :: requests, s =>
    let (answers, s) := request.serve t s
    let (others, s) := serveAll t requests s
    (answers ++ others, s)

theorem names_declareGlobals (s : Session) (fields : List Variable) :
    (s.declareGlobals fields).names =
      fields.foldl (fun names v => names.reserve v.name) s.names := by
  show (fields.foldl (fun s v => s.reserve v.name) s).names = _
  induction fields generalizing s with
  | nil => rfl
  | cons v fields ih => exact ih (s.reserve v.name)

/-! ### What one request does -/

theorem grows_serve (t : Tree) (request : Request) (s : Session) :
    s.names.Grows request.asked (request.serve t s).2.names := by
  cases request with
  | ask id => exact Names.grows_give t id s.names
  | reserve name => exact Names.grows_reserve name s.names
  | declare fields =>
    rw [serve, names_declareGlobals]
    exact Names.grows_reserveAll fields s.names

theorem nameOf?_serve (t : Tree) (request : Request) (s : Session) :
    ∀ answer ∈ (request.serve t s).1,
      (request.serve t s).2.names.nameOf? answer.1 = some answer.2 := by
  cases request with
  | ask id =>
    intro answer h
    rw [List.mem_singleton.1 h]
    exact Names.nameOf?_give t id s.names
  | reserve name => simp [serve]
  | declare fields => simp [serve]

theorem map_fst_serve (t : Tree) (request : Request) (s : Session) :
    (request.serve t s).1.map (·.1) = request.asked := by
  cases request <;> rfl

theorem mem_used_serve (t : Tree) (request : Request) (s : Session) {name : String}
    (h : name ∈ request.reserved) : name ∈ (request.serve t s).2.names.used := by
  cases request with
  | ask id => cases h
  | reserve other =>
    rw [List.mem_singleton.1 h]
    exact List.mem_cons_self
  | declare fields =>
    obtain ⟨v, hv, rfl⟩ := List.mem_map.1 h
    rw [serve, names_declareGlobals]
    exact Names.mem_used_reserveAll fields s.names hv

/-! ### What a run does -/

theorem serveAll_append (t : Tree) (requests later : List Request) (s : Session) :
    serveAll t (requests ++ later) s =
      ((serveAll t requests s).1 ++ (serveAll t later (serveAll t requests s).2).1,
        (serveAll t later (serveAll t requests s).2).2) := by
  induction requests generalizing s with
  | nil => rfl
  | cons request requests ih =>
    simp only [List.cons_append, serveAll, ih, List.append_assoc]

theorem grows_serveAll (t : Tree) (requests : List Request) (s : Session) :
    s.names.Grows (requests.flatMap asked) (serveAll t requests s).2.names := by
  induction requests generalizing s with
  | nil => exact .refl s.names
  | cons request requests ih => exact (grows_serve t request s).trans (ih _)

/-- Every answer is still the name of its node at the end of the run. -/
theorem nameOf?_serveAll (t : Tree) (requests : List Request) (s : Session) :
    ∀ answer ∈ (serveAll t requests s).1,
      (serveAll t requests s).2.names.nameOf? answer.1 = some answer.2 := by
  induction requests generalizing s with
  | nil => simp [serveAll]
  | cons request requests ih =>
    intro answer h
    rcases List.mem_append.1 h with h | h
    · exact (grows_serveAll t requests _).keeps (nameOf?_serve t request s answer h)
    · exact ih _ answer h

theorem map_fst_serveAll (t : Tree) (requests : List Request) (s : Session) :
    (serveAll t requests s).1.map (·.1) = requests.flatMap asked := by
  induction requests generalizing s with
  | nil => rfl
  | cons request requests ih =>
    simp only [serveAll, List.map_append, map_fst_serve, ih, List.flatMap_cons]

theorem mem_used_serveAll (t : Tree) (requests : List Request) (s : Session) {name : String}
    (h : name ∈ requests.flatMap reserved) : name ∈ (serveAll t requests s).2.names.used := by
  induction requests generalizing s with
  | nil => cases h
  | cons request requests ih =>
    rcases List.mem_append.1 h with h | h
    · exact (grows_serveAll t requests _).used_subset (mem_used_serve t request s h)
    · exact ih _ h

/-- The first name that a node gets is none of those reserved before. -/
theorem first_answer_not_reserved (t : Tree) (before after : List Request) (id : NodeId)
    (s : Session) (hnew : id ∉ s.names.ids) (hfirst : id ∉ before.flatMap asked) {name : String}
    (h : (serveAll t (before ++ .ask id :: after) s).2.names.nameOf? id = some name) :
    name ∉ before.flatMap reserved := by
  let s' := (serveAll t before s).2
  have hunnamed : id ∉ s'.names.ids := by
    rw [(grows_serveAll t before s).mem_ids]
    exact fun hid => hid.elim hnew hfirst
  have hkept : (serveAll t (before ++ .ask id :: after) s).2.names.nameOf? id =
      some (s'.names.give t id).1 := by
    rw [serveAll_append]
    exact (grows_serveAll t after _).keeps (Names.nameOf?_give t id s'.names)
  rw [hkept] at h
  obtain rfl := Option.some.inj h
  intro hreserved
  exact Names.give_not_mem_used t hunnamed (mem_used_serveAll t before s hreserved)

/-- What a new session answers to any requests in any order: every request for a name is answered in
turn; two answers have one name exactly if they are about one node; every name is a legal one; a node's
name is none of those reserved before the node was first asked for; and as many nodes have a name as
were asked for. -/
theorem serveAll_names (t : Tree) (options : Options) (requests : List Request)
    (answers : List (NodeId × String)) (s : Session)
    (h : serveAll t requests { options := options } = (answers, s)) :
    answers.map (·.1) = requests.flatMap asked ∧
    (∀ a ∈ answers, ∀ b ∈ answers, a.1 = b.1 ↔ a.2 = b.2) ∧
    (∀ a ∈ answers, isIdentifier a.2 = true ∧ a.2 ∉ CSharp.keywords ∧ a.2 ≠ "Main") ∧
    (∀ before id after, requests = before ++ .ask id :: after → id ∉ before.flatMap asked →
      ∀ name, (id, name) ∈ answers → name ∉ before.flatMap reserved) ∧
    s.names.count = (requests.flatMap asked).toFinset.card := by
  have hanswers : answers = (serveAll t requests { options := options }).1 := by rw [h]
  have hs : s = (serveAll t requests { options := options }).2 := by rw [h]
  have hgrows := grows_serveAll t requests { options := options }
  have hnames := nameOf?_serveAll t requests { options := options }
  rw [← hs] at hgrows
  rw [← hs, ← hanswers] at hnames
  have hsound : s.names.Sound := hgrows.sound Names.sound_empty
  refine ⟨?_, ?_, ?_, ?_, ?_⟩
  · rw [hanswers, map_fst_serveAll]
  · intro a ha b hb
    constructor
    · intro heq
      have hb' := hnames b hb
      rw [← heq, hnames a ha] at hb'
      exact Option.some.inj hb'
    · intro heq
      exact hsound.nameOf?_inj (hnames a ha) (heq ▸ hnames b hb)
  · intro a ha
    have hlegal := hsound.legal_of_nameOf? (hnames a ha)
    exact ⟨hlegal.isIdentifier, hlegal.not_keyword,
      by simpa [CSharp.fixedMembers] using hlegal.not_fixed⟩
  · intro before id after heq hfirst name hname
    have hlast := hnames _ hname
    rw [hs, heq] at hlast
    exact first_answer_not_reserved t before after id _ (by simp [Names.ids]) hfirst hlast
  · have hsame : s.names.ids.toFinset = (requests.flatMap asked).toFinset := by
      ext id
      rw [List.mem_toFinset, List.mem_toFinset, hgrows.mem_ids]
      simp [Names.ids]
    rw [Names.count_eq_length_ids, ← List.toFinset_card_of_nodup hsound.nodup_ids, hsame]

/-- Two executables of one name, and a third with the name that the second would get. -/
def loadTree : Tree where
  root := { kind := Package.executableKind }
  entries := #[⟨0, { kind := Package.executableKind, name := some "Load" }⟩,
    ⟨0, { kind := Package.executableKind, name := some "Load" }⟩,
    ⟨0, { kind := Package.executableKind, name := some "Load2" }⟩]

/-- A reserved name pushes the second and the third executable to names further on. -/
theorem serveAll_names_loadTree :
    let requests := [.ask 1, .reserve "Load2", .ask 2, .ask 3, .ask 1]
    (serveAll loadTree requests {}).1 =
        [(1, "Load"), (2, "Load3"), (3, "Load22"), (1, "Load")] ∧
      (∀ a ∈ (serveAll loadTree requests {}).1, ∀ b ∈ (serveAll loadTree requests {}).1,
        a.1 = b.1 ↔ a.2 = b.2) ∧
      (serveAll loadTree requests {}).2.names.count = 3 := by
  intro requests
  have hnames := serveAll_names loadTree {} requests (serveAll loadTree requests {}).1
    (serveAll loadTree requests {}).2 rfl
  refine ⟨by decide +kernel, hnames.2.1, ?_⟩
  rw [hnames.2.2.2.2]
  decide +kernel

end Request

end SsisCompiler.Compile
