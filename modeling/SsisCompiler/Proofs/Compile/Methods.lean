import SsisCompiler.Compile.Program
import SsisCompiler.Proofs.Compile.Container
import SsisCompiler.Proofs.Compile.Listing
import SsisCompiler.Proofs.Names.Registry

/-!
# The methods of a package

A container's calls are named while its own method is compiled, and the methods that it calls are
compiled later, from the names kept meanwhile. `Setup.CompiledFrom` keeps for each method what the
names were when its turn came: none of the executables that it runs was named before.

Results:
* `grows_methods`: compiling an outline names its executables and no others.
* `nameOf?_methods`: each method has the name that its executable has in the end.
* `exists_compiledFrom`: the moment at which each method was compiled.
* `Run.depthFirst`: the methods of a package are those of its executables depth first, and in document
  order.
-/

namespace SsisCompiler.Compile

open CSharp (Variable)
open Package (Layout NodeId Tree)

namespace Setup

/-! ## One method -/

section Method

variable (s : Setup) (id : NodeId) (scope : List Variable) (names : Names)

theorem body_of_container {container : Container}
    (h : Executable.ofNode? s.tree id = some (.container container)) (method : String) :
    s.body id method scope names = s.containerBody id container scope names := by
  simp only [body, h]

theorem body_of_task {kind : TaskKind} (h : Executable.ofNode? s.tree id = some (.task kind))
    (method : String) :
    s.body id method scope names =
      (Site.task ⟨s.tree, id, scope, s.globals, method, s.useSmo⟩ kind, scope, names) := by
  simp only [body, h]

/-- A node that is no container calls nothing, lends what it was lent, and gives no names. -/
theorem body_cases (method : String) :
    (callees s.tree id = [] ∧ (s.body id method scope names).2 = (scope, names)) ∨
      ∃ container, Executable.ofNode? s.tree id = some (.container container) := by
  cases h : Executable.ofNode? s.tree id with
  | none => exact Or.inl (by simp only [body, callees, h, and_self])
  | some executable =>
    cases executable with
    | task kind => exact Or.inl (by simp only [body, callees, h, and_self])
    | container container => exact Or.inr ⟨container, rfl⟩

theorem grows_body (method : String) :
    names.Grows (callees s.tree id) (s.body id method scope names).2.2 := by
  rcases s.body_cases id scope names method with ⟨hcallees, hbody⟩ | ⟨container, h⟩
  · rw [hcallees, hbody]
    exact .refl names
  · rw [s.body_of_container id scope names h, callees_of_container h, containerBody_lent]
    exact (Names.grows_reserveAll _ names).trans (Names.grows_giveAll s.tree _ _)

theorem method_id : (s.method id scope names).1.id = id := rfl

theorem grows_method : names.Grows (id :: callees s.tree id) (s.method id scope names).2.2 :=
  (Names.grows_give s.tree id names).trans (s.grows_body id scope _ _)

theorem nameOf?_method :
    (s.method id scope names).2.2.nameOf? id = some (s.method id scope names).1.method.name :=
  (s.grows_body id scope _ _).keeps (Names.nameOf?_give s.tree id names)

/-- A container's method has the container's body, and lends what the body lends. -/
theorem method_of_container {container : Container}
    (h : Executable.ofNode? s.tree id = some (.container container)) :
    (s.method id scope names).1.method.body =
        (s.containerBody id container scope (names.give s.tree id).2).1.body ∧
      (s.method id scope names).2 =
        (s.containerBody id container scope (names.give s.tree id).2).2 := by
  have hbody := s.body_of_container id scope (names.give s.tree id).2 h (names.give s.tree id).1
  unfold method
  dsimp only
  rw [hbody]
  exact ⟨rfl, rfl⟩

theorem lent_of_container {container : Container}
    (h : Executable.ofNode? s.tree id = some (.container container)) :
    (s.method id scope names).2.1 = lentVariables s.tree id scope := by
  rw [(s.method_of_container id scope names h).2, containerBody_lent]

theorem nodup_lent {scope : List Variable} (h : (scope.map (·.name)).Nodup) :
    ((s.method id scope names).2.1.map (·.name)).Nodup := by
  rcases s.body_cases id scope (names.give s.tree id).2 (names.give s.tree id).1 with
    ⟨-, hbody⟩ | ⟨container, hid⟩
  · have hlent : (s.method id scope names).2.1 = scope := congrArg Prod.fst hbody
    rw [hlent]
    exact h
  · rw [s.lent_of_container id scope names hid]
    exact nodup_lentVariables s.tree id h

end Method

/-! ## The methods of an outline -/

theorem methods_executable (s : Setup) (id : NodeId) (inner rest : Outline) (scope : List Variable)
    (names : Names) :
    s.methods (.executable id inner rest) scope names =
      let first := s.method id scope names
      let insides := s.methods inner first.2.1 first.2.2
      let others := s.methods rest scope insides.2
      (first.1 :: (insides.1 ++ others.1), others.2) := rfl

theorem map_id_methods (s : Setup) (outline : Outline) (scope : List Variable) (names : Names) :
    (s.methods outline scope names).1.map (·.id) = outline.ids := by
  induction outline generalizing scope names with
  | done => rfl
  | executable id inner rest ihinner ihrest =>
    simp only [methods_executable, List.map_cons, List.map_append, method_id, ihinner, ihrest,
      Outline.ids]

section Outline

variable {s : Setup} {ids : List NodeId} {outline : Outline}

theorem grows_methods (h : outline.Covers s.tree ids) (scope : List Variable) (names : Names) :
    names.Grows outline.ids (s.methods outline scope names).2 := by
  induction h generalizing scope names with
  | done => exact .refl names
  | @executable id ids inner rest hinner _ ihinner ihrest =>
    rw [methods_executable]
    refine (((s.grows_method id scope names).trans (ihinner _ _)).trans (ihrest _ _)).congr
      fun i => ?_
    -- the executables that the method runs are among those inside
    have hcallees : i ∈ callees s.tree id → i ∈ inner.ids := hinner.mem_ids
    simp only [Outline.ids, List.mem_append, List.mem_cons]
    tauto

/-- Every method has the name that its executable has in the end. -/
theorem nameOf?_methods (h : outline.Covers s.tree ids) (scope : List Variable) (names : Names) :
    ∀ c ∈ (s.methods outline scope names).1,
      (s.methods outline scope names).2.nameOf? c.id = some c.method.name := by
  induction h generalizing scope names with
  | done => simp [methods]
  | @executable id ids inner rest hinner hrest ihinner ihrest =>
    rw [methods_executable]
    intro c hc
    rcases List.mem_cons.1 hc with rfl | hc
    · exact (grows_methods hrest _ _).keeps
        ((grows_methods hinner _ _).keeps (s.nameOf?_method id scope names))
    rcases List.mem_append.1 hc with hc | hc
    · exact (grows_methods hrest _ _).keeps (ihinner _ _ c hc)
    · exact ihrest _ _ c hc

/-- The executables at the top of an outline are lent the same variables. -/
theorem exists_method_of_mem (h : outline.Covers s.tree ids) (scope : List Variable)
    (names : Names) :
    ∀ i ∈ ids, ∃ m ∈ (s.methods outline scope names).1, m.id = i ∧ m.method.parameters = scope := by
  induction h generalizing names with
  | done => simp
  | @executable id ids inner rest _ _ _ ihrest =>
    rw [methods_executable]
    intro i hi
    rcases List.mem_cons.1 hi with rfl | hi
    · exact ⟨_, List.mem_cons_self, rfl, rfl⟩
    · obtain ⟨m, hm, hmi⟩ := ihrest _ i hi
      exact ⟨m, List.mem_cons_of_mem _ (List.mem_append_right _ hm), hmi⟩

/-- What a method runs is compiled with the variables that the method lends. -/
theorem exists_method_of_mem_callees (h : outline.Covers s.tree ids) (scope : List Variable)
    (names : Names) :
    ∀ c ∈ (s.methods outline scope names).1, ∀ i ∈ callees s.tree c.id,
      ∃ m ∈ (s.methods outline scope names).1,
        m.id = i ∧ m.method.parameters = lentVariables s.tree c.id c.method.parameters := by
  induction h generalizing scope names with
  | done => simp [methods]
  | @executable id ids inner rest hinner _ ihinner ihrest =>
    rw [methods_executable]
    intro c hc i hi
    rcases List.mem_cons.1 hc with rfl | hc
    · obtain ⟨container, hcontainer⟩ := exists_container_of_mem_callees hi
      obtain ⟨m, hm, hmi, hparameters⟩ := exists_method_of_mem hinner (s.method id scope names).2.1
        (s.method id scope names).2.2 i hi
      exact ⟨m, List.mem_cons_of_mem _ (List.mem_append_left _ hm), hmi,
        hparameters.trans (s.lent_of_container id scope names hcontainer)⟩
    rcases List.mem_append.1 hc with hc | hc
    · obtain ⟨m, hm, hmi⟩ := ihinner _ _ c hc i hi
      exact ⟨m, List.mem_cons_of_mem _ (List.mem_append_left _ hm), hmi⟩
    · obtain ⟨m, hm, hmi⟩ := ihrest _ _ c hc i hi
      exact ⟨m, List.mem_cons_of_mem _ (List.mem_append_right _ hm), hmi⟩

theorem nodup_parameters (h : outline.Covers s.tree ids) {scope : List Variable} (names : Names)
    (hscope : (scope.map (·.name)).Nodup) :
    ∀ c ∈ (s.methods outline scope names).1, (c.method.parameters.map (·.name)).Nodup := by
  induction h generalizing scope names with
  | done => simp [methods]
  | @executable id ids inner rest hinner _ ihinner ihrest =>
    rw [methods_executable]
    intro c hc
    rcases List.mem_cons.1 hc with rfl | hc
    · exact hscope
    rcases List.mem_append.1 hc with hc | hc
    · exact ihinner _ (s.nodup_lent id names hscope) c hc
    · exact ihrest _ hscope c hc

end Outline

/-! ## The names at the time of a method -/

/-- A method was compiled when the names were `moment`, in a run from the names `start` to the names
`final`. -/
structure CompiledFrom (s : Setup) (start final : Names) (c : Compiled) (moment : Names) : Prop where
  eq_method : c = (s.method c.id c.method.parameters moment).1
  used_subset : start.used ⊆ moment.used
  keeps : ∀ {id name}, (s.method c.id c.method.parameters moment).2.2.nameOf? id = some name →
    final.nameOf? id = some name
  /-- Nothing that the method runs had a name yet. -/
  unnamed : ∀ i ∈ callees s.tree c.id, i ∉ (moment.give s.tree c.id).2.ids

theorem CompiledFrom.widen {s : Setup} {a b c d : Names} {compiled : Compiled} {moment : Names}
    {asked asked' : List NodeId} (h : s.CompiledFrom b c compiled moment) (hab : a.Grows asked b)
    (hcd : c.Grows asked' d) : s.CompiledFrom a d compiled moment where
  eq_method := h.eq_method
  used_subset _ hname := h.used_subset (hab.used_subset hname)
  keeps hname := hcd.keeps (h.keeps hname)
  unnamed := h.unnamed

/-- Every method of an outline without repetition was compiled at some moment, if nothing inside
another executable had a name before. -/
theorem exists_compiledFrom {s : Setup} {ids : List NodeId} {outline : Outline}
    (h : outline.Covers s.tree ids) (hnodup : outline.ids.Nodup) (scope : List Variable)
    (names : Names) (hnew : ∀ i ∈ outline.nested, i ∉ names.ids) :
    ∀ c ∈ (s.methods outline scope names).1,
      ∃ moment, s.CompiledFrom names (s.methods outline scope names).2 c moment := by
  induction h generalizing scope names with
  | done => simp [methods]
  | @executable id ids inner rest hinner hrest ihinner ihrest =>
    obtain ⟨hid, hnodup⟩ := List.nodup_cons.1 hnodup
    obtain ⟨hnodupInner, hnodupRest, hdisjoint⟩ := List.nodup_append'.1 hnodup
    have hnewInner : ∀ i ∈ inner.ids, i ∉ names.ids ∧ i ≠ id := by
      intro i hi
      refine ⟨hnew i (List.mem_append_left _ hi), ?_⟩
      rintro rfl
      exact hid (List.mem_append_left _ hi)
    have hmethod := s.grows_method id scope names
    have hinside := grows_methods hinner (s.method id scope names).2.1 (s.method id scope names).2.2
    have hbehind := grows_methods hrest scope
      (s.methods inner (s.method id scope names).2.1 (s.method id scope names).2.2).2
    rw [methods_executable]
    intro c hc
    rcases List.mem_cons.1 hc with rfl | hc
    · refine ⟨names, rfl, fun _ h => h, fun h => hbehind.keeps (hinside.keeps h), fun i hi => ?_⟩
      rw [(Names.grows_give s.tree _ names).mem_ids, List.mem_singleton]
      exact not_or.2 (hnewInner i (hinner.mem_ids hi))
    rcases List.mem_append.1 hc with hc | hc
    · -- what is nested deeper is none of the executables just named
      have hnested : ∀ i ∈ inner.nested, i ∉ (s.method id scope names).2.2.ids := by
        intro i hi
        have hcallees := List.disjoint_of_nodup_append (hinner.perm_ids.nodup_iff.1 hnodupInner)
        have hmem : i ∈ inner.ids := hinner.perm_ids.mem_iff.2 (List.mem_append_right _ hi)
        rw [hmethod.mem_ids, List.mem_cons]
        rintro (hnamed | hsame | hcallee)
        · exact (hnewInner i hmem).1 hnamed
        · exact (hnewInner i hmem).2 hsame
        · exact hcallees hcallee hi
      obtain ⟨moment, hmoment⟩ := ihinner hnodupInner _ _ hnested c hc
      exact ⟨moment, hmoment.widen hmethod hbehind⟩
    · have hnested : ∀ i ∈ rest.nested, i ∉ (s.methods inner (s.method id scope names).2.1
          (s.method id scope names).2.2).2.ids := by
        intro i hi
        have hmem : i ∈ rest.ids := hrest.perm_ids.mem_iff.2 (List.mem_append_right _ hi)
        rw [hinside.mem_ids, hmethod.mem_ids, List.mem_cons]
        rintro ((hnamed | hsame | hcallee) | hmemInner)
        · exact hnew i (List.mem_append_right _ hi) hnamed
        · exact hid (hsame ▸ List.mem_append_right _ hmem)
        · exact hdisjoint (hinner.mem_ids hcallee) hmem
        · exact hdisjoint hmemInner hmem
      obtain ⟨moment, hmoment⟩ := ihrest hnodupRest _ _ hnested c hc
      exact ⟨moment, hmoment.widen (hmethod.trans hinside) (.refl _)⟩

end Setup

/-! ## The methods of a package -/

namespace Program

/-- What the compilation of a package's methods shares. -/
def setup (options : Options) (t : Tree) : Setup where
  tree := t
  globals := (Layout.ofTree t).globals.map (declaredVariable t)
  useSmo := options.useSmo

/-- The names before the first method is compiled: that of the entry point is given already. -/
def startNames (t : Tree) (entry : NodeId) : Names :=
  ((reservedNames ((Layout.ofTree t).globals.map (declaredVariable t))).give t entry).2

/-- The compilation of a package's methods: the executable that comes first, and the names in the
end. -/
structure Run (options : Options) (t : Tree) (p : Program) (entry : NodeId) (final : Names) :
    Prop where
  head : (Layout.ofTree t).executables.head? = some entry
  fields : p.fields = (Layout.ofTree t).globals.map (declaredVariable t)
  methods : (setup options t).methodsOf (Layout.ofTree t).executables [] (startNames t entry) =
    (p.methods, final)
  entryPoint : (startNames t entry).nameOf? entry = some p.entryPoint
  methodCount : p.methodCount = final.count

theorem ofTree?_of_executables (options : Options) {t : Tree} {entry : NodeId} {rest : List NodeId}
    (h : (Layout.ofTree t).executables = entry :: rest) :
    ofTree? options t = some {
      fields := (Layout.ofTree t).globals.map (declaredVariable t)
      methods := ((setup options t).methodsOf (entry :: rest) [] (startNames t entry)).1
      entryPoint :=
        ((reservedNames ((Layout.ofTree t).globals.map (declaredVariable t))).give t entry).1
      methodCount :=
        ((setup options t).methodsOf (entry :: rest) [] (startNames t entry)).2.count } := by
  simp only [ofTree?, h, setup, startNames]

theorem exists_run {options : Options} {t : Tree} {p : Program} (h : ofTree? options t = some p) :
    ∃ entry final, Run options t p entry final := by
  cases hentry : (Layout.ofTree t).executables with
  | nil => simp [ofTree?, hentry] at h
  | cons entry rest =>
    rw [ofTree?_of_executables options hentry] at h
    obtain rfl := Option.some.inj h
    refine ⟨entry, ((setup options t).methodsOf (entry :: rest) [] (startNames t entry)).2, ?_, rfl,
      ?_, Names.nameOf?_give t entry _, rfl⟩
    · rw [hentry, List.head?_cons]
    · rw [hentry]

theorem mem_ids_startNames (t : Tree) (entry i : NodeId) :
    i ∈ (startNames t entry).ids ↔ i = entry := by
  rw [startNames, (Names.grows_give t entry _).mem_ids, reservedNames,
    (Names.grows_reserveAll _ _).mem_ids]
  simp [Names.ids]

theorem sound_startNames (t : Tree) (entry : NodeId) : (startNames t entry).Sound :=
  (Names.grows_give t entry _).sound ((Names.grows_reserveAll _ _).sound Names.sound_empty)

theorem mem_used_startNames (t : Tree) (entry : NodeId) {v : Variable}
    (h : v ∈ (Layout.ofTree t).globals.map (declaredVariable t)) :
    v.name ∈ (startNames t entry).used :=
  (Names.grows_give t entry _).used_subset (Names.mem_used_reserveAll _ _ h)

theorem covers_executables {t : Tree} (ht : t.Preordered) :
    (Outline.ofIds t (Layout.ofTree t).executables).Covers t (Layout.ofTree t).executables :=
  Outline.covers_ofIds ht fun _ hid => (Package.mem_executables hid).1

namespace Run

variable {options : Options} {t : Tree} {p : Program} {entry : NodeId} {final : Names}

theorem methods_eq (h : Run options t p entry final) :
    p.methods = ((setup options t).methods (Outline.ofIds t (Layout.ofTree t).executables) []
      (startNames t entry)).1 :=
  (congrArg Prod.fst h.methods).symm

theorem final_eq (h : Run options t p entry final) :
    final = ((setup options t).methods (Outline.ofIds t (Layout.ofTree t).executables) []
      (startNames t entry)).2 :=
  (congrArg Prod.snd h.methods).symm

theorem map_id (h : Run options t p entry final) :
    p.methods.map (·.id) = (Outline.ofIds t (Layout.ofTree t).executables).ids := by
  rw [h.methods_eq]
  exact Setup.map_id_methods _ _ _ _

/-- The methods are those of the executables depth first, and in document order. -/
theorem depthFirst (h : Run options t p entry final) (ht : t.Preordered) :
    DepthFirst t (Layout.ofTree t).executables (p.methods.map (·.id)) ∧
      (p.methods.map (·.id)).Pairwise (· < ·) := by
  rw [h.map_id]
  have hlisting := (covers_executables ht).depthFirst
  exact ⟨hlisting, hlisting.pairwise_lt ht (fun _ hid => (Package.mem_executables hid).1)
    ht.apart_executables⟩

theorem nodup_ids (h : Run options t p entry final) (ht : t.Preordered) :
    (p.methods.map (·.id)).Nodup :=
  (h.depthFirst ht).2.imp Nat.ne_of_lt

theorem grows (h : Run options t p entry final) (ht : t.Preordered) :
    (startNames t entry).Grows (p.methods.map (·.id)) final := by
  rw [h.map_id, h.final_eq]
  exact Setup.grows_methods (s := setup options t) (covers_executables ht) _ _

theorem sound (h : Run options t p entry final) (ht : t.Preordered) : final.Sound :=
  (h.grows ht).sound (sound_startNames t entry)

theorem nameOf?_final (h : Run options t p entry final) (ht : t.Preordered) :
    ∀ c ∈ p.methods, final.nameOf? c.id = some c.method.name := by
  rw [h.methods_eq, h.final_eq]
  exact Setup.nameOf?_methods (covers_executables ht) _ _

theorem nodup_names (h : Run options t p entry final) (ht : t.Preordered) :
    (p.methods.map (·.method.name)).Nodup := by
  refine List.Nodup.map_on ?_ (h.nodup_ids ht).of_map
  intro c hc c' hc' hname
  have hid : c.id = c'.id := (h.sound ht).nameOf?_inj (h.nameOf?_final ht c hc)
    (hname ▸ h.nameOf?_final ht c' hc')
  exact List.inj_on_of_nodup_map (h.nodup_ids ht) hc hc' hid

theorem entry_mem (h : Run options t p entry final) : entry ∈ (Layout.ofTree t).executables :=
  List.mem_of_head? h.head

theorem mem_ids_final (h : Run options t p entry final) (ht : t.Preordered) (id : NodeId) :
    id ∈ final.ids ↔ id ∈ p.methods.map (·.id) := by
  have hentry : entry ∈ p.methods.map (·.id) := by
    rw [h.map_id]
    exact (covers_executables ht).mem_ids h.entry_mem
  rw [(h.grows ht).mem_ids, mem_ids_startNames]
  exact ⟨fun hid => hid.elim (fun heq => heq ▸ hentry) fun hmem => hmem, Or.inr⟩

theorem methodCount_eq (h : Run options t p entry final) (ht : t.Preordered) :
    p.methodCount = p.methods.length := by
  have hperm : final.ids.Perm (p.methods.map (·.id)) := by
    rw [List.perm_ext_iff_of_nodup (h.sound ht).nodup_ids (h.nodup_ids ht)]
    exact h.mem_ids_final ht
  rw [h.methodCount, Names.count_eq_length_ids, hperm.length_eq, List.length_map]

/-- A program starts with its first method. -/
theorem entryPoint_eq (h : Run options t p entry final) (ht : t.Preordered) :
    p.methods.head?.map (·.method.name) = some p.entryPoint := by
  have hhead : (p.methods.map (·.id)).head? = some entry :=
    (h.depthFirst ht).1.head?_eq.trans h.head
  cases hmethods : p.methods with
  | nil => simp [hmethods] at hhead
  | cons c rest =>
    obtain rfl : c.id = entry := by simpa [hmethods] using hhead
    have hname := h.nameOf?_final ht c (by simp [hmethods])
    rw [(h.grows ht).keeps h.entryPoint] at hname
    simpa using hname.symm

theorem nodup_parameters (h : Run options t p entry final) (ht : t.Preordered) :
    ∀ c ∈ p.methods, (c.method.parameters.map (·.name)).Nodup := by
  rw [h.methods_eq]
  exact Setup.nodup_parameters (covers_executables ht) _ .nil

theorem exists_callee (h : Run options t p entry final) (ht : t.Preordered) :
    ∀ c ∈ p.methods, ∀ i ∈ callees t c.id, ∃ m ∈ p.methods,
      m.id = i ∧ m.method.parameters = lentVariables t c.id c.method.parameters := by
  rw [h.methods_eq]
  exact Setup.exists_method_of_mem_callees (covers_executables ht) _ _

theorem exists_compiledFrom (h : Run options t p entry final) (ht : t.Preordered) :
    ∀ c ∈ p.methods,
      ∃ moment, (setup options t).CompiledFrom (startNames t entry) final c moment := by
  have hcovers := covers_executables ht
  have hnodup := h.nodup_ids ht
  rw [h.map_id] at hnodup
  rw [h.methods_eq, h.final_eq]
  refine Setup.exists_compiledFrom hcovers hnodup _ _ fun i hi => ?_
  -- the entry point is at the top, so it is not inside another executable
  rw [mem_ids_startNames]
  rintro rfl
  exact List.disjoint_of_nodup_append (hcovers.perm_ids.nodup_iff.1 hnodup) h.entry_mem hi

end Run

end Program

end SsisCompiler.Compile
