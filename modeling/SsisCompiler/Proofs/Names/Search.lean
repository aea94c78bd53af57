import Mathlib.Order.Nat
import SsisCompiler.Proofs.Names.Registry
import SsisCompiler.Proofs.Text.Pieces

/-!
# The search for a free name

The name of a method is looked for in a loop: first the base is tried, then the base with the numbers
from two on. Nothing in the loop counts its steps, so whether it ends is a question about the names that
are taken: `Names.Searches` holds of the name that the loop ends with, and of nothing if it does not end.
It does, because there are more numbers than taken names, and it ends at the first name that is free.

Results:
* `Searches.unique`: the loop ends with one name at most.
* `searches_numbered_iff`: among numbered names it ends with the least number that is free.
* `exists_least_number`: there is such a number, and it is not greater than the taken names are many.
* `searches_fresh`: the loop ends, with the name that is given.
* `methodName_firstFit`: the name that a session gives to a node without one.
-/

namespace SsisCompiler.Text

theorem trim_eq_empty_iff (s : String) : trim s = "" ↔ isAllBlank s = true := by
  rw [isAllBlank, List.all_eq_true, trim, ← String.toList_eq_nil_iff, String.toList_ofList]
  constructor
  · intro h c hc
    by_contra hblank
    have hmem := mem_trimWhile hc (Bool.not_eq_true _ ▸ hblank)
    rw [h] at hmem
    cases hmem
  · intro h
    rw [trimWhile, List.dropWhile_eq_nil_iff.2 h]
    rfl

end SsisCompiler.Text

namespace SsisCompiler.Compile

open Package (NodeId Tree)

namespace Names

/-- A name that a method may take: it is not used, no keyword, and not that of the entry point. -/
def IsFree (names : Names) (name : String) : Prop :=
  name ∉ names.used ∧ name ∉ CSharp.keywords ∧ name ≠ "Main"

theorem isFree_iff (names : Names) (name : String) :
    names.IsFree name ↔ names.isTaken name = false := by
  simp [IsFree, isTaken, CSharp.fixedMembers, and_assoc]

theorem not_isFree_iff (names : Names) (name : String) :
    ¬ names.IsFree name ↔ names.isTaken name = true := by
  rw [isFree_iff, Bool.not_eq_false]

/-- The search at a candidate, with the number to be tried next, ends with a name. -/
inductive Searches (names : Names) (base : String) : String → Nat → String → Prop
  | found {candidate : String} {n : Nat} (h : names.IsFree candidate) :
      Searches names base candidate n candidate
  | next {candidate name : String} {n : Nat} (htaken : ¬ names.IsFree candidate)
      (hrest : Searches names base (base ++ toString n) (n + 1) name) :
      Searches names base candidate n name

/-- The numbers from some number on that make a free name. -/
def freeNumbers (names : Names) (base : String) (first : Nat) : Set Nat :=
  {n | first ≤ n ∧ names.IsFree (base ++ toString n)}

section

variable {names : Names} {base candidate name : String} {n : Nat}

theorem Searches.unique {other : String} (h : Searches names base candidate n name)
    (h' : Searches names base candidate n other) : name = other := by
  induction h with
  | found hfree =>
    cases h' with
    | found _ => rfl
    | next htaken _ => exact absurd hfree htaken
  | next htaken _ ih =>
    cases h' with
    | found hfree => exact absurd hfree htaken
    | next _ hrest => exact ih hrest

/-- The least free number from the next one on is the least from this one on if this one is taken. -/
theorem isLeast_of_taken {m : Nat} (htaken : ¬ names.IsFree (base ++ toString n)) :
    IsLeast (names.freeNumbers base (n + 1)) m ↔ IsLeast (names.freeNumbers base n) m := by
  have hsame : names.freeNumbers base (n + 1) = names.freeNumbers base n := by
    ext k
    constructor
    · rintro ⟨hk, hfree⟩
      exact ⟨by omega, hfree⟩
    · rintro ⟨hk, hfree⟩
      refine ⟨Nat.lt_of_le_of_ne hk ?_, hfree⟩
      rintro rfl
      exact htaken hfree
  rw [hsame]

/-- From a numbered name on, the search ends with the least number that makes a free name. -/
theorem searches_numbered_iff :
    Searches names base (base ++ toString n) (n + 1) name ↔
      ∃ m, IsLeast (names.freeNumbers base n) m ∧ name = base ++ toString m := by
  constructor
  · intro h
    -- by induction along the search, for whichever number the candidate has
    generalize hcandidate : base ++ toString n = candidate, hnext : n + 1 = next at h
    induction h generalizing n with
    | found hfree =>
      subst hcandidate
      exact ⟨n, ⟨⟨Nat.le_refl n, hfree⟩, fun k hk => hk.1⟩, rfl⟩
    | next htaken _ ih =>
      subst hcandidate hnext
      obtain ⟨m, hleast, hname⟩ := ih rfl rfl
      exact ⟨m, (isLeast_of_taken htaken).1 hleast, hname⟩
  · rintro ⟨m, hleast, rfl⟩
    -- by induction on how far the least number is away
    obtain ⟨steps, hsteps⟩ := Nat.exists_eq_add_of_le hleast.1.1
    induction steps generalizing n with
    | zero =>
      obtain rfl : m = n := hsteps
      exact .found hleast.1.2
    | succ steps ih =>
      have htaken : ¬ names.IsFree (base ++ toString n) := by
        intro hfree
        have hle := hleast.2 ⟨Nat.le_refl n, hfree⟩
        omega
      exact .next htaken (ih ((isLeast_of_taken htaken).2 hleast) (by omega))

end

/-- There is a least number that makes a free name, and it is at most as great as the taken names are
many, two more for the start. -/
theorem exists_least_number (names : Names) (base : String) :
    ∃ n, IsLeast (names.freeNumbers base 2) n ∧ n ≤ names.takenBound + 2 := by
  classical
  obtain ⟨m, hm, hfree⟩ := exists_free_number names base
  obtain ⟨hlow, hhigh⟩ := List.mem_range'_1.1 hm
  have hmem : m ∈ names.freeNumbers base 2 := ⟨hlow, (isFree_iff names _).2 hfree⟩
  have hleast := Nat.isLeast_find ⟨m, hmem⟩
  have hle := hleast.2 hmem
  exact ⟨_, hleast, by omega⟩

theorem fresh_of_isFree {names : Names} {base : String} (h : names.IsFree base) :
    names.fresh base = base := by
  rw [fresh, (isFree_iff names base).1 h]
  rfl

/-- The name that is given instead of a taken one has the least number that is free. -/
theorem fresh_of_isLeast {names : Names} {base : String} {n : Nat} (htaken : ¬ names.IsFree base)
    (hleast : IsLeast (names.freeNumbers base 2) n) (hbound : n ≤ names.takenBound + 2) :
    names.fresh base = base ++ toString n := by
  have hfind : (List.range' 2 (names.takenBound + 1)).find?
      (fun m => !names.isTaken (base ++ toString m)) = some n := by
    rw [List.find?_range'_eq_some]
    refine ⟨?_, List.mem_range'_1.2 ⟨hleast.1.1, by omega⟩, fun m hlow hm => ?_⟩
    · rw [(isFree_iff names _).1 hleast.1.2]
      rfl
    · have hm : ¬ names.IsFree (base ++ toString m) := by
        intro hfree
        have hle := hleast.2 ⟨hlow, hfree⟩
        omega
      rw [(not_isFree_iff names _).1 hm]
      rfl
  rw [fresh, (not_isFree_iff names base).1 htaken, if_pos rfl]
  dsimp only
  rw [hfind]
  rfl

/-- The search for a free name ends, with the name that is given. -/
theorem searches_fresh (names : Names) (base : String) :
    names.Searches base base 2 (names.fresh base) := by
  by_cases hfree : names.IsFree base
  · rw [fresh_of_isFree hfree]
    exact .found hfree
  · obtain ⟨n, hleast, hbound⟩ := exists_least_number names base
    rw [fresh_of_isLeast hfree hleast hbound]
    exact .next hfree (searches_numbered_iff.2 ⟨n, hleast, rfl⟩)

theorem base_eq (t : Tree) (id : NodeId) :
    base t id = ((t.node id).name.filter fun name => !(Text.trim name).isEmpty).elim
      (CSharp.sanitize (t.node id).localKind ++ "_" ++ toString (t.siblingIndex id))
      CSharp.sanitize := by
  have hblank (name : String) : Text.isAllBlank name = (Text.trim name).isEmpty := by
    rw [Bool.eq_iff_iff, ← Text.trim_eq_empty_iff, String.isEmpty_iff]
  unfold base base.fallback
  dsimp only
  cases (t.node id).name with
  | none => rfl
  | some name =>
    dsimp only
    rw [hblank, Option.filter_some]
    cases (Text.trim name).isEmpty <;> rfl

end Names

/-- A node without a name gets the first free one. What its name is made from is the name that it shows,
or its kind and its place among its siblings if that is missing or blank. The search that tries this and
then the numbers from two on ends, and with one name only, which is the name that is given. It is the
base if the base is free; else it is the base with the least number from two on that makes a free name,
and that number exceeds the taken names by no more than two. -/
theorem methodName_firstFit (s : Session) (t : Tree) (id : NodeId)
    (hnew : s.names.nameOf? id = none) :
    Names.base t id = ((t.node id).name.filter fun name => !(Text.trim name).isEmpty).elim
      (CSharp.sanitize (t.node id).localKind ++ "_" ++ toString (t.siblingIndex id))
      CSharp.sanitize ∧
    (∀ name, s.names.Searches (Names.base t id) (Names.base t id) 2 name ↔
      name = (s.methodName t id).1) ∧
    (s.names.IsFree (Names.base t id) → (s.methodName t id).1 = Names.base t id) ∧
    (¬ s.names.IsFree (Names.base t id) →
      ∃ n, IsLeast {n | 2 ≤ n ∧ s.names.IsFree (Names.base t id ++ toString n)} n ∧
        (s.methodName t id).1 = Names.base t id ++ toString n ∧
        n ≤ s.names.used.length + CSharp.keywords.length + 3) := by
  have hname : (s.methodName t id).1 = s.names.fresh (Names.base t id) := by
    rw [Session.methodName, Names.give_of_unnamed t hnew]
  have hsearch := Names.searches_fresh s.names (Names.base t id)
  refine ⟨Names.base_eq t id, fun name => ⟨fun h => ?_, ?_⟩, fun hfree => ?_, fun htaken => ?_⟩
  · rw [hname]
    exact h.unique hsearch
  · rintro rfl
    rw [hname]
    exact hsearch
  · rw [hname, Names.fresh_of_isFree hfree]
  · obtain ⟨n, hleast, hbound⟩ := Names.exists_least_number s.names (Names.base t id)
    exact ⟨n, hleast, by rw [hname, Names.fresh_of_isLeast htaken hleast hbound], hbound⟩

/-- A session in which one node has the name that two nodes show, and the next name is reserved. -/
def loadSession : Session :=
  { names := ⟨[(1, "Load")], ["Load2", "Load"]⟩ }

theorem methodName_firstFit_loadSession :
    loadSession.names.nameOf? 2 = none ∧
      loadSession.names.Searches "Load" "Load" 2 "Load3" ∧
      ∃ n, IsLeast {n | 2 ≤ n ∧ loadSession.names.IsFree ("Load" ++ toString n)} n ∧
        "Load3" = "Load" ++ toString n := by
  have hbase : Names.base Request.loadTree 2 = "Load" := by decide +kernel
  have hname : (loadSession.methodName Request.loadTree 2).1 = "Load3" := by decide +kernel
  have htaken : ¬ loadSession.names.IsFree "Load" := by simp [loadSession, Names.IsFree]
  obtain ⟨-, hsearch, -, hleast⟩ := methodName_firstFit loadSession Request.loadTree 2 (by decide)
  rw [hbase, hname] at hsearch hleast
  obtain ⟨n, hn, heq, -⟩ := hleast htaken
  exact ⟨by decide, (hsearch _).2 rfl, n, hn, heq⟩

end SsisCompiler.Compile
