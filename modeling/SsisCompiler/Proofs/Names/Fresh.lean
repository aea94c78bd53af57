import Mathlib.Data.List.Nodup
import Mathlib.Data.List.Perm.Subperm
import SsisCompiler.Compile.Names

/-!
# Fresh method names

What a method name is made from is a plain identifier, and so is that identifier with a number behind
it. The search for a free name goes through one number more than there are taken names, so it finds a
number that is free.

Results:
* `isIdentifier_sanitize`: what is made from any text is a plain identifier.
* `exists_free_number`: one of the numbers that are tried gives a free name.
* `isTaken_fresh`: the name that is found is not taken.
* `isIdentifier_fresh`: it is a plain identifier if the base is one.
-/

namespace SsisCompiler.CSharp

/-! ## Plain identifiers -/

/-- Whether a text is a letter or an underscore, followed by letters, digits and underscores. -/
def isIdentifier (s : String) : Bool :=
  match s.toList with
  | [] => false
  | c :: cs => isIdentStart c && cs.all isIdentChar

theorem isIdentifier_eq_true_iff (s : String) :
    isIdentifier s = true ↔
      ∃ c cs, s.toList = c :: cs ∧ isIdentStart c = true ∧ cs.all isIdentChar = true := by
  unfold isIdentifier
  cases s.toList with
  | nil => simp
  | cons c cs => simp

theorem isIdentChar_of_isIdentStart {c : Char} (h : isIdentStart c = true) :
    isIdentChar c = true := by
  simp only [isIdentStart, Bool.or_eq_true] at h
  simp only [isIdentChar, Char.isAlphanum, Bool.or_eq_true]
  exact h.imp Or.inl id

theorem isIdentChar_of_isIdentifier {s : String} (h : isIdentifier s = true) :
    ∀ c ∈ s.toList, isIdentChar c = true := by
  obtain ⟨c, cs, hchars, hc, hcs⟩ := (isIdentifier_eq_true_iff s).1 h
  rw [hchars]
  exact List.forall_mem_cons.2 ⟨isIdentChar_of_isIdentStart hc, List.all_eq_true.1 hcs⟩

theorem isIdentChar_of_isDigit {c : Char} (h : c.isDigit = true) : isIdentChar c = true := by
  simp [isIdentChar, Char.isAlphanum, h]

theorem isIdentChar_identChar (c : Char) : isIdentChar (identChar c) = true := by
  unfold identChar
  split
  · assumption
  · decide

theorem isIdentStart_identChar {c : Char} (h : c.isDigit = false) :
    isIdentStart (identChar c) = true := by
  unfold identChar
  split
  · rename_i hc
    simpa [isIdentStart, isIdentChar, Char.isAlphanum, h] using hc
  · decide

theorem all_isIdentChar_map (cs : List Char) : (cs.map identChar).all isIdentChar = true := by
  simp [isIdentChar_identChar]

theorem isIdentifier_sanitize (s : String) : isIdentifier (sanitize s) = true := by
  rw [isIdentifier_eq_true_iff, sanitize, String.toList_ofList]
  cases Text.trimWhile Text.isBlank s.toList with
  | nil => exact ⟨'_', "empty".toList, by decide, by decide, by decide⟩
  | cons c cs =>
    rw [identChars]
    split
    · rename_i hc
      refine ⟨'_', c :: cs.map identChar, rfl, by decide, ?_⟩
      rw [List.all_cons, isIdentChar_of_isDigit hc, all_isIdentChar_map]
      rfl
    · rename_i hc
      exact ⟨identChar c, cs.map identChar, rfl, isIdentStart_identChar (by simpa using hc),
        all_isIdentChar_map cs⟩

/-- An identifier stays one when characters of identifiers are put behind it. -/
theorem isIdentifier_append {s t : String} (hs : isIdentifier s = true)
    (ht : t.toList.all isIdentChar = true) : isIdentifier (s ++ t) = true := by
  obtain ⟨c, cs, hcs, hc, hrest⟩ := (isIdentifier_eq_true_iff s).1 hs
  rw [isIdentifier_eq_true_iff, String.toList_append, hcs]
  refine ⟨c, cs ++ t.toList, rfl, hc, ?_⟩
  rw [List.all_append, hrest, ht]
  rfl

theorem all_isIdentChar_toString (n : Nat) : (toString n).toList.all isIdentChar = true := by
  rw [Nat.toString_eq_repr, Nat.toList_repr, List.all_eq_true]
  intro c hc
  exact isIdentChar_of_isDigit (Nat.isDigit_of_mem_toDigits (by omega) (by omega) hc)

end SsisCompiler.CSharp

namespace SsisCompiler.Compile.Names

open CSharp (isIdentifier)
open Package (NodeId Tree)

theorem isIdentifier_base (t : Tree) (id : NodeId) : isIdentifier (base t id) = true := by
  have hfallback : isIdentifier (base.fallback t (t.node id) id) = true := by
    unfold base.fallback
    exact CSharp.isIdentifier_append
      (CSharp.isIdentifier_append (CSharp.isIdentifier_sanitize _) (by decide))
      (CSharp.all_isIdentChar_toString _)
  unfold base
  dsimp only
  split
  · split
    · exact hfallback
    · exact CSharp.isIdentifier_sanitize _
  · exact hfallback

/-! ## Numbered names -/

theorem toString_injective {m n : Nat} (h : toString m = toString n) : m = n := by
  rw [Nat.toString_eq_repr, Nat.toString_eq_repr] at h
  have hdigits : Nat.toDigits 10 m = Nat.toDigits 10 n := by
    rw [← Nat.toList_repr, ← Nat.toList_repr, h]
  rw [← @Nat.ofDigitChars_ten_toDigits m, hdigits, Nat.ofDigitChars_ten_toDigits]

theorem withNumber_injective (base : String) :
    Function.Injective fun n : Nat => base ++ toString n :=
  fun _ _ h => toString_injective ((String.append_right_inj base).1 h)

/-- The names that are taken, one after the other. -/
def taken (names : Names) : List String :=
  names.used ++ CSharp.keywords ++ CSharp.fixedMembers

theorem isTaken_eq_true_iff (names : Names) (name : String) :
    names.isTaken name = true ↔ name ∈ names.taken := by
  simp [isTaken, taken, or_assoc]

theorem length_taken (names : Names) : names.taken.length = names.takenBound := by
  simp [taken, takenBound, Nat.add_assoc]

/-- Of the numbers that are tried, one gives a free name: there are more of them than taken names, and
no two of them give the same name. -/
theorem exists_free_number (names : Names) (base : String) :
    ∃ n ∈ List.range' 2 (names.takenBound + 1), names.isTaken (base ++ toString n) = false := by
  by_contra hall
  push Not at hall
  let numbered := (List.range' 2 (names.takenBound + 1)).map fun n => base ++ toString n
  have hnodup : numbered.Nodup := (List.nodup_range' 1).map (withNumber_injective base)
  have hsubset : numbered ⊆ names.taken := by
    intro name hname
    obtain ⟨n, hn, rfl⟩ := List.mem_map.1 hname
    exact (isTaken_eq_true_iff names _).1 (by simpa using hall n hn)
  have hle := (List.subperm_of_subset hnodup hsubset).length_le
  rw [length_taken, List.length_map, List.length_range'] at hle
  omega

/-- The name that is found is the base, or the base with a number that is free. -/
theorem fresh_cases (names : Names) (base : String) :
    (names.isTaken base = false ∧ names.fresh base = base) ∨
      ∃ n, 2 ≤ n ∧ names.isTaken (base ++ toString n) = false ∧
        names.fresh base = base ++ toString n := by
  unfold fresh
  dsimp only
  split_ifs with h
  · right
    obtain ⟨n, hn, hfree⟩ := exists_free_number names base
    cases hfind : (List.range' 2 (names.takenBound + 1)).find?
        fun n => !names.isTaken (base ++ toString n) with
    | none =>
      have htaken := List.find?_eq_none.1 hfind n hn
      rw [hfree] at htaken
      exact absurd rfl htaken
    | some m =>
      have hm := List.mem_range'_1.1 (List.mem_of_find?_eq_some hfind)
      have hfree' := List.find?_some hfind
      exact ⟨m, hm.1, by simpa using hfree', rfl⟩
  · left
    exact ⟨by simpa using h, rfl⟩

theorem isTaken_fresh (names : Names) (base : String) : names.isTaken (names.fresh base) = false := by
  rcases fresh_cases names base with ⟨hfree, heq⟩ | ⟨n, -, hfree, heq⟩
  · rw [heq, hfree]
  · rw [heq, hfree]

theorem isIdentifier_fresh (names : Names) {base : String} (h : isIdentifier base = true) :
    isIdentifier (names.fresh base) = true := by
  rcases fresh_cases names base with ⟨-, heq⟩ | ⟨n, -, -, heq⟩
  · rw [heq, h]
  · rw [heq]
    exact CSharp.isIdentifier_append h (CSharp.all_isIdentChar_toString n)

end SsisCompiler.Compile.Names
