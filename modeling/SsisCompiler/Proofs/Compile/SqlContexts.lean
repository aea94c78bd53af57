import SsisCompiler.Proofs.Compile.Markers

/-!
# Markers and the contexts of a statement

The rules of Transact-SQL say where a character of a statement lies: in a literal, a quoted name, a
comment or none of them. Renaming ends every region at the first mark that may end it. The rules go on
behind a closing character that is written twice, and behind the end of a comment inside another one. A
quote that is written twice makes no difference, since the second one begins a region again. A bracket
that is written twice does, and so does a comment that goes on.

Results:
* `Reads.agrees_iff`: regions and contexts agree behind every beginning of a text exactly if the text is
  flat.
* `renamed_iff_code`: question marks are renamed by the rules exactly in flat statements.
* `exists_renameMarkers_of_isFlat`: what becomes of each question mark that a flat statement has.
-/

namespace SsisCompiler.Sql

/-! ## The rules -/

/-- The forms of quoted text. -/
inductive Quoting
  | literal
  | name
  | bracketed
  deriving DecidableEq, Repr

/-- The form that a character begins. -/
def Quoting.opened? : Char → Option Quoting
  | '\'' => some .literal
  | '"' => some .name
  | '[' => some .bracketed
  | _ => none

/-- The character that ends a quoted text. Written twice it stands for itself. -/
def Quoting.close : Quoting → Char
  | .literal => '\''
  | .name => '"'
  | .bracketed => ']'

/-- Where a character of a statement lies. -/
inductive Context
  /-- Outside of quoted texts and comments. -/
  | code
  | quoted (form : Quoting)
  /-- In a comment that ends with the line. -/
  | line
  /-- In a block comment that lies in so many others. -/
  | block (depth : Nat)
  deriving DecidableEq, Repr

namespace Context

/-- The context behind a character of the code that begins no comment. -/
def opened (c : Char) : Context :=
  match Quoting.opened? c with
  | some form => .quoted form
  | none => .code

/-- The context in which a question mark behind a text lies. -/
def behind : Context → List Char → Context
  | context, [] => context
  | .line, c :: cs => behind (if c == '\n' then .code else .line) cs
  | .quoted form, [c] => if c == form.close then .code else .quoted form
  | .quoted form, c :: d :: cs =>
    if c == form.close then
      if d == form.close then behind (.quoted form) cs else behind .code (d :: cs)
    else behind (.quoted form) (d :: cs)
  | .code, '-' :: '-' :: cs => behind .line cs
  | .code, '/' :: '*' :: cs => behind (.block 0) cs
  | .code, c :: cs => behind (opened c) cs
  | .block depth, '/' :: '*' :: cs => behind (.block (depth + 1)) cs
  | .block 0, '*' :: '/' :: cs => behind .code cs
  | .block (depth + 1), '*' :: '/' :: cs => behind (.block depth) cs
  | .block depth, _ :: cs => behind (.block depth) cs

/-- Whether no bracketed name holds a closing bracket and no block comment holds `*/`, but at their
end. -/
def isFlat : Context → List Char → Bool
  | _, [] => true
  | .line, c :: cs => isFlat (if c == '\n' then .code else .line) cs
  | .quoted _, [_] => true
  | .quoted form, c :: d :: cs =>
    if c == form.close then
      if d == form.close then form != .bracketed && isFlat (.quoted form) cs
      else isFlat .code (d :: cs)
    else isFlat (.quoted form) (d :: cs)
  | .code, '-' :: '-' :: cs => isFlat .line cs
  | .code, '/' :: '*' :: cs => isFlat (.block 0) cs
  | .code, c :: cs => isFlat (opened c) cs
  -- the star of an inner comment may have a slash behind it
  | .block depth, '/' :: '*' :: cs => cs.head? != some '/' && isFlat (.block (depth + 1)) cs
  | .block 0, '*' :: '/' :: cs => isFlat .code cs
  | .block (_ + 1), '*' :: '/' :: _ => false
  | .block depth, _ :: cs => isFlat (.block depth) cs

section Equations

variable (form : Quoting) (depth : Nat) (c d : Char) (cs : List Char)

@[simp] theorem behind_nil (context : Context) : context.behind [] = context := rfl

theorem behind_line : line.behind (c :: cs) = (if c == '\n' then code else line).behind cs := rfl

@[simp] theorem behind_last : (quoted form).behind [c] =
    if c == form.close then code else quoted form := rfl

theorem behind_quoted : (quoted form).behind (c :: d :: cs) =
    if c == form.close then
      if d == form.close then (quoted form).behind cs else code.behind (d :: cs)
    else (quoted form).behind (d :: cs) := rfl

theorem behind_lineMark : code.behind ('-' :: '-' :: cs) = line.behind cs := rfl

theorem behind_blockMark : code.behind ('/' :: '*' :: cs) = (block 0).behind cs := rfl

theorem behind_inner : (block depth).behind ('/' :: '*' :: cs) = (block (depth + 1)).behind cs := rfl

theorem behind_blockEnd : (block 0).behind ('*' :: '/' :: cs) = code.behind cs := rfl

theorem behind_innerEnd : (block (depth + 1)).behind ('*' :: '/' :: cs) = (block depth).behind cs := rfl

end Equations

end Context

end SsisCompiler.Sql

namespace SsisCompiler.Compile

open Sql (Context Quoting)

/-! ## Regions and contexts side by side -/

/-- The region in which a context is read, with the text that follows. -/
inductive Reads : Region → Context → List Char → Prop
  | code (cs : List Char) : Reads .plain .code cs
  | quoted (form : Quoting) (cs : List Char) : Reads (.upTo form.close) (.quoted form) cs
  | line (cs : List Char) : Reads (.upTo '\n') .line cs
  /-- A star that was read before does not end the comment. -/
  | block {last : Char} (depth : Nat) {cs : List Char} (h : last = '*' → cs.head? ≠ some '/') :
    Reads (.block last) (.block depth) cs

/-- Behind every beginning of a text, region and context agree whether a question mark is a marker. -/
def Agrees (region : Region) (context : Context) (cs : List Char) : Prop :=
  ∀ p, p <+: cs → (region.behind p = .plain ↔ context.behind p = .code)

theorem head?_ne_of_isPrefix {p cs : List Char} (hp : p <+: cs) {d : Char} (h : cs.head? ≠ some d) :
    p.head? ≠ some d := by
  intro hhead
  obtain ⟨rest, rfl⟩ := List.head?_eq_some_iff.1 hhead
  obtain ⟨more, rfl⟩ := hp
  exact h rfl

section Steps

variable {region region' : Region} {context context' : Context} {c d : Char} {cs : List Char}

theorem forall_prefix_cons {P : List Char → Prop} :
    (∀ p, p <+: c :: cs → P p) ↔ P [] ∧ ∀ p, p <+: cs → P (c :: p) := by
  constructor
  · intro h
    exact ⟨h [] List.nil_prefix, fun p hp => h (c :: p) (List.cons_prefix_cons.2 ⟨rfl, hp⟩)⟩
  · rintro ⟨hnil, hcons⟩ p hp
    rcases List.prefix_cons_iff.1 hp with rfl | ⟨q, rfl, hq⟩
    · exact hnil
    · exact hcons q hq

theorem Reads.plain_iff (h : Reads region context cs) :
    region.behind [] = .plain ↔ context.behind [] = .code := by
  cases h <;> simp

/-- Both go on behind one character. -/
theorem Reads.agrees_cons_iff (h : Reads region context (c :: cs))
    (hregion : ∀ p, p <+: cs → region.behind (c :: p) = region'.behind p)
    (hcontext : ∀ p, p <+: cs → context.behind (c :: p) = context'.behind p) :
    Agrees region context (c :: cs) ↔ Agrees region' context' cs := by
  rw [Agrees, forall_prefix_cons, and_iff_right h.plain_iff]
  refine forall₂_congr fun p hp => ?_
  rw [hregion p hp, hcontext p hp]

/-- Both go on behind a mark of two characters. -/
theorem Reads.agrees_mark_iff (h : Reads region context (c :: d :: cs))
    (hfirst : region.behind [c] = .plain ↔ context.behind [c] = .code)
    (hregion : ∀ p, region.behind (c :: d :: p) = region'.behind p)
    (hcontext : ∀ p, context.behind (c :: d :: p) = context'.behind p) :
    Agrees region context (c :: d :: cs) ↔ Agrees region' context' cs := by
  rw [Agrees, forall_prefix_cons, and_iff_right h.plain_iff, forall_prefix_cons,
    and_iff_right hfirst]
  refine forall₂_congr fun p _ => ?_
  rw [hregion p, hcontext p]

end Steps

/-! ## Code -/

theorem agrees_lineMark (cs : List Char) :
    Agrees .plain .code ('-' :: '-' :: cs) ↔ Agrees (.upTo '\n') .line cs := by
  refine (Reads.code _).agrees_mark_iff ?_ (fun p => ?_) (fun p => ?_)
  · decide
  · rw [behind_plain (by simp)]
    simp [Region.after, Region.behind_upTo]
  · rw [Context.behind_lineMark]

theorem agrees_blockMark (cs : List Char) :
    Agrees .plain .code ('/' :: '*' :: cs) ↔ Agrees (.block '\x00') (.block 0) cs := by
  refine (Reads.code _).agrees_mark_iff ?_ (fun p => ?_) (fun p => ?_)
  · decide
  · rw [Region.behind_blockMark]
  · rw [Context.behind_blockMark]

section Code

variable {c : Char} {cs : List Char}

theorem behind_code (hline : c = '-' → cs.head? ≠ some '-') (hblock : c = '/' → cs.head? ≠ some '*') :
    Context.code.behind (c :: cs) = (Context.opened c).behind cs := by
  rw [Context.behind]
  · rintro rest rfl rfl
    exact hline rfl rfl
  · rintro rest rfl rfl
    exact hblock rfl rfl

theorem reads_after (hline : c = '-' → cs.head? ≠ some '-') :
    Reads (Region.after c cs) (Context.opened c) cs := by
  unfold Region.after
  split
  · exact .quoted .literal cs
  · exact .quoted .name cs
  · exact .quoted .bracketed cs
  · rw [if_neg (by simpa using hline rfl)]
    exact .code cs
  · rename_i h1 h2 h3 h4
    have : Quoting.opened? c = none := by
      unfold Quoting.opened?
      split <;> simp_all
    simp only [Context.opened, this]
    exact .code cs

theorem after_of_isPrefix (hline : c = '-' → cs.head? ≠ some '-') {p : List Char} (hp : p <+: cs) :
    Region.after c p = Region.after c cs :=
  after_congr fun hc => iff_of_false (head?_ne_of_isPrefix hp (hline hc)) (hline hc)

theorem agrees_code (hline : c = '-' → cs.head? ≠ some '-') (hblock : c = '/' → cs.head? ≠ some '*') :
    Agrees .plain .code (c :: cs) ↔ Agrees (.after c cs) (.opened c) cs := by
  refine (Reads.code _).agrees_cons_iff (fun p hp => ?_) (fun p hp => ?_)
  · rw [behind_plain fun hc => head?_ne_of_isPrefix hp (hblock hc), after_of_isPrefix hline hp]
  · exact behind_code (fun hc => head?_ne_of_isPrefix hp (hline hc))
      fun hc => head?_ne_of_isPrefix hp (hblock hc)

end Code

/-! ## Quoted text -/

section Quoted

variable {form : Quoting} {c d : Char} {cs : List Char}

/-- Behind a closing character that is not written twice. -/
theorem behind_closed (hd : d ≠ form.close) {p : List Char} (hp : p <+: d :: cs) :
    (Context.quoted form).behind (form.close :: p) = Context.code.behind p := by
  rcases List.prefix_cons_iff.1 hp with rfl | ⟨q, rfl, -⟩
  · simp
  · rw [Context.behind_quoted, if_pos (by simp), if_neg (by simpa using hd)]

theorem agrees_closed (hd : d ≠ form.close) :
    Agrees (.upTo form.close) (.quoted form) (form.close :: d :: cs) ↔
      Agrees .plain .code (d :: cs) := by
  refine (Reads.quoted form _).agrees_cons_iff (fun p hp => ?_) (fun p hp => behind_closed hd hp)
  rw [Region.behind_upTo, if_pos (by simp)]

theorem agrees_inside (hc : c ≠ form.close) :
    Agrees (.upTo form.close) (.quoted form) (c :: cs) ↔
      Agrees (.upTo form.close) (.quoted form) cs := by
  refine (Reads.quoted form _).agrees_cons_iff (fun p hp => ?_) (fun p hp => ?_)
  · rw [Region.behind_upTo, if_neg (by simpa using hc)]
  · cases p with
    | nil => simp [hc]
    | cons e p =>
      rw [Context.behind_quoted, if_neg (by simpa using hc)]

/-- A quote that is written twice ends a region and begins one of the same form. -/
theorem agrees_doubled (hform : form ≠ .bracketed) :
    Agrees (.upTo form.close) (.quoted form) (form.close :: form.close :: cs) ↔
      Agrees (.upTo form.close) (.quoted form) cs := by
  refine (Reads.quoted form _).agrees_mark_iff ?_ (fun p => ?_) (fun p => ?_)
  · simp [Region.behind_upTo]
  · cases form with
    | bracketed => exact absurd rfl hform
    | _ => simp [Region.behind_upTo, behind_plain, Quoting.close, Region.after]
  · simp [Context.behind_quoted]

theorem not_agrees_doubled (cs : List Char) :
    ¬ Agrees (.upTo ']') (.quoted .bracketed) (']' :: ']' :: cs) := by
  intro h
  have := h [']', ']'] (List.prefix_append [']', ']'] cs)
  exact absurd this (by decide)

end Quoted

/-! ## Comments -/

theorem agrees_line (c : Char) (cs : List Char) :
    Agrees (.upTo '\n') .line (c :: cs) ↔
      Agrees (if c == '\n' then .plain else .upTo '\n') (if c == '\n' then .code else .line) cs := by
  refine (Reads.line _).agrees_cons_iff (fun p hp => ?_) (fun p hp => ?_)
  · rw [Region.behind_upTo]
  · rw [Context.behind_line]

section Block

variable {last c : Char} {depth : Nat} {cs : List Char}

theorem behind_block (hopen : c = '/' → cs.head? ≠ some '*') (hclose : c = '*' → cs.head? ≠ some '/') :
    (Context.block depth).behind (c :: cs) = (Context.block depth).behind cs := by
  rw [Context.behind]
  · rintro rest rfl rfl
    exact hopen rfl rfl
  · rintro rest - rfl rfl
    exact hclose rfl rfl
  · rintro - rest - rfl rfl
    exact hclose rfl rfl

theorem agrees_inner (hlast : last ≠ '*') :
    Agrees (.block last) (.block depth) ('/' :: '*' :: cs) ↔
      Agrees (.block '*') (.block (depth + 1)) cs := by
  refine (Reads.block depth fun h => absurd h hlast).agrees_mark_iff ?_ (fun p => ?_) (fun p => ?_)
  · rw [behind_block (by simp) (by simp)]
    simp [Region.behind_block, hlast]
  · simp [Region.behind_block, hlast]
  · rw [Context.behind_inner]

/-- The star of an inner comment ends the region if a slash follows. -/
theorem not_agrees_inner (hlast : last ≠ '*') :
    ¬ Agrees (.block last) (.block depth) ('/' :: '*' :: '/' :: cs) := by
  intro h
  have hslash := h ['/', '*', '/'] (List.prefix_append ['/', '*', '/'] cs)
  rw [Context.behind_inner, behind_block (by simp) (by simp)] at hslash
  simp [Region.behind_block, hlast] at hslash

theorem agrees_blockEnd (last : Char) (cs : List Char) :
    Agrees (.block last) (.block 0) ('*' :: '/' :: cs) ↔ Agrees .plain .code cs := by
  refine (Reads.block 0 (by simp)).agrees_mark_iff ?_ (fun p => ?_) (fun p => ?_)
  · rw [behind_block (by simp) (by simp)]
    simp [Region.behind_block]
  · simp [Region.behind_block]
  · rw [Context.behind_blockEnd]

/-- The end of an inner comment ends the region. -/
theorem not_agrees_innerEnd (last : Char) (depth : Nat) (cs : List Char) :
    ¬ Agrees (.block last) (.block (depth + 1)) ('*' :: '/' :: cs) := by
  intro h
  have hend := h ['*', '/'] (List.prefix_append ['*', '/'] cs)
  simp [Region.behind_block, Context.behind_innerEnd] at hend

theorem agrees_block (hlast : last = '*' → c ≠ '/') (hopen : c = '/' → cs.head? ≠ some '*')
    (hclose : c = '*' → cs.head? ≠ some '/') :
    Agrees (.block last) (.block depth) (c :: cs) ↔ Agrees (.block c) (.block depth) cs := by
  refine (Reads.block depth (by simpa using hlast)).agrees_cons_iff (fun p hp => ?_) (fun p hp => ?_)
  · rw [Region.behind_block, if_neg (by simpa using hlast)]
  · exact behind_block (fun hc => head?_ne_of_isPrefix hp (hopen hc))
      fun hc => head?_ne_of_isPrefix hp (hclose hc)

end Block

/-! ## Texts -/

/-- Region and context agree behind every beginning of a text exactly if the text is flat. -/
theorem Reads.agrees_iff {region : Region} {context : Context} {cs : List Char}
    (h : Reads region context cs) : Agrees region context cs ↔ context.isFlat cs = true := by
  fun_induction Context.isFlat context cs generalizing region with
  | case1 context =>
    refine iff_of_true (fun p hp => ?_) rfl
    rw [List.prefix_nil.1 hp]
    exact h.plain_iff
  | case2 c cs ih =>
    cases h
    rw [agrees_line]
    refine ih ?_
    split
    · exact .code cs
    · exact .line cs
  | case3 form c =>
    cases h
    refine iff_of_true (forall_prefix_cons.2 ⟨by simp, ?_⟩) rfl
    intro p hp
    rw [List.prefix_nil.1 hp]
    by_cases hc : c = form.close <;> simp [Region.behind_upTo, hc]
  | case4 form c d cs hc hd ih =>
    cases h
    rw [beq_iff_eq] at hc hd
    subst hc hd
    by_cases hform : form = .bracketed
    · subst hform
      exact iff_of_false (not_agrees_doubled cs) (by simp)
    · rw [agrees_doubled hform, ih (.quoted form cs)]
      simp [hform]
  | case5 form c d cs hc hd ih =>
    cases h
    rw [beq_iff_eq] at hc hd
    subst hc
    rw [agrees_closed hd]
    exact ih (.code _)
  | case6 form c d cs hc ih =>
    cases h
    rw [beq_iff_eq] at hc
    rw [agrees_inside hc]
    exact ih (.quoted form _)
  | case7 cs ih =>
    cases h
    rw [agrees_lineMark]
    exact ih (.line cs)
  | case8 cs ih =>
    cases h
    rw [agrees_blockMark]
    exact ih (.block 0 (by simp))
  | case9 c cs hline hblock ih =>
    cases h
    rw [agrees_code (head?_ne_of_forall hline) (head?_ne_of_forall hblock)]
    exact ih (reads_after (head?_ne_of_forall hline))
  | case10 depth cs ih =>
    cases h with
    | block _ hlast =>
      have hne := fun heq => hlast heq rfl
      by_cases hslash : cs.head? = some '/'
      · obtain ⟨rest, rfl⟩ := List.head?_eq_some_iff.1 hslash
        exact iff_of_false (not_agrees_inner hne) (by simp)
      · rw [agrees_inner hne, ih (.block _ fun _ => hslash)]
        simp [hslash]
  | case11 cs ih =>
    cases h
    rw [agrees_blockEnd]
    exact ih (.code cs)
  | case12 depth cs =>
    cases h
    exact iff_of_false (not_agrees_innerEnd _ depth cs) (by simp)
  | case13 depth c cs hopen hend hinner ih =>
    cases h with
    | block _ hlast =>
      have hclose : c = '*' → cs.head? ≠ some '/' := by
        cases depth with
        | zero => exact head?_ne_of_forall fun rest => hend rest rfl
        | succ depth => exact head?_ne_of_forall fun rest => hinner depth rest rfl
      rw [agrees_block (by simpa using hlast) (head?_ne_of_forall hopen) hclose]
      exact ih (.block depth hclose)

/-- A question mark behind any beginning of a statement is renamed exactly if the rules put it outside
of literals, quoted names and comments: this holds of a statement exactly if it is flat, that is if no
bracketed name in it holds a closing bracket and no block comment holds `*/`, but at their end. -/
theorem renamed_iff_code (statement : String) :
    (∀ before after, before <+: statement.toList →
      (Renamed before after ↔ Context.code.behind before = .code)) ↔
    Context.code.isFlat statement.toList = true := by
  rw [← (Reads.code statement.toList).agrees_iff]
  simp only [renamed_iff]
  constructor
  · intro h p hp
    exact h p [] hp
  · intro h before after hbefore
    exact h before hbefore

/-- What becomes of a question mark that stands in a flat statement: behind what becomes of the text
before it there is the beginning of a name if the rules put the mark outside of literals, quoted names
and comments, and else the mark itself. -/
theorem exists_renameMarkers_of_isFlat {statement : String}
    (hflat : Context.code.isFlat statement.toList = true) {before after : List Char}
    (hmark : statement.toList = before ++ '?' :: after) :
    ∃ rest, (renameMarkers statement).toList = (renameMarkers (String.ofList before)).toList ++
      (if Context.code.behind before = .code then '@' else '?') :: rest := by
  have hbefore : Region.plain.behind before = .plain ↔ Context.code.behind before = .code :=
    (Reads.code statement.toList).agrees_iff.2 hflat before ⟨_, hmark.symm⟩
  obtain ⟨rest, hrest⟩ := exists_renameFrom_append .plain 0 before after
  refine ⟨rest, ?_⟩
  simp only [renameMarkers, String.toList_ofList, hmark, hrest, hbefore]

example : Context.code.isFlat "a = '?''' -- ]]?\n[b] /* ? */ ?".toList = true := by decide +kernel

/-- A question mark in a bracketed name, behind a bracket that is written twice, is renamed, and so is
one in a comment behind the end of another comment in it. -/
theorem renamed_insideRegions :
    (Renamed "[a]]".toList "b] /* /* */ ? */ = ?".toList ∧
      Context.code.behind "[a]]".toList = .quoted .bracketed) ∧
    (Renamed "[a]]?b] /* /* */ ".toList " */ = ?".toList ∧
      Context.code.behind "[a]]?b] /* /* */ ".toList = .block 0) ∧
    renameMarkers "[a]]?b] /* /* */ ? */ = ?" = "[a]]@p0b] /* /* */ @p1 */ = @p2" := by
  refine ⟨⟨(renamed_iff _ _).2 ?_, ?_⟩, ⟨(renamed_iff _ _).2 ?_, ?_⟩, ?_⟩ <;> decide +kernel

end SsisCompiler.Compile
