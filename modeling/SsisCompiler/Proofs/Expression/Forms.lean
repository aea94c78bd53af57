import SsisCompiler.Proofs.Expression.Grammar

/-!
# Forms of code

The code of a cast and of a call is a form, fixed text with holes, that the code of the operands fills.
A function of dates reads the part of a date that its first argument names, and has no hole for it. The
forms are a table here; what `Function` makes of a cast or a call is the form, filled.

Results:
* `Form.fill_bind`: filling holes with filled forms fills one form.
* `functionCode_eq_ok_iff`: a call has code exactly if there is a form for as many arguments as it has,
  and the code is the form, filled.
* `castCode_eq_ok_iff`: the same of casts.
* `castForm?_all`, `callForm?_all`: what a check finds of all forms holds of every cast and every call.
-/

namespace SsisCompiler.Expression

/-! ## Forms -/

/-- A piece of a text with holes. -/
inductive Piece (α : Type)
  | text (text : String)
  | hole (a : α)
  deriving DecidableEq, Repr

/-- A text with holes, each of which says what belongs there. -/
abbrev Form (α : Type) := List (Piece α)

namespace Form

variable {α β : Type}

/-- The text with its holes filled. -/
def fill (f : α → String) : Form α → String
  | [] => ""
  | .text s :: t => s ++ fill f t
  | .hole a :: t => f a ++ fill f t

/-- What belongs in the holes, in order. -/
def holes : Form α → List α
  | [] => []
  | .text _ :: t => holes t
  | .hole a :: t => a :: holes t

/-- The text with a form in place of each hole. -/
def bind (g : α → Form β) : Form α → Form β
  | [] => []
  | .text s :: t => .text s :: bind g t
  | .hole a :: t => g a ++ bind g t

theorem fill_append (f : α → String) (t u : Form α) : fill f (t ++ u) = fill f t ++ fill f u := by
  induction t with
  | nil => simp [fill]
  | cons piece t ih => cases piece <;> simp [fill, ih, String.append_assoc]

theorem fill_bind (f : β → String) (g : α → Form β) (t : Form α) :
    fill f (bind g t) = fill (fun a => fill f (g a)) t := by
  induction t with
  | nil => rfl
  | cons piece t ih => cases piece <;> simp [bind, fill, fill_append, ih]

/-- A hole in parentheses. -/
def enclosed (a : α) : Form α :=
  [.text "(", .hole a, .text ")"]

theorem fill_enclosed (f : α → String) (a : α) : fill f (enclosed a) = Expression.paren (f a) := by
  simp [enclosed, fill, Expression.paren, String.append_assoc]

end Form

open Form (enclosed)

/-! ## Dates -/

namespace DatePart

/-- All parts of dates. -/
def all : List DatePart :=
  [.year, .quarter, .month, .week, .day, .dayOfYear, .hour, .minute, .second]

theorem mem_all (p : DatePart) : p ∈ all := by
  cases p <;> decide

/-- The code of a date, the third argument, with a number of parts added, the second. -/
def addForm (p : DatePart) : Form Nat :=
  if p.adder.2 == 1 then enclosed 2 ++ .text "." :: .text p.adder.1 :: enclosed 1
  else
    enclosed 2 ++ .text "." :: .text p.adder.1 :: .text "(" :: enclosed 1 ++
      [.text " * ", .text (toString p.adder.2), .text ")"]

/-- The part of a date, the second argument. -/
def memberForm? (p : DatePart) : Option (Form Nat) :=
  p.member?.map fun member => enclosed 1 ++ [.text ".", .text member]

/-- The whole count of a part between the date that is the second argument and the third. -/
def elapsedForm (member : String) : Form Nat :=
  .text "(int)(" :: enclosed 2 ++ .text " - " :: enclosed 1 ++ [.text ").", .text member]

/-- The difference of two dates in a part. -/
def differenceForm? : DatePart → Option (Form Nat)
  | .year => some (.text "(" :: enclosed 2 ++ .text ".Year - " :: enclosed 1 ++ [.text ".Year)"])
  | .month =>
    some (.text "((" :: enclosed 2 ++ .text ".Year - " :: enclosed 1 ++ .text ".Year) * 12 + "
      :: enclosed 2 ++ .text ".Month - " :: enclosed 1 ++ [.text ".Month)"])
  | .day => some (elapsedForm "TotalDays")
  | .hour => some (elapsedForm "TotalHours")
  | .minute => some (elapsedForm "TotalMinutes")
  | .second => some (elapsedForm "TotalSeconds")
  | .quarter => none
  | .week => none
  | .dayOfYear => none

end DatePart

/-! ## Calls and casts -/

/-- The number of a function's arguments, and its code with the arguments' places in the holes. -/
structure CallForm where
  arity : Nat
  code : Form Nat

/-- The code of a call with the given arguments. -/
def CallForm.fill? (t : CallForm) (args : List String) : Option String :=
  if args.length = t.arity then some (t.code.fill fun i => args.getD i "") else none

/-- The form of a function, given its name in upper case and the part of a date that the first
argument names. -/
def callForm? (name : String) (part : Option DatePart) : Option CallForm :=
  match name with
  | "GETDATE" => some ⟨0, [.text "DateTime.Now"]⟩
  | "GETUTCDATE" => some ⟨0, [.text "DateTime.UtcNow"]⟩
  | "UPPER" => some ⟨1, enclosed 0 ++ [.text ".ToUpper()"]⟩
  | "LOWER" => some ⟨1, enclosed 0 ++ [.text ".ToLower()"]⟩
  | "TRIM" => some ⟨1, enclosed 0 ++ [.text ".Trim()"]⟩
  | "LTRIM" => some ⟨1, enclosed 0 ++ [.text ".TrimStart()"]⟩
  | "RTRIM" => some ⟨1, enclosed 0 ++ [.text ".TrimEnd()"]⟩
  | "LEN" => some ⟨1, enclosed 0 ++ [.text ".Length"]⟩
  | "REPLACE" =>
    some ⟨3, enclosed 0 ++ [.text ".Replace(", .hole 1, .text ", ", .hole 2, .text ")"]⟩
  | "SUBSTRING" =>
    some ⟨3, enclosed 0 ++ .text ".Substring(" :: enclosed 1 ++ [.text " - 1, ", .hole 2, .text ")"]⟩
  | "LEFT" => some ⟨2, enclosed 0 ++ [.text ".Substring(0, ", .hole 1, .text ")"]⟩
  | "RIGHT" =>
    some ⟨2, enclosed 0 ++ .text ".Substring(" :: enclosed 0 ++ .text ".Length - " :: enclosed 1
      ++ [.text ")"]⟩
  | "ISNULL" => some ⟨1, .text "(" :: enclosed 0 ++ [.text " == null)"]⟩
  | "ABS" => some ⟨1, .text "Math.Abs" :: enclosed 0⟩
  | "CEILING" => some ⟨1, .text "Math.Ceiling" :: enclosed 0⟩
  | "FLOOR" => some ⟨1, .text "Math.Floor" :: enclosed 0⟩
  | "SQRT" => some ⟨1, .text "Math.Sqrt" :: enclosed 0⟩
  | "POWER" => some ⟨2, [.text "Math.Pow(", .hole 0, .text ", ", .hole 1, .text ")"]⟩
  | "ROUND" => some ⟨2, [.text "Math.Round(", .hole 0, .text ", ", .hole 1, .text ")"]⟩
  | "YEAR" => some ⟨1, enclosed 0 ++ [.text ".Year"]⟩
  | "MONTH" => some ⟨1, enclosed 0 ++ [.text ".Month"]⟩
  | "DAY" => some ⟨1, enclosed 0 ++ [.text ".Day"]⟩
  | "DATEADD" => (part.map DatePart.addForm).map (CallForm.mk 3)
  | "DATEPART" => (part.bind DatePart.memberForm?).map (CallForm.mk 2)
  | "DATEDIFF" => (part.bind DatePart.differenceForm?).map (CallForm.mk 3)
  | _ => none

/-- The functions whose first argument names a part of a date. -/
def dateFunctions : List String := ["DATEADD", "DATEPART", "DATEDIFF"]

theorem callForm?_dates {name : String} (hname : name ∈ dateFunctions) {part : Option DatePart}
    {t : CallForm} (h : callForm? name part = some t) : (∃ p, part = some p) ∧ 2 ≤ t.arity := by
  simp only [dateFunctions, List.mem_cons, List.not_mem_nil, or_false] at hname
  rcases hname with rfl | rfl | rfl
  · obtain ⟨code, hcode, rfl⟩ := Option.map_eq_some_iff.1 h
    obtain ⟨p, hp, -⟩ := Option.map_eq_some_iff.1 hcode
    exact ⟨⟨p, hp⟩, by simp⟩
  · obtain ⟨code, hcode, rfl⟩ := Option.map_eq_some_iff.1 h
    obtain ⟨p, hp, -⟩ := Option.bind_eq_some_iff.1 hcode
    exact ⟨⟨p, hp⟩, by simp⟩
  · obtain ⟨code, hcode, rfl⟩ := Option.map_eq_some_iff.1 h
    obtain ⟨p, hp, -⟩ := Option.bind_eq_some_iff.1 hcode
    exact ⟨⟨p, hp⟩, by simp⟩

theorem callForm?_of_not_date {name : String} (hname : name ∉ dateFunctions)
    (part other : Option DatePart) : callForm? name part = callForm? name other := by
  unfold callForm?
  split
  case h_23 => exact absurd (by decide) hname
  case h_24 => exact absurd (by decide) hname
  case h_25 => exact absurd (by decide) hname
  all_goals rfl

/-- The form of a cast to a type. -/
def castForm? (type : String) : Option (Form Unit) :=
  if type == "DT_GUID" then some (.text "new Guid(Convert.ToString" :: enclosed () ++ [.text ")"])
  else (conversion? type).map fun method => .text "Convert." :: .text method :: enclosed ()

/-! ## What is filled -/

theorem toOption_ok {ε α : Type} (a : α) : (Except.ok a : Except ε α).toOption = some a := rfl

theorem toOption_castCode (type operand : String) :
    (castCode type operand).toOption = (castForm? type).map (Form.fill fun _ => operand) := by
  unfold castCode castForm?
  split
  · simp [toOption_ok, Form.fill, Form.fill_append, Form.fill_enclosed, String.append_assoc]
  · cases conversion? type with
    | none => rfl
    | some method => simp [toOption_ok, Form.fill, Form.fill_enclosed, String.append_assoc]

/-- The part of a date that the first argument of a call names. -/
def firstPart? (args : List String) : Option DatePart :=
  args.head?.bind fun code => DatePart.ofWord? (partWord code)

theorem firstPart?_cons (code : String) (args : List String) :
    firstPart? (code :: args) = DatePart.ofWord? (partWord code) := by
  rw [firstPart?, List.head?_cons, Option.bind_some]

theorem toOption_nullary (name : String) (args : List String) (code : String) :
    (nullary name args code).toOption = if args.length = 0 then some code else none := by
  cases args <;> rfl

theorem toOption_unary (name : String) (args : List String) (code : String → String) :
    (unary name args code).toOption =
      if args.length = 1 then some (code (args.getD 0 "")) else none := by
  rcases args with _ | ⟨a, _ | ⟨b, args⟩⟩ <;> simp [unary, Except.toOption]

theorem toOption_binary (name : String) (args : List String)
    (code : String → String → Except Cause String) :
    (binary name args code).toOption =
      if args.length = 2 then (code (args.getD 0 "") (args.getD 1 "")).toOption else none := by
  rcases args with _ | ⟨a, _ | ⟨b, _ | ⟨c, args⟩⟩⟩ <;> simp [binary, Except.toOption]

theorem toOption_ternary (name : String) (args : List String)
    (code : String → String → String → Except Cause String) :
    (ternary name args code).toOption =
      if args.length = 3 then
        (code (args.getD 0 "") (args.getD 1 "") (args.getD 2 "")).toOption
      else none := by
  rcases args with _ | ⟨a, _ | ⟨b, _ | ⟨c, _ | ⟨d, args⟩⟩⟩⟩ <;> simp [ternary, Except.toOption]

theorem map_bind_fill? (code : Option (Form Nat)) (arity : Nat) (args : List String) :
    (code.map (CallForm.mk arity)).bind (·.fill? args) =
      if args.length = arity then code.map (Form.fill fun i => args.getD i "") else none := by
  cases code <;> simp [CallForm.fill?]

theorem toOption_dateAddCode (part count date : String) :
    (dateAddCode part count date).toOption =
      ((DatePart.ofWord? (partWord part)).map DatePart.addForm).map
        (Form.fill fun i => [part, count, date].getD i "") := by
  unfold dateAddCode
  cases DatePart.ofWord? (partWord part) with
  | none => rfl
  | some p =>
    dsimp only
    rw [Option.map_some, Option.map_some, DatePart.addForm]
    split <;> simp [toOption_ok, Form.fill, Form.fill_append, Form.fill_enclosed,
      String.append_assoc]

theorem toOption_datePartCode (part date : String) :
    (datePartCode part date).toOption =
      ((DatePart.ofWord? (partWord part)).bind DatePart.memberForm?).map
        (Form.fill fun i => [part, date].getD i "") := by
  unfold datePartCode
  cases DatePart.ofWord? (partWord part) with
  | none => rfl
  | some p =>
    simp only [Option.bind_some, DatePart.memberForm?]
    cases p.member? with
    | none => rfl
    | some member =>
      simp [toOption_ok, Form.fill, Form.fill_append, Form.fill_enclosed,
        String.append_assoc]

theorem difference?_eq (part start finish : String) (p : DatePart) :
    p.difference? start finish =
      p.differenceForm?.map (Form.fill fun i => [part, start, finish].getD i "") := by
  cases p <;> simp [DatePart.difference?, DatePart.differenceForm?, DatePart.elapsed,
    DatePart.elapsedForm, Form.fill, Form.fill_append, Form.fill_enclosed,
    String.append_assoc]

theorem toOption_dateDiffCode (part start finish : String) :
    (dateDiffCode part start finish).toOption =
      ((DatePart.ofWord? (partWord part)).bind DatePart.differenceForm?).map
        (Form.fill fun i => [part, start, finish].getD i "") := by
  unfold dateDiffCode
  cases DatePart.ofWord? (partWord part) with
  | none => rfl
  | some p =>
    simp only [Option.bind_some, difference?_eq part]
    cases p.differenceForm? <;> rfl

/-- A call has code exactly if there is a form for as many arguments as it has. -/
theorem toOption_functionCode (name : String) (args : List String) :
    (functionCode name args).toOption =
      (callForm? name (firstPart? args)).bind (·.fill? args) := by
  unfold functionCode
  split
  -- the form of a name is found by evaluation; unfolding the table by `simp` is slow
  case h_23 =>
    refine Eq.trans ?_ (map_bind_fill? _ _ _).symm
    rw [toOption_ternary]
    split
    · rename_i h
      obtain ⟨part, count, date, rfl⟩ := List.length_eq_three.1 h
      rw [firstPart?_cons]
      exact toOption_dateAddCode part count date
    · rfl
  case h_24 =>
    refine Eq.trans ?_ (map_bind_fill? _ _ _).symm
    rw [toOption_binary]
    split
    · rename_i h
      obtain ⟨part, date, rfl⟩ := List.length_eq_two.1 h
      rw [firstPart?_cons]
      exact toOption_datePartCode part date
    · rfl
  case h_25 =>
    refine Eq.trans ?_ (map_bind_fill? _ _ _).symm
    rw [toOption_ternary]
    split
    · rename_i h
      obtain ⟨part, start, finish, rfl⟩ := List.length_eq_three.1 h
      rw [firstPart?_cons]
      exact toOption_dateDiffCode part start finish
    · rfl
  case h_26 =>
    unfold callForm?
    split
    case h_26 => rfl
    all_goals contradiction
  all_goals
    refine Eq.trans ?_ (Option.bind_some _ _).symm
    simp only [toOption_nullary, toOption_unary, toOption_binary, toOption_ternary, toOption_ok,
      CallForm.fill?, Form.fill, Form.fill_append, Form.fill_enclosed, String.append_empty,
      String.append_assoc]

theorem functionCode_eq_ok_iff (name : String) (args : List String) (code : String) :
    functionCode name args = .ok code ↔
      ∃ t, callForm? name (firstPart? args) = some t ∧ args.length = t.arity ∧
        t.code.fill (fun i => args.getD i "") = code := by
  have hfill : functionCode name args = .ok code ↔
      (callForm? name (firstPart? args)).bind (·.fill? args) = some code := by
    rw [← toOption_functionCode]
    exact ⟨fun h => by rw [h, toOption_ok], eq_ok_of_toOption⟩
  simp [hfill, Option.bind_eq_some_iff, CallForm.fill?]

theorem castCode_eq_ok_iff (type operand code : String) :
    castCode type operand = .ok code ↔
      ∃ t, castForm? type = some t ∧ t.fill (fun _ => operand) = code := by
  rw [← Option.map_eq_some_iff, ← toOption_castCode]
  exact ⟨fun h => by rw [h, toOption_ok], eq_ok_of_toOption⟩

theorem forall_getD {P : String → Prop} (hempty : P "") {args : List String}
    (h : ∀ arg ∈ args, P arg) (i : Nat) : P (args.getD i "") := by
  by_cases hi : i < args.length
  · simpa [hi] using h args[i] (List.getElem_mem hi)
  · simpa [hi] using hempty

/-! ## The table as a list

What a check finds of all forms of the table holds of the form of every cast and of every call. -/

/-- The data types with a form. -/
def dataTypes : List String := [
  "DT_GUID", "DT_WSTR", "DT_STR", "DT_TEXT", "DT_NTEXT", "DT_I1", "DT_I2", "DT_I4", "DT_I8", "DT_UI1",
  "DT_UI2", "DT_UI4", "DT_UI8", "DT_R4", "DT_R8", "DT_BOOL", "DT_DATE", "DT_DBDATE",
  "DT_DBTIMESTAMP", "DT_DBTIMESTAMP2", "DT_FILETIME", "DT_DECIMAL", "DT_NUMERIC", "DT_CY"]

/-- The forms of all casts. -/
def castForms : List (Form Unit) := dataTypes.filterMap castForm?

/-- The forms of the functions that take no part of a date. -/
def plainForms : List CallForm := functionNames.filterMap (callForm? · none)

/-- The forms of the functions of dates, for each part. -/
def dateForms : List CallForm :=
  DatePart.all.flatMap fun p => dateFunctions.filterMap (callForm? · (some p))

theorem mem_castForms {type : String} {t : Form Unit} (h : castForm? type = some t) :
    t ∈ castForms := by
  have htype : type ∈ dataTypes := by
    unfold castForm? at h
    split at h
    · rename_i hguid
      rw [beq_iff_eq.1 hguid]
      decide
    · obtain ⟨method, hmethod, -⟩ := Option.map_eq_some_iff.1 h
      unfold conversion? at hmethod
      split at hmethod
      case h_24 => cases hmethod
      all_goals decide
  exact List.mem_filterMap.2 ⟨type, htype, h⟩

theorem mem_forms {name : String} {part : Option DatePart} {t : CallForm}
    (h : callForm? name part = some t) :
    t ∈ plainForms ∨ part.isSome = true ∧ t ∈ dateForms := by
  by_cases hdate : name ∈ dateFunctions
  · obtain ⟨⟨p, rfl⟩, -⟩ := callForm?_dates hdate h
    refine .inr ⟨rfl, List.mem_flatMap.2 ⟨p, p.mem_all, ?_⟩⟩
    exact List.mem_filterMap.2 ⟨name, hdate, h⟩
  · have hname : name ∈ functionNames := by
      unfold callForm? at h
      split at h
      case h_26 => cases h
      all_goals decide
    rw [callForm?_of_not_date hdate part none] at h
    exact .inl (List.mem_filterMap.2 ⟨name, hname, h⟩)

theorem castForm?_all {P : Form Unit → Bool} (hall : castForms.all P = true) {type : String}
    {t : Form Unit} (h : castForm? type = some t) : P t = true :=
  List.all_eq_true.1 hall t (mem_castForms h)

theorem callForm?_all {P : CallForm → Bool} (hplain : plainForms.all P = true)
    (hdates : dateForms.all P = true) {name : String} {part : Option DatePart} {t : CallForm}
    (h : callForm? name part = some t) : P t = true := by
  rcases mem_forms h with hmem | ⟨-, hmem⟩
  · exact List.all_eq_true.1 hplain t hmem
  · exact List.all_eq_true.1 hdates t hmem

end SsisCompiler.Expression
