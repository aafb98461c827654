/-
Iams.Configuration.Format — `str.format`, as far as the names of runs need it.

`parse` finds the replacement fields of a format string. A text without
braces has none and is its own format (`format_plain`). The fields that
`iams/simulation.py` writes itself are `{:03d}` and the like, which stand
for the one positional argument with leading zeros
(`format_numbered`); `formatFields` is how a string with other fields
is formatted.

No `sorry`, no `axiom`, no `native_decide`.
-/
import Iams.Configuration.Settings
import Iams.Lib.Decimal

namespace Iams.Configuration

open Iams.Lib
open Iams.Lib.Decimal (zeroPad)

/-- A piece of a format string. -/
inductive Piece where
  | literal (c : Char)
  | field (text : List Char)
  deriving DecidableEq, Repr

/-- The pieces of a format string. In a field, `state` is the number of inner
braces that are open, and the text so far. -/
def parse (state : Option (Nat × List Char)) : List Char → Except Error (List Piece)
  | [] =>
    match state with
    | none => .ok []
    | some _ => .error (.valueError "expected '\x7d' before end of string")
  | c :: rest =>
    match state with
    | none =>
      if c = '{' then
        match rest with
        | [] => .error (.valueError "Single '\x7b' encountered in format string")
        | '{' :: rest => (parse none rest).map (.literal '{' :: ·)
        | d :: rest => parse (some (0, [])) (d :: rest)
      else if c = '}' then
        match rest with
        | '}' :: rest => (parse none rest).map (.literal '}' :: ·)
        | _ => .error (.valueError "Single '\x7d' encountered in format string")
      else (parse none rest).map (.literal c :: ·)
    | some (depth, text) =>
      if c = '{' then parse (some (depth + 1, text ++ [c])) rest
      else if c = '}' then
        match depth with
        | 0 => (parse none rest).map (.field text :: ·)
        | depth + 1 => parse (some (depth, text ++ [c])) rest
      else parse (some (depth, text ++ [c])) rest

/-- The width of a field such as `:03d`. -/
def zeroPadded? : List Char → Option Nat
  | ':' :: '0' :: rest =>
    let digits := rest.dropLast
    if rest.getLast? = some 'd' ∧ digits ≠ [] ∧ digits.all Char.isDigit then
      some (Nat.ofDigitChars 10 digits 0)
    else none
  | _ => none

def Piece.field? : Piece → Option (List Char)
  | .literal _ => none
  | .field text => some text

/-- The text, with a value for its fields. -/
def substitute (value : List Char) (pieces : List Piece) : List Char :=
  pieces.flatMap fun
    | .literal c => [c]
    | .field _ => value

/-- How Python formats a string with other fields. -/
abbrev FormatFields (V : Type) := List Piece → Nat → Dict String V → Except Error String

/-- `template.format(count, **kwargs)` -/
def format {V : Type} (formatFields : FormatFields V) (template : String) (count : Nat)
    (kwargs : Dict String V) : Except Error String := do
  let pieces ← parse none template.toList
  match pieces.filterMap Piece.field? with
  | [] => return String.ofList (substitute [] pieces)
  | [text] =>
    match zeroPadded? text with
    | some width => return String.ofList (substitute (zeroPad width count) pieces)
    | none => formatFields pieces count kwargs
  | _ => formatFields pieces count kwargs

/-! ## Texts without braces -/

/-- There is no brace in the text. -/
def Plain (text : List Char) : Prop := ∀ c ∈ text, c ≠ '{' ∧ c ≠ '}'

instance (text : List Char) : Decidable (Plain text) := List.decidableBAll _ _

theorem parse_plain {text : List Char} (h : Plain text) (rest : List Char) :
    parse none (text ++ rest) = (parse none rest).map (text.map .literal ++ ·) := by
  induction text with
  | nil => cases hrest : parse none rest <;> simp [hrest, Except.map]
  | cons c text ih =>
    obtain ⟨⟨hopen, hclose⟩, htext⟩ := List.forall_mem_cons.mp h
    have hstep : parse none (c :: (text ++ rest)) =
        (parse none (text ++ rest)).map (.literal c :: ·) := by
      rw [parse.eq_def]
      simp only [if_neg hopen, if_neg hclose]
    rw [List.cons_append, hstep, ih htext]
    cases parse none rest <;> rfl

theorem parse_field {text : List Char} (h : Plain text) (before rest : List Char) :
    parse (some (0, before)) (text ++ '}' :: rest) =
      (parse none rest).map (.field (before ++ text) :: ·) := by
  induction text generalizing before with
  | nil =>
    rw [List.nil_append, List.append_nil, parse.eq_def]
    rfl
  | cons c text ih =>
    obtain ⟨⟨hopen, hclose⟩, htext⟩ := List.forall_mem_cons.mp h
    have hstep : parse (some (0, before)) (c :: (text ++ '}' :: rest)) =
        parse (some (0, before ++ [c])) (text ++ '}' :: rest) := by
      rw [parse.eq_def]
      simp only [if_neg hopen, if_neg hclose]
    rw [List.cons_append, hstep, ih htext, List.append_assoc, List.singleton_append]

theorem fields_literals (text : List Char) :
    (text.map Piece.literal).filterMap Piece.field? = [] := by
  rw [List.filterMap_map]
  exact List.filterMap_eq_nil_iff.mpr fun _ _ => rfl

theorem substitute_literals (value text : List Char) :
    substitute value (text.map .literal) = text := by
  unfold substitute
  rw [List.flatMap_map]
  exact List.flatMap_singleton' text

variable {V : Type} (formatFields : FormatFields V) (count : Nat) (kwargs : Dict String V)

/-- A text without braces is its own format. -/
theorem format_plain {text : String} (h : Plain text.toList) :
    format formatFields text count kwargs = .ok text := by
  have hparse : parse none text.toList = .ok (text.toList.map .literal) := by
    have hrest := parse_plain h []
    rw [List.append_nil] at hrest
    rw [hrest, parse.eq_def]
    simp [Except.map]
  unfold format
  rw [hparse]
  simp only [bind, Except.bind, fields_literals, substitute_literals, String.ofList_toList]
  rfl

/-! ## Numbers with leading zeros -/

/-- `'{:0%dd}' % width` -/
def numberField (width : Nat) : String := "\x7b:0" ++ toString width ++ "d\x7d"

/-- What is between its braces. -/
def numberText (width : Nat) : List Char := ':' :: '0' :: (Nat.toDigits 10 width ++ ['d'])

theorem toList_numberField (width : Nat) :
    (numberField width).toList = '{' :: (numberText width ++ ['}']) := by
  rw [numberField, Nat.toString_eq_ofList_toDigits, String.toList_append, String.toList_append,
    String.toList_ofList, numberText]
  simp

theorem isDigit_toDigits {n : Nat} {c : Char} (hc : c ∈ Nat.toDigits 10 n) : c.isDigit = true :=
  Nat.isDigit_of_mem_toDigits (by decide) (by decide) hc

theorem plain_numberText (width : Nat) : Plain (numberText width) := by
  intro c hc
  simp only [numberText, List.mem_cons, List.mem_append, List.not_mem_nil, or_false] at hc
  rcases hc with rfl | rfl | hc | rfl
  · decide
  · decide
  · constructor <;> rintro rfl <;> exact absurd (isDigit_toDigits hc) (by decide)
  · decide

theorem zeroPadded?_numberText (width : Nat) : zeroPadded? (numberText width) = some width := by
  have hdigits : (Nat.toDigits 10 width).all Char.isDigit = true :=
    List.all_eq_true.mpr fun _ hc => isDigit_toDigits hc
  show (if (Nat.toDigits 10 width ++ ['d']).getLast? = some 'd' ∧
      (Nat.toDigits 10 width ++ ['d']).dropLast ≠ [] ∧
      (Nat.toDigits 10 width ++ ['d']).dropLast.all Char.isDigit then
      some (Nat.ofDigitChars 10 (Nat.toDigits 10 width ++ ['d']).dropLast 0) else none) = some width
  rw [List.dropLast_concat, List.getLast?_concat, if_pos ⟨rfl, Nat.toDigits_ne_nil, hdigits⟩,
    Nat.ofDigitChars_ten_toDigits]

theorem parse_numberField (width : Nat) :
    parse none (numberField width).toList = .ok [.field (numberText width)] := by
  have hopen : parse none ('{' :: (numberText width ++ ['}'])) =
      parse (some (0, [])) (numberText width ++ '}' :: []) := by
    rw [parse.eq_def]
    rfl
  rw [toList_numberField, hopen, parse_field (plain_numberText width), parse.eq_def]
  rfl

/-- One field, and it is for a number. -/
theorem format_eq_of_field {template : String} {pieces : List Piece} {text : List Char}
    {width : Nat} (hparse : parse none template.toList = .ok pieces)
    (hfields : pieces.filterMap Piece.field? = [text]) (hwidth : zeroPadded? text = some width) :
    format formatFields template count kwargs =
      .ok (String.ofList (substitute (zeroPad width count) pieces)) := by
  unfold format
  rw [hparse]
  simp only [bind, Except.bind, hfields, hwidth]
  rfl

/-- A text and a number with leading zeros. -/
theorem format_numbered {text : String} (h : Plain text.toList) (width : Nat) :
    format formatFields (text ++ numberField width) count kwargs =
      .ok (text ++ String.ofList (zeroPad width count)) := by
  have hparse : parse none (text ++ numberField width).toList =
      .ok (text.toList.map .literal ++ [.field (numberText width)]) := by
    rw [String.toList_append, parse_plain h, parse_numberField]
    rfl
  have hfields : (text.toList.map Piece.literal ++ [Piece.field (numberText width)]).filterMap
      Piece.field? = [numberText width] := by
    rw [List.filterMap_append, fields_literals]
    rfl
  have hsubstitute : substitute (zeroPad width count)
      (text.toList.map .literal ++ [.field (numberText width)]) =
        text.toList ++ zeroPad width count := by
    rw [substitute, List.flatMap_append, ← substitute, substitute_literals]
    simp
  rw [format_eq_of_field formatFields count kwargs hparse hfields (zeroPadded?_numberText width),
    hsubstitute, String.ofList_append, String.ofList_toList]

end Iams.Configuration
