/-
Iams.Lib.Csv — tables as texts with commas and quotes.

`writeRow` is a line of such a text: a field with a comma, a quote or the end
of a line in it is quoted, with its quotes doubled, and so is an empty field
that is the only one. `read` scans a text character by character, with the
end of a line in any of its forms. What has been written is read again, for
all texts in the fields (`read_writeRows`).

The scan is `feed`, one step for each character; a lemma for each part of a
line says where it leaves the reader.

No `sorry`, no `axiom`, no `native_decide`.
-/

namespace Iams.Lib.Csv

/-- The text of a field. -/
abbrev Field := List Char

/-! ## Writing -/

def comma : Char := ','

def quotechar : Char := '\x22'

/-- What a field is quoted for. -/
def special (c : Char) : Bool := c = comma || c = quotechar || c = '\r' || c = '\n'

/-- A quote is doubled. -/
def escape (c : Char) : List Char := if c = quotechar then [quotechar, quotechar] else [c]

def quote (field : Field) : List Char := quotechar :: field.flatMap escape ++ [quotechar]

def writeField (field : Field) : List Char := if field.any special then quote field else field

/-- Fields with commas between them. -/
def writeFields : List Field → List Char
  | [] => []
  | [field] => writeField field
  | field :: rest => writeField field ++ comma :: writeFields rest

/-- A line; one that would be empty is not read as a field. -/
def writeRow (row : List Field) : List Char :=
  (if row = [[]] then quote [] else writeFields row) ++ ['\r', '\n']

def writeRows (rows : List (List Field)) : List Char := rows.flatMap writeRow

theorem writeRows_cons (row : List Field) (rest : List (List Field)) :
    writeRows (row :: rest) = writeRow row ++ writeRows rest := List.flatMap_cons

/-! ## Reading -/

inductive Mode where
  | startRecord
  | startField
  | inField
  | inQuoted
  | quoteInQuoted
  | afterReturn
  deriving DecidableEq, Repr

/-- What has been read: the field so far, those before it in its record, and
the records. -/
structure Reader where
  mode : Mode := .startRecord
  field : Field := []
  fields : List Field := []
  records : List (List Field) := []

namespace Reader

def add (r : Reader) (c : Char) : Reader := { r with mode := .inField, field := r.field ++ [c] }

def saveField (r : Reader) : Reader :=
  { r with mode := .startField, field := [], fields := r.fields ++ [r.field] }

/-- The end of a line, where `\r\n` is one. -/
def endRecord (r : Reader) (c : Char) : Reader :=
  { mode := if c = '\r' then .afterReturn else .startRecord, records := r.records ++ [r.fields] }

def isNewline (c : Char) : Bool := c = '\r' || c = '\n'

/-- A character that is not quoted. -/
def plain (r : Reader) (c : Char) : Reader :=
  if isNewline c then r.saveField.endRecord c
  else if c = comma then r.saveField
  else r.add c

/-- The first character of a field. -/
def first (r : Reader) (c : Char) : Reader :=
  if c = quotechar then { r with mode := .inQuoted } else r.plain c

def step (r : Reader) (c : Char) : Reader :=
  match r.mode with
  | .startRecord => if isNewline c then r.endRecord c else r.first c
  | .startField => r.first c
  | .inField => r.plain c
  | .inQuoted =>
    if c = quotechar then { r with mode := .quoteInQuoted }
    else { r with field := r.field ++ [c] }
  | .quoteInQuoted =>
    if c = quotechar then { r with mode := .inQuoted, field := r.field ++ [c] } else r.plain c
  | .afterReturn =>
    if c = '\n' then { r with mode := .startRecord }
    else if c = '\r' then r.endRecord c
    else r.first c

/-- The end of the text. -/
def finish (r : Reader) : List (List Field) :=
  if r.mode = .startRecord ∨ r.mode = .afterReturn then r.records
  else r.records ++ [r.fields ++ [r.field]]

def feed (r : Reader) (text : List Char) : Reader := text.foldl step r

theorem feed_append (r : Reader) (s t : List Char) : r.feed (s ++ t) = (r.feed s).feed t :=
  List.foldl_append

end Reader

/-- The records of a text. -/
def read (text : List Char) : List (List Field) := (Reader.feed {} text).finish

/-! ## Reading what was written -/

open Reader

variable {fields : List Field} {records : List (List Field)}

theorem feed_plain {field : Field} (h : ∀ c ∈ field, special c = false) (start : Field) :
    feed { mode := .inField, field := start, fields, records } field =
      { mode := .inField, field := start ++ field, fields, records } := by
  induction field generalizing start with
  | nil => rw [List.append_nil]; rfl
  | cons c rest ih =>
    obtain ⟨hc, hrest⟩ := List.forall_mem_cons.mp h
    have hstep : step { mode := .inField, field := start, fields, records } c =
        { mode := .inField, field := start ++ [c], fields, records } := by
      simp only [special, Bool.or_eq_false_iff, decide_eq_false_iff_not] at hc
      simp [step, plain, isNewline, hc, add]
    rw [feed, List.foldl_cons, hstep]
    exact (ih hrest _).trans (by rw [List.append_assoc]; rfl)

theorem feed_escaped (field start : Field) :
    feed { mode := .inQuoted, field := start, fields, records } (field.flatMap escape) =
      { mode := .inQuoted, field := start ++ field, fields, records } := by
  induction field generalizing start with
  | nil => rw [List.append_nil]; rfl
  | cons c rest ih =>
    have hstep : feed { mode := .inQuoted, field := start, fields, records } (escape c) =
        { mode := .inQuoted, field := start ++ [c], fields, records } := by
      by_cases hc : c = quotechar
      · subst hc
        rfl
      · simp [feed, escape, step, hc]
    rw [List.flatMap_cons, feed_append, hstep, ih, List.append_assoc]
    rfl

/-- Where the reader stands after a field, before what ends it. -/
theorem feed_writeField (field : Field) {mode : Mode}
    (hmode : mode = .startField ∨ mode = .startRecord) (hfield : field ≠ []) :
    ∃ mode', (mode' = .inField ∨ mode' = .quoteInQuoted) ∧
      feed { mode, fields, records } (writeField field) =
        { mode := mode', field, fields, records } := by
  unfold writeField
  split
  · refine ⟨.quoteInQuoted, .inr rfl, ?_⟩
    have hfirst : step { mode, fields, records } quotechar =
        { mode := .inQuoted, fields, records } := by
      rcases hmode with rfl | rfl <;> rfl
    rw [quote, feed, List.cons_append, List.foldl_cons, hfirst]
    show feed _ (field.flatMap escape ++ [quotechar]) = _
    rw [feed_append, feed_escaped]
    rfl
  · next hplain =>
    refine ⟨.inField, .inl rfl, ?_⟩
    cases field with
    | nil => exact absurd rfl hfield
    | cons c rest =>
      have hall : ∀ d ∈ c :: rest, special d = false := by
        simpa using hplain
      obtain ⟨hc, hrest⟩ := List.forall_mem_cons.mp hall
      have hstep : step { mode, fields, records } c =
          { mode := .inField, field := [c], fields, records } := by
        simp only [special, Bool.or_eq_false_iff, decide_eq_false_iff_not] at hc
        rcases hmode with rfl | rfl <;> simp [step, first, plain, isNewline, hc, add]
      rw [feed, List.foldl_cons, hstep]
      exact feed_plain hrest [c]

/-- A field and a comma. -/
theorem feed_field_comma (field : Field) {mode : Mode}
    (hmode : mode = .startField ∨ mode = .startRecord) :
    feed { mode, fields, records } (writeField field ++ [comma]) =
      { mode := .startField, fields := fields ++ [field], records } := by
  rw [feed_append]
  by_cases hfield : field = []
  · subst hfield
    rcases hmode with rfl | rfl <;> rfl
  · obtain ⟨mode', hmode', heq⟩ := feed_writeField field hmode hfield
    rw [heq]
    rcases hmode' with rfl | rfl <;> rfl

/-- A field and the end of its line; at its start, an empty field is none. -/
theorem feed_field_newline (field : Field) {mode : Mode}
    (hmode : mode = .startField ∨ mode = .startRecord ∧ field ≠ []) :
    feed { mode, fields, records } (writeField field ++ ['\r', '\n']) =
      { records := records ++ [fields ++ [field]] } := by
  rw [feed_append]
  by_cases hfield : field = []
  · subst hfield
    rcases hmode with rfl | ⟨-, h⟩
    · rfl
    · exact absurd rfl h
  · obtain ⟨mode', hmode', heq⟩ :=
      feed_writeField field (hmode.imp_right And.left) hfield
    rw [heq]
    rcases hmode' with rfl | rfl <;> rfl

/-- The fields that are left in a line. -/
theorem feed_fields (field : Field) (rest : List Field) {mode : Mode}
    (hmode : mode = .startField ∨ mode = .startRecord ∧ (field ≠ [] ∨ rest ≠ [])) :
    feed { mode, fields, records } (writeFields (field :: rest) ++ ['\r', '\n']) =
      { records := records ++ [fields ++ field :: rest] } := by
  induction rest generalizing field fields mode with
  | nil =>
    exact feed_field_newline field (hmode.imp_right (And.imp_right fun h => by simpa using h))
  | cons next rest ih =>
    have hsplit : writeFields (field :: next :: rest) ++ ['\r', '\n'] =
        (writeField field ++ [comma]) ++ (writeFields (next :: rest) ++ ['\r', '\n']) := by
      show (writeField field ++ comma :: writeFields (next :: rest)) ++ _ = _
      rw [List.append_assoc, List.append_assoc]
      rfl
    rw [hsplit, feed_append, feed_field_comma field (hmode.imp_right And.left),
      ih next (.inl rfl), List.append_assoc]
    rfl

/-- A line is a record. -/
theorem feed_writeRow (row : List Field) :
    feed { records } (writeRow row) = { records := records ++ [row] } := by
  unfold writeRow
  split
  · next hrow =>
    subst hrow
    rfl
  · next hrow =>
    cases row with
    | nil => rfl
    | cons field rest =>
      refine feed_fields field rest (.inr ⟨rfl, ?_⟩)
      cases rest with
      | nil => exact .inl fun hfield => hrow (by rw [hfield])
      | cons => exact .inr nofun

theorem feed_writeRows (rows : List (List Field)) :
    feed { records } (writeRows rows) = { records := records ++ rows } := by
  induction rows generalizing records with
  | nil => rw [List.append_nil]; rfl
  | cons row rest ih =>
    rw [writeRows_cons, feed_append, feed_writeRow]
    exact ih.trans (by rw [List.append_assoc]; rfl)

/-- What has been written is read again. -/
theorem read_writeRows (rows : List (List Field)) : read (writeRows rows) = rows := by
  have hfeed : feed { records := [] } (writeRows rows) = { records := rows } := feed_writeRows rows
  exact congrArg finish hfeed

example : writeRows [["a".toList, "b,c".toList], [[]], [['\x22'], []]] =
    "a,\x22b,c\x22\r\n\x22\x22\r\n\x22\x22\x22\x22,\r\n".toList := by decide

end Iams.Lib.Csv
