import Mathlib.Data.List.Basic
import Mathlib.Data.List.Infix

/-! Tables as text: fields between commas, records on lines, and quotes around a field with a comma, a quote or a line break in
it, where a quote is written twice. A line may end in a carriage return and a line feed or in the line feed alone. -/
namespace Csv

abbrev Text := List Char

/-- What must be in quotes. -/
def special (c : Char) : Bool := c = ',' || c = '"' || c = '\n' || c = '\r'

inductive Mode where
  /-- At the start of a field. -/
  | start
  | plain
  | quoted
  /-- After a quote in quotes. -/
  | closed
  /-- After a carriage return. -/
  | returned
  deriving DecidableEq, Repr

/-- What is read: the field and the record begun, and the records before. -/
structure Reading where
  mode : Mode := .start
  field : Text := []
  fields : List Text := []
  records : List (List Text) := []

def Reading.endField (s : Reading) : Reading := { s with mode := .start, field := [], fields := s.fields ++ [s.field] }

def Reading.endRecord (s : Reading) : Reading :=
  { mode := .start, field := [], fields := [], records := s.records ++ [s.fields ++ [s.field]] }

/-- What ends a field. -/
def Reading.separate (s : Reading) (c : Char) : Option Reading :=
  if c = ',' then some s.endField
  else if c = '\n' then some s.endRecord
  else if c = '\r' then some { s with mode := .returned }
  else none

def Reading.take (s : Reading) (mode : Mode) (c : Char) : Reading := { s with mode := mode, field := s.field ++ [c] }

/-- One character; none where the text is no table. -/
def step (s : Reading) (c : Char) : Option Reading :=
  match s.mode with
  | .start => if c = '"' then some { s with mode := .quoted } else if special c then s.separate c else some (s.take .plain c)
  | .plain => if special c then s.separate c else some (s.take .plain c)
  | .quoted => if c = '"' then some { s with mode := .closed } else some (s.take .quoted c)
  | .closed => if c = '"' then some (s.take .quoted c) else s.separate c
  | .returned => if c = '\n' then some s.endRecord else none

/-- The last line may do without its end. -/
def finish (s : Reading) : Option (List (List Text)) :=
  match s.mode with
  | .start => some (if s.fields = [] then s.records else s.endRecord.records)
  | .plain | .closed => some s.endRecord.records
  | .quoted | .returned => none

/-- The records of a text. -/
def read (text : Text) : Option (List (List Text)) := (text.foldlM step {}).bind finish

/-- A field, in quotes where it needs them. -/
def cell (s : Text) : Text :=
  if s.any special then '"' :: s.flatMap (fun c => if c = '"' then ['"', '"'] else [c]) ++ ['"'] else s

def line (fields : List Text) : Text := [','].intercalate (fields.map cell) ++ ['\n']

variable {s : Reading}

theorem step_plain {c : Char} (common : special c = false) (mode : s.mode = .start ∨ s.mode = .plain) : step s c = some (s.take .plain c) := by
  have unquoted : c ≠ '"' := by
    rintro rfl
    cases common
  rcases mode with mode | mode <;> simp [step, mode, common, unquoted]

/-- Common characters are read as they are. -/
theorem plain_run (q : Text) (common : ∀ c ∈ q, special c = false) (mode : s.mode = .start ∨ s.mode = .plain) :
    q.foldlM step s = some { s with mode := if q = [] then s.mode else .plain, field := s.field ++ q } := by
  induction q generalizing s with
  | nil => simp
  | cons c q ih =>
    obtain ⟨first, rest⟩ := List.forall_mem_cons.mp common
    rw [List.foldlM_cons, step_plain first mode]
    refine (ih rest (.inr rfl)).trans ?_
    simp [Reading.take]

theorem quoted_run (q : Text) (mode : s.mode = .quoted) :
    (q.flatMap fun c => if c = '"' then ['"', '"'] else [c]).foldlM step s = some { s with field := s.field ++ q } := by
  induction q generalizing s with
  | nil => simp
  | cons c q ih =>
    rw [List.flatMap_cons, List.foldlM_append]
    have one : (if c = '"' then ['"', '"'] else [c]).foldlM step s = some (s.take .quoted c) := by
      by_cases quote : c = '"'
      · subst quote
        simp [step, mode, Reading.take]
      · simp [quote, step, mode]
    rw [one]
    refine (ih rfl).trans ?_
    simp [Reading.take, mode]

/-- A field that is written is read back. -/
theorem cell_run (field : Text) (mode : s.mode = .start) (fresh : s.field = []) :
    ∃ m, m ≠ .quoted ∧ m ≠ .returned ∧ (cell field).foldlM step s = some { s with mode := m, field := field } := by
  unfold cell
  split
  · refine ⟨.closed, nofun, nofun, ?_⟩
    rw [List.cons_append, List.foldlM_cons]
    have opened : step s '"' = some { s with mode := .quoted } := by simp [step, mode]
    rw [opened, Option.bind_eq_bind, Option.bind_some, List.foldlM_append, quoted_run field rfl]
    simp [step, fresh]
  · rename_i common
    have common : ∀ c ∈ field, special c = false := by simpa using common
    refine ⟨if field = [] then s.mode else .plain, ?_, ?_, ?_⟩
    · split
      · rw [mode]
        exact nofun
      · exact nofun
    · split
      · rw [mode]
        exact nofun
      · exact nofun
    · rw [plain_run field common (.inl mode), fresh, List.nil_append]

theorem separate_step {c : Char} (ends : c = ',' ∨ c = '\n') (open_ : s.mode ≠ .quoted) (returned : s.mode ≠ .returned) :
    step s c = s.separate c := by
  have special_ : special c = true := by rcases ends with rfl | rfl <;> rfl
  have unquoted : c ≠ '"' := by rcases ends with rfl | rfl <;> decide
  cases mode : s.mode with
  | start => simp [step, mode, special_, unquoted]
  | plain => simp [step, mode, special_]
  | closed => simp [step, mode, unquoted]
  | quoted => exact absurd mode open_
  | returned => exact absurd mode returned

/-- A line that is written is read back. -/
theorem line_run {fields : List Text} (some_ : fields ≠ []) (mode : s.mode = .start) (fresh : s.field = []) :
    (line fields).foldlM step s = some { mode := .start, field := [], fields := [], records := s.records ++ [s.fields ++ fields] } := by
  unfold line
  induction fields generalizing s with
  | nil => exact absurd rfl some_
  | cons field fields ih =>
    obtain ⟨m, open_, returned, run⟩ := cell_run field mode fresh
    cases fields with
    | nil =>
      rw [List.map_singleton, List.intercalate_singleton, List.foldlM_append, run]
      refine (Option.bind_some ..).trans ?_
      rw [List.foldlM_cons, separate_step (.inr rfl) open_ returned]
      rfl
    | cons next fields =>
      rw [List.map_cons, List.map_cons, List.intercalate_cons_cons, ← List.map_cons, List.append_assoc, List.append_assoc, List.foldlM_append,
        run]
      refine (Option.bind_some ..).trans ?_
      rw [List.singleton_append, List.foldlM_cons, separate_step (.inl rfl) open_ returned]
      refine (ih (List.cons_ne_nil _ _) rfl rfl).trans ?_
      simp [Reading.endField]

/-- A table that is written is read back. -/
theorem read_lines {table : List (List Text)} (wide : ∀ record ∈ table, record ≠ []) : read (table.flatMap line) = some table := by
  have run (records : List (List Text)) : (table.flatMap line).foldlM step { records := records } = some { records := records ++ table } := by
    induction table generalizing records with
    | nil => simp
    | cons record table ih =>
      obtain ⟨first, rest⟩ := List.forall_mem_cons.mp wide
      rw [List.flatMap_cons, List.foldlM_append, line_run first rfl rfl]
      refine (ih rest _).trans ?_
      simp
  rw [read, run []]
  rfl

/-! ### What is read of a line that is written without quotes -/

/-- A table that starts with what is read so far. -/
structure Ahead (s : Reading) (table : List (List Text)) : Prop where
  first : ∀ r rs, s.records = r :: rs → ∃ rest, table = r :: rest
  begun : s.records = [] → s.fields ≠ [] → ∃ more rest, table = (s.fields ++ more) :: rest

theorem step_grows {s' : Reading} {c : Char} (stepped : step s c = some s') :
    s'.records = s.records ∧ (s'.fields = s.fields ∨ s'.fields = s.fields ++ [s.field]) ∨ s'.records = s.records ++ [s.fields ++ [s.field]] := by
  have separated {c : Char} {s' : Reading} (separated : s.separate c = some s') :
      s'.records = s.records ∧ (s'.fields = s.fields ∨ s'.fields = s.fields ++ [s.field]) ∨
        s'.records = s.records ++ [s.fields ++ [s.field]] := by
    unfold Reading.separate at separated
    split_ifs at separated <;> cases separated
    · exact .inl ⟨rfl, .inr rfl⟩
    · exact .inr rfl
    · exact .inl ⟨rfl, .inl rfl⟩
  unfold step at stepped
  cases mode : s.mode <;> rw [mode] at stepped <;> dsimp only at stepped <;> split_ifs at stepped <;>
    first
    | exact separated stepped
    | (cases stepped; exact .inl ⟨rfl, .inl rfl⟩)
    | (cases stepped; exact .inr rfl)

theorem Ahead.before {s' : Reading} {table : List (List Text)} {c : Char} (ahead : Ahead s' table) (stepped : step s c = some s') :
    Ahead s table := by
  constructor
  · intro r rs records
    rcases step_grows stepped with ⟨same, -⟩ | grown
    · exact ahead.first r rs (same.trans records)
    · exact ahead.first r _ (grown.trans (by rw [records, List.cons_append]))
  · intro records fields
    rcases step_grows stepped with ⟨same, kept | ended⟩ | grown
    · obtain ⟨more, rest, split⟩ := ahead.begun (same.trans records) (kept ▸ fields)
      exact ⟨more, rest, kept ▸ split⟩
    · obtain ⟨more, rest, split⟩ := ahead.begun (same.trans records) (by rw [ended]; exact List.append_ne_nil_of_left_ne_nil fields _)
      exact ⟨[s.field] ++ more, rest, by rw [split, ended, List.append_assoc]⟩
    · obtain ⟨rest, split⟩ := ahead.first _ [] (by rw [grown, records, List.nil_append])
      exact ⟨_, rest, split⟩

theorem run_ahead {text : Text} {s' : Reading} {table : List (List Text)} (run : text.foldlM step s = some s') (done : finish s' = some table) :
    Ahead s table := by
  induction text generalizing s with
  | nil =>
    obtain rfl : s = s' := Option.some.inj run
    have all : table = s.records ∧ s.fields = [] ∨ table = s.records ++ [s.fields ++ [s.field]] := by
      unfold finish at done
      cases mode : s.mode <;> rw [mode] at done <;> dsimp only at done <;> cases done
      · split
        · rename_i none
          exact .inl ⟨rfl, none⟩
        · exact .inr rfl
      · exact .inr rfl
      · exact .inr rfl
    constructor
    · intro r rs records
      rcases all with ⟨rfl, -⟩ | rfl
      · exact ⟨rs, records⟩
      · exact ⟨_, by rw [records, List.cons_append]⟩
    · intro records fields
      rcases all with ⟨-, none⟩ | rfl
      · exact absurd none fields
      · exact ⟨_, [], by rw [records, List.nil_append]⟩
  | cons c text ih =>
    rw [List.foldlM_cons] at run
    obtain ⟨s₁, stepped, run⟩ := Option.bind_eq_some_iff.mp run
    exact (ih run).before stepped

/-- Where the first special character of a name is not written in quotes, a shorter name is read. -/
theorem header_run {names : List Text} (plain : ∀ n ∈ names, n.head? ≠ some '"') (some_ : names ≠ []) {rest : Text} {s' : Reading}
    {records : List (List Text)} (mode : s.mode = .start) (fresh : s.field = []) (none : s.records = [])
    (run : ([','].intercalate names ++ '\n' :: rest).foldlM step s = some s') (done : finish s' = some ((s.fields ++ names) :: records)) :
    ∀ n ∈ names, ∀ c ∈ n, special c = false := by
  induction names generalizing s with
  | nil => exact absurd rfl some_
  | cons name names ih =>
    obtain ⟨unquoted, plain⟩ := List.forall_mem_cons.mp plain
    obtain ⟨tail, text⟩ : ∃ tail, [','].intercalate (name :: names) ++ '\n' :: rest = name ++ tail ∧
        tail = if names = [] then '\n' :: rest else ',' :: ([','].intercalate names ++ '\n' :: rest) := by
      cases names with
      | nil => exact ⟨_, by rw [List.intercalate_singleton, if_pos rfl], rfl⟩
      | cons next names => exact ⟨_, by rw [List.intercalate_cons_cons, List.append_assoc, List.append_assoc]; rfl, rfl⟩
    rw [text.1] at run
    have ended : tail ≠ [] := by
      rw [text.2]
      split <;> exact List.cons_ne_nil _ _
    -- The name up to its first special character is read as it is.
    have shorter (q : Text) (c : Char) (after : Text) (common : ∀ c ∈ q, special c = false) (special_ : special c = true)
        (name_ : name = q ++ c :: after) : False := by
      have long : q ≠ name := fun same => by
        have := congrArg List.length (same.trans name_)
        simp at this
      rw [name_, List.append_assoc, List.foldlM_append, plain_run q common (.inl mode), fresh, List.nil_append] at run
      have run := (Option.bind_some ..).symm.trans run
      rw [List.cons_append, List.foldlM_cons] at run
      obtain ⟨s₁, stepped, run₁⟩ := Option.bind_eq_some_iff.mp run
      have open_ : (if q = [] then s.mode else Mode.plain) = .start ∨ (if q = [] then s.mode else Mode.plain) = .plain := by
        split
        · exact .inl mode
        · exact .inr rfl
      have notQuoted : (if q = [] then s.mode else Mode.plain) ≠ .quoted := by rcases open_ with same | same <;> rw [same] <;> exact nofun
      have notReturned : (if q = [] then s.mode else Mode.plain) ≠ .returned := by rcases open_ with same | same <;> rw [same] <;> exact nofun
      -- However the short name ends, it is in the first record.
      have closed {s₁ : Reading} (ahead : Ahead s₁ ((s.fields ++ name :: names) :: records))
          (ends : s₁.records = [] ∧ s₁.fields = s.fields ++ [q] ∨ s₁.records = [s.fields ++ [q]]) : False := by
        rcases ends with ⟨empty, fields⟩ | ends
        · obtain ⟨more, left, split⟩ := ahead.begun empty (by rw [fields]; exact List.append_ne_nil_of_right_ne_nil _ (List.cons_ne_nil _ _))
          rw [fields, List.append_assoc] at split
          exact long (List.cons.inj (List.append_cancel_left (List.cons.inj split).1)).1.symm
        · obtain ⟨left, split⟩ := ahead.first _ _ ends
          exact long (List.cons.inj (List.append_cancel_left (List.cons.inj split).1)).1.symm
      have ahead := run_ahead run₁ done
      unfold special at special_
      simp only [Bool.or_eq_true, decide_eq_true_eq] at special_
      rcases special_ with ((rfl | rfl) | rfl) | rfl
      · rw [separate_step (.inl rfl) notQuoted notReturned] at stepped
        cases stepped
        exact closed ahead (.inl ⟨none, rfl⟩)
      · by_cases empty : q = []
        · subst empty
          exact unquoted (by rw [name_]; rfl)
        · simp only [step, if_neg empty] at stepped
          cases stepped
      · rw [separate_step (.inr rfl) notQuoted notReturned] at stepped
        cases stepped
        exact closed ahead (.inr (by rw [Reading.endRecord, none]; rfl))
      · have returned : s₁.mode = .returned ∧ s₁.field = q ∧ s₁.fields = s.fields ∧ s₁.records = [] := by
          rcases open_ with same | same <;> simp only [step, same] at stepped <;> cases stepped <;> exact ⟨rfl, rfl, rfl, none⟩
        obtain ⟨mode₁, field₁, fields₁, records₁⟩ := returned
        obtain ⟨d, left, split⟩ := List.exists_cons_of_ne_nil (List.append_ne_nil_of_right_ne_nil after ended)
        rw [split, List.foldlM_cons] at run₁
        obtain ⟨s₂, stepped₂, run₂⟩ := Option.bind_eq_some_iff.mp run₁
        simp only [step, mode₁] at stepped₂
        split at stepped₂ <;> cases stepped₂
        exact closed (run_ahead run₂ done) (.inr (by rw [Reading.endRecord, field₁, fields₁, records₁]; rfl))
    have common : ∀ c ∈ name, special c = false := by
      by_contra other
      push Not at other
      obtain ⟨c, there, special_⟩ := other
      obtain ⟨q, c, after, split, first, before⟩ : ∃ q c after, name = q ++ c :: after ∧ special c = true ∧ ∀ c ∈ q, special c = false := by
        have some_ : (name.find? special).isSome := List.find?_isSome.mpr ⟨c, there, (Bool.not_eq_false _).mp special_⟩
        obtain ⟨c, found⟩ := Option.isSome_iff_exists.mp some_
        obtain ⟨first, q, after, split, before⟩ := List.find?_eq_some_iff_append.mp found
        exact ⟨q, c, after, split, first, fun c there => (Bool.not_eq_true' _).mp (before c there)⟩
      exact shorter q c after before first split
    refine List.forall_mem_cons.mpr ⟨common, ?_⟩
    cases names with
    | nil => exact nofun
    | cons next names =>
      have comma : tail = ',' :: ([','].intercalate (next :: names) ++ '\n' :: rest) := text.2.trans (if_neg (List.cons_ne_nil _ _))
      rw [comma, List.foldlM_append, plain_run name common (.inl mode), fresh, List.nil_append] at run
      have run := (Option.bind_some ..).symm.trans run
      rw [List.foldlM_cons] at run
      obtain ⟨s₁, stepped, run₁⟩ := Option.bind_eq_some_iff.mp run
      have open_ : (if name = [] then s.mode else Mode.plain) ≠ .quoted ∧ (if name = [] then s.mode else Mode.plain) ≠ .returned := by
        rw [mode]
        split <;> exact ⟨nofun, nofun⟩
      rw [separate_step (.inl rfl) open_.1 open_.2] at stepped
      cases stepped
      refine ih plain (List.cons_ne_nil _ _) ?_ ?_ ?_ run₁ (done.trans ?_)
      · rfl
      · rfl
      · exact none
      · rw [Reading.endField, List.append_assoc]
        rfl

/-- Names that are written without quotes are read back only if they need none. -/
theorem read_header {names : List Text} (plain : ∀ n ∈ names, n.head? ≠ some '"') (some_ : names ≠ []) {rest : Text} {records : List (List Text)}
    (back : read ([','].intercalate names ++ '\n' :: rest) = some (names :: records)) : ∀ n ∈ names, ∀ c ∈ n, special c = false := by
  obtain ⟨s', run, done⟩ := Option.bind_eq_some_iff.mp back
  exact header_run plain some_ rfl rfl rfl run done

end Csv
