import NatsExplorer.Client.Strings
import NatsExplorer.Library.Csv
import NatsExplorer.Library.OrderedMap
import Mathlib.Data.List.Dedup

/-! What an export is for decides its shape (`client/src/lib/exportMessages.ts`): a wide CSV, with a JSON payload spread into
one column a scalar leaf, is for a spreadsheet. -/
namespace NatsExplorer.Client
open Go js

namespace exporting

/-- What `JSON.parse` returns; a number is how it prints, and members are in the order of `Object.entries`. -/
inductive Doc where
  | null
  | bool (b : Bool)
  | number (text : Str)
  | string (s : Str)
  | array (items : List Doc)
  | object (members : List (Str × Doc))

/-- The columns shared by live messages and stream messages. -/
structure ExportRow (N : Type) where
  timestamp : N
  subject : Str
  payload : Str
  payloadType : Str
  size : N
  headers : Option (OrderedMap Str (List Str)) := none
  sequence : Option N := none

/-- What the browser brings. -/
class Browser (N : Type) where
  string : N → Str
  /-- `new Date(n).toISOString()`; none where that is no date, which throws. -/
  toISOString : N → Option Str
  parse : Str → Option Doc
  stringify : Doc → Str
  localeCompare : Str → Str → ℤ
  sort {α : Type} (compare : α → α → ℤ) : List α → List α
  sort_perm {α : Type} (compare : α → α → ℤ) (l : List α) : (sort compare l).Perm l

abbrev Cells := OrderedMap Str Str

def csvCell (s : Str) : Str :=
  if s.any fun c => c = ',' || c = '"' || c = '\n' || c = '\r' then
    '"' :: s.flatMap (fun c => if c = '"' then ['"', '"'] else [c]) ++ ['"']
  else s

def maxFlatColumns : ℕ := 250
def maxFlatDepth : ℕ := 8

/-- `Object.entries`, of an array too; none of a scalar. -/
def Doc.entries : Doc → Option (List (Str × Doc))
  | .array items => some (items.zipIdx.map fun (v, i) => ((toString i).toList, v))
  | .object members => some members
  | _ => none

/-- `String(value)`, but nothing for null. -/
def Doc.scalar : Doc → Str
  | .bool b => if b then "true".toList else "false".toList
  | .number text => text
  | .string s => s
  | _ => []

def Doc.empty : Doc → Str
  | .array _ => "[]".toList
  | _ => "{}".toList

def fixedColumns : List Str :=
  ["time".toList, "timestamp".toList, "sequence".toList, "subject".toList, "payloadType".toList, "size".toList]

section
variable (N : Type) [Browser N]

/-- A document's scalar leaves as dotted paths, with so many levels to go: past the depth limit the rest goes into one cell as
it is. -/
def flatten : ℕ → Doc → Str → Cells → Cells
  | 0, value, path, out =>
    match value.entries with
    | none => out.set path value.scalar
    | some _ => out.set path (Browser.stringify N value)
  | left + 1, value, path, out =>
    match value.entries with
    | none => out.set path value.scalar
    | some entries =>
      if entries.isEmpty then out.set path value.empty
      else entries.foldl (fun out (k, v) => flatten left v (if path ≠ [] then path ++ '.' :: k else k) out) out

variable {N}

/-- The payload as a document when it is one. -/
def parsedPayload (r : ExportRow N) : Option Doc :=
  if r.payloadType ≠ "json".toList then none
  else
    match Browser.parse N r.payload with
    | some .null => none
    | doc => doc

/-- Every header as one value. -/
def headerCells (r : ExportRow N) (out : Cells) : Cells :=
  ((r.headers.getD .empty).entries.filter (·.2 ≠ [])).foldl
    (fun out (k, vals) => out.set ("header.".toList ++ k) (", ".toList.intercalate vals)) out

def fixedCells (r : ExportRow N) : Option Cells := do
  let time ← Browser.toISOString r.timestamp
  let out := OrderedMap.empty.set "time".toList time
  let out := out.set "timestamp".toList (Browser.string r.timestamp)
  let out := out.set "sequence".toList ((r.sequence.map Browser.string).getD [])
  let out := out.set "subject".toList r.subject
  let out := out.set "payloadType".toList r.payloadType
  some (out.set "size".toList (Browser.string r.size))

/-- The cells of a row. -/
def rowCells (r : ExportRow N) : Option Cells := do
  let out := headerCells r (← fixedCells r)
  match parsedPayload r with
  | none => some (out.set "payload".toList r.payload)
  | some doc => some (flatten N maxFlatDepth doc "payload".toList out)

/-- How many rows have each column. -/
def seen (cells : List Cells) : OrderedMap Str ℕ :=
  cells.foldl (fun seen c => c.keys.foldl (fun seen k => seen.set k ((seen.get k).getD 0 + 1)) seen) .empty

variable (N) in
/-- The columns seen most often first. -/
def mostOften (all : List (Str × ℕ)) : List (Str × ℕ) :=
  Browser.sort N (fun a b =>
    let d : ℤ := b.2 - a.2
    if d ≠ 0 then d else Browser.localeCompare N a.1 b.1) all

variable (N) in
/-- A wide CSV would stop being a table if every message brought its own fields, so the column set is capped. -/
def flatColumns (cells : List Cells) : List Str :=
  let all := (seen cells).entries
  if all.length ≤ maxFlatColumns then sorted (all.map Prod.fst)
  else sorted (((mostOften N all).take maxFlatColumns).map Prod.fst)

variable (N) in
def columns (cells : List Cells) : List Str := fixedColumns ++ (flatColumns N cells).filter (· ∉ fixedColumns)

variable (N) in
def flatText (cells : List Cells) : Str :=
  let columns := columns N cells
  let lines := [','].intercalate columns :: cells.map fun c => [','].intercalate (columns.map fun col => csvCell ((c.get col).getD []))
  ['\n'].intercalate lines ++ ['\n']

/-- `serializeMessages` of rows as `csv-flat`; none where it throws. -/
def csvFlat (rows : List (ExportRow N)) : Option Str := (rows.mapM rowCells).map (flatText N)

end

/-! ### Leaves -/

section Leaves
variable (N : Type) [Browser N]

/-- The scalar leaves of a document, each with the keys on the way to it, down to a depth. -/
def leaves : ℕ → Doc → List (List Str × Str)
  | 0, value =>
    match value.entries with
    | none => [([], value.scalar)]
    | some _ => [([], Browser.stringify N value)]
  | left + 1, value =>
    match value.entries with
    | none => [([], value.scalar)]
    | some entries => if entries.isEmpty then [([], value.empty)] else entries.flatMap fun (k, v) => (leaves left v).map fun (keys, text) => (k :: keys, text)

/-- The path of keys under another. -/
def under (path : Str) (keys : List Str) : Str := path ++ keys.flatMap ('.' :: ·)

def setAll (out : Cells) (named : List (Str × Str)) : Cells := named.foldl (fun out (name, text) => out.set name text) out

theorem setAll_append (out : Cells) (a b : List (Str × Str)) : setAll out (a ++ b) = setAll (setAll out a) b := List.foldl_append

theorem flatten_leaves (left : ℕ) (value : Doc) {path : Str} (some_ : path ≠ []) (out : Cells) :
    flatten N left value path out = setAll out ((leaves N left value).map fun (keys, text) => (under path keys, text)) := by
  have single (path : Str) (out : Cells) (text : Str) : out.set path text = setAll out ([([], text)].map fun (keys, text) => (under path keys, text)) := by
    simp [setAll, under]
  induction left generalizing value path out with
  | zero =>
    unfold flatten leaves
    cases value.entries with
    | none => exact single _ _ _
    | some _ => exact single _ _ _
  | succ left ih =>
    unfold flatten leaves
    cases value.entries with
    | none => exact single _ _ _
    | some entries =>
      dsimp only
      split
      · exact single _ _ _
      · rw [List.map_flatMap, setAll, List.foldl_flatMap]
        refine List.foldl_ext _ _ _ fun out e _ => ?_
        obtain ⟨k, v⟩ := e
        have deeper : path ++ '.' :: k ≠ [] := List.append_ne_nil_of_left_ne_nil some_ _
        dsimp only
        rw [ih v deeper out, setAll, List.map_map]
        refine congrArg (List.foldl _ out) (List.map_congr_left fun leaf _ => ?_)
        simp [under]

end Leaves

section Rows
variable {N : Type} [Browser N]

/-- The leaves of a row's payload, under their columns: those of a document, or the text. -/
def payloadLeaves (r : ExportRow N) : List (Str × Str) :=
  match parsedPayload r with
  | none => [("payload".toList, r.payload)]
  | some doc => (leaves N maxFlatDepth doc).map fun (keys, text) => (under "payload".toList keys, text)

/-- The headers of a row that have a value, under their columns. -/
def headerLeaves (r : ExportRow N) : List (Str × Str) :=
  ((r.headers.getD .empty).entries.filter (·.2 ≠ [])).map fun (k, vals) => ("header.".toList ++ k, ", ".toList.intercalate vals)

def fixedLeaves (r : ExportRow N) (time : Str) : List (Str × Str) :=
  [("time".toList, time), ("timestamp".toList, Browser.string r.timestamp), ("sequence".toList, (r.sequence.map Browser.string).getD []),
    ("subject".toList, r.subject), ("payloadType".toList, r.payloadType), ("size".toList, Browser.string r.size)]

theorem rowCells_eq (r : ExportRow N) : rowCells r =
    (Browser.toISOString r.timestamp).map fun time => setAll .empty (fixedLeaves r time ++ headerLeaves r ++ payloadLeaves r) := by
  unfold rowCells fixedCells
  cases Browser.toISOString r.timestamp with
  | none => rfl
  | some time =>
    have headers (out : Cells) : headerCells r out = setAll out (headerLeaves r) := by
      rw [headerCells, headerLeaves, setAll, List.foldl_map]
    simp only [Option.bind_eq_bind, Option.bind_some, Option.map_some, headers, payloadLeaves]
    rw [setAll_append, setAll_append]
    cases parsedPayload r with
    | none => rfl
    | some doc => exact congrArg some (flatten_leaves N maxFlatDepth doc (List.cons_ne_nil _ _) _)

omit [Browser N] in
theorem mem_setAll (out : Cells) (named : List (Str × Str)) (k : Str) :
    k ∈ (setAll out named).keys ↔ k ∈ out.keys ∨ k ∈ named.map Prod.fst := by
  induction named generalizing out with
  | nil => simp [setAll]
  | cons first named ih =>
    refine (ih (out.set first.1 first.2)).trans ?_
    rw [OrderedMap.mem_keys, OrderedMap.get_set, List.map_cons, List.mem_cons, ← or_assoc]
    refine or_congr_left ?_
    rw [OrderedMap.mem_keys]
    by_cases same : k = first.1
    · simp [same]
    · simp [same]

omit [Browser N] in
theorem setAll_other (named : List (Str × Str)) (out : Cells) {k : Str} (absent : k ∉ named.map Prod.fst) : (setAll out named).get k = out.get k := by
  induction named generalizing out with
  | nil => rfl
  | cons first named ih =>
    rw [List.map_cons, List.mem_cons, not_or] at absent
    refine (ih _ absent.2).trans ?_
    rw [OrderedMap.get_set, if_neg absent.1]

omit [Browser N] in
/-- What is set once stays. -/
theorem setAll_get {named : List (Str × Str)} (once : (named.map Prod.fst).Nodup) (out : Cells) {leaf : Str × Str} (member : leaf ∈ named) :
    (setAll out named).get leaf.1 = some leaf.2 := by
  induction named generalizing out with
  | nil => cases member
  | cons first named ih =>
    obtain ⟨fresh, once⟩ := List.nodup_cons.mp once
    rcases List.mem_cons.mp member with rfl | later
    · refine (setAll_other named _ fresh).trans ?_
      rw [OrderedMap.get_set, if_pos rfl]
    · exact ih once _ later

omit [Browser N] in
theorem headerLeaves_once (r : ExportRow N) : ((headerLeaves r).map Prod.fst).Nodup := by
  unfold headerLeaves
  rw [List.map_map]
  have keys : (((r.headers.getD .empty).entries.filter (·.2 ≠ [])).map Prod.fst).Nodup := by
    refine List.Nodup.sublist (List.Sublist.map _ List.filter_sublist) ?_
    rw [OrderedMap.entries_keys]
    exact (r.headers.getD .empty).nodup
  have named := keys.map (f := fun k => "header.".toList ++ k) fun a b same => List.append_cancel_left same
  rw [List.map_map] at named
  exact named

/-- A leaf's column begins with where it comes from. -/
theorem payloadLeaves_named (r : ExportRow N) : ∀ leaf ∈ payloadLeaves r, "payload".toList <+: leaf.1 := by
  intro leaf member
  unfold payloadLeaves at member
  split at member
  · obtain rfl := List.mem_singleton.mp member
    exact List.prefix_rfl
  · obtain ⟨leaf, -, rfl⟩ := List.mem_map.mp member
    exact List.prefix_append _ _

omit [Browser N] in
theorem headerLeaves_named (r : ExportRow N) : ∀ leaf ∈ headerLeaves r, "header.".toList <+: leaf.1 := by
  intro leaf member
  obtain ⟨e, -, rfl⟩ := List.mem_map.mp member
  exact List.prefix_append _ _

/-- The leaves and the headers of a row, under their columns. -/
def rowLeaves (r : ExportRow N) : List (Str × Str) := headerLeaves r ++ payloadLeaves r

theorem rowLeaves_once (r : ExportRow N) : ((rowLeaves r).map Prod.fst).Nodup ↔ ((payloadLeaves r).map Prod.fst).Nodup := by
  rw [rowLeaves, List.map_append, List.nodup_append]
  refine ⟨fun all => all.2.1, fun once => ⟨headerLeaves_once r, once, ?_⟩⟩
  rintro name header _ payload rfl
  obtain ⟨leaf, member, rfl⟩ := List.mem_map.mp header
  obtain ⟨leaf', member', same⟩ := List.mem_map.mp payload
  obtain ⟨a, first⟩ := headerLeaves_named r leaf member
  obtain ⟨b, second⟩ := payloadLeaves_named r leaf' member'
  rw [same, ← first] at second
  have letters := (List.cons.inj second).1
  exact absurd letters (by decide)

/-- Every leaf is under its column, each under a different one. -/
def Held (header record : List Str) (named : List (Str × Str)) : Prop :=
  ∃ place : Fin named.length → ℕ, Function.Injective place ∧
    ∀ a, header[place a]? = some (named.get a).1 ∧ record[place a]? = some (named.get a).2

/-- The columns that are not there for every row. -/
def dynamicColumns (rows : List (ExportRow N)) : List Str := (rows.flatMap fun r => (rowLeaves r).map Prod.fst).dedup

/-- A flat CSV reads back as one record a row, as wide as the header, and loses no leaf of a row unless there are too many
columns. -/
def Lossless (rows : List (ExportRow N)) : Prop :=
  ∃ cells, rows.mapM rowCells = some cells ∧ ∃ records, Csv.read (flatText N cells) = some (columns N cells :: records) ∧
    records.length = rows.length ∧ (∀ record ∈ records, record.length = (columns N cells).length) ∧
    ((dynamicColumns rows).length ≤ maxFlatColumns →
      ∀ (i : ℕ) (r : ExportRow N) (record : List Str), rows[i]? = some r → records[i]? = some record →
        Held (columns N cells) record (rowLeaves r))

/-- No name of a column needs quotes, no two leaves of a payload have one name, and no column but a fixed one is left out. -/
def Tidy (rows : List (ExportRow N)) : Prop :=
  ∃ cells, rows.mapM rowCells = some cells ∧ (∀ k ∈ columns N cells, ∀ c ∈ k, Csv.special c = false) ∧
    ((dynamicColumns rows).length ≤ maxFlatColumns →
      (∀ r ∈ rows, ((payloadLeaves r).map Prod.fst).Nodup) ∧
        ((seen cells).entries.length ≤ maxFlatColumns ∨ ∀ e ∈ (mostOften N (seen cells).entries).drop maxFlatColumns, e.1 ∈ fixedColumns))

/-! ### Columns -/

omit [Browser N] in
theorem mem_seen (cells : List Cells) (k : Str) : k ∈ (seen cells).keys ↔ ∃ c ∈ cells, k ∈ c.keys := by
  have row (keys : List Str) (seen : OrderedMap Str ℕ) :
      k ∈ (keys.foldl (fun seen k => seen.set k ((seen.get k).getD 0 + 1)) seen).keys ↔ k ∈ seen.keys ∨ k ∈ keys := by
    induction keys generalizing seen with
    | nil => simp
    | cons first keys ih =>
      rw [List.foldl_cons, ih, OrderedMap.mem_keys, OrderedMap.get_set, OrderedMap.mem_keys, List.mem_cons, ← or_assoc]
      refine or_congr_left ?_
      by_cases same : k = first <;> simp [same]
  have all (seen : OrderedMap Str ℕ) : k ∈ (cells.foldl (fun seen c => c.keys.foldl (fun seen k => seen.set k ((seen.get k).getD 0 + 1)) seen) seen).keys ↔
      k ∈ seen.keys ∨ ∃ c ∈ cells, k ∈ c.keys := by
    induction cells generalizing seen with
    | nil => simp
    | cons c cells ih => rw [List.foldl_cons, ih, row, List.exists_mem_cons_iff, or_assoc]
  rw [seen, all]
  simp

theorem kept_nodup (cells : List Cells) : (mostOften N (seen cells).entries).map Prod.fst |>.Nodup := by
  have perm : (mostOften N (seen cells).entries).Perm (seen cells).entries := Browser.sort_perm _ _
  rw [(perm.map Prod.fst).nodup_iff, OrderedMap.entries_keys]
  exact (seen cells).nodup

theorem mem_flatColumns (cells : List Cells) (k : Str) : k ∈ flatColumns N cells ↔
    if (seen cells).entries.length ≤ maxFlatColumns then k ∈ (seen cells).keys
    else k ∈ ((mostOften N (seen cells).entries).take maxFlatColumns).map Prod.fst := by
  unfold flatColumns
  dsimp only
  split
  · rw [(sorted_perm _).mem_iff, OrderedMap.entries_keys]
  · exact (sorted_perm _).mem_iff

theorem mem_columns (cells : List Cells) (k : Str) : k ∈ columns N cells ↔ k ∈ fixedColumns ∨ k ∈ flatColumns N cells := by
  rw [columns, List.mem_append, List.mem_filter, decide_eq_true_iff]
  tauto

theorem columns_nodup (cells : List Cells) : (columns N cells).Nodup := by
  have flat : (flatColumns N cells).Nodup := by
    unfold flatColumns
    dsimp only
    split
    · rw [(sorted_perm _).nodup_iff, OrderedMap.entries_keys]
      exact (seen cells).nodup
    · rw [(sorted_perm _).nodup_iff]
      exact (kept_nodup cells).sublist ((List.take_sublist _ _).map _)
  refine List.nodup_append.mpr ⟨by decide, flat.filter _, ?_⟩
  rintro k fixed _ dynamic rfl
  have other := (List.mem_filter.mp dynamic).2
  rw [decide_eq_true_iff] at other
  exact other fixed

/-- Every column of a row is there unless one is left out. -/
theorem all_columns (cells : List Cells) : (∀ k ∈ (seen cells).keys, k ∈ columns N cells) ↔
    (seen cells).entries.length ≤ maxFlatColumns ∨ ∀ e ∈ (mostOften N (seen cells).entries).drop maxFlatColumns, e.1 ∈ fixedColumns := by
  have perm : (mostOften N (seen cells).entries).Perm (seen cells).entries := Browser.sort_perm _ _
  have split (k : Str) : k ∈ (seen cells).keys ↔ k ∈ ((mostOften N (seen cells).entries).take maxFlatColumns).map Prod.fst ∨
      k ∈ ((mostOften N (seen cells).entries).drop maxFlatColumns).map Prod.fst := by
    rw [← List.mem_append, ← List.map_append, List.take_append_drop, (perm.map Prod.fst).mem_iff, OrderedMap.entries_keys]
  simp only [mem_columns, mem_flatColumns]
  by_cases few : (seen cells).entries.length ≤ maxFlatColumns
  · exact iff_of_true (fun k there => .inr (by rwa [if_pos few])) (.inl few)
  · simp only [if_neg few]
    constructor
    · intro all
      refine .inr fun e member => (all e.1 ((split e.1).mpr (.inr (List.mem_map_of_mem member)))).resolve_right fun taken => ?_
      have once := kept_nodup (N := N) cells
      rw [← List.take_append_drop maxFlatColumns (mostOften N (seen cells).entries), List.map_append, List.nodup_append] at once
      exact once.2.2 e.1 taken e.1 (List.mem_map_of_mem member) rfl
    · rintro (here | fixed) k there
      · exact absurd here few
      · rcases (split k).mp there with taken | dropped
        · exact .inr taken
        · obtain ⟨e, member, rfl⟩ := List.mem_map.mp dropped
          exact .inl (fixed e member)

/-! ### Reading back -/

omit [Browser N] in
theorem join_lines (l : Str) (ls : List Str) : ['\n'].intercalate (l :: ls) ++ ['\n'] = l ++ '\n' :: ls.flatMap (· ++ ['\n']) := by
  induction ls generalizing l with
  | nil => simp
  | cons next ls ih =>
    rw [List.intercalate_cons_cons, List.append_assoc, ih, List.flatMap_cons]
    simp

/-- The cells of a row, in the order of the columns. -/
def record (cells : List Cells) (c : Cells) : List Str := (columns N cells).map fun col => (c.get col).getD []

theorem flatText_eq (cells : List Cells) :
    flatText N cells = [','].intercalate (columns N cells) ++ '\n' :: (cells.map (record (N := N) cells)).flatMap Csv.line := by
  unfold flatText
  dsimp only
  rw [join_lines, List.flatMap_map, List.flatMap_map]
  congr 2
  refine List.flatMap_congr fun c _ => ?_
  rw [Csv.line, record, List.map_map]
  rfl

theorem columns_some (cells : List Cells) : columns N cells ≠ [] := List.cons_ne_nil _ _

/-- The text reads back as its cells if no column needs quotes. -/
theorem read_flatText {cells : List Cells} (common : ∀ k ∈ columns N cells, ∀ c ∈ k, Csv.special c = false) :
    Csv.read (flatText N cells) = some (columns N cells :: cells.map (record (N := N) cells)) := by
  have header : [','].intercalate (columns N cells) ++ ['\n'] = Csv.line (columns N cells) := by
    have bare : (columns N cells).map Csv.cell = columns N cells := by
      refine (List.map_congr_left fun k there => ?_).trans (List.map_id _)
      rw [Csv.cell, if_neg]
      · rfl
      · rw [List.any_eq_true]
        rintro ⟨c, member, special⟩
        rw [common k there c member] at special
        cases special
    rw [Csv.line, bare]
  have lines : flatText N cells = (columns N cells :: cells.map (record (N := N) cells)).flatMap Csv.line := by
    rw [flatText_eq, List.flatMap_cons, ← header, List.append_assoc]
    rfl
  rw [lines]
  refine Csv.read_lines (List.forall_mem_cons.mpr ⟨columns_some cells, fun fields member => ?_⟩)
  obtain ⟨c, -, rfl⟩ := List.mem_map.mp member
  exact fun none => columns_some (N := N) cells (List.map_eq_nil_iff.mp none)

/-! ### Cells of a row -/

omit [Browser N] in
/-- The leaves that are set are in the cells of their columns, if each has one of its own. -/
theorem held_iff {columns : List Str} (once : columns.Nodup) (out : Cells) (named : List (Str × Str)) :
    Held columns (columns.map fun col => ((setAll out named).get col).getD []) named ↔
      (named.map Prod.fst).Nodup ∧ ∀ leaf ∈ named, leaf.1 ∈ columns := by
  constructor
  · rintro ⟨place, injective, held⟩
    constructor
    · have different : Function.Injective (named.map Prod.fst).get := by
        intro i j same
        rw [List.get_eq_getElem, List.get_eq_getElem, List.getElem_map, List.getElem_map] at same
        have len : (named.map Prod.fst).length = named.length := List.length_map _
        have i_ := (held (i.cast len)).1
        have j_ := (held (j.cast len)).1
        rw [List.get_eq_getElem] at i_ j_
        obtain ⟨below, first⟩ := List.getElem?_eq_some_iff.mp i_
        obtain ⟨below', second⟩ := List.getElem?_eq_some_iff.mp j_
        have places : place (i.cast len) = place (j.cast len) := (once.getElem_inj_iff).mp ((first.trans same).trans second.symm)
        exact Fin.cast_injective len (injective places)
      exact List.nodup_iff_injective_get.mpr different
    · intro leaf member
      obtain ⟨a, rfl⟩ := List.get_of_mem member
      exact List.mem_of_getElem? (held a).1
  · rintro ⟨different, there⟩
    have name (a : Fin named.length) : (named.get a).1 ∈ columns := there _ (List.get_mem ..)
    refine ⟨fun a => columns.idxOf (named.get a).1, fun a b same => ?_, fun a => ⟨List.getElem?_idxOf (name a), ?_⟩⟩
    · have same : (named.get a).1 = (named.get b).1 := (List.idxOf_inj (name a)).mp same
      have injective := List.nodup_iff_injective_get.mp different
      have len : named.length = (named.map Prod.fst).length := (List.length_map _).symm
      have cast : a.cast len = b.cast len := by
        refine injective ?_
        rw [List.get_eq_getElem, List.get_eq_getElem, List.getElem_map, List.getElem_map]
        exact same
      exact Fin.cast_injective len cast
    · rw [List.getElem?_map, List.getElem?_idxOf (name a), Option.map_some, setAll_get different out (List.get_mem ..)]
      rfl

/-- The cells of rows are those of their leaves. -/
theorem rowCells_leaves {rows : List (ExportRow N)} {cells : List Cells} (spread : rows.mapM rowCells = some cells) :
    List.Forall₂ (fun r c => ∃ time, c = setAll (setAll .empty (fixedLeaves r time)) (rowLeaves r)) rows cells := by
  induction rows generalizing cells with
  | nil =>
    cases spread
    exact .nil
  | cons r rows ih =>
    rw [List.mapM_cons] at spread
    obtain ⟨c, first, spread⟩ := Option.bind_eq_some_iff.mp spread
    obtain ⟨rest, later, spread⟩ := Option.bind_eq_some_iff.mp spread
    cases spread
    rw [rowCells_eq] at first
    obtain ⟨time, -, rfl⟩ := Option.map_eq_some_iff.mp first
    refine .cons ⟨time, ?_⟩ (ih later)
    rw [List.append_assoc, setAll_append]
    rfl

/-- The names of all columns are the fixed ones and those of the leaves. -/
theorem mem_seen_rows {rows : List (ExportRow N)} {cells : List Cells} (spread : rows.mapM rowCells = some cells) (k : Str) :
    k ∈ (seen cells).keys ↔ ∃ r ∈ rows, k ∈ fixedColumns ∨ k ∈ (rowLeaves r).map Prod.fst := by
  have rows_ (paired : List.Forall₂ (fun r c => ∃ time, c = setAll (setAll .empty (fixedLeaves r time)) (rowLeaves r)) rows cells) :
      (∃ c ∈ cells, k ∈ c.keys) ↔ ∃ r ∈ rows, k ∈ fixedColumns ∨ k ∈ (rowLeaves r).map Prod.fst := by
    clear spread
    induction paired with
    | nil => simp
    | cons first _ ih =>
      obtain ⟨time, rfl⟩ := first
      rw [List.exists_mem_cons_iff, List.exists_mem_cons_iff, mem_setAll, mem_setAll, ih]
      simp [fixedLeaves, fixedColumns]
  exact (mem_seen cells k).trans (rows_ (rowCells_leaves spread))

/-- The name of a column says where it comes from. -/
theorem columns_unquoted {rows : List (ExportRow N)} {cells : List Cells} (spread : rows.mapM rowCells = some cells) :
    ∀ k ∈ columns N cells, k.head? ≠ some '"' := by
  have lettered {begin k : Str} {c : Char} (begins : begin <+: k) (letter : begin.head? = some c) (other : c ≠ '"') : k.head? ≠ some '"' := by
    obtain ⟨rest, rfl⟩ := begins
    rw [List.head?_append, letter]
    exact fun same => other (Option.some.inj same)
  have fixed : ∀ k ∈ fixedColumns, k.head? ≠ some '"' := by decide
  intro k there
  rcases (mem_columns cells k).mp there with here | flat
  · exact fixed k here
  · have seen_ : k ∈ (seen cells).keys := by
      rw [mem_flatColumns] at flat
      split at flat
      · exact flat
      · have perm : (mostOften N (seen cells).entries).Perm (seen cells).entries := Browser.sort_perm _ _
        rw [← OrderedMap.entries_keys, ← (perm.map Prod.fst).mem_iff]
        exact ((List.take_sublist _ _).map _).subset flat
    obtain ⟨r, -, here | named⟩ := (mem_seen_rows spread k).mp seen_
    · exact fixed k here
    · obtain ⟨leaf, member, rfl⟩ := List.mem_map.mp named
      rcases List.mem_append.mp member with header | payload
      · exact lettered (headerLeaves_named r leaf header) rfl (by decide)
      · exact lettered (payloadLeaves_named r leaf payload) rfl (by decide)

/-- No column is left out if none of a leaf is. -/
theorem leaves_kept {rows : List (ExportRow N)} {cells : List Cells} (spread : rows.mapM rowCells = some cells) :
    (∀ k ∈ (seen cells).keys, k ∈ columns N cells) ↔ ∀ r ∈ rows, ∀ leaf ∈ rowLeaves r, leaf.1 ∈ columns N cells := by
  constructor
  · intro all r row leaf member
    exact all leaf.1 ((mem_seen_rows spread leaf.1).mpr ⟨r, row, .inr (List.mem_map_of_mem member)⟩)
  · intro all k there
    obtain ⟨r, row, fixed | named⟩ := (mem_seen_rows spread k).mp there
    · exact (mem_columns cells k).mpr (.inl fixed)
    · obtain ⟨leaf, member, rfl⟩ := List.mem_map.mp named
      exact all r row leaf member

/-- The records hold the leaves of the rows if those of a payload have different names and no column is left out. -/
theorem rows_held {rows : List (ExportRow N)} {cells : List Cells} (spread : rows.mapM rowCells = some cells) :
    (∀ (i : ℕ) (r : ExportRow N) (fields : List Str), rows[i]? = some r → (cells.map (record (N := N) cells))[i]? = some fields →
        Held (columns N cells) fields (rowLeaves r)) ↔
      (∀ r ∈ rows, ((payloadLeaves r).map Prod.fst).Nodup) ∧
        ((seen cells).entries.length ≤ maxFlatColumns ∨ ∀ e ∈ (mostOften N (seen cells).entries).drop maxFlatColumns, e.1 ∈ fixedColumns) := by
  obtain ⟨len, paired⟩ := List.forall₂_iff_get.mp (rowCells_leaves spread)
  have row (i : ℕ) (below : i < rows.length) : Held (columns N cells) (record (N := N) cells (cells.get ⟨i, len ▸ below⟩)) (rowLeaves (rows.get ⟨i, below⟩)) ↔
      ((payloadLeaves (rows.get ⟨i, below⟩)).map Prod.fst).Nodup ∧ ∀ leaf ∈ rowLeaves (rows.get ⟨i, below⟩), leaf.1 ∈ columns N cells := by
    obtain ⟨time, set_⟩ := paired i below (len ▸ below)
    rw [record, set_, ← rowLeaves_once]
    exact held_iff (columns_nodup cells) _ _
  rw [← all_columns, leaves_kept spread, ← forall₂_and]
  constructor
  · intro held r member
    obtain ⟨i, rfl⟩ := List.get_of_mem member
    refine (row i i.isLt).mp (held i _ _ (List.getElem?_eq_getElem i.isLt) ?_)
    rw [List.getElem?_map, List.getElem?_eq_getElem (len ▸ i.isLt)]
    rfl
  · intro kept i r fields found record_
    obtain ⟨below, rfl⟩ := List.getElem?_eq_some_iff.mp found
    rw [List.getElem?_map, List.getElem?_eq_getElem (len ▸ below)] at record_
    obtain rfl := Option.some.inj record_
    exact (row i below).mpr (kept _ (List.getElem_mem below))

/-- A flat CSV loses something exactly if the name of a column needs quotes, two leaves of a payload have one name, or a column is
left out though there are few enough. -/
theorem csvFlat_lossless (rows : List (ExportRow N)) : Lossless rows ↔ Tidy rows := by
  refine exists_congr fun cells => and_congr_right fun spread => ?_
  constructor
  · rintro ⟨records, back, -, -, kept⟩
    have common : ∀ k ∈ columns N cells, ∀ c ∈ k, Csv.special c = false := by
      rw [flatText_eq] at back
      exact Csv.read_header (columns_unquoted spread) (columns_some cells) back
    rw [read_flatText common] at back
    obtain rfl : cells.map (record (N := N) cells) = records := (List.cons.inj (Option.some.inj back)).2
    exact ⟨common, fun few => (rows_held spread).mp (kept few)⟩
  · rintro ⟨common, kept⟩
    refine ⟨cells.map (record (N := N) cells), read_flatText common, ?_, ?_, ?_⟩
    · rw [List.length_map]
      exact (rowCells_leaves spread).length_eq.symm
    · intro fields member
      obtain ⟨c, -, rfl⟩ := List.mem_map.mp member
      exact List.length_map _
    · exact fun few => (rows_held spread).mpr (kept few)

end Rows

/-- A browser at the epoch. -/
@[reducible] def epoch : Browser ℕ where
  string n := (toString n).toList
  toISOString _ := some "1970-01-01T00:00:00.000Z".toList
  parse _ := none
  stringify := Doc.scalar
  localeCompare := byLetters
  sort compare l := l.mergeSort fun a b => decide (compare a b ≤ 0)
  sort_perm _ l := List.mergeSort_perm l _

/-- A text with a header whose name has a comma. -/
def commaHeader : ExportRow ℕ where
  timestamp := 0
  subject := "a".toList
  payload := "hi".toList
  payloadType := "string".toList
  size := 2
  headers := some (OrderedMap.empty.set "x,y".toList ["1".toList])

def commaCells : Cells := ((@rowCells ℕ epoch commaHeader).getD .empty)

theorem commaCells_columns : @columns ℕ epoch [commaCells] = fixedColumns ++ ["header.x,y".toList, "payload".toList] := by
  have names : (seen [commaCells]).keys = fixedColumns ++ ["header.x,y".toList, "payload".toList] := by decide +kernel
  have flat : @flatColumns ℕ epoch [commaCells] = ["header.x,y".toList, "payload".toList, "payloadType".toList, "sequence".toList, "size".toList,
      "subject".toList, "time".toList, "timestamp".toList] := by
    unfold flatColumns
    dsimp only
    rw [OrderedMap.entries_keys, if_pos (by rw [← List.length_map (f := Prod.fst), OrderedMap.entries_keys, names]; decide), names]
    exact sorted_eq (by decide) (by decide)
  rw [columns, flat]
  decide

/-- The comma makes the header of the table wider than its record. -/
theorem csvFlat_comma : ((@csvFlat ℕ epoch [commaHeader]).bind Csv.read).map (·.map List.length) = some [9, 8] ∧ ¬ @Lossless ℕ epoch [commaHeader] := by
  have spread : [commaHeader].mapM (@rowCells ℕ epoch) = some [commaCells] := rfl
  have widths : (Csv.read (@flatText ℕ epoch [commaCells])).map (·.map List.length) = some [9, 8] := by
    unfold flatText
    rw [commaCells_columns]
    decide +kernel
  constructor
  · change ((([commaHeader].mapM (@rowCells ℕ epoch)).map (@flatText ℕ epoch)).bind Csv.read).map (·.map List.length) = _
    rw [spread]
    exact widths
  · rintro ⟨cells, spread', records, back, one, wide, -⟩
    obtain rfl : [commaCells] = cells := Option.some.inj (spread.symm.trans spread')
    rw [back, Option.map_some, List.map_cons] at widths
    obtain ⟨header, rest⟩ := List.cons.inj (Option.some.inj widths)
    obtain ⟨fields, rfl⟩ := List.length_eq_one_iff.mp one
    have narrow := wide fields (List.mem_singleton_self _)
    rw [List.map_singleton] at rest
    rw [header, (List.cons.inj rest).1] at narrow
    cases narrow

end exporting
end NatsExplorer.Client
