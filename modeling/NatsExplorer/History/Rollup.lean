import Mathlib.Algebra.Order.Ring.Rat
import Mathlib.Order.Bounds.Basic
import NatsExplorer.History.NumericFields
import NatsExplorer.History.Writer
import NatsExplorer.Library.Accumulating

/-! The minute rollups of the numeric fields of JSON payloads (`internal/history/rollup.go`): the writer folds a batch into the
minutes and upserts these, and a chart over a long range reads them back. -/
namespace NatsExplorer.History.Rollup
open Go Go.json

/-- What is kept of a minute. -/
structure Minute where
  min : ℚ
  max : ℚ
  sum : ℚ
  count : ℕ
  deriving DecidableEq

namespace Minute

def single (v : ℚ) : Minute := ⟨v, v, v, 1⟩

/-- One more value, in the batch. -/
def hit (p : Minute) (v : ℚ) : Minute where
  min := if v < p.min then v else p.min
  max := if p.max < v then v else p.max
  sum := p.sum + v
  count := p.count + 1

/-- `ON CONFLICT DO UPDATE` -/
def upsert (row excluded : Minute) : Minute where
  min := Min.min row.min excluded.min
  max := Max.max row.max excluded.max
  sum := row.sum + excluded.sum
  count := row.count + excluded.count

instance : AddCommSemigroup Minute where
  add := upsert
  add_assoc _ _ _ := Minute.mk.injEq .. ▸ ⟨min_assoc .., max_assoc .., add_assoc .., Nat.add_assoc ..⟩
  add_comm _ _ := Minute.mk.injEq .. ▸ ⟨min_comm .., max_comm .., add_comm .., Nat.add_comm ..⟩

theorem hit_eq (p : Minute) (v : ℚ) : p.hit v = p + single v := by
  change p.hit v = p.upsert (single v)
  unfold hit upsert
  rw [← min_def_lt, ← max_def_lt, min_comm]
  rfl

/-- A minute of some values. -/
structure Sums (values : List ℚ) (p : Minute) : Prop where
  least : IsLeast {v | v ∈ values} p.min
  greatest : IsGreatest {v | v ∈ values} p.max
  sum : p.sum = values.sum
  count : p.count = values.length

theorem sums_single (v : ℚ) : Sums [v] (single v) where
  least := ⟨List.mem_singleton_self v, fun _ there => (List.mem_singleton.mp there).ge⟩
  greatest := ⟨List.mem_singleton_self v, fun _ there => (List.mem_singleton.mp there).le⟩
  sum := List.sum_singleton.symm
  count := rfl

theorem Sums.cons {v : ℚ} {values : List ℚ} {p : Minute} (sums : Sums values p) : Sums (v :: values) (single v + p) where
  least := by
    have both : {w | w ∈ v :: values} = insert v {w | w ∈ values} := Set.ext fun w => List.mem_cons
    rw [both]
    exact sums.least.insert v
  greatest := by
    have both : {w | w ∈ v :: values} = insert v {w | w ∈ values} := Set.ext fun w => List.mem_cons
    rw [both]
    exact sums.greatest.insert v
  sum := by
    change v + p.sum = _
    rw [sums.sum, List.sum_cons]
  count := by
    change 1 + p.count = _
    rw [sums.count, List.length_cons, Nat.add_comm]

/-- Values add up to their minute. -/
theorem sums_sum (values : List ℚ) :
    (values = [] ∧ (values.map fun v => (single v : WithZero Minute)).sum = 0) ∨
      ∃ p : Minute, (values.map fun v => (single v : WithZero Minute)).sum = p ∧ Sums values p := by
  induction values with
  | nil => exact .inl ⟨rfl, rfl⟩
  | cons v values ih =>
    rw [List.map_cons, List.sum_cons]
    rcases ih with ⟨rfl, zero⟩ | ⟨p, sum, sums⟩
    · exact .inr ⟨single v, by rw [zero, add_zero], sums_single v⟩
    · exact .inr ⟨single v + p, by rw [sum]; rfl, sums.cons⟩

end Minute

/-- `rec.Timestamp / 60000 * 60000` -/
def minuteOf (timestamp : Int) : Int := timestamp.tdiv 60000 * 60000

/-- The primary key of the rollups. -/
structure RollupKey where
  conn : Str
  subject : Str
  field : Str
  minute : Int
  deriving DecidableEq

/-- One minute of one field. -/
structure RollupPoint where
  t : Int
  min : ℚ
  max : ℚ
  avg : ℚ
  count : ℕ
  deriving DecidableEq

abbrev Rollups := OrderedMap RollupKey Minute

section Batch
variable [Tables] [Numbers] [Recognizer] (rt : Runtime)

/-- The numbers of a record go to their minutes. -/
def rollupRecord (agg : Rollups) (q : Queued) : Rollups :=
  if q.record.kind ≠ .json then agg
  else (rt.range (numericFields q.record.data.toBytes).entries).foldl (fun agg (name, v) =>
    let k : RollupKey := ⟨q.conn, q.record.subject, name, minuteOf q.record.timestamp⟩
    agg.set k (match agg.get k with
      | none => .single v
      | some p => p.hit v)) agg

/-- Folds a batch of records into minutes and upserts them. -/
def rollupBatch (table : Rollups) (batch : List Queued) : Rollups :=
  (rt.range (batch.foldl (rollupRecord rt) .empty).entries).foldl (fun table (k, p) =>
    table.set k (match table.get k with
      | none => p
      | some row => row.upsert p)) table

/-- What the batches left in the table. -/
def stored (batches : List (List Queued)) : Rollups := batches.foldl (rollupBatch rt) .empty

end Batch

def RollupPoint.of (k : RollupKey) (p : Minute) : RollupPoint :=
  ⟨k.minute, p.min, p.max, if 0 < p.count then p.sum / p.count else 0, p.count⟩

/-- Reads the minutes of one field, oldest first. -/
def seriesRollup (table : Rollups) (connID subject field : Str) (start stop : Int) : List RollupPoint :=
  ((table.entries.filter fun (k, _) => k.conn = connID ∧ k.subject = subject ∧ k.field = field ∧
    minuteOf start ≤ k.minute ∧ k.minute ≤ stop).map fun (k, p) => .of k p).mergeSort fun a b => a.t ≤ b.t

/-- The messages of a connection and a subject. -/
def messagesOf (l : List Queued) (connID subject : Str) : List Record :=
  (l.filter fun q => q.conn = connID ∧ q.record.subject = subject).map Queued.record

/-- The numbers the messages of a minute yield. -/
def valuesIn (wanted : Record → Option ℚ) (msgs : List Record) (minute : Int) : List ℚ :=
  (msgs.filter fun r => minuteOf r.timestamp = minute).filterMap wanted

section Stored
variable [Tables] [Numbers] [Recognizer] {rt : Runtime}

/-- What the writer takes from a record under the name of a field. -/
def written (field : Str) (r : Record) : Option ℚ :=
  if r.kind = .json then (numericFields r.data.toBytes).get field else none

/-- The values of a record, with their keys. -/
def contributions (rt : Runtime) (q : Queued) : List (RollupKey × Minute) :=
  if q.record.kind ≠ .json then []
  else (rt.range (numericFields q.record.data.toBytes).entries).map fun a =>
    (⟨q.conn, q.record.subject, a.1, minuteOf q.record.timestamp⟩, .single a.2)

theorem rollupRecord_eq (agg : Rollups) (q : Queued) : rollupRecord rt agg q = agg.accumulateAll (contributions rt q) := by
  unfold rollupRecord contributions
  split
  · rfl
  · rw [OrderedMap.accumulateAll, List.foldl_map]
    refine congrArg (List.foldl · agg _) (funext fun agg => funext fun a => ?_)
    obtain ⟨name, v⟩ := a
    dsimp only [OrderedMap.accumulate]
    cases agg.get ⟨q.conn, q.record.subject, name, minuteOf q.record.timestamp⟩ with
    | none => rfl
    | some p => exact congrArg (agg.set _) (p.hit_eq v)

theorem rollupBatch_total (table : Rollups) (batch : List Queued) (k : RollupKey) :
    (rollupBatch rt table batch).total k = table.total k + (OrderedMap.amounts k (batch.flatMap (contributions rt))).sum := by
  have folded : batch.foldl (rollupRecord rt) .empty = OrderedMap.empty.accumulateAll (batch.flatMap (contributions rt)) := by
    rw [OrderedMap.accumulateAll, List.foldl_flatMap]
    exact congrArg (List.foldl · _ batch) (funext fun agg => funext fun q => rollupRecord_eq agg q)
  have added : rollupBatch rt table batch = table.accumulateAll (rt.range (batch.foldl (rollupRecord rt) .empty).entries) := by
    refine congrArg (List.foldl · table _) (funext fun table => funext fun a => ?_)
    obtain ⟨k, p⟩ := a
    dsimp only [OrderedMap.accumulate]
    cases table.get k <;> rfl
  rw [added, OrderedMap.total_accumulate_entries (rt.range_perm _), folded, OrderedMap.total_accumulateAll]
  exact congrArg (table.total k + ·) (zero_add _)

/-- However the records are cut into batches, their values add up. -/
theorem stored_total (batches : List (List Queued)) (k : RollupKey) :
    (stored rt batches).total k = (OrderedMap.amounts k (batches.flatten.flatMap (contributions rt))).sum := by
  have grown : ∀ table : Rollups, (batches.foldl (rollupBatch rt) table).total k =
      table.total k + (OrderedMap.amounts k (batches.flatten.flatMap (contributions rt))).sum := by
    induction batches with
    | nil => exact fun table => (add_zero _).symm
    | cons batch batches ih =>
      intro table
      rw [List.foldl_cons, ih, rollupBatch_total, List.flatten_cons, List.flatMap_append, OrderedMap.amounts_append, List.sum_append,
        add_assoc]
  exact (grown .empty).trans (zero_add _)

/-- A record adds the value of a field to its own minute. -/
theorem contributions_sum (q : Queued) (connID subject field : Str) (minute : Int) :
    (OrderedMap.amounts ⟨connID, subject, field, minute⟩ (contributions rt q)).sum =
      ((valuesIn (written field) (messagesOf [q] connID subject) minute).map fun v => (Minute.single v : WithZero Minute)).sum := by
  by_cases here : q.record.kind = .json ∧ (q.conn = connID ∧ q.record.subject = subject) ∧ minuteOf q.record.timestamp = minute
  · obtain ⟨json, ⟨rfl, rfl⟩, rfl⟩ := here
    have own : valuesIn (written field) (messagesOf [q] q.conn q.record.subject) (minuteOf q.record.timestamp) =
        ((numericFields q.record.data.toBytes).get field).toList := by
      have value : written field q.record = (numericFields q.record.data.toBytes).get field := if_pos json
      simp only [messagesOf, valuesIn, List.filter_cons, and_self, decide_true, if_true, List.filter_nil, List.map_cons, List.map_nil,
        List.filterMap_cons, value, List.filterMap_nil]
      cases (numericFields q.record.data.toBytes).get field <;> rfl
    rw [own, contributions, if_neg (not_not.mpr json)]
    generalize numericFields q.record.data.toBytes = fields
    have named : ((rt.range fields.entries).filter fun a => a.1 = field).Perm ((fields.get field).map (Prod.mk field)).toList := by
      rw [← fields.entries_filter]
      exact (rt.range_perm _).filter _
    have amounts : OrderedMap.amounts (⟨q.conn, q.record.subject, field, minuteOf q.record.timestamp⟩ : RollupKey)
        ((rt.range fields.entries).map fun a =>
          ((⟨q.conn, q.record.subject, a.1, minuteOf q.record.timestamp⟩ : RollupKey), Minute.single a.2)) =
        ((rt.range fields.entries).filter fun a => a.1 = field).map fun a => (Minute.single a.2 : WithZero Minute) := by
      rw [OrderedMap.amounts, List.filter_map, List.map_map]
      simp only [Function.comp_def, RollupKey.mk.injEq, true_and, and_true]
    rw [amounts, (named.map _).sum_eq]
    cases fields.get field <;> rfl
  · have none : valuesIn (written field) (messagesOf [q] connID subject) minute = [] := by
      refine List.eq_nil_iff_forall_not_mem.mpr fun v there => here ?_
      obtain ⟨r, kept, value⟩ := List.mem_filterMap.mp there
      obtain ⟨within, time⟩ := List.mem_filter.mp kept
      obtain ⟨q', own, rfl⟩ := List.mem_map.mp within
      obtain ⟨same, names⟩ := List.mem_filter.mp own
      obtain rfl := List.mem_singleton.mp same
      have json : q'.record.kind = .json := by
        by_contra other
        rw [written, if_neg other] at value
        cases value
      exact ⟨json, of_decide_eq_true names, of_decide_eq_true time⟩
    have nothing : OrderedMap.amounts ⟨connID, subject, field, minute⟩ (contributions rt q) = [] := by
      refine List.map_eq_nil_iff.mpr (List.filter_eq_nil_iff.mpr fun a there own => here ?_)
      unfold contributions at there
      split at there
      · cases there
      · next json =>
        obtain ⟨n, -, rfl⟩ := List.mem_map.mp there
        obtain ⟨conn, subject, -, minute⟩ := RollupKey.mk.inj (of_decide_eq_true own)
        exact ⟨not_not.mp json, ⟨conn, subject⟩, minute⟩
    rw [none, nothing]
    rfl

theorem stored_values (batches : List (List Queued)) (connID subject field : Str) (minute : Int) :
    (stored rt batches).total ⟨connID, subject, field, minute⟩ =
      ((valuesIn (written field) (messagesOf batches.flatten connID subject) minute).map fun v =>
        (Minute.single v : WithZero Minute)).sum := by
  rw [stored_total]
  induction batches.flatten with
  | nil => rfl
  | cons q l ih =>
    have split : valuesIn (written field) (messagesOf (q :: l) connID subject) minute =
        valuesIn (written field) (messagesOf [q] connID subject) minute ++ valuesIn (written field) (messagesOf l connID subject) minute := by
      have parts : messagesOf (q :: l) connID subject = messagesOf [q] connID subject ++ messagesOf l connID subject := by
        rw [messagesOf, ← List.singleton_append, List.filter_append, List.map_append, ← messagesOf, ← messagesOf]
      rw [parts, valuesIn, List.filter_append, List.filterMap_append, ← valuesIn, ← valuesIn]
    rw [List.flatMap_cons, OrderedMap.amounts_append, List.sum_append, ih, contributions_sum, split, List.map_append, List.sum_append]

end Stored

/-! ### What a chart reads -/

/-- A point that tells of these numbers. -/
structure Summarizes (values : List ℚ) (p : RollupPoint) : Prop where
  least : IsLeast {v | v ∈ values} p.min
  greatest : IsGreatest {v | v ∈ values} p.max
  avg : p.avg = values.sum / values.length
  count : p.count = values.length

/-- One point for each minute of the range in which some message yields a number, and it tells of exactly these numbers. -/
structure Charts (wanted : Record → Option ℚ) (msgs : List Record) (start stop : Int) (points : List RollupPoint) : Prop where
  inOrder : (points.map RollupPoint.t).Pairwise (· < ·)
  minutes (minute : Int) : minute ∈ points.map RollupPoint.t ↔ start ≤ minute ∧ minute ≤ stop ∧ valuesIn wanted msgs minute ≠ []
  each : ∀ p ∈ points, Summarizes (valuesIn wanted msgs p.t) p

theorem Charts.congr {wanted wanted' : Record → Option ℚ} {msgs : List Record} {start stop : Int}
    {points : List RollupPoint}
    (charts : Charts wanted msgs start stop points) (same : ∀ r ∈ msgs, wanted r = wanted' r) : Charts wanted' msgs start stop points := by
  have values (minute : Int) : valuesIn wanted msgs minute = valuesIn wanted' msgs minute :=
    List.filterMap_congr fun r there => same r (List.mem_filter.mp there).1
  constructor
  · exact charts.inOrder
  · intro minute
    rw [← values]
    exact charts.minutes minute
  · intro p listed
    rw [← values]
    exact charts.each p listed

theorem minuteOf_aligned {start : Int} (aligned : 60000 ∣ start) : minuteOf start = start := Int.tdiv_mul_cancel aligned

section Series
variable {table : Rollups} {connID subject field : Str} {start stop : Int}

theorem mem_seriesRollup {p : RollupPoint} : p ∈ seriesRollup table connID subject field start stop ↔
    ∃ minute q, table.get ⟨connID, subject, field, minute⟩ = some q ∧ (minuteOf start ≤ minute ∧ minute ≤ stop) ∧
      p = .of ⟨connID, subject, field, minute⟩ q := by
  unfold seriesRollup
  rw [(List.mergeSort_perm _ _).mem_iff, List.mem_map]
  constructor
  · rintro ⟨⟨k, q⟩, there, rfl⟩
    obtain ⟨listed, own⟩ := List.mem_filter.mp there
    obtain ⟨rfl, rfl, rfl, range⟩ := of_decide_eq_true own
    exact ⟨k.minute, q, OrderedMap.mem_entries.mp listed, range, rfl⟩
  · rintro ⟨minute, q, found, range, rfl⟩
    exact ⟨(_, q), List.mem_filter.mpr ⟨OrderedMap.mem_entries.mpr found, decide_eq_true ⟨rfl, rfl, rfl, range⟩⟩, rfl⟩

/-- There is one row for a minute. -/
theorem seriesRollup_inOrder : ((seriesRollup table connID subject field start stop).map RollupPoint.t).Pairwise (· < ·) := by
  have sorted : (seriesRollup table connID subject field start stop).Pairwise fun a b => a.t ≤ b.t := by
    refine (List.pairwise_mergeSort (fun a b c => ?_) (fun a b => ?_) _).imp of_decide_eq_true
    · simp only [decide_eq_true_eq]
      exact le_trans
    · rw [Bool.or_eq_true, decide_eq_true_eq, decide_eq_true_eq]
      exact le_total _ _
  have once : ((seriesRollup table connID subject field start stop).map RollupPoint.t).Nodup := by
    unfold seriesRollup
    rw [((List.mergeSort_perm _ _).map _).nodup_iff, List.map_map]
    have keys : table.entries.Nodup := .of_map Prod.fst (by rw [table.entries_keys]; exact table.nodup)
    refine (keys.filter _).map_on fun a here b there same => ?_
    obtain ⟨listed, own⟩ := List.mem_filter.mp here
    obtain ⟨listed', own'⟩ := List.mem_filter.mp there
    obtain ⟨⟨conn, subj, name, minute⟩, q⟩ := a
    obtain ⟨⟨conn', subj', name', minute'⟩, q'⟩ := b
    obtain ⟨rfl, rfl, rfl, -⟩ := of_decide_eq_true own
    obtain ⟨rfl, rfl, rfl, -⟩ := of_decide_eq_true own'
    obtain rfl : minute = minute' := same
    have value := (OrderedMap.mem_entries.mp listed).symm.trans (OrderedMap.mem_entries.mp listed')
    rw [Option.some.inj value]
  exact ((List.pairwise_map.mpr sorted).and once).imp fun both => lt_of_le_of_ne both.1 both.2

variable [Tables] [Numbers] [Recognizer] (rt : Runtime)

/-- The rollups chart what the writer takes from the messages. -/
theorem seriesRollup_charts (batches : List (List Queued)) (aligned : 60000 ∣ start) :
    Charts (written field) (messagesOf batches.flatten connID subject) start stop
      (seriesRollup (stored rt batches) connID subject field start stop) := by
  have row (minute : Int) : (valuesIn (written field) (messagesOf batches.flatten connID subject) minute = [] ∧
        (stored rt batches).get ⟨connID, subject, field, minute⟩ = none) ∨
      ∃ q, (stored rt batches).get ⟨connID, subject, field, minute⟩ = some q ∧
        q.Sums (valuesIn (written field) (messagesOf batches.flatten connID subject) minute) := by
    have total : (stored rt batches).total ⟨connID, subject, field, minute⟩ =
        ((valuesIn (written field) (messagesOf batches.flatten connID subject) minute).map fun v =>
          (Minute.single v : WithZero Minute)).sum := stored_values batches connID subject field minute
    rcases Minute.sums_sum (valuesIn (written field) (messagesOf batches.flatten connID subject) minute) with ⟨none, zero⟩ | ⟨q, sum, sums⟩
    · exact .inl ⟨none, total.trans zero⟩
    · exact .inr ⟨q, total.trans sum, sums⟩
  constructor
  · exact seriesRollup_inOrder
  · intro minute
    rw [List.mem_map]
    constructor
    · rintro ⟨p, listed, rfl⟩
      obtain ⟨minute, q, found, range, rfl⟩ := mem_seriesRollup.mp listed
      rw [minuteOf_aligned aligned] at range
      refine ⟨range.1, range.2, ?_⟩
      rcases row minute with ⟨-, absent⟩ | ⟨q', -, sums⟩
      · rw [absent] at found
        cases found
      · exact List.ne_nil_of_mem sums.least.1
    · rintro ⟨lower, upper, some⟩
      rcases row minute with ⟨none, -⟩ | ⟨q, found, -⟩
      · exact absurd none some
      · exact ⟨_, mem_seriesRollup.mpr ⟨minute, q, found, ⟨(minuteOf_aligned aligned).le.trans lower, upper⟩, rfl⟩, rfl⟩
  · intro p listed
    obtain ⟨minute, q, found, -, rfl⟩ := mem_seriesRollup.mp listed
    rcases row minute with ⟨-, absent⟩ | ⟨q', found', sums⟩
    · rw [absent] at found
      cases found
    · obtain rfl := Option.some.inj (found.symm.trans found')
      refine ⟨sums.least, sums.greatest, ?_, sums.count⟩
      have some : 0 < q.count := by
        rw [sums.count]
        exact List.length_pos_of_mem sums.least.1
      rw [RollupPoint.of, if_pos some, sums.sum, sums.count]

/-- What a chart finds in a message at the path a field is split into. -/
def found (field : Str) (r : Record) : Option ℚ :=
  if r.kind = .json then numberAt r.data.toBytes (field.splitOn '.') else none

/-- The same, if it is among the first numbers of the message. -/
def foundFirst (field : Str) (r : Record) : Option ℚ :=
  if field.splitOn '.' ∈ firstPaths r.data.toBytes then found field r else none

omit [Numbers] [Recognizer] in
theorem head_of_json {r : Record} (json : r.kind = .json) : r.data.toBytes.head? = some 123 ∨ r.data.toBytes.head? = some 91 := by
  unfold Record.kind at json
  cases data : r.data with
  | binary bytes =>
    rw [data] at json
    cases json
  | text runes =>
    rw [data] at json
    dsimp only at json
    split at json
    · next opened =>
      cases runes with
      | nil => exact opened.1.elim nofun nofun
      | cons c runes =>
        rcases opened.1 with first | first
        · obtain rfl := Option.some.inj first
          exact .inl rfl
        · obtain rfl := Option.some.inj first
          exact .inr rfl
    · cases json

/-- Where no key on the way to a number has a dot, the rollups chart the numbers that are found in the messages, as far as
they are among the first of their message. -/
theorem seriesRollup_found (batches : List (List Queued)) (aligned : 60000 ∣ start)
    (undotted : ∀ r ∈ messagesOf batches.flatten connID subject, ∀ doc, json.unmarshal r.data.toBytes = some doc → Undotted doc) :
    Charts (foundFirst field) (messagesOf batches.flatten connID subject) start stop
      (seriesRollup (stored rt batches) connID subject field start stop) := by
  refine (seriesRollup_charts rt batches aligned).congr fun r there => ?_
  unfold written foundFirst found
  by_cases json : r.kind = .json
  · rw [if_pos json, if_pos json]
    exact numericFields_get (head_of_json json) (undotted r there) field
  · rw [if_neg json, if_neg json, ite_self]

end Series

section Sample

@[reducible] def oneNumber : Numbers := { value := fun _ => 1 }

/-- A recognizer that knows one document. -/
@[reducible] def knows (doc : Value) : Recognizer := { value := fun _ => some (doc, []), foldName := id }

def numbered (text : Str) (timestamp : Int) : Queued :=
  { conn := ['c'], record := { subject := ['s'], data := .text text, timestamp := timestamp, sequence := 1 } }

def flat : Value := .object [(['t'], .number ['1'])]

def deep : Value := .object [(['a'], .object [(['b'], .object [(['c'], .number ['1'])])])]

theorem flat_numbers : @numbersOf oneNumber flat = [([['t']], 1)] := by
  simp [flat, numbersOf, schema.sortedKeys, schema.member, numbersUnder]
  rfl

theorem deep_numbers : @numbersOf oneNumber deep = [] := by
  simp [deep, numbersOf, schema.sortedKeys, schema.member, numbersUnder, asNumber]

/-- Three messages in two batches and two minutes. -/
def flatBatches : List (List Queued) :=
  [[numbered "\x7b\"t\":1\x7d".toList 5, numbered "\x7b\"t\":1\x7d".toList 60001], [numbered "\x7b\"t\":1\x7d".toList 7]]

theorem seriesRollup_found_flat : @Charts (@foundFirst asciiTables oneNumber (knows flat) ['t']) (messagesOf flatBatches.flatten ['c'] ['s']) 0 60000
    (seriesRollup (@stored asciiTables oneNumber (knows flat) .plain flatBatches) ['c'] ['s'] ['t'] 0 60000) := by
  let _ := asciiTables
  let _ := oneNumber
  let _ := knows flat
  refine seriesRollup_found .plain flatBatches (by decide) fun r _ doc parsed => ?_
  obtain rfl : flat = doc := Option.some.inj parsed
  intro n there key within
  rw [flat_numbers] at there
  obtain rfl := List.mem_singleton.mp there
  obtain rfl := List.mem_singleton.mp within
  decide

def deepMessage : Queued := numbered "\x7b\"a\":\x7b\"b\":\x7b\"c\":1\x7d\x7d\x7d".toList 5

/-- A number on the third level is found in the message, and its minute is not there. -/
theorem deep_lost : ¬ @Charts (@found asciiTables oneNumber (knows deep) ['a', '.', 'b', '.', 'c']) (messagesOf [deepMessage] ['c'] ['s']) 0 0
    (seriesRollup (@stored asciiTables oneNumber (knows deep) .plain [[deepMessage]]) ['c'] ['s'] ['a', '.', 'b', '.', 'c'] 0 0) := by
  let _ := asciiTables
  let _ := oneNumber
  let _ := knows deep
  have value : found ['a', '.', 'b', '.', 'c'] deepMessage.record = some 1 := by decide
  have unwritten : written ['a', '.', 'b', '.', 'c'] deepMessage.record = none := by
    have isJSON : deepMessage.record.kind = .json := rfl
    have parsed : json.unmarshal deepMessage.record.data.toBytes = some deep := rfl
    rw [written, if_pos isJSON, numericFields_eq (head_of_json isJSON) parsed, deep_numbers]
    rfl
  intro charts
  have rolled : Charts (written ['a', '.', 'b', '.', 'c']) (messagesOf [deepMessage] ['c'] ['s']) 0 0
      (seriesRollup (stored .plain [[deepMessage]]) ['c'] ['s'] ['a', '.', 'b', '.', 'c'] 0 0) :=
    seriesRollup_charts .plain [[deepMessage]] (by decide)
  have own : valuesIn (found ['a', '.', 'b', '.', 'c']) (messagesOf [deepMessage] ['c'] ['s']) 0 ≠ [] := by
    change List.filterMap _ [deepMessage.record] ≠ []
    rw [List.filterMap_cons_some value]
    exact List.cons_ne_nil _ _
  have none : valuesIn (written ['a', '.', 'b', '.', 'c']) (messagesOf [deepMessage] ['c'] ['s']) 0 = [] :=
    List.filterMap_cons_none unwritten
  exact ((rolled.minutes 0).mp ((charts.minutes 0).mpr ⟨le_rfl, le_rfl, own⟩)).2.2 none

end Sample

end NatsExplorer.History.Rollup
