import NatsExplorer.Alerts.Rule
import NatsExplorer.Schema.Infer
import NatsExplorer.Library.OrderedMap
import Mathlib.Data.List.Dedup

/-! What a field name denotes in a JSON document: to the writer of the minute rollups (`numericFields` of
`internal/history/rollup.go`), and to a chart that reads the messages (`numberAt` of `internal/handler/history.go`). Numbers are
the rationals their texts stand for. -/
namespace OrderedMap
variable {K V : Type*} [DecidableEq K]

/-- A map that takes no key beyond a size. -/
def setCapped (cap : ℕ) (m : OrderedMap K V) (a : K × V) : OrderedMap K V := if cap ≤ m.keys.length then m else m.set a.1 a.2

theorem foldl_setCapped_full {cap : ℕ} {m : OrderedMap K V} (full : cap ≤ m.keys.length) (l : List (K × V)) :
    l.foldl (setCapped cap) m = m := by
  induction l with
  | nil => rfl
  | cons a l ih => rw [List.foldl_cons, setCapped, if_pos full, ih]

/-- Of keys that are all different it has the first ones. -/
theorem foldl_setCapped {cap : ℕ} {l : List (K × V)} (nodup : (l.map Prod.fst).Nodup) :
    (l.foldl (setCapped cap) empty).keys = (l.map Prod.fst).take cap ∧
      ∀ k v, (l.foldl (setCapped cap) empty).get k = some v ↔ (k, v) ∈ l.take cap := by
  induction l using List.reverseRecOn with
  | nil => exact ⟨List.take_nil.symm, fun k v => by simp⟩
  | append_singleton l a ih =>
    rw [List.map_append, List.nodup_append] at nodup
    obtain ⟨keys, values⟩ := ih nodup.1
    rw [List.foldl_append, List.foldl_cons, List.foldl_nil]
    generalize l.foldl (setCapped cap) empty = m at keys values
    have size : m.keys.length = min cap l.length := by rw [keys, List.length_take, List.length_map]
    rw [setCapped]
    split
    · next full =>
      have enough : cap ≤ l.length := by omega
      rw [List.map_append, List.take_append_of_le_length (by rwa [List.length_map]), List.take_append_of_le_length enough]
      exact ⟨keys, values⟩
    · next room =>
      have whole : l.length < cap := by omega
      have all : (l ++ [a]).length ≤ cap := by rwa [List.length_append]
      rw [List.take_of_length_le (by rw [List.length_map]; exact whole.le)] at keys
      simp only [List.take_of_length_le whole.le] at values
      have fresh : a.1 ∉ m.keys := fun there => nodup.2.2 a.1 (keys ▸ there) a.1 (List.mem_singleton_self _) rfl
      rw [List.take_of_length_le (by rwa [List.length_map]), List.take_of_length_le all, keys_set, if_neg fresh, keys,
        List.map_append]
      refine ⟨rfl, fun k v => ?_⟩
      rw [get_set, List.mem_append, List.mem_singleton, ← values]
      by_cases same : k = a.1
      · subst same
        have none : m.get a.1 = none := by
          by_contra some
          exact fresh ((m.mem_keys _).mpr some)
        rw [if_pos rfl, none, Option.some.injEq]
        exact ⟨fun value => .inr (Prod.ext rfl value.symm), fun either => (either.resolve_left nofun ▸ rfl)⟩
      · rw [if_neg same]
        exact ⟨.inl, fun either => either.resolve_right fun pair => same (congrArg Prod.fst pair)⟩

end OrderedMap

namespace NatsExplorer.History.Rollup
open Go Go.json schema

/-- `strconv.ParseFloat`, without rounding. -/
class Numbers where
  value : Str → ℚ

/-- What one message contributes at most. -/
def rollupMaxFields : ℕ := 16

/-- `strings.Join` -/
def joined (path : List Str) : Str := ['.'].intercalate path

theorem joined_one (k : Str) : joined [k] = k := List.append_nil k

theorem joined_two (k k2 : Str) : joined [k, k2] = k ++ '.' :: k2 := by
  change k ++ (['.'] ++ (k2 ++ [])) = _
  rw [List.append_nil]
  rfl

theorem sortedKeys_nodup (doc : List (Str × Value)) : (sortedKeys doc).Nodup :=
  (List.mergeSort_perm _ _).nodup_iff.mpr (List.nodup_dedup _)

section Fields
variable [Numbers]

def asNumber : Value → Option ℚ
  | .number text => some (Numbers.value text)
  | _ => none

/-- The inner loop of `numericFields`, over the keys of the document under `k`. -/
def nestedFields (k : Str) (nested : List (Str × Value)) : List Str → OrderedMap Str ℚ → OrderedMap Str ℚ
  | [], out => out
  | k2 :: sub, out =>
    if rollupMaxFields ≤ out.keys.length then out
    else
      match asNumber (member nested k2) with
      | some n => nestedFields k nested sub (out.set (k ++ '.' :: k2) n)
      | none => nestedFields k nested sub out

/-- The outer loop. -/
def fieldsFrom (doc : List (Str × Value)) : List Str → OrderedMap Str ℚ → OrderedMap Str ℚ
  | [], out => out
  | k :: keys, out =>
    if rollupMaxFields ≤ out.keys.length then out
    else
      match asNumber (member doc k) with
      | some n => fieldsFrom doc keys (out.set k n)
      | none =>
        match member doc k with
        | .object nested => fieldsFrom doc keys (nestedFields k nested (sortedKeys nested) out)
        | _ => fieldsFrom doc keys out

/-- The numbers of a JSON document: the top level and one level below it, as dotted paths, in key order, at most a few. -/
def numericFields [Recognizer] (data : List UInt8) : OrderedMap Str ℚ :=
  if data.head? ≠ some 123 ∧ data.head? ≠ some 91 then .empty
  else
    match json.unmarshal data with
    | some (.object doc) => fieldsFrom doc (sortedKeys doc) .empty
    | _ => .empty

/-- The walk of `numberAt`. -/
def descend : Value → List Str → Option Value
  | cur, [] => some cur
  | .object c, key :: path => descend (member c key) path
  | .array items, key :: path =>
    match Alerts.atoi key with
    | some i =>
      if 0 ≤ i then
        match items[i.toNat]? with
        | some cur => descend cur path
        | none => none
      else none
    | none => none
  | _, _ :: _ => none

/-- The number at a dotted path of a JSON document. -/
def numberAt [Recognizer] (payload : List UInt8) (path : List Str) : Option ℚ :=
  (json.unmarshal payload).bind fun doc => (descend doc path).bind asNumber

/-- The numbers of a member, with their paths: it is one, or has some one level below it. -/
def numbersUnder (k : Str) : Value → List (List Str × ℚ)
  | .number text => [([k], Numbers.value text)]
  | .object nested => (sortedKeys nested).filterMap fun k2 => (asNumber (member nested k2)).map (Prod.mk [k, k2])
  | _ => []

/-- The numbers of a document that the rollups look for, in key order. -/
def numbersOf : Value → List (List Str × ℚ)
  | .object doc => (sortedKeys doc).flatMap fun k => numbersUnder k (member doc k)
  | _ => []

/-- No key on the way to one of these numbers has a dot. -/
def Undotted (doc : Value) : Prop := ∀ n ∈ numbersOf doc, ∀ key ∈ n.1, '.' ∉ key

/-- The paths of the first of these numbers. -/
def firstPaths [Recognizer] (data : List UInt8) : List (List Str) :=
  match json.unmarshal data with
  | some doc => ((numbersOf doc).map Prod.fst).take rollupMaxFields
  | none => []

/-! ### The two loops, as one over the numbers -/

def named (n : List Str × ℚ) : Str × ℚ := (joined n.1, n.2)

theorem nestedFields_eq (k : Str) (nested : List (Str × Value)) (sub : List Str) (out : OrderedMap Str ℚ) :
    nestedFields k nested sub out =
      ((sub.filterMap fun k2 => (asNumber (member nested k2)).map (Prod.mk [k, k2])).map named).foldl (.setCapped rollupMaxFields) out := by
  induction sub generalizing out with
  | nil => rfl
  | cons k2 sub ih =>
    rw [nestedFields]
    split
    · next full => rw [OrderedMap.foldl_setCapped_full full]
    · next room =>
      cases number : asNumber (member nested k2) with
      | none => rw [List.filterMap_cons_none (by rw [number]; rfl), ← ih]
      | some n =>
        rw [List.filterMap_cons_some (by rw [number]; rfl), List.map_cons, List.foldl_cons, OrderedMap.setCapped, if_neg room, ← ih, named,
          joined_two]

theorem fieldsFrom_eq (doc : List (Str × Value)) (keys : List Str) (out : OrderedMap Str ℚ) :
    fieldsFrom doc keys out =
      ((keys.flatMap fun k => numbersUnder k (member doc k)).map named).foldl (.setCapped rollupMaxFields) out := by
  induction keys generalizing out with
  | nil => rfl
  | cons k keys ih =>
    rw [fieldsFrom]
    split
    · next full => rw [OrderedMap.foldl_setCapped_full full]
    · next room =>
      rw [List.flatMap_cons, List.map_append, List.foldl_append, ← ih]
      cases found : member doc k with
      | number text =>
        rw [numbersUnder, List.map_singleton, List.foldl_cons, List.foldl_nil, OrderedMap.setCapped, if_neg room, named, joined_one]
        rfl
      | object nested =>
        rw [numbersUnder, ← nestedFields_eq]
        rfl
      | _ => rfl

/-- The fields of a document are its first numbers, under their names. -/
theorem numericFields_eq [Recognizer] {data : List UInt8} (head : data.head? = some 123 ∨ data.head? = some 91) {doc : Value}
    (parsed : json.unmarshal data = some doc) :
    numericFields data = ((numbersOf doc).map named).foldl (.setCapped rollupMaxFields) .empty := by
  have read : ¬ (data.head? ≠ some 123 ∧ data.head? ≠ some 91) := fun both => head.elim both.1 both.2
  rw [numericFields, if_neg read, parsed]
  cases doc with
  | object doc => exact fieldsFrom_eq doc (sortedKeys doc) .empty
  | _ => rfl

/-! ### What a name denotes -/

theorem mem_numbersUnder {k : Str} {v : Value} {n : List Str × ℚ} (there : n ∈ numbersUnder k v) :
    (n.1 = [k] ∧ asNumber v = some n.2) ∨
      ∃ nested k2, v = .object nested ∧ n.1 = [k, k2] ∧ asNumber (member nested k2) = some n.2 := by
  cases v with
  | number text =>
    obtain rfl := List.mem_singleton.mp there
    exact .inl ⟨rfl, rfl⟩
  | object nested =>
    obtain ⟨k2, -, number⟩ := List.mem_filterMap.mp there
    obtain ⟨x, value, rfl⟩ := Option.map_eq_some_iff.mp number
    exact .inr ⟨nested, k2, rfl, rfl, value⟩
  | _ => cases there

theorem numbersUnder_nodup (k : Str) (v : Value) : ((numbersUnder k v).map Prod.fst).Nodup := by
  cases v with
  | number text => exact List.nodup_singleton _
  | object nested =>
    have paths : ((numbersUnder k (.object nested)).map Prod.fst).Sublist ((sortedKeys nested).map fun k2 => [k, k2]) := by
      rw [numbersUnder]
      induction sortedKeys nested with
      | nil => exact .slnil
      | cons k2 sub ih =>
        cases number : asNumber (member nested k2) with
        | none =>
          rw [List.filterMap_cons_none (by rw [number]; rfl)]
          exact ih.cons _
        | some n =>
          rw [List.filterMap_cons_some (by rw [number]; rfl)]
          exact ih.cons_cons _
    refine List.Nodup.sublist paths ((sortedKeys_nodup nested).map fun a b same => ?_)
    exact (List.cons.inj (List.cons.inj same).2).1
  | _ => exact List.nodup_nil

theorem head_numbersUnder {k : Str} {v : Value} {p : List Str} (there : p ∈ (numbersUnder k v).map Prod.fst) : p.head? = some k := by
  obtain ⟨n, listed, rfl⟩ := List.mem_map.mp there
  rcases mem_numbersUnder listed with ⟨path, -⟩ | ⟨-, k2, -, path, -⟩ <;> rw [path] <;> rfl

/-- No two numbers have one path. -/
theorem numbersOf_nodup (doc : Value) : ((numbersOf doc).map Prod.fst).Nodup := by
  cases doc with
  | object doc =>
    rw [numbersOf, List.map_flatMap, List.nodup_flatMap]
    refine ⟨fun k _ => numbersUnder_nodup k _, (sortedKeys_nodup doc).imp fun other => ?_⟩
    intro p here there
    exact other (Option.some.inj ((head_numbersUnder here).symm.trans (head_numbersUnder there)))
  | _ => exact List.nodup_nil

/-- The walk along its path comes to a number. -/
theorem descend_numbersOf {doc : Value} {n : List Str × ℚ} (there : n ∈ numbersOf doc) : (descend doc n.1).bind asNumber = some n.2 := by
  cases doc with
  | object doc =>
    obtain ⟨k, -, within⟩ := List.mem_flatMap.mp there
    rcases mem_numbersUnder within with ⟨path, number⟩ | ⟨nested, k2, found, path, number⟩
    · rw [path]
      exact number
    · rw [path, descend, found]
      exact number
  | _ => cases there

theorem path_ne_nil {doc : Value} {n : List Str × ℚ} (there : n ∈ numbersOf doc) : n.1 ≠ [] := by
  cases doc with
  | object doc =>
    obtain ⟨k, -, within⟩ := List.mem_flatMap.mp there
    have first := head_numbersUnder (List.mem_map_of_mem within)
    intro none
    rw [none] at first
    cases first
  | _ => cases there

/-- A name of keys without dots is split into them. -/
theorem splitOn_joined {doc : Value} (undotted : Undotted doc) {n : List Str × ℚ} (there : n ∈ numbersOf doc) :
    (joined n.1).splitOn '.' = n.1 :=
  List.splitOn_intercalate '.' (undotted n there) (path_ne_nil there)

/-- Where no key has a dot, the writer's field of a name is the number a chart finds at the path it is split into, as far as
the writer goes. -/
theorem numericFields_get [Recognizer] {data : List UInt8} (head : data.head? = some 123 ∨ data.head? = some 91)
    (undotted : ∀ doc, json.unmarshal data = some doc → Undotted doc) (field : Str) :
    (numericFields data).get field = if field.splitOn '.' ∈ firstPaths data then numberAt data (field.splitOn '.') else none := by
  cases parsed : json.unmarshal data with
  | none =>
    have read : ¬ (data.head? ≠ some 123 ∧ data.head? ≠ some 91) := fun both => head.elim both.1 both.2
    have nothing : numberAt data (field.splitOn '.') = none := by rw [numberAt, parsed, Option.bind_none]
    rw [nothing, ite_self, numericFields, if_neg read, parsed]
    rfl
  | some doc =>
    have first : firstPaths data = ((numbersOf doc).take rollupMaxFields).map Prod.fst := by rw [firstPaths, parsed, List.map_take]
    have number (path : List Str) : numberAt data path = (descend doc path).bind asNumber := by
      rw [numberAt, parsed, Option.bind_some]
    replace undotted := undotted doc parsed
    have names : ((numbersOf doc).map named).map Prod.fst = ((numbersOf doc).map Prod.fst).map joined := by
      rw [List.map_map, List.map_map]
      rfl
    have nodup : (((numbersOf doc).map named).map Prod.fst).Nodup := by
      rw [names]
      refine (numbersOf_nodup doc).map_on fun p here q there same => ?_
      obtain ⟨m, first, rfl⟩ := List.mem_map.mp here
      obtain ⟨n, second, rfl⟩ := List.mem_map.mp there
      rw [← splitOn_joined undotted first, same, splitOn_joined undotted second]
    have firsts : ((numbersOf doc).take rollupMaxFields).Sublist (numbersOf doc) := List.take_sublist _ _
    refine Option.ext fun v => ?_
    rw [numericFields_eq head parsed, (OrderedMap.foldl_setCapped nodup).2, ← List.map_take]
    simp only [first, number]
    constructor
    · intro listed
      obtain ⟨n, there, same⟩ := List.mem_map.mp listed
      obtain ⟨rfl, rfl⟩ := Prod.mk.inj same
      rw [splitOn_joined undotted (firsts.subset there), if_pos (List.mem_map_of_mem there)]
      exact descend_numbersOf (firsts.subset there)
    · intro found
      split at found
      · next among =>
        obtain ⟨n, there, path⟩ := List.mem_map.mp among
        have name : joined n.1 = field := by rw [path, joined, List.intercalate_splitOn]
        rw [← path, descend_numbersOf (firsts.subset there)] at found
        exact List.mem_map.mpr ⟨n, there, Prod.ext name (Option.some.inj found)⟩
      · cases found

end Fields
end NatsExplorer.History.Rollup
