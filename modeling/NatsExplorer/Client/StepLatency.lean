import NatsExplorer.Message
import Mathlib.Data.List.Dedup
import Mathlib.Data.List.Perm.Subperm
import Mathlib.Data.Rat.Floor

/-! How long one step of a chain takes (`client/src/lib/stepLatency.ts`): the messages of two subjects are paired by a
value both carry, each second one with the newest first one before it. -/
namespace NatsExplorer.Client
open Go

/-- The values of a JavaScript document, `undefined` among them. -/
class Nodes (N : Type) where
  tryParseJson : Str → N
  /-- `typeof` says object, and the node is not null. -/
  isObject : N → Bool
  isNullish : N → Bool
  /-- The property of an object. -/
  member : N → Str → N
  text : N → Str
  /-- Names that every object has. -/
  inherited : Str → Bool
  trim : Str → Str
  toLowerCase : Str → Str

namespace latency

structure StepPair where
  value : Str
  from_ : Int
  to_ : Int
  deltaMs : Int
  deriving DecidableEq, Repr

structure StepLatency where
  pairs : List StepPair
  /-- Messages of the first subject that never got a matching second one. -/
  unfinished : ℕ
  /-- Messages of the second subject with no first one before them. -/
  orphans : ℕ
  min : Int
  p50 : Int
  p95 : Int
  p99 : Int
  max : Int

section Value
variable (N : Type) [Nodes N]

/-- The values of a header, by its name or by one that differs in case. -/
def headerAt (headers : Header) (key : Str) : Option (List Str) :=
  match headers.lookup key with
  | some vals => some vals
  | none =>
    if Nodes.inherited N key then none
    else
      let found := headers.find? fun h => Nodes.toLowerCase N h.1 = Nodes.toLowerCase N key
      headers.lookup ((found.map Prod.fst).getD [])

/-- The node some steps below another, where every node on the way is an object. -/
def nodeAt : List Str → N → Option N
  | [], node => some node
  | step :: steps, node => if Nodes.isObject node then nodeAt steps (Nodes.member node step) else none

/-- The value a message carries at a payload path or in a header, as a string. -/
def valueAt (message : NatsMessage) (path : Str) : Option Str :=
  let key := Nodes.trim N path
  if key = [] then none
  else
    match (headerAt N message.headers key).bind List.head? with
    | some value => some value
    | none =>
      if message.payloadType ≠ .json then none
      else
        (nodeAt N (key.splitOn '.') (Nodes.tryParseJson message.payload)).bind fun node =>
          if Nodes.isNullish node ∨ Nodes.isObject node then none else some (Nodes.text node)

end Value

def quantile (sorted : List Int) (q : ℚ) : Int := sorted.getD (min (sorted.length - 1) ⌊q * sorted.length⌋₊) 0

section Pairing
variable (valueOf : NatsMessage → Option Str)

/-- The timestamps of the first messages, by value. -/
def startsOf (from_ : List NatsMessage) : Map Str (List Int) :=
  from_.foldl (fun starts m =>
    match valueOf m with
    | none => starts
    | some v => starts.insert v ((starts.lookup v).getD [] ++ [m.timestamp])) ∅

/-- `starts`, each list in order. -/
def sortedStarts (from_ : List NatsMessage) (v : Str) : Option (List Int) :=
  ((startsOf valueOf from_).lookup v).map fun list => list.mergeSort (· ≤ ·)

structure Pairing where
  used : Map Str (List Int) := ∅
  pairs : List StepPair := []
  orphans : ℕ := 0

/-- The newest start at or before a time that is not spoken for. -/
def newest (list used : List Int) (time : Int) : Option Int :=
  (list.takeWhile (· ≤ time)).foldl (fun best t => if t ∈ used then best else some t) none

/-- One of the second messages. -/
def Pairing.take (starts : Str → Option (List Int)) (s : Pairing) (m : NatsMessage) : Pairing :=
  match valueOf m with
  | none => { s with orphans := s.orphans + 1 }
  | some v =>
    match if v = [] then none else starts v with
    | none => { s with orphans := s.orphans + 1 }
    | some list =>
      let used := (s.used.lookup v).getD []
      match newest list used m.timestamp with
      | none => { s with orphans := s.orphans + 1 }
      | some best =>
        { s with
          used := s.used.insert v (best :: used)
          pairs := s.pairs ++ [{ value := v, from_ := best, to_ := m.timestamp, deltaMs := m.timestamp - best }] }

/-- The second messages in the order of time. -/
def inTime (to_ : List NatsMessage) : List NatsMessage := to_.mergeSort fun a b => a.timestamp ≤ b.timestamp

def pairUp (from_ : List NatsMessage) (to_ : List NatsMessage) : Pairing :=
  (inTime to_).foldl (Pairing.take valueOf (sortedStarts valueOf from_)) {}

def starters (from_ : List NatsMessage) : ℕ := (((startsOf valueOf from_).entries).map fun e => e.2.length).sum

end Pairing

/-- Pairs the messages of two subjects by a shared value and measures the gap. -/
def stepLatency (N : Type) [Nodes N] (from_ to_ : List NatsMessage) (field : Str) : StepLatency :=
  let valueOf := fun m => valueAt N m field
  let run := pairUp valueOf from_ to_
  let sorted := (run.pairs.map StepPair.deltaMs).mergeSort (· ≤ ·)
  { pairs := run.pairs.mergeSort fun a b => b.deltaMs ≤ a.deltaMs
    unfinished := starters valueOf from_ - run.pairs.length
    orphans := run.orphans
    min := sorted.headD 0
    p50 := quantile sorted (1 / 2)
    p95 := quantile sorted (95 / 100)
    p99 := quantile sorted (99 / 100)
    max := sorted.getLastD 0 }

/-! ### What is there to pair -/

section Matching
variable (valueOf : NatsMessage → Option Str)

/-- The timestamps of the messages that carry a value. -/
def carry (messages : List NatsMessage) (v : Str) : List Int :=
  messages.filterMap fun m => if valueOf m = some v then some m.timestamp else none

/-- The pairs of a value. -/
def pairsOf (pairs : List StepPair) (v : Str) : List StepPair := pairs.filter (·.value = v)

/-- How many different starts there are up to a time. -/
def distinct (starts : List Int) (time : Int) : ℕ := (starts.filter (· ≤ time)).dedup.length

/-- Fewer second messages came before than there are different starts, all in all or since one of them. -/
def Spare (starts prior : List Int) (time : Int) : Prop :=
  prior.length < distinct starts time ∨
    ∃ earlier s later, prior = earlier ++ s :: later ∧ distinct starts s + later.length < distinct starts time

/-- A second message for which no start at or before it is left over unpaired if it finds none. -/
def Served (starts prior : List Int) (time : Int) (v : Str) : Prop :=
  if v = [] then ∀ t ∈ starts, time < t else (starts.filter (· ≤ time)).Nodup ∨ Spare starts prior time

variable {valueOf}

theorem carry_snoc (messages : List NatsMessage) (m : NatsMessage) (v : Str) :
    carry valueOf (messages ++ [m]) v = carry valueOf messages v ++ if valueOf m = some v then [m.timestamp] else [] := by
  rw [carry, List.filterMap_append]
  refine congrArg (carry valueOf messages v ++ ·) ?_
  split <;> simp_all

theorem startsOf_lookup (from_ : List NatsMessage) (v : Str) :
    (startsOf valueOf from_).lookup v = if carry valueOf from_ v = [] then none else some (carry valueOf from_ v) := by
  unfold startsOf
  induction from_ using List.reverseRecOn with
  | nil => rfl
  | append_singleton from_ m ih =>
    rw [List.foldl_append, List.foldl_cons, List.foldl_nil, carry_snoc]
    cases here : valueOf m with
    | none =>
      simp only [reduceCtorEq, if_false, List.append_nil]
      exact ih
    | some v' =>
      simp only [Option.some.injEq]
      by_cases same : v' = v
      · subst same
        have some_ : carry valueOf from_ v' ++ [m.timestamp] ≠ [] := by simp
        rw [AList.lookup_insert, ih, if_pos rfl, if_neg some_]
        split
        · rename_i none
          rw [none]
          rfl
        · rfl
      · rw [AList.lookup_insert_ne (Ne.symm same), ih, if_neg same, List.append_nil]

/-- All the values of a map of lists. -/
def total {V : Type} (m : Map Str (List V)) : ℕ := (m.entries.map fun e => e.2.length).sum

theorem total_snoc {V : Type} (m : Map Str (List V)) (k : Str) (x : V) :
    total (m.insert k ((m.lookup k).getD [] ++ [x])) = total m + 1 := by
  have measured (m : Map Str (List V)) : total m = ((Map.values m).map List.length).sum := by
    rw [total, Map.values, List.map_map]
    rfl
  have counted := Map.sum_values_insert List.length m k ((m.lookup k).getD [] ++ [x])
  have before : (m.lookup k).elim 0 List.length = ((m.lookup k).getD []).length := by cases m.lookup k <;> rfl
  rw [← measured, ← measured, before, List.length_append, List.length_singleton] at counted
  omega

/-- Every first message with the field is among the starts. -/
theorem starters_count (from_ : List NatsMessage) : starters valueOf from_ = from_.countP fun m => (valueOf m).isSome := by
  change total (startsOf valueOf from_) = _
  unfold startsOf
  induction from_ using List.reverseRecOn with
  | nil => rfl
  | append_singleton from_ m ih =>
    rw [List.foldl_append, List.foldl_cons, List.foldl_nil, List.countP_append, List.countP_singleton]
    cases valueOf m with
    | none => exact ih
    | some v =>
      simp only [Option.isSome_some, if_true, ← ih]
      exact total_snoc _ v m.timestamp

/-- Which start is taken. -/
theorem newest_spec {list : List Int} (used : List Int) (sorted : list.Pairwise (· ≤ ·)) (time : Int) :
    match newest list used time with
    | none => ∀ t ∈ list, t ≤ time → t ∈ used
    | some best => best ∈ list ∧ best ≤ time ∧ best ∉ used := by
  have some_ (l : List Int) (best : Option Int) :
      match l.foldl (fun best t => if t ∈ used then best else some t) best with
      | none => best = none ∧ ∀ t ∈ l, t ∈ used
      | some t => best = some t ∨ t ∈ l ∧ t ∉ used := by
    induction l generalizing best with
    | nil => cases best <;> simp
    | cons t l ih =>
      have rest := ih (if t ∈ used then best else some t)
      rw [List.foldl_cons]
      split <;> rename_i found <;> rw [found] at rest
      · by_cases spoken : t ∈ used
        · rw [if_pos spoken] at rest
          exact ⟨rest.1, List.forall_mem_cons.mpr ⟨spoken, rest.2⟩⟩
        · rw [if_neg spoken] at rest
          exact absurd rest.1 nofun
      · rcases rest with first | ⟨member, free⟩
        · by_cases spoken : t ∈ used
          · rw [if_pos spoken] at first
            exact .inl first
          · rw [if_neg spoken] at first
            cases first
            exact .inr ⟨List.mem_cons_self, spoken⟩
        · exact .inr ⟨List.mem_cons_of_mem _ member, free⟩
  have inside (t : Int) : t ∈ list.takeWhile (· ≤ time) ↔ t ∈ list ∧ t ≤ time := by
    clear some_
    induction list with
    | nil => simp
    | cons x list ih =>
      obtain ⟨least, rest⟩ := List.pairwise_cons.mp sorted
      by_cases early : x ≤ time
      · rw [List.takeWhile_cons, if_pos (decide_eq_true early), List.mem_cons, List.mem_cons, ih rest]
        exact ⟨fun any => any.elim (fun here => ⟨.inl here, here ▸ early⟩) fun both => ⟨.inr both.1, both.2⟩,
          fun both => both.1.imp id fun there => ⟨there, both.2⟩⟩
      · rw [List.takeWhile_cons, if_neg (by simpa using early)]
        refine iff_of_false List.not_mem_nil fun both => early ?_
        exact (List.mem_cons.mp both.1).elim (fun here => here ▸ both.2) fun there => (least t there).trans both.2
  have found := some_ (list.takeWhile (· ≤ time)) none
  unfold newest
  split <;> rename_i this <;> rw [this] at found
  · exact fun t member before => found.2 t ((inside t).mpr ⟨member, before⟩)
  · rcases found with none | ⟨member, free⟩
    · cases none
    · exact ⟨((inside _).mp member).1, ((inside _).mp member).2, free⟩

/-- What one second message does: it is an orphan, or it takes a start. -/
theorem take_cases (from_ : List NatsMessage) (s : Pairing) (m : NatsMessage) :
    (s.take valueOf (sortedStarts valueOf from_) m = { s with orphans := s.orphans + 1 } ∧
        ∀ v, valueOf m = some v → v = [] ∨ ∀ t ∈ carry valueOf from_ v, t ≤ m.timestamp → t ∈ (s.used.lookup v).getD []) ∨
      ∃ v best, valueOf m = some v ∧ v ≠ [] ∧ best ∈ carry valueOf from_ v ∧ best ≤ m.timestamp ∧
        best ∉ (s.used.lookup v).getD [] ∧
        s.take valueOf (sortedStarts valueOf from_) m =
          { s with
            used := s.used.insert v (best :: (s.used.lookup v).getD [])
            pairs := s.pairs ++ [{ value := v, from_ := best, to_ := m.timestamp, deltaMs := m.timestamp - best }] } := by
  unfold Pairing.take
  cases value : valueOf m with
  | none => exact .inl ⟨rfl, nofun⟩
  | some v =>
    by_cases nameless : v = []
    · refine .inl ⟨by simp only [nameless, if_true], fun v' same => .inl ?_⟩
      exact (Option.some.inj same) ▸ nameless
    · simp only [if_neg nameless, sortedStarts, startsOf_lookup]
      by_cases none : carry valueOf from_ v = []
      · refine .inl ⟨by simp only [none, if_true, Option.map_none], fun v' same => .inr fun t there => ?_⟩
        rw [← Option.some.inj same, none] at there
        cases there
      · simp only [if_neg none, Option.map_some]
        have sorted : ((carry valueOf from_ v).mergeSort (· ≤ ·)).Pairwise (· ≤ ·) :=
          (List.pairwise_mergeSort (fun _ _ _ first second => decide_eq_true ((of_decide_eq_true first).trans (of_decide_eq_true second)))
            (fun a b => by simpa using Int.le_total a b) _).imp of_decide_eq_true
        have spec := newest_spec ((s.used.lookup v).getD []) sorted m.timestamp
        split <;> rename_i found <;> rw [found] at spec
        · refine .inl ⟨rfl, fun v' same => .inr fun t there => ?_⟩
          cases same
          exact spec t (List.mem_mergeSort.mpr there)
        · exact .inr ⟨v, _, rfl, nameless, List.mem_mergeSort.mp spec.1, spec.2.1, spec.2.2, rfl⟩

variable (valueOf) in
/-- The pairs so far: no start is taken twice, and none by two second messages. -/
structure Paired (from_ before : List NatsMessage) (s : Pairing) : Prop where
  used : ∀ v, (s.used.lookup v).getD [] = ((pairsOf s.pairs v).map StepPair.from_).reverse
  once : ∀ v, ((pairsOf s.pairs v).map StepPair.from_).Nodup
  carried : ∀ v, ∀ p ∈ pairsOf s.pairs v, p.from_ ∈ carry valueOf from_ v
  seconds : ∀ v, ((pairsOf s.pairs v).map StepPair.to_).Sublist (carry valueOf before v)
  forward : ∀ p ∈ s.pairs, p.from_ ≤ p.to_ ∧ p.deltaMs = p.to_ - p.from_
  counted : s.pairs.length + s.orphans = before.length
  named : ∀ p ∈ s.pairs, p.value ≠ []

theorem pairsOf_snoc (pairs : List StepPair) (p : StepPair) (v : Str) :
    pairsOf (pairs ++ [p]) v = pairsOf pairs v ++ if p.value = v then [p] else [] := by
  rw [pairsOf, List.filter_append]
  refine congrArg (pairsOf pairs v ++ ·) ?_
  split <;> simp_all

theorem Paired.take {from_ before : List NatsMessage} {s : Pairing} (paired : Paired valueOf from_ before s) (m : NatsMessage) :
    Paired valueOf from_ (before ++ [m]) (s.take valueOf (sortedStarts valueOf from_) m) := by
  rcases take_cases from_ s m with ⟨orphan, -⟩ | ⟨v, best, value, named, member, early, free, taken⟩
  · rw [orphan]
    refine { paired with seconds := fun v => ?_, counted := ?_ }
    · rw [carry_snoc]
      exact (paired.seconds v).trans (List.sublist_append_left _ _)
    · rw [List.length_append, List.length_singleton, ← paired.counted]
      exact (Nat.add_assoc ..).symm
  · rw [taken]
    have one (v' : Str) : pairsOf (s.pairs ++ [⟨v, best, m.timestamp, m.timestamp - best⟩]) v' =
        pairsOf s.pairs v' ++ if v = v' then [⟨v, best, m.timestamp, m.timestamp - best⟩] else [] := pairsOf_snoc ..
    refine ⟨fun v' => ?_, fun v' => ?_, fun v' => ?_, fun v' => ?_, fun p there => ?_, ?_, fun p there => ?_⟩
    · rw [one]
      by_cases same : v = v'
      · subst same
        rw [AList.lookup_insert, if_pos rfl, List.map_append, List.reverse_append, ← paired.used v]
        rfl
      · rw [AList.lookup_insert_ne (Ne.symm same), if_neg same, List.append_nil]
        exact paired.used v'
    · rw [one]
      by_cases same : v = v'
      · subst same
        rw [if_pos rfl, List.map_append, List.nodup_append]
        refine ⟨paired.once v, List.nodup_singleton _, fun t there t' here equal => free ?_⟩
        have equal : t = best := equal.trans (List.mem_singleton.mp here)
        rw [paired.used v, List.mem_reverse]
        exact equal ▸ there
      · rw [if_neg same, List.append_nil]
        exact paired.once v'
    · rw [one]
      intro p there
      rcases List.mem_append.mp there with before | last
      · exact paired.carried v' p before
      · by_cases same : v = v'
        · rw [if_pos same, List.mem_singleton] at last
          subst last same
          exact member
        · rw [if_neg same] at last
          cases last
    · rw [one, carry_snoc, value]
      by_cases same : v = v'
      · rw [if_pos same, if_pos (congrArg some same), List.map_append]
        exact (paired.seconds v').append (.refl _)
      · rw [if_neg same, if_neg fun equal => same (Option.some.inj equal), List.append_nil, List.append_nil]
        exact paired.seconds v'
    · rcases List.mem_append.mp there with before | last
      · exact paired.forward p before
      · cases List.mem_singleton.mp last
        exact ⟨early, rfl⟩
    · have counted := paired.counted
      change (s.pairs ++ [_]).length + s.orphans = _
      rw [List.length_append, List.length_append, List.length_singleton, List.length_singleton]
      omega
    · rcases List.mem_append.mp there with before | last
      · exact paired.named p before
      · cases List.mem_singleton.mp last
        exact named

variable (valueOf) in
/-- The run up to some of the second messages. -/
def paired (from_ before : List NatsMessage) : Pairing := before.foldl (Pairing.take valueOf (sortedStarts valueOf from_)) {}

theorem paired_spec (from_ before : List NatsMessage) : Paired valueOf from_ before (paired valueOf from_ before) := by
  induction before using List.reverseRecOn with
  | nil => exact ⟨fun _ => rfl, fun _ => List.nodup_nil, fun _ _ => nofun, fun _ => .refl _, nofun, rfl, nofun⟩
  | append_singleton before m ih =>
    rw [paired, List.foldl_append, List.foldl_cons, List.foldl_nil]
    exact ih.take m

/-- No two pairs have the same value and the same start. -/
theorem starts_nodup (pairs : List StepPair) (once : ∀ v, ((pairsOf pairs v).map StepPair.from_).Nodup) :
    (pairs.map fun p => (p.value, p.from_)).Nodup := by
  induction pairs with
  | nil => exact List.nodup_nil
  | cons p pairs ih =>
    have split (v : Str) : pairsOf (p :: pairs) v = if p.value = v then p :: pairsOf pairs v else pairsOf pairs v := by
      rw [pairsOf, List.filter_cons]
      simp only [decide_eq_true_eq]
      rfl
    rw [List.map_cons, List.nodup_cons]
    constructor
    · intro again
      obtain ⟨q, member, same⟩ := List.mem_map.mp again
      obtain ⟨value, start⟩ := Prod.mk.inj same
      have here := once p.value
      rw [split, if_pos rfl, List.map_cons, List.nodup_cons] at here
      exact here.1 (List.mem_map.mpr ⟨q, List.mem_filter.mpr ⟨member, decide_eq_true value⟩, start⟩)
    · refine ih fun v => ?_
      have here := once v
      rw [split] at here
      split at here
      · exact (List.nodup_cons.mp here).2
      · exact here

/-- There are no more pairs than first messages with the field. -/
theorem Paired.fits {from_ before : List NatsMessage} {s : Pairing} (paired : Paired valueOf from_ before s) :
    s.pairs.length ≤ from_.countP fun m => (valueOf m).isSome := by
  have among : (s.pairs.map fun p => (p.value, p.from_)).Subperm
      (from_.filterMap fun m => (valueOf m).map fun v => (v, m.timestamp)) := by
    refine List.Nodup.subperm (starts_nodup s.pairs paired.once) fun e there => ?_
    obtain ⟨p, member, rfl⟩ := List.mem_map.mp there
    have carried := paired.carried p.value p (List.mem_filter.mpr ⟨member, decide_eq_true rfl⟩)
    obtain ⟨m, listed, shows⟩ := List.mem_filterMap.mp carried
    refine List.mem_filterMap.mpr ⟨m, listed, ?_⟩
    split at shows
    · rename_i value
      rw [value, ← Option.some.inj shows]
      rfl
    · cases shows
  have count : (from_.filterMap fun m => (valueOf m).map fun v => (v, m.timestamp)).length =
      from_.countP fun m => (valueOf m).isSome := by
    rw [List.length_filterMap_eq_countP]
    exact List.countP_congr fun m _ => by rw [Option.isSome_map]
  rw [← count, ← List.length_map fun p => (p.value, p.from_)]
  exact among.length_le

/-- How many starts of a value are taken. -/
def takenOf (s : Pairing) (v : Str) : ℕ := (pairsOf s.pairs v).length

/-- In the order of time. -/
abbrev Ordered (messages : List NatsMessage) : Prop := messages.Pairwise fun a b => a.timestamp ≤ b.timestamp

variable (valueOf) in
/-- A start is left over exactly if fewer are taken than there are. -/
theorem left_over_iff (from_ : List NatsMessage) {before : List NatsMessage} {m : NatsMessage} (ordered : Ordered (before ++ [m])) (v : Str) :
    let s := paired valueOf from_ before
    takenOf s v ≤ distinct (carry valueOf from_ v) m.timestamp ∧
      ((∀ t ∈ carry valueOf from_ v, t ≤ m.timestamp → t ∈ (s.used.lookup v).getD []) ↔
        distinct (carry valueOf from_ v) m.timestamp ≤ takenOf s v) := by
  intro s
  have spec : Paired valueOf from_ before s := paired_spec from_ before
  let starts := ((carry valueOf from_ v).filter (· ≤ m.timestamp)).dedup
  let froms := (pairsOf s.pairs v).map StepPair.from_
  have count : takenOf s v = froms.length := (List.length_map _).symm
  have among (t : Int) : t ∈ starts ↔ t ∈ carry valueOf from_ v ∧ t ≤ m.timestamp := by
    rw [List.mem_dedup, List.mem_filter, decide_eq_true_eq]
  have inside : froms ⊆ starts := by
    intro t there
    obtain ⟨p, member, rfl⟩ := List.mem_map.mp there
    have second : p.to_ ∈ carry valueOf before v := (spec.seconds v).subset (List.mem_map_of_mem member)
    obtain ⟨m', member', shows⟩ := List.mem_filterMap.mp second
    have time : p.to_ = m'.timestamp := by
      split at shows
      · exact (Option.some.inj shows).symm
      · cases shows
    have early : m'.timestamp ≤ m.timestamp := (List.pairwise_append.mp ordered).2.2 m' member' m (List.mem_singleton_self m)
    have forward := (spec.forward p (List.mem_of_mem_filter member)).1
    exact (among _).mpr ⟨spec.carried v p member, by omega⟩
  have fits : froms.Subperm starts := List.Nodup.subperm (spec.once v) inside
  refine ⟨count ▸ fits.length_le, ?_⟩
  rw [spec.used v]
  constructor
  · intro all
    have back : starts ⊆ froms := fun t there => List.mem_reverse.mp (all t ((among t).mp there).1 ((among t).mp there).2)
    exact count ▸ (List.Nodup.subperm (List.nodup_dedup _) back).length_le
  · intro many t there early
    have same : froms.Perm starts := fits.perm_of_length_le (count ▸ many)
    exact List.mem_reverse.mpr (same.mem_iff.mpr ((among t).mpr ⟨there, early⟩))

variable (valueOf) in
/-- How many starts are taken, by the second messages before. -/
theorem taken_lt_iff (from_ : List NatsMessage) {before : List NatsMessage} (ordered : Ordered before) {v : Str} (named : v ≠ []) (n : ℕ) :
    takenOf (paired valueOf from_ before) v < n ↔
      (carry valueOf before v).length < n ∨ ∃ earlier s later, carry valueOf before v = earlier ++ s :: later ∧
        distinct (carry valueOf from_ v) s + later.length < n := by
  induction before using List.reverseRecOn generalizing n with
  | nil =>
    refine ⟨.inl, fun any => any.elim id ?_⟩
    rintro ⟨earlier, s, later, split, -⟩
    exact absurd split (by simp [carry])
  | append_singleton before m ih =>
    obtain ⟨most, free⟩ := left_over_iff valueOf from_ ordered v
    have ih := ih (List.pairwise_append.mp ordered).1
    rw [carry_snoc, paired, List.foldl_append, List.foldl_cons, List.foldl_nil]
    change takenOf ((paired valueOf from_ before).take valueOf (sortedStarts valueOf from_) m) v < n ↔ _
    by_cases carries : valueOf m = some v
    · have step : takenOf ((paired valueOf from_ before).take valueOf (sortedStarts valueOf from_) m) v =
          min (takenOf (paired valueOf from_ before) v + 1) (distinct (carry valueOf from_ v) m.timestamp) := by
        rcases take_cases from_ (paired valueOf from_ before) m with ⟨orphan, spoken⟩ | ⟨v', best, value, -, member, early, left, taken⟩
        · have none := free.mp ((spoken v carries).resolve_left named)
          rw [orphan]
          change takenOf (paired valueOf from_ before) v = _
          omega
        · obtain rfl : v' = v := Option.some.inj (value.symm.trans carries)
          have some_ := mt free.mpr fun all => left (all best member early)
          rw [taken, takenOf, pairsOf_snoc, if_pos rfl, List.length_append, List.length_singleton]
          change takenOf (paired valueOf from_ before) v' + 1 = _
          omega
      rw [if_pos carries, step, min_lt_iff, List.length_append, List.length_singleton]
      have ih := ih (n - 1)
      constructor
      · rintro (fewer | least)
        · rcases ih.mp (by omega) with few | ⟨earlier, s, later, split, few⟩
          · exact .inl (by omega)
          · refine .inr ⟨earlier, s, later ++ [m.timestamp], by rw [split, List.append_assoc, List.cons_append], ?_⟩
            rw [List.length_append, List.length_singleton]
            omega
        · exact .inr ⟨carry valueOf before v, m.timestamp, [], rfl, least⟩
      · rintro (few | ⟨earlier, s, later, split, few⟩)
        · have fewer := ih.mpr (.inl (by omega))
          exact .inl (by omega)
        · rcases List.eq_nil_or_concat later with rfl | ⟨later, last, rfl⟩
          · obtain ⟨-, same⟩ := List.append_inj' split rfl
            cases same
            exact .inr few
          · rw [List.concat_eq_append, ← List.cons_append, ← List.append_assoc] at split
            obtain ⟨split, -⟩ := List.append_inj' split rfl
            rw [List.length_concat] at few
            have fewer := ih.mpr (.inr ⟨earlier, s, later, split, by omega⟩)
            exact .inl (by omega)
    · have same : takenOf ((paired valueOf from_ before).take valueOf (sortedStarts valueOf from_) m) v =
          takenOf (paired valueOf from_ before) v := by
        rcases take_cases from_ (paired valueOf from_ before) m with ⟨orphan, -⟩ | ⟨v', best, value, -, -, -, -, taken⟩
        · rw [orphan]
          rfl
        · have other : v' ≠ v := fun same => carries (same ▸ value)
          rw [taken, takenOf, pairsOf_snoc, if_neg other, List.append_nil]
          rfl
      rw [if_neg carries, same, List.append_nil]
      exact ih n

variable (valueOf) in
/-- Every first message with the value, at or before the time, is paired already. -/
def AllPaired (from_ : List NatsMessage) (s : Pairing) (v : Str) (time : Int) : Prop :=
  ((carry valueOf from_ v).filter (· ≤ time)).Subperm ((pairsOf s.pairs v).map StepPair.from_)

variable (valueOf) in
/-- A second message that is counted as an orphan. -/
def Orphaned (from_ before : List NatsMessage) (m : NatsMessage) : Prop :=
  (paired valueOf from_ (before ++ [m])).orphans = (paired valueOf from_ before).orphans + 1

variable (valueOf) in
/-- An orphan leaves nothing unpaired behind exactly if it was served. -/
theorem orphan_iff (from_ : List NatsMessage) {before : List NatsMessage} {m : NatsMessage} (ordered : Ordered (before ++ [m])) {v : Str}
    (carries : valueOf m = some v) :
    (Orphaned valueOf from_ before m → AllPaired valueOf from_ (paired valueOf from_ before) v m.timestamp) ↔
      Served (carry valueOf from_ v) (carry valueOf before v) m.timestamp v := by
  have spec : Paired valueOf from_ before (paired valueOf from_ before) := paired_spec from_ before
  have last : paired valueOf from_ (before ++ [m]) = (paired valueOf from_ before).take valueOf (sortedStarts valueOf from_) m :=
    List.foldl_append ..
  unfold Served Orphaned
  rw [last]
  by_cases nameless : v = []
  · subst nameless
    have none : pairsOf (paired valueOf from_ before).pairs [] = [] :=
      List.filter_eq_nil_iff.mpr fun p member empty => spec.named p member (of_decide_eq_true empty)
    have orphan : ((paired valueOf from_ before).take valueOf (sortedStarts valueOf from_) m).orphans =
        (paired valueOf from_ before).orphans + 1 := by
      rcases take_cases from_ (paired valueOf from_ before) m with ⟨orphan, -⟩ | ⟨v', best, value, named, -⟩
      · rw [orphan]
      · exact absurd (Option.some.inj (value.symm.trans carries)) named
    rw [if_pos rfl, imp_iff_right orphan, AllPaired, none, List.map_nil, List.subperm_nil, List.filter_eq_nil_iff]
    simp only [decide_eq_true_eq, not_le]
  · rw [if_neg nameless]
    obtain ⟨-, free⟩ := left_over_iff valueOf from_ ordered v
    have spare := taken_lt_iff valueOf from_ (List.pairwise_append.mp ordered).1 nameless
      (distinct (carry valueOf from_ v) m.timestamp)
    have spare : Spare (carry valueOf from_ v) (carry valueOf before v) m.timestamp ↔ ¬ _ := spare.symm.trans not_le.symm
    rcases take_cases from_ (paired valueOf from_ before) m with ⟨orphan, spoken⟩ | ⟨v', best, value, -, member, early, left, taken⟩
    · have all := (spoken v carries).resolve_left nameless
      rw [spare, not_not.mpr (free.mp all) |> eq_false, or_false, orphan, imp_iff_right rfl, AllPaired]
      constructor
      · rintro ⟨l, same, inside⟩
        exact same.nodup_iff.mp ((spec.once v).sublist inside)
      · intro once
        refine List.Nodup.subperm once fun t there => ?_
        obtain ⟨there, early⟩ := List.mem_filter.mp there
        rw [spec.used v] at all
        exact List.mem_reverse.mp (all t there (of_decide_eq_true early))
    · obtain rfl : v' = v := Option.some.inj (value.symm.trans carries)
      refine iff_of_true (fun orphan => ?_) (.inr (spare.mpr fun many => left (free.mpr many best member early)))
      rw [taken] at orphan
      exact absurd orphan (Nat.succ_ne_self _).symm

end Matching

section Claim
variable (N : Type) [Nodes N]

/-- Step latency is a matching, and an orphan leaves nothing it could have been paired with exactly where every second
message is served. -/
theorem step_matching (from_ to_ : List NatsMessage) (field : Str) :
    let r := stepLatency N from_ to_ field
    let valueOf := fun m => valueAt N m field
    ((∀ v, ((pairsOf r.pairs v).map StepPair.from_).Subperm (carry valueOf from_ v)) ∧
        (∀ v, ((pairsOf r.pairs v).map StepPair.to_).Subperm (carry valueOf to_ v)) ∧
        (∀ p ∈ r.pairs, p.from_ ≤ p.to_ ∧ p.deltaMs = p.to_ - p.from_) ∧
        r.pairs.length + r.orphans = to_.length ∧
        r.pairs.length + r.unfinished = from_.countP fun m => (valueOf m).isSome) ∧
      ((∀ before m after v, inTime to_ = before ++ m :: after → valueOf m = some v → Orphaned valueOf from_ before m →
          AllPaired valueOf from_ (paired valueOf from_ before) v m.timestamp) ↔
        ∀ before m after v, inTime to_ = before ++ m :: after → valueOf m = some v →
          Served (carry valueOf from_ v) (carry valueOf before v) m.timestamp v) := by
  intro r valueOf
  have spec : Paired valueOf from_ (inTime to_) (pairUp valueOf from_ to_) := paired_spec from_ (inTime to_)
  have same : r.pairs.Perm (pairUp valueOf from_ to_).pairs := List.mergeSort_perm _ _
  have ofValue (v : Str) : (pairsOf r.pairs v).Perm (pairsOf (pairUp valueOf from_ to_).pairs v) := same.filter _
  have whole (v : Str) : (carry valueOf (inTime to_) v).Perm (carry valueOf to_ v) := (List.mergeSort_perm _ _).filterMap _
  have starts (v : Str) : ((pairsOf r.pairs v).map StepPair.from_).Subperm (carry valueOf from_ v) := by
    refine (((ofValue v).map StepPair.from_).subperm).trans (List.Nodup.subperm (spec.once v) fun t there => ?_)
    obtain ⟨p, member, rfl⟩ := List.mem_map.mp there
    exact spec.carried v p member
  have counted : r.pairs.length + r.orphans = to_.length := by
    have counted := spec.counted
    rw [same.length_eq]
    exact counted.trans (List.length_mergeSort _)
  have fits : r.pairs.length ≤ starters valueOf from_ := by
    rw [same.length_eq, starters_count]
    exact spec.fits
  refine ⟨⟨starts, fun v => (((ofValue v).map StepPair.to_).subperm).trans ((spec.seconds v).subperm.trans (whole v).subperm),
    fun p member => spec.forward p (same.mem_iff.mp member), counted, ?_⟩, ?_⟩
  · rw [← starters_count]
    have rest : r.unfinished = starters valueOf from_ - (pairUp valueOf from_ to_).pairs.length := rfl
    rw [rest, ← same.length_eq]
    omega
  · have ordered : Ordered (inTime to_) :=
      (List.pairwise_mergeSort (fun _ _ _ first second => decide_eq_true ((of_decide_eq_true first).trans (of_decide_eq_true second)))
        (fun a b => by simpa using Int.le_total a.timestamp b.timestamp) to_).imp of_decide_eq_true
    refine forall_congr' fun before => forall_congr' fun m => forall_congr' fun after => forall_congr' fun v =>
      imp_congr_right fun split => imp_congr_right fun carries => orphan_iff valueOf from_ ?_ carries
    rw [split, List.append_cons] at ordered
    exact (List.pairwise_append.mp ordered).1

end Claim

/-- Messages whose only values are in their headers. -/
@[reducible] def headerNodes : Nodes Unit where
  tryParseJson _ := ()
  isObject _ := false
  isNullish _ := true
  member _ _ := ()
  text _ := []
  inherited _ := false
  trim key := key
  toLowerCase key := key

def order (subject : Str) (timestamp : Int) : NatsMessage where
  subject := subject
  payload := []
  payloadType := .string
  headers := [("id".toList, [['a']])]
  timestamp := timestamp
  reply := []
  size := 0
  sequence := 0
  connID := []

/-- Two orders are created at one time, and only one of the two payments is paired. -/
theorem step_orphaned :
    let := headerNodes
    let valueOf := fun m => valueAt Unit m "id".toList
    let created := [order "created".toList 0, order "created".toList 0]
    let paid := [order "paid".toList 1, order "paid".toList 2]
    ¬ ∀ before m after v, inTime paid = before ++ m :: after → valueOf m = some v → Orphaned valueOf created before m →
      AllPaired valueOf created (paired valueOf created before) v m.timestamp := by
  intro _ valueOf created paid all
  have sorted : inTime paid = [order "paid".toList 1] ++ [order "paid".toList 2] := List.mergeSort_of_pairwise (by decide)
  have carries : valueOf (order "paid".toList 2) = some ['a'] := by decide
  have ordered : Ordered ([order "paid".toList 1] ++ [order "paid".toList 2]) := by decide
  have served := (orphan_iff valueOf created ordered carries).mp (all _ _ [] _ sorted carries)
  rw [Served, if_neg nofun] at served
  rcases served with once | few | ⟨earlier, s, later, split, few⟩
  · exact absurd once (by decide)
  · exact absurd few (by decide)
  · have prior : carry valueOf [order "paid".toList 1] ['a'] = [1] := by decide
    rw [prior] at split
    obtain ⟨rfl, same⟩ | ⟨_, rfl, none⟩ := List.append_eq_cons_iff.mp split.symm
    · cases same
      exact absurd few (by decide)
    · exact absurd none (by simp)

end latency
end NatsExplorer.Client
