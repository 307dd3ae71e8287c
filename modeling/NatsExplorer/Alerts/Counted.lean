import NatsExplorer.Alerts.SubjectState
import NatsExplorer.Library.Slots
import Mathlib.Algebra.Order.Group.Unbundled.Int
import Mathlib.Data.Fin.VecNotation
import Mathlib.Data.Fintype.Basic
import Mathlib.Data.Multiset.Filter
import Mathlib.Order.Bounds.Basic
import Mathlib.Data.Rat.Cast.Order

/-! What the totals of a window count. A bucket holds the messages of its slot that no later
message put out of the ring; the sixty buckets are a little narrower than the window together
when its length is no multiple of three seconds. -/
namespace NatsExplorer.Alerts
open Go Slots

/-- Values as exact rationals. -/
@[reducible] def exact (format : ℚ → Int → Str) : Numbers ℚ where
  zero := 0
  add := (· + ·)
  lt a b := decide (a < b)
  mean sum n := sum / n
  ofInt n := n
  finite _ := true
  whole f := if f.den = 1 ∧ f.num.natAbs < 10 ^ 15 then some f.num else none
  format := format

/-- The values of the messages that carry one. -/
def values (ms : Multiset (Option ℚ)) : Multiset ℚ := ms.filterMap id

/-- The totals are those of the messages. -/
structure Tallies (t : Totals ℚ) (ms : Multiset (Option ℚ)) : Prop where
  count : t.count = ms.card
  n : t.n = (values ms).card
  sum : t.sum = (values ms).sum
  min : values ms ≠ 0 → IsLeast {v | v ∈ values ms} t.min
  max : values ms ≠ 0 → IsGreatest {v | v ∈ values ms} t.max

/-- The width of a bucket, in milliseconds. -/
def width (seconds : Nat) : Nat := max 1 (seconds * 1000 / winBuckets)

section Window
variable [Numbers ℚ] {n : Nat} (seconds : Nat) (ts : Fin n → Nat) (vs : Fin n → Option ℚ)

/-- The window after some messages. -/
def windowOf (l : List (Fin n)) : Window ℚ := l.foldl (fun w i => w.add (ts i) (vs i)) (newWindow seconds)

/-- What the window says at `now`, all the messages in it. -/
def totalsAt (now : Nat) : Totals ℚ := (windowOf seconds ts vs (List.finRange n)).totals now (seconds * 1000 : Nat)

/-- Whatever the messages carry, the totals are those of one set: a message that is younger than the
window by more than a bucket is in it, and none that is older by a bucket. -/
def BucketAccurate (now : Nat) : Prop :=
  ∃ counted : Finset (Fin n),
    (∀ i, now + width seconds < seconds * 1000 + ts i → i ∈ counted) ∧
    (∀ i ∈ counted, now < seconds * 1000 + width seconds + ts i) ∧
    ∀ vs, Tallies (totalsAt seconds ts vs now) (counted.val.map vs)

/-- The slot a message falls into. -/
def slotOf (i : Fin n) : Nat := ts i / width seconds

end Window

/-- What is told of two parts of the messages. -/
def Totals.join [Numbers ℚ] (t t' : Totals ℚ) : Totals ℚ :=
  let t := { t with count := t.count + t'.count }
  if 0 < t'.n then { t with
      min := if t.n = 0 || Numbers.lt t'.min t.min then t'.min else t.min
      max := if t.n = 0 || Numbers.lt t.max t'.max then t'.max else t.max
      sum := Numbers.add t.sum t'.sum
      n := t.n + t'.n }
  else t

def Bucket.totals (b : Bucket ℚ) : Totals ℚ := ⟨b.count, b.n, b.sum, b.min, b.max⟩

theorem values_add (ms ms' : Multiset (Option ℚ)) : values (ms + ms') = values ms + values ms' :=
  Multiset.filterMap_add id ms ms'

/-- The least of two parts, the first of which may be empty. -/
theorem isLeast_add {α : Type*} [LinearOrder α] {s s' : Multiset α} {a b : α}
    (first : s ≠ 0 → IsLeast {v | v ∈ s} a) (second : IsLeast {v | v ∈ s'} b) {pick : Prop} [Decidable pick]
    (when : pick ↔ s = 0 ∨ b < a) : IsLeast {v | v ∈ s + s'} (if pick then b else a) := by
  simp only [Multiset.mem_add]
  by_cases empty : s = 0
  · rw [if_pos (when.mpr (.inl empty))]
    subst empty
    exact ⟨.inr second.1, fun v member => second.2 (member.resolve_left (Multiset.notMem_zero v))⟩
  · obtain ⟨least, below⟩ := first empty
    by_cases less : b < a
    · rw [if_pos (when.mpr (.inr less))]
      exact ⟨.inr second.1, fun v member => member.elim (fun member => less.le.trans (below member)) (second.2 ·)⟩
    · rw [if_neg fun second => (when.mp second).elim empty less]
      exact ⟨.inl least, fun v member => member.elim (below ·) fun member => (not_lt.mp less).trans (second.2 member)⟩

section Exact
variable (format : ℚ → Int → Str)

theorem Tallies.empty : let _ := exact format
    Tallies ⟨0, 0, Numbers.zero, Numbers.zero, Numbers.zero⟩ 0 where
  count := rfl
  n := rfl
  sum := rfl
  min some := absurd rfl some
  max some := absurd rfl some

theorem Tallies.n_eq_zero {t : Totals ℚ} {ms : Multiset (Option ℚ)} (tallies : Tallies t ms) :
    t.n = 0 ↔ values ms = 0 := by
  rw [tallies.n, Int.natCast_eq_zero, Multiset.card_eq_zero]

theorem Tallies.join {t t' : Totals ℚ} {ms ms' : Multiset (Option ℚ)} (tallies : Tallies t ms)
    (tallies' : Tallies t' ms') : let _ := exact format
    Tallies (t.join t') (ms + ms') := by
  intro _
  have counts : t.count + t'.count = ((ms + ms').card : Int) := by
    rw [tallies.count, tallies'.count, Multiset.card_add, Nat.cast_add]
  by_cases some : 0 < t'.n
  · have carried : values ms' ≠ 0 := fun none => some.ne' (tallies'.n_eq_zero.mpr none)
    unfold Totals.join
    rw [if_pos some]
    refine ⟨counts, ?_, ?_, fun _ => ?_, fun _ => ?_⟩
    · change t.n + t'.n = _
      rw [values_add, tallies.n, tallies'.n, Multiset.card_add, Nat.cast_add]
    · change t.sum + t'.sum = _
      rw [values_add, tallies.sum, tallies'.sum, Multiset.sum_add]
    · rw [values_add]
      refine isLeast_add tallies.min (tallies'.min carried) ?_
      rw [Bool.or_eq_true, decide_eq_true_iff, tallies.n_eq_zero]
      exact or_congr_right decide_eq_true_iff
    · rw [values_add]
      refine @isLeast_add ℚᵒᵈ _ _ _ _ _ tallies.max (tallies'.max carried) _ _ ?_
      rw [Bool.or_eq_true, decide_eq_true_iff, tallies.n_eq_zero]
      exact or_congr_right decide_eq_true_iff
  · have nothing : values ms' = 0 := by
      refine tallies'.n_eq_zero.mp (le_antisymm (not_lt.mp some) ?_)
      rw [tallies'.n]
      exact Int.natCast_nonneg _
    unfold Totals.join
    rw [if_neg some]
    have same : values (ms + ms') = values ms := by rw [values_add, nothing, add_zero]
    exact ⟨counts, same ▸ tallies.n, same ▸ tallies.sum, same ▸ tallies.min, same ▸ tallies.max⟩

/-- A message joins those of its bucket. -/
theorem Bucket.tallies_add {b : Bucket ℚ} {ms : Multiset (Option ℚ)} (tallies : Tallies b.totals ms) (v : Option ℚ) :
    let _ := exact format
    Tallies (b.add v).totals (ms + {v}) := by
  intro _
  cases v with
  | none =>
    have own : Tallies ⟨1, 0, 0, 0, 0⟩ {none} := ⟨rfl, rfl, rfl, fun some => absurd rfl some, fun some => absurd rfl some⟩
    exact tallies.join format own
  | some v =>
    have own : Tallies ⟨1, 1, v, v, v⟩ {some v} := by
      have one : values {some v} = {v} := rfl
      refine ⟨rfl, rfl, ?_, fun _ => ?_, fun _ => ?_⟩
      · rw [one, Multiset.sum_singleton]
      · rw [one]
        exact ⟨Multiset.mem_singleton_self v, fun w member => (Multiset.mem_singleton.mp member).ge⟩
      · rw [one]
        exact ⟨Multiset.mem_singleton_self v, fun w member => (Multiset.mem_singleton.mp member).le⟩
    exact tallies.join format own

section Contents
variable {n : Nat} (seconds : Nat) (ts : Fin n → Nat) (vs : Fin n → Option ℚ)

/-- A bucket with messages of one slot. -/
def Bucket.of [Numbers ℚ] (ms : List (Fin n)) : Bucket ℚ :=
  ms.foldl (fun b i => b.add (vs i)) (.new (ms.head?.elim 0 fun i => (slotOf seconds ts i : Int)))

variable {seconds ts vs}

theorem Bucket.start_add [Numbers ℚ] (b : Bucket ℚ) (v : Option ℚ) : (b.add v).start = b.start := by
  cases v <;> rfl

theorem Bucket.of_start [Numbers ℚ] (ms : List (Fin n)) :
    (Bucket.of seconds ts vs ms).start = ms.head?.elim 0 fun i => (slotOf seconds ts i : Int) := by
  have fold (b : Bucket ℚ) : (ms.foldl (fun b i => b.add (vs i)) b).start = b.start := by
    induction ms generalizing b with
    | nil => rfl
    | cons i ms ih => rw [List.foldl_cons, ih, Bucket.start_add]
  exact fold _

theorem Bucket.of_tallies (ms : List (Fin n)) : let _ := exact format
    Tallies (Bucket.of seconds ts vs ms).totals ((ms : Multiset (Fin n)).map vs) := by
  intro _
  have fold {b : Bucket ℚ} {s : Multiset (Option ℚ)} (tallies : Tallies b.totals s) :
      Tallies (ms.foldl (fun b i => b.add (vs i)) b).totals (s + (ms : Multiset (Fin n)).map vs) := by
    induction ms generalizing b s with
    | nil => simpa using tallies
    | cons i ms ih =>
      have next := ih (Bucket.tallies_add format tallies (vs i))
      rwa [← Multiset.cons_coe, Multiset.map_cons, ← Multiset.singleton_add, ← add_assoc]
  have all := fold (b := .new (ms.head?.elim 0 fun i => (slotOf seconds ts i : Int))) (s := 0) (Tallies.empty format)
  rwa [zero_add] at all

/-- A bucket that stands for its slot goes on, another starts again. -/
theorem Bucket.of_held [Numbers ℚ] (l : List (Fin n)) (m : Fin n) :
    let i := slotOf seconds ts m % winBuckets
    let b := Bucket.of seconds ts vs (held (slotOf seconds ts) winBuckets l i)
    Bucket.of seconds ts vs (held (slotOf seconds ts) winBuckets (l ++ [m]) i) =
      (if b.start = (slotOf seconds ts m : Int) then b else .new (slotOf seconds ts m : Int)).add (vs m) := by
  intro i b
  have alone : Bucket.of seconds ts vs [m] = (Bucket.new (slotOf seconds ts m : Int)).add (vs m) := rfl
  rcases eq : held (slotOf seconds ts) winBuckets l i with _ | ⟨first, rest⟩
  · have fresh : held (slotOf seconds ts) winBuckets (l ++ [m]) i = [m] :=
      held_new fun m' member => absurd (eq ▸ member) List.not_mem_nil
    have start : b.start = 0 := by rw [Bucket.of_start, eq, List.head?_nil, Option.elim_none]
    rw [fresh, alone]
    by_cases zero : (0 : Int) = slotOf seconds ts m
    · rw [if_pos (start.trans zero), show b = Bucket.new 0 by simp only [b, eq]; rfl, ← zero]
    · rw [if_neg fun same => zero (start.symm.trans same)]
  · have own : ∀ m' ∈ held (slotOf seconds ts) winBuckets l i, slotOf seconds ts m' = slotOf seconds ts first :=
      fun m' member => slot_eq member (eq ▸ List.mem_cons_self)
    have start : b.start = slotOf seconds ts first := by rw [Bucket.of_start, eq, List.head?_cons, Option.elim_some]
    by_cases same : slotOf seconds ts first = slotOf seconds ts m
    · have joins : held (slotOf seconds ts) winBuckets (l ++ [m]) i = first :: (rest ++ [m]) := by
        rw [← List.cons_append, ← eq]
        exact held_same fun m' member => (own m' member).trans same
      rw [if_pos (start.trans (congrArg Nat.cast same)), joins]
      simp only [b, eq, Bucket.of, List.head?_cons, List.foldl_cons, List.foldl_append, List.foldl_nil]
    · have fresh : held (slotOf seconds ts) winBuckets (l ++ [m]) i = [m] :=
        held_new fun m' member both => same ((own m' member).symm.trans both)
      rw [fresh, alone, if_neg fun both => same (Int.natCast_inj.mp (start.symm.trans both))]

theorem windowOf_append [Numbers ℚ] (l : List (Fin n)) (m : Fin n) :
    windowOf seconds ts vs (l ++ [m]) = (windowOf seconds ts vs l).add (ts m) (vs m) := by
  rw [windowOf, List.foldl_append]
  rfl

theorem windowOf_size [Numbers ℚ] (l : List (Fin n)) : (windowOf seconds ts vs l).size = (width seconds : Int) := by
  induction l using List.reverseRecOn with
  | nil =>
    have wide : ((seconds : Int) * 1000).tdiv winBuckets = ((seconds * 1000 / winBuckets : Nat) : Int) := by
      rw [Int.natCast_ediv, Nat.cast_mul, Int.tdiv_eq_ediv_of_nonneg (Int.mul_nonneg (Int.natCast_nonneg _) (by decide))]
      rfl
    change max 1 _ = _
    rw [wide, width, Nat.cast_max]
    rfl
  | append_singleton l m ih =>
    rw [windowOf_append]
    exact ih

/-- The ring: every place with what nothing put out of it. -/
theorem windowOf_b [Numbers ℚ] (l : List (Fin n)) : (windowOf seconds ts vs l).b =
    (List.range winBuckets).map fun i => Bucket.of seconds ts vs (held (slotOf seconds ts) winBuckets l i) := by
  induction l using List.reverseRecOn with
  | nil =>
    refine (List.eq_replicate_iff.mpr ⟨by rw [List.length_map, List.length_range], fun b member => ?_⟩).symm
    obtain ⟨i, _, rfl⟩ := List.mem_map.mp member
    rfl
  | append_singleton l m ih =>
    have slot : (ts m : Int).tdiv (windowOf seconds ts vs l).size = (slotOf seconds ts m : Int) := by
      rw [windowOf_size, ← Int.ofNat_tdiv]
      rfl
    have place : (((ts m : Int).tdiv (windowOf seconds ts vs l).size).tmod winBuckets).toNat =
        slotOf seconds ts m % winBuckets := by
      rw [slot, ← Int.ofNat_tmod, Int.toNat_natCast]
    rw [windowOf_append]
    simp only [Window.add]
    rw [place, slot, ih]
    refine List.ext_getElem (by simp only [List.length_modify, List.length_map]) fun i _ _ => ?_
    rw [List.getElem_modify, List.getElem_map, List.getElem_map, List.getElem_range]
    by_cases here : slotOf seconds ts m % winBuckets = i
    · subst here
      rw [if_pos rfl]
      exact (Bucket.of_held l m).symm
    · rw [if_neg here, held_other here]

/-- The messages whose bucket is in the window, and still there. -/
def counted (seconds : Nat) (ts : Fin n → Nat) (now : Nat) : Finset (Fin n) :=
  Finset.univ.filter fun i => (∀ j, i < j → ¬ Clash (slotOf seconds ts) winBuckets i j) ∧
    ((now : Int) - (seconds * 1000 : Nat)).tdiv (width seconds) ≤ slotOf seconds ts i

theorem counted_eq (now : Nat) : (counted seconds ts now).val =
    ((kept (slotOf seconds ts) winBuckets (List.finRange n) : Multiset (Fin n)).filter fun i =>
      ((now : Int) - (seconds * 1000 : Nat)).tdiv (width seconds) ≤ slotOf seconds ts i) := by
  have sorted := List.pairwise_lt_finRange n
  have distinct : (kept (slotOf seconds ts) winBuckets (List.finRange n) : Multiset (Fin n)).Nodup :=
    (List.nodup_finRange n).sublist (kept_sublist _)
  refine (Multiset.Nodup.ext (counted seconds ts now).nodup (distinct.filter _)).mpr fun i => ?_
  rw [Finset.mem_val, counted, Finset.mem_filter_univ, Multiset.mem_filter, Multiset.mem_coe, mem_kept sorted]
  simp only [List.mem_finRange, true_and, forall_const]

/-- One bucket more, when it is in the window. -/
theorem Tallies.bucket {t : Totals ℚ} {ms ms' : Multiset (Option ℚ)} {b : Bucket ℚ} (tallies : Tallies t ms)
    (bucket : Tallies b.totals ms') (outside : Prop) [Decidable outside] : let _ := exact format
    Tallies (if outside ∨ (b.count = 0 ∧ b.n = 0) then t else t.join b.totals) (ms + if outside then 0 else ms') := by
  intro _
  by_cases out : outside
  · rw [if_pos (.inl out), if_pos out, add_zero]
    exact tallies
  · rw [if_neg out]
    by_cases empty : b.count = 0 ∧ b.n = 0
    · have nothing : ms' = 0 := Multiset.card_eq_zero.mp (Int.natCast_eq_zero.mp (bucket.count.symm.trans empty.1))
      rw [if_pos (.inr empty), nothing, add_zero]
      exact tallies
    · rw [if_neg (not_or.mpr ⟨out, empty⟩)]
      exact tallies.join format bucket

theorem Window.totals_tallies {w : Window ℚ} {bs : Nat → Bucket ℚ} {ms : Nat → Multiset (Option ℚ)}
    (buckets : w.b = (List.range winBuckets).map bs) (each : ∀ i, Tallies (bs i).totals (ms i)) (now windowMs : Int) :
    let _ := exact format
    Tallies (w.totals now windowMs) (∑ i ∈ Finset.range winBuckets,
      if (bs i).start < (now - windowMs).tdiv w.size ∨ now.tdiv w.size < (bs i).start then 0 else ms i) := by
  intro _
  have fold (l : List Nat) {t : Totals ℚ} {s : Multiset (Option ℚ)} (tallies : Tallies t s) :
      Tallies ((l.map bs).foldl (fun t b =>
        if (b.start < (now - windowMs).tdiv w.size ∨ now.tdiv w.size < b.start) ∨ (b.count = 0 ∧ b.n = 0) then t
        else t.join b.totals) t) (s + (l.map fun i =>
          if (bs i).start < (now - windowMs).tdiv w.size ∨ now.tdiv w.size < (bs i).start then 0 else ms i).sum) := by
    induction l generalizing t s with
    | nil => rwa [List.map_nil, List.foldl_nil, List.map_nil, List.sum_nil, add_zero]
    | cons i l ih =>
      rw [List.map_cons, List.foldl_cons, List.map_cons, List.sum_cons, ← add_assoc]
      exact ih (tallies.bucket format (each i) _)
  have all := fold (List.range winBuckets) (Tallies.empty format)
  rw [zero_add, ← buckets] at all
  unfold Window.totals
  simp only [← or_assoc]
  exact all

/-- A bucket is in the window when its messages are. -/
theorem Bucket.inside [Numbers ℚ] {now : Nat} (last : ∀ i, ts i ≤ now) (first : Int) (l : List (Fin n)) (i : Nat) :
    (if (Bucket.of seconds ts vs (held (slotOf seconds ts) winBuckets l i)).start < first ∨
        (now : Int).tdiv (width seconds) < (Bucket.of seconds ts vs (held (slotOf seconds ts) winBuckets l i)).start
      then 0 else (held (slotOf seconds ts) winBuckets l i : Multiset (Fin n)).map vs) =
    ((held (slotOf seconds ts) winBuckets l i : Multiset (Fin n)).filter fun m => first ≤ slotOf seconds ts m).map vs := by
  rcases eq : held (slotOf seconds ts) winBuckets l i with _ | ⟨m, rest⟩
  · exact ite_self _
  · have start : (Bucket.of seconds ts vs (m :: rest)).start = slotOf seconds ts m := Bucket.of_start (m :: rest)
    have past : ¬ (now : Int).tdiv (width seconds) < slotOf seconds ts m := by
      rw [← Int.ofNat_tdiv, Int.ofNat_lt, not_lt]
      exact Nat.div_le_div_right (last m)
    have own : ∀ m' ∈ (m :: rest : Multiset (Fin n)), slotOf seconds ts m' = slotOf seconds ts m :=
      fun m' member => slot_eq (eq ▸ member) (eq ▸ List.mem_cons_self)
    rw [start]
    by_cases before : (slotOf seconds ts m : Int) < first
    · rw [if_pos (.inl before), Multiset.filter_eq_nil.mpr fun m' member => not_le.mpr (own m' member ▸ before)]
      rfl
    · rw [if_neg (not_or.mpr ⟨before, past⟩), Multiset.filter_eq_self.mpr fun m' member => own m' member ▸ not_lt.mp before]

/-- What the window tells is about the messages that count. -/
theorem totalsAt_tallies {now : Nat} (last : ∀ i, ts i ≤ now) : let _ := exact format
    Tallies (totalsAt seconds ts vs now) ((counted seconds ts now).val.map vs) := by
  intro _
  have tallies := Window.totals_tallies format (@windowOf_b n seconds ts vs _ (List.finRange n))
    (fun i => Bucket.of_tallies format _) now (seconds * 1000 : Nat)
  simp only [windowOf_size, Bucket.inside last] at tallies
  let carried : Multiset (Fin n) →+ Multiset (Option ℚ) :=
    { toFun ms := (ms.filter fun m => ((now : Int) - (seconds * 1000 : Nat)).tdiv (width seconds) ≤ slotOf seconds ts m).map vs
      map_zero' := rfl
      map_add' ms ms' := by rw [Multiset.filter_add, Multiset.map_add] }
  have parts := map_sum carried (fun i => (held (slotOf seconds ts) winBuckets (List.finRange n) i : Multiset (Fin n)))
    (Finset.range winBuckets)
  rw [sum_held (by decide)] at parts
  rw [counted_eq]
  change Tallies _ (carried (kept (slotOf seconds ts) winBuckets (List.finRange n) : Multiset (Fin n)))
  rw [parts]
  exact tallies

end Contents

section Accurate
variable {n : Nat} {seconds : Nat} {ts : Fin n → Nat} {now : Nat}

theorem width_pos (seconds : Nat) : 0 < width seconds := Nat.lt_of_lt_of_le Nat.zero_lt_one (Nat.le_max_left _ _)

theorem first_eq (enough : seconds * 1000 ≤ now) :
    ((now : Int) - (seconds * 1000 : Nat)).tdiv (width seconds) = ((now - seconds * 1000) / width seconds : Nat) := by
  rw [← Nat.cast_sub enough, ← Int.ofNat_tdiv]

/-- A message that is in the window is not older than it by a bucket. -/
theorem age_lt {i : Fin n} (member : i ∈ counted seconds ts now) : now < seconds * 1000 + width seconds + ts i := by
  obtain ⟨-, inside⟩ := (Finset.mem_filter_univ i).mp member
  by_contra old
  rw [first_eq (by omega), Int.ofNat_le, slotOf] at inside
  have later : ts i / width seconds + 1 ≤ (now - seconds * 1000) / width seconds := by
    rw [← Nat.add_div_right _ (width_pos seconds)]
    exact Nat.div_le_div_right (by omega)
  omega

/-- The bucket of a message that is younger than the window by more than a bucket is in it. -/
theorem first_le {i : Fin n} (young : now + width seconds < seconds * 1000 + ts i) :
    ((now : Int) - (seconds * 1000 : Nat)).tdiv (width seconds) ≤ slotOf seconds ts i := by
  by_cases short : now < seconds * 1000
  · refine le_trans ?_ (Int.natCast_nonneg _)
    rw [← Int.neg_nonneg, ← Int.neg_tdiv]
    exact Int.tdiv_nonneg (by omega) (Int.natCast_nonneg _)
  · rw [first_eq (not_lt.mp short), Int.ofNat_le, slotOf]
    exact Nat.div_le_div_right (by omega)

/-- With a value in one message alone, the number of values says whether it is counted. -/
theorem told_alone {i : Fin n} {set : Finset (Fin n)} {t : Totals ℚ}
    (tallies : Tallies t (set.val.map fun j => if j = i then some 1 else none)) : t.n = 0 ↔ i ∉ set := by
  rw [tallies.n_eq_zero]
  constructor
  · intro none member
    have own : (1 : ℚ) ∈ values (set.val.map fun j => if j = i then some 1 else .none) :=
      (Multiset.mem_filterMap id _).mpr ⟨some 1, Multiset.mem_map.mpr ⟨i, member, if_pos rfl⟩, rfl⟩
    exact Multiset.notMem_zero 1 (none ▸ own)
  · intro missing
    refine Multiset.eq_zero_of_forall_notMem fun v member => ?_
    obtain ⟨_, carried, eq⟩ := (Multiset.mem_filterMap id _).mp member
    obtain ⟨j, its, rfl⟩ := Multiset.mem_map.mp carried
    by_cases same : j = i
    · exact missing (same ▸ its)
    · rw [if_neg same] at eq
      cases eq

theorem kept_of_accurate (last : ∀ i, ts i ≤ now) : let _ := exact format
    BucketAccurate seconds ts now →
      ∀ i, now + width seconds < seconds * 1000 + ts i → ∀ j, i < j → ¬ Clash (slotOf seconds ts) winBuckets i j := by
  rintro _ ⟨set, young, -, tallies⟩ i its j later put
  have told := (told_alone (tallies fun j => if j = i then some 1 else none)).not_left.mpr (young i its)
  have out : i ∉ counted seconds ts now := fun member => ((Finset.mem_filter_univ i).mp member).1 j later put
  exact told ((told_alone (totalsAt_tallies format last)).mpr out)

theorem accurate_of_kept (last : ∀ i, ts i ≤ now)
    (keeps : ∀ i, now + width seconds < seconds * 1000 + ts i → ∀ j, i < j → ¬ Clash (slotOf seconds ts) winBuckets i j) :
    let _ := exact format
    BucketAccurate seconds ts now := by
  refine ⟨counted seconds ts now, fun i young => ?_, fun i member => age_lt member, fun vs => totalsAt_tallies format last⟩
  exact (Finset.mem_filter_univ i).mpr ⟨keeps i young, first_le young⟩

/-- The totals are accurate to a bucket when the young messages keep their places. -/
theorem totals_accurate (format : ℚ → Int → Str) {seconds n : Nat} {ts : Fin n → Nat} {now : Nat} (last : ∀ i, ts i ≤ now) :
    let _ := exact format
    BucketAccurate seconds ts now ↔
      ∀ i, now + width seconds < seconds * 1000 + ts i → ∀ j, i < j → ¬ Clash (slotOf seconds ts) winBuckets i j :=
  ⟨kept_of_accurate format last, accurate_of_kept format last⟩

theorem totals_accurate_beat : let _ := exact fun _ _ => []
    BucketAccurate 60 ![1000, 2000, 61000] 61000 :=
  (totals_accurate (fun _ _ => []) (by decide)).mpr (by decide)

/-- A message of 945 ms ago is out of a window of a second. -/
theorem totals_short : let _ := exact fun _ _ => []
    ¬ BucketAccurate 1 ![15, 960] 960 := by
  intro _ accurate
  have keeps := kept_of_accurate (fun _ _ => []) (by decide) accurate
  exact keeps 0 (by decide) 1 (by decide) (by decide)

/-- Sixty buckets are as wide as a window of a multiple of three seconds. -/
theorem accurate_of_thirds (format : ℚ → Int → Str) {seconds : Nat} (whole : 3 ∣ seconds) (ordered : Monotone ts)
    (last : ∀ i, ts i ≤ now) : let _ := exact format
    BucketAccurate seconds ts now := by
  refine accurate_of_kept format last fun i young j later ⟨place, other⟩ => ?_
  obtain ⟨k, rfl⟩ := whole
  have some := last i
  have wide : width (3 * k) = 50 * k := by
    rw [width, winBuckets] at young ⊢
    omega
  have after : slotOf (3 * k) ts i ≤ slotOf (3 * k) ts j := Nat.div_le_div_right (ordered later.le)
  have far : slotOf (3 * k) ts i + winBuckets ≤ slotOf (3 * k) ts j := by
    rw [winBuckets] at place ⊢
    omega
  have spread := Nat.mul_le_mul_right (width (3 * k)) far
  have since : ts i < slotOf (3 * k) ts i * width (3 * k) + width (3 * k) := Nat.lt_div_mul_add (width_pos (3 * k))
  have until_ : slotOf (3 * k) ts j * width (3 * k) ≤ ts j := Nat.div_mul_le_self _ _
  have now_ := last j
  rw [Nat.add_mul, winBuckets] at spread
  omega

theorem accurate_of_thirds_beat : let _ := exact fun _ _ => []
    BucketAccurate 60 ![1000, 2000, 61000] 61000 :=
  accurate_of_thirds (fun _ _ => []) (by decide) (fun i j => by revert i j; decide) (by decide)

end Accurate
end Exact
end NatsExplorer.Alerts
