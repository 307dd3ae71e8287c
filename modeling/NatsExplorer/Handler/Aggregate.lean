import NatsExplorer.Library.Cutting
import Mathlib.Data.Finset.Max
import Mathlib.Order.Bounds.Basic
import Mathlib.Order.Fin.Basic
import Mathlib.Tactic.Positivity
import Mathlib.Tactic.Linarith

/-! How a chart reduces its samples (`internal/handler/aggregate.go`), over exact rationals: no division gives an infinite
value or none at all. -/
namespace NatsExplorer.Handler.Chart
open Cutting

/-- A sample: milliseconds and value. -/
structure Sample where
  time : ℚ
  value : ℚ
  deriving DecidableEq

inductive Aggregation where
  | minmax | avg | min | max | sum | count | rate
  deriving DecidableEq

/-- A group of samples, never empty. -/
structure Bucket where
  samples : List Sample
  kept : samples ≠ []

def Bucket.last (b : Bucket) : Sample := b.samples.getLast b.kept

/-- `int(float64(b) * size)` -/
def cut (size : ℚ) (b : ℕ) : ℕ := ⌊(b : ℚ) * size⌋₊

theorem le_cut {size : ℚ} (large : 1 ≤ size) (b : ℕ) : b ≤ cut size b := (Cuts.scaled size large).le_position b

/-- The loop of `buckets`. A bucket takes up a sample at least, so that the samples are used up. -/
def bucketsFrom (samples : List Sample) (size : ℚ) (large : 1 ≤ size) (b : ℕ) : List Bucket :=
  if samples.length ≤ cut size b then []
  else if nonempty : cut size b < min (cut size (b + 1)) samples.length then
    ⟨slice samples (cut size b) (min (cut size (b + 1)) samples.length),
      slice_ne_nil nonempty (nonempty.trans_le (min_le_right _ _))⟩ :: bucketsFrom samples size large (b + 1)
  else bucketsFrom samples size large (b + 1)
termination_by samples.length - b
decreasing_by
  all_goals
    have := le_cut large b
    omega

/-- The samples to a bucket, never less than one. -/
def bucketSize (samples : List Sample) (n : ℤ) : ℚ :=
  if (samples.length : ℚ) / n < 1 then 1 else samples.length / n

theorem one_le_bucketSize (samples : List Sample) (n : ℤ) : 1 ≤ bucketSize samples n := by
  unfold bucketSize
  split
  · exact le_rfl
  · next large => exact not_lt.mp large

def buckets (samples : List Sample) (n : ℤ) : List Bucket :=
  bucketsFrom samples (bucketSize samples n) (one_le_bucketSize samples n) 0

/-- The positions of the extremes of a bucket, and its sum, as far as it was gone through. -/
structure Extremes (b : Bucket) where
  lo : Fin b.samples.length
  hi : Fin b.samples.length
  sum : ℚ

def Extremes.step {b : Bucket} (e : Extremes b) (i : Fin b.samples.length) : Extremes b where
  lo := if b.samples[i].value < b.samples[e.lo].value then i else e.lo
  hi := if b.samples[e.hi].value < b.samples[i].value then i else e.hi
  sum := e.sum + b.samples[i].value

def Bucket.extremes (b : Bucket) : Extremes b :=
  let first := ⟨0, List.length_pos_of_ne_nil b.kept⟩
  (List.finRange b.samples.length).foldl Extremes.step ⟨first, first, 0⟩

/-- The points that a bucket contributes. -/
def reduce (b : Bucket) (agg : Aggregation) : List Sample :=
  let e := b.extremes
  match agg with
  | .min => [b.samples[e.lo]]
  | .max => [b.samples[e.hi]]
  | .sum => [⟨b.last.time, e.sum⟩]
  | .count => [⟨b.last.time, b.samples.length⟩]
  | .avg => [⟨b.last.time, e.sum / b.samples.length⟩]
  | .minmax | .rate =>
    -- both extremes, in the order they occurred
    if e.lo = e.hi then [b.samples[e.lo]]
    else if e.lo < e.hi then [b.samples[e.lo], b.samples[e.hi]]
    else [b.samples[e.hi], b.samples[e.lo]]

/-- One sample to a bucket, the newest in it. -/
def bucketLast (samples : List Sample) (points : ℤ) : List Sample :=
  if points ≤ 0 ∨ (samples.length : ℤ) ≤ points then samples else (buckets samples points).map Bucket.last

/-- The change per second from one point to the next. -/
def rateOf : List Sample → List Sample
  | p :: q :: rest =>
    let dt := (q.time - p.time) / 1000
    if dt ≤ 0 then rateOf (q :: rest)
    else
      let dv := if q.value - p.value < 0 then 0 else q.value - p.value
      ⟨q.time, dv / dt⟩ :: rateOf (q :: rest)
  | _ => []

def aggregate (samples : List Sample) (points : ℤ) (agg : Aggregation) : List Sample :=
  if agg = .rate then rateOf (bucketLast samples points)
  else
    let points := if points ≤ 0 then 1 else points
    (buckets samples points).flatMap fun b => reduce b agg

def downsample (samples : List Sample) (points : ℤ) : List Sample := aggregate samples points .minmax

section Buckets
variable {samples : List Sample}

/-- A bucket is what lies between two cuts. -/
theorem bucketsFrom_samples {size : ℚ} (large : 1 ≤ size) (b : ℕ) :
    (bucketsFrom samples size large b).map Bucket.samples = (Cuts.scaled size large).piecesFrom samples b := by
  have rising := (Cuts.scaled size large).rising b.lt_succ_self
  fun_induction bucketsFrom samples size large b with
  | case1 b past => exact ((Cuts.scaled size large).piecesFrom_of_le past).symm
  | case2 b within nonempty ih =>
    rw [Cuts.piecesFrom_of_lt _ (not_le.mp within), List.map_cons, ih ((Cuts.scaled size large).rising (b + 1).lt_succ_self)]
    exact congrArg (· :: _) slice_clipped
  | case3 b within empty ih => exact absurd (lt_min rising (not_le.mp within)) empty

/-- The buckets are the samples, in order. -/
theorem buckets_flatten (samples : List Sample) (n : ℤ) : ((buckets samples n).map Bucket.samples).flatten = samples := by
  rw [buckets, bucketsFrom_samples]
  exact Cuts.pieces_flatten _

theorem bucketSize_quotient {n : ℕ} (positive : 0 < n) (more : n < samples.length) :
    bucketSize samples n = (samples.length : ℚ) / n := by
  have large : 1 ≤ (samples.length : ℚ) / n :=
    (one_le_div (Nat.cast_pos.mpr positive)).mpr (Nat.cast_le.mpr more.le)
  rw [bucketSize, Int.cast_natCast, if_neg (not_lt.mpr large)]

/-- Where the cuts are when there are more samples than buckets. -/
theorem buckets_quotient {n : ℕ} (positive : 0 < n) (more : n < samples.length) :
    (buckets samples n).map Bucket.samples =
      (List.range n).map fun b => slice samples (b * samples.length / n) ((b + 1) * samples.length / n) := by
  have size := bucketSize_quotient positive more
  have large : 1 ≤ (samples.length : ℚ) / n := size ▸ one_le_bucketSize samples n
  have full : (Cuts.scaled _ large).position n = samples.length := by
    rw [Cuts.scaled_quotient, Nat.mul_div_cancel_left _ positive]
  rw [buckets, bucketsFrom_samples]
  simp only [size]
  refine (Cuts.pieces_full _ full).trans (List.map_congr_left fun b _ => ?_)
  rw [Cuts.scaled_quotient, Cuts.scaled_quotient]

theorem buckets_length {n : ℤ} (positive : 1 ≤ n) : ((buckets samples n).length : ℤ) ≤ n := by
  obtain ⟨n, rfl⟩ := Int.eq_ofNat_of_zero_le (zero_le_one.trans positive)
  rcases lt_or_ge n samples.length with more | few
  · have count := congrArg List.length (buckets_quotient (by omega : 0 < n) more)
    rw [List.length_map, List.length_map, List.length_range] at count
    exact_mod_cast count.le
  · have large := one_le_bucketSize samples n
    have count := (Cuts.scaled _ large).pieces_length (l := samples) (Cuts.le_position _ _)
    rw [Cuts.pieces, ← bucketsFrom_samples, List.length_map] at count
    exact_mod_cast count.trans few

end Buckets

section Reduced
variable {b : Bucket}

/-- Going on, the position of the least value stays one of no greater value, and so for the greatest. -/
theorem foldl_step (rest : List (Fin b.samples.length)) (e : Extremes b) :
    let e' := rest.foldl Extremes.step e
    (∀ i ∈ e.lo :: rest, b.samples[e'.lo].value ≤ b.samples[i].value) ∧
      (∀ i ∈ e.hi :: rest, b.samples[i].value ≤ b.samples[e'.hi].value) ∧
      e'.sum = e.sum + (rest.map fun i => b.samples[i].value).sum := by
  induction rest generalizing e with
  | nil => simp
  | cons i rest ih =>
    obtain ⟨least, greatest, sum⟩ := ih (e.step i)
    have low : b.samples[(e.step i).lo].value ≤ b.samples[e.lo].value ∧ b.samples[(e.step i).lo].value ≤ b.samples[i].value := by
      unfold Extremes.step
      dsimp only
      split
      · next less => exact ⟨less.le, le_rfl⟩
      · next more => exact ⟨le_rfl, not_lt.mp more⟩
    have high : b.samples[e.hi].value ≤ b.samples[(e.step i).hi].value ∧ b.samples[i].value ≤ b.samples[(e.step i).hi].value := by
      unfold Extremes.step
      dsimp only
      split
      · next more => exact ⟨more.le, le_rfl⟩
      · next less => exact ⟨le_rfl, not_lt.mp less⟩
    obtain ⟨least, later⟩ := List.forall_mem_cons.mp least
    obtain ⟨greatest, after⟩ := List.forall_mem_cons.mp greatest
    refine ⟨?_, ?_, ?_⟩
    · exact List.forall_mem_cons.mpr ⟨least.trans low.1, List.forall_mem_cons.mpr ⟨least.trans low.2, later⟩⟩
    · exact List.forall_mem_cons.mpr ⟨high.1.trans greatest, List.forall_mem_cons.mpr ⟨high.2.trans greatest, after⟩⟩
    · rw [List.foldl_cons, sum, List.map_cons, List.sum_cons, ← add_assoc]
      rfl

/-- The sample of least value, the first of them. -/
def Bucket.least (b : Bucket) : Sample := b.samples[b.extremes.lo]

def Bucket.greatest (b : Bucket) : Sample := b.samples[b.extremes.hi]

theorem least_mem : b.least ∈ b.samples := List.getElem_mem _

theorem greatest_mem : b.greatest ∈ b.samples := List.getElem_mem _

theorem least_le {s : Sample} (there : s ∈ b.samples) : b.least.value ≤ s.value := by
  obtain ⟨i, within, rfl⟩ := List.getElem_of_mem there
  exact (foldl_step _ _).1 ⟨i, within⟩ (List.mem_cons_of_mem _ (List.mem_finRange _))

theorem le_greatest {s : Sample} (there : s ∈ b.samples) : s.value ≤ b.greatest.value := by
  obtain ⟨i, within, rfl⟩ := List.getElem_of_mem there
  exact (foldl_step _ _).2.1 ⟨i, within⟩ (List.mem_cons_of_mem _ (List.mem_finRange _))

theorem extremes_sum : b.extremes.sum = (b.samples.map Sample.value).sum := by
  have total : b.extremes.sum = 0 + ((List.finRange b.samples.length).map fun i => b.samples[i].value).sum := (foldl_step _ _).2.2
  have all : ((List.finRange b.samples.length).map fun i => b.samples[i].value) = b.samples.map Sample.value := by
    conv_rhs => rw [← List.map_getElem_finRange b.samples, List.map_map]
    rfl
  rw [total, all, zero_add]

theorem reduce_min : reduce b .min = [b.least] := rfl

theorem reduce_max : reduce b .max = [b.greatest] := rfl

theorem reduce_sum : reduce b .sum = [⟨b.last.time, (b.samples.map Sample.value).sum⟩] := by
  rw [← extremes_sum]
  rfl

theorem reduce_count : reduce b .count = [⟨b.last.time, b.samples.length⟩] := rfl

theorem reduce_avg : reduce b .avg = [⟨b.last.time, (b.samples.map Sample.value).sum / b.samples.length⟩] := by
  rw [← extremes_sum]
  rfl

/-- Both extremes, in the order they stand in. -/
theorem reduce_minmax (b : Bucket) : (reduce b .minmax).Sublist b.samples ∧ (reduce b .minmax).length ≤ 2 ∧
    b.least ∈ reduce b .minmax ∧ b.greatest ∈ reduce b .minmax := by
  have inOrder {i j : Fin b.samples.length} (before : i < j) : [b.samples[i], b.samples[j]].Sublist b.samples := by
    have pair : [i, j].Pairwise (· < ·) := List.pairwise_pair.mpr before
    exact List.map_getElem_sublist pair
  have both : reduce b .minmax = if b.extremes.lo = b.extremes.hi then [b.least]
    else if b.extremes.lo < b.extremes.hi then [b.least, b.greatest] else [b.greatest, b.least] := rfl
  rw [both]
  split
  · next same =>
    have greatest : b.greatest = b.least := congrArg b.samples.get same.symm
    rw [greatest]
    exact ⟨List.singleton_sublist.mpr least_mem, Nat.le_succ 1, List.mem_singleton_self _, List.mem_singleton_self _⟩
  · next distinct =>
    split
    · next before => exact ⟨inOrder before, le_rfl, by simp, by simp⟩
    · next after => exact ⟨inOrder (lt_of_le_of_ne (not_lt.mp after) (Ne.symm distinct)), le_rfl, by simp, by simp⟩

end Reduced

section Aggregated
variable {samples : List Sample} {points : ℤ}

theorem aggregate_of_ne {agg : Aggregation} (reduced : agg ≠ .rate) (positive : 1 ≤ points) :
    aggregate samples points agg = (buckets samples points).flatMap fun b => reduce b agg := by
  rw [aggregate, if_neg reduced, if_neg (by omega)]

/-- One point to a bucket. -/
theorem aggregate_single {agg : Aggregation} {point : Bucket → Sample} (single : ∀ b, reduce b agg = [point b]) (reduced : agg ≠ .rate)
    (positive : 1 ≤ points) : aggregate samples points agg = (buckets samples points).map point := by
  rw [aggregate_of_ne reduced positive, funext single]
  exact List.map_eq_flatMap.symm

/-- Every sample is in a bucket. -/
theorem exists_bucket {s : Sample} (there : s ∈ samples) (n : ℤ) : ∃ b ∈ buckets samples n, s ∈ b.samples := by
  rw [← buckets_flatten samples n, List.mem_flatten] at there
  obtain ⟨group, mem, there⟩ := there
  obtain ⟨b, bucket, rfl⟩ := List.mem_map.mp mem
  exact ⟨b, bucket, there⟩

theorem exists_least {K : Type*} [LinearOrder K] (some : samples ≠ []) (f : Sample → K) :
    ∃ s ∈ samples, ∀ t ∈ samples, f s ≤ f t := by
  obtain ⟨s, there, least⟩ := samples.toFinset.exists_min_image f ((List.toFinset_nonempty_iff _).mpr some)
  exact ⟨s, List.mem_toFinset.mp there, fun t other => least t (List.mem_toFinset.mpr other)⟩

/-- What is added up in each bucket adds up to all of it. -/
theorem sum_buckets (samples : List Sample) (n : ℤ) (f : Sample → ℚ) :
    ((buckets samples n).map fun b => (b.samples.map f).sum).sum = (samples.map f).sum := by
  conv_rhs => rw [← buckets_flatten samples n, List.map_flatten, List.sum_flatten, List.map_map, List.map_map]
  rfl

/-- What the points of a chart say about its samples. -/
structure Kept (samples : List Sample) (points : ℤ) : Prop where
  whole : ((buckets samples points).map Bucket.samples).flatten = samples
  nonempty : ∀ b ∈ buckets samples points, b.samples ≠ []
  few : points < samples.length → ((buckets samples points).length : ℤ) ≤ points
  /-- `minmax` keeps samples, in their order. -/
  chosen : (aggregate samples points .minmax).Sublist samples
  inTime : (aggregate samples points .minmax).Pairwise fun p q => p.time ≤ q.time
  atMost : ((aggregate samples points .minmax).length : ℤ) ≤ 2 * points
  least : samples ≠ [] → ∃ p ∈ aggregate samples points .minmax, ∀ s ∈ samples, p.value ≤ s.value
  greatest : samples ≠ [] → ∃ p ∈ aggregate samples points .minmax, ∀ s ∈ samples, s.value ≤ p.value
  sum : ((aggregate samples points .sum).map Sample.value).sum = (samples.map Sample.value).sum
  count : ((aggregate samples points .count).map Sample.value).sum = samples.length
  /-- One point to a bucket. -/
  smallest : List.Forall₂ (fun b p => IsLeast {v | ∃ s ∈ b.samples, s.value = v} p.value) (buckets samples points)
    (aggregate samples points .min)
  largest : List.Forall₂ (fun b p => IsGreatest {v | ∃ s ∈ b.samples, s.value = v} p.value) (buckets samples points)
    (aggregate samples points .max)
  mean : List.Forall₂ (fun b p => p.value = (b.samples.map Sample.value).sum / (b.samples.length : ℚ)) (buckets samples points)
    (aggregate samples points .avg)

/-- A chart keeps what it promises. -/
theorem aggregate_kept (ordered : samples.Pairwise fun s t => s.time ≤ t.time) (positive : 1 ≤ points) : Kept samples points := by
  have extremes : aggregate samples points .minmax = (buckets samples points).flatMap fun b => reduce b .minmax :=
    aggregate_of_ne nofun positive
  have chosen : (aggregate samples points .minmax).Sublist samples := by
    have parts := flatMap_sublist fun b (_ : b ∈ buckets samples points) => (reduce_minmax b).1
    rwa [← extremes, buckets_flatten] at parts
  have few : ((buckets samples points).length : ℤ) ≤ points := buckets_length positive
  constructor
  case whole => exact buckets_flatten samples points
  case nonempty => exact fun b _ => b.kept
  case few => exact fun _ => few
  case chosen => exact chosen
  case inTime => exact ordered.sublist chosen
  case atMost =>
    have twice := flatMap_length fun b (_ : b ∈ buckets samples points) => (reduce_minmax b).2.1
    rw [← extremes] at twice
    omega
  case least =>
    intro some
    obtain ⟨s, there, least⟩ := exists_least some Sample.value
    obtain ⟨b, bucket, within⟩ := exists_bucket there points
    refine ⟨b.least, ?_, fun t other => (least_le within).trans (least t other)⟩
    rw [extremes]
    exact List.mem_flatMap.mpr ⟨b, bucket, (reduce_minmax b).2.2.1⟩
  case greatest =>
    intro some
    obtain ⟨s, there, greatest⟩ := exists_least some fun s => OrderDual.toDual s.value
    obtain ⟨b, bucket, within⟩ := exists_bucket there points
    refine ⟨b.greatest, ?_, fun t other => (OrderDual.toDual_le_toDual.mp (greatest t other)).trans (le_greatest within)⟩
    rw [extremes]
    exact List.mem_flatMap.mpr ⟨b, bucket, (reduce_minmax b).2.2.2⟩
  case sum =>
    rw [aggregate_single (fun _ => reduce_sum) nofun positive, List.map_map]
    exact sum_buckets samples points Sample.value
  case count =>
    have ones (l : List Sample) : (l.map fun _ => (1 : ℚ)).sum = l.length := by
      rw [List.map_const', List.sum_replicate, nsmul_eq_mul, mul_one]
    rw [aggregate_single (fun _ => reduce_count) nofun positive, List.map_map, ← ones, ← sum_buckets samples points]
    exact congrArg List.sum (List.map_congr_left fun b _ => (ones b.samples).symm)
  case smallest =>
    rw [aggregate_single (fun _ => reduce_min) nofun positive, List.forall₂_map_right_iff, List.forall₂_same]
    intro b _
    exact ⟨⟨b.least, least_mem, rfl⟩, fun v ⟨s, there, value⟩ => value ▸ least_le there⟩
  case largest =>
    rw [aggregate_single (fun _ => reduce_max) nofun positive, List.forall₂_map_right_iff, List.forall₂_same]
    intro b _
    exact ⟨⟨b.greatest, greatest_mem, rfl⟩, fun v ⟨s, there, value⟩ => value ▸ le_greatest there⟩
  case mean =>
    rw [aggregate_single (fun _ => reduce_avg) nofun positive, List.forall₂_map_right_iff, List.forall₂_same]
    exact fun _ _ => rfl

/-- Five samples in two buckets, of two and of three. -/
def flow : List Sample := [⟨0, 3⟩, ⟨10, 1⟩, ⟨10, 4⟩, ⟨20, 1⟩, ⟨30, 5⟩]

theorem aggregate_kept_flow : Kept flow 2 := aggregate_kept (by decide) (by decide)

end Aggregated

end NatsExplorer.Handler.Chart

/-! The rate of a counter that never decreases (`bucketLast` and `rateOf` in `internal/handler/aggregate.go`). What the curve
shows adds up to the growth, less what happened between neighbours of one time. -/
namespace NatsExplorer.Handler.Chart
open Cutting

/-- The point before each that a rate is computed for. -/
def computedAgainst : List Sample → List Sample
  | p :: q :: rest => if q.time ≤ p.time then computedAgainst (q :: rest) else p :: computedAgainst (q :: rest)
  | _ => []

/-- Each rate by the seconds it stands for, in all. -/
def area (rates against : List Sample) : ℚ := (List.zipWith (fun r p => r.value * ((r.time - p.time) / 1000)) rates against).sum

/-- From the first value to the last. -/
def growth : List Sample → ℚ
  | [] => 0
  | p :: rest => (rest.getLastD p).value - p.value

/-- The growth between neighbours of one time. -/
def missed : List Sample → ℚ
  | p :: q :: rest => (if q.time ≤ p.time then q.value - p.value else 0) + missed (q :: rest)
  | _ => 0

/-- Neighbours of one time have one value. -/
def Level (points : List Sample) : Prop := points.IsChain fun p q => p.time = q.time → p.value = q.value

/-- A counter as it is read: time goes on, and the value never decreases. -/
structure Counter (points : List Sample) : Prop where
  ordered : points.Pairwise fun p q => p.time ≤ q.time
  rising : points.Pairwise fun p q => p.value ≤ q.value

section Counters
variable {p q : Sample} {points rest : List Sample}

theorem Counter.sublist {l : List Sample} (counter : Counter points) (part : l.Sublist points) : Counter l where
  ordered := counter.ordered.sublist part
  rising := counter.rising.sublist part

theorem Counter.tail (counter : Counter (p :: rest)) : Counter rest := counter.sublist (List.sublist_cons_self p rest)

theorem Counter.next (counter : Counter (p :: q :: rest)) : p.time ≤ q.time ∧ p.value ≤ q.value :=
  ⟨List.rel_of_pairwise_cons counter.ordered List.mem_cons_self, List.rel_of_pairwise_cons counter.rising List.mem_cons_self⟩

theorem rateOf_cons : rateOf (p :: q :: rest) =
    if q.time ≤ p.time then rateOf (q :: rest)
    else ⟨q.time, max (q.value - p.value) 0 / ((q.time - p.time) / 1000)⟩ :: rateOf (q :: rest) := by
  have width : (q.time - p.time) / 1000 ≤ 0 ↔ q.time ≤ p.time := by
    rw [div_le_iff₀ (by norm_num), zero_mul, sub_nonpos]
  have gain : (if q.value - p.value < 0 then 0 else q.value - p.value) = max (q.value - p.value) 0 := by
    split
    · next less => exact (max_eq_right less.le).symm
    · next more => exact (max_eq_left (not_lt.mp more)).symm
  rw [rateOf]
  simp only [width, gain]

theorem rateOf_natural {r : Sample} (there : r ∈ rateOf points) : 0 ≤ r.value := by
  fun_induction computedAgainst points with
  | case1 p q rest same ih =>
    rw [rateOf_cons, if_pos same] at there
    exact ih there
  | case2 p q rest later ih =>
    rw [rateOf_cons, if_neg later] at there
    rcases List.mem_cons.mp there with rfl | there
    · have positive : 0 < q.time - p.time := sub_pos.mpr (not_le.mp later)
      positivity
    · exact ih there
  | case3 points short =>
    rw [rateOf] at there
    · cases there
    · exact short

theorem growth_cons (p q : Sample) (rest : List Sample) : growth (p :: q :: rest) = q.value - p.value + growth (q :: rest) := by
  rw [growth, growth, List.getLastD_cons]
  ring

/-- What the curve shows and what it misses are the growth. -/
theorem area_add_missed (counter : Counter points) : area (rateOf points) (computedAgainst points) + missed points = growth points := by
  fun_induction computedAgainst points with
  | case1 p q rest same ih =>
    rw [rateOf_cons, if_pos same, missed, if_pos same, growth_cons, ← ih counter.tail]
    ring
  | case2 p q rest later ih =>
    have positive : q.time - p.time ≠ 0 := (sub_pos.mpr (not_le.mp later)).ne'
    have gain : 0 ≤ q.value - p.value := sub_nonneg.mpr counter.next.2
    have own : (q.value - p.value) / ((q.time - p.time) / 1000) * ((q.time - p.time) / 1000) = q.value - p.value :=
      div_mul_cancel₀ _ (div_ne_zero positive (by norm_num))
    rw [rateOf_cons, if_neg later, missed, if_neg later, growth_cons, ← ih counter.tail, area, List.zipWith_cons_cons, List.sum_cons,
      max_eq_left gain, own, area]
    ring
  | case3 points short =>
    match points with
    | [] => simp [rateOf, area, missed, growth]
    | [p] => simp [rateOf, area, missed, growth]
    | p :: q :: rest => exact (short p q rest rfl).elim

/-- Nothing is missed exactly if neighbours of one time have one value. -/
theorem missed_spec (counter : Counter points) : 0 ≤ missed points ∧ (missed points = 0 ↔ Level points) := by
  fun_induction missed points with
  | case1 p q rest ih =>
    obtain ⟨natural, level⟩ := ih counter.tail
    obtain ⟨ordered, rising⟩ := counter.next
    rw [Level, List.isChain_cons_cons, ← Level, ← level]
    split
    · next same =>
      have together : p.time = q.time := le_antisymm ordered same
      have gain : 0 ≤ q.value - p.value := sub_nonneg.mpr rising
      refine ⟨add_nonneg gain natural, ?_⟩
      rw [add_eq_zero_iff_of_nonneg gain natural, sub_eq_zero, eq_comm]
      exact and_congr_left fun _ => ⟨fun same _ => same, fun same => same together⟩
    · next later =>
      have apart : p.time ≠ q.time := fun same => later same.ge
      rw [zero_add]
      exact ⟨natural, (and_iff_right fun same => absurd same apart).symm⟩
  | case2 points short =>
    match points with
    | [] => exact ⟨le_rfl, iff_of_true rfl List.IsChain.nil⟩
    | [p] => exact ⟨le_rfl, iff_of_true rfl (List.IsChain.singleton p)⟩
    | p :: q :: rest => exact (short p q rest rfl).elim

end Counters

section Charts
variable {samples : List Sample} {points : ℕ}

/-- The points that rates are taken between: all of them, or where each of as many equal parts of the list ends. -/
def keptPoints (samples : List Sample) (points : ℕ) : List Sample :=
  if samples.length ≤ points then samples
  else (List.range points).filterMap fun b => samples[(b + 1) * samples.length / points - 1]?

theorem bucketLast_eq (positive : 1 ≤ points) : bucketLast samples points = keptPoints samples points := by
  unfold bucketLast keptPoints
  by_cases few : samples.length ≤ points
  · rw [if_pos few, if_pos (.inr (by omega))]
  · rw [if_neg few, if_neg (by omega)]
    have ends : ((buckets samples points).map Bucket.last).map some =
        (List.range points).map fun b => samples[(b + 1) * samples.length / points - 1]? := by
      have last (b : Bucket) : some b.last = b.samples.getLast? := (List.getLast?_eq_some_getLast b.kept).symm
      rw [List.map_map, show some ∘ Bucket.last = List.getLast? ∘ Bucket.samples from funext last, ← List.map_map,
        buckets_quotient positive (not_le.mp few), List.map_map]
      refine List.map_congr_left fun b within => slice_getLast? ?_ ?_
      · have more : points ≤ samples.length := (not_le.mp few).le
        calc b * samples.length / points < b * samples.length / points + 1 := Nat.lt_succ_self _
          _ = (b * samples.length + points) / points := (Nat.add_div_right _ positive).symm
          _ ≤ (b + 1) * samples.length / points := Nat.div_le_div_right (by rw [Nat.succ_mul]; omega)
      · have last : b + 1 ≤ points := List.mem_range.mp within
        exact Nat.div_le_of_le_mul (Nat.mul_le_mul_right _ last)
    calc (buckets samples points).map Bucket.last
        = (((buckets samples points).map Bucket.last).map some).filterMap id := by rw [List.filterMap_map]; exact List.filterMap_some.symm
      _ = ((List.range points).map fun b => samples[(b + 1) * samples.length / points - 1]?).filterMap id := by rw [ends]
      _ = (List.range points).filterMap fun b => samples[(b + 1) * samples.length / points - 1]? := List.filterMap_map

theorem keptPoints_sublist (positive : 1 ≤ points) : (keptPoints samples points).Sublist samples := by
  rw [← bucketLast_eq positive, bucketLast]
  split
  · exact List.Sublist.refl _
  · have ends := flatMap_sublist fun b (_ : b ∈ buckets samples points) => List.singleton_sublist.mpr (List.getLast_mem b.kept)
    rwa [buckets_flatten, ← List.map_eq_flatMap] at ends

/-- The rates of a counter are natural, and add up to the growth from the first point kept to the last. -/
structure AddsUp (samples : List Sample) (points : ℕ) : Prop where
  natural : ∀ r ∈ aggregate samples points .rate, 0 ≤ r.value
  whole : area (aggregate samples points .rate) (computedAgainst (keptPoints samples points)) = growth (keptPoints samples points)

/-- The rates of a counter add up exactly if neighbours of one time, among the points kept, have one value. -/
theorem addsUp_iff (counter : Counter samples) (positive : 1 ≤ points) : AddsUp samples points ↔ Level (keptPoints samples points) := by
  have rates : aggregate samples points .rate = rateOf (keptPoints samples points) := by
    rw [aggregate, if_pos rfl, bucketLast_eq positive]
  have part := counter.sublist (keptPoints_sublist positive)
  have total := area_add_missed part
  rw [← (missed_spec part).2]
  constructor
  · intro adds
    have whole := adds.whole
    rw [rates] at whole
    linarith
  · intro none
    constructor
    case natural =>
      rw [rates]
      exact fun r there => rateOf_natural there
    case whole =>
      rw [rates]
      linarith

/-- Nothing is lost where each time is read once. -/
def steady : List Sample := [⟨0, 1⟩, ⟨1000, 3⟩, ⟨1000, 3⟩, ⟨3000, 4⟩]

theorem steady_counter : Counter steady := ⟨by decide, by decide⟩

theorem addsUp_iff_steady : AddsUp steady 4 :=
  (addsUp_iff steady_counter (by decide)).mpr (by unfold Level; decide)

/-- A counter that is read twice in one millisecond. -/
def doubled : List Sample := [⟨0, 0⟩, ⟨0, 5⟩, ⟨1000, 6⟩]

theorem growth_lost : ¬ ∀ (samples : List Sample) (points : ℕ), Counter samples → 1 ≤ points → AddsUp samples points := by
  intro always
  have adds := always doubled 3 ⟨by decide, by decide⟩ (by decide)
  have kept : keptPoints doubled 3 = doubled := if_pos (by decide)
  have rates : aggregate doubled 3 .rate = [⟨1000, 1⟩] := by norm_num [aggregate, bucketLast, doubled, rateOf]
  have against : computedAgainst doubled = [⟨0, 5⟩] := by norm_num [computedAgainst, doubled]
  have whole := adds.whole
  rw [kept, show ((3 : ℕ) : ℤ) = 3 from rfl, rates, against] at whole
  norm_num [area, growth, doubled] at whole

end Charts

end NatsExplorer.Handler.Chart
