import NatsExplorer.Library.OrderedMap
import NatsExplorer.Library.Paging
import Mathlib.Data.List.Sort

/-! Several sources, each a list in descending order of a key, read as one. The first
page is the top of all of them, merged by a stable sort; from there every source goes on
by itself below the last thing it showed. -/
namespace Streams
open Paging

section Parts
variable {A I : Type*} [DecidableEq I] {source : A → I} {i : I} {l l' : List A} {a : A}

/-- What a list has of one source. -/
def part (source : A → I) (i : I) (l : List A) : List A := l.filter fun a => source a = i

@[simp] theorem part_nil : part source i [] = [] := rfl

@[simp] theorem part_append : part source i (l ++ l') = part source i l ++ part source i l' := List.filter_append ..

theorem mem_part : a ∈ part source i l ↔ a ∈ l ∧ source a = i := by
  rw [part, List.mem_filter, decide_eq_true_eq]

theorem part_own (own : ∀ a ∈ l, source a = i) : part source i l = l :=
  List.filter_eq_self.mpr fun a member => decide_eq_true (own a member)

theorem part_other {j : I} (own : ∀ a ∈ l, source a = j) (other : j ≠ i) : part source i l = [] :=
  List.filter_eq_nil_iff.mpr fun a member => by
    rw [own a member, decide_eq_true_eq]
    exact other

/-- Of sources put one after the other each has its own list. -/
theorem part_flatMap {lists : I → List A} {ids : List I} (own : ∀ i, ∀ a ∈ lists i, source a = i) (nodup : ids.Nodup) (i : I) :
    part source i (ids.flatMap lists) = if i ∈ ids then lists i else [] := by
  induction nodup with
  | nil => rfl
  | @cons j rest fresh _ ih =>
    rw [List.flatMap_cons, part_append, ih]
    by_cases same : j = i
    · subst same
      rw [part_own (own j), if_neg fun member => fresh j member rfl, List.append_nil, if_pos List.mem_cons_self]
    · have there : i ∈ j :: rest ↔ i ∈ rest := List.mem_cons.trans (or_iff_right fun here => same here.symm)
      rw [part_other (own j) same, List.nil_append]
      simp only [there]

/-- What is asked of two of one source is asked of the part of each. -/
theorem pairwise_parts {R : A → A → Prop} :
    l.Pairwise (fun a b => source a = source b → R a b) ↔ ∀ i, (part source i l).Pairwise R := by
  constructor
  · intro every i
    refine List.Pairwise.imp_of_mem (fun ha hb apart => ?_) (every.filter fun a => source a = i)
    have first := (mem_part.mp ha).2
    have second := (mem_part.mp hb).2
    exact apart (first.trans second.symm)
  · intro parts
    induction l with
    | nil => exact .nil
    | cons a l ih =>
      refine List.pairwise_cons.mpr ⟨fun b member same => ?_, ih fun i => (parts i).sublist ((List.sublist_cons_self a l).filter _)⟩
      have mine := parts (source a)
      have first : part source (source a) (a :: l) = a :: part source (source a) l :=
        List.filter_cons_of_pos (p := fun b => source b = source a) (decide_eq_true rfl)
      rw [first] at mine
      exact (List.pairwise_cons.mp mine).1 b (mem_part.mpr ⟨member, same.symm⟩)

theorem part_take (n : Nat) : part source i (l.take n) <+: part source i l :=
  (List.take_prefix n l).filter _

end Parts

section Sorting
variable {A I : Type*} [DecidableEq I] {source : A → I} {r : A → A → Prop} [DecidableRel r] [Std.Total r] [IsTrans A r]

omit [Std.Total r] [IsTrans A r] in
theorem orderedInsert_first {a : A} {l : List A} (least : ∀ b ∈ l, r a b) : l.orderedInsert r a = a :: l := by
  cases l with
  | nil => rfl
  | cons b l => exact List.orderedInsert_cons_of_le r l (least b List.mem_cons_self)

omit [Std.Total r] in
theorem orderedInsert_filter (p : A → Bool) (a : A) {l : List A} (sorted : l.Pairwise r) :
    (l.orderedInsert r a).filter p = if p a then (l.filter p).orderedInsert r a else l.filter p := by
  induction sorted with
  | nil => cases here : p a <;> simp [List.orderedInsert, here]
  | @cons b l above sorted ih =>
    by_cases first : r a b
    · have least : ∀ x ∈ (b :: l).filter p, r a x := by
        intro x member
        rcases List.mem_cons.mp (List.mem_of_mem_filter member) with rfl | later
        · exact first
        · exact IsTrans.trans _ _ _ first (above x later)
      rw [List.orderedInsert_cons_of_le r l first, orderedInsert_first least]
      cases here : p a <;> simp [here]
    · have step : (b :: l).orderedInsert r a = b :: l.orderedInsert r a := by
        rw [List.orderedInsert, if_neg first]
      rw [step]
      cases kept : p b with
      | false => rw [List.filter_cons_of_neg (by simp [kept]), List.filter_cons_of_neg (by simp [kept]), ih]
      | true =>
        rw [List.filter_cons_of_pos kept, List.filter_cons_of_pos kept, ih]
        split
        · rw [List.orderedInsert, if_neg first]
        · rfl

/-- A stable sort keeps the order of what a filter leaves. -/
theorem insertionSort_filter (p : A → Bool) (l : List A) :
    (l.insertionSort r).filter p = (l.filter p).insertionSort r := by
  induction l with
  | nil => rfl
  | cons a l ih =>
    rw [List.insertionSort_cons, orderedInsert_filter p a (List.pairwise_insertionSort r l), ih]
    cases here : p a <;> simp [here]

theorem part_insertionSort {i : I} {l : List A} (sorted : (part source i l).Pairwise r) :
    part source i (l.insertionSort r) = part source i l := by
  rw [part, insertionSort_filter]
  exact sorted.insertionSort_eq

theorem take_filter {p : A → Bool} {l : List A} {n : Nat} (every : ∀ a ∈ l.take n, p a = true) :
    (l.filter p).take n = l.take n := by
  induction l generalizing n with
  | nil => rfl
  | cons a l ih =>
    cases n with
    | zero => rfl
    | succ n =>
      have kept : p a = true := every a List.mem_cons_self
      rw [List.filter_cons_of_pos kept, List.take_succ_cons, List.take_succ_cons,
        ih fun b member => every b (List.mem_cons_of_mem a member)]

variable {lists : I → List A} {ids : List I}

/-- What is on top does not depend on a cut of every list before they are merged. -/
theorem cut_early (own : ∀ i, ∀ a ∈ lists i, source a = i) (nodup : ids.Nodup) (distinct : ∀ i, (lists i).Nodup)
    (sorted : ∀ i, (lists i).Pairwise r) (n : Nat) :
    ((ids.flatMap fun i => (lists i).take n).insertionSort r).take n = ((ids.flatMap lists).insertionSort r).take n := by
  classical
  let early (a : A) : Bool := a ∈ (lists (source a)).take n
  have cut : (ids.flatMap fun i => (lists i).take n) = (ids.flatMap lists).filter early := by
    rw [List.filter_flatMap]
    refine List.flatMap_congr fun i _ => ?_
    have split := List.take_append_drop n (lists i)
    have apart := List.disjoint_of_nodup_append (split.symm ▸ distinct i)
    have front : ((lists i).take n).filter early = (lists i).take n :=
      List.filter_eq_self.mpr fun a member => decide_eq_true (by rwa [own i a (List.mem_of_mem_take member)])
    have back : ((lists i).drop n).filter early = [] := by
      refine List.filter_eq_nil_iff.mpr fun a member here => apart ?_ member
      have inside := of_decide_eq_true here
      rwa [own i a (List.mem_of_mem_drop member)] at inside
    calc (lists i).take n = ((lists i).take n ++ (lists i).drop n).filter early := by
          rw [List.filter_append, front, back, List.append_nil]
      _ = (lists i).filter early := by rw [split]
  rw [cut, ← insertionSort_filter]
  refine take_filter fun a member => decide_eq_true ?_
  -- what is above it of its own source is as many at most
  have mine : part source (source a) ((ids.flatMap lists).insertionSort r) = part source (source a) (ids.flatMap lists) := by
    refine part_insertionSort ?_
    rw [part_flatMap own nodup]
    split
    · exact sorted _
    · exact List.Pairwise.nil
  have top : part source (source a) (((ids.flatMap lists).insertionSort r).take n) <+: lists (source a) := by
    refine (part_take n).trans ?_
    rw [mine, part_flatMap own nodup]
    split
    · exact List.prefix_rfl
    · exact List.nil_prefix
  have short : (part source (source a) (((ids.flatMap lists).insertionSort r).take n)).length ≤ n :=
    (List.length_filter_le ..).trans (List.length_take_le ..)
  have within := List.prefix_take_iff.mpr ⟨top, short⟩
  exact within.subset (mem_part.mpr ⟨member, rfl⟩)

end Sorting

section Rounds
variable {A I K : Type*} [DecidableEq I] [LinearOrder K] {source : A → I} {key : A → K} {full : I → List A}
  {view : List A} {i : I} {size : Nat}

/-- The last thing of every source. -/
def cursors (source : A → I) (view : List A) : OrderedMap I A :=
  view.foldl (fun cursors a => cursors.set (source a) a) .empty

theorem get_cursors (source : A → I) (view : List A) (i : I) :
    (cursors source view).get i = (part source i view).getLast? := by
  induction view using List.reverseRecOn with
  | nil => rfl
  | append_singleton l a ih =>
    rw [cursors, List.foldl_append, List.foldl_cons, List.foldl_nil, OrderedMap.get_set, part_append]
    by_cases same : i = source a
    · have own : part source i [a] = [a] := part_own fun b here => by rw [List.mem_singleton.mp here, same]
      rw [if_pos same, own, List.getLast?_concat]
    · have other : part source i [a] = [] := part_other (fun b here => by rw [List.mem_singleton.mp here]) (Ne.symm same)
      rw [if_neg same, other, List.append_nil]
      exact ih

theorem mem_cursors : i ∈ (cursors source view).keys ↔ part source i view ≠ [] := by
  rw [(cursors source view).mem_keys, get_cursors, Ne, List.getLast?_eq_none_iff]

/-- What a source has below a cursor, and whether the page is full. -/
def below (key : A → K) (full : I → List A) (size : Nat) (i : I) (cursor : A) : Answer A :=
  let rest := after key (full i) (some (key cursor))
  ⟨rest.take size, decide (size ≤ rest.length)⟩

/-- The next page of each source that has shown something. -/
def pages (source : A → I) (key : A → K) (full : I → List A) (size : Nat) (view : List A) : List (Answer A) :=
  (cursors source view).entries.map fun (i, cursor) => below key full size i cursor

def older (source : A → I) (key : A → K) (full : I → List A) (size : Nat) (view : List A) : List A :=
  (pages source key full size view).flatMap Answer.page

/-- Of each source the view has what is on top of it. -/
structure Reading (source : A → I) (key : A → K) (full : I → List A) (view : List A) : Prop where
  own : ∀ i, ∀ a ∈ full i, source a = i
  desc : ∀ i, Descending key (full i)
  top : ∀ i, part source i view <+: full i

/-- Every source that has shown something has shown all of it. -/
def Done (source : A → I) (full : I → List A) (view : List A) : Prop :=
  ∀ i, part source i view ≠ [] → part source i view = full i

/-- What a source goes on with. -/
def rest (source : A → I) (full : I → List A) (view : List A) (i : I) : List A :=
  if part source i view = [] then [] else (full i).drop (part source i view).length

theorem Reading.below_eq (reading : Reading source key full view) {cursor : A}
    (found : (cursors source view).get i = some cursor) :
    below key full size i cursor =
      ⟨(rest source full view i).take size, decide (size ≤ (rest source full view i).length)⟩ := by
  rw [get_cursors] at found
  have shown : part source i view ≠ [] := fun none => by
    rw [none] at found
    cases found
  have split := (reading.desc i).after_next (c := none) (reading.top i)
  have at_ : next key none (part source i view) = some (key cursor) := by rw [next, found]
  have rest_eq : after key (full i) (some (key cursor)) = rest source full view i := by
    rw [rest, if_neg shown, ← at_]
    exact ((congrArg (List.drop _) split).trans List.drop_left).symm
  rw [below, rest_eq]

theorem Reading.pages_eq (reading : Reading source key full view) :
    pages source key full size view = (cursors source view).keys.map fun i =>
      ⟨(rest source full view i).take size, decide (size ≤ (rest source full view i).length)⟩ := by
  rw [pages, ← OrderedMap.entries_keys, List.map_map]
  refine List.map_congr_left fun ⟨i, cursor⟩ listed => ?_
  refine reading.below_eq ?_
  obtain ⟨k, _, found⟩ := List.mem_filterMap.mp listed
  obtain ⟨v, there, same⟩ := Option.map_eq_some_iff.mp found
  cases same
  exact there

theorem Reading.older_eq (reading : Reading source key full view) :
    older source key full size view = (cursors source view).keys.flatMap fun i => (rest source full view i).take size := by
  rw [older, reading.pages_eq, List.flatMap_map]

theorem Reading.part_older (reading : Reading source key full view) (size : Nat) (i : I) :
    part source i (older source key full size view) = (rest source full view i).take size := by
  have own : ∀ j, ∀ a ∈ (rest source full view j).take size, source a = j := by
    intro j a member
    have here := List.mem_of_mem_take member
    unfold rest at here
    split at here
    · cases here
    · exact reading.own j a (List.mem_of_mem_drop here)
  rw [reading.older_eq, part_flatMap own (cursors source view).nodup]
  split
  · rfl
  · next absent =>
    rw [rest, if_pos (not_not.mp (mt mem_cursors.mpr absent)), List.take_nil]

theorem Reading.part_next (reading : Reading source key full view) (i : I) :
    part source i (view ++ older source key full size view) =
      part source i view ++ (rest source full view i).take size := by
  rw [part_append, reading.part_older]

theorem Reading.next (reading : Reading source key full view) :
    Reading source key full (view ++ older source key full size view) where
  own := reading.own
  desc := reading.desc
  top i := by
    rw [reading.part_next, rest]
    split
    · next none =>
      rw [none, List.take_nil]
      exact List.nil_prefix
    · obtain ⟨left, split⟩ := reading.top i
      refine ⟨left.drop size, ?_⟩
      rw [← split, List.drop_left, List.append_assoc, List.take_append_drop]

/-- No source begins later. -/
theorem Reading.begun_next (reading : Reading source key full view) (i : I) :
    part source i (view ++ older source key full size view) = [] ↔ part source i view = [] := by
  rw [reading.part_next, List.append_eq_nil_iff]
  refine and_iff_left_of_imp fun none => ?_
  rw [rest, if_pos none, List.take_nil]

theorem Reading.done_iff (reading : Reading source key full view) :
    Done source full view ↔ ∀ i, rest source full view i = [] := by
  refine forall_congr' fun i => ?_
  unfold rest
  split
  · next none => exact iff_of_true (fun shown => absurd none shown) rfl
  · next shown =>
    rw [List.drop_eq_nil_iff]
    have top := reading.top i
    exact ⟨fun all => (all shown).symm ▸ le_refl _, fun few _ => top.eq_of_length_le few⟩

/-- The end, where no page is full. -/
theorem Reading.done_next (reading : Reading source key full view)
    (last : ∀ p ∈ pages source key full size view, p.more = false) :
    Done source full (view ++ older source key full size view) := by
  intro i shown
  rw [Ne, reading.begun_next] at shown
  rw [reading.pages_eq] at last
  have short : (rest source full view i).length < size :=
    not_le.mp (of_decide_eq_false (last _ (List.mem_map_of_mem (mem_cursors.mpr shown))))
  rw [reading.part_next, List.take_of_length_le short.le, rest, if_neg shown]
  obtain ⟨left, split⟩ := reading.top i
  rw [← split, List.drop_left]

/-- The end, where there is nothing on any page. -/
theorem Reading.done_empty (reading : Reading source key full view) (room : 0 < size)
    (empty : older source key full size view = []) : Done source full view := by
  refine reading.done_iff.mpr fun i => ?_
  have nothing := reading.part_older size i
  rw [empty, part_nil] at nothing
  exact (List.take_eq_nil_iff.mp nothing.symm).resolve_left room.ne'

/-- A page that is full brings as much. -/
theorem Reading.size_le (reading : Reading source key full view)
    (more : ∃ p ∈ pages source key full size view, p.more = true) :
    size ≤ (older source key full size view).length := by
  obtain ⟨p, member, more⟩ := more
  rw [reading.pages_eq] at member
  obtain ⟨i, _, rfl⟩ := List.mem_map.mp member
  have mine := reading.part_older size i
  calc size = ((rest source full view i).take size).length := by
        rw [List.length_take, min_eq_left (of_decide_eq_true more)]
    _ ≤ _ := mine ▸ List.length_filter_le ..

theorem Reading.subset (reading : Reading source key full view) {a : A} (member : a ∈ view) : a ∈ full (source a) :=
  (reading.top (source a)).subset (mem_part.mpr ⟨member, rfl⟩)

theorem Reading.nodup [DecidableEq A] (reading : Reading source key full view) : view.Nodup := by
  refine List.nodup_iff_count_le_one.mpr fun a => ?_
  have mine : (part source (source a) view).count a = view.count a := List.count_filter (decide_eq_true rfl)
  rw [← mine]
  exact List.nodup_iff_count_le_one.mp ((reading.desc _).nodup.sublist (reading.top _).sublist) a

end Rounds
end Streams
