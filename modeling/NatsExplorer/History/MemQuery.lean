import NatsExplorer.Go.Sort
import NatsExplorer.History.Contents
import NatsExplorer.Library.Merge
import Mathlib.Data.Prod.Lex

/-! The lists the in-memory history answers with (`internal/history/history.go`): the
ring of one subject, and what a heap of cursors merges from the rings of many. Where
the rings are in the order the messages came, both are the newest of what is asked for. -/
namespace NatsExplorer
open Go

/-- A place in the order of a connection's messages. -/
abbrev Mark := Int ×ₗ Nat

def Record.mark (r : Record) : Mark := toLex (r.timestamp, r.sequence)

namespace History

/-- `Less` of the cursors: the newer message comes first. -/
def newer (a b : Record) : Bool :=
  if a.timestamp ≠ b.timestamp then b.timestamp < a.timestamp else b.sequence < a.sequence

/-- Walks one subject ring from newest to oldest. -/
structure Cursor where
  ring : List Record
  i : Nat
  inside : i < ring.length

namespace Cursor

def cur (c : Cursor) : Record := c.ring.get ⟨c.i, c.inside⟩

def back (c : Cursor) : Option Cursor :=
  if 0 < c.i then some ⟨c.ring, c.i - 1, by have := c.inside; omega⟩ else none

/-- What the cursor still comes to. -/
def left (c : Cursor) : List Record := (c.ring.take (c.i + 1)).reverse

def less (a b : Cursor) : Bool := newer a.cur b.cur

theorem left_eq (c : Cursor) : c.left = c.cur :: c.back.elim [] left := by
  have inside := c.inside
  rw [left, List.take_add_one, List.getElem?_eq_getElem inside, Option.toList_some, List.reverse_append,
    List.reverse_singleton, List.singleton_append]
  congr 1
  unfold back
  split
  · rename_i more
    rw [Option.elim_some, left, Nat.sub_add_cancel more]
  · rename_i last
    rw [Nat.eq_zero_of_not_pos last]
    rfl

def sources : Merge.Sources Record Cursor where
  cur := cur
  back := back
  left := left
  left_eq := left_eq

end Cursor

/-- Where the entries older than `beforeSeq` end; without one, the end of the ring. -/
def endOf (ring : List Record) (beforeSeq : Nat) : Nat :=
  if 0 < beforeSeq then sort.search ring.length fun i => (ring[i]?).any fun r => beforeSeq ≤ r.sequence
  else ring.length

def newestBefore (ring : List Record) (beforeSeq : Nat) : Option Cursor :=
  if inside : 0 < endOf ring beforeSeq ∧ endOf ring beforeSeq ≤ ring.length then
    some ⟨ring, endOf ring beforeSeq - 1, by omega⟩
  else none

/-- `heap.Init`, and then the walk: the top cursor gives its record and moves on
(`heap.Fix`), or leaves the heap (`heap.Pop`). -/
def mergeNewest (rt : Runtime) (keep : Record → Bool) (limit : Nat) (cursors : List Cursor) : List Record :=
  Cursor.sources.walk (rt.heapify Cursor.less) keep (Cursor.sources.size cursors) limit
    (rt.heapify Cursor.less cursors)

/-- An ASCII case-insensitive substring test; the needle is lower case already. -/
def containsFold (hay needle : Str) : Bool :=
  needle = [] || hay.tails.any fun rest => strings.hasPrefix (rest.map asciiLower) needle

/-- The subject or the textual payload contains the needle. -/
def mentions (needle : Str) (r : Record) : Bool :=
  containsFold r.subject needle ||
    match r.data with
    | .text runes => containsFold runes needle
    | .binary _ => false

/-- The subjects of a connection with what their rings hold, oldest first. -/
def Shard.rings (rt : Runtime) (sh : Shard) (connID : Str) : List (Str × List Record) :=
  match sh.conns.lookup connID with
  | none => []
  | some h => (rt.range (sh.hists h).subjects.entries).map fun p => (p.fst, sh.records p.snd)

namespace MemStore

def rings (rt : Runtime) (s : MemStore) (connID : Str) : List (Str × List Record) :=
  s.shards.flatMap fun sh => sh.rings rt connID

/-- The ring of a subject in its shard. -/
def contents (s : MemStore) (connID subject : Str) : List Record :=
  match s.shards[s.shardOf subject 0]? with
  | none => []
  | some sh => sh.contents connID subject

/-- The cursors of the subjects in scope. -/
def cursors (rt : Runtime) (s : MemStore) (connID : Str) (inScope : Str → Bool) (beforeSeq : Nat) : List Cursor :=
  ((s.rings rt connID).filter fun p => inScope p.1).filterMap fun p => newestBefore p.2 beforeSeq

variable [Tables]

def subject (s : MemStore) (connID subject : Str) (limit beforeSeq : Nat) : List NatsMessage :=
  let ring := s.contents connID subject
  let bound := endOf ring beforeSeq
  ((ring.take bound).drop (bound - limit)).map fun r => r.wire connID

def branch (rt : Runtime) (s : MemStore) (connID root : Str) (limit beforeSeq : Nat) : List NatsMessage :=
  (mergeNewest rt (fun _ => true) limit
    (s.cursors rt connID (fun subj => strings.hasPrefix subj (root ++ ['.'])) beforeSeq)).map
      fun r => r.wire connID

/-- An empty subject searches everything the connection recorded. -/
def search (rt : Runtime) (s : MemStore) (connID subject q : Str) (limit beforeSeq : Nat) : List NatsMessage :=
  let needle := strings.toLower (strings.trimSuffix q ['*'])
  (mergeNewest rt (mentions needle) limit
    (s.cursors rt connID
      (fun subj => subject = [] || subj = subject || strings.hasPrefix subj (subject ++ ['.'])) beforeSeq)).map
      fun r => r.wire connID

end MemStore

section Order
variable {ring : List Record} {beforeSeq : Nat}

theorem newer_iff {a b : Record} : newer a b = true ↔ b.mark < a.mark := by
  unfold newer Record.mark
  rw [Prod.Lex.toLex_lt_toLex]
  split
  · rename_i apart
    simp only [decide_eq_true_eq]
    exact ⟨Or.inl, fun before => before.resolve_right fun same => apart same.1.symm⟩
  · rename_i same
    rw [ne_eq, not_not] at same
    simp only [decide_eq_true_eq, same, lt_irrefl, true_and, false_or]

theorem newer_eq_false {a b : Record} : newer a b = false ↔ a.mark ≤ b.mark := by
  rw [← Bool.not_eq_true, newer_iff, not_lt]

theorem less_weak : StrictWeak Cursor.less where
  asymm _ _ first := newer_eq_false.mpr (newer_iff.mp first).le
  trans _ _ _ first second := newer_eq_false.mpr ((newer_eq_false.mp first).trans (newer_eq_false.mp second))

/-- The walk keeps the first of a list that has everything of the cursors, newest first. -/
theorem mergeNewest_spec (rt : Runtime) (keep : Record → Bool) (limit : Nat) {cursors : List Cursor}
    (ordered : ∀ c ∈ cursors, c.left.Pairwise fun a b => b.mark ≤ a.mark) :
    ∃ all : List Record, all.Perm (cursors.flatMap Cursor.left) ∧ (all.Pairwise fun a b => b.mark ≤ a.mark) ∧
      mergeNewest rt keep limit cursors = (all.filter keep).take limit := by
  have perm := rt.heapify_perm Cursor.less
  have : IsTrans Record fun a b => b.mark ≤ a.mark := ⟨fun a b c first second => second.trans first⟩
  have first (l : List Cursor) : Cursor.sources.First (fun a b => b.mark ≤ a.mark) (rt.heapify Cursor.less l) :=
    fun c rest root other member => newer_eq_false.mp (rt.heapify_root less_weak root other member)
  have size : Cursor.sources.size (rt.heapify Cursor.less cursors) ≤ Cursor.sources.size cursors :=
    ((perm cursors).map _).sum_nat.le
  refine ⟨_, (Merge.Sources.merged_perm perm size).trans ((perm cursors).flatMap_right _), ?_, Merge.Sources.walk_eq⟩
  exact Merge.Sources.merged_ordered perm first (first cursors) fun c member =>
    ordered c ((perm cursors).mem_iff.mp member)

/-- What a cursor of sequences goes through; without one, everything. -/
def olderSeq (beforeSeq : Nat) (r : Record) : Bool := beforeSeq = 0 || r.sequence < beforeSeq

theorem endOf_spec (increasing : ring.Pairwise fun a b => a.sequence < b.sequence) (beforeSeq : Nat) :
    endOf ring beforeSeq ≤ ring.length ∧ ring.take (endOf ring beforeSeq) = ring.filter (olderSeq beforeSeq) := by
  unfold endOf
  split
  · rename_i given
    have mono : ring.Pairwise fun a b => decide (beforeSeq ≤ a.sequence) = true → decide (beforeSeq ≤ b.sequence) = true :=
      increasing.imp fun before => by simp only [decide_eq_true_eq]; omega
    refine ⟨(sort.search_spec fun a b order inside => ?_).1, (sort.take_search mono).trans ?_⟩
    · rw [List.getElem?_eq_getElem (by omega), List.getElem?_eq_getElem inside, Option.any_some, Option.any_some]
      rcases order.eq_or_lt with rfl | before
      · exact id
      · exact List.pairwise_iff_getElem.mp mono a b (by omega) inside before
    · refine List.filter_congr fun r _ => ?_
      rw [olderSeq, decide_eq_false given.ne', Bool.false_or, ← decide_not, decide_eq_decide, not_le]
  · rename_i none
    refine ⟨le_rfl, ?_⟩
    rw [List.take_length]
    refine (List.filter_eq_self.mpr fun r _ => ?_).symm
    rw [olderSeq, decide_eq_true (Nat.eq_zero_of_not_pos none), Bool.true_or]

theorem newestBefore_left (increasing : ring.Pairwise fun a b => a.sequence < b.sequence) (beforeSeq : Nat) :
    (newestBefore ring beforeSeq).elim [] Cursor.left = (ring.filter (olderSeq beforeSeq)).reverse := by
  obtain ⟨bound, cut⟩ := endOf_spec increasing beforeSeq
  unfold newestBefore
  split
  · rename_i inside
    rw [Option.elim_some, Cursor.left, Nat.sub_add_cancel inside.1, cut]
  · rename_i outside
    have none : endOf ring beforeSeq = 0 := by omega
    rw [none, List.take_zero] at cut
    rw [← cut]
    rfl

end Order

/-- The lists of different keys make up the list of all of them. -/
theorem keys_perm {A K : Type} [DecidableEq K] (key : A → K) (l : List A) {keys : List K} (distinct : keys.Nodup) :
    (keys.flatMap fun k => l.filter fun a => key a = k).Perm (l.filter fun a => key a ∈ keys) := by
  induction keys with
  | nil => simp
  | cons k keys ih =>
    obtain ⟨fresh, rest⟩ := List.nodup_cons.mp distinct
    have own : (l.filter fun a => key a ∈ k :: keys).filter (fun a => key a = k) = l.filter fun a => key a = k := by
      rw [List.filter_filter]
      refine List.filter_congr fun a _ => ?_
      simp only [List.mem_cons, Bool.and_eq_left_iff_imp, decide_eq_true_eq]
      exact Or.inl
    have others : (l.filter fun a => key a ∈ k :: keys).filter (fun a => !decide (key a = k)) =
        l.filter fun a => key a ∈ keys := by
      rw [List.filter_filter]
      refine List.filter_congr fun a _ => ?_
      by_cases same : key a = k
      · simp [same, fresh]
      · simp [same]
    have split := List.filter_append_perm (fun a => decide (key a = k)) (l.filter fun a => key a ∈ k :: keys)
    rw [own, others] at split
    rw [List.flatMap_cons]
    exact ((ih rest).append_left _).trans split

namespace MemStore

/-- What memory holds of a connection, in the order it came: the rings have the messages
of their subjects, each in the shard of its subject. -/
structure Holds (s : MemStore) (connID : Str) (mem : List Record) : Prop where
  shards : 0 < s.shards.length
  ring : ∀ i sh, s.shards[i]? = some sh → ∀ subject, sh.contents connID subject =
    if s.shardOf subject 0 = i then mem.filter fun r => r.subject = subject else []

variable {s : MemStore} {connID : Str} {mem : List Record} {rt : Runtime}

theorem Holds.contents (holds : s.Holds connID mem) (subject : Str) :
    s.contents connID subject = mem.filter fun r => r.subject = subject := by
  have inside := shardOf_lt holds.shards subject 0
  simp only [MemStore.contents, List.getElem?_eq_getElem inside]
  rw [holds.ring _ _ (List.getElem?_eq_getElem inside), if_pos rfl]

theorem mem_rings {sh : Shard} {p : Str × List Record} :
    p ∈ sh.rings rt connID → p.2 = sh.contents connID p.1 := by
  unfold Shard.rings Shard.contents
  cases sh.conns.lookup connID with
  | none => exact fun none => absurd none List.not_mem_nil
  | some h =>
    intro member
    obtain ⟨⟨subject, b⟩, listed, rfl⟩ := List.mem_map.mp member
    have found : (sh.hists h).subjects.lookup subject = some b :=
      AList.mem_lookup_iff.mpr (rt.mem_range.mp listed)
    simp only [found]

theorem rings_keys (sh : Shard) : ((sh.rings rt connID).map Prod.fst).Nodup := by
  unfold Shard.rings
  cases sh.conns.lookup connID with
  | none => exact List.nodup_nil
  | some h =>
    rw [List.map_map]
    exact ((rt.range_perm _).map _).nodup_iff.mpr (sh.hists h).subjects.nodupKeys

theorem contents_eq_nil {sh : Shard} {subject : Str} (missing : subject ∉ (sh.rings rt connID).map Prod.fst) :
    sh.contents connID subject = [] := by
  unfold Shard.rings at missing
  unfold Shard.contents
  cases conn : sh.conns.lookup connID with
  | none => rfl
  | some h =>
    cases ring : (sh.hists h).subjects.lookup subject with
    | none => simp only [ring]
    | some b =>
      refine absurd ?_ missing
      simp only [conn, List.map_map, List.mem_map, rt.mem_range]
      exact ⟨⟨subject, b⟩, AList.mem_lookup_iff.mp ring, rfl⟩

/-- The rings of a shard have the messages of the subjects that belong there. -/
theorem Holds.shard_perm (holds : s.Holds connID mem) {i : Nat} {sh : Shard} (here : s.shards[i]? = some sh)
    (inScope : Str → Bool) :
    (((sh.rings rt connID).filter fun p => inScope p.1).flatMap Prod.snd).Perm
      (mem.filter fun r => inScope r.subject && decide (s.shardOf r.subject 0 = i)) := by
  have parts : ((sh.rings rt connID).filter fun p => inScope p.1).flatMap Prod.snd =
      (((sh.rings rt connID).map Prod.fst).filter fun subject => inScope subject && decide (s.shardOf subject 0 = i)).flatMap
        fun subject => mem.filter fun r => r.subject = subject := by
    have each : ∀ p ∈ sh.rings rt connID, p.2 =
        if s.shardOf p.1 0 = i then mem.filter fun r => r.subject = p.1 else [] := fun p member =>
      (mem_rings member).trans (holds.ring i sh here p.1)
    generalize sh.rings rt connID = rings at each
    induction rings with
    | nil => rfl
    | cons p rings ih =>
      have own := each p List.mem_cons_self
      have rest := ih fun p member => each p (List.mem_cons_of_mem _ member)
      cases within : inScope p.1 with
      | false => simpa only [List.map_cons, List.filter_cons, within, Bool.false_and, Bool.false_eq_true, if_false] using rest
      | true =>
        by_cases placed : s.shardOf p.1 0 = i
        · rw [if_pos placed] at own
          simp only [List.map_cons, List.filter_cons, within, placed, decide_true, Bool.and_true, if_true,
            List.flatMap_cons, own, rest]
        · rw [if_neg placed] at own
          simp only [List.map_cons, List.filter_cons, within, placed, decide_false, Bool.and_false,
            Bool.false_eq_true, if_false, if_true, List.flatMap_cons, own, rest, List.nil_append]
  rw [parts]
  refine (keys_perm Record.subject mem ((rings_keys sh).filter _)).trans (.of_eq (List.filter_congr fun r member => ?_))
  rw [Bool.eq_iff_iff]
  simp only [decide_eq_true_eq, List.mem_filter]
  refine and_iff_right_of_imp fun within => ?_
  by_contra missing
  have empty := contents_eq_nil missing
  rw [holds.ring i sh here, if_pos (of_decide_eq_true (Bool.and_eq_true_iff.mp within).2)] at empty
  exact absurd (decide_eq_true rfl) (List.filter_eq_nil_iff.mp empty r member)

theorem flatMap_perm {A B : Type} {l : List A} {f : A → List B} {g : Nat → List B} {k : Nat}
    (each : ∀ i a, l[i]? = some a → (f a).Perm (g (k + i))) :
    (l.flatMap f).Perm ((List.range' k l.length).flatMap g) := by
  induction l generalizing k with
  | nil => exact .refl _
  | cons a l ih =>
    rw [List.flatMap_cons, List.length_cons, List.range'_succ, List.flatMap_cons]
    refine (each 0 a rfl).append (ih fun i b here => ?_)
    rw [Nat.add_assoc, Nat.add_comm 1 i]
    exact each (i + 1) b here

/-- All rings in scope have what memory holds in scope. -/
theorem Holds.rings_perm (holds : s.Holds connID mem) (inScope : Str → Bool) :
    (((s.rings rt connID).filter fun p => inScope p.1).flatMap Prod.snd).Perm
      (mem.filter fun r => inScope r.subject) := by
  have parts : ((s.rings rt connID).filter fun p => inScope p.1).flatMap Prod.snd =
      s.shards.flatMap fun sh => ((sh.rings rt connID).filter fun p => inScope p.1).flatMap Prod.snd := by
    rw [rings, List.filter_flatMap, List.flatMap_assoc]
  rw [parts]
  refine (flatMap_perm (k := 0) (g := fun i => mem.filter fun r => inScope r.subject && decide (s.shardOf r.subject 0 = i))
    fun i sh here => ?_).trans ?_
  · rw [Nat.zero_add]
    exact holds.shard_perm here inScope
  · have whole := keys_perm (fun r : Record => s.shardOf r.subject 0) (mem.filter fun r => inScope r.subject)
      (List.nodup_range' (s := 0) (n := s.shards.length))
    simp only [List.filter_filter] at whole
    refine (List.Perm.of_eq ?_).trans (whole.trans (.of_eq (List.filter_congr fun r _ => ?_)))
    · simp only [Bool.and_comm]
    · rw [decide_eq_true (List.mem_range'_1.mpr ⟨Nat.zero_le _, by
        rw [Nat.zero_add]
        exact shardOf_lt holds.shards r.subject 0⟩), Bool.true_and]

/-- The rings are in the order the messages came. -/
def Arrived (mem : List Record) : Prop :=
  ∀ subject, (mem.filter fun r => r.subject = subject).Pairwise fun a b =>
    a.timestamp ≤ b.timestamp ∧ a.sequence < b.sequence

theorem mark_le {a b : Record} (time : a.timestamp ≤ b.timestamp) (seq : a.sequence < b.sequence) :
    a.mark ≤ b.mark := by
  rw [Record.mark, Record.mark, Prod.Lex.toLex_le_toLex]
  rcases time.lt_or_eq with before | same
  · exact Or.inl before
  · exact Or.inr ⟨same, seq.le⟩

theorem Holds.ring_arrived (holds : s.Holds connID mem) (arrived : Arrived mem) {p : Str × List Record}
    (member : p ∈ s.rings rt connID) :
    p.2.Pairwise fun a b => a.timestamp ≤ b.timestamp ∧ a.sequence < b.sequence := by
  obtain ⟨sh, listed, member⟩ := List.mem_flatMap.mp member
  obtain ⟨i, here⟩ := List.mem_iff_getElem?.mp listed
  rw [mem_rings member, holds.ring i sh here]
  split
  · exact arrived p.1
  · exact List.Pairwise.nil

/-- What the cursors in scope come to, each in order. -/
theorem Holds.cursors_spec (holds : s.Holds connID mem) (arrived : Arrived mem) (rt : Runtime) (inScope : Str → Bool)
    (beforeSeq : Nat) :
    (∀ c ∈ s.cursors rt connID inScope beforeSeq, c.left.Pairwise fun a b => b.mark ≤ a.mark) ∧
      ((s.cursors rt connID inScope beforeSeq).flatMap Cursor.left).Perm
        (mem.filter fun r => inScope r.subject && olderSeq beforeSeq r) := by
  have increasing {p : Str × List Record} (member : p ∈ (s.rings rt connID).filter fun p => inScope p.1) :=
    holds.ring_arrived arrived (List.mem_filter.mp member).1
  have split : (s.cursors rt connID inScope beforeSeq).flatMap Cursor.left =
      ((s.rings rt connID).filter fun p => inScope p.1).flatMap fun p => (p.2.filter (olderSeq beforeSeq)).reverse := by
    rw [cursors, List.filterMap_eq_flatMap_toList, List.flatMap_assoc]
    refine List.flatMap_congr fun p member => ?_
    rw [← newestBefore_left ((increasing member).imp And.right)]
    cases newestBefore p.2 beforeSeq with
    | none => rfl
    | some c => exact List.append_nil _
  constructor
  · intro c member
    obtain ⟨p, listed, found⟩ := List.mem_filterMap.mp member
    have left := newestBefore_left ((increasing listed).imp And.right) beforeSeq
    rw [found, Option.elim_some] at left
    rw [left, List.pairwise_reverse]
    exact ((increasing listed).imp fun order => mark_le order.1 order.2).sublist List.filter_sublist
  · rw [split]
    have turned : (((s.rings rt connID).filter fun p => inScope p.1).flatMap fun p =>
        (p.2.filter (olderSeq beforeSeq)).reverse).Perm
          ((((s.rings rt connID).filter fun p => inScope p.1).flatMap Prod.snd).filter (olderSeq beforeSeq)) := by
      rw [List.filter_flatMap]
      exact List.Perm.flatMap_left _ fun p _ => List.reverse_perm _
    refine (turned.trans ((holds.rings_perm inScope).filter _)).trans (.of_eq ?_)
    rw [List.filter_filter]
    exact List.filter_congr fun r _ => Bool.and_comm ..

/-- What the walk over the subjects in scope answers. -/
theorem Holds.merge_eq (holds : s.Holds connID mem) (arrived : Arrived mem) (rt : Runtime) (inScope : Str → Bool)
    (keep : Record → Bool) (limit beforeSeq : Nat) :
    ∃ all : List Record, all.Perm (mem.filter fun r => inScope r.subject && olderSeq beforeSeq r) ∧
      (all.Pairwise fun a b => b.mark ≤ a.mark) ∧
      mergeNewest rt keep limit (s.cursors rt connID inScope beforeSeq) = (all.filter keep).take limit := by
  obtain ⟨ordered, perm⟩ := holds.cursors_spec arrived rt inScope beforeSeq
  obtain ⟨all, whole, order, same⟩ := mergeNewest_spec rt keep limit ordered
  exact ⟨all, whole.trans perm, order, same⟩

variable [Tables]

/-- The newest messages of one subject, oldest first. -/
theorem Holds.subject_eq (holds : s.Holds connID mem) (arrived : Arrived mem) (subject : Str) (limit beforeSeq : Nat) :
    s.subject connID subject limit beforeSeq =
      ((((mem.filter fun r => r.subject = subject).filter (olderSeq beforeSeq)).reverse.take limit).reverse).map
        fun r => r.wire connID := by
  obtain ⟨bound, cut⟩ := endOf_spec ((arrived subject).imp And.right) beforeSeq
  simp only [MemStore.subject, holds.contents]
  rw [← cut, List.take_reverse, List.reverse_reverse, List.length_take, min_eq_left bound]

end MemStore
end History
end NatsExplorer
