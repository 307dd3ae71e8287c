import NatsExplorer.History.MemQuery
import NatsExplorer.Library.HeapMerge

/-! The walks of the in-memory history over many rings (`internal/history/history.go`, `dump.go`), with the heap of cursors
as `container/heap` keeps it: `Init` once, then the top cursor gives its record and is fixed in its place, or leaves. -/
namespace NatsExplorer.History
open Go

namespace CursorHeap

/-- The loop over a heap of cursors. -/
def walk (keep : Record → Bool) (limit : Int) (cursors : List Cursor) : List Record :=
  Cursor.sources.walkHeap newer keep _ (heap.init Cursor.less cursors.get) limit.toNat

/-- All that a heap of cursors comes to, in the order it does. -/
def drained (cursors : List Cursor) : List Record :=
  Cursor.sources.drained newer _ (heap.init Cursor.less cursors.get)

theorem walk_eq (keep : Record → Bool) (limit : Int) (cursors : List Cursor) :
    walk keep limit cursors = ((drained cursors).filter keep).take limit.toNat := Merge.Sources.walkHeap_eq ..

/-- Nothing is lost, in whatever order the rings are. -/
theorem drained_perm (cursors : List Cursor) : (drained cursors).Perm (cursors.flatMap Cursor.left) := by
  have moved := (heap.init_perm Cursor.less cursors.get).flatMap_right Cursor.left
  rw [List.ofFn_get] at moved
  exact (Merge.Sources.drained_perm _ _ _).trans moved

/-- A cursor at the newest entry of a ring. -/
def newest (ring : List Record) : Option Cursor :=
  if inside : 0 < ring.length then some ⟨ring, ring.length - 1, Nat.sub_one_lt_of_lt inside⟩ else none

section Walks
variable [Tables] (rt : Runtime) (s : MemStore) (connID : Str)

def branch (root : Str) (limit : Int) (beforeSeq : ℕ) : List NatsMessage :=
  if limit ≤ 0 then []
  else
    let p := root ++ ['.']
    (walk (fun _ => true) limit (s.cursors rt connID (fun subj => strings.hasPrefix subj p) beforeSeq)).map fun r => r.wire connID

/-- An empty subject searches everything the connection recorded. -/
def inScope (subject : Str) (subj : Str) : Bool :=
  subject = [] || subj = subject || strings.hasPrefix subj (subject ++ ['.'])

/-- The needle of a query, whose trailing star is prefix syntax of the indexed search. -/
def needleOf (q : Str) : Str := strings.toLower (strings.trimSuffix q ['*'])

def search (subject q : Str) (limit : Int) (beforeSeq : ℕ) : List NatsMessage :=
  if limit ≤ 0 then []
  else (walk (mentions (needleOf q)) limit (s.cursors rt connID (inScope subject) beforeSeq)).map fun r => r.wire connID

def dump (limit : Int) : List NatsMessage :=
  if limit ≤ 0 then []
  else (walk (fun _ => true) limit ((s.rings rt connID).filterMap fun p => newest p.2)).map fun r => r.wire connID

end Walks

/-- The messages of a connection whose subjects are in scope. -/
def messages (s : MemStore) (connID : Str) (scope : Str → Bool) : List Record :=
  ((s.rings .plain connID).filter fun p => scope p.1).flatMap Prod.snd

/-- Time goes on in each ring of a connection, and sequences increase. -/
def Rising (s : MemStore) (connID : Str) : Prop :=
  ∀ p ∈ s.rings .plain connID, p.2.Pairwise fun a b => a.timestamp ≤ b.timestamp ∧ a.sequence < b.sequence

/-- The sequences alone, by which a cursor is placed in a ring. -/
def Increasing (s : MemStore) (connID : Str) : Prop :=
  ∀ p ∈ s.rings .plain connID, p.2.Pairwise fun a b => a.sequence < b.sequence

theorem Rising.increasing {s : MemStore} {connID : Str} (rising : Rising s connID) : Increasing s connID :=
  fun p listed => (rising p listed).imp And.right

instance (s : MemStore) (connID : Str) : Decidable (Rising s connID) := inferInstanceAs (Decidable (∀ _ ∈ _, _))

/-- The first of the messages, ordered from the newest to the oldest by time and sequence. -/
def Newest [Tables] (connID : Str) (msgs : List Record) (limit : Int) (answer : List NatsMessage) : Prop :=
  ∃ all : List Record, all.Perm msgs ∧ (all.Pairwise fun a b => b.mark ≤ a.mark) ∧
    answer = (all.take limit.toNat).map fun r => r.wire connID

section Merged
variable {rt : Runtime} {s : MemStore} {connID : Str}

theorem rings_perm (rt : Runtime) (s : MemStore) (connID : Str) : (s.rings rt connID).Perm (s.rings .plain connID) := by
  refine List.Perm.flatMap_left _ fun sh _ => ?_
  unfold Shard.rings
  cases sh.conns.lookup connID with
  | none => exact .refl _
  | some h => exact (rt.range_perm _).map _

theorem newer_weak : StrictWeak newer where
  asymm _ _ first := newer_eq_false.mpr (newer_iff.mp first).le
  trans _ _ _ first second := newer_eq_false.mpr ((newer_eq_false.mp first).trans (newer_eq_false.mp second))

theorem olderSeq_zero (r : Record) : olderSeq 0 r = true := by
  rw [olderSeq, decide_eq_true rfl, Bool.true_or]

theorem newest_eq (ring : List Record) : newest ring = newestBefore ring 0 := by
  unfold newest newestBefore
  have all : endOf ring 0 = ring.length := if_neg (Nat.lt_irrefl 0)
  simp only [all, le_refl, and_true]

theorem newestBefore_older {ring : List Record} {beforeSeq : ℕ} (given : beforeSeq = 0 ∨ ring.Pairwise fun a b => a.sequence < b.sequence) :
    (newestBefore ring beforeSeq).elim [] Cursor.left = (ring.filter (olderSeq beforeSeq)).reverse := by
  rcases given with rfl | increasing
  · rw [List.filter_eq_self.mpr fun r _ => olderSeq_zero r, ← newest_eq, newest]
    split
    · next inside =>
      change (ring.take (ring.length - 1 + 1)).reverse = ring.reverse
      rw [Nat.sub_add_cancel inside, List.take_length]
    · next empty =>
      rw [List.length_eq_zero_iff.mp (Nat.eq_zero_of_not_pos empty)]
      rfl
  · exact newestBefore_left increasing beforeSeq

/-- What the cursors in scope come to. -/
theorem cursors_perm {beforeSeq : ℕ} (given : beforeSeq = 0 ∨ Increasing s connID) (rt : Runtime) (scope : Str → Bool) :
    ((s.cursors rt connID scope beforeSeq).flatMap Cursor.left).Perm ((messages s connID scope).filter (olderSeq beforeSeq)) := by
  have split : (s.cursors rt connID scope beforeSeq).flatMap Cursor.left =
      ((s.rings rt connID).filter fun p => scope p.1).flatMap fun p => (p.2.filter (olderSeq beforeSeq)).reverse := by
    rw [MemStore.cursors, List.filterMap_eq_flatMap_toList, List.flatMap_assoc]
    refine List.flatMap_congr fun p member => ?_
    have listed := (rings_perm rt s connID).mem_iff.mp (List.mem_filter.mp member).1
    rw [← newestBefore_older (given.imp_right fun increasing => increasing p listed)]
    cases newestBefore p.2 beforeSeq with
    | none => rfl
    | some c => exact List.append_nil _
  have turned : (((s.rings rt connID).filter fun p => scope p.1).flatMap fun p => (p.2.filter (olderSeq beforeSeq)).reverse).Perm
      ((((s.rings rt connID).filter fun p => scope p.1).flatMap Prod.snd).filter (olderSeq beforeSeq)) := by
    rw [List.filter_flatMap]
    exact List.Perm.flatMap_left _ fun p _ => List.reverse_perm _
  rw [split]
  exact turned.trans ((((rings_perm rt s connID).filter _).flatMap_right _).filter _)

/-- The cursors of rings in which time goes on come to what they hold from the newest to the oldest. -/
theorem cursors_inOrder (rising : Rising s connID) (rt : Runtime) (scope : Str → Bool) (beforeSeq : ℕ) :
    ∀ c ∈ s.cursors rt connID scope beforeSeq, Cursor.sources.InOrder newer c := by
  intro c member
  obtain ⟨p, listed, found⟩ := List.mem_filterMap.mp member
  have order := rising p ((rings_perm rt s connID).mem_iff.mp (List.mem_filter.mp listed).1)
  have left := newestBefore_left (order.imp And.right) beforeSeq
  rw [found, Option.elim_some] at left
  change c.left.Pairwise _
  rw [left, List.pairwise_reverse]
  refine (order.imp fun both => newer_eq_false.mpr ?_).sublist List.filter_sublist
  exact MemStore.mark_le both.1 both.2

/-- The walk over the subjects in scope takes the newest of what is kept. -/
theorem walk_newest [Tables] (rising : Rising s connID) (rt : Runtime) (scope : Str → Bool) (keep : Record → Bool) (limit : Int) (beforeSeq : ℕ) :
    Newest connID ((messages s connID scope).filter fun r => keep r && olderSeq beforeSeq r) limit
      ((walk keep limit (s.cursors rt connID scope beforeSeq)).map fun r => r.wire connID) := by
  have inOrder := cursors_inOrder rising rt scope beforeSeq
  have perm : ((s.cursors rt connID scope beforeSeq).flatMap Cursor.left).Perm ((messages s connID scope).filter (olderSeq beforeSeq)) :=
    cursors_perm (.inr rising.increasing) rt scope
  generalize s.cursors rt connID scope beforeSeq = cursors at inOrder perm
  have moved := heap.init_perm Cursor.less cursors.get
  rw [List.ofFn_get] at moved
  have whole := (drained_perm cursors).trans perm
  have sorted := Merge.Sources.drained_ordered newer_weak (heap.init_ordered (Merge.Sources.sooner_weak newer_weak) cursors.get)
    fun i => inOrder _ (moved.mem_iff.mp (List.mem_ofFn.mpr ⟨i, rfl⟩))
  have marks : (drained cursors).Pairwise fun a b => b.mark ≤ a.mark := sorted.imp newer_eq_false.mp
  refine ⟨(drained cursors).filter keep, ?_, marks.sublist List.filter_sublist, congrArg (List.map _) (walk_eq keep limit cursors)⟩
  rw [← List.filter_filter]
  exact whole.filter keep

variable [Tables]

/-- Where no two messages have one time and one sequence, there is one such answer. -/
theorem Newest.unique {msgs : List Record} {limit : Int} {answer answer' : List NatsMessage} (distinct : (msgs.map Record.mark).Nodup)
    (first : Newest connID msgs limit answer) (second : Newest connID msgs limit answer') : answer = answer' := by
  obtain ⟨all, perm, sorted, rfl⟩ := first
  obtain ⟨all', perm', sorted', rfl⟩ := second
  have apart : (all.map Record.mark).Nodup := ((perm.map _).nodup_iff).mpr distinct
  have same : all = all' := (perm.trans perm'.symm).eq_of_pairwise (fun a b here there one other =>
    List.inj_on_of_nodup_map apart here ((perm'.trans perm.symm).mem_iff.mp there) (le_antisymm other one)) sorted sorted'
  rw [same]

/-- The walks answer with the newest of the messages they are asked for, wherever the subjects are kept and in whatever
order the maps are gone through. -/
theorem merge_newest (rt : Runtime) (rising : Rising s connID) {limit : Int} (positive : 0 < limit) (beforeSeq : ℕ) :
    (∀ root, Newest connID ((messages s connID fun subj => strings.hasPrefix subj (root ++ ['.'])).filter (olderSeq beforeSeq)) limit
      (branch rt s connID root limit beforeSeq)) ∧
    (∀ subject q, Newest connID
      ((messages s connID (inScope subject)).filter fun r => mentions (needleOf q) r && olderSeq beforeSeq r) limit
      (search rt s connID subject q limit beforeSeq)) ∧
    Newest connID (messages s connID fun _ => true) limit (dump rt s connID limit) := by
  refine ⟨fun root => ?_, fun subject q => ?_, ?_⟩
  · have merged := walk_newest rising rt (fun subj => strings.hasPrefix subj (root ++ ['.'])) (fun _ => true) limit beforeSeq
    simp only [Bool.true_and] at merged
    rw [branch, if_neg (not_le.mpr positive)]
    exact merged
  · rw [search, if_neg (not_le.mpr positive)]
    exact walk_newest rising rt (inScope subject) (mentions (needleOf q)) limit beforeSeq
  · have merged := walk_newest rising rt (fun _ => true) (fun _ => true) limit 0
    have all : ((s.rings rt connID).filterMap fun p => newest p.2) = s.cursors rt connID (fun _ => true) 0 := by
      rw [MemStore.cursors, List.filter_true]
      exact congrArg (List.filterMap · _) (funext fun p => newest_eq p.2)
    simp only [Bool.true_and, olderSeq_zero, List.filter_true] at merged
    rw [dump, if_neg (not_le.mpr positive), all]
    exact merged

end Merged

section Sample

def sampleShard : Shard :=
  { Shard.newShard 1000000 10 with
    conns := ({} : Map Str Ref).insert ['c'] 0
    hists := fun _ =>
      { subjects := (({} : Map Str Ref).insert ['a', '.', 'x'] 0).insert ['a', '.', 'y'] 1, count := 3, bytes := 0 }
    bufs := fun b => if b = 0 then (SubjectBuf.empty.push 0).push 2 else SubjectBuf.empty.push 1
    entries := fun e =>
      { record := some { subject := ['a', '.', if e = 1 then 'y' else 'x'], data := .text [], timestamp := e, sequence := e + 1 }
        size := 0, dead := false, buf := e % 2, conn := 0 } }

/-- Three messages, in the rings of two subjects. -/
def sampleStore : MemStore := { shards := [sampleShard], hash := fun _ => 0 }

theorem merge_newest_sample : ∃ answer, answer = @branch asciiTables .plain sampleStore ['c'] ['a'] 2 0 ∧
    @Newest asciiTables ['c'] ((messages sampleStore ['c'] fun subj => strings.hasPrefix subj ['a', '.']).filter (olderSeq 0)) 2 answer := by
  let _ := asciiTables
  have rising : Rising sampleStore ['c'] := by decide
  exact ⟨_, rfl, (merge_newest .plain rising (by decide) 0).1 ['a']⟩

end Sample

end CursorHeap
end NatsExplorer.History
