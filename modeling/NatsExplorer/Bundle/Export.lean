import NatsExplorer.History.Queries

/-! Which messages a support bundle gets (`feature_bundle.go`, `internal/history/dump.go`):
those of a time range from the database where there is one, and what memory has
otherwise. -/
namespace NatsExplorer
open Go

namespace History
variable [Tables]

/-- Everything memory has of a connection, newest first. -/
def MemStore.dump (rt : Runtime) (s : MemStore) (connID : Str) (limit : Nat) : List NatsMessage :=
  (mergeNewest rt (fun _ => true) limit (s.cursors rt connID (fun _ => true) 0)).map fun r => r.wire connID

def DB.range (rt : Runtime) (d : DB) (connID subject : Str) (branch : Bool) (fromTs toTs : Int) (limit : Nat) :
    List NatsMessage :=
  d.rangePage rt connID subject (if branch then .withBelow else .subject) fromTs toTs 0 0 limit

/-- Every subject of a connection in a time range. -/
def DB.rangeAll (rt : Runtime) (d : DB) (connID : Str) (fromTs toTs : Int) (limit : Nat) : List NatsMessage :=
  (d.select rt connID (fun r => between fromTs toTs r.timestamp) limit).map fun r => r.wire connID

end History

namespace Bundle
open History

/-- The history of the server. -/
structure Stores where
  history : MemStore
  db : Option DB

section Export
variable [Tables]

/-- The messages and what went wrong; `failure` is the error of the database's query. -/
def bundleMessages (rt : Runtime) (d : Stores) (failure : Option Str) (connID subject : Str) (fromTs toTs : Int)
    (limit : Nat) : List NatsMessage × List Str :=
  let memory :=
    if subject ≠ [] then d.history.branch rt connID subject limit 0 else d.history.dump rt connID limit
  match d.db with
  | none => (memory, [])
  | some db =>
    if 0 < fromTs then
      match failure with
      | none =>
        (if subject ≠ [] then db.range rt connID subject true fromTs toTs limit
          else db.rangeAll rt connID fromTs toTs limit, [])
      | some err => (memory, ["history db: ".toList ++ err])
    else (memory, [])

omit [Tables] in
/-- The order of a bundle. -/
def older (a b : NatsMessage) : Bool :=
  if a.timestamp ≠ b.timestamp then a.timestamp < b.timestamp else a.sequence < b.sequence

/-- What `exportBundle` writes; a range without an end goes up to now. -/
def exportMessages (rt : Runtime) (d : Stores) (failure : Option Str) (now : Int) (connID subject : Str)
    (fromTs toTs : Int) (limit : Nat) : List NatsMessage :=
  Runtime.insertion older
    (bundleMessages rt d failure connID subject fromTs (if toTs = 0 then now else toTs) limit).1

end Export

/-- A subject and what is below it. -/
def below (subject subj : Str) : Bool := strings.hasPrefix subj (subject ++ ['.'])

/-- What a bundle is asked for. -/
def wanted (subject : Str) (fromTs toTs : Int) (r : Record) : Bool :=
  between fromTs toTs r.timestamp && (subject = [] || r.subject = subject || below subject r.subject)

def memoryScope (subject : Str) (r : Record) : Bool := subject = [] || below subject r.subject

def diskScope (subject : Str) (fromTs toTs : Int) (r : Record) : Bool :=
  between fromTs toTs r.timestamp && (subject = [] || RangeScope.withBelow.covers subject r.subject)

section Contents
variable {s : MemStore} {db : DB} {rt : Runtime} {connID : Str} {all : List Record} {limit : Nat}

/-- Without a limit in the way the merge is everything the cursors come to. -/
theorem mergeNewest_perm (rt : Runtime) {cursors : List Cursor} (enough : (cursors.flatMap Cursor.left).length ≤ limit) :
    (mergeNewest rt (fun _ => true) limit cursors).Perm (cursors.flatMap Cursor.left) := by
  have perm := rt.heapify_perm Cursor.less
  have size : Cursor.sources.size (rt.heapify Cursor.less cursors) ≤ Cursor.sources.size cursors :=
    ((perm cursors).map _).sum_nat.le
  have whole := (Merge.Sources.merged_perm perm size).trans ((perm cursors).flatMap_right Cursor.left)
  unfold mergeNewest
  rw [Merge.Sources.walk_eq, List.filter_true, List.take_of_length_le (whole.length_eq.trans_le enough)]
  exact whole

theorem newestBefore_all (ring : List Record) : (newestBefore ring 0).elim [] Cursor.left = ring.reverse := by
  have cut : endOf ring 0 = ring.length := rfl
  unfold newestBefore
  split
  · rename_i inside
    have last : endOf ring 0 - 1 + 1 = ring.length := Nat.sub_add_cancel inside.1
    dsimp only [Option.elim_some, Cursor.left]
    rw [last, List.take_length]
  · rename_i outside
    have none : ring = [] := List.eq_nil_of_length_eq_zero (by omega)
    rw [none]
    rfl

/-- What memory has in a scope. -/
theorem cursors_perm (holds : s.Holds connID all) (rt : Runtime) (inScope : Str → Bool) :
    ((s.cursors rt connID inScope 0).flatMap Cursor.left).Perm (all.filter fun r => inScope r.subject) := by
  have split : (s.cursors rt connID inScope 0).flatMap Cursor.left =
      ((s.rings rt connID).filter fun p => inScope p.1).flatMap fun p => p.2.reverse := by
    rw [MemStore.cursors, List.filterMap_eq_flatMap_toList, List.flatMap_assoc]
    refine List.flatMap_congr fun p _ => ?_
    rw [← newestBefore_all]
    cases newestBefore p.2 0 with
    | none => rfl
    | some c => exact List.append_nil _
  rw [split]
  exact (List.Perm.flatMap_left _ fun p _ => List.reverse_perm p.2).trans (holds.rings_perm inScope)

variable [Tables] {subject : Str} {fromTs toTs now : Int}

/-- What an export takes from memory. -/
theorem mem_memory (holds : s.Holds connID all) (few : all.length < limit) {m : NatsMessage} :
    m ∈ (if subject ≠ [] then s.branch rt connID subject limit 0 else s.dump rt connID limit) ↔
      ∃ r ∈ all, memoryScope subject r = true ∧ r.wire connID = m := by
  have merged (inScope : Str → Bool) : (mergeNewest rt (fun _ => true) limit (s.cursors rt connID inScope 0)).Perm
      (all.filter fun r => inScope r.subject) := by
    have perm := cursors_perm holds rt inScope
    exact (mergeNewest_perm rt (perm.length_eq.trans_le ((List.length_filter_le ..).trans few.le))).trans perm
  unfold memoryScope below
  by_cases whole : subject = []
  · rw [if_neg (not_not.mpr whole), MemStore.dump, List.mem_map]
    simp only [(merged _).mem_iff, List.mem_filter, whole, decide_true, Bool.true_or, and_true, true_and]
  · rw [if_pos whole, MemStore.branch, List.mem_map]
    simp only [(merged _).mem_iff, List.mem_filter, whole, decide_false, Bool.false_or, and_assoc]

/-- What an export takes from the database. -/
theorem mem_disk (keeps : db.Keeps connID all) (few : all.length < limit) {m : NatsMessage} :
    m ∈ (if subject ≠ [] then db.range rt connID subject true fromTs toTs limit
        else db.rangeAll rt connID fromTs toTs limit) ↔
      ∃ r ∈ all, diskScope subject fromTs toTs r = true ∧ r.stored.wire connID = m := by
  have selected (asked : Record → Bool) : m ∈ (db.select rt connID asked limit).map (fun r => r.wire connID) ↔
      ∃ r ∈ all, asked r.stored = true ∧ r.stored.wire connID = m := by
    simp only [List.mem_map, (keeps.select_perm few.le rt asked).mem_iff, List.mem_filter]
    constructor
    · rintro ⟨_, ⟨r, ⟨member, taken⟩, rfl⟩, rfl⟩
      exact ⟨r, member, taken, rfl⟩
    · rintro ⟨r, member, taken, rfl⟩
      exact ⟨_, ⟨r, ⟨member, taken⟩, rfl⟩, rfl⟩
  unfold diskScope
  by_cases whole : subject = []
  · rw [if_neg (not_not.mpr whole), DB.rangeAll, selected]
    simp only [whole, decide_true, Bool.true_or, Bool.and_true]
    rfl
  · rw [if_pos whole, DB.range, DB.rangePage, selected]
    refine exists_congr fun r => and_congr_right fun _ => and_congr_left fun _ => ?_
    have cursor : beforeCursor 0 0 r.stored = true := rfl
    rw [cursor, Bool.and_true, decide_eq_false whole, Bool.false_or]
    rfl

end Contents

/-- Things that look the same are asked for or not together. -/
theorem image_eq_iff {A B : Type} {f : A → B} {l : List A} {p q : A → Prop} (p_seen : ∀ a b, f a = f b → p a → p b)
    (q_seen : ∀ a b, f a = f b → q a → q b) :
    (∀ m, (∃ a ∈ l, p a ∧ f a = m) ↔ ∃ a ∈ l, q a ∧ f a = m) ↔ ∀ a ∈ l, p a ↔ q a := by
  constructor
  · intro same a member
    constructor
    · intro taken
      obtain ⟨b, _, other, looks⟩ := (same (f a)).mp ⟨a, member, taken, rfl⟩
      exact q_seen b a looks other
    · intro taken
      obtain ⟨b, _, other, looks⟩ := (same (f a)).mpr ⟨a, member, taken, rfl⟩
      exact p_seen b a looks other
  · intro same m
    exact exists_congr fun a => and_congr_right fun member => and_congr_left fun _ => same a member

/-- Where the two exports of a range are of the same messages. -/
structure Alike (all : List Record) (subject : Str) (fromTs toTs : Int) : Prop where
  /-- Nothing in the range is of the subject itself. -/
  own : ∀ r ∈ all, subject ≠ [] → r.subject = subject → between fromTs toTs r.timestamp = false
  /-- Memory has nothing out of the range. -/
  inside : ∀ r ∈ all, subject = [] ∨ below subject r.subject = true → between fromTs toTs r.timestamp = true
  reply : 0 < fromTs → ∀ r ∈ all, subject = [] ∨ below subject r.subject = true → r.reply = []
  /-- Nothing in the range is below the subject in other letters only. -/
  folded : 0 < fromTs → ∀ r ∈ all, between fromTs toTs r.timestamp = true → subject ≠ [] →
    like (likePrefix subject ++ ['.', '%']) r.subject = true → below subject r.subject = true

section Alike
variable {s : MemStore} {db : DB} {connID subject : Str} {all : List Record} {limit : Nat} {fromTs toTs : Int}

theorem below_self (subject : Str) : below subject subject = false := by
  refine decide_eq_false fun pre => ?_
  have longer := pre.length_le
  rw [List.length_append, List.length_singleton] at longer
  omega

theorem diskScope_of_wanted {r : Record} (asked : wanted subject fromTs toTs r = true) :
    diskScope subject fromTs toTs r = true := by
  unfold wanted at asked
  unfold diskScope RangeScope.covers
  simp only [Bool.and_eq_true, Bool.or_eq_true, decide_eq_true_eq] at asked ⊢
  refine ⟨asked.1, ?_⟩
  rcases asked.2 with (every | own) | under
  · exact Or.inl every
  · exact Or.inr (Or.inl own)
  · exact Or.inr (Or.inr (like_of_below (of_decide_eq_true under)))

theorem alike_iff : Alike all subject fromTs toTs ↔
    (∀ r ∈ all, memoryScope subject r = true ↔ wanted subject fromTs toTs r = true) ∧
      (0 < fromTs → (∀ r ∈ all, wanted subject fromTs toTs r = true → r.reply = []) ∧
        ∀ r ∈ all, diskScope subject fromTs toTs r = true → wanted subject fromTs toTs r = true) := by
  have memory (r : Record) : memoryScope subject r = true ↔ subject = [] ∨ below subject r.subject = true := by
    simp only [memoryScope, Bool.or_eq_true, decide_eq_true_eq]
  have asked (r : Record) : wanted subject fromTs toTs r = true ↔
      between fromTs toTs r.timestamp = true ∧ ((subject = [] ∨ r.subject = subject) ∨ below subject r.subject = true) := by
    simp only [wanted, Bool.and_eq_true, Bool.or_eq_true, decide_eq_true_eq]
  have disk (r : Record) : diskScope subject fromTs toTs r = true ↔ between fromTs toTs r.timestamp = true ∧
      (subject = [] ∨ r.subject = subject ∨ like (likePrefix subject ++ ['.', '%']) r.subject = true) := by
    simp only [diskScope, RangeScope.covers, Bool.and_eq_true, Bool.or_eq_true, decide_eq_true_eq]
  constructor
  · intro alike
    have same (r : Record) (member : r ∈ all) : memoryScope subject r = true ↔ wanted subject fromTs toTs r = true := by
      rw [memory, asked]
      constructor
      · intro inScope
        exact ⟨alike.inside r member inScope, inScope.elim (Or.inl ∘ Or.inl) Or.inr⟩
      · rintro ⟨within, (every | own) | under⟩
        · exact Or.inl every
        · by_contra outside
          rw [not_or] at outside
          have late := alike.own r member outside.1 own
          rw [within] at late
          cases late
        · exact Or.inr under
    refine ⟨same, fun positive => ⟨fun r member taken => ?_, fun r member taken => ?_⟩⟩
    · exact alike.reply positive r member ((memory r).mp ((same r member).mpr taken))
    · obtain ⟨within, place⟩ := (disk r).mp taken
      refine (asked r).mpr ⟨within, ?_⟩
      rcases place with every | own | matched
      · exact Or.inl (Or.inl every)
      · exact Or.inl (Or.inr own)
      · by_cases every : subject = []
        · exact Or.inl (Or.inl every)
        · exact Or.inr (alike.folded positive r member within every matched)
  · rintro ⟨same, database⟩
    refine ⟨fun r member named own => ?_, fun r member inScope => ?_, fun positive r member inScope => ?_,
      fun positive r member within named matched => ?_⟩
    · rw [← Bool.not_eq_true]
      intro within
      rcases (memory r).mp ((same r member).mpr ((asked r).mpr ⟨within, Or.inl (Or.inr own)⟩)) with every | under
      · exact named every
      · rw [own, below_self] at under
        cases under
    · exact ((asked r).mp ((same r member).mp ((memory r).mpr inScope))).1
    · exact (database positive).1 r member ((same r member).mp ((memory r).mpr inScope))
    · have taken := (database positive).2 r member ((disk r).mpr ⟨within, Or.inr (Or.inr matched)⟩)
      exact ((memory r).mp ((same r member).mpr taken)).resolve_left named

variable [Tables]

/-- The database gives what is asked for where it kept all of it and finds nothing else. -/
theorem disk_iff : (∀ m, (∃ r ∈ all, diskScope subject fromTs toTs r = true ∧ r.stored.wire connID = m) ↔
      ∃ r ∈ all, wanted subject fromTs toTs r = true ∧ r.wire connID = m) ↔
    (∀ r ∈ all, wanted subject fromTs toTs r = true → r.reply = []) ∧
      ∀ r ∈ all, diskScope subject fromTs toTs r = true → wanted subject fromTs toTs r = true := by
  constructor
  · intro same
    refine ⟨fun r member asked => ?_, fun r member taken => ?_⟩
    · obtain ⟨r', _, _, looks⟩ := (same _).mpr ⟨r, member, asked, rfl⟩
      exact (congrArg NatsMessage.reply looks).symm
    · obtain ⟨r', _, asked, looks⟩ := (same _).mp ⟨r, member, taken, rfl⟩
      have subj : r'.subject = r.subject := congrArg NatsMessage.subject looks
      have time : r'.timestamp = r.timestamp := congrArg NatsMessage.timestamp looks
      unfold wanted at asked ⊢
      rwa [subj, time] at asked
  · rintro ⟨plain, exact_⟩ m
    constructor
    · rintro ⟨r, member, taken, rfl⟩
      have asked := exact_ r member taken
      exact ⟨r, member, asked, ((r.stored_wire_iff connID).mpr (plain r member asked)).symm⟩
    · rintro ⟨r, member, asked, rfl⟩
      exact ⟨r, member, diskScope_of_wanted asked, (r.stored_wire_iff connID).mpr (plain r member asked)⟩

/-- A bundle from the database and one from memory have the same messages, those that
were asked for, exactly in these cases. -/
theorem same_messages_iff (rt : Runtime) (holds : s.Holds connID all) (keeps : db.Keeps connID all)
    (few : all.length < limit) (now : Int) :
    ((∀ m, m ∈ exportMessages rt ⟨s, some db⟩ none now connID subject fromTs toTs limit ↔
        m ∈ exportMessages rt ⟨s, none⟩ none now connID subject fromTs toTs limit) ∧
      ∀ m, m ∈ exportMessages rt ⟨s, none⟩ none now connID subject fromTs toTs limit ↔
        ∃ r ∈ all, wanted subject fromTs (if toTs = 0 then now else toTs) r = true ∧ r.wire connID = m) ↔
    Alike all subject fromTs (if toTs = 0 then now else toTs) := by
  generalize until_ : (if toTs = 0 then now else toTs) = last
  have memory (m : NatsMessage) : m ∈ exportMessages rt ⟨s, none⟩ none now connID subject fromTs toTs limit ↔
      ∃ r ∈ all, memoryScope subject r = true ∧ r.wire connID = m := by
    unfold exportMessages
    rw [(Runtime.insertion_perm _ _).mem_iff, until_]
    exact mem_memory holds few
  have database (m : NatsMessage) : m ∈ exportMessages rt ⟨s, some db⟩ none now connID subject fromTs toTs limit ↔
      if 0 < fromTs then ∃ r ∈ all, diskScope subject fromTs last r = true ∧ r.stored.wire connID = m
      else ∃ r ∈ all, memoryScope subject r = true ∧ r.wire connID = m := by
    unfold exportMessages bundleMessages
    rw [(Runtime.insertion_perm _ _).mem_iff, until_]
    dsimp only
    split
    · exact mem_disk keeps few
    · exact mem_memory holds few
  have seen {p : Str → Int → Bool} (a b : Record) (looks : a.wire connID = b.wire connID)
      (taken : p a.subject a.timestamp = true) : p b.subject b.timestamp = true := by
    have subj : a.subject = b.subject := congrArg NatsMessage.subject looks
    have time : a.timestamp = b.timestamp := congrArg NatsMessage.timestamp looks
    rwa [subj, time] at taken
  have scope := image_eq_iff (l := all) (f := fun r : Record => r.wire connID) (p := fun r => memoryScope subject r = true)
    (q := fun r => wanted subject fromTs last r = true)
    (seen (p := fun subj _ => subject = [] || below subject subj))
    (seen (p := fun subj ts => between fromTs last ts && (subject = [] || subj = subject || below subject subj)))
  rw [alike_iff]
  simp only [memory, database]
  rw [← scope, and_comm]
  refine and_congr_right fun whole => ?_
  simp only [whole]
  by_cases positive : 0 < fromTs
  · simp only [positive, if_true, true_imp_iff]
    exact disk_iff
  · simp only [positive, if_false, false_imp_iff, implies_true]

end Alike

section Sample

/-- A measurement below `a`. -/
def measured : Record := { subject := "a.b".toList, data := .text ['1'], timestamp := 3, sequence := 1 }

def measuredShard : Shard := { Shard.newShard 4096 10 with
  bytes := measured.bytes
  count := 1
  fifo := [some 0]
  conns := (∅ : Map Str Ref).insert ['c'] 0
  entries := fun _ => { record := some measured, size := measured.bytes, dead := false, buf := 0, conn := 0 }
  bufs := fun _ => SubjectBuf.empty.push 0
  hists := fun _ => { subjects := (∅ : Map Str Ref).insert measured.subject 0, count := 1, bytes := measured.bytes }
  next := 1 }

def measuredStore : MemStore := ⟨[measuredShard], fun _ => 0⟩

def measuredDB : DB where
  file := {
    version := ftsSchemaVersion
    rows := [⟨1, ['c'], measured.subject, 3, 1, .string, measured.data, none⟩]
    triggers := false
    index := .empty
    ids := List.nodup_singleton 1 }
  fullText := false

theorem measuredStore_holds : measuredStore.Holds ['c'] [measured] where
  shards := by decide
  ring := by
    intro i sh here subject
    obtain ⟨rfl, rfl⟩ : i = 0 ∧ sh = measuredShard := by
      cases i with
      | zero => exact ⟨rfl, (Option.some.inj here).symm⟩
      | succ i => cases here
    have placed : measuredStore.shardOf subject 0 = 0 := rfl
    rw [if_pos placed]
    by_cases own : measured.subject = subject
    · subst own
      decide
    · have missing : ((∅ : Map Str Ref).insert measured.subject 0).lookup subject = none := by
        rw [AList.lookup_insert_ne (Ne.symm own)]
        rfl
      have empty : measuredShard.contents ['c'] subject = [] := by
        unfold Shard.contents
        rw [show measuredShard.conns.lookup ['c'] = some 0 from rfl]
        dsimp only
        rw [show (measuredShard.hists 0).subjects.lookup subject = none from missing]
      rw [empty, List.filter_singleton, decide_eq_false own]
      rfl

theorem measuredDB_keeps : measuredDB.Keeps ['c'] [measured] := List.Perm.refl _

theorem same_messages_measured :
    let _ := asciiTables
    ∀ m, m ∈ exportMessages .plain ⟨measuredStore, some measuredDB⟩ none 9 ['c'] ['a'] 1 5 10 ↔
      m ∈ exportMessages .plain ⟨measuredStore, none⟩ none 9 ['c'] ['a'] 1 5 10 := by
  let _ := asciiTables
  refine ((same_messages_iff .plain measuredStore_holds measuredDB_keeps (by decide) 9).mpr ⟨?_, ?_, ?_, ?_⟩).1
  · decide
  · decide
  · decide
  · decide

/-- Asked for `a.b`, the database gives its message and memory does not. -/
theorem own_missing :
    let _ := asciiTables
    ¬ ∀ m, m ∈ exportMessages .plain ⟨measuredStore, some measuredDB⟩ none 9 ['c'] measured.subject 1 5 10 ↔
      m ∈ exportMessages .plain ⟨measuredStore, none⟩ none 9 ['c'] measured.subject 1 5 10 := by
  intro tables same
  have given : measured.wire ['c'] ∈
      exportMessages .plain ⟨measuredStore, some measuredDB⟩ none 9 ['c'] measured.subject 1 5 10 := by decide
  have missing : exportMessages .plain ⟨measuredStore, none⟩ none 9 ['c'] measured.subject 1 5 10 = [] := by decide
  rw [same, missing] at given
  exact List.not_mem_nil given

end Sample
end Bundle
end NatsExplorer
