import NatsExplorer.Handler.History
import NatsExplorer.History.Dropped
import NatsExplorer.Subscription.Manager

/-! Clearing a subject, or a subject and what is below it (`DELETE /api/history`): in
memory, in the database and, by the list of what memory gave up, in the tree. -/
namespace NatsExplorer.Handler
open Go History Subscription Shards

/-- A minute of a numeric field; `A` is what is kept of it. -/
structure Rollup (A : Type) where
  conn : Str
  subject : Str
  field : Str
  minute : Int
  point : A

structure Database (A : Type) where
  file : File
  rollups : List (Rollup A)

/-- The tee: memory and, where there is one, the database. -/
structure Copies (A : Type) where
  memory : MemStore
  db : Option (Database A)

structure ClearQuery where
  connID : Str
  subject : Str
  branch : Bool

section Clear
variable {A : Type} [Tokenizer]

def Database.deleteSubject (d : Database A) (connID subject : Str) (branch : Bool) : Database A where
  file := d.file.deleteSubject connID subject branch
  rollups := d.rollups.filter fun r => !(r.conn = connID &&
    (r.subject = subject || (branch && like (likePrefix subject ++ ['.', '%']) r.subject)))

def Copies.dropMatching (rt : Runtime) (t : Copies A) (connID subject : Str) (branch : Bool) : Copies A × List Str :=
  let (memory, gone) := t.memory.dropMatching rt connID subject branch
  ({ memory := memory, db := t.db.map (·.deleteSubject connID subject branch) }, gone)

/-- The loop over the connections, with what `OnCleared` is told. -/
def clearEach (rt : Runtime) (subject : Str) (branch : Bool) : Copies A → List Str → Copies A × List (Str × List Str)
  | t, [] => (t, [])
  | t, id :: ids =>
    let (t, gone) := t.dropMatching rt id subject branch
    let (t, told) := clearEach rt subject branch t ids
    (t, (id, gone) :: told)

/-- `Clear` of a request that names a subject. -/
def clear (rt : Runtime) (t : Copies A) (visible : List Str) (q : ClearQuery) : Copies A × List (Str × List Str) :=
  clearEach rt q.subject q.branch t (connIDs visible q.connID)

end Clear

/-- The subject, or with the flag one below it. -/
def inScope (subject : Str) (branch : Bool) (s : Str) : Bool :=
  s = subject || (branch && strings.hasPrefix s (subject ++ ['.']))

/-- No subject is below another in all but case. -/
def Apart (subject s : Str) : Prop :=
  ∀ head rest, s = head ++ '.' :: rest → head.map asciiLower = subject.map asciiLower → head = subject

/-- The tree of a manager has a count for the subject. -/
def Shows {R : Type} (m : Manager R) (s : Str) : Prop :=
  ∃ r, m.tree.nodes.lookup s = some r ∧ 0 < (m.tree.heap r).count

end NatsExplorer.Handler

namespace NatsExplorer.History.MemStore
open Go Handler

/-- What is held of a subject, in any shard. -/
def held (s : MemStore) (connID subject : Str) : List Record := s.shards.flatMap (·.contents connID subject)

/-- A ring for the subject is there, if only an empty one. -/
def Knows (s : MemStore) (connID subject : Str) : Prop := ∃ sh ∈ s.shards, ∃ h b, sh.Holds connID subject h b

variable {s : MemStore} {connID subject : Str} {branch : Bool}

theorem dropMatching_eq (rt : Runtime) (named : subject ≠ []) : s.dropMatching rt connID subject branch =
    ({ s with shards := s.shards.map fun sh => (sh.dropWhere rt (inScope subject branch) connID).1 },
      (s.shards.map fun sh => (sh.dropWhere rt (inScope subject branch) connID).2).flatten) := by
  unfold dropMatching
  rw [if_neg named]
  simp only [List.map_map]
  rfl

theorem dropMatching_spec (rt : Runtime) (named : subject ≠ []) (sound : ∀ sh ∈ s.shards, sh.Sound) :
    (∀ sh ∈ (s.dropMatching rt connID subject branch).1.shards, sh.Sound) ∧
    (∀ c s', (s.dropMatching rt connID subject branch).1.held c s' =
      if c = connID ∧ inScope subject branch s' = true then [] else s.held c s') ∧
    (∀ c s', (s.dropMatching rt connID subject branch).1.Knows c s' ↔
      s.Knows c s' ∧ ¬ (c = connID ∧ inScope subject branch s' = true)) ∧
    ∀ s', s' ∈ (s.dropMatching rt connID subject branch).2 ↔ inScope subject branch s' = true ∧ s.Knows connID s' := by
  rw [dropMatching_eq rt named]
  refine ⟨?_, fun c s' => ?_, fun c s' => ?_, fun s' => ?_⟩
  · intro sh member
    obtain ⟨sh', listed, rfl⟩ := List.mem_map.mp member
    exact (Shard.dropWhere_spec rt _ (sound sh' listed) connID).1
  · unfold held
    have each : ∀ sh ∈ s.shards, (sh.dropWhere rt (inScope subject branch) connID).1.contents c s' =
        if c = connID ∧ inScope subject branch s' = true then [] else sh.contents c s' :=
      fun sh listed => (Shard.dropWhere_contents rt _ (sound sh listed) connID c s').1
    rw [List.flatMap_map, List.flatMap_congr each]
    split
    · simp
    · rfl
  · unfold Knows
    constructor
    · rintro ⟨sh, member, h, b, held⟩
      obtain ⟨sh', listed, rfl⟩ := List.mem_map.mp member
      obtain ⟨before, other⟩ := ((Shard.dropWhere_contents rt _ (sound sh' listed) connID c s').2 h b).mp held
      exact ⟨⟨sh', listed, h, b, before⟩, other⟩
    · rintro ⟨⟨sh, listed, h, b, held⟩, other⟩
      refine ⟨_, List.mem_map_of_mem listed, h, b, ?_⟩
      exact ((Shard.dropWhere_contents rt _ (sound sh listed) connID c s').2 h b).mpr ⟨held, other⟩
  · rw [List.mem_flatten]
    constructor
    · rintro ⟨gone, member, here⟩
      obtain ⟨sh, listed, rfl⟩ := List.mem_map.mp member
      obtain ⟨scope, h, b, held⟩ := (Shard.dropWhere_gone rt _ sh connID s').mp here
      exact ⟨scope, sh, listed, h, b, held⟩
    · rintro ⟨scope, sh, listed, h, b, held⟩
      exact ⟨_, List.mem_map_of_mem listed, (Shard.dropWhere_gone rt _ sh connID s').mpr ⟨scope, h, b, held⟩⟩

end NatsExplorer.History.MemStore

namespace NatsExplorer.Handler
open Go History Subscription Shards

section Exact
variable {A R : Type} [Tokenizer] {t : Copies A} {ids : List Str} {subject : Str} {branch : Bool}

/-- What the database takes of the rows of these connections. -/
def deleted (subject : Str) (branch : Bool) (s : Str) : Bool :=
  s = subject || (branch && like (likePrefix subject ++ ['.', '%']) s)

omit [Tokenizer] in
theorem deleted_of_scope {s : Str} (scope : inScope subject branch s = true) : deleted subject branch s = true := by
  unfold inScope at scope
  unfold deleted
  rw [Bool.or_eq_true, Bool.and_eq_true] at scope ⊢
  exact scope.imp_right fun below => ⟨below.1, like_of_below (of_decide_eq_true below.2)⟩

omit [Tokenizer] in
/-- The database takes no more than was asked for, but for case. -/
theorem deleted_iff_scope (s : Str) :
    (deleted subject branch s = inScope subject branch s) ↔ (branch = true → Apart subject s) := by
  cases branch with
  | false => simp [deleted, inScope]
  | true =>
    have split : ∀ {head rest : Str}, s = head ++ '.' :: rest → head.map asciiLower = subject.map asciiLower →
        (inScope subject true s = true ↔ head = subject) := by
      rintro head rest rfl folded
      have length : head.length = subject.length := by
        simpa using congrArg List.length folded
      constructor
      · intro scope
        unfold inScope at scope
        rw [Bool.or_eq_true, Bool.true_and] at scope
        rcases scope with same | below
        · have longer := congrArg List.length (of_decide_eq_true same)
          rw [List.length_append, List.length_cons] at longer
          omega
        · obtain ⟨more, same⟩ := of_decide_eq_true below
          rw [List.append_assoc] at same
          exact (List.append_inj same length.symm).1.symm
      · rintro rfl
        unfold inScope
        rw [Bool.or_eq_true, Bool.true_and]
        exact Or.inr (decide_eq_true ⟨rest, by simp⟩)
    constructor
    · intro same _ head rest here folded
      have taken : deleted subject true s = true := by
        unfold deleted
        rw [Bool.or_eq_true, Bool.true_and]
        exact Or.inr ((like_below subject s).mpr ⟨head, rest, here, folded⟩)
      rw [same] at taken
      exact (split here folded).mp taken
    · intro apart
      refine Bool.eq_iff_iff.mpr ⟨fun taken => ?_, deleted_of_scope⟩
      unfold deleted at taken
      rw [Bool.or_eq_true, Bool.true_and] at taken
      rcases taken with same | below
      · unfold inScope
        rw [Bool.or_eq_true]
        exact Or.inl same
      · obtain ⟨head, rest, here, folded⟩ := (like_below subject s).mp below
        exact (split here folded).mpr (apart rfl head rest here folded)

/-- What the loop over the connections leaves, and what it tells. -/
structure Cleared (subject : Str) (branch : Bool) (t : Copies A) (ids : List Str)
    (after : Copies A × List (Str × List Str)) : Prop where
  held : ∀ c s, after.1.memory.held c s = if c ∈ ids ∧ inScope subject branch s = true then [] else t.memory.held c s
  rows : after.1.db.map (·.file.rows) = t.db.map fun d =>
    d.file.rows.filter fun r => !(decide (r.conn ∈ ids) && deleted subject branch r.subject)
  rollups : after.1.db.map (·.rollups) = t.db.map fun d =>
    d.rollups.filter fun r => !(decide (r.conn ∈ ids) && deleted subject branch r.subject)
  told : ∀ c s, (∃ gone, (c, gone) ∈ after.2 ∧ s ∈ gone) ↔ c ∈ ids ∧ inScope subject branch s = true ∧ t.memory.Knows c s

theorem clearEach_spec (rt : Runtime) (named : subject ≠ []) (sound : ∀ sh ∈ t.memory.shards, sh.Sound) (ids : List Str) :
    Cleared subject branch t ids (clearEach rt subject branch t ids) := by
  induction ids generalizing t with
  | nil =>
    refine ⟨fun c s => ?_, ?_, ?_, fun c s => ?_⟩
    · simp [clearEach]
    · simp [clearEach]
    · simp [clearEach]
    · simp [clearEach]
  | cons id ids ih =>
    obtain ⟨sound', held, knows, gone⟩ := @MemStore.dropMatching_spec t.memory id subject branch rt named sound
    have rest := @ih (t.dropMatching rt id subject branch).1 sound'
    have both : ∀ c s, (c ∈ id :: ids ∧ inScope subject branch s = true) ↔
        (c ∈ ids ∧ inScope subject branch s = true) ∨ (c = id ∧ inScope subject branch s = true) := by
      intro c s
      rw [List.mem_cons, or_and_right, or_comm]
    have twice : ∀ c s, (!(decide (c ∈ ids) && deleted subject branch s) && !(decide (c = id) && deleted subject branch s)) =
        !(decide (c ∈ id :: ids) && deleted subject branch s) := by
      intro c s
      rw [← Bool.not_or, ← Bool.and_or_distrib_right]
      simp [Bool.or_comm]
    have db : (t.dropMatching rt id subject branch).1.db = t.db.map (·.deleteSubject id subject branch) := rfl
    refine ⟨fun c s => ?_, ?_, ?_, fun c s => ?_⟩
    · refine (rest.held c s).trans ?_
      rw [if_congr (both c s) rfl rfl, ite_or]
      exact if_congr Iff.rfl rfl (held c s)
    · refine rest.rows.trans ?_
      rw [db]
      cases t.db with
      | none => rfl
      | some d =>
        refine congrArg some ((List.filter_filter ..).trans (List.filter_congr fun r _ => ?_))
        exact twice r.conn r.subject
    · refine rest.rollups.trans ?_
      rw [db]
      cases t.db with
      | none => rfl
      | some d =>
        refine congrArg some ((List.filter_filter ..).trans (List.filter_congr fun r _ => ?_))
        exact twice r.conn r.subject
    · have first : (∃ gone, (c, gone) ∈ (clearEach rt subject branch t (id :: ids)).2 ∧ s ∈ gone) ↔
          (c = id ∧ s ∈ (t.dropMatching rt id subject branch).2) ∨
            ∃ gone, (c, gone) ∈ (clearEach rt subject branch (t.dropMatching rt id subject branch).1 ids).2 ∧ s ∈ gone := by
        change (∃ gone, (c, gone) ∈ (id, (t.dropMatching rt id subject branch).2) ::
          (clearEach rt subject branch (t.dropMatching rt id subject branch).1 ids).2 ∧ s ∈ gone) ↔ _
        simp only [List.mem_cons, Prod.mk.injEq]
        constructor
        · rintro ⟨gone, ⟨rfl, rfl⟩ | later, here⟩
          · exact Or.inl ⟨rfl, here⟩
          · exact Or.inr ⟨gone, later, here⟩
        · rintro (⟨rfl, here⟩ | ⟨gone, later, here⟩)
          · exact ⟨_, Or.inl ⟨rfl, rfl⟩, here⟩
          · exact ⟨gone, Or.inr later, here⟩
      rw [first, rest.told, List.mem_cons]
      have now : s ∈ (t.dropMatching rt id subject branch).2 ↔ inScope subject branch s = true ∧ t.memory.Knows id s := gone s
      have later : (t.dropMatching rt id subject branch).1.memory.Knows c s ↔
          t.memory.Knows c s ∧ ¬ (c = id ∧ inScope subject branch s = true) := knows c s
      rw [now, later]
      constructor
      · rintro (⟨rfl, scope, known⟩ | ⟨listed, scope, known, -⟩)
        · exact ⟨Or.inl rfl, scope, known⟩
        · exact ⟨Or.inr listed, scope, known⟩
      · rintro ⟨member, scope, known⟩
        by_cases same : c = id
        · subst same
          exact Or.inl ⟨rfl, scope, known⟩
        · exact Or.inr ⟨member.resolve_left same, scope, known, fun both => same both.1⟩

/-- Both copies have what they had and nobody asked to be forgotten, and the trees are told
of every subject they show. -/
structure Exactly (managers : Str → Option (Manager R)) (subject : Str) (branch : Bool) (t : Copies A) (ids : List Str)
    (after : Copies A × List (Str × List Str)) : Prop where
  held : ∀ c s, after.1.memory.held c s = if c ∈ ids ∧ inScope subject branch s = true then [] else t.memory.held c s
  rows : after.1.db.map (·.file.rows) = t.db.map fun d =>
    d.file.rows.filter fun r => !(decide (r.conn ∈ ids) && inScope subject branch r.subject)
  rollups : after.1.db.map (·.rollups) = t.db.map fun d =>
    d.rollups.filter fun r => !(decide (r.conn ∈ ids) && inScope subject branch r.subject)
  told : ∀ c ∈ ids, ∀ m, managers c = some m → ∀ s, inScope subject branch s = true → Shows m s →
    ∃ gone, (c, gone) ∈ after.2 ∧ s ∈ gone

/-- Nothing in the database lies below the subject in all but case, and memory knows every
subject the trees show. -/
structure Agreed (managers : Str → Option (Manager R)) (subject : Str) (branch : Bool) (t : Copies A) (ids : List Str) :
    Prop where
  rows : ∀ d, t.db = some d → ∀ r ∈ d.file.rows, r.conn ∈ ids → branch = true → Apart subject r.subject
  rollups : ∀ d, t.db = some d → ∀ r ∈ d.rollups, r.conn ∈ ids → branch = true → Apart subject r.subject
  known : ∀ c ∈ ids, ∀ m, managers c = some m → ∀ s, inScope subject branch s = true → Shows m s → t.memory.Knows c s

omit [Tokenizer] in
/-- Two deletions from a list agree where their conditions do. -/
theorem filter_agree {B : Type} (conn name : B → Str) (l : List B) :
    (l.filter fun r => !(decide (conn r ∈ ids) && deleted subject branch (name r))) =
        (l.filter fun r => !(decide (conn r ∈ ids) && inScope subject branch (name r))) ↔
      ∀ r ∈ l, conn r ∈ ids → branch = true → Apart subject (name r) := by
  constructor
  · intro same r member own
    refine (deleted_iff_scope (name r)).mp (Bool.eq_iff_iff.mpr ⟨fun taken => ?_, deleted_of_scope⟩)
    by_contra other
    have kept := Bool.eq_false_iff.mpr other
    have stays : r ∈ l.filter fun r => !(decide (conn r ∈ ids) && inScope subject branch (name r)) := by
      refine List.mem_filter.mpr ⟨member, ?_⟩
      simp [own, kept]
    rw [← same] at stays
    have left := (List.mem_filter.mp stays).2
    simp [own, taken] at left
  · intro apart
    refine List.filter_congr fun r member => ?_
    by_cases own : conn r ∈ ids
    · rw [(deleted_iff_scope (name r)).mpr (apart r member own)]
    · simp [own]

end Exact

section Sample

@[reducible] def plainTokenizer : Tokenizer where
  tokens s := [s]

def oneRow (subject : Str) : File :=
  let _ := plainTokenizer
  let _ := asciiTables
  File.fresh.insertRow (['c'], { subject := subject, data := .text ['1'], timestamp := 1, sequence := 1 })

/-- A connection that has only what the database remembers of it. -/
def restored : Manager Nat :=
  Manager.start (fun _ => 0) 1 [['>']] ((∅ : Map Str SubjectStats).insert "plant.temp".toList { count := 1, last := none })

def clearPlant : ClearQuery where
  connID := ['c']
  subject := "plant".toList
  branch := true

theorem restored_shows : Shows restored "plant.temp".toList := ⟨_, rfl, by decide⟩

/-- A store that never held anything. -/
def emptyMemory : MemStore := MemStore.newMemStoreShards (fun _ => 0) 0 0 1

def forgotten (subject : Str) : Copies Unit where
  memory := emptyMemory
  db := some { file := oneRow subject, rollups := [] }

theorem empty_knows (c s : Str) : ¬ emptyMemory.Knows c s := by
  rintro ⟨sh, member, h, b, held⟩
  obtain rfl := List.mem_singleton.mp member
  cases held.conn

end Sample
end NatsExplorer.Handler
