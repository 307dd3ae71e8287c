import NatsExplorer.History.FullText

/-! Whether the word index finds only what is there. Deleting a row takes the
tokens of its subject out of the index and leaves those of its payload, under an
id that an insert may give to another row. -/
namespace NatsExplorer.History
open Go
variable [Tokenizer]

def File.Truthful (f : File) : Prop := ∀ r ∈ f.rows, f.index.Truthful r

/-- No token is left of the rows that had the ids of the next `count` ones. -/
def File.Unused (f : File) (count : Nat) : Prop :=
  ∀ x ∈ f.index.postings, x.rowid < f.nextId ∨ f.nextId + count ≤ x.rowid

variable {f : File}

omit [Tokenizer] in
theorem foldr_max_append (ids : List Nat) {id : Nat} (above : ids.foldr max 0 < id) :
    (ids ++ [id]).foldr max 0 = id := by
  induction ids with
  | nil => exact max_eq_left (Nat.zero_le _)
  | cons first ids ih =>
    rw [List.foldr_cons, max_lt_iff] at above
    rw [List.cons_append, List.foldr_cons, ih above.2]
    exact max_eq_right above.1.le

theorem nextId_insertRow [Tables] (f : File) (entry : Str × Record) :
    (f.insertRow entry).nextId = f.nextId + 1 := by
  simp only [File.nextId, File.insertRow, List.map_append, List.map_cons, List.map_nil, Row.ofRecord]
  rw [foldr_max_append _ (Nat.lt_succ_self _)]

theorem Index.Truthful.insert {ix : Index} {r r' : Row} (truthful : ix.Truthful r)
    (other : r.id ≠ r'.id) : (ix.insert r'.id r'.subject r'.body).Truthful r := by
  intro x member row
  rcases Multiset.mem_add.mp member with old | new
  · exact truthful x old row
  · exact absurd (row.symm.trans (rowid_of_mem new)) other

theorem insertRow_truthful [Tables] (truthful : f.Truthful) {count : Nat} (unused : f.Unused (count + 1))
    (entry : Str × Record) :
    (f.insertRow entry).Truthful ∧ (f.insertRow entry).Unused count := by
  have fresh {x : Posting} (member : x ∈ f.index.postings) : x.rowid ≠ f.nextId := by
    rcases unused x member with low | high <;> omega
  constructor
  · intro r member
    simp only [File.insertRow] at member ⊢
    rcases List.mem_append.mp member with old | new
    · have other := (File.id_lt_nextId old).ne
      split
      · exact (truthful r old).insert other
      · exact truthful r old
    · rw [List.mem_singleton] at new
      subst new
      intro x listed row
      split at listed
      · rcases Multiset.mem_add.mp listed with old | new
        · exact absurd row (fresh old)
        · exact new
      · exact absurd row (fresh listed)
  · intro x listed
    rw [nextId_insertRow]
    have old (member : x ∈ f.index.postings) : x.rowid < f.nextId + 1 ∨ f.nextId + 1 + count ≤ x.rowid := by
      rcases unused x member with low | high <;> omega
    simp only [File.insertRow] at listed
    split at listed
    · rcases Multiset.mem_add.mp listed with member | new
      · exact old member
      · have row : x.rowid = f.nextId := rowid_of_mem new
        omega
    · exact old listed

theorem insert_truthful [Tables] (truthful : f.Truthful) {batch : List (Str × Record)}
    (unused : f.Unused batch.length) : (f.insert batch).Truthful := by
  induction batch generalizing f with
  | nil => exact truthful
  | cons entry batch ih =>
    obtain ⟨truthful, unused⟩ := insertRow_truthful truthful unused entry
    exact ih truthful unused

theorem deleted_postings (gone : List Row) (ix : Index) :
    (gone.foldl (fun ix r => ix.delete r.id r.subject []) ix).postings ≤ ix.postings := by
  induction gone generalizing ix with
  | nil => exact le_refl _
  | cons r gone ih => exact (ih _).trans (Multiset.sub_le_self _ _)

theorem deleteWhere_truthful (truthful : f.Truthful) (gone : Row → Bool) :
    (f.deleteWhere gone).Truthful := by
  intro r member x listed
  apply truthful r (List.mem_of_mem_filter member) x
  simp only [File.deleteWhere] at listed
  split at listed
  · exact Multiset.mem_of_le (deleted_postings _ _) listed
  · exact listed

omit [Tokenizer] in
theorem mem_sum_map {rows : List Row} {postings : Row → Multiset Posting} {x : Posting} :
    x ∈ (rows.map postings).sum ↔ ∃ r ∈ rows, x ∈ postings r := by
  induction rows with
  | nil => simp
  | cons r rows ih => simp [ih]

theorem rebuild_truthful (f : File) {r : Row} (member : r ∈ f.rows) :
    (Index.rebuild f.rows).Truthful r := by
  intro x listed row
  obtain ⟨r', member', listed⟩ := mem_sum_map.mp listed
  have same : r'.id = r.id := (rowid_of_mem listed).symm.trans row
  -- The primary key says it is the same row.
  rw [List.inj_on_of_nodup_map f.ids member' member same] at listed
  exact listed

theorem empty_truthful (r : Row) : Index.empty.Truthful r :=
  fun x listed => absurd listed (Multiset.notMem_zero x)

/-- A file whose index tells the truth, or loses it when it is opened. -/
def File.Kept (f : File) : Prop := f.version < ftsSchemaVersion ∨ f.Truthful

theorem openDB_truthful (kept : f.Kept) : (DB.openDB f).file.Truthful := by
  intro r member
  unfold DB.openDB File.ensureFTS at member ⊢
  by_cases older : f.version < ftsSchemaVersion
  · simp only [if_pos older] at member ⊢
    split
    · exact rebuild_truthful f member
    · exact empty_truthful r
  · simp only [if_neg older] at member ⊢
    exact kept.resolve_left older r member

theorem setFullText_truthful {d : DB} (truthful : d.file.Truthful) (on : Bool) :
    (d.setFullText on).file.Truthful := by
  unfold DB.setFullText
  split
  · exact truthful
  · intro r member
    cases on with
    | true => exact rebuild_truthful d.file member
    | false => exact empty_truthful r

namespace Persistence
variable [Tables] [Filter.Compiler]

structure Truthful (p : Persistence) : Prop where
  kept : p.db = none → p.file.Kept
  opened (d : DB) : p.db = some d → d.file.Truthful

/-- The ids an insert gives out have no tokens left in the index. -/
def Unused (p : Persistence) (op : Op) : Prop :=
  ∀ d batch, p.db = some d → op = .insert batch → d.file.Unused batch.length

variable {p : Persistence} {op : Op}

omit [Tables] [Filter.Compiler] in
theorem Truthful.close (truthful : p.Truthful) : p.close.file.Kept := by
  unfold Persistence.close
  cases current : p.db with
  | none => exact truthful.kept current
  | some d => exact Or.inr (truthful.opened d current)

theorem step_truthful (truthful : p.Truthful) (unused : p.Unused op) : (p.step op).Truthful := by
  have opened {q : Persistence} {d : DB} (current : q.db = some d) (here : d.file.Truthful) :
      q.Truthful := by
    refine ⟨fun none => ?_, fun d' current' => ?_⟩
    · rw [current] at none
      cases none
    · rw [current, Option.some.injEq] at current'
      exact current' ▸ here
  cases step_moves p op with
  | same _ same => rwa [same]
  | opened f flag _ here current =>
    exact opened current (setFullText_truthful (openDB_truthful (here ▸ truthful.close)) flag)
  | flagged d on _ before current =>
    exact opened current (setFullText_truthful (truthful.opened d before) on)
  | inserted d batch same _ before current =>
    exact opened current (insert_truthful (truthful.opened d before) (unused d batch before same))
  | deleted d gone _ before current =>
    exact opened current (deleteWhere_truthful (truthful.opened d before) gone)
  | closed _ none file =>
    refine ⟨fun _ => ?_, fun d current => ?_⟩
    · rcases file with same | purged
      · exact same ▸ truthful.close
      · exact purged ▸ Or.inl (by decide)
    · rw [none] at current
      cases current

end Persistence
end NatsExplorer.History

namespace NatsExplorer.History.Persistence
open Go

end NatsExplorer.History.Persistence
