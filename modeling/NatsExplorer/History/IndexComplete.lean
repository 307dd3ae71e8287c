import NatsExplorer.History.Persistence

/-! Whether the word index knows every message while it is asked. Closing keeps
the triggers as they are, opening creates them, and only a schema change fills the
index on the way: a file closed without triggers comes back with an index that
lacks what was written in between. -/
namespace NatsExplorer.History
open Go

def File.Covered (f : File) : Prop := ∀ r ∈ f.rows, r.kind ≠ .binary → r.id ∈ f.index.rowids

/-- A file as a run leaves it: its index is complete or empty, as the triggers are
there or not. A file of an older schema loses its index when it is opened. -/
inductive File.AtRest (f : File) : Prop where
  | older : f.version < ftsSchemaVersion → AtRest f
  | filled : f.triggers = true → f.Covered → AtRest f
  | emptied : f.triggers = false → f.index.rowids = [] → AtRest f

structure DB.InStep (d : DB) : Prop where
  version : ¬ d.file.version < ftsSchemaVersion
  triggers : d.file.triggers = d.fullText
  filled : d.fullText = true → d.file.Covered
  emptied : d.fullText = false → d.file.index.rowids = []

theorem DB.InStep.atRest {d : DB} (inStep : d.InStep) : d.file.AtRest := by
  cases flag : d.fullText with
  | true => exact .filled (inStep.triggers.trans flag) (inStep.filled flag)
  | false => exact .emptied (inStep.triggers.trans flag) (inStep.emptied flag)

variable [Tokenizer] {f : File} {d : DB}

theorem insertRow_same [Tables] (f : File) (entry : Str × Record) :
    (f.insertRow entry).version = f.version ∧ (f.insertRow entry).triggers = f.triggers ∧
      (f.triggers = false → (f.insertRow entry).index = f.index) ∧
      (f.triggers = true → f.Covered → (f.insertRow entry).Covered) := by
  refine ⟨rfl, rfl, fun off => by simp [File.insertRow, off], fun on covered r member text => ?_⟩
  simp only [File.insertRow, on, if_true, Index.insert] at member ⊢
  rcases List.mem_append.mp member with old | new
  · exact List.mem_append_left _ (covered r old text)
  · rw [List.mem_singleton] at new
    rw [new]
    exact List.mem_append_right _ List.mem_cons_self

theorem DB.InStep.insert [Tables] (inStep : d.InStep) (batch : List (Str × Record)) :
    DB.InStep { d with file := d.file.insert batch } := by
  obtain ⟨file, flag⟩ := d
  induction batch generalizing file with
  | nil => exact inStep
  | cons entry batch ih =>
    obtain ⟨version, triggers, off, on⟩ := insertRow_same file entry
    have next : DB.InStep ⟨file.insertRow entry, flag⟩ :=
      { version := version.symm ▸ inStep.version
        triggers := triggers.trans inStep.triggers
        filled := fun flagged => on (inStep.triggers.trans flagged) (inStep.filled flagged)
        emptied := fun unflagged => by
          rw [off (inStep.triggers.trans unflagged)]
          exact inStep.emptied unflagged }
    exact ih _ next

theorem deleted_rowids (gone : List Row) (ix : Index) :
    (gone.foldl (fun ix r => ix.delete r.id r.subject []) ix).rowids =
      ix.rowids.filter fun id => id ∉ gone.map Row.id := by
  induction gone generalizing ix with
  | nil => simp
  | cons r gone ih =>
    rw [List.foldl_cons, ih, Index.delete, List.filter_filter]
    apply List.filter_congr
    intro id _
    rw [Bool.eq_iff_iff, Bool.and_eq_true, decide_eq_true_iff, decide_eq_true_iff, decide_eq_true_iff,
      List.map_cons, List.mem_cons, not_or, and_comm]

theorem deleteWhere_covered (gone : Row → Bool) (on : f.triggers = true) (covered : f.Covered) :
    (f.deleteWhere gone).Covered := by
  intro r member text
  obtain ⟨old, left⟩ := List.mem_filter.mp member
  simp only [File.deleteWhere, on, if_true, deleted_rowids]
  refine List.mem_filter.mpr ⟨covered r old text, decide_eq_true ?_⟩
  intro reused
  obtain ⟨r', member', same⟩ := List.mem_map.mp reused
  obtain ⟨old', gone'⟩ := List.mem_filter.mp member'
  -- The primary key says it is the same row.
  rw [List.inj_on_of_nodup_map f.ids old' old same] at gone'
  simp [gone'] at left

theorem DB.InStep.deleteWhere (inStep : d.InStep) (gone : Row → Bool) :
    DB.InStep { d with file := d.file.deleteWhere gone } where
  version := inStep.version
  triggers := inStep.triggers
  filled flag := deleteWhere_covered gone (inStep.triggers.trans flag) (inStep.filled flag)
  emptied flag := by
    simp only [File.deleteWhere, inStep.triggers.trans flag]
    exact inStep.emptied flag

theorem rebuild_covered (f : File) (triggers : Bool) :
    File.Covered { f with triggers := triggers, index := .rebuild f.rows } :=
  fun _ member _ => List.mem_map_of_mem member

theorem DB.InStep.setFullText (inStep : d.InStep) (on : Bool) : (d.setFullText on).InStep := by
  unfold DB.setFullText
  split
  · exact inStep
  · cases on with
    | true =>
      exact ⟨inStep.version, rfl, fun _ => rebuild_covered d.file true, fun off => (by cases off)⟩
    | false => exact ⟨inStep.version, rfl, fun on => (by cases on), fun _ => rfl⟩

theorem openDB_version (f : File) : ¬ (DB.openDB f).file.version < ftsSchemaVersion := by
  unfold DB.openDB File.ensureFTS
  split
  · exact lt_irrefl _
  · rename_i current
    exact current

/-- The file has an index that knows its messages, or gets one. -/
def File.Fillable (f : File) : Prop :=
  f.version < ftsSchemaVersion ∨ f.triggers = true ∨ ∀ r ∈ f.rows, r.kind = .binary

/-- Opening a file covers its messages where the file was left in order. -/
theorem openDB_covered (rest : f.AtRest) : (DB.openDB f).file.Covered ↔ f.Fillable := by
  unfold DB.openDB File.ensureFTS
  by_cases older : f.version < ftsSchemaVersion
  · rw [if_pos older]
    refine iff_of_true ?_ (Or.inl older)
    split
    · exact fun _ member _ => List.mem_map_of_mem member
    · rename_i none
      intro r member _
      rw [List.length_pos_iff, ne_eq, not_not] at none
      rw [none] at member
      cases member
  · rw [if_neg older]
    cases rest with
    | older here => exact absurd here older
    | filled on covered => exact iff_of_true covered (Or.inr (Or.inl on))
    | emptied off none =>
      constructor
      · intro covered
        refine Or.inr (Or.inr fun r member => ?_)
        by_contra text
        have listed := covered r member text
        rw [none] at listed
        cases listed
      · rintro (here | on | binary) r member text
        · exact absurd here older
        · rw [off] at on
          cases on
        · exact absurd (binary r member) text

theorem open_on (f : File) : (DB.openDB f).setFullText true = DB.openDB f := if_pos rfl

/-- Opening with the flag off starts an empty index, whatever the file held. -/
theorem open_off (f : File) : ((DB.openDB f).setFullText false).InStep := by
  have version := openDB_version f
  unfold DB.setFullText
  rw [if_neg (by simp [DB.openDB])]
  exact ⟨version, rfl, fun on => (by cases on), fun _ => rfl⟩

namespace Persistence

/-- While the index is asked, it knows every message that has words. -/
def Complete (p : Persistence) : Prop := ∀ d, p.db = some d → d.fullText = true → d.file.Covered

structure InOrder (p : Persistence) : Prop where
  rest : p.db = none → p.file.AtRest
  inStep (d : DB) : p.db = some d → d.InStep

omit [Tokenizer] in
theorem InOrder.complete {p : Persistence} (order : p.InOrder) : p.Complete :=
  fun d current flag => (order.inStep d current).filled flag

omit [Tokenizer] in
theorem InOrder.close {p : Persistence} (order : p.InOrder) : p.close.file.AtRest := by
  unfold Persistence.close
  cases current : p.db with
  | none => exact order.rest current
  | some d => exact (order.inStep d current).atRest

variable [Tables] [Filter.Compiler]

/-- A step that opens the file with the flag on finds one whose index is complete,
or is rebuilt, or has nothing to hold. -/
def Ready (p : Persistence) (op : Op) : Prop := ∀ f, p.opens op = some (f, true) → f.Fillable

variable {p : Persistence} {op : Op}

theorem step_inOrder (order : p.InOrder) (ready : p.Ready op) : (p.step op).InOrder := by
  have opened {q : Persistence} {d : DB} (current : q.db = some d) (inStep : d.InStep) :
      q.InOrder := by
    refine ⟨fun none => ?_, fun d' current' => ?_⟩
    · rw [current] at none
      cases none
    · rw [current, Option.some.injEq] at current'
      exact current' ▸ inStep
  cases step_moves p op with
  | same _ same => rwa [same]
  | opened f flag opens here current =>
    refine opened current ?_
    cases flag with
    | false => exact open_off f
    | true =>
      rw [open_on]
      have covered := (openDB_covered (here ▸ order.close)).mpr (ready f opens)
      refine ⟨openDB_version f, ?_, fun _ => covered, fun off => by cases off⟩
      unfold DB.openDB File.ensureFTS
      split <;> rfl
  | flagged d on _ before current =>
    exact opened current ((order.inStep d before).setFullText on)
  | inserted d batch _ _ before current =>
    exact opened current ((order.inStep d before).insert batch)
  | deleted d gone _ before current =>
    exact opened current ((order.inStep d before).deleteWhere gone)
  | closed _ none file =>
    refine ⟨fun _ => ?_, fun d current => ?_⟩
    · rcases file with same | purged
      · exact same ▸ order.close
      · exact purged ▸ .older (by decide)
    · rw [none] at current
      cases current

/-- A step that is not ready is seen at once. -/
theorem step_incomplete (order : p.InOrder) (unready : ¬ p.Ready op) : ¬ (p.step op).Complete := by
  simp only [Ready, not_forall] at unready
  obtain ⟨f, opens, unfilled⟩ := unready
  intro complete
  have nothing {P : Prop} (none : p.opens op = none) : P := by
    rw [none] at opens
    cases opens
  cases step_moves p op with
  | same none _ => exact nothing none
  | flagged _ _ none _ _ => exact nothing none
  | inserted _ _ _ none _ _ => exact nothing none
  | deleted _ _ none _ _ => exact nothing none
  | closed none _ _ => exact nothing none
  | opened f' flag opens' here current =>
    rw [opens, Option.some.injEq, Prod.mk.injEq] at opens'
    obtain ⟨rfl, rfl⟩ := opens'
    rw [open_on] at current
    exact unfilled ((openDB_covered (here ▸ order.close)).mp (complete _ current rfl))

/-- From the first start of an installation, over a new file or one of an older
schema, the index is complete in every state exactly if every step is ready. -/
theorem index_complete_iff (closed : p.db = none) (older : p.file.version < ftsSchemaVersion)
    (ops : List Op) :
    (∀ before, before <+: ops → (Transition.run step p before).Complete) ↔
      Transition.Along step Ready p ops := by
  have order : p.InOrder := by
    refine ⟨fun _ => .older older, fun d current => ?_⟩
    rw [closed] at current
    cases current
  refine Transition.visible_iff InOrder.complete (fun order _ => step_inOrder order) ?_ order
  intro p order op complete
  by_contra unready
  exact step_incomplete order unready complete

end Persistence
end NatsExplorer.History

namespace NatsExplorer.History.Persistence
open Go

theorem index_complete_started :
    let _ := asciiTables; let _ := sampleCompiler; let _ := oneToken
    ∀ before, before <+: [.restart (sampleStart true), .insert [recorded ['x'] 1]] →
      (Transition.run step sampleInstall before).Complete := by
  let _ := asciiTables
  let _ := sampleCompiler
  let _ := oneToken
  refine (index_complete_iff rfl (by decide) _).mpr ⟨?_, ?_, trivial⟩
  · intro f opens
    have here : File.fresh = f := congrArg Prod.fst (Option.some.inj opens)
    exact here ▸ Or.inl (by decide)
  · intro f opens
    cases opens

/-- A message is recorded while the index is off, and a restart turns it on. -/
theorem index_complete_stale : ¬ ∀ (_ : Tables) (_ : Filter.Compiler) (_ : Tokenizer)
    (p : Persistence) (ops : List Op), p.db = none → p.file.version < ftsSchemaVersion →
      (Transition.run step p ops).Complete := by
  intro claim
  have complete := claim asciiTables sampleCompiler oneToken sampleInstall
    [.restart (sampleStart false), .insert [recorded ['x'] 1], .restart (sampleStart true)] rfl (by decide)
  have listed := complete _ rfl rfl _ (List.mem_singleton_self _) (by decide)
  exact absurd listed (by decide)

end NatsExplorer.History.Persistence
