import NatsExplorer.Schema.Collected
import Mathlib.Data.List.Flatten

/-! What two collectors are compared by, from the documents alone: a collector keeps the first distinct paths
its documents show, and counts below those. -/
namespace NatsExplorer.schema
open Go Go.json

/-- Every path of a document, with its values. -/
def everything (doc : Value) : List (Str × Value) :=
  WalkDoc [] doc 0 (fun p v nodes => (true, nodes ++ [(p, v)])) []

def occurs (p : Str) (doc : Value) : Bool := decide (p ∈ (everything doc).map Prod.fst)

/-- Up to `MaxFields` distinct paths. -/
def keep (paths : List Str) (p : Str) : List Str := if p ∈ paths ∨ maxFields ≤ paths.length then paths else paths ++ [p]

/-- The first distinct paths of documents. -/
def kept (docs : List Value) : List Str := ((docs.flatMap everything).map Prod.fst).foldl keep []

/-- What the documents show below the paths that are kept. -/
def reached (docs : List Value) : List (List (Str × Value)) := docs.map (visited fun p => decide (p ∈ kept docs))

theorem everything_eq (doc : Value) : everything doc = visited (fun _ => true) doc := by
  have appended (nodes seen : List (Str × Value)) :
      nodes.foldl (fun seen n => seen ++ [(n.1, n.2)]) seen = seen ++ nodes := by
    induction nodes generalizing seen with
    | nil => exact (List.append_nil _).symm
    | cons n nodes ih => rw [List.foldl_cons, ih, List.append_assoc, List.singleton_append]
  let visit (p : Str) (v : Value) (nodes : List (Str × Value)) : Bool × List (Str × Value) := (true, nodes ++ [(p, v)])
  have answers : ∀ p v nodes, (visit p v nodes).1 = (fun _ : Str => true) p := fun _ _ _ => rfl
  exact (walkDoc_settled answers doc []).trans (appended _ [])

/-- Below fewer paths there is no more to see. -/
theorem visited_sublist (keep : Str → Bool) (doc : Value) : (visited keep doc).Sublist (everything doc) := by
  rw [everything_eq]
  refine List.Sublist.filter _ ?_
  generalize maxDepth = left
  generalize (([] : Str), doc) = n
  induction left generalizing n with
  | zero => exact .refl _
  | succ left ih =>
    simp only [Bool.or_true] at ih
    simp only [Pruning.visits, Bool.or_true, if_true]
    refine .cons_cons n ?_
    split
    · exact List.Sublist.flatMap_right _ fun n _ => ih n
    · exact List.nil_sublist _

section Collect
variable {F : Type} [Formats F]

/-- A collector that knows these paths. -/
def Knows (s : Collector F × List Str) (paths : List Str) : Prop :=
  (∀ p, p ∈ s.1.paths ↔ p ∈ paths) ∧ s.1.paths.keys.length = paths.length

omit [Formats F] in
theorem keys_new {V : Type} {m : Map Str V} {p : Str} {v : V} (absent : p ∉ m) : (m.insert p v).keys.length = m.keys.length + 1 := by
  rw [AList.keys, AList.keys, AList.entries_insert_of_notMem absent, List.keys_cons, List.length_cons]

theorem visit_knows (p : Str) (v : Value) (s : Collector F × List Str) (paths : List Str) (knows : Knows s paths) :
    Knows (Collector.visit p v s).2 (keep paths p) ∧
      ((Collector.visit p v s).1 = false → maxFields ≤ (keep paths p).length) := by
  obtain ⟨c, seen⟩ := s
  obtain ⟨same, length⟩ := knows
  have there (q : Str) : q ∈ (Collector.record p v (c, seen)).1.paths ↔ q = p ∨ q ∈ paths := by
    rw [Collector.mem_record, same q]
  by_cases known : p ∈ c.paths
  · have already : p ∈ paths := (same p).mp known
    have again : (Collector.record p v (c, seen)).1.paths.keys.length = c.paths.keys.length := Collector.keys_again known
    rw [Collector.visit_known known, keep, if_pos (.inl already)]
    refine ⟨⟨fun q => (there q).trans ⟨fun any => any.elim (fun here => here ▸ already) id, .inr⟩, again.trans length⟩, nofun⟩
  · have new : p ∉ paths := mt (same p).mpr known
    by_cases full : maxFields ≤ c.paths.keys.length
    · rw [Collector.visit_spent known full, keep, if_pos (.inr (length ▸ full))]
      exact ⟨⟨same, length⟩, fun _ => length ▸ full⟩
    · have one : (Collector.record p v (c, seen)).1.paths.keys.length = c.paths.keys.length + 1 := keys_new known
      have room : ¬ (p ∈ paths ∨ maxFields ≤ paths.length) := not_or.mpr ⟨new, length ▸ full⟩
      rw [Collector.visit_new known full, keep, if_neg room]
      refine ⟨⟨fun q => (there q).trans ?_, ?_⟩, nofun⟩
      · rw [List.mem_append, List.mem_singleton, or_comm]
      · rw [List.length_append, List.length_singleton, ← length]
        exact one

/-- Once there are so many paths there are no more. -/
theorem keep_full {paths : List Str} (full : maxFields ≤ paths.length) (p : Str) : keep paths p = paths := if_pos (.inr full)

theorem add_knows (c : Collector F) (doc : Value) (paths : List Str) (knows : Knows (c, []) paths) :
    Knows (c.add doc, []) (((everything doc).map Prod.fst).foldl keep paths) := by
  let step (paths : List Str) (n : Str × Value) : List Str := if n.1 = [] then paths else keep paths n.1
  have each (n : Str × Value) (s : Collector F × List Str) (paths : List Str) (knows : Knows s paths) :
      Knows (named Collector.visit n s).2 (step paths n) ∧
        ((named Collector.visit n s).1 = false → maxFields ≤ (step paths n).length) := by
    unfold named step
    by_cases root : n.1 = []
    · rw [if_pos root, if_pos root]
      exact ⟨knows, nofun⟩
    · rw [if_neg root, if_neg root]
      exact visit_knows n.1 n.2 s paths knows
  have walked := Pruning.walk_related below Knows step (fun n s paths knows => (each n s paths knows).1)
    (fun n s paths knows stop n' => ?_) (maxDepth - 0) ([], doc) ({ c with samples := c.samples + 1 }, []) paths knows
  · rw [everything_eq, visited, List.foldl_map, List.foldl_filter]
    have same : (fun (paths : List Str) (n : Str × Value) => if n.1 ≠ [] then keep paths n.1 else paths) = step := by
      funext paths n
      unfold step
      by_cases root : n.1 = [] <;> simp [root]
    simp only [Bool.or_true, decide_eq_true_eq, same]
    exact ⟨walked.1, walked.2⟩
  · have full := (each n s paths knows).2 stop
    change (if n'.1 = [] then _ else _) = _
    split
    · rfl
    · exact keep_full full _

/-- A collector keeps the first distinct paths. -/
theorem collected_knows (docs : List Value) (p : Str) :
    (docs.foldl Collector.add (newCollector : Collector F)).knows p = decide (p ∈ kept docs) := by
  have all : Knows (docs.foldl Collector.add (newCollector : Collector F), []) (kept docs) := by
    unfold kept
    induction docs using List.reverseRecOn with
    | nil => exact ⟨fun p => iff_of_false (AList.notMem_empty _) List.not_mem_nil, rfl⟩
    | append_singleton docs doc ih =>
      rw [List.foldl_append, List.flatMap_append, List.map_append, List.foldl_append, List.flatMap_singleton]
      exact add_knows _ doc _ ih
  exact decide_eq_decide.mpr (all.1 p)

/-- What a collector has at a path, from the documents alone. -/
theorem collected_stat (docs : List Value) (p : Str) :
    let c : Collector F := docs.foldl Collector.add newCollector
    if p ∈ kept docs then p ∈ (reached docs).flatten.map Prod.fst ∧ ∃ first, c.paths.lookup p = some (.of p (reached docs) first)
    else c.paths.lookup p = none := by
  intro c
  have knows : c.knows = fun p => decide (p ∈ kept docs) := funext (collected_knows docs)
  obtain ⟨tracks, -⟩ := Collector.collected (F := F) docs
  have tracks : Collector.Tracks (fun p => decide (p ∈ kept docs)) c (reached docs) := by
    rw [reached, ← knows]
    exact tracks
  have known : p ∈ c.paths ↔ p ∈ kept docs := decide_eq_decide.mp (congrFun knows p)
  split
  · rename_i here
    obtain ⟨kept, there⟩ := tracks.known (known.mpr here)
    exact ⟨there, tracks.stats kept there⟩
  · rename_i absent
    exact AList.lookup_eq_none.mpr (mt known.mp absent)

end Collect
end NatsExplorer.schema
