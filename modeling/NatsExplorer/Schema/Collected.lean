import NatsExplorer.Schema.Infer

/-! What a collector knows in the end. A path is dropped only when the budget is spent, and then every new one
is: whether a visit went on below a path is settled by what the collector knows in the end, and each stat is
made of all the values the documents show at its path below paths that are known. -/
namespace NatsExplorer.schema
open Go Go.json

/-- What a document shows, in the order of the walk, where it goes on below the paths that are kept. -/
def visited (keep : Str → Bool) (doc : Value) : List (Str × Value) :=
  (Pruning.visits below (fun n => decide (n.1 = []) || keep n.1) maxDepth ([], doc)).filter fun n => n.1 ≠ []

section Walk
variable {S : Type} {visit : Str → Value → S → Bool × S} {keep : Str → Bool} {act : Str → Value → S → S}

theorem walkDoc_eq (Fits : S → Prop) (settled : ∀ p v s, Fits (visit p v s).2 → Fits s ∧ visit p v s = (keep p, act p v s))
    (doc : Value) (s : S) (fit : Fits (WalkDoc [] doc 0 visit s)) :
    Fits s ∧ WalkDoc [] doc 0 visit s = (visited keep doc).foldl (fun s n => act n.1 n.2 s) s := by
  have each (n : Str × Value) (s : S) (fit : Fits (named visit n s).2) : Fits s ∧
      named visit n s = (decide (n.1 = []) || keep n.1, if n.1 = [] then s else act n.1 n.2 s) := by
    unfold named at fit ⊢
    by_cases root : n.1 = []
    · rw [if_pos root] at fit ⊢
      rw [decide_eq_true root, Bool.true_or, if_pos root]
      exact ⟨fit, rfl⟩
    · rw [if_neg root] at fit ⊢
      rw [decide_eq_false root, Bool.false_or, if_neg root]
      exact settled n.1 n.2 s fit
  obtain ⟨start, walked⟩ := Pruning.walk_eq Fits each (maxDepth - 0) ([], doc) s fit
  refine ⟨start, walked.trans ?_⟩
  rw [visited, List.foldl_filter]
  refine congrArg (fun f => List.foldl f s _) (funext fun s => funext fun n => ?_)
  by_cases root : n.1 = [] <;> simp [root]

theorem walkDoc_settled (answers : ∀ p v s, (visit p v s).1 = keep p) (doc : Value) (s : S) :
    WalkDoc [] doc 0 visit s = (visited keep doc).foldl (fun s n => (visit n.1 n.2 s).2) s :=
  (walkDoc_eq (fun _ => True) (fun p v s _ => ⟨trivial, Prod.ext (answers p v s) rfl⟩) doc s trivial).2

end Walk

section Collect
variable {F : Type} [Formats F]

namespace Stat

omit [Formats F] in
/-- The values documents showed at a path. -/
def values (p : Str) (shown : List (List (Str × Value))) : List Value :=
  shown.flatten.filterMap fun n => if n.1 = p then some n.2 else none

/-- The documents that showed a path. -/
def carried (p : Str) (shown : List (List (Str × Value))) : ℕ := shown.countP fun doc => p ∈ doc.map Prod.fst

/-- The stat of a path after all of them. -/
def of (p : Str) (shown : List (List (Str × Value))) (first : ℕ) : Stat F :=
  { (values p shown).foldl observe (newStat first) with present := carried p shown }

theorem collect_present (st : Stat F) (n : ℕ) (text : Str) :
    ({ st with present := n } : Stat F).collect text = { st.collect text with present := n } := by
  unfold collect
  simp only
  by_cases full : st.tooMany = true
  · rw [if_pos full, if_pos full]
  · rw [if_neg full, if_neg full]
    by_cases many : enumMax < (if text ∈ st.strings then st.strings else text :: st.strings).length
    · rw [if_pos many, if_pos many]
    · rw [if_neg many, if_neg many]

theorem observe_present (st : Stat F) (n : ℕ) (v : Value) :
    ({ st with present := n } : Stat F).observe v = { st.observe v with present := n } := by
  unfold observe
  cases v with
  | number text =>
    simp only [numeric]
    cases (Formats.float text : Option F) <;> rfl
  | string text =>
    exact collect_present { st with
      types := bump st.types .string
      example_ := if st.example_ = [] then schema.example_ F (.string text) else st.example_ } n text
  | _ => rfl

omit [Formats F] in
theorem values_snoc (p : Str) (shown : List (List (Str × Value))) (doc : List (Str × Value)) (n : Str × Value) :
    values p (shown ++ [doc ++ [n]]) = values p (shown ++ [doc]) ++ if n.1 = p then [n.2] else [] := by
  simp only [values, List.flatten_append, List.flatten_cons, List.flatten_nil, List.append_nil, List.filterMap_append,
    List.append_assoc]
  by_cases here : n.1 = p <;> simp [here]

theorem values_nil (p : Str) (shown : List (List (Str × Value))) : values p (shown ++ [[]]) = values p shown := by
  simp [values]

theorem carried_nil (p : Str) (shown : List (List (Str × Value))) : carried p (shown ++ [[]]) = carried p shown := by
  simp [carried]

theorem carried_snoc (p : Str) (shown : List (List (Str × Value))) (doc : List (Str × Value)) (n : Str × Value) :
    carried p (shown ++ [doc ++ [n]]) =
      carried p (shown ++ [doc]) + if n.1 = p ∧ p ∉ doc.map Prod.fst then 1 else 0 := by
  simp only [carried, List.countP_append, List.countP_singleton, List.map_append, List.map_cons, List.map_nil, List.mem_append,
    List.mem_singleton]
  by_cases here : n.1 = p
  · by_cases before : p ∈ doc.map Prod.fst <;> simp [here, before]
  · by_cases before : p ∈ doc.map Prod.fst <;> simp [here, before, Ne.symm here]

end Stat

namespace Collector

/-- Whether a path has a stat. -/
def knows (c : Collector F) (p : Str) : Bool := decide (p ∈ c.paths)

/-- A later state: it knows more, but nothing more once the budget is spent. -/
structure Grown (c c' : Collector F) : Prop where
  known : ∀ {p}, p ∈ c.paths → p ∈ c'.paths
  full : maxFields ≤ c.paths.keys.length → ∀ {p}, p ∈ c'.paths → p ∈ c.paths

/-- A value of a path with a stat. -/
def record (p : Str) (v : Value) (s : Collector F × List Str) : Collector F × List Str :=
  let (c, seen) := s
  let st := (c.paths.lookup p).getD (newStat c.order)
  let st := if p ∈ seen then st else { st with present := st.present + 1 }
  ({ c with paths := c.paths.insert p (st.observe v), order := if p ∈ c.paths then c.order else c.order + 1 },
    if p ∈ seen then seen else p :: seen)

/-- A value where it is settled which paths get a stat. -/
def note (keep : Str → Bool) (p : Str) (v : Value) (s : Collector F × List Str) : Collector F × List Str :=
  if keep p then record p v s else ({ s.1 with dropped := true }, s.2)

theorem visit_known {p : Str} {v : Value} {c : Collector F} {seen : List Str} (known : p ∈ c.paths) :
    visit p v (c, seen) = (true, record p v (c, seen)) := by
  obtain ⟨st, found⟩ := Option.isSome_iff_exists.mp (AList.lookup_isSome.mpr known)
  simp only [visit, stat, record, found, Option.getD_some, if_pos known]
  by_cases shown : p ∈ seen
  · simp only [if_pos shown]
  · simp only [if_neg shown]

theorem visit_new {p : Str} {v : Value} {c : Collector F} {seen : List Str} (absent : p ∉ c.paths)
    (room : ¬ maxFields ≤ c.paths.keys.length) : visit p v (c, seen) = (true, record p v (c, seen)) := by
  have none : c.paths.lookup p = none := AList.lookup_eq_none.mpr absent
  simp only [visit, stat, record, none, Option.getD_none, if_neg room, if_neg absent]
  by_cases shown : p ∈ seen
  · simp only [if_pos shown, AList.insert_insert]
  · simp only [if_neg shown, AList.insert_insert]

theorem visit_spent {p : Str} {v : Value} {c : Collector F} {seen : List Str} (absent : p ∉ c.paths)
    (full : maxFields ≤ c.paths.keys.length) : visit p v (c, seen) = (false, ({ c with dropped := true }, seen)) := by
  have none : c.paths.lookup p = none := AList.lookup_eq_none.mpr absent
  simp only [visit, stat, none, if_pos full]

theorem mem_record {p q : Str} {v : Value} {s : Collector F × List Str} : q ∈ (record p v s).1.paths ↔ q = p ∨ q ∈ s.1.paths :=
  AList.mem_insert ..

omit [Formats F] in
theorem keys_again {V : Type} {m : Map Str V} {p : Str} {v : V} (known : p ∈ m) :
    (m.insert p v).keys.length = m.keys.length := by
  refine ((List.perm_ext_iff_of_nodup (AList.keys_nodup _) (AList.keys_nodup _)).mpr fun q => ?_).length_eq
  rw [← AList.mem_keys, ← AList.mem_keys, AList.mem_insert]
  exact ⟨fun there => there.elim (fun same => same ▸ known) id, .inr⟩

/-- Whether a path is known in the end settles every visit. -/
theorem visit_settled (final : Collector F) (p : Str) (v : Value) (s : Collector F × List Str)
    (fit : Grown (visit p v s).2.1 final) : Grown s.1 final ∧ visit p v s = (final.knows p, note final.knows p v s) := by
  obtain ⟨c, seen⟩ := s
  by_cases known : p ∈ c.paths
  · rw [visit_known known] at fit ⊢
    have fit : Grown (record p v (c, seen)).1 final := fit
    have grown {q : Str} (there : q = p ∨ q ∈ c.paths) : q ∈ final.paths := fit.known (mem_record.mpr there)
    have kept : final.knows p = true := decide_eq_true (grown (.inl rfl))
    refine ⟨⟨fun there => grown (.inr there), fun full q there => ?_⟩, by rw [note, kept, if_pos rfl]⟩
    have same : (record p v (c, seen)).1.paths.keys.length = c.paths.keys.length := keys_again known
    exact (mem_record.mp (fit.full (full.trans same.ge) there)).elim (fun same => same ▸ known) id
  · by_cases full : maxFields ≤ c.paths.keys.length
    · rw [visit_spent known full] at fit ⊢
      have unknown : final.knows p = false := decide_eq_false fun there => known (fit.full full there)
      exact ⟨⟨fit.known, fit.full⟩, by rw [note, unknown, if_neg nofun]⟩
    · rw [visit_new known full] at fit ⊢
      have fit : Grown (record p v (c, seen)).1 final := fit
      have grown {q : Str} (there : q = p ∨ q ∈ c.paths) : q ∈ final.paths := fit.known (mem_record.mpr there)
      have kept : final.knows p = true := decide_eq_true (grown (.inl rfl))
      exact ⟨⟨fun there => grown (.inr there), fun spent => absurd spent full⟩,
        by rw [note, kept, if_pos rfl]⟩

/-- Records a document where it is settled which paths get a stat. -/
def addKept (keep : Str → Bool) (c : Collector F) (doc : Value) : Collector F :=
  ((visited keep doc).foldl (fun s n => note keep n.1 n.2 s) ({ c with samples := c.samples + 1 }, [])).1

theorem add_settled (final : Collector F) (doc : Value) (c : Collector F) (fit : Grown (c.add doc) final) :
    Grown c final ∧ c.add doc = c.addKept final.knows doc := by
  obtain ⟨start, walked⟩ := walkDoc_eq (fun s => Grown s.1 final) (visit_settled final) doc
    ({ c with samples := c.samples + 1 }, []) fit
  exact ⟨⟨start.known, start.full⟩, congrArg Prod.fst walked⟩

/-- What a collector has after so many documents, each as far as it showed something. -/
structure Tracks (keep : Str → Bool) (c : Collector F) (shown : List (List (Str × Value))) : Prop where
  stats : ∀ {p}, keep p = true → p ∈ shown.flatten.map Prod.fst → ∃ first, c.paths.lookup p = some (.of p shown first)
  known : ∀ {p}, p ∈ c.paths → keep p = true ∧ p ∈ shown.flatten.map Prod.fst

variable {keep : Str → Bool} {c : Collector F} {shown : List (List (Str × Value))} {doc : List (Str × Value)} {p : Str} {v : Value}

omit [Formats F] in
theorem mem_snoc {q : Str} : q ∈ (shown ++ [doc ++ [(p, v)]]).flatten.map Prod.fst ↔ q = p ∨ q ∈ (shown ++ [doc]).flatten.map Prod.fst := by
  simp only [List.flatten_append, List.flatten_cons, List.flatten_nil, List.append_nil, List.map_append, List.mem_append,
    List.map_cons, List.map_nil, List.mem_singleton]
  tauto

theorem of_other {q : Str} (other : q ≠ p) (first : ℕ) :
    (Stat.of q (shown ++ [doc ++ [(p, v)]]) first : Stat F) = .of q (shown ++ [doc]) first := by
  rw [Stat.of, Stat.values_snoc, Stat.carried_snoc, if_neg (Ne.symm other), if_neg fun both => other both.1.symm, List.append_nil,
    Nat.add_zero]
  rfl

theorem of_absent (absent : p ∉ shown.flatten.map Prod.fst) (first : ℕ) : (Stat.of p shown first : Stat F) = newStat first := by
  have values : Stat.values p shown = [] := by
    refine List.filterMap_eq_nil_iff.mpr fun n member => if_neg fun here => absent ?_
    exact List.mem_map.mpr ⟨n, member, here⟩
  have carried : Stat.carried p shown = 0 := by
    refine List.countP_eq_zero.mpr fun doc member there => absent ?_
    obtain ⟨n, listed, here⟩ := List.mem_map.mp (of_decide_eq_true there)
    exact List.mem_map.mpr ⟨n, List.mem_flatten.mpr ⟨doc, member, listed⟩, here⟩
  rw [Stat.of, values, carried]
  rfl

/-- One more value of a path. -/
theorem of_here {seen : List Str} (same : p ∈ seen ↔ p ∈ doc.map Prod.fst) (first : ℕ) :
    let st : Stat F := .of p (shown ++ [doc]) first
    (if p ∈ seen then st else { st with present := st.present + 1 }).observe v = .of p (shown ++ [doc ++ [(p, v)]]) first := by
  intro st
  let base : Stat F := (Stat.values p (shown ++ [doc])).foldl Stat.observe (newStat first)
  have values : Stat.values p (shown ++ [doc ++ [(p, v)]]) = Stat.values p (shown ++ [doc]) ++ [v] := by
    rw [Stat.values_snoc, if_pos rfl]
  by_cases before : p ∈ doc.map Prod.fst
  · have carried : Stat.carried p (shown ++ [doc ++ [(p, v)]]) = Stat.carried p (shown ++ [doc]) := by
      rw [Stat.carried_snoc, if_neg fun both => both.2 before, Nat.add_zero]
    rw [if_pos (same.mpr before), Stat.of, values, carried, List.foldl_append]
    exact base.observe_present _ v
  · have carried : Stat.carried p (shown ++ [doc ++ [(p, v)]]) = Stat.carried p (shown ++ [doc]) + 1 := by
      rw [Stat.carried_snoc, if_pos ⟨rfl, before⟩]
    rw [if_neg (mt same.mp before), Stat.of, values, carried, List.foldl_append]
    exact base.observe_present _ v

theorem Tracks.record {seen : List Str} (tracks : Tracks keep c (shown ++ [doc])) (same : p ∈ seen ↔ p ∈ doc.map Prod.fst)
    (kept : keep p = true) : Tracks keep (record p v (c, seen)).1 (shown ++ [doc ++ [(p, v)]]) := by
  have base : ∃ first, (c.paths.lookup p).getD (newStat c.order) = .of p (shown ++ [doc]) first := by
    by_cases there : p ∈ (shown ++ [doc]).flatten.map Prod.fst
    · obtain ⟨first, found⟩ := tracks.stats kept there
      exact ⟨first, by rw [found, Option.getD_some]⟩
    · have none : c.paths.lookup p = none := AList.lookup_eq_none.mpr fun known => there (tracks.known known).2
      exact ⟨c.order, by rw [none, Option.getD_none, of_absent there]⟩
  obtain ⟨first, base⟩ := base
  refine ⟨fun {q} kept' there => ?_, fun {q} known => ?_⟩
  · by_cases here : q = p
    · subst here
      refine ⟨first, (AList.lookup_insert _).trans (congrArg some ?_)⟩
      rw [base]
      exact of_here same first
    · obtain ⟨first', found⟩ := tracks.stats kept' ((mem_snoc.mp there).resolve_left here)
      exact ⟨first', (AList.lookup_insert_ne here).trans (found.trans (congrArg some (of_other here first').symm))⟩
  · rw [mem_snoc]
    rcases mem_record.mp known with same | known
    · exact ⟨same ▸ kept, .inl same⟩
    · exact ⟨(tracks.known known).1, .inr (tracks.known known).2⟩

/-- A value below the paths that are kept. -/
theorem Tracks.note {seen : List Str} (tracks : Tracks keep c (shown ++ [doc]))
    (same : ∀ p, keep p = true → (p ∈ seen ↔ p ∈ doc.map Prod.fst)) (p : Str) (v : Value) :
    Tracks keep (note keep p v (c, seen)).1 (shown ++ [doc ++ [(p, v)]]) ∧
      ∀ q, keep q = true → (q ∈ (note keep p v (c, seen)).2 ↔ q ∈ (doc ++ [(p, v)]).map Prod.fst) := by
  unfold Collector.note
  have more {q : Str} : q ∈ (doc ++ [(p, v)]).map Prod.fst ↔ q ∈ doc.map Prod.fst ∨ q = p := by
    rw [List.map_append, List.mem_append, List.map_singleton, List.mem_singleton]
  cases kept : keep p with
  | true =>
    rw [if_pos rfl]
    refine ⟨tracks.record (same p kept) kept, fun q kept' => ?_⟩
    rw [more, ← same q kept']
    change q ∈ (if p ∈ seen then seen else p :: seen) ↔ _
    split
    · rename_i there
      exact ⟨.inl, fun any => any.elim id fun here => here ▸ there⟩
    · rw [List.mem_cons, or_comm]
  | false =>
    rw [if_neg nofun]
    have apart {q : Str} (kept' : keep q = true) : q ≠ p := by
      rintro rfl
      rw [kept] at kept'
      cases kept'
    refine ⟨⟨fun {q} kept' there => ?_, fun {q} known => ?_⟩, fun q kept' => ?_⟩
    · obtain ⟨first, found⟩ := tracks.stats kept' ((mem_snoc.mp there).resolve_left (apart kept'))
      exact ⟨first, found.trans (congrArg some (of_other (apart kept') first).symm)⟩
    · exact ⟨(tracks.known known).1, mem_snoc.mpr (.inr (tracks.known known).2)⟩
    · rw [more, same q kept', or_iff_left (apart kept')]

theorem Tracks.notes (s : Collector F × List Str) (nodes : List (Str × Value)) (tracks : Tracks keep s.1 (shown ++ [doc]))
    (same : ∀ p, keep p = true → (p ∈ s.2 ↔ p ∈ doc.map Prod.fst)) :
    Tracks keep (nodes.foldl (fun s n => Collector.note keep n.1 n.2 s) s).1 (shown ++ [doc ++ nodes]) := by
  induction nodes generalizing s doc with
  | nil =>
    rw [List.append_nil]
    exact tracks
  | cons n nodes ih =>
    obtain ⟨tracks, same⟩ := tracks.note same n.1 n.2
    have rest := ih _ tracks same
    rw [List.append_assoc, List.singleton_append] at rest
    exact rest

theorem note_samples (nodes : List (Str × Value)) (s : Collector F × List Str) :
    (nodes.foldl (fun s n => note keep n.1 n.2 s) s).1.samples = s.1.samples := by
  induction nodes generalizing s with
  | nil => rfl
  | cons n nodes ih =>
    rw [List.foldl_cons, ih]
    unfold note
    split <;> rfl

theorem Tracks.addKept (tracks : Tracks keep c shown) (doc : Value) :
    Tracks keep (c.addKept keep doc) (shown ++ [visited keep doc]) := by
  have mem {q : Str} : q ∈ (shown ++ [[]]).flatten.map Prod.fst ↔ q ∈ shown.flatten.map Prod.fst := by simp
  have start : Tracks keep { c with samples := c.samples + 1 } (shown ++ [[]]) := by
    refine ⟨fun {q} kept there => ?_, fun {q} known => ?_⟩
    · obtain ⟨first, found⟩ := tracks.stats kept (mem.mp there)
      refine ⟨first, found.trans (congrArg some ?_)⟩
      rw [Stat.of, Stat.of, Stat.values_nil, Stat.carried_nil]
    · exact ⟨(tracks.known known).1, mem.mpr (tracks.known known).2⟩
  have noted : ∀ p, keep p = true → (p ∈ ([] : List Str) ↔ p ∈ ([] : List (Str × Value)).map Prod.fst) := fun p _ => Iff.rfl
  exact Tracks.notes ({ c with samples := c.samples + 1 }, []) (visited keep doc) start noted

theorem tracks_fold (keep : Str → Bool) (docs : List Value) :
    Tracks keep (docs.foldl (addKept keep) (newCollector : Collector F)) (docs.map (visited keep)) ∧
      (docs.foldl (addKept keep) (newCollector : Collector F)).samples = docs.length := by
  induction docs using List.reverseRecOn with
  | nil => exact ⟨⟨fun _ none => absurd none List.not_mem_nil, fun none => absurd none (AList.notMem_empty _)⟩, rfl⟩
  | append_singleton docs doc ih =>
    rw [List.foldl_append, List.map_append, List.length_append]
    exact ⟨ih.1.addKept doc, (note_samples _ _).trans (congrArg (· + 1) ih.2)⟩

/-- What a collector has in the end is settled by the paths it knows in the end. -/
theorem collected (docs : List Value) :
    let c : Collector F := docs.foldl add newCollector
    Tracks c.knows c (docs.map (visited c.knows)) ∧ c.samples = docs.length := by
  intro c
  have all := Pruning.fold_eq (Grown · c) (fun doc s => s.add doc) (fun doc s => s.addKept c.knows doc)
    (fun doc s fit => add_settled c doc s fit) docs newCollector ⟨id, fun _ {_} => id⟩
  have same : c = docs.foldl (addKept c.knows) newCollector := all.2
  have result := tracks_fold (F := F) c.knows docs
  rwa [← same] at result

end Collector
section Types

namespace Stat

theorem collect_types (st : Stat F) (text : Str) : (st.collect text).types = st.types := by
  unfold collect
  simp only
  by_cases full : st.tooMany = true
  · rw [if_pos full]
  · rw [if_neg full]
    by_cases many : enumMax < (if text ∈ st.strings then st.strings else text :: st.strings).length
    · rw [if_pos many]
    · rw [if_neg many]

theorem observe_types (st : Stat F) (v : Value) : (st.observe v).types = bump st.types (typeOf v) := by
  unfold observe
  cases v with
  | number text =>
    simp only [numeric]
    cases (Formats.float text : Option F) <;> rfl
  | string text => exact collect_types _ text
  | _ => rfl

omit [Formats F] in
theorem bump_lookup {K : Type} [DecidableEq K] (counts : Map K ℕ) (k k' : K) :
    ((bump counts k).lookup k').getD 0 = (counts.lookup k').getD 0 + if k = k' then 1 else 0 := by
  unfold bump
  by_cases same : k = k'
  · rw [same, AList.lookup_insert, if_pos rfl, Option.getD_some]
  · rw [AList.lookup_insert_ne (Ne.symm same), if_neg same, Nat.add_zero]

/-- How often a type was seen. -/
theorem fold_types (vs : List Value) (st : Stat F) (t : JsonType) :
    ((vs.foldl observe st).types.lookup t).getD 0 = (st.types.lookup t).getD 0 + vs.countP (typeOf · = t) := by
  induction vs generalizing st with
  | nil => rfl
  | cons v vs ih =>
    rw [List.foldl_cons, ih, observe_types, bump_lookup, List.countP_cons]
    simp only [decide_eq_true_eq]
    omega

theorem of_types (p : Str) (shown : List (List (Str × Value))) (first : ℕ) (t : JsonType) :
    ((of p shown first : Stat F).types.lookup t).getD 0 = (values p shown).countP (typeOf · = t) :=
  (fold_types (values p shown) (newStat first) t).trans (Nat.zero_add _)

theorem mem_values {p : Str} {shown : List (List (Str × Value))} {v : Value} :
    v ∈ values p shown ↔ ∃ doc ∈ shown, (p, v) ∈ doc := by
  simp only [values, List.mem_filterMap, List.mem_flatten, Option.ite_none_right_eq_some, Option.some.injEq]
  constructor
  · rintro ⟨⟨q, w⟩, ⟨doc, member, there⟩, rfl, rfl⟩
    exact ⟨doc, member, there⟩
  · rintro ⟨doc, member, there⟩
    exact ⟨(p, v), ⟨doc, member, there⟩, rfl, rfl⟩

end Stat

end Types

section Messages
variable [Recognizer]

/-- The document of a message that has one. -/
def docOf (m : NatsMessage) : Option Value := if m.payloadType = .json then decode m.payload else none

/-- The documents of messages, one after the other. -/
def collect (ms : List NatsMessage) : Collector F := (ms.filterMap docOf).foldl Collector.add newCollector

theorem take_docs (n : ℕ) (s : Pass F) (m : NatsMessage) (i : ℕ) :
    (s.take n (m, i)).all = (docOf m).toList.foldl Collector.add s.all ∧
      (s.take n (m, i)).older = (if 2 ≤ n ∧ i < n / 2 then (docOf m).toList else []).foldl Collector.add s.older ∧
      (s.take n (m, i)).newer = (if 2 ≤ n ∧ ¬ i < n / 2 then (docOf m).toList else []).foldl Collector.add s.newer := by
  unfold Pass.take docOf
  by_cases json : m.payloadType = .json
  · simp only [json, ne_eq, not_true_eq_false, if_false, if_true]
    cases decode m.payload with
    | none => simp
    | some doc =>
      by_cases few : n < 2
      · simp [few, Nat.not_le.mpr few]
      · by_cases early : i < n / 2 <;> simp [few, early, Nat.le_of_not_lt few]
  · simp [json]

theorem pass_docs (n : ℕ) (entries : List (NatsMessage × ℕ)) (s : Pass F) :
    let pass := entries.foldl (Pass.take n) s
    pass.all = (entries.flatMap fun e => (docOf e.1).toList).foldl Collector.add s.all ∧
      pass.older =
        (entries.flatMap fun e => if 2 ≤ n ∧ e.2 < n / 2 then (docOf e.1).toList else []).foldl Collector.add s.older ∧
      pass.newer =
        (entries.flatMap fun e => if 2 ≤ n ∧ ¬ e.2 < n / 2 then (docOf e.1).toList else []).foldl Collector.add s.newer := by
  induction entries generalizing s with
  | nil => exact ⟨rfl, rfl, rfl⟩
  | cons e entries ih =>
    obtain ⟨all, older, newer⟩ := take_docs n s e.1 e.2
    obtain ⟨all', older', newer'⟩ := ih (s.take n e)
    simp only [List.foldl_cons, List.flatMap_cons, List.foldl_append]
    exact ⟨all'.trans (all ▸ rfl), older'.trans (older ▸ rfl), newer'.trans (newer ▸ rfl)⟩

omit [Recognizer] in
/-- What is done with the first of a list, and with the rest, by index. -/
theorem zipIdx_split {A B : Type} (g : A → List B) (l : List A) (j k : ℕ) :
    ((l.zipIdx j).flatMap fun e => if e.2 < k then g e.1 else []) = (l.take (k - j)).flatMap g ∧
      ((l.zipIdx j).flatMap fun e => if ¬ e.2 < k then g e.1 else []) = (l.drop (k - j)).flatMap g := by
  induction l generalizing j with
  | nil => simp
  | cons a l ih =>
    obtain ⟨first, rest⟩ := ih (j + 1)
    rw [List.zipIdx_cons, List.flatMap_cons, List.flatMap_cons, first, rest]
    by_cases early : j < k
    · obtain ⟨m, short⟩ : ∃ m, k - j = m + 1 := ⟨k - j - 1, by omega⟩
      have shorter : k - (j + 1) = m := by omega
      simp [early, short, shorter]
    · have none : k - j = 0 := by omega
      have none' : k - (j + 1) = 0 := by omega
      simp [early, none, none']

theorem flatMap_docs (ms : List NatsMessage) : (ms.flatMap fun m => (docOf m).toList) = ms.filterMap docOf :=
  (List.filterMap_eq_flatMap_toList docOf ms).symm

/-- The messages as the pass reads them. -/
def inOrder (msgs : List NatsMessage) : List NatsMessage := msgs.mergeSort fun a b => a.timestamp ≤ b.timestamp

/-- All messages, and the two halves. -/
theorem infer_pass (msgs : List NatsMessage) :
    let n := (inOrder msgs).length
    let pass : Pass F := (inOrder msgs).zipIdx.foldl (Pass.take n) {}
    pass.all = collect (inOrder msgs) ∧
      (2 ≤ n → pass.older = collect ((inOrder msgs).take (n / 2)) ∧ pass.newer = collect ((inOrder msgs).drop (n / 2))) := by
  intro n pass
  obtain ⟨all, older, newer⟩ := pass_docs n (inOrder msgs).zipIdx ({} : Pass F)
  have whole : ((inOrder msgs).zipIdx.flatMap fun e => (docOf e.1).toList) = (inOrder msgs).filterMap docOf := by
    have split := List.flatMap_map Prod.fst (fun m => (docOf m).toList) (l := (inOrder msgs).zipIdx)
    rw [List.zipIdx_map_fst, flatMap_docs] at split
    exact split.symm
  refine ⟨all.trans (by rw [whole]; rfl), fun two => ?_⟩
  obtain ⟨first, rest⟩ := zipIdx_split (fun m => (docOf m).toList) (inOrder msgs) 0 (n / 2)
  simp only [two, true_and] at older newer
  rw [first, flatMap_docs] at older
  rw [rest, flatMap_docs] at newer
  exact ⟨older, newer⟩

/-- The fields are those of all the documents. -/
theorem infer_fields (rt : Runtime) {msgs : List NatsMessage} (some_ : msgs ≠ []) :
    (Infer (F := F) rt msgs).fields = (collect (inOrder msgs)).fields rt := by
  have sorted : inOrder msgs ≠ [] := by
    rw [ne_eq, ← List.length_eq_zero_iff, inOrder, List.length_mergeSort, List.length_eq_zero_iff]
    exact some_
  have first := List.head?_eq_some_head sorted
  have last := List.getLast?_eq_some_getLast sorted
  obtain ⟨all, -⟩ := infer_pass (F := F) msgs
  simp only [inOrder] at first last all
  simp only [Infer, first, last, inOrder, all]

end Messages

end Collect
end NatsExplorer.schema
