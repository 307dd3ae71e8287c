import NatsExplorer.Schema.Expect
import NatsExplorer.Schema.Kept
import Mathlib.Data.List.Dedup

/-! What the comparison of the halves says of the documents in them. -/
namespace NatsExplorer.schema
open Go Go.json

/-! ### The most frequent type -/

theorem JsonType.name_injective {t t' : JsonType} (same : t.name = t'.name) : t = t' := by
  revert same
  cases t <;> cases t' <;> decide

/-- How often each type occurs, integers and numbers apart. -/
def apart (vs : List Value) (t : JsonType) : ℕ := vs.countP (typeOf · = t)

/-- How often each type occurs, integers as numbers. -/
def together (vs : List Value) : JsonType → ℕ
  | .integer => 0
  | .number => apart vs .integer + apart vs .number
  | t => apart vs t

/-- The most frequent type but null, by name among equals. -/
def Leads (count : JsonType → ℕ) (t : JsonType) : Prop :=
  t ≠ .null ∧ 0 < count t ∧ ∀ t', t' ≠ .null → count t' < count t ∨ count t' = count t ∧ t.name ≤ t'.name

theorem Leads.unique {count : JsonType → ℕ} {t t' : JsonType} (leads : Leads count t) (leads' : Leads count t') : t = t' := by
  have first := leads.2.2 t' leads'.1
  have second := leads'.2.2 t leads.1
  have same : count t = count t' := by omega
  refine JsonType.name_injective (le_antisymm (first.resolve_left ?_).2 (second.resolve_left ?_).2) <;> omega

/-- The comparison of `dominant`. -/
def better (best : Option JsonType × Int) (e : Sigma fun _ : JsonType => ℕ) : Option JsonType × Int :=
  if e.1 = .null then best
  else if best.2 < (e.2 : Int) ∨ (e.2 : Int) = best.2 ∧ ∃ b ∈ best.1, e.1.name < b.name then (some e.1, (e.2 : Int))
  else best

/-- The best so far leads what there was. -/
theorem best_leads (entries : List (Sigma fun _ : JsonType => ℕ)) :
    let best := entries.foldl better (none, -1)
    (best = (none, -1) ∧ ∀ e ∈ entries, e.1 = .null) ∨
      ∃ e ∈ entries, best = (some e.1, (e.2 : Int)) ∧ e.1 ≠ .null ∧
        ∀ e' ∈ entries, e'.1 ≠ .null → e'.2 < e.2 ∨ e'.2 = e.2 ∧ e.1.name ≤ e'.1.name := by
  induction entries using List.reverseRecOn with
  | nil => exact .inl ⟨rfl, nofun⟩
  | append_singleton entries e ih =>
    simp only [List.foldl_append, List.foldl_cons, List.foldl_nil, List.mem_append, List.mem_singleton]
    by_cases null : e.1 = .null
    · have same (best) : better best e = best := if_pos null
      rw [same]
      rcases ih with ⟨best, none⟩ | ⟨b, member, best, typed, leads⟩
      · exact .inl ⟨best, fun e' there => there.elim (none e') (· ▸ null)⟩
      · exact .inr ⟨b, .inl member, best, typed, fun e' there => there.elim (leads e') fun last typed' => absurd (last ▸ null) typed'⟩
    · refine .inr ?_
      rcases ih with ⟨best, none⟩ | ⟨b, member, best, typed, leads⟩
      · refine ⟨e, .inr rfl, ?_, null, fun e' there typed' => there.elim (fun before => absurd (none e' before) typed') ?_⟩
        · rw [best, better, if_neg null, if_pos (.inl (by simp only; omega))]
        · rintro rfl
          exact .inr ⟨rfl, le_rfl⟩
      · rw [best, better, if_neg null]
        split
        · rename_i wins
          have wins : b.2 < e.2 ∨ e.2 = b.2 ∧ e.1.name < b.1.name := by
            simpa using wins
          refine ⟨e, .inr rfl, rfl, null, fun e' there typed' => there.elim (fun before => ?_) ?_⟩
          · rcases leads e' before typed' with fewer | ⟨equal, named⟩
            · exact .inl (by omega)
            · exact wins.imp (fun more => by omega) fun both => ⟨by omega, both.2.le.trans named⟩
          · rintro rfl
            exact .inr ⟨rfl, le_rfl⟩
        · rename_i loses
          have loses : e.2 ≤ b.2 ∧ (e.2 = b.2 → b.1.name ≤ e.1.name) := by
            simpa [not_or] using loses
          refine ⟨b, .inl member, rfl, typed, fun e' there typed' => there.elim (fun before => leads e' before typed') ?_⟩
          rintro rfl
          exact (Nat.lt_or_eq_of_le loses.1).imp id fun equal => ⟨equal, loses.2 equal⟩

/-- Of types that occur at all one leads. -/
theorem exists_leads {count : JsonType → ℕ} {t : JsonType} (typed : t ≠ .null) (some_ : 0 < count t) : ∃ t, Leads count t := by
  let entries := [JsonType.bool, .integer, .number, .string, .object, .array].map fun t => (⟨t, count t⟩ : Sigma fun _ => ℕ)
  have listed {t : JsonType} (typed : t ≠ .null) : (⟨t, count t⟩ : Sigma fun _ => ℕ) ∈ entries := by
    refine List.mem_map_of_mem ?_
    revert typed
    cases t <;> decide
  rcases best_leads entries with ⟨-, none⟩ | ⟨e, member, -, typed', leads⟩
  · exact absurd (none _ (listed typed)) typed
  · obtain ⟨t', -, rfl⟩ := List.mem_map.mp member
    have all := fun t' typed'' => leads ⟨t', count t'⟩ (listed typed'') typed''
    refine ⟨t', typed', ?_, all⟩
    have least : count t < count t' ∨ count t = count t' ∧ _ := all t typed
    omega

section Collect
variable {F : Type} [Formats F]

/-- The values that documents showed at a path. -/
abbrev counts (docs : List Value) (p : Str) : List Value := Stat.values p (reached docs)

omit [Formats F] in
theorem dominant_eq (rt : Runtime) (st : Stat F) :
    st.dominant rt =
      let best := (rt.range st.types.entries).foldl better (none, -1)
      if best.1 = none ∧ 0 < (st.types.lookup .null).getD 0 then some .null else best.1 := rfl

theorem mem_types (vs : List Value) (st : Stat F) (t : JsonType) :
    t ∈ (vs.foldl Stat.observe st).types ↔ t ∈ st.types ∨ ∃ v ∈ vs, typeOf v = t := by
  induction vs generalizing st with
  | nil => simp
  | cons v vs ih =>
    rw [List.foldl_cons, ih, Stat.observe_types, bump, AList.mem_insert, List.exists_mem_cons_iff, eq_comm]
    tauto

/-- The most frequent type of a stat: a null only when nothing else was seen. -/
theorem dominant_leads (rt : Runtime) {p : Str} {shown : List (List (Str × Value))} (first : ℕ)
    (there : p ∈ shown.flatten.map Prod.fst) :
    let st : Stat F := .of p shown first
    (∃ t, st.dominant rt = some t ∧ Leads (apart (Stat.values p shown)) t) ∨
      st.dominant rt = some .null ∧ ∀ t, t ≠ .null → apart (Stat.values p shown) t = 0 := by
  intro st
  have counted (t : JsonType) : (st.types.lookup t).getD 0 = apart (Stat.values p shown) t := Stat.of_types p shown first t
  have listed (t : JsonType) : t ∈ st.types ↔ 0 < apart (Stat.values p shown) t := by
    have seen := mem_types (Stat.values p shown) (newStat first : Stat F) t
    rw [show (t ∈ (newStat first : Stat F).types) = False from eq_false (AList.notMem_empty t), false_or] at seen
    refine seen.trans ?_
    simp only [apart, List.countP_pos_iff, decide_eq_true_eq]
  have entry (t : JsonType) (n : ℕ) : (⟨t, n⟩ : Sigma fun _ => ℕ) ∈ rt.range st.types.entries ↔
      t ∈ st.types ∧ n = apart (Stat.values p shown) t := by
    rw [rt.mem_range, ← AList.mem_lookup_iff, ← counted t]
    constructor
    · intro found
      have found : st.types.lookup t = some n := found
      exact ⟨AList.lookup_isSome.mp (found ▸ rfl), by rw [found]; rfl⟩
    · rintro ⟨known, rfl⟩
      obtain ⟨n, found⟩ := Option.isSome_iff_exists.mp (AList.lookup_isSome.mpr known)
      rw [found]
      rfl
  rw [dominant_eq]
  rcases best_leads (rt.range st.types.entries) with ⟨best, none⟩ | ⟨⟨t, n⟩, member, best, typed, leads⟩
  · have nulls (t : JsonType) (typed : t ≠ .null) : apart (Stat.values p shown) t = 0 := by
      refine Nat.eq_zero_of_not_pos fun some_ => typed (none ⟨t, _⟩ ((entry t _).mpr ⟨(listed t).mpr some_, rfl⟩))
    obtain ⟨⟨q, v⟩, member, here⟩ := List.mem_map.mp there
    have here : q = p := here
    obtain ⟨doc, among, shows⟩ := List.mem_flatten.mp member
    have value : v ∈ Stat.values p shown := Stat.mem_values.mpr ⟨doc, among, here ▸ shows⟩
    have null : 0 < apart (Stat.values p shown) .null := by
      by_cases null : typeOf v = .null
      · exact List.countP_pos_iff.mpr ⟨v, value, decide_eq_true null⟩
      · have positive : 0 < apart (Stat.values p shown) (typeOf v) := List.countP_pos_iff.mpr ⟨v, value, decide_eq_true rfl⟩
        have none := nulls _ null
        omega
    refine .inr ⟨?_, nulls⟩
    simp only [best]
    rw [if_pos ⟨trivial, by rw [counted]; exact null⟩]
  · obtain ⟨known, rfl⟩ := (entry t n).mp member
    refine .inl ⟨t, by simp [best], typed, (listed t).mp known, fun t' typed' => ?_⟩
    by_cases known' : t' ∈ st.types
    · exact leads ⟨t', _⟩ ((entry t' _).mpr ⟨known', rfl⟩) typed'
    · have absent := mt (listed t').mpr known'
      have positive := (listed t).mp known
      exact .inl (by omega)

/-- Enough of the documents show a path, as far as it is reached. -/
def steady (docs : List Value) (p : Str) : Prop := 4 * docs.length ≤ 5 * Stat.carried p (reached docs)

instance (docs : List Value) (p : Str) : Decidable (steady docs p) := inferInstanceAs (Decidable (_ ≤ _))

theorem carried_pos {p : Str} {shown : List (List (Str × Value))} (there : p ∈ shown.flatten.map Prod.fst) :
    0 < Stat.carried p shown := by
  obtain ⟨n, member, here⟩ := List.mem_map.mp there
  obtain ⟨doc, among, shows⟩ := List.mem_flatten.mp member
  exact List.countP_pos_iff.mpr ⟨doc, among, decide_eq_true (List.mem_map.mpr ⟨n, shows, here⟩)⟩

/-- The presence of a path in a half. -/
theorem presence_half {docs : List Value} (enough : driftMinSamples ≤ docs.length) (p : Str) :
    let c : Collector F := docs.foldl Collector.add newCollector
    if p ∈ kept docs then 0 < presence c p ∧ (driftPresence ≤ presence c p ↔ steady docs p) else presence c p = 0 := by
  intro c
  have stat := collected_stat (F := F) docs p
  have samples : c.samples = docs.length := (Collector.collected docs).2
  have many : 0 < docs.length := Nat.lt_of_lt_of_le (by decide) enough
  split
  · rename_i here
    rw [if_pos here] at stat
    obtain ⟨there, first, found⟩ := stat
    have ratio : presence c p = (Stat.carried p (reached docs) : ℚ) / docs.length := by
      rw [presence, found, samples, max_eq_right many]
      rfl
    have positive : (0 : ℚ) < docs.length := by exact_mod_cast many
    rw [ratio]
    refine ⟨div_pos (by exact_mod_cast carried_pos there) positive, ?_⟩
    rw [driftPresence, le_div_iff₀ positive, steady, div_mul_eq_mul_div, div_le_iff₀ (by decide), mul_comm _ (5 : ℚ)]
    exact_mod_cast Iff.rfl
  · rename_i absent
    rw [if_neg absent] at stat
    rw [presence, stat]

variable (F) in
/-- The type a half has at a path, after `dominant`. -/
def peak (rt : Runtime) (docs : List Value) (p : Str) : Option JsonType :=
  ((docs.foldl Collector.add (newCollector : Collector F)).paths.lookup p).bind (Stat.dominant rt)

/-- Which difference is reported at a path. -/
theorem driftAt_half (rt : Runtime) {older newer : List Value} (enough : driftMinSamples ≤ older.length)
    (enough' : driftMinSamples ≤ newer.length) (since : Int) (p : Str) :
    driftAt rt (older.foldl Collector.add (newCollector : Collector F)) (newer.foldl Collector.add newCollector) since p =
      if p ∈ kept older then
        if p ∈ kept newer then
          if peak F rt older p = some .null ∨ peak F rt newer p = some .null ∨
              comparable (peak F rt older p) = comparable (peak F rt newer p) then none
          else some ⟨p, .typeChanged, peak F rt older p, peak F rt newer p, since⟩
        else if steady older p then some ⟨p, .fieldGone, peak F rt older p, none, since⟩
        else none
      else if p ∈ kept newer ∧ steady newer p then some ⟨p, .fieldNew, none, peak F rt newer p, since⟩
      else none := by
  have before := presence_half (F := F) enough p
  have after := presence_half (F := F) enough' p
  simp only at before after
  have type (docs : List Value) : ((docs.foldl Collector.add (newCollector : Collector F)).paths.lookup p).bind (Stat.dominant rt) =
      peak F rt docs p := rfl
  simp only [driftAt, type]
  generalize peak F rt older p = bt
  generalize peak F rt newer p = at_
  generalize presence (older.foldl Collector.add (newCollector : Collector F)) p = b at before ⊢
  generalize presence (newer.foldl Collector.add (newCollector : Collector F)) p = a at after ⊢
  have some_ {x : ℚ} (much : driftPresence ≤ x) : x ≠ 0 := ne_of_gt (lt_of_lt_of_le (by norm_num [driftPresence]) much)
  by_cases old : p ∈ kept older
  · rw [if_pos old] at before ⊢
    by_cases new : p ∈ kept newer
    · rw [if_pos new] at after ⊢
      rw [if_neg fun both => after.1.ne' both.2, if_neg fun both => before.1.ne' both.1, if_pos ⟨before.1, after.1⟩]
      split
      · rename_i nulls
        exact (if_pos (nulls.imp_right .inl)).symm
      · rename_i typed
        by_cases same : comparable bt = comparable at_
        · rw [if_neg (not_not.mpr same), if_pos (.inr (.inr same))]
        · rw [if_pos same, if_neg fun any => any.elim (typed ∘ .inl) fun any => any.elim (typed ∘ .inr) same]
    · rw [if_neg new] at after ⊢
      by_cases often : steady older p
      · rw [if_pos ⟨before.2.mpr often, after⟩, if_pos often]
      · rw [if_neg fun both => often (before.2.mp both.1), if_neg fun both => before.1.ne' both.1,
          if_neg fun both => both.2.ne' after, if_neg often]
  · rw [if_neg old] at before ⊢
    rw [if_neg fun both => some_ both.1 before]
    by_cases new : p ∈ kept newer
    · rw [if_pos new] at after
      by_cases often : steady newer p
      · rw [if_pos ⟨before, after.2.mpr often⟩, if_pos ⟨new, often⟩]
      · rw [if_neg fun both => often (after.2.mp both.2), if_neg fun both => both.1.ne' before, if_neg fun both => often both.2]
    · rw [if_neg new] at after
      rw [if_neg fun both => some_ both.2 after, if_neg fun both => both.1.ne' before, if_neg fun both => new both.1]

section Messages
variable [Recognizer] (msgs : List NatsMessage)

/-- The JSON documents of the older half of the messages, by timestamp. -/
def older : List Value := ((inOrder msgs).take ((inOrder msgs).length / 2)).filterMap docOf

def newer : List Value := ((inOrder msgs).drop ((inOrder msgs).length / 2)).filterMap docOf

/-- The timestamp the newer half starts with. -/
def since : Int := ((inOrder msgs)[(inOrder msgs).length / 2]?.map NatsMessage.timestamp).getD 0

def enough : Prop := driftMinSamples ≤ (older msgs).length ∧ driftMinSamples ≤ (newer msgs).length

instance : Decidable (enough msgs) := inferInstanceAs (Decidable (_ ∧ _))

variable (F) in
/-- The collectors of the halves. -/
def collectors : Collector F × Collector F :=
  ((older msgs).foldl Collector.add newCollector, (newer msgs).foldl Collector.add newCollector)

variable {msgs}

theorem infer_drift (rt : Runtime) :
    (Infer (F := F) rt msgs).drift =
      if enough msgs then schema.drift rt (collectors F msgs).1 (collectors F msgs).2 (since msgs) else [] := by
  obtain ⟨-, halves⟩ := infer_pass (F := F) msgs
  have samples : (collectors F msgs).1.samples = (older msgs).length := (Collector.collected _).2
  have samples' : (collectors F msgs).2.samples = (newer msgs).length := (Collector.collected _).2
  by_cases two : 2 ≤ (inOrder msgs).length
  · obtain ⟨before, after⟩ := halves two
    have some_ : inOrder msgs ≠ [] := by
      rintro none
      simp [none] at two
    have first := List.head?_eq_some_head some_
    have last := List.getLast?_eq_some_getLast some_
    have before : _ = (collectors F msgs).1 := before
    have after : _ = (collectors F msgs).2 := after
    unfold since
    simp only [inOrder] at first last before after two ⊢
    simp only [Infer, first, last, before, after, two, samples, samples', true_and]
    by_cases many : enough msgs
    · have positive : 0 < (older msgs).length ∧ 0 < (newer msgs).length :=
        ⟨Nat.lt_of_lt_of_le (by decide) many.1, Nat.lt_of_lt_of_le (by decide) many.2⟩
      rw [if_pos positive, if_pos many]
    · rw [if_neg many]
      have few : (collectors F msgs).1.samples < driftMinSamples ∨ (collectors F msgs).2.samples < driftMinSamples := by
        rw [samples, samples']
        exact (not_and_or.mp many).imp Nat.lt_of_not_le Nat.lt_of_not_le
      rw [schema.drift, if_pos few, ite_self]
  · have none : older msgs = [] := by
      have short : (inOrder msgs).length / 2 = 0 := by omega
      rw [older, short, List.take_zero, List.filterMap_nil]
    have few : ¬ enough msgs := fun many => by
      have many := many.1
      rw [none] at many
      exact absurd many (by decide)
    rw [if_neg few]
    simp only [inOrder] at two
    unfold Infer
    simp only
    split
    · exact if_neg fun all => two all.1
    · rfl

omit [Formats F] [Recognizer] in
theorem driftAt_path {rt : Runtime} {c c' : Collector F} {since : Int} {p : Str} {d : Drift}
    (reported : driftAt rt c c' since p = some d) : d.path = p := by
  unfold driftAt at reported
  simp only at reported
  split at reported
  · cases reported
    rfl
  · split at reported
    · cases reported
      rfl
    · split at reported
      · split at reported
        · cases reported
        · split at reported
          · cases reported
            rfl
          · cases reported
      · cases reported

theorem mem_drift (rt : Runtime) (d : Drift) :
    d ∈ (Infer (F := F) rt msgs).drift ↔
      enough msgs ∧ driftAt rt (collectors F msgs).1 (collectors F msgs).2 (since msgs) d.path = some d := by
  rw [infer_drift]
  by_cases many : enough msgs
  · have all : ¬ ((collectors F msgs).1.samples < driftMinSamples ∨ (collectors F msgs).2.samples < driftMinSamples) := by
      rw [show (collectors F msgs).1.samples = (older msgs).length from (Collector.collected _).2,
        show (collectors F msgs).2.samples = (newer msgs).length from (Collector.collected _).2]
      exact not_or.mpr ⟨Nat.not_lt_of_le many.1, Nat.not_lt_of_le many.2⟩
    rw [if_pos many, schema.drift, if_neg all, List.mem_filterMap, and_iff_right many]
    constructor
    · rintro ⟨p, -, reported⟩
      rw [driftAt_path reported]
      exact reported
    · intro reported
      refine ⟨d.path, ?_, reported⟩
      rw [List.mem_mergeSort, List.mem_dedup, List.mem_append, ← AList.mem_keys, ← AList.mem_keys]
      by_contra absent
      have none : presence (collectors F msgs).1 d.path = 0 := by
        rw [presence, AList.lookup_eq_none.mpr (absent ∘ .inl)]
      have none' : presence (collectors F msgs).2 d.path = 0 := by
        rw [presence, AList.lookup_eq_none.mpr (absent ∘ .inr)]
      have positive : ¬ driftPresence ≤ 0 := by norm_num [driftPresence]
      simp [driftAt, none, none', positive] at reported
  · rw [if_neg many]
    exact iff_of_false List.not_mem_nil fun both => many both.1

omit [Recognizer] in
/-- What a collector says of a type, against what the documents of its half show. -/
theorem peak_leads (rt : Runtime) {docs : List Value} {p : Str} (here : p ∈ kept docs) :
    (∃ t, peak F rt docs p = some t ∧ Leads (apart (counts docs p)) t) ∨
      peak F rt docs p = some .null ∧ ∀ t, t ≠ .null → apart (counts docs p) t = 0 := by
  have stat := collected_stat (F := F) docs p
  simp only [if_pos here] at stat
  obtain ⟨there, first, found⟩ := stat
  unfold peak
  rw [found]
  exact dominant_leads rt first there

end Messages

end Collect

/-! ### Differences that are real -/

/-- Every value documents have at a path. -/
abbrev shownAt (docs : List Value) (p : Str) : List Value := Stat.values p (docs.map everything)

/-- A difference as the documents of the halves have it. -/
def Drift.Real (older newer : List Value) (d : Drift) : Prop :=
  match d.kind with
  | .fieldGone => 4 * older.length ≤ 5 * older.countP (occurs d.path) ∧ ∀ doc ∈ newer, occurs d.path doc = false
  | .fieldNew => 4 * newer.length ≤ 5 * newer.countP (occurs d.path) ∧ ∀ doc ∈ older, occurs d.path doc = false
  | .typeChanged => ∃ t t', Leads (together (shownAt older d.path)) t ∧ Leads (together (shownAt newer d.path)) t' ∧ t ≠ t'

/-- Where paths and types are counted as the documents have them: a path one half keeps in so many documents is
kept by the other if it occurs there, and where one type leads both halves with integers as numbers, what leads
them with integers apart, as far as the values are reached, compares equal. -/
structure Evident (older newer : List Value) : Prop where
  gone : ∀ p ∈ kept older, steady older p → (∃ doc ∈ newer, occurs p doc = true) → p ∈ kept newer
  new : ∀ p ∈ kept newer, steady newer p → (∃ doc ∈ older, occurs p doc = true) → p ∈ kept older
  type : ∀ p ∈ kept older, p ∈ kept newer → ∀ t, Leads (together (shownAt older p)) t → Leads (together (shownAt newer p)) t →
    ∀ a b, Leads (apart (counts older p)) a → Leads (apart (counts newer p)) b → comparable (some a) = comparable (some b)

/-- What is reached is there. -/
theorem carried_le (docs : List Value) (p : Str) : Stat.carried p (reached docs) ≤ docs.countP (occurs p) := by
  rw [Stat.carried, reached, List.countP_map]
  refine List.countP_mono_left fun doc _ there => ?_
  exact decide_eq_true (((visited_sublist _ doc).map Prod.fst).subset (of_decide_eq_true there))

theorem counts_sublist (docs : List Value) (p : Str) : (counts docs p).Sublist (shownAt docs p) := by
  refine List.Sublist.filterMap _ ?_
  rw [reached, ← List.flatMap_def, ← List.flatMap_def]
  exact List.Sublist.flatMap_right _ fun doc _ => visited_sublist _ doc

/-- Where a type leads what is reached, one leads everything. -/
theorem together_leads {docs : List Value} {p : Str} {a : JsonType} (leads : Leads (apart (counts docs p)) a) :
    ∃ t, Leads (together (shownAt docs p)) t := by
  have there : 0 < apart (shownAt docs p) a := Nat.lt_of_lt_of_le leads.2.1 ((counts_sublist docs p).countP_le)
  by_cases integer : a = .integer
  · subst integer
    refine exists_leads (t := .number) nofun ?_
    change 0 < apart _ _ + apart _ _
    omega
  · refine exists_leads leads.1 ?_
    have typed := leads.1
    cases a <;> first | contradiction | exact there | (change 0 < apart _ _ + apart _ _; omega)

section Real
variable {F : Type} [Formats F] [Recognizer] {msgs : List NatsMessage}

omit [Recognizer] in
/-- The type that leads what is reached is what the collector says. -/
theorem peak_eq (rt : Runtime) {docs : List Value} {p : Str} (here : p ∈ kept docs) {a : JsonType}
    (leads : Leads (apart (counts docs p)) a) : peak F rt docs p = some a := by
  obtain ⟨t, peak, leads'⟩ | ⟨-, none⟩ := peak_leads (F := F) rt here
  · rw [peak, leads'.unique leads]
  · exact absurd (none a leads.1) leads.2.1.ne'

/-- What is reported is real exactly where it is evident. -/
theorem real_iff (rt : Runtime) (many : enough msgs) :
    (∀ d ∈ (Infer (F := F) rt msgs).drift, d.Real (older msgs) (newer msgs)) ↔ Evident (older msgs) (newer msgs) := by
  simp only [mem_drift, many, true_and, collectors, driftAt_half rt many.1 many.2]
  constructor
  · intro real
    refine ⟨fun p here often there => ?_, fun p here often there => ?_, fun p here here' t leads leads' a b top top' => ?_⟩
    · by_contra absent
      obtain ⟨doc, member, shows⟩ := there
      have gone := real ⟨p, .fieldGone, peak F rt (older msgs) p, none, since msgs⟩ (by simp only [here, absent, often, if_true, if_false])
      exact absurd (gone.2 doc member) (by rw [shows]; nofun)
    · by_contra absent
      obtain ⟨doc, member, shows⟩ := there
      have new := real ⟨p, .fieldNew, none, peak F rt (newer msgs) p, since msgs⟩
        (by simp only [here, absent, often, and_self, if_true, if_false])
      exact absurd (new.2 doc member) (by rw [shows]; nofun)
    · by_contra differ
      have before : peak F rt (older msgs) p = some a := peak_eq rt here top
      have after : peak F rt (newer msgs) p = some b := peak_eq rt here' top'
      have typed : ¬ (some a = some .null ∨ some b = some .null ∨ comparable (some a) = comparable (some b)) :=
        fun any => any.elim (fun null => top.1 (Option.some.inj null)) fun any =>
          any.elim (fun null => top'.1 (Option.some.inj null)) differ
      obtain ⟨u, u', first, second, apart⟩ := real ⟨p, .typeChanged, some a, some b, since msgs⟩
        (by simp only [here, here', if_true, before, after, if_neg typed])
      exact apart ((first.unique leads).trans (leads'.unique second))
  · intro evident d reported
    split at reported
    · rename_i here
      split at reported
      · rename_i here'
        split at reported
        · cases reported
        · rename_i typed
          obtain ⟨a, before, top⟩ | ⟨null, -⟩ := peak_leads (F := F) rt here
          · obtain ⟨b, after, top'⟩ | ⟨null, -⟩ := peak_leads (F := F) rt here'
            · obtain ⟨t, leads⟩ := together_leads top
              obtain ⟨t', leads'⟩ := together_leads top'
              have kind := congrArg Drift.kind (Option.some.inj reported)
              have kind : Drift.Kind.typeChanged = d.kind := kind
              unfold Drift.Real
              rw [← kind]
              refine ⟨t, t', leads, leads', ?_⟩
              rintro rfl
              rw [before, after] at typed
              exact typed (.inr (.inr (evident.type _ here here' t leads leads' a b top top')))
            · exact absurd (.inr (.inl null)) typed
          · exact absurd (.inl null) typed
      · rename_i absent
        split at reported
        · rename_i often
          have kind : Drift.Kind.fieldGone = d.kind := congrArg Drift.kind (Option.some.inj reported)
          unfold Drift.Real
          rw [← kind]
          refine ⟨often.trans (Nat.mul_le_mul_left 5 (carried_le _ _)), fun doc member => Bool.eq_false_iff.mpr fun shows => ?_⟩
          exact absent (evident.gone _ here often ⟨doc, member, shows⟩)
        · cases reported
    · rename_i absent
      split at reported
      · rename_i both
        obtain ⟨here, often⟩ := both
        have kind : Drift.Kind.fieldNew = d.kind := congrArg Drift.kind (Option.some.inj reported)
        unfold Drift.Real
        rw [← kind]
        refine ⟨often.trans (Nat.mul_le_mul_left 5 (carried_le _ _)), fun doc member => Bool.eq_false_iff.mpr fun shows => ?_⟩
        exact absent (evident.new _ here often ⟨doc, member, shows⟩)
      · cases reported

end Real

/-! ### The order of messages with one timestamp -/

/-- The same messages in each half, in any order. -/
def SameHalves (msgs msgs' : List NatsMessage) : Prop :=
  ((inOrder msgs).take ((inOrder msgs).length / 2)).Perm ((inOrder msgs').take ((inOrder msgs').length / 2)) ∧
    ((inOrder msgs).drop ((inOrder msgs).length / 2)).Perm ((inOrder msgs').drop ((inOrder msgs').length / 2))

section Order
variable {F : Type} [Formats F] {docs docs' : List Value}

/-- Documents in another order, of which the same paths are kept. -/
structure SameKept (docs docs' : List Value) : Prop where
  perm : docs.Perm docs'
  kept : ∀ p, p ∈ kept docs ↔ p ∈ kept docs'

theorem SameKept.reached (same : SameKept docs docs') : (reached docs).Perm (reached docs') := by
  have answers : (fun p => decide (p ∈ schema.kept docs)) = fun p => decide (p ∈ schema.kept docs') :=
    funext fun p => decide_eq_decide.mpr (same.kept p)
  rw [schema.reached, schema.reached, answers]
  exact same.perm.map _

theorem SameKept.steady (same : SameKept docs docs') (p : Str) : steady docs p ↔ steady docs' p := by
  rw [schema.steady, schema.steady, same.perm.length_eq, Stat.carried, Stat.carried, same.reached.countP_eq]

theorem SameKept.apart (same : SameKept docs docs') (p : Str) : apart (counts docs p) = apart (counts docs' p) :=
  funext fun _ => (same.reached.flatten.filterMap _).countP_eq _

theorem SameKept.peak (same : SameKept docs docs') (rt rt' : Runtime) {p : Str} (here : p ∈ schema.kept docs) :
    peak F rt docs p = peak F rt' docs' p := by
  obtain ⟨t, before, leads⟩ | ⟨before, none⟩ := peak_leads (F := F) rt here
  · rw [same.apart] at leads
    rw [before, peak_eq rt' ((same.kept p).mp here) leads]
  · obtain ⟨t, -, leads⟩ | ⟨after, -⟩ := peak_leads (F := F) rt' (p := p) ((same.kept p).mp here)
    · rw [same.apart] at none
      exact absurd (none t leads.1) leads.2.1.ne'
    · rw [before, after]

theorem SameKept.driftAt {newer newer' : List Value} (same : SameKept docs docs') (same' : SameKept newer newer') (rt rt' : Runtime)
    (many : driftMinSamples ≤ docs.length) (many' : driftMinSamples ≤ newer.length) (since : Int) (p : Str) :
    driftAt rt (docs.foldl Collector.add (newCollector : Collector F)) (newer.foldl Collector.add newCollector) since p =
      driftAt rt' (docs'.foldl Collector.add (newCollector : Collector F)) (newer'.foldl Collector.add newCollector) since p := by
  rw [driftAt_half rt many many', driftAt_half rt' (same.perm.length_eq ▸ many) (same'.perm.length_eq ▸ many')]
  have keeps : (p ∈ schema.kept docs) = (p ∈ schema.kept docs') := propext (same.kept p)
  have keeps' : (p ∈ schema.kept newer) = (p ∈ schema.kept newer') := propext (same'.kept p)
  by_cases old : p ∈ schema.kept docs
  · by_cases new : p ∈ schema.kept newer
    · simp only [old, new, keeps.mp old, keeps'.mp new, if_true, same.peak (F := F) rt rt' old, same'.peak (F := F) rt rt' new]
    · simp only [old, new, keeps.mp old, mt keeps'.mpr new, if_true, if_false, same.peak (F := F) rt rt' old, same.steady p]
  · by_cases new : p ∈ schema.kept newer
    · simp only [old, new, mt keeps.mpr old, keeps'.mp new, if_false, true_and, same'.peak (F := F) rt rt' new, same'.steady p]
    · simp only [old, new, mt keeps.mpr old, mt keeps'.mpr new, if_false, false_and]

theorem sorted_same {paths paths' : List Str} (same : ∀ p, p ∈ paths ↔ p ∈ paths') :
    paths.dedup.mergeSort (· ≤ ·) = paths'.dedup.mergeSort (· ≤ ·) := by
  have trans (a b c : Str) (first : decide (a ≤ b) = true) (second : decide (b ≤ c) = true) : decide (a ≤ c) = true :=
    decide_eq_true ((of_decide_eq_true first).trans (of_decide_eq_true second))
  have total (a b : Str) : (decide (a ≤ b) || decide (b ≤ a)) = true := by
    simpa using le_total a b
  have perm : paths.dedup.Perm paths'.dedup :=
    (List.perm_ext_iff_of_nodup (List.nodup_dedup _) (List.nodup_dedup _)).mpr fun p => by
      rw [List.mem_dedup, List.mem_dedup, same p]
  exact List.Perm.eq_of_pairwise
    (fun _ _ _ _ first second => le_antisymm (of_decide_eq_true first) (of_decide_eq_true second))
    (List.pairwise_mergeSort trans total _) (List.pairwise_mergeSort trans total _)
    ((List.mergeSort_perm _ _).trans (perm.trans (List.mergeSort_perm _ _).symm))

variable {msgs msgs' : List NatsMessage}

theorem since_same (halves : SameHalves msgs msgs') : since msgs = since msgs' := by
  have sorted (ms : List NatsMessage) :
      (((inOrder ms).drop ((inOrder ms).length / 2)).map NatsMessage.timestamp).Pairwise (· ≤ ·) := by
    refine List.pairwise_map.mpr (List.Pairwise.sublist (List.drop_sublist _ _) ?_)
    exact (List.pairwise_mergeSort
      (fun _ _ _ first second => decide_eq_true ((of_decide_eq_true first).trans (of_decide_eq_true second)))
      (fun a b => by simpa using Int.le_total a.timestamp b.timestamp) ms).imp of_decide_eq_true
  have same := List.Perm.eq_of_pairwise (fun _ _ _ _ => Int.le_antisymm) (sorted msgs) (sorted msgs') (halves.2.map _)
  have start (ms : List NatsMessage) :
      since ms = (((inOrder ms).drop ((inOrder ms).length / 2)).map NatsMessage.timestamp).head?.getD 0 := by
    rw [since, List.head?_map, List.head?_drop]
  rw [start, start, same]

variable [Recognizer]

/-- Where each half keeps the same paths, the order in it does not show. -/
theorem drift_same (rt rt' : Runtime) (halves : SameHalves msgs msgs') (keeps : ∀ p, p ∈ kept (older msgs) ↔ p ∈ kept (older msgs'))
    (keeps' : ∀ p, p ∈ kept (newer msgs) ↔ p ∈ kept (newer msgs')) :
    (Infer (F := F) rt' msgs').drift = (Infer (F := F) rt msgs).drift := by
  have before : SameKept (older msgs) (older msgs') := ⟨halves.1.filterMap _, keeps⟩
  have after : SameKept (newer msgs) (newer msgs') := ⟨halves.2.filterMap _, keeps'⟩
  have many : enough msgs ↔ enough msgs' := by rw [enough, enough, before.perm.length_eq, after.perm.length_eq]
  have start : since msgs = since msgs' := since_same halves
  rw [infer_drift, infer_drift]
  by_cases more : enough msgs
  · rw [if_pos more, if_pos (many.mp more)]
    have samples {docs : List Value} : (docs.foldl Collector.add (newCollector : Collector F)).samples = docs.length :=
      (Collector.collected _).2
    have knows {docs : List Value} (p : Str) :
        p ∈ (docs.foldl Collector.add (newCollector : Collector F)).paths.keys ↔ p ∈ kept docs :=
      AList.mem_keys.symm.trans (decide_eq_decide.mp (collected_knows (F := F) docs p))
    have paths (p : Str) : p ∈ (collectors F msgs').1.paths.keys ++ (collectors F msgs').2.paths.keys ↔
        p ∈ (collectors F msgs).1.paths.keys ++ (collectors F msgs).2.paths.keys := by
      rw [List.mem_append, List.mem_append]
      exact or_congr ((knows p).trans ((keeps p).symm.trans (knows p).symm)) ((knows p).trans ((keeps' p).symm.trans (knows p).symm))
    have paths := sorted_same paths
    simp only [collectors] at paths
    simp only [schema.drift, collectors, samples, if_neg (not_or.mpr ⟨Nat.not_lt_of_le more.1, Nat.not_lt_of_le more.2⟩),
      if_neg (not_or.mpr ⟨Nat.not_lt_of_le (many.mp more).1, Nat.not_lt_of_le (many.mp more).2⟩)]
    rw [paths]
    refine List.filterMap_congr fun p _ => ?_
    rw [start]
    exact (before.driftAt after rt rt' more.1 more.2 _ p).symm
  · rw [if_neg more, if_neg (mt many.mpr more)]

end Order

section Claim
variable {F : Type} [Formats F] [Recognizer]

/-- What is reported of two halves is real exactly where it is evident, and where no order of the messages in a half
changes which paths it keeps, none changes what is reported. -/
theorem reported_evident (rt : Runtime) (msgs : List NatsMessage) :
    ((∀ d ∈ (Infer (F := F) rt msgs).drift, d.Real (older msgs) (newer msgs)) ↔
        (enough msgs → Evident (older msgs) (newer msgs))) ∧
      ((∀ msgs', SameHalves msgs msgs' →
          ∀ p, (p ∈ kept (older msgs) ↔ p ∈ kept (older msgs')) ∧ (p ∈ kept (newer msgs) ↔ p ∈ kept (newer msgs'))) →
        ∀ rt' msgs', SameHalves msgs msgs' → (Infer (F := F) rt' msgs').drift = (Infer (F := F) rt msgs).drift) := by
  constructor
  · by_cases many : enough msgs
    · rw [real_iff rt many]
      exact ⟨fun evident _ => evident, fun evident => evident many⟩
    · refine iff_of_true (fun d reported => ?_) fun more => absurd more many
      exact absurd ((mem_drift rt d).mp reported).1 many
  · intro keeps rt' msgs' halves
    exact drift_same rt rt' halves (fun p => (keeps msgs' halves p).1) fun p => (keeps msgs' halves p).2

end Claim

def mixedPayload : Str := "[\"a\",\"a\",1,1.5]".toList
def mixedDoc : Value := .array [.string ['a'], .string ['a'], .number ['1'], .number "1.5".toList]

def onePayload : Str := "[1]".toList
def oneDoc : Value := .array [.number ['1']]

@[reducible] def numberRecognizer : Recognizer where
  value text :=
    if text = utf8 mixedPayload then some (mixedDoc, [])
    else if text = utf8 onePayload then some (oneDoc, [])
    else none
  foldName key := key.map asciiLower

def numberMessages : List NatsMessage :=
  List.replicate 5 (sampleMessage mixedPayload 0) ++ List.replicate 5 (sampleMessage onePayload 1)

/-- Numbers are the most frequent in both halves, and a change from strings to integers is reported. -/
theorem reported_numbers :
    let := numberRecognizer
    let := sampleFormats
    ¬ ∀ d ∈ (Infer (F := ℕ) Runtime.plain numberMessages).drift, d.Real (older numberMessages) (newer numberMessages) := by
  intro _ _ real
  have sorted : inOrder numberMessages = numberMessages := by
    refine List.mergeSort_of_pairwise ?_
    decide
  have older : older numberMessages = List.replicate 5 mixedDoc := by
    rw [older, sorted]
    rfl
  have newer : newer numberMessages = List.replicate 5 oneDoc := by
    rw [newer, sorted]
    rfl
  have many : enough numberMessages := by
    rw [enough, older, newer]
    decide
  have evident := (real_iff (F := ℕ) Runtime.plain many).mp real
  rw [older, newer] at evident
  have changed := evident.type "[]".toList (by decide) (by decide) .number
    ⟨nofun, by decide, fun t _ => by cases t <;> decide⟩ ⟨nofun, by decide, fun t _ => by cases t <;> decide⟩
    .string .integer ⟨nofun, by decide, fun t typed => by cases t <;> first | contradiction | decide⟩
    ⟨nofun, by decide, fun t typed => by cases t <;> first | contradiction | decide⟩
  exact absurd changed (by decide)

end NatsExplorer.schema
