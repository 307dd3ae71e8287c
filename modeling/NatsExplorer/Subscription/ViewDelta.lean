import NatsExplorer.Subscription.ViewSpec
import NatsExplorer.Subscription.TreeTick

/-! What one call of `update` does to the tab. Between ticks a tab is `Synced`:
it is out of date only where the tree is flagged. Under an unchanged view the
subjects it was sent are moreover `Settled`, so the dirty nodes are all there is
to look at. -/
namespace NatsExplorer.Subscription
open Go

/-- What the browser keeps of a tree. -/
abbrev Tab (R : Type) := Str → Option (SubjectEntry R)

namespace Tab
def receive {R : Type} (tab : Tab R) (up : Option (TreeUpdate R)) : Tab R :=
  Mirror.receive SubjectEntry.subject tab up
end Tab

namespace ClientView

/-- The tab holds what the view shows, and nothing else. -/
def Mirrors {R : Type} [Tables] (v : ClientView) (t : Tree R) (tab : Tab R) : Prop :=
  ∀ s, (∀ r, t.Live s r → v.Shown t s → tab s = some (entryOf (t.heap r) !v.noPreview)) ∧
    (¬ v.Shown t s → tab s = none)

structure Synced {R : Type} [Tables] (v : ClientView) (t : Tree R) (tab : Tab R) : Prop where
  domain (s) : (tab s).isSome = true ↔ s ∈ v.sent
  current {s r} : s ∈ v.sent → t.Live s r → (t.heap r).dirty = false →
    tab s = some (entryOf (t.heap r) !v.noPreview)

structure Settled {R : Type} [Tables] (v : ClientView) (t : Tree R) : Prop where
  shown {s} : s ∈ v.sent → ∃ d r, t.Live d r ∧ Under s d ∧
    (v.Own t d r ∨ (v.prg.isSome = true ∧ (t.heap r).dirty = true))
  own {s r} : t.Live s r → v.Own t s r → s ∈ v.sent ∨ (t.heap r).dirty = true
  closed {s p} : s ∈ v.sent → Under p s → p ∈ v.sent
  listed {r} : r ∈ t.dirty → ∃ s, t.Live s r

/-- No removed node is listed after the node that has its subject now, unless
the tab does not have the subject or is not to have it. -/
def LastWord {R : Type} [Tables] (v : ClientView) (t : Tree R) (order : List Ref) : Prop :=
  order.Pairwise fun a b => t.Live (t.heap b).subject a → (t.heap b).subject ∈ v.sent →
    v.Shown t (t.heap b).subject → a = b

/-- Every changed node the tab has satisfies the expression itself. -/
def Upheld {R : Type} [Tables] (v : ClientView) (t : Tree R) : Prop :=
  v.prg.isSome = true → ∀ r ∈ t.dirty, (t.heap r).subject ∈ v.sent → v.matchesNode (t.heap r) = true

variable {R : Type} [Tables] {v : ClientView} {t : Tree R} {tab : Tab R} {s p : Str} {r n : Ref}

theorem Own.unsent {set : KeySet Str} : { v with sent := set }.Own t s r ↔ v.Own t s r := Iff.rfl

section Changed
variable {rt : Runtime} {full : Bool} {want : KeySet Str} {order : List Ref} {removed : List Str}
  {e : SubjectEntry R}

theorem mem_added : e ∈ v.added rt t full want ↔ ∃ s n, s ∈ want ∧ (s ∈ v.sent → full = true) ∧
    t.Live s n ∧ entryOf (t.heap n) (!v.noPreview) = e := by
  simp only [added, List.mem_filterMap, List.mem_filter, rt.mem_range, AList.mem_keys,
    Bool.not_eq_eq_eq_not, Bool.not_true, decide_eq_false_iff_not, not_and, Bool.not_eq_true,
    Bool.not_eq_false, Option.map_eq_some_iff, Tree.Live]
  constructor
  · rintro ⟨s, ⟨wanted, unsent⟩, n, live, same⟩
    exact ⟨s, n, wanted, unsent, live, same⟩
  · rintro ⟨s, n, wanted, unsent, live, same⟩
    exact ⟨s, ⟨wanted, unsent⟩, n, live, same⟩

theorem mem_changed : e ∈ v.changed t want order ↔ ∃ n ∈ order, (t.heap n).subject ∈ v.sent ∧
    (t.heap n).subject ∈ want ∧ entryOf (t.heap n) (!v.noPreview) = e := by
  simp only [changed, List.mem_map, List.mem_filter, decide_eq_true_eq, and_assoc]

theorem changed_append (pre post : List Ref) :
    v.changed t want (pre ++ post) = v.changed t want pre ++ v.changed t want post := by
  simp only [changed, List.filter_append, List.map_append]

theorem changed_cons (sent : (t.heap n).subject ∈ v.sent) (here : (t.heap n).subject ∈ want)
    (post : List Ref) : v.changed t want (n :: post) =
      entryOf (t.heap n) (!v.noPreview) :: v.changed t want post := by
  simp only [changed, List.filter_cons, sent, here, and_self, decide_true, ↓reduceIte, List.map_cons]

/-- A subject that stays in sight: the last word on it is the node that has it. -/
theorem changed_stays (linked : t.Linked) (marked : t.Marked) (live : t.Live s r)
    (shown : v.Shown t s) (sent : s ∈ v.sent) (here : s ∈ want) (synced : v.Synced t tab)
    (lists : ∀ r, r ∈ order ↔ r ∈ t.dirty) (last : v.LastWord t order) (kept : s ∉ removed) :
    tab.receive (some {
      full := false
      entries := v.added rt t false want ++ v.changed t want order
      removed := removed }) s = some (entryOf (t.heap r) !v.noPreview) := by
  have subject := linked.subject live
  by_cases touched : ∃ n ∈ order, (t.heap n).subject = s
  · obtain ⟨n, member, same⟩ := touched
    have flag := marked.flagged ((lists n).mp member) (same.symm ▸ live)
    obtain ⟨pre, post, split⟩ := List.append_of_mem ((lists r).mpr (marked.listed live flag))
    rw [split, changed_append, changed_cons (subject.symm ▸ sent) (subject.symm ▸ here),
      ← List.append_assoc]
    refine Mirror.fold_from _ subject fun e later keyed => ?_
    obtain ⟨n', member', _, _, rfl⟩ := mem_changed.mp later
    have keyed' : (t.heap n').subject = s := keyed
    have after := (List.pairwise_append.mp (split ▸ last)).2.1
    rw [(List.pairwise_cons.mp after).1 n' member' (keyed' ▸ live) (keyed' ▸ sent)
      (keyed' ▸ shown)]
  · have clean : (t.heap r).dirty = false := by
      cases flag : (t.heap r).dirty with
      | false => rfl
      | true => exact absurd ⟨r, (lists r).mpr (marked.listed live flag), subject⟩ touched
    refine (Mirror.fold_absent fun e member keyed => ?_).trans ?_
    · rcases List.mem_append.mp member with member | member
      · obtain ⟨s', n, _, unsent, live', rfl⟩ := mem_added.mp member
        have same : s' = s := (linked.subject live').symm.trans keyed
        exact absurd (unsent (same ▸ sent)) (by simp)
      · obtain ⟨n, listed, _, _, rfl⟩ := mem_changed.mp member
        exact touched ⟨n, listed, keyed⟩
    · rw [if_neg (by simp [kept]), synced.current sent live clean]

theorem viewDelta_spec (rt : Runtime) (linked : t.Linked) (marked : t.Marked)
    (synced : full = false → v.Synced t tab) (fresh : full = true → ∀ s, s ∉ v.sent)
    (last : v.LastWord t t.dirty) :
    v.Mirrors t (tab.receive (some (v.viewDelta rt t full t.dirty).2)) ∧
      ∀ s, s ∈ (v.viewDelta rt t full t.dirty).1.sent ↔ v.Shown t s := by
  have wanted : ∀ s, s ∈ v.collect rt t ↔ v.Shown t s := fun s => mem_collect rt linked
  simp only [viewDelta]
  generalize v.collect rt t = want at wanted
  have gone : ∀ s, s ∈ rt.sortSlice (fun a b => decide (a < b))
      ((rt.range v.sent.keys).filter fun s => s ∉ want) ↔ s ∈ v.sent ∧ s ∉ want := by
    simp only [rt.mem_sortSlice, List.mem_filter, rt.mem_range, AList.mem_keys, decide_eq_true_eq,
      implies_true]
  generalize rt.sortSlice _ _ = removed at gone ⊢
  refine ⟨fun s => ⟨fun r live shown => ?_, fun hidden => ?_⟩, wanted⟩
  · have here := (wanted s).mpr shown
    by_cases sent : s ∈ v.sent
    · cases full with
      | false =>
        exact changed_stays linked marked live shown sent here (synced rfl) (fun _ => Iff.rfl) last
          fun member => ((gone s).mp member).2 here
      | true => exact absurd sent (fresh rfl s)
    · have entered : entryOf (t.heap r) (!v.noPreview) ∈ v.added rt t full want :=
        mem_added.mpr ⟨s, r, here, fun h => absurd h sent, live, rfl⟩
      refine Mirror.fold_agree (List.mem_append_left _ entered) (linked.subject live) ?_
      intro e member keyed
      rcases List.mem_append.mp member with member | member
      · obtain ⟨s', n, _, _, live', rfl⟩ := mem_added.mp member
        obtain rfl : s' = s := (linked.subject live').symm.trans keyed
        rw [live'.unique live]
      · obtain ⟨n, _, sent', _, rfl⟩ := mem_changed.mp member
        exact absurd (keyed ▸ sent') sent
  · have outside : s ∉ want := fun here => hidden ((wanted s).mp here)
    refine (Mirror.fold_absent fun e member keyed => outside ?_).trans ?_
    · rcases List.mem_append.mp member with member | member
      · obtain ⟨s', n, here, _, live', rfl⟩ := mem_added.mp member
        obtain rfl : s' = s := (linked.subject live').symm.trans keyed
        exact here
      · obtain ⟨n, _, _, here, rfl⟩ := mem_changed.mp member
        exact keyed ▸ here
    · by_cases cleared : full = true ∨ s ∈ removed
      · rw [if_pos cleared]
      · rw [if_neg cleared]
        rw [not_or, Bool.not_eq_true] at cleared
        have unsent : s ∉ v.sent := fun sent => cleared.2 ((gone s).mpr ⟨sent, outside⟩)
        exact Option.not_isSome_iff_eq_none.mp fun some =>
          unsent (((synced cleared.1).domain s).mp some)

theorem viewDelta_idle (rt : Runtime) (linked : t.Linked) (same : ∀ s, s ∈ v.sent ↔ v.Shown t s)
    (unchanged : ∀ n ∈ order, (t.heap n).subject ∉ v.sent) :
    (v.viewDelta rt t false order).2.entries = [] ∧ (v.viewDelta rt t false order).2.removed = [] := by
  have wanted : ∀ s, s ∈ v.collect rt t ↔ v.Shown t s := fun s => mem_collect rt linked
  constructor
  · refine List.append_eq_nil_iff.mpr ⟨List.eq_nil_iff_forall_not_mem.mpr fun e member => ?_,
      List.eq_nil_iff_forall_not_mem.mpr fun e member => ?_⟩
    · obtain ⟨s, _, here, unsent, _⟩ := mem_added.mp member
      exact absurd (unsent ((same s).mpr ((wanted s).mp here))) (by simp)
    · obtain ⟨n, listed, sent, _⟩ := mem_changed.mp member
      exact unchanged n listed sent
  · refine List.eq_nil_iff_forall_not_mem.mpr fun s member => ?_
    have gone := List.mem_filter.mp (rt.mem_sortSlice.mp member)
    have sent : s ∈ v.sent := AList.mem_keys.mpr (rt.mem_range.mp gone.1)
    exact of_decide_eq_true gone.2 ((wanted s).mpr ((same s).mp sent))

end Changed

end ClientView
end NatsExplorer.Subscription

/-! The incremental path: walking the dirty nodes sends every one that is
visible together with its unsent ancestors, which leaves the sent subjects
closed upwards and the tab up to date. -/
namespace NatsExplorer.Subscription
open Go
namespace ClientView

/-- What was sent so far in this tick was sent from live nodes. -/
structure Emitted {R : Type} [Tables] (v : ClientView) (t : Tree R) (before : KeySet Str)
    (e : Emission R) : Prop where
  sent (s) : s ∈ e.sent ↔ s ∈ before ∨ ∃ n ∈ e.done, t.Live s n
  live {n} : n ∈ e.done → ∃ s, t.Live s n
  entries : e.entries = e.done.map fun n => entryOf (t.heap n) !v.noPreview

def Closed (sent : KeySet Str) : Prop := ∀ s p, s ∈ sent → Under p s → p ∈ sent

/-- What holds of the emission after any number of dirty nodes. -/
structure Progress {R : Type} [Tables] (v : ClientView) (t : Tree R) (before : KeySet Str)
    (e : Emission R) : Prop where
  emitted : v.Emitted t before e
  closed : Closed e.sent
  shown {s} : s ∈ e.sent → v.Shown t s

variable {R : Type} [Tables] {v : ClientView} {t : Tree R} {tab : Tab R} {before : KeySet Str}
  {e : Emission R} {s p : Str} {r n : Ref} {fuel : Nat}

theorem emit_spec (linked : t.Linked) (emitted : v.Emitted t before e) (live : t.Live s n) :
    v.Emitted t before (v.emit t e n) ∧ n ∈ (v.emit t e n).done ∧ e.done ⊆ (v.emit t e n).done ∧
      ∀ x, x ∈ (v.emit t e n).sent ↔ x = s ∨ x ∈ e.sent := by
  unfold emit
  split
  · rename_i done
    refine ⟨emitted, done, List.Subset.refl _, fun x => ⟨Or.inr, ?_⟩⟩
    rintro (rfl | sent)
    · exact (emitted.sent x).mpr (Or.inr ⟨n, done, live⟩)
    · exact sent
  · refine ⟨⟨fun x => ?_, ?_, ?_⟩, by simp, List.subset_append_left .., fun x => ?_⟩
    · simp only [AList.mem_insert, linked.subject live, emitted.sent, List.mem_append,
        List.mem_singleton]
      constructor
      · rintro (rfl | sent | ⟨m, done, liveM⟩)
        · exact Or.inr ⟨n, Or.inr rfl, live⟩
        · exact Or.inl sent
        · exact Or.inr ⟨m, Or.inl done, liveM⟩
      · rintro (sent | ⟨m, done | rfl, liveM⟩)
        · exact Or.inr (Or.inl sent)
        · exact Or.inr (Or.inr ⟨m, done, liveM⟩)
        · exact Or.inl (linked.inj liveM live)
    · intro m done
      rcases List.mem_append.mp done with done | done
      · exact emitted.live done
      · exact List.mem_singleton.mp done ▸ ⟨s, live⟩
    · simp only [emitted.entries, List.map_append, List.map_cons, List.map_nil]
    · simp only [AList.mem_insert, linked.subject live]

theorem emitAbove_spec (linked : t.Linked) (emitted : v.Emitted t before e) (live : t.Live p n)
    (enough : (t.heap n).depth < fuel)
    (closed : ∀ m, Under m p → m ∈ e.sent → ∀ q, Under q m → q ∈ e.sent) :
    v.Emitted t before (v.emitAbove t fuel (some n) e) ∧
      e.done ⊆ (v.emitAbove t fuel (some n) e).done ∧
      ∀ x, x ∈ (v.emitAbove t fuel (some n) e).sent ↔ x ∈ e.sent ∨ Under x p := by
  induction fuel generalizing p n e with
  | zero => omega
  | succ fuel ih =>
    simp only [emitAbove, linked.subject live]
    split
    · rename_i sent
      refine ⟨emitted, List.Subset.refl _, fun x => ⟨Or.inl, ?_⟩⟩
      rintro (sent' | under)
      · exact sent'
      · exact closed p (.refl p) sent x under
    · obtain ⟨emitted', done, mono, members⟩ := emit_spec linked emitted live
      cases above : parentSubject p with
      | none =>
        rw [linked.parent live, above, Option.bind_none]
        have stop : v.emitAbove t fuel none (v.emit t e n) = v.emit t e n := by
          cases fuel <;> rfl
        rw [stop]
        refine ⟨emitted', mono, fun x => ?_⟩
        rw [members, or_comm]
        refine or_congr_right ⟨?_, fun under => (under.root above).symm⟩
        rintro rfl
        exact .refl x
      | some m =>
        obtain ⟨q, liveQ⟩ := linked.closed live above
        have depth := linked.depthChild live above liveQ
        have shorter := parentSubject_length above
        have apart : ∀ x, Under x m → x ≠ p := by
          rintro x under rfl
          have := under.isPrefix.length_le
          omega
        rw [linked.parent live, above, Option.bind_some, show t.nodes.lookup m = some q from liveQ]
        obtain ⟨final, mono', members'⟩ := ih emitted' liveQ (by omega) fun x under sent y under' =>
          (members y).mpr (Or.inr (closed x (.of_parent above under)
            (((members x).mp sent).resolve_left (apart x under)) y under'))
        refine ⟨final, fun x h => mono' (mono h), fun x => ?_⟩
        rw [members', members]
        constructor
        · rintro ((rfl | sent) | under)
          · exact Or.inr (.refl x)
          · exact Or.inl sent
          · exact Or.inr (.of_parent above under)
        · rintro (sent | under)
          · exact Or.inl (Or.inr sent)
          · rcases under.parent above with rfl | under
            · exact Or.inl (Or.inl rfl)
            · exact Or.inr under

/-- A visible dirty node is sent with everything above it. -/
theorem emitVisible_spec (linked : t.Linked) (emitted : v.Emitted t before e) (live : t.Live s n)
    (closed : Closed e.sent) (seen : { v with sent := e.sent }.visible t n = true) :
    v.Emitted t before (v.emitVisible t e n) ∧ n ∈ (v.emitVisible t e n).done ∧
      e.done ⊆ (v.emitVisible t e n).done ∧
      ∀ x, x ∈ (v.emitVisible t e n).sent ↔ x ∈ e.sent ∨ Under x s := by
  simp only [emitVisible, seen, ↓reduceIte, linked.parent live]
  cases above : parentSubject s with
  | none =>
    have stop : v.emitAbove t (t.heap n).depth none e = e := by
      cases (t.heap n).depth <;> rfl
    rw [Option.bind_none, stop]
    obtain ⟨emitted', done, mono, members⟩ := emit_spec linked emitted live
    refine ⟨emitted', done, mono, fun x => ?_⟩
    rw [members, or_comm]
    refine or_congr_right ⟨?_, fun under => (under.root above).symm⟩
    rintro rfl
    exact .refl x
  | some m =>
    obtain ⟨q, liveQ⟩ := linked.closed live above
    have depth := linked.depthChild live above liveQ
    rw [Option.bind_some, show t.nodes.lookup m = some q from liveQ]
    obtain ⟨emitted₁, mono₁, members₁⟩ := emitAbove_spec linked emitted liveQ
      (show (t.heap q).depth < (t.heap n).depth by omega)
      fun x _ sent y under => closed x y sent under
    obtain ⟨emitted₂, done, mono₂, members₂⟩ := emit_spec linked emitted₁ live
    refine ⟨emitted₂, done, fun x h => mono₂ (mono₁ h), fun x => ?_⟩
    rw [members₂, members₁]
    constructor
    · rintro (rfl | sent | under)
      · exact Or.inr (.refl x)
      · exact Or.inl sent
      · exact Or.inr (.of_parent above under)
    · rintro (sent | under)
      · exact Or.inr (Or.inl sent)
      · rcases under.parent above with rfl | under
        · exact Or.inl rfl
        · exact Or.inr (Or.inr under)

theorem visible_of_sent (linked : t.Linked) (live : t.Live s n) (shown : v.Shown t s)
    (sent : s ∈ v.sent) (upheld : v.prg.isSome = true → v.matchesNode (t.heap n) = true) :
    v.visible t n = true := by
  unfold visible
  split
  · exact upheld ‹_›
  · rename_i prg
    split
    · rw [linked.subject live, if_pos sent]
    · rename_i terms
      obtain ⟨d, r, _, below, own⟩ := shown
      unfold Own filtering at own
      rw [if_neg (by simp [terms, prg])] at own
      refine (visibleByExpansion_spec linked live).mpr fun p above ne =>
        own p (above.trans below) ?_
      rintro rfl
      exact ne (above.antisymm below).symm

theorem emitVisible_progress (linked : t.Linked) (live : t.Live s n)
    (progress : Progress v t before e) : Progress v t before (v.emitVisible t e n) ∧
      e.done ⊆ (v.emitVisible t e n).done ∧
      ({ v with sent := e.sent }.visible t n = true → n ∈ (v.emitVisible t e n).done) := by
  cases seen : { v with sent := e.sent }.visible t n with
  | false =>
    have same : v.emitVisible t e n = e := by simp [emitVisible, seen]
    rw [same]
    exact ⟨progress, List.Subset.refl _, by simp⟩
  | true =>
    obtain ⟨emitted, done, mono, members⟩ :=
      emitVisible_spec linked progress.emitted live progress.closed seen
    have here : v.Shown t s := by
      rcases own_of_visible linked live seen with own | sent
      · exact ⟨s, n, live, .refl s, own⟩
      · exact progress.shown sent
    refine ⟨⟨emitted, fun x y member under => ?_, fun {x} member => ?_⟩, mono, fun _ => done⟩
    · refine (members y).mpr (((members x).mp member).imp (fun sent => ?_) under.trans)
      exact progress.closed x y sent under
    · rcases (members x).mp member with sent | under
      · exact progress.shown sent
      · exact here.above under

theorem emission_progress (linked : t.Linked) (l : List Ref) (lives : ∀ r ∈ l, ∃ s, t.Live s r)
    (progress : Progress v t before e) : Progress v t before (l.foldl (v.emitVisible t) e) ∧
      e.done ⊆ (l.foldl (v.emitVisible t) e).done ∧
      ∀ s r, r ∈ l → t.Live s r → v.Own t s r ∨ (s ∈ before ∧
        (v.prg.isSome = true → v.matchesNode (t.heap r) = true)) →
        r ∈ (l.foldl (v.emitVisible t) e).done := by
  induction l generalizing e with
  | nil => exact ⟨progress, List.Subset.refl _, by simp⟩
  | cons n l ih =>
    obtain ⟨s, live⟩ := lives n List.mem_cons_self
    obtain ⟨progress₁, mono₁, done₁⟩ := emitVisible_progress linked live progress
    obtain ⟨progress₂, mono₂, done₂⟩ :=
      ih (fun r member => lives r (List.mem_cons_of_mem _ member)) progress₁
    rw [List.foldl_cons]
    refine ⟨progress₂, fun x h => mono₂ (mono₁ h), fun s' r member live' why => ?_⟩
    rcases List.mem_cons.mp member with rfl | member
    · refine mono₂ (done₁ ?_)
      rcases why with own | ⟨sent, upheld⟩
      · exact visible_of_own linked live' (Own.unsent.mpr own)
      · have sent' : s' ∈ e.sent := (progress.emitted.sent s').mpr (Or.inl sent)
        exact visible_of_sent linked live' (progress.shown sent') sent' upheld
    · exact done₂ s' r member live' why

/-- Under an upheld expression every sent subject is still to be shown. -/
theorem Settled.still (settled : v.Settled t) (linked : t.Linked) (marked : t.Marked)
    (upheld : v.Upheld t) (sent : s ∈ v.sent) : v.Shown t s := by
  obtain ⟨d, r, live, below, own | ⟨prg, flag⟩⟩ := settled.shown sent
  · exact ⟨d, r, live, below, own⟩
  · obtain ⟨q, liveS⟩ := linked.above live below
    have flagS := marked.above linked live flag below liveS
    have found := upheld prg q (marked.listed liveS flagS) ((linked.subject liveS).symm ▸ sent)
    refine ⟨s, q, liveS, .refl s, ?_⟩
    unfold Own filtering
    rwa [if_pos (by rw [prg, Bool.or_true])]

theorem dirtyDelta_spec (linked : t.Linked) (marked : t.Marked) (synced : v.Synced t tab)
    (settled : v.Settled t) (upheld : v.Upheld t) :
    v.Mirrors t (tab.receive (some (v.dirtyDelta t t.dirty).2)) ∧
      ∀ s, s ∈ (v.dirtyDelta t t.dirty).1.sent ↔ v.Shown t s := by
  have still : ∀ s, s ∈ v.sent → v.Shown t s := fun s => settled.still linked marked upheld
  have start : Progress v t v.sent ({ sent := v.sent, done := [], entries := [] } : Emission R) :=
    ⟨⟨fun s => by simp, fun done => absurd done List.not_mem_nil, rfl⟩,
      fun _ _ => settled.closed, still _⟩
  obtain ⟨progress, _, done⟩ := emission_progress linked t.dirty (fun _ => settled.listed) start
  unfold dirtyDelta
  generalize t.dirty.foldl (v.emitVisible t) _ = e at progress done ⊢
  have sentIff : ∀ s, s ∈ e.sent ↔ v.Shown t s := by
    refine fun s => ⟨progress.shown, ?_⟩
    rintro ⟨d, r, live, below, own⟩
    refine progress.closed d s ((progress.emitted.sent d).mpr ?_) below
    rcases settled.own live own with sent | flag
    · exact Or.inl sent
    · exact Or.inr ⟨r, done d r (marked.listed live flag) live (Or.inl own), live⟩
  have keyed : ∀ s' entry, entry ∈ e.entries → entry.subject = s' →
      ∃ n ∈ e.done, t.Live s' n ∧ entry = entryOf (t.heap n) !v.noPreview := by
    intro s' entry member same
    rw [progress.emitted.entries] at member
    obtain ⟨n, here, rfl⟩ := List.mem_map.mp member
    obtain ⟨s'', live⟩ := progress.emitted.live here
    exact ⟨n, here, ((linked.subject live).symm.trans same) ▸ live, rfl⟩
  refine ⟨fun s => ⟨fun r live shown => ?_, fun hidden => ?_⟩, sentIff⟩
  · by_cases here : r ∈ e.done
    · have entered : entryOf (t.heap r) (!v.noPreview) ∈ e.entries :=
        progress.emitted.entries ▸ List.mem_map.mpr ⟨r, here, rfl⟩
      refine Mirror.fold_agree entered (linked.subject live) fun entry member same => ?_
      obtain ⟨n, _, live', rfl⟩ := keyed s entry member same
      rw [live'.unique live]
    · have absent : ∀ entry ∈ e.entries, entry.subject ≠ s := by
        intro entry member same
        obtain ⟨n, here', live', rfl⟩ := keyed s entry member same
        exact here (live'.unique live ▸ here')
      have sent : s ∈ v.sent := by
        rcases (progress.emitted.sent s).mp ((sentIff s).mpr shown) with sent | ⟨n, here', live'⟩
        · exact sent
        · exact absurd (live'.unique live ▸ here') here
      have clean : (t.heap r).dirty = false := by
        cases flag : (t.heap r).dirty with
        | false => rfl
        | true =>
          have listed := marked.listed live flag
          exact absurd (done s r listed live (Or.inr ⟨sent, fun prg =>
            upheld prg r listed ((linked.subject live).symm ▸ sent)⟩)) here
      refine (Mirror.fold_absent absent).trans ?_
      rw [if_neg (by simp), synced.current sent live clean]
  · have unsent : s ∉ e.sent := fun sent => hidden ((sentIff s).mp sent)
    refine (Mirror.fold_absent fun entry member same => ?_).trans ?_
    · obtain ⟨n, here, live', rfl⟩ := keyed s entry member same
      exact unsent ((progress.emitted.sent s).mpr (Or.inr ⟨n, here, live'⟩))
    · rw [if_neg (by simp)]
      exact Option.not_isSome_iff_eq_none.mp fun some =>
        unsent ((progress.emitted.sent s).mpr (Or.inl ((synced.domain s).mp some)))

theorem dirtyDelta_idle (l : List Ref) (hidden : ∀ n ∈ l, v.visible t n = false) :
    (v.dirtyDelta t l).2.entries = [] := by
  have stays : ∀ l : List Ref, (∀ n ∈ l, v.visible t n = false) →
      l.foldl (v.emitVisible t) { sent := v.sent, done := [], entries := [] } =
        ({ sent := v.sent, done := [], entries := [] } : Emission R) := by
    intro l hidden
    induction l with
    | nil => rfl
    | cons n l ih =>
      have skip : v.emitVisible t { sent := v.sent, done := [], entries := [] } n =
          { sent := v.sent, done := [], entries := [] } := by
        rw [emitVisible, if_neg (by simp [hidden n List.mem_cons_self])]
      rw [List.foldl_cons, skip]
      exact ih fun m member => hidden m (List.mem_cons_of_mem _ member)
  simp only [dirtyDelta, stays l hidden]

end ClientView
end NatsExplorer.Subscription
