import NatsExplorer.Subscription.TreeTick

/-! What each operation does to the nodes of the tree, their own numbers and their flags: `get` makes the
nodes on a path, `observe` writes the last of them, `remove` takes nodes from the end of a path. -/
namespace NatsExplorer.Subscription
open Go

/-- A node's own messages and their rate. -/
def Node.own {R : Type} (n : Node R) : Nat × R := (n.count, n.rate)

namespace Tree
variable {R : Type} {t t' u : Tree R} {s p full seg : Str} {r n : Ref}

/-- No node of this subject. -/
def Absent (t : Tree R) (s : Str) : Prop := ∀ r, ¬ t.Live s r

theorem absent_of_lookup (found : t.nodes.lookup s = none) : t.Absent s := by
  intro r live
  rw [Live, found] at live
  cases live

theorem live_or_absent (t : Tree R) (s : Str) : (∃ r, t.Live s r) ∨ t.Absent s := by
  cases found : t.nodes.lookup s with
  | none => exact .inr (absent_of_lookup found)
  | some r => exact .inl ⟨r, found⟩

theorem under_parent (above : parentSubject s = some p) : Under p s := by
  obtain ⟨seg, rfl, _⟩ := parentSubject_eq_some.mp above
  exact .child p seg

theorem Flagged.own (flagged : Flagged t t') (r : Ref) : (t'.heap r).own = (t.heap r).own := by
  rw [flagged.heap r]
  rfl

section Flags

/-- The way up flags nothing beside the path. -/
theorem markUp_only (fuel : Nat) (cursor : Option Ref) (linked : Linked t)
    (along : ∀ n, cursor = some n → ∃ p, t.Live p n ∧ Under p s)
    (flag : ((markUp fuel cursor t).heap r).dirty = true) : (t.heap r).dirty = true ∨ ∃ p, t.Live p r ∧ Under p s := by
  induction fuel generalizing cursor t with
  | zero => cases cursor <;> exact .inl flag
  | succ fuel ih =>
    cases cursor with
    | none => exact .inl flag
    | some n =>
      obtain ⟨p, live, under⟩ := along n rfl
      simp only [markUp] at flag
      split at flag
      · exact .inl flag
      · let u : Tree R := { t.modify n fun node => { node with dirty := true } with dirty := t.dirty ++ [n] }
        have heapN : u.heap n = { t.heap n with dirty := true } := Function.update_self ..
        have other : ∀ r, r ≠ n → u.heap r = t.heap r := fun r ne => Function.update_of_ne ne ..
        have linkedU : Linked u := by
          refine linked.transport rfl rfl le_rfl fun s r _ => ?_
          by_cases same : r = n
          · rw [same, heapN]
            exact ⟨rfl, rfl, rfl, rfl⟩
          · rw [other r same]
            exact ⟨rfl, rfl, rfl, rfl⟩
        have above : ∀ q, (t.heap n).parent = some q → ∃ p', u.Live p' q ∧ Under p' s := by
          intro q found
          rw [linked.parent live] at found
          obtain ⟨p', above, liveQ⟩ := Option.bind_eq_some_iff.mp found
          exact ⟨p', liveQ, (under_parent above).trans under⟩
        obtain old | path := ih (t.heap n).parent linkedU above flag
        · by_cases same : r = n
          · exact .inr ⟨p, same ▸ live, under⟩
          · rw [other r same] at old
            exact .inl old
        · exact .inr path

/-- A mark reaches the node and what is above it. -/
theorem markDirty_flags (linked : Linked t) (live : t.Live s n) (marked : MarkedBut (some n) t) (there : t.Live p r) :
    ((t.markDirty n).heap r).dirty = true ↔ (t.heap r).dirty = true ∨ Under p s := by
  obtain ⟨flagged, final, dirtyN⟩ := markDirty_spec linked live marked
  constructor
  · intro flag
    have start : ∀ m, some n = some m → ∃ p, t.Live p m ∧ Under p s := by
      rintro m ⟨⟩
      exact ⟨s, live, .refl s⟩
    obtain old | ⟨p', live', under⟩ := markUp_only _ (some n) linked start flag
    · exact .inl old
    · exact .inr (linked.inj there live' ▸ under)
  · rintro (old | under)
    · exact flagged.mono old
    · exact final.above (flagged.linked linked) (flagged.live.mpr live) dirtyN under (flagged.live.mpr there)

end Flags

section Get

/-- Nodes are made for `s` and what is above it, and flagged as long as `s` had none. -/
structure Planted (t t' : Tree R) (s : Str) [Zero R] : Prop where
  live : ∃ r, t'.Live s r
  old {p : Str} {r : Ref} : t.Live p r → t'.Live p r ∧ (t'.heap r).own = (t.heap r).own ∧
    ((t'.heap r).dirty = true ↔ (t.heap r).dirty = true ∨ Under p s ∧ t.Absent s)
  new {p : Str} {r : Ref} : t'.Live p r → t.Absent p → Under p s ∧ (t'.heap r).own = (0, 0) ∧ (t'.heap r).dirty = true

variable [Zero R]

theorem Planted.refl (live : t.Live s r) : Planted t t s where
  live := ⟨r, live⟩
  old there := ⟨there, rfl, .inl, fun flag => flag.resolve_right fun none => none.2 r live⟩
  new there absent := absurd there (absent _)

theorem Planted.absent (planted : Planted t t' s) (absent : t'.Absent p) : t.Absent p :=
  fun r live => absent r (planted.old live).1

/-- A longer path after a shorter one. -/
theorem Planted.trans (linked : Linked t) (first : Planted t t' p) (second : Planted t' u s) (under : Under p s) :
    Planted t u s where
  live := second.live
  old {q r} live := by
    obtain ⟨live', own, flag⟩ := first.old live
    obtain ⟨live'', own', flag'⟩ := second.old live'
    refine ⟨live'', own'.trans own, flag'.trans ⟨?_, ?_⟩⟩
    · rintro (old | ⟨below, absent⟩)
      · rcases flag.mp old with old | ⟨above, absent⟩
        · exact .inl old
        · refine .inr ⟨above.trans under, fun r' live => ?_⟩
          obtain ⟨q', live'⟩ := linked.above live under
          exact absent q' live'
      · exact .inr ⟨below, first.absent absent⟩
    · rintro (old | ⟨below, absent⟩)
      · exact .inl (flag.mpr (.inl old))
      · rcases live_or_absent t' s with ⟨r', here⟩ | none
        · have same := (first.new here absent).1.antisymm under
          subst same
          exact .inl (flag.mpr (.inr ⟨below, absent⟩))
        · exact .inr ⟨below, none⟩
  new {q r} live absent := by
    rcases live_or_absent t' q with ⟨r', before⟩ | none
    · obtain ⟨above, own, flag⟩ := first.new before absent
      obtain ⟨after, own', flag'⟩ := second.old before
      cases after.unique live
      exact ⟨above.trans under, own'.trans own, flag'.mpr (.inl flag)⟩
    · exact second.new live none

theorem enter_planted {parent : Option Ref} (linked : Linked t) (marked : Marked t) (entry : Entry t parent full seg) :
    Planted t (t.enter parent full seg).1 full := by
  cases found : t.nodes.lookup full with
  | some n =>
    simp only [enter, found]
    exact .refl found
  | none =>
    rw [enter_new found]
    have linkedU := link_linked linked entry found
    have marks := link_marked linked marked entry
    have liveN : (t.link parent full seg).Live full t.next := link_live.mpr (.inl ⟨rfl, rfl⟩)
    obtain ⟨flagged, -, dirtyN⟩ := markDirty_spec linkedU liveN marks
    refine ⟨⟨t.next, flagged.live.mpr liveN⟩, fun {p r} live => ?_, fun {p r} live absent => ?_⟩
    · obtain ⟨children, heap⟩ := link_heap_old linked entry (linked.alloc live)
      have there : (t.link parent full seg).Live p r := by
        refine link_live.mpr (.inr ⟨?_, live⟩)
        rintro rfl
        exact absent_of_lookup found r live
      refine ⟨flagged.live.mpr there, (flagged.own r).trans (by rw [heap]; rfl), ?_⟩
      refine (markDirty_flags linkedU liveN marks there).trans ?_
      rw [heap]
      exact or_congr_right (and_iff_left (absent_of_lookup found)).symm
    · rcases link_live.mp (flagged.live.mp live) with ⟨rfl, rfl⟩ | ⟨-, old⟩
      · refine ⟨.refl _, (flagged.own _).trans ?_, dirtyN⟩
        rw [link_heap_new linked entry]
        rfl
      · exact absurd old (absent r)

theorem getFrom_planted {parent : Option Ref} (rest : Str) (linked : Linked t) (marked : Marked t)
    (entry : Entry t parent full seg) : Planted t (t.getFrom parent full seg rest).1 (full ++ rest) := by
  induction rest generalizing t parent full seg with
  | nil =>
    rw [List.append_nil]
    exact enter_planted linked marked entry
  | cons c rest ih =>
    simp only [getFrom]
    split
    · rename_i dot
      subst dot
      have here := enter_spec linked marked entry
      have longer := ih here.linked here.marked (.below here.live)
      rw [List.append_assoc, List.singleton_append] at longer
      exact (enter_planted linked marked entry).trans linked longer (.inr ⟨rest, by simp⟩)
    · rename_i other
      have longer := ih linked marked (entry.longer other)
      rwa [List.append_assoc, List.singleton_append] at longer

theorem get_planted (s : Str) (linked : Linked t) (marked : Marked t) : Planted t (t.get s).1 s := by
  unfold get
  split
  · rename_i n found
    exact .refl found
  · exact getFrom_planted s linked marked ⟨List.not_mem_nil, .inl ⟨rfl, rfl⟩⟩

/-- What `observe` writes and flags. -/
structure Observed (t t' : Tree R) (s : Str) (own : Nat × R) : Prop where
  live : ∃ r, t'.Live s r
  old {p : Str} {r : Ref} : t.Live p r → t'.Live p r
  own {p : Str} {r : Ref} : t'.Live p r → (p = s ∧ (t'.heap r).own = own) ∨
    p ≠ s ∧ (t.Live p r ∧ (t'.heap r).own = (t.heap r).own ∨ t.Absent p ∧ (t'.heap r).own = (0, 0))
  absent {p : Str} {r : Ref} : t'.Live p r → t.Absent p → Under p s
  flag {p : Str} {r : Ref} : t'.Live p r → ((t'.heap r).dirty = true ↔ (t.Live p r ∧ (t.heap r).dirty = true) ∨ Under p s)

theorem observe_observed (s : Str) (count : Nat) (rate : R) (last : Option Record) (linked : Linked t) (marked : Marked t) :
    Observed t (t.observe s count rate last) s (count, rate) := by
  have got := get_spec s linked marked
  have planted := get_planted s linked marked
  obtain ⟨linked₂, marked₂, other⟩ := modify_spec got.linked got.marked got.live
    (fun node => { node with count := count, rate := rate, last := last })
    (fun _ => ⟨rfl, rfl, rfl, rfl, rfl⟩)
  have marks := marked₂.weaken (some (t.get s).2)
  have liveN := got.live
  obtain ⟨flagged, -, -⟩ := markDirty_spec linked₂ got.live marks
  have flags {p r} := markDirty_flags (p := p) (r := r) linked₂ got.live marks
  have written : ((t.get s).1.modify (t.get s).2 fun node => { node with count := count, rate := rate, last := last }).heap (t.get s).2 =
      { (t.get s).1.heap (t.get s).2 with count := count, rate := rate, last := last } := Function.update_self ..
  have result : t.observe s count rate last =
    ((t.get s).1.modify (t.get s).2 fun node => { node with count := count, rate := rate, last := last }).markDirty (t.get s).2 := rfl
  rw [← result] at flagged flags
  have same_flag (r : Ref) : (((t.get s).1.modify (t.get s).2 fun node =>
      { node with count := count, rate := rate, last := last }).heap r).dirty = ((t.get s).1.heap r).dirty := by
    by_cases same : r = (t.get s).2
    · rw [same, written]
    · rw [other r same]
  refine ⟨⟨_, flagged.live.mpr got.live⟩, fun there => flagged.live.mpr (planted.old there).1, fun {p r} live => ?_,
    fun live absent => (planted.new (flagged.live.mp live) absent).1, fun {p r} live => ?_⟩
  · have live₁ : (t.get s).1.Live p r := flagged.live.mp live
    rw [flagged.own r]
    by_cases same : p = s
    · subst same
      rw [live₁.unique got.live, written]
      exact .inl ⟨rfl, rfl⟩
    · rw [other r fun here => same (got.linked.inj live₁ (here ▸ got.live))]
      refine .inr ⟨same, ?_⟩
      rcases live_or_absent t p with ⟨r', before⟩ | none
      · obtain ⟨after, own, -⟩ := planted.old before
        cases after.unique live₁
        exact .inl ⟨before, own⟩
      · exact .inr ⟨none, (planted.new live₁ none).2.1⟩
  · have live₁ : (t.get s).1.Live p r := flagged.live.mp live
    rw [flags live₁, same_flag]
    rcases live_or_absent t p with ⟨r', before⟩ | none
    · obtain ⟨after, -, flag⟩ := planted.old before
      cases after.unique live₁
      rw [flag]
      constructor
      · rintro ((old | ⟨under, -⟩) | under)
        · exact .inl ⟨before, old⟩
        · exact .inr under
        · exact .inr under
      · rintro (⟨-, old⟩ | under)
        · exact .inl (.inl old)
        · exact .inr under
    · obtain ⟨under, -, -⟩ := planted.new live₁ none
      exact ⟨fun _ => .inr under, fun _ => .inr under⟩

end Get

section Remove

theorem empty_of_leaf (linked : Linked t) (live : t.Live s n) (leaf : Leaf t s) : ¬ 0 < (t.heap n).children.keys.length := by
  intro some
  obtain ⟨seg, member⟩ := List.exists_mem_of_length_pos some
  obtain ⟨c, found⟩ := Option.isSome_iff_exists.mp (AList.lookup_isSome.mpr member)
  obtain ⟨dotless, there⟩ := (linked.children live).mp found
  exact leaf _ _ (parentSubject_child dotless) there

/-- Empty nodes go from the end of a path, and the first that stays is flagged. -/
structure Trimmed (t t' : Tree R) (s : Str) : Prop where
  old {p : Str} {r : Ref} : t'.Live p r → t.Live p r ∧ (t'.heap r).own = (t.heap r).own ∧
    ((t'.heap r).dirty = true ↔ (t.heap r).dirty = true ∨ Under p s)
  gone {p : Str} {r : Ref} : t.Live p r → t'.Absent p → Under p s ∧ (t.heap r).count = 0
  leaf {p : Str} {r : Ref} : t'.Live p r → Leaf t' p → Leaf t p ∧ p ≠ s ∨ 0 < (t'.heap r).count

theorem unlink_leaf (linked : Linked t) (live : t.Live s n) (leaf : Leaf (t.unlink n) p) (other : parentSubject s ≠ some p) :
    Leaf t p := by
  intro q r above there
  refine leaf q r above ((unlink_live linked live).mpr ⟨?_, there⟩)
  rintro rfl
  exact other above

theorem removeUp_trimmed (fuel : Nat) (linked : Linked t) (marked : Marked t) (live : t.Live s n)
    (enough : (t.heap n).depth < fuel) : Trimmed t (removeUp fuel (some n) t) s := by
  induction fuel generalizing t s n with
  | zero => exact absurd enough (Nat.not_lt_zero _)
  | succ fuel ih =>
    simp only [removeUp]
    split
    · rename_i busy
      have marks := marked.weaken (some n)
      obtain ⟨flagged, -, -⟩ := markDirty_spec linked live marks
      refine ⟨fun {p r} there => ?_, fun {p r} there none => ?_, fun {p r} there leaf => ?_⟩
      · have there := flagged.live.mp there
        exact ⟨there, flagged.own r, markDirty_flags linked live marks there⟩
      · exact absurd (flagged.live.mpr there) (none r)
      · have there := flagged.live.mp there
        have leaf : Leaf t p := fun q r above => mt flagged.live.mpr (leaf q r above)
        by_cases same : p = s
        · subst same
          cases there.unique live
          rw [flagged.heap n]
          exact .inr (busy.resolve_left (empty_of_leaf linked live leaf))
        · exact .inl ⟨leaf, same⟩
    · rename_i idle
      rw [not_or] at idle
      have count : (t.heap n).count = 0 := Nat.eq_zero_of_not_pos idle.2
      have leaf := leaf_of_empty linked live idle.1
      have linked₁ := unlink_linked linked live leaf
      have marked₁ := unlink_marked linked marked live
      have lives {p : Str} {r : Ref} := unlink_live (p := p) (r := r) linked live
      have same (r : Ref) : ((t.unlink n).heap r).own = (t.heap r).own ∧ ((t.unlink n).heap r).dirty = (t.heap r).dirty ∧
          ((t.unlink n).heap r).depth = (t.heap r).depth := by
        obtain ⟨children, heap⟩ := unlink_heap linked live r
        rw [heap]
        exact ⟨rfl, rfl, rfl⟩
      have parent := linked.parent live
      cases above : parentSubject s with
      | none =>
        rw [above, Option.bind_none] at parent
        rw [parent, show removeUp fuel none (t.unlink n) = t.unlink n by cases fuel <;> rfl]
        refine ⟨fun {p r} there => ?_, fun {p r} there none => ?_, fun {p r} there leaf => ?_⟩
        · obtain ⟨other, there⟩ := lives.mp there
          refine ⟨there, (same r).1, (Bool.eq_iff_iff.mp (same r).2.1).trans ?_⟩
          exact (or_iff_left fun under => other (Under.root under above).symm).symm
        · by_cases here : p = s
          · subst here
            cases there.unique live
            exact ⟨.refl p, count⟩
          · exact absurd (lives.mpr ⟨here, there⟩) (none r)
        · exact .inl ⟨unlink_leaf linked live leaf (by rw [above]; exact (Option.some_ne_none p).symm), (lives.mp there).1⟩
      | some p₁ =>
        obtain ⟨q, liveQ⟩ := linked.closed live above
        rw [above, Option.bind_some, show t.nodes.lookup p₁ = some q from liveQ] at parent
        rw [parent]
        have shorter := parentSubject_length above
        have live₁ : (t.unlink n).Live p₁ q := lives.mpr ⟨by rintro rfl; omega, liveQ⟩
        have depth := linked.depthChild live above liveQ
        have trimmed := ih linked₁ marked₁ live₁ (by rw [(same q).2.2]; omega)
        refine ⟨fun {p r} there => ?_, fun {p r} there none => ?_, fun {p r} there leaf => ?_⟩
        · obtain ⟨there, own, flag⟩ := trimmed.old there
          obtain ⟨other, there⟩ := lives.mp there
          refine ⟨there, own.trans (same r).1, flag.trans (or_congr (Bool.eq_iff_iff.mp (same r).2.1) ?_)⟩
          constructor
          · exact fun under => under.trans (under_parent above)
          · exact fun under => (under.parent above).resolve_left (Ne.symm other)
        · by_cases here : p = s
          · subst here
            cases there.unique live
            exact ⟨.refl p, count⟩
          · obtain ⟨under, zero⟩ := trimmed.gone (lives.mpr ⟨here, there⟩) none
            have own := congrArg Prod.fst (same r).1
            exact ⟨under.trans (under_parent above), own.symm.trans zero⟩
        · obtain ⟨leaf, other⟩ | some := trimmed.leaf there leaf
          · refine .inl ⟨unlink_leaf linked live leaf ?_, (lives.mp (trimmed.old there).1).1⟩
            rw [above]
            exact fun same => other (Option.some.inj same).symm
          · exact .inr some

/-- What `remove` takes, clears and flags. -/
structure Removed (t t' : Tree R) (s : Str) [Zero R] : Prop where
  old {p : Str} {r : Ref} : t'.Live p r → t.Live p r
  own {p : Str} {r : Ref} : t'.Live p r → (t'.heap r).own = if p = s then (0, 0) else (t.heap r).own
  gone {p : Str} {r : Ref} : t.Live p r → t'.Absent p → Under p s ∧ (p = s ∨ (t.heap r).count = 0)
  flag {p : Str} {r : Ref} : t'.Live p r → ((t'.heap r).dirty = true ↔ (t.heap r).dirty = true ∨ Under p s ∧ ¬ t.Absent s)
  leaf {p : Str} {r : Ref} : t'.Live p r → Leaf t' p → p ≠ s ∧ (Leaf t p ∨ 0 < (t'.heap r).count)

theorem remove_removed [Zero R] (s : Str) (linked : Linked t) (marked : Marked t) : Removed t (t.remove s) s := by
  unfold remove
  split
  · rename_i found
    have none := absent_of_lookup found
    refine ⟨id, fun {p r} there => ?_, fun there gone => absurd there (gone _), fun there => ?_, fun {p r} there leaf => ?_⟩
    · rw [if_neg]
      rintro rfl
      exact none r there
    · exact (or_iff_left fun both => both.2 none).symm
    · refine ⟨?_, .inl leaf⟩
      rintro rfl
      exact none r there
  · rename_i n found
    have live : t.Live s n := found
    obtain ⟨linked₁, marked₁, other⟩ := modify_spec linked marked live
      (fun node => { node with count := 0, rate := 0, last := none })
      (fun _ => ⟨rfl, rfl, rfl, rfl, rfl⟩)
    have cleared : (t.modify n fun node => { node with count := 0, rate := 0, last := none }).heap n =
      { t.heap n with count := 0, rate := 0, last := none } := Function.update_self ..
    have trimmed := removeUp_trimmed ((t.heap n).depth + 1) linked₁ marked₁ live (by rw [cleared]; exact Nat.lt_succ_self _)
    generalize removeUp ((t.heap n).depth + 1) (some n) (t.modify n fun node => { node with count := 0, rate := 0, last := none }) = t'
      at trimmed ⊢
    have apart {p : Str} {r : Ref} (there : t.Live p r) (other : p ≠ s) : r ≠ n := fun same => other (linked.inj there (same ▸ live))
    have own {p : Str} {r : Ref} (there : t'.Live p r) : (t'.heap r).own = if p = s then (0, 0) else (t.heap r).own := by
      obtain ⟨there, own, -⟩ := trimmed.old there
      rw [own]
      by_cases same : p = s
      · subst same
        rw [if_pos rfl, there.unique live, cleared]
        rfl
      · rw [if_neg same, other r (apart there same)]
    refine ⟨fun there => (trimmed.old there).1, own, fun {p r} there gone => ?_, fun {p r} there => ?_, fun {p r} there leaf => ?_⟩
    · obtain ⟨under, zero⟩ := trimmed.gone there gone
      refine ⟨under, ?_⟩
      by_cases same : p = s
      · exact .inl same
      · rw [other r (apart there same)] at zero
        exact .inr zero
    · obtain ⟨there, -, flag⟩ := trimmed.old there
      have same : ((t.modify n fun node => { node with count := 0, rate := 0, last := none }).heap r).dirty = (t.heap r).dirty := by
        by_cases here : r = n
        · rw [here, cleared]
        · rw [other r here]
      rw [flag, same]
      exact or_congr_right (and_iff_left fun none => none n live).symm
    · obtain ⟨leaf, other⟩ | some := trimmed.leaf there leaf
      · exact ⟨other, .inl leaf⟩
      · refine ⟨?_, .inr some⟩
        rintro rfl
        have zero := own there
        rw [if_pos rfl] at zero
        exact absurd (congrArg Prod.fst zero) (Nat.pos_iff_ne_zero.mp some)

end Remove
end Tree
end NatsExplorer.Subscription
