import NatsExplorer.Subscription.TreeTick
import NatsExplorer.Subscription.Manager

/-! The count and the last message a subject shows in the tree. `observe` changes
those of one subject, `remove` takes one away, and nodes that are left without
messages of their own go with it; everything else shows what it showed. -/
namespace NatsExplorer.Subscription
open Go
namespace Tree
variable {R : Type} {t t' u : Tree R} {s p full seg : Str} {r n : Ref}

def Shows (t : Tree R) (s : Str) (count : Nat) (last : Option Record) : Prop :=
  ∃ r, t.Live s r ∧ (t.heap r).count = count ∧ (t.heap r).last = last

/-- Nodes stay with their own messages. -/
def Kept (t t' : Tree R) : Prop :=
  ∀ s r, t.Live s r → t'.Live s r ∧ (t'.heap r).count = (t.heap r).count ∧
    (t'.heap r).last = (t.heap r).last

namespace Kept

theorem refl (t : Tree R) : Kept t t := fun _ _ live => ⟨live, rfl, rfl⟩

theorem trans (first : Kept t t') (second : Kept t' u) : Kept t u := by
  intro s r live
  obtain ⟨live, count, last⟩ := first s r live
  obtain ⟨live', count', last'⟩ := second s r live
  exact ⟨live', count'.trans count, last'.trans last⟩

theorem shows (kept : Kept t t') {count : Nat} {last : Option Record} (shown : t.Shows s count last) :
    t'.Shows s count last := by
  obtain ⟨r, live, rfl, rfl⟩ := shown
  obtain ⟨live', count, last⟩ := kept s r live
  exact ⟨r, live', count, last⟩

end Kept

theorem Flagged.kept (flagged : Flagged t t') : Kept t t' := by
  intro s r live
  refine ⟨flagged.live.mpr live, ?_, ?_⟩ <;> rw [flagged.heap r]

theorem Refreshed.kept (refreshed : Refreshed t t') : Kept t t' := by
  intro s r live
  obtain ⟨_, _, _, heap⟩ := refreshed.heap r
  refine ⟨refreshed.live.mpr live, ?_, ?_⟩ <;> rw [heap]

theorem Cleared.kept (cleared : Cleared t t') : Kept t t' := by
  intro s r live
  refine ⟨cleared.live.mpr live, ?_, ?_⟩ <;> rw [cleared.heap r]

section Observe
variable [Zero R] {parent : Option Ref}

theorem enter_kept (linked : Linked t) (marked : Marked t) (entry : Entry t parent full seg) :
    Kept t (t.enter parent full seg).1 := by
  cases found : t.nodes.lookup full with
  | some n =>
    simp only [enter, found]
    exact .refl t
  | none =>
    rw [enter_new found]
    have linkedU := link_linked linked entry found
    have liveN : (t.link parent full seg).Live full t.next := link_live.mpr (Or.inl ⟨rfl, rfl⟩)
    obtain ⟨flagged, _, _⟩ := markDirty_spec linkedU liveN (link_marked linked marked entry)
    refine Kept.trans (fun s r live => ?_) flagged.kept
    obtain ⟨children, heap⟩ := link_heap_old linked entry (linked.alloc live)
    refine ⟨link_live.mpr (Or.inr ⟨?_, live⟩), ?_, ?_⟩
    · rintro rfl
      rw [Live, found] at live
      cases live
    · rw [heap]
    · rw [heap]

theorem getFrom_kept (rest : Str) (linked : Linked t) (marked : Marked t)
    (entry : Entry t parent full seg) : Kept t (t.getFrom parent full seg rest).1 := by
  induction rest generalizing t parent full seg with
  | nil => exact enter_kept linked marked entry
  | cons c rest ih =>
    simp only [getFrom]
    split
    · rename_i dot
      have here := enter_spec linked marked entry
      exact (enter_kept linked marked entry).trans (ih here.linked here.marked (.below here.live))
    · rename_i other
      exact ih linked marked (entry.longer other)

theorem get_kept (s : Str) (linked : Linked t) (marked : Marked t) : Kept t (t.get s).1 := by
  unfold get
  split
  · exact .refl t
  · exact getFrom_kept s linked marked ⟨List.not_mem_nil, Or.inl ⟨rfl, rfl⟩⟩

/-- `observe` writes the numbers of one subject. -/
theorem observe_values (s : Str) (count : Nat) (rate : R) (last : Option Record) (linked : Linked t)
    (marked : Marked t) :
    (t.observe s count rate last).Shows s count last ∧
      ∀ p c l, p ≠ s → t.Shows p c l → (t.observe s count rate last).Shows p c l := by
  have got := get_spec s linked marked
  obtain ⟨linked₂, marked₂, other⟩ := modify_spec got.linked got.marked got.live
    (fun node => { node with count := count, rate := rate, last := last })
    (fun _ => ⟨rfl, rfl, rfl, rfl, rfl⟩)
  obtain ⟨flagged, _, _⟩ := markDirty_spec linked₂ got.live (marked₂.weaken _)
  constructor
  · refine flagged.kept.shows ⟨_, got.live, ?_⟩
    rw [show (modify _ _ _).heap _ = _ from Function.update_self ..]
    exact ⟨rfl, rfl⟩
  · intro p c l ne shown
    obtain ⟨r, live, count', last'⟩ := (get_kept s linked marked).shows shown
    refine flagged.kept.shows ⟨r, live, ?_⟩
    rw [other r fun same => ne (got.linked.inj live (same ▸ got.live))]
    exact ⟨count', last'⟩

end Observe

section Remove

/-- The way up takes nodes without messages of their own. -/
theorem removeUp_shows (fuel : Nat) (cursor : Option Ref) (linked : Linked t) (marked : Marked t)
    (live : ∀ r, cursor = some r → ∃ s, t.Live s r) {count : Nat} {last : Option Record}
    (some : 0 < count) (shown : t.Shows p count last) : (removeUp fuel cursor t).Shows p count last := by
  induction fuel generalizing cursor t with
  | zero => cases cursor <;> exact shown
  | succ fuel ih =>
    cases cursor with
    | none => exact shown
    | some cur =>
      obtain ⟨s, liveCur⟩ := live cur rfl
      simp only [removeUp]
      split
      · exact (markDirty_spec linked liveCur (marked.weaken _)).1.kept.shows shown
      · rename_i empty
        rw [not_or] at empty
        have leaf := leaf_of_empty linked liveCur empty.1
        refine ih (t.heap cur).parent (unlink_linked linked liveCur leaf)
          (unlink_marked linked marked liveCur) (fun q found => ?_) ?_
        · rw [linked.parent liveCur] at found
          obtain ⟨above, parent, liveQ⟩ := Option.bind_eq_some_iff.mp found
          refine ⟨above, (unlink_live linked liveCur).mpr ⟨?_, liveQ⟩⟩
          rintro rfl
          have := parentSubject_length parent
          omega
        · obtain ⟨r, liveR, counted, kept⟩ := shown
          obtain ⟨children, heap⟩ := unlink_heap linked liveCur r
          refine ⟨r, (unlink_live linked liveCur).mpr ⟨?_, liveR⟩, ?_, ?_⟩
          · rintro rfl
            rw [liveR.unique liveCur] at counted
            omega
          · rw [heap]
            exact counted
          · rw [heap]
            exact kept

variable [Zero R]

theorem remove_shows (s : Str) (linked : Linked t) (marked : Marked t) (other : p ≠ s) {count : Nat}
    {last : Option Record} (some : 0 < count) (shown : t.Shows p count last) :
    (t.remove s).Shows p count last := by
  unfold remove
  split
  · exact shown
  · rename_i n found
    obtain ⟨linked₂, marked₂, same⟩ := modify_spec linked marked found
      (fun node => { node with count := 0, rate := 0, last := none })
      (fun _ => ⟨rfl, rfl, rfl, rfl, rfl⟩)
    refine removeUp_shows _ _ linked₂ marked₂ ?_ some ?_
    · rintro r ⟨⟩
      exact ⟨s, found⟩
    · obtain ⟨r, live, counted, kept⟩ := shown
      refine ⟨r, live, ?_⟩
      rw [same r fun here => other (linked.inj live (here ▸ found))]
      exact ⟨counted, kept⟩

theorem remove_all_shows (gone : List Str) (linked : Linked t) (marked : Marked t) (other : p ∉ gone)
    {count : Nat} {last : Option Record} (some : 0 < count) (shown : t.Shows p count last) :
    (gone.foldl remove t).Shows p count last := by
  induction gone generalizing t with
  | nil => exact shown
  | cons s rest ih =>
    rw [List.mem_cons, not_or] at other
    obtain ⟨linked₁, marked₁, _⟩ := remove_spec s linked marked
    exact ih linked₁ marked₁ other.2 (remove_shows s linked marked other.1 some shown)

end Remove
end Tree
end NatsExplorer.Subscription

/-! What a tick carries from a shard into the tree: the touched subjects show their
numbers afterwards, the other subjects of the shard if they did before, and the
subjects of other shards show what they showed. -/
namespace NatsExplorer.Subscription
open Go

/-- The tree shows a subject as the shard has it. -/
def Carried {R : Type} (t : Tree R) (s : Str) (st : SubjectStats) : Prop :=
  t.Shows s st.count.toNat st.last

/-- What writing subjects of one shard into the tree does. -/
structure Synced {R : Type} (subjects : Map Str SubjectStats) (t t' : Tree R) : Prop where
  linked : t'.Linked
  marked : t'.Marked
  others : ∀ s c l, subjects.lookup s = none → t.Shows s c l → t'.Shows s c l
  carried : ∀ s st, subjects.lookup s = some st → Carried t s st → Carried t' s st

namespace Synced
variable {R : Type} {subjects : Map Str SubjectStats} {t t' u : Tree R}

theorem refl (linked : t.Linked) (marked : t.Marked) : Synced subjects t t :=
  ⟨linked, marked, fun _ _ _ _ => id, fun _ _ _ => id⟩

theorem trans (first : Synced subjects t t') (second : Synced subjects t' u) : Synced subjects t u where
  linked := second.linked
  marked := second.marked
  others s c l absent shown := second.others s c l absent (first.others s c l absent shown)
  carried s st found shown := second.carried s st found (first.carried s st found shown)

variable [Zero R]

theorem observe (linked : t.Linked) (marked : t.Marked) {s : Str} {st : SubjectStats}
    (found : subjects.lookup s = some st) (rate : R) :
    Synced subjects t (t.observe s st.count.toNat rate st.last) ∧
      Carried (t.observe s st.count.toNat rate st.last) s st := by
  obtain ⟨linked', marked', _⟩ := Tree.observe_spec s st.count.toNat rate st.last linked marked
  obtain ⟨shown, others⟩ := Tree.observe_values s st.count.toNat rate st.last linked marked
  refine ⟨⟨linked', marked', fun p c l absent => others p c l ?_, fun p st' found' carried => ?_⟩, shown⟩
  · rintro rfl
    rw [found] at absent
    cases absent
  · by_cases same : p = s
    · subst same
      rw [found, Option.some.injEq] at found'
      exact found' ▸ shown
    · exact others p _ _ same carried

end Synced

namespace Shard
variable {R : Type} [Zero R] [DecidableEq R] (rates : Str → R) (subjects : Map Str SubjectStats)

omit [DecidableEq R] in
theorem syncTouched_spec (touched seen : List Str) {t : Tree R} (linked : t.Linked) (marked : t.Marked)
    (done : ∀ s ∈ seen, ∀ st, subjects.lookup s = some st → Carried t s st) :
    Synced subjects t (syncTouched rates subjects touched seen t).1 ∧
      ∀ s ∈ touched, ∀ st, subjects.lookup s = some st →
        Carried (syncTouched rates subjects touched seen t).1 s st := by
  induction touched generalizing seen t with
  | nil => exact ⟨.refl linked marked, fun s none => absurd none List.not_mem_nil⟩
  | cons first touched ih =>
    simp only [syncTouched]
    split
    · rename_i skipped
      obtain ⟨synced, rest⟩ := ih seen linked marked done
      refine ⟨synced, fun s member st found => ?_⟩
      rcases List.mem_cons.mp member with rfl | member
      · exact synced.carried s st found (done s skipped st found)
      · exact rest s member st found
    · have turn {t'} (here : Synced subjects t t')
          (shown : ∀ st, subjects.lookup first = some st → Carried t' first st) :
          Synced subjects t (syncTouched rates subjects touched (seen ++ [first]) t').1 ∧
            ∀ s ∈ first :: touched, ∀ st, subjects.lookup s = some st →
              Carried (syncTouched rates subjects touched (seen ++ [first]) t').1 s st := by
        obtain ⟨synced, rest⟩ := ih (seen ++ [first]) here.linked here.marked fun s member st found => by
          rcases List.mem_append.mp member with old | new
          · exact here.carried s st found (done s old st found)
          · rw [List.mem_singleton] at new
            subst new
            exact shown st found
        refine ⟨here.trans synced, fun s member st found => ?_⟩
        rcases List.mem_cons.mp member with rfl | member
        · exact synced.carried s st found (shown st found)
        · exact rest s member st found
      cases found : subjects.lookup first with
      | none => exact turn (.refl linked marked) fun st absent => by rw [found] at absent; cases absent
      | some st =>
        obtain ⟨synced, shown⟩ := Synced.observe linked marked found (rates first)
        refine turn synced fun st' same => ?_
        rw [found] at same
        cases same
        exact shown

theorem syncActive_spec (seen rest : List Str) (active : KeySet Str) {t : Tree R} (linked : t.Linked)
    (marked : t.Marked) : Synced subjects t (syncActive rates subjects seen rest active t).1 := by
  induction rest generalizing active t with
  | nil => exact .refl linked marked
  | cons first rest ih =>
    simp only [syncActive]
    split
    · exact ih active linked marked
    · cases found : subjects.lookup first with
      | none => exact ih _ linked marked
      | some st =>
        simp only
        cases node : t.nodes.lookup first with
        | none => exact ih _ linked marked
        | some n =>
          by_cases decayed : (t.heap n).rate ≠ rates first
          · obtain ⟨synced, _⟩ := Synced.observe linked marked found (rates first)
            simp only [if_pos decayed]
            exact synced.trans (ih _ synced.linked synced.marked)
          · simp only [if_neg decayed]
            exact ih _ linked marked

/-- A shard's turn of the tick. -/
theorem sync_spec (rt : Runtime) (sh : Shard) {t : Tree R} (linked : t.Linked) (marked : t.Marked) :
    Synced sh.subjects t (sh.sync rates rt t).2 ∧ (sh.sync rates rt t).1.subjects = sh.subjects ∧
      ∀ s ∈ sh.dirty, ∀ st, sh.subjects.lookup s = some st → Carried (sh.sync rates rt t).2 s st := by
  obtain ⟨touched, shown⟩ := syncTouched_spec rates sh.subjects sh.dirty [] linked marked
    fun s none => absurd none List.not_mem_nil
  have active := syncActive_spec rates sh.subjects (syncTouched rates sh.subjects sh.dirty [] t).2
    (rt.range sh.active.keys) sh.active touched.linked touched.marked
  exact ⟨touched.trans active, rfl, fun s member st found =>
    active.carried s st found (shown s member st found)⟩

end Shard
end NatsExplorer.Subscription
