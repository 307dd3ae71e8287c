import NatsExplorer.Subscription.Tree

/-! What every tree operation keeps: the links agree with the subjects
(`Linked`), and whatever an operation changes is on the dirty list together
with its ancestors (`Marked`, `Grew`, `Shrunk`). The tick relies on the second
part alone to know what it has to send. -/
namespace NatsExplorer.Subscription
open Go
namespace Tree
variable {R : Type}

/-- The node object that stands for `s` in the tree. -/
def Live (t : Tree R) (s : Str) (r : Ref) : Prop := t.nodes.lookup s = some r

structure Linked (t : Tree R) : Prop where
  alloc {s r} : t.Live s r → r < t.next
  subject {s r} : t.Live s r → (t.heap r).subject = s
  parent {s r} : t.Live s r → (t.heap r).parent = (parentSubject s).bind t.nodes.lookup
  closed {s r p} : t.Live s r → parentSubject s = some p → ∃ q, t.Live p q
  depthRoot {s r} : t.Live s r → parentSubject s = none → (t.heap r).depth = 0
  depthChild {s r p q} : t.Live s r → parentSubject s = some p → t.Live p q →
    (t.heap r).depth = (t.heap q).depth + 1
  children {s r seg c} : t.Live s r → ((t.heap r).children.lookup seg = some c ↔
    '.' ∉ seg ∧ t.Live (child s seg) c)
  roots {seg c} : t.roots.lookup seg = some c ↔ '.' ∉ seg ∧ t.Live seg c

/-- Flags are set upwards and listed; a listed object that was removed only
coexists with a flagged replacement. The cursor is exempt: a loop is about to
mark it. -/
structure MarkedBut (cursor : Option Ref) (t : Tree R) : Prop where
  fresh {r} : r ∈ t.dirty → r < t.next
  cover {r q} : r ∈ t.dirty → t.Live (t.heap r).subject q →
    (t.heap q).dirty = true ∨ cursor = some q
  listed {s r} : t.Live s r → (t.heap r).dirty = true → r ∈ t.dirty
  up {s r p q} : t.Live s r → parentSubject s = some p → t.Live p q →
    (t.heap r).dirty = true → (t.heap q).dirty = true ∨ cursor = some q

/-- Only flags differ. -/
structure Flagged (t t' : Tree R) : Prop where
  nodes : t'.nodes = t.nodes
  roots : t'.roots = t.roots
  next : t'.next = t.next
  heap (r) : t'.heap r = { t.heap r with dirty := (t'.heap r).dirty }
  mono {r} : (t.heap r).dirty = true → (t'.heap r).dirty = true
  listedFrom {r} : r ∈ t'.dirty → r ∈ t.dirty ∨ ∃ s, t.Live s r

variable {t t' : Tree R} {s p : Str} {r q n : Ref}

theorem Live.unique (first : t.Live s r) (second : t.Live s q) : r = q :=
  Option.some.inj (first.symm.trans second)

abbrev Marked (t : Tree R) : Prop := MarkedBut none t

theorem Marked.flagged (marked : Marked t) (listed : r ∈ t.dirty)
    (live : t.Live (t.heap r).subject q) : (t.heap q).dirty = true :=
  (marked.cover listed live).resolve_right (by simp)

theorem Marked.upward (marked : Marked t) (live : t.Live s r) (above : parentSubject s = some p)
    (liveAbove : t.Live p q) (dirty : (t.heap r).dirty = true) : (t.heap q).dirty = true :=
  (marked.up live above liveAbove dirty).resolve_right (by simp)

theorem Linked.inj (linked : Linked t) (first : t.Live s r) (second : t.Live p r) : s = p :=
  (linked.subject first).symm.trans (linked.subject second)

theorem Linked.above (linked : Linked t) (live : t.Live s r) (under : Under p s) :
    ∃ q, t.Live p q := by
  induction hn : s.length using Nat.strongRecOn generalizing s r with
  | ind n ih =>
    cases above : parentSubject s with
    | none => exact under.root above ▸ ⟨r, live⟩
    | some m =>
      obtain ⟨q, liveAbove⟩ := linked.closed live above
      rcases under.parent above with rfl | under
      · exact ⟨r, live⟩
      · exact ih m.length (hn ▸ parentSubject_length above) liveAbove under rfl

/-- A flag goes all the way up. -/
theorem Marked.above (marked : Marked t) (linked : Linked t) (live : t.Live s r)
    (flag : (t.heap r).dirty = true) (under : Under p s) (liveP : t.Live p q) :
    (t.heap q).dirty = true := by
  induction hn : s.length using Nat.strongRecOn generalizing s r with
  | ind n ih =>
    cases above : parentSubject s with
    | none =>
      cases under.root above
      rwa [liveP.unique live]
    | some m =>
      rcases under.parent above with rfl | under
      · rwa [liveP.unique live]
      · obtain ⟨q', liveM⟩ := linked.closed live above
        exact ih m.length (hn ▸ parentSubject_length above) liveM
          (marked.upward live above liveM flag) under rfl

theorem Flagged.refl (t : Tree R) : Flagged t t where
  nodes := rfl
  roots := rfl
  next := rfl
  heap _ := rfl
  mono h := h
  listedFrom h := Or.inl h

theorem Flagged.live (flagged : Flagged t t') : t'.Live s r ↔ t.Live s r := by
  simp only [Live, flagged.nodes]

theorem Flagged.trans {u : Tree R} (first : Flagged t t') (second : Flagged t' u) :
    Flagged t u where
  nodes := second.nodes.trans first.nodes
  roots := second.roots.trans first.roots
  next := second.next.trans first.next
  heap r := by rw [second.heap, first.heap]
  mono h := second.mono (first.mono h)
  listedFrom h := by
    rcases second.listedFrom h with h | ⟨s, live⟩
    · exact first.listedFrom h
    · exact Or.inr ⟨s, first.live.mp live⟩

/-- Nothing the links speak about changes at the live nodes. -/
theorem Linked.transport (linked : Linked t) (nodes : t'.nodes = t.nodes) (roots : t'.roots = t.roots)
    (next : t.next ≤ t'.next)
    (same : ∀ s r, t.Live s r → (t'.heap r).subject = (t.heap r).subject ∧
      (t'.heap r).parent = (t.heap r).parent ∧ (t'.heap r).depth = (t.heap r).depth ∧
      (t'.heap r).children = (t.heap r).children) : Linked t' := by
  have live : ∀ {s r}, t'.Live s r ↔ t.Live s r := by simp only [Live, nodes, implies_true]
  constructor
  · intro s r h
    exact (linked.alloc (live.mp h)).trans_le next
  · intro s r h
    rw [(same s r (live.mp h)).1, linked.subject (live.mp h)]
  · intro s r h
    rw [(same s r (live.mp h)).2.1, linked.parent (live.mp h), nodes]
  · intro s r p h above
    obtain ⟨q, liveAbove⟩ := linked.closed (live.mp h) above
    exact ⟨q, live.mpr liveAbove⟩
  · intro s r h root
    rw [(same s r (live.mp h)).2.2.1, linked.depthRoot (live.mp h) root]
  · intro s r p q h above h'
    rw [(same s r (live.mp h)).2.2.1, (same p q (live.mp h')).2.2.1,
      linked.depthChild (live.mp h) above (live.mp h')]
  · intro s r seg c h
    rw [(same s r (live.mp h)).2.2.2, linked.children (live.mp h), live]
  · intro seg c
    rw [roots, linked.roots, live]

theorem Flagged.linked (flagged : Flagged t t') (linked : Linked t) : Linked t' := by
  refine linked.transport flagged.nodes flagged.roots flagged.next.ge ?_
  intro s r _
  rw [flagged.heap]
  exact ⟨rfl, rfl, rfl, rfl⟩

theorem markUp_spec (fuel : Nat) (cursor : Option Ref) (linked : Linked t)
    (live : ∀ r, cursor = some r → ∃ s, t.Live s r)
    (enough : ∀ r, cursor = some r → (t.heap r).depth < fuel)
    (marked : MarkedBut cursor t) :
    Flagged t (markUp fuel cursor t) ∧ Marked (markUp fuel cursor t) ∧
      ∀ r, cursor = some r → ((markUp fuel cursor t).heap r).dirty = true := by
  induction fuel generalizing cursor t with
  | zero =>
    cases cursor with
    | none => exact ⟨.refl t, marked, by simp⟩
    | some n => exact absurd (enough n rfl) (by omega)
  | succ fuel ih =>
    cases cursor with
    | none => exact ⟨.refl t, marked, by simp⟩
    | some n =>
      obtain ⟨s, liveN⟩ := live n rfl
      simp only [markUp]
      split
      · rename_i dirty
        refine ⟨.refl t, ⟨marked.fresh, ?_, marked.listed, ?_⟩, ?_⟩
        · intro r q listed liveQ
          refine Or.inl ((marked.cover listed liveQ).elim id ?_)
          rintro ⟨⟩
          exact dirty
        · intro s r p q liveR above liveQ flag
          refine Or.inl ((marked.up liveR above liveQ flag).elim id ?_)
          rintro ⟨⟩
          exact dirty
        · rintro r ⟨⟩
          exact dirty
      · -- `n` becomes the last element of the dirty list, its parent the cursor.
        rename_i clean
        let u : Tree R := { t.modify n fun node => { node with dirty := true } with
          dirty := t.dirty ++ [n] }
        have heapN : u.heap n = { t.heap n with dirty := true } := Function.update_self ..
        have heapOther : ∀ r, r ≠ n → u.heap r = t.heap r := fun r ne =>
          Function.update_of_ne ne ..
        have step : Flagged t u := by
          constructor
          · rfl
          · rfl
          · rfl
          · intro r
            by_cases same : r = n
            · subst same
              rw [heapN]
            · rw [heapOther r same]
          · intro r flag
            by_cases same : r = n
            · subst same
              rw [heapN]
            · rwa [heapOther r same]
          · intro r listed
            rcases List.mem_append.mp listed with listed | listed
            · exact Or.inl listed
            · cases List.mem_singleton.mp listed
              exact Or.inr ⟨s, liveN⟩
        have subjects : ∀ r, (u.heap r).subject = (t.heap r).subject := by
          intro r
          rw [step.heap]
        have flagOf : ∀ r, (t.heap r).dirty = true ∨ some n = some r → (u.heap r).dirty = true := by
          rintro r (flag | same)
          · exact step.mono flag
          · cases same
            rw [heapN]
        have markedU : MarkedBut (t.heap n).parent u := by
          constructor
          · intro r listed
            rcases List.mem_append.mp listed with listed | listed
            · exact marked.fresh listed
            · cases List.mem_singleton.mp listed
              exact linked.alloc liveN
          · intro r q listed liveQ
            rw [subjects, step.live] at liveQ
            rcases List.mem_append.mp listed with listed | listed
            · exact Or.inl (flagOf q (marked.cover listed liveQ))
            · cases List.mem_singleton.mp listed
              rw [linked.subject liveN] at liveQ
              cases liveN.unique liveQ
              exact Or.inl (flagOf n (Or.inr rfl))
          · intro s r liveR flag
            by_cases same : r = n
            · exact List.mem_append_right _ (List.mem_singleton.mpr same)
            · rw [heapOther r same] at flag
              exact List.mem_append_left _ (marked.listed (step.live.mp liveR) flag)
          · intro s' r p q liveR above liveQ flag
            rw [step.live] at liveR liveQ
            by_cases same : r = n
            · subst same
              rw [linked.parent liveR, above]
              exact Or.inr liveQ
            · rw [heapOther r same] at flag
              exact Or.inl (flagOf q (marked.up liveR above liveQ flag))
        have parentLive : ∀ q, (t.heap n).parent = some q → ∃ p, u.Live p q ∧
            parentSubject s = some p := by
          intro q found
          rw [linked.parent liveN] at found
          obtain ⟨p, above, liveQ⟩ := Option.bind_eq_some_iff.mp found
          exact ⟨p, liveQ, above⟩
        obtain ⟨flagged, final, atCursor⟩ := ih (t.heap n).parent (step.linked linked)
          (fun q found => let ⟨p, liveQ, _⟩ := parentLive q found; ⟨p, liveQ⟩)
          (by
            intro q found
            obtain ⟨p, liveQ, above⟩ := parentLive q found
            have depth := linked.depthChild liveN above (step.live.mp liveQ)
            have same : (u.heap q).depth = (t.heap q).depth := by rw [step.heap]
            have := enough n rfl
            omega)
          markedU
        refine ⟨step.trans flagged, final, ?_⟩
        rintro r ⟨⟩
        exact flagged.mono (by rw [heapN])

theorem markDirty_spec (linked : Linked t) (live : t.Live s n) (marked : MarkedBut (some n) t) :
    Flagged t (t.markDirty n) ∧ Marked (t.markDirty n) ∧ ((t.markDirty n).heap n).dirty = true := by
  obtain ⟨flagged, final, atCursor⟩ := markUp_spec ((t.heap n).depth + 1) (some n) linked
    (by rintro r ⟨⟩; exact ⟨s, live⟩) (by rintro r ⟨⟩; omega) marked
  exact ⟨flagged, final, atCursor n rfl⟩

theorem MarkedBut.weaken (marked : Marked t) (cursor : Option Ref) : MarkedBut cursor t where
  fresh := marked.fresh
  cover listed live := Or.inl (Marked.flagged marked listed live)
  listed := marked.listed
  up live above liveAbove dirty := Or.inl (Marked.upward marked live above liveAbove dirty)

end Tree
end NatsExplorer.Subscription
