import NatsExplorer.Subscription.TreeInvariant

/-! `get`, `observe` and `remove` keep the links and the marks. Growing leaves
every unflagged node as it was and removes none; shrinking leaves every
unflagged node that is still in the tree as it was. -/
namespace NatsExplorer.Subscription
open Go
namespace Tree
variable {R : Type}

structure Grew (t t' : Tree R) : Prop where
  keep {s r} : t.Live s r → t'.Live s r
  clean {s r} : t'.Live s r → (t'.heap r).dirty = false → t.Live s r ∧ t'.heap r = t.heap r
  listedFrom {r} : r ∈ t'.dirty → r ∈ t.dirty ∨ ∃ s, t'.Live s r

/-- `clean` alone: what an operation that also removes nodes leaves. -/
structure Shrunk (t t' : Tree R) : Prop where
  clean {s r} : t'.Live s r → (t'.heap r).dirty = false → t.Live s r ∧ t'.heap r = t.heap r

variable {t t' u : Tree R} {s p full seg : Str} {r q n cur : Ref}

theorem Grew.shrunk (grew : Grew t t') : Shrunk t t' := ⟨grew.clean⟩

theorem Grew.refl (t : Tree R) : Grew t t := ⟨id, fun live _ => ⟨live, rfl⟩, Or.inl⟩

theorem Shrunk.refl (t : Tree R) : Shrunk t t := (Grew.refl t).shrunk

theorem Shrunk.trans (first : Shrunk t t') (second : Shrunk t' u) : Shrunk t u where
  clean live dirty := by
    obtain ⟨live', same⟩ := second.clean live dirty
    obtain ⟨live'', same'⟩ := first.clean live' (same ▸ dirty)
    exact ⟨live'', same.trans same'⟩

theorem Grew.trans (first : Grew t t') (second : Grew t' u) : Grew t u where
  keep live := second.keep (first.keep live)
  clean := (first.shrunk.trans second.shrunk).clean
  listedFrom listed := by
    rcases second.listedFrom listed with listed | live
    · rcases first.listedFrom listed with listed | ⟨s, live⟩
      · exact Or.inl listed
      · exact Or.inr ⟨s, second.keep live⟩
    · exact Or.inr live

theorem Flagged.same_of_clean (flagged : Flagged t t') (dirty : (t'.heap r).dirty = false) :
    t'.heap r = t.heap r := by
  have before : (t.heap r).dirty = false := by
    cases flag : (t.heap r).dirty with
    | false => rfl
    | true => rw [flagged.mono flag] at dirty; contradiction
  rw [flagged.heap r, dirty, ← before]

theorem MarkedBut.transport {cursor : Option Ref} (marked : MarkedBut cursor t)
    (live : ∀ {s r}, t'.Live s r → t.Live s r) (next : t'.next = t.next)
    (dirty : ∀ r, r ∈ t'.dirty ↔ r ∈ t.dirty)
    (same : ∀ r, (t'.heap r).subject = (t.heap r).subject ∧ (t'.heap r).dirty = (t.heap r).dirty) :
    MarkedBut cursor t' where
  fresh {r} listed := next ▸ marked.fresh ((dirty r).mp listed)
  cover {r q} listed liveQ := by
    rw [(same q).2]
    rw [(same r).1] at liveQ
    exact marked.cover ((dirty r).mp listed) (live liveQ)
  listed {s r} liveR flag := by
    rw [(same r).2] at flag
    exact (dirty r).mpr (marked.listed (live liveR) flag)
  up {s r p q} liveR above liveQ flag := by
    rw [(same r).2] at flag
    rw [(same q).2]
    exact marked.up (live liveR) above (live liveQ) flag

/-- Own numbers of one live node, which is then marked. -/
theorem modify_spec (linked : Linked t) (marked : Marked t) (live : t.Live s n)
    (f : Node R → Node R) (keeps : ∀ node, (f node).subject = node.subject ∧
      (f node).parent = node.parent ∧ (f node).depth = node.depth ∧
      (f node).children = node.children ∧ (f node).dirty = node.dirty) :
    Linked (t.modify n f) ∧ Marked (t.modify n f) ∧
      ∀ r, r ≠ n → (t.modify n f).heap r = t.heap r := by
  have other : ∀ r, r ≠ n → (t.modify n f).heap r = t.heap r := fun r ne =>
    Function.update_of_ne ne ..
  have self : (t.modify n f).heap n = f (t.heap n) := Function.update_self ..
  refine ⟨linked.transport rfl rfl le_rfl ?_, marked.transport id rfl (fun _ => Iff.rfl) ?_, other⟩
  · intro s r _
    by_cases same : r = n
    · subst same
      rw [self]
      exact ⟨(keeps _).1, (keeps _).2.1, (keeps _).2.2.1, (keeps _).2.2.2.1⟩
    · rw [other r same]
      exact ⟨rfl, rfl, rfl, rfl⟩
  · intro r
    by_cases same : r = n
    · subst same
      rw [self]
      exact ⟨(keeps _).1, (keeps _).2.2.2.2⟩
    · rw [other r same]
      exact ⟨rfl, rfl⟩

/-- Where `get` stands: `parent` is the node above the level of `full`. -/
structure Entry (t : Tree R) (parent : Option Ref) (full seg : Str) : Prop where
  dotless : '.' ∉ seg
  level : (parent = none ∧ full = seg) ∨
    ∃ p q, parent = some q ∧ t.Live p q ∧ full = child p seg

theorem Entry.longer {c : Char} (entry : Entry t parent full seg) (other : c ≠ '.') : Entry t parent (full ++ [c]) (seg ++ [c]) := by
  refine ⟨?_, ?_⟩
  · simp only [List.mem_append, List.mem_singleton, not_or]
    exact ⟨entry.dotless, other.symm⟩
  · rcases entry.level with ⟨rfl, rfl⟩ | ⟨p, q, rfl, live, rfl⟩
    · exact Or.inl ⟨rfl, rfl⟩
    · exact Or.inr ⟨p, q, rfl, live, by simp [child]⟩

theorem Entry.below {n : Ref} (live : t.Live full n) : Entry t (some n) (full ++ ['.']) [] :=
  ⟨List.not_mem_nil, Or.inr ⟨full, n, rfl, live, rfl⟩⟩

theorem Entry.parent_eq (entry : Entry t parent full seg) :
    parent = (parentSubject full).bind t.nodes.lookup := by
  rcases entry.level with ⟨rfl, rfl⟩ | ⟨p, q, rfl, live, rfl⟩
  · rw [parentSubject_root entry.dotless]
    rfl
  · rw [parentSubject_child entry.dotless]
    exact live.symm

section Enter
variable [Zero R] {parent : Option Ref}

theorem enter_new (absent : t.nodes.lookup full = none) :
    t.enter parent full seg = ((t.link parent full seg).markDirty t.next, t.next) := by
  simp only [enter, absent, link]

theorem link_nodes : (t.link parent full seg).nodes = t.nodes.insert full t.next := by
  cases parent <;> rfl

theorem link_live : (t.link parent full seg).Live s r ↔
    (s = full ∧ r = t.next) ∨ (s ≠ full ∧ t.Live s r) := by
  unfold Live
  rw [link_nodes]
  by_cases same : s = full
  · subst same
    simp [AList.lookup_insert, eq_comm]
  · rw [AList.lookup_insert_ne same]
    simp [same]

theorem link_dirty : (t.link parent full seg).dirty = t.dirty := by
  cases parent <;> rfl

theorem link_next : (t.link parent full seg).next = t.next + 1 := by
  cases parent <;> rfl

theorem link_roots : (t.link parent full seg).roots =
    match parent with
    | some _ => t.roots
    | none => t.roots.insert seg t.next := by
  cases parent <;> rfl

theorem link_heap_new (linked : Linked t) (entry : Entry t parent full seg) :
    (t.link parent full seg).heap t.next = { blank with
      subject := full
      parent := parent
      depth := t.depthBelow parent } := by
  rcases entry.level with ⟨rfl, _⟩ | ⟨p, q, rfl, live, _⟩
  · exact Function.update_self ..
  · have := linked.alloc live
    simp only [link, modify]
    rw [Function.update_of_ne this.ne', Function.update_self]

theorem link_heap_parent (linked : Linked t) (live : t.Live p q) :
    (t.link (some q) full seg).heap q =
      { t.heap q with children := (t.heap q).children.insert seg t.next } := by
  have := linked.alloc live
  simp only [link, modify]
  rw [Function.update_self, Function.update_of_ne this.ne]

theorem link_heap_other (new : r ≠ t.next) (above : parent ≠ some r) :
    (t.link parent full seg).heap r = t.heap r := by
  cases parent with
  | none => exact Function.update_of_ne new ..
  | some q =>
    have : r ≠ q := fun same => above (by rw [same])
    simp only [link, modify]
    rw [Function.update_of_ne this, Function.update_of_ne new]

/-- Old nodes only gain a child. -/
theorem link_heap_old (linked : Linked t) (entry : Entry t parent full seg) (old : r < t.next) :
    ∃ children, (t.link parent full seg).heap r = { t.heap r with children := children } := by
  by_cases above : parent = some r
  · subst above
    rcases entry.level with ⟨none, _⟩ | ⟨p, q, some, live, _⟩
    · contradiction
    · cases some
      exact ⟨_, link_heap_parent linked live⟩
  · exact ⟨_, link_heap_other old.ne above⟩

omit [Zero R] in
theorem absent_child (linked : Linked t) (absent : t.nodes.lookup full = none)
    (above : parentSubject s = some full) : ¬ t.Live s r := by
  intro live
  obtain ⟨q, liveQ⟩ := linked.closed live above
  rw [Live, absent] at liveQ
  contradiction

theorem link_children (linked : Linked t) (entry : Entry t parent full seg)
    (absent : t.nodes.lookup full = none) (live : (t.link parent full seg).Live s r) :
    ((t.link parent full seg).heap r).children.lookup seg' = some c ↔
      '.' ∉ seg' ∧ (t.link parent full seg).Live (child s seg') c := by
  simp only [link_live] at live ⊢
  rcases live with ⟨rfl, rfl⟩ | ⟨ne, live⟩
  · -- the new node has no children, and none of the old nodes is below it
    rw [link_heap_new linked entry]
    simp only [blank, AList.lookup_empty, reduceCtorEq, false_iff]
    rintro ⟨dotless, ⟨same, _⟩ | ⟨_, live⟩⟩
    · have := congrArg List.length same
      simp [child] at this
    · exact absent_child linked absent (parentSubject_child dotless) live
  · have old := linked.alloc live
    by_cases above : parent = some r
    · subst above
      rcases entry.level with ⟨none, _⟩ | ⟨p, q, some, liveQ, rfl⟩
      · contradiction
      · cases some
        cases linked.inj live liveQ
        rw [link_heap_parent linked live]
        by_cases same : seg' = seg
        · subst same
          rw [AList.lookup_insert]
          simp [entry.dotless, eq_comm]
        · rw [AList.lookup_insert_ne same, linked.children live]
          constructor
          · rintro ⟨dotless, liveC⟩
            refine ⟨dotless, Or.inr ⟨?_, liveC⟩⟩
            exact fun h => same (child_inj dotless entry.dotless h).2
          · rintro ⟨dotless, ⟨h, _⟩ | ⟨_, liveC⟩⟩
            · exact absurd (child_inj dotless entry.dotless h).2 same
            · exact ⟨dotless, liveC⟩
    · rw [link_heap_other old.ne above, linked.children live]
      constructor
      · rintro ⟨dotless, liveC⟩
        refine ⟨dotless, Or.inr ⟨?_, liveC⟩⟩
        rintro rfl
        rw [Live, absent] at liveC
        contradiction
      · rintro ⟨dotless, ⟨h, _⟩ | ⟨_, liveC⟩⟩
        · refine absurd ?_ above
          rw [entry.parent_eq, ← h, parentSubject_child dotless]
          exact live
        · exact ⟨dotless, liveC⟩

theorem link_root (linked : Linked t) (entry : Entry t parent full seg)
    (absent : t.nodes.lookup full = none) :
    (t.link parent full seg).roots.lookup seg' = some c ↔
      '.' ∉ seg' ∧ (t.link parent full seg).Live seg' c := by
  rw [link_roots, link_live]
  rcases entry.level with ⟨rfl, rfl⟩ | ⟨p, q, rfl, live, rfl⟩
  · by_cases same : seg' = full
    · subst same
      simp only [AList.lookup_insert, Option.some.injEq]
      simp [entry.dotless, eq_comm]
    · simp only [AList.lookup_insert_ne same, linked.roots, same, false_and, ne_eq,
        not_false_eq_true, true_and, false_or]
  · simp only [linked.roots]
    constructor
    · rintro ⟨dotless, liveC⟩
      refine ⟨dotless, Or.inr ⟨?_, liveC⟩⟩
      rintro rfl
      simp [child] at dotless
    · rintro ⟨dotless, ⟨rfl, _⟩ | ⟨_, liveC⟩⟩
      · simp [child] at dotless
      · exact ⟨dotless, liveC⟩

theorem link_linked (linked : Linked t) (entry : Entry t parent full seg)
    (absent : t.nodes.lookup full = none) : Linked (t.link parent full seg) := by
  have lookup : ∀ {s p : Str}, parentSubject s = some p → (∃ r, t.Live s r) ∨ s = full →
      (t.link parent full seg).nodes.lookup p = t.nodes.lookup p := by
    intro s p above which
    rw [link_nodes, AList.lookup_insert_ne]
    rintro rfl
    rcases which with ⟨r, live⟩ | rfl
    · exact absent_child linked absent above live
    · have := parentSubject_length above
      omega
  constructor
  · intro s r live
    rw [link_next]
    rcases link_live.mp live with ⟨_, rfl⟩ | ⟨_, live⟩
    · exact Nat.lt_succ_self _
    · exact Nat.lt_succ_of_lt (linked.alloc live)
  · intro s r live
    rcases link_live.mp live with ⟨rfl, rfl⟩ | ⟨_, live⟩
    · rw [link_heap_new linked entry]
    · obtain ⟨children, heap⟩ := link_heap_old linked entry (linked.alloc live)
      rw [heap]
      exact linked.subject live
  · intro s r live
    rcases link_live.mp live with ⟨rfl, rfl⟩ | ⟨_, live⟩
    · rw [link_heap_new linked entry]
      cases above : parentSubject s with
      | none => simpa [above] using entry.parent_eq
      | some p => simpa [above, lookup above (Or.inr rfl)] using entry.parent_eq
    · obtain ⟨children, heap⟩ := link_heap_old linked entry (linked.alloc live)
      rw [heap]
      have parentEq := linked.parent live
      cases above : parentSubject s with
      | none => simpa [above] using parentEq
      | some p => simpa [above, lookup above (Or.inl ⟨r, live⟩)] using parentEq
  · intro s r p live above
    rcases link_live.mp live with ⟨rfl, rfl⟩ | ⟨_, live⟩
    · rcases entry.level with ⟨_, rfl⟩ | ⟨p', q, _, liveQ, rfl⟩
      · rw [parentSubject_root entry.dotless] at above
        contradiction
      · rw [parentSubject_child entry.dotless] at above
        cases above
        exact ⟨q, (lookup (parentSubject_child entry.dotless) (Or.inr rfl)).trans liveQ⟩
    · obtain ⟨q, liveQ⟩ := linked.closed live above
      exact ⟨q, (lookup above (Or.inl ⟨r, live⟩)).trans liveQ⟩
  · intro s r live root
    rcases link_live.mp live with ⟨rfl, rfl⟩ | ⟨_, live⟩
    · rw [link_heap_new linked entry]
      rcases entry.level with ⟨rfl, _⟩ | ⟨p', q, _, _, rfl⟩
      · rfl
      · rw [parentSubject_child entry.dotless] at root
        contradiction
    · obtain ⟨children, heap⟩ := link_heap_old linked entry (linked.alloc live)
      rw [heap]
      exact linked.depthRoot live root
  · intro s r p q live above liveQ
    have oldQ : t.Live p q := by
      rcases link_live.mp live with ⟨rfl, _⟩ | ⟨_, live⟩
      · exact (lookup above (Or.inr rfl)).symm.trans liveQ
      · exact (lookup above (Or.inl ⟨r, live⟩)).symm.trans liveQ
    obtain ⟨childrenQ, heapQ⟩ := link_heap_old linked entry (linked.alloc oldQ)
    rcases link_live.mp live with ⟨rfl, rfl⟩ | ⟨_, live⟩
    · rw [link_heap_new linked entry, heapQ]
      have parentEq := entry.parent_eq
      rw [above, Option.bind_some, show t.nodes.lookup p = some q from oldQ] at parentEq
      rw [parentEq, depthBelow]
    · obtain ⟨children, heap⟩ := link_heap_old linked entry (linked.alloc live)
      rw [heap, heapQ]
      exact linked.depthChild live above oldQ
  · exact fun live => link_children linked entry absent live
  · exact link_root linked entry absent

theorem link_marked (linked : Linked t) (marked : Marked t) (entry : Entry t parent full seg) :
    MarkedBut (some t.next) (t.link parent full seg) := by
  constructor
  · intro r listed
    rw [link_dirty] at listed
    rw [link_next]
    exact Nat.lt_succ_of_lt (marked.fresh listed)
  · intro r q listed liveQ
    rw [link_dirty] at listed
    obtain ⟨children, heap⟩ := link_heap_old linked entry (marked.fresh listed)
    rw [heap] at liveQ
    rcases link_live.mp liveQ with ⟨_, rfl⟩ | ⟨_, liveQ⟩
    · exact Or.inr rfl
    · obtain ⟨childrenQ, heapQ⟩ := link_heap_old linked entry (linked.alloc liveQ)
      rw [heapQ]
      exact Or.inl (Marked.flagged marked listed liveQ)
  · intro s r live flag
    rw [link_dirty]
    rcases link_live.mp live with ⟨_, rfl⟩ | ⟨_, live⟩
    · rw [link_heap_new linked entry] at flag
      contradiction
    · obtain ⟨children, heap⟩ := link_heap_old linked entry (linked.alloc live)
      rw [heap] at flag
      exact marked.listed live flag
  · intro s r p q live above liveQ flag
    rcases link_live.mp live with ⟨_, rfl⟩ | ⟨_, live⟩
    · rw [link_heap_new linked entry] at flag
      contradiction
    · rcases link_live.mp liveQ with ⟨_, rfl⟩ | ⟨_, liveQ⟩
      · exact Or.inr rfl
      · obtain ⟨children, heap⟩ := link_heap_old linked entry (linked.alloc live)
        obtain ⟨childrenQ, heapQ⟩ := link_heap_old linked entry (linked.alloc liveQ)
        rw [heap] at flag
        rw [heapQ]
        exact Or.inl (Marked.upward marked live above liveQ flag)

/-- What `get` and its loop give their caller. -/
structure Reached (t : Tree R) (s : Str) (result : Tree R × Ref) : Prop where
  linked : Linked result.1
  marked : Marked result.1
  grew : Grew t result.1
  live : result.1.Live s result.2

theorem enter_spec (linked : Linked t) (marked : Marked t) (entry : Entry t parent full seg) :
    Reached t full (t.enter parent full seg) := by
  cases found : t.nodes.lookup full with
  | some n =>
    have same : t.enter parent full seg = (t, n) := by simp only [enter, found]
    rw [same]
    exact ⟨linked, marked, .refl t, found⟩
  | none =>
    rw [enter_new found]
    have linkedU := link_linked linked entry found
    have liveN : (t.link parent full seg).Live full t.next := link_live.mpr (Or.inl ⟨rfl, rfl⟩)
    obtain ⟨flagged, final, dirtyN⟩ :=
      markDirty_spec linkedU liveN (link_marked linked marked entry)
    refine ⟨flagged.linked linkedU, final, ⟨?_, ?_, ?_⟩, flagged.live.mpr liveN⟩
    · intro s r live
      refine flagged.live.mpr (link_live.mpr (Or.inr ⟨?_, live⟩))
      rintro rfl
      rw [Live, found] at live
      contradiction
    · intro s r live clean
      rcases link_live.mp (flagged.live.mp live) with ⟨_, rfl⟩ | ⟨_, old⟩
      · rw [dirtyN] at clean
        contradiction
      · refine ⟨old, (flagged.same_of_clean clean).trans ?_⟩
        have fresh : r ≠ t.next := (linked.alloc old).ne
        refine link_heap_other fresh fun above => ?_
        -- the parent of the new node is flagged with it
        rcases entry.level with ⟨rfl, _⟩ | ⟨p, q, rfl, liveQ, rfl⟩
        · contradiction
        · cases above
          have liveP : (t.link (some r) (child p seg) seg).Live p r := by
            refine link_live.mpr (Or.inr ⟨?_, liveQ⟩)
            intro same
            have := congrArg List.length same
            simp [child] at this
          have := final.upward (flagged.live.mpr liveN) (parentSubject_child entry.dotless)
            (flagged.live.mpr liveP) dirtyN
          rw [clean] at this
          contradiction
    · intro r listed
      rcases flagged.listedFrom listed with listed | ⟨s, live⟩
      · rw [link_dirty] at listed
        exact Or.inl listed
      · exact Or.inr ⟨s, flagged.live.mpr live⟩

theorem getFrom_spec (rest : Str) (linked : Linked t) (marked : Marked t)
    (entry : Entry t parent full seg) : Reached t (full ++ rest) (t.getFrom parent full seg rest) := by
  induction rest generalizing t parent full seg with
  | nil =>
    rw [List.append_nil]
    exact enter_spec linked marked entry
  | cons c rest ih =>
    simp only [getFrom]
    split
    · rename_i dot
      subst dot
      have here := enter_spec linked marked entry
      have next := ih here.linked here.marked (.below here.live)
      rw [List.append_assoc, List.singleton_append] at next
      exact ⟨next.linked, next.marked, here.grew.trans next.grew, next.live⟩
    · rename_i other
      have next := ih linked marked (entry.longer other)
      rwa [List.append_assoc, List.singleton_append] at next

theorem get_spec (s : Str) (linked : Linked t) (marked : Marked t) : Reached t s (t.get s) := by
  unfold get
  split
  · rename_i n found
    exact ⟨linked, marked, .refl t, found⟩
  · exact getFrom_spec s linked marked ⟨List.not_mem_nil, Or.inl ⟨rfl, rfl⟩⟩

theorem observe_spec (s : Str) (count : Nat) (rate : R) (last : Option Record)
    (linked : Linked t) (marked : Marked t) :
    Linked (t.observe s count rate last) ∧ Marked (t.observe s count rate last) ∧
      Grew t (t.observe s count rate last) := by
  have got := get_spec s linked marked
  obtain ⟨linked₂, marked₂, other⟩ := modify_spec got.linked got.marked got.live
    (fun node => { node with count := count, rate := rate, last := last })
    (fun _ => ⟨rfl, rfl, rfl, rfl, rfl⟩)
  obtain ⟨flagged, final, dirtyN⟩ := markDirty_spec linked₂ got.live (marked₂.weaken _)
  refine ⟨flagged.linked linked₂, final, got.grew.trans ⟨?_, ?_, ?_⟩⟩
  · exact fun live => flagged.live.mpr live
  · intro s r live clean
    refine ⟨flagged.live.mp live, (flagged.same_of_clean clean).trans (other r ?_)⟩
    rintro rfl
    change ((t.observe _ count rate last).heap _).dirty = true at dirtyN
    rw [clean] at dirtyN
    contradiction
  · intro r listed
    rcases flagged.listedFrom listed with listed | ⟨s, live⟩
    · exact Or.inl listed
    · exact Or.inr ⟨s, flagged.live.mpr live⟩

end Enter
end Tree
end NatsExplorer.Subscription
