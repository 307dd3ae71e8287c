import NatsExplorer.Subscription.Aggregates
import Mathlib.Algebra.BigOperators.Pi
import Mathlib.Algebra.Order.Ring.Rat

/-! The tree over its runs. What it shows of a subtree is the sum over the observations in force below it,
every node is there for a subject that somebody asked for, and a refresh returns the nodes on the paths that
were touched since the last tick. -/
namespace NatsExplorer.Subscription
open Go

/-- What is done to a tree; a tick refreshes it and clears its flags. -/
inductive TreeOp (R : Type) where
  | observe (subject : Str) (count : Nat) (rate : R) (last : Option Record)
  | remove (subject : Str)
  | get (subject : Str)
  | tick (rt : Runtime)

namespace TreeOp
variable {R : Type}

/-- The observations in force. -/
def observed (seen : Map Str (Nat × R)) : TreeOp R → Map Str (Nat × R)
  | .observe s count rate _ => seen.insert s (count, rate)
  | .remove s => seen.erase s
  | .get _ => seen
  | .tick _ => seen

def observations (ops : List (TreeOp R)) : Map Str (Nat × R) := ops.foldl observed ∅

/-- The subjects observed, or asked for with `get`, and not removed since. -/
def asked (standing : Finset Str) : TreeOp R → Finset Str
  | .observe s .. => insert s standing
  | .get s => insert s standing
  | .remove s => standing.erase s
  | .tick _ => standing

def standing (ops : List (TreeOp R)) : Finset Str := ops.foldl asked ∅

/-- What an observation in force says; nothing is observed of the other subjects. -/
def numbers (seen : Map Str (Nat × R)) [Zero R] (s : Str) : Nat × R := (seen.lookup s).getD (0, 0)

/-- The messages of a node, and what one sees of its rate. -/
def view {A : Type} (look : R → A) (own : Nat × R) : Nat × A := (own.1, look own.2)

/-- A subject without messages looks like one that is not observed. -/
def Idle [Zero R] {A : Type} (look : R → A) : TreeOp R → Prop
  | .observe _ count rate _ => count = 0 → look rate = look 0
  | _ => True

theorem view_count {A : Type} {look : R → A} {x y : Nat × R} (same : view look x = view look y) : x.1 = y.1 :=
  (Prod.mk.inj same).1

theorem view_id {x y : Nat × R} (same : view id x = view id y) : x.2 = y.2 := (Prod.mk.inj same).2

end TreeOp

namespace Tree
open TreeOp
variable {R : Type} {t t' : Tree R} {s p : Str} {r n : Ref}

/-- The paths whose entries an operation may change. -/
def Touches (t : Tree R) (s : Str) : TreeOp R → Prop
  | .observe u .. => Under s u
  | .remove u => Under s u ∧ ¬ t.Absent u
  | .get u => Under s u ∧ t.Absent u
  | .tick _ => False

/-- The numbers of the node of a subject. -/
def ownAt [Zero R] (t : Tree R) (s : Str) : Nat × R :=
  match t.nodes.lookup s with
  | some r => (t.heap r).own
  | none => (0, 0)

theorem ownAt_live [Zero R] (live : t.Live s r) : t.ownAt s = (t.heap r).own := by
  rw [ownAt, show t.nodes.lookup s = some r from live]

section Runs
variable [AddCommMonoid R]

def apply (t : Tree R) : TreeOp R → Tree R
  | .observe s count rate last => t.observe s count rate last
  | .remove s => t.remove s
  | .get s => (t.get s).1
  | .tick rt => (t.refresh rt).clearDirty

/-- An operation since the last tick touches the path of a subject. -/
def Touched (ops : List (TreeOp R)) (s : Str) : Prop :=
  ∃ before op after, ops = before ++ op :: after ∧ (∀ rt, .tick rt ∉ after) ∧
    (Transition.run apply (newTree : Tree R) before).Touches s op

/-- What the tree is at any time of a run, as far as one looks at the numbers of its nodes. -/
structure Tallied {A : Type} (look : R → A) (t : Tree R) (seen : Map Str (Nat × R)) (standing : Finset Str) : Prop where
  linked : t.Linked
  marked : t.Marked
  sums {s : Str} {r : Ref} : t.Live s r → (t.heap r).dirty = false → t.Local r
  own {s : Str} {r : Ref} : t.Live s r → view look (t.heap r).own = view look (numbers seen s)
  gone {s : Str} : t.Absent s → view look (numbers seen s) = view look (0, 0)
  idle {s : Str} : (numbers seen s).1 = 0 → view look (numbers seen s) = view look (0, 0)
  leaf {s : Str} {r : Ref} : t.Live s r → Leaf t s → s ∈ standing
  counted {s : Str} : 0 < (numbers seen s).1 → s ∈ standing

theorem numbers_insert (seen : Map Str (Nat × R)) (s : Str) (own : Nat × R) :
    numbers (seen.insert s own) p = if p = s then own else numbers seen p := by
  unfold numbers
  by_cases same : p = s
  · rw [if_pos same, same, AList.lookup_insert, Option.getD_some]
  · rw [if_neg same, AList.lookup_insert_ne same]

theorem numbers_erase (seen : Map Str (Nat × R)) (s : Str) :
    numbers (seen.erase s) p = if p = s then (0, 0) else numbers seen p := by
  unfold numbers
  by_cases same : p = s
  · rw [if_pos same, same, AList.lookup_erase, Option.getD_none]
  · rw [if_neg same, AList.lookup_erase_ne same]

omit [AddCommMonoid R] in
/-- A leaf on the path to a node is that node. -/
theorem leaf_end (linked : Linked t) (live : t.Live s n) (leaf : Leaf t p) (under : Under p s) : p = s := by
  rcases under.cases with same | ⟨seg, dotless, further⟩
  · exact same.symm
  · obtain ⟨c, there⟩ := linked.above live further
    exact absurd there (leaf _ c (parentSubject_child dotless))

omit [AddCommMonoid R] in
/-- Where nodes are only made, a leaf was one before. -/
theorem Leaf.before (kept : ∀ {p r}, t.Live p r → t'.Live p r) (leaf : Leaf t' s) : Leaf t s :=
  fun p r above live => leaf p r above (kept live)

variable {seen : Map Str (Nat × R)} {standing : Finset Str} {A : Type} {look : R → A}

theorem tallied_new : Tallied look (newTree : Tree R) ∅ ∅ where
  linked := newTree_linked
  marked := newTree_marked
  sums live := absurd live newTree_empty
  own live := absurd live newTree_empty
  gone _ := rfl
  idle _ := rfl
  leaf live := absurd live newTree_empty
  counted some := absurd some (lt_irrefl 0)

theorem Tallied.observe (tallied : Tallied look t seen standing) (s : Str) {count : Nat} {rate : R} (last : Option Record)
    (idle : count = 0 → look rate = look 0) :
    Tallied look (t.observe s count rate last) (seen.insert s (count, rate)) (insert s standing) := by
  obtain ⟨linked, marked, grew⟩ := observe_spec s count rate last tallied.linked tallied.marked
  have effect := observe_observed s count rate last tallied.linked tallied.marked
  refine ⟨linked, marked, grew.shrunk.local_kept linked marked tallied.sums, fun {p r} live => ?_, fun {p} absent => ?_,
    fun {p} none => ?_, fun {p r} live leaf => ?_, fun {p} some => ?_⟩
  · rw [numbers_insert]
    obtain ⟨same, own⟩ | ⟨other, ⟨before, own⟩ | ⟨absent, own⟩⟩ := effect.own live
    · rw [if_pos same, own]
    · rw [if_neg other, own, tallied.own before]
    · rw [if_neg other, own, tallied.gone absent]
  · obtain ⟨r, here⟩ := effect.live
    rw [numbers_insert, if_neg (by rintro rfl; exact absent r here)]
    exact tallied.gone fun r before => absent r (effect.old before)
  · rw [numbers_insert] at none ⊢
    split
    · rename_i same
      rw [if_pos same] at none
      exact Prod.ext none (idle none)
    · rename_i other
      rw [if_neg other] at none
      exact tallied.idle none
  · rw [Finset.mem_insert]
    rcases live_or_absent t p with ⟨r', before⟩ | absent
    · exact .inr (tallied.leaf before (leaf.before effect.old))
    · obtain ⟨n, here⟩ := effect.live
      exact .inl (leaf_end linked here leaf (effect.absent live absent))
  · rw [numbers_insert] at some
    rw [Finset.mem_insert]
    by_cases same : p = s
    · exact .inl same
    · rw [if_neg same] at some
      exact .inr (tallied.counted some)

theorem Tallied.get (tallied : Tallied look t seen standing) (s : Str) : Tallied look (t.get s).1 seen (insert s standing) := by
  have got := get_spec s tallied.linked tallied.marked
  have effect := get_planted s tallied.linked tallied.marked
  refine ⟨got.linked, got.marked, got.grew.shrunk.local_kept got.linked got.marked tallied.sums, fun {p r} live => ?_,
    fun {p} absent => tallied.gone (effect.absent absent), tallied.idle, fun {p r} live leaf => ?_,
    fun some => Finset.mem_insert_of_mem (tallied.counted some)⟩
  · rcases live_or_absent t p with ⟨r', before⟩ | absent
    · obtain ⟨after, own, -⟩ := effect.old before
      cases after.unique live
      rw [own, tallied.own before]
    · rw [(effect.new live absent).2.1, tallied.gone absent]
  · rw [Finset.mem_insert]
    rcases live_or_absent t p with ⟨r', before⟩ | absent
    · exact .inr (tallied.leaf before (leaf.before fun there => (effect.old there).1))
    · exact .inl (leaf_end got.linked got.live leaf (effect.new live absent).1)

theorem Tallied.remove (tallied : Tallied look t seen standing) (s : Str) :
    Tallied look (t.remove s) (seen.erase s) (standing.erase s) := by
  obtain ⟨linked, marked, shrunk⟩ := remove_spec s tallied.linked tallied.marked
  have effect := remove_removed s tallied.linked tallied.marked
  have own {p : Str} {r : Ref} (live : (t.remove s).Live p r) :
      view look ((t.remove s).heap r).own = view look (numbers (seen.erase s) p) := by
    rw [effect.own live, numbers_erase]
    split
    · rfl
    · exact tallied.own (effect.old live)
  have counted {p : Str} (some : 0 < (numbers (seen.erase s) p).1) : p ∈ standing.erase s := by
    rw [numbers_erase] at some
    by_cases same : p = s
    · rw [if_pos same] at some
      exact absurd some (lt_irrefl 0)
    · rw [if_neg same] at some
      exact Finset.mem_erase.mpr ⟨same, tallied.counted some⟩
  refine ⟨linked, marked, shrunk.local_kept linked marked tallied.sums, own, fun {p} absent => ?_, fun {p} none => ?_,
    fun {p r} live leaf => ?_, counted⟩
  · rw [numbers_erase]
    split
    · rfl
    · rename_i other
      rcases live_or_absent t p with ⟨r, before⟩ | absent
      · have zero := (effect.gone before absent).2.resolve_left other
        exact tallied.idle ((congrArg Prod.fst (tallied.own before)).symm.trans zero)
      · exact tallied.gone absent
  · rw [numbers_erase] at none ⊢
    split
    · rfl
    · rename_i other
      rw [if_neg other] at none
      exact tallied.idle none
  · obtain ⟨other, leaf | some⟩ := effect.leaf live leaf
    · exact Finset.mem_erase.mpr ⟨other, tallied.leaf (effect.old live) leaf⟩
    · exact counted ((congrArg Prod.fst (own live)).subst some)

omit [AddCommMonoid R] in
theorem Refreshed.own (refreshed : Refreshed t t') (r : Ref) : (t'.heap r).own = (t.heap r).own := by
  obtain ⟨_, _, _, heap⟩ := refreshed.heap r
  rw [heap]
  rfl

omit [AddCommMonoid R] in
theorem Cleared.own (cleared : Cleared t t') (r : Ref) : (t'.heap r).own = (t.heap r).own := by
  rw [cleared.heap r]
  rfl

theorem Tallied.refresh (tallied : Tallied look t seen standing) (rt : Runtime) : Tallied look (t.refresh rt) seen standing := by
  have refreshed := refresh_spec rt t
  have absent {p : Str} (none : (t.refresh rt).Absent p) : t.Absent p := fun r live => none r (refreshed.live.mpr live)
  refine ⟨refreshed.linked tallied.linked, refreshed.marked tallied.marked, fun live _ => ?_, fun live => ?_,
    fun none => tallied.gone (absent none), tallied.idle, fun live leaf => ?_, tallied.counted⟩
  · exact refresh_local rt tallied.linked tallied.marked tallied.sums (refreshed.live.mp live)
  · rw [refreshed.own, tallied.own (refreshed.live.mp live)]
  · exact tallied.leaf (refreshed.live.mp live) (leaf.before refreshed.live.mpr)

theorem Tallied.clear (tallied : Tallied look t seen standing) (sums : ∀ {s r}, t.Live s r → t.Local r) :
    Tallied look t.clearDirty seen standing := by
  have cleared := clearDirty_spec t
  have absent {p : Str} (none : t.clearDirty.Absent p) : t.Absent p := fun r live => none r (cleared.live.mpr live)
  refine ⟨cleared.linked tallied.linked, cleared.marked tallied.marked, fun {s r} live _ => ?_, fun live => ?_,
    fun none => tallied.gone (absent none), tallied.idle, fun live leaf => ?_, tallied.counted⟩
  · have shown := sums (cleared.live.mp live)
    have same (r : Ref) : (t.clearDirty.heap r).aggregate = (t.heap r).aggregate ∧
        (t.clearDirty.heap r).children = (t.heap r).children := by
      rw [cleared.heap r]
      exact ⟨rfl, rfl⟩
    unfold Local at shown ⊢
    rw [(same r).1, (same r).2, cleared.own, shown]
    simp only [(same _).1]
  · rw [cleared.own, tallied.own (cleared.live.mp live)]
  · exact tallied.leaf (cleared.live.mp live) (leaf.before cleared.live.mpr)

theorem Tallied.apply (tallied : Tallied look t seen standing) (op : TreeOp R) (idle : op.Idle look) :
    Tallied look (t.apply op) (op.observed seen) (op.asked standing) := by
  cases op with
  | observe s count rate last => exact tallied.observe s last idle
  | remove s => exact tallied.remove s
  | get s => exact tallied.get s
  | tick rt => exact (tallied.refresh rt).clear (refresh_local rt tallied.linked tallied.marked tallied.sums <| (refresh_spec rt t).live.mp ·)

variable (look) in
theorem tallied_run (ops : List (TreeOp R)) (idle : ∀ op ∈ ops, op.Idle look) :
    Tallied look (Transition.run Tree.apply (newTree : Tree R) ops) (observations ops) (TreeOp.standing ops) := by
  induction ops using List.reverseRecOn with
  | nil => exact tallied_new
  | append_singleton ops op ih =>
    have before := ih fun op member => idle op (List.mem_append_left _ member)
    rw [Transition.run_append, observations, TreeOp.standing, List.foldl_append, List.foldl_append]
    exact before.apply op (idle op (List.mem_append_right _ List.mem_cons_self))

/-- The nodes below a subject and the observations below it have the same sum. -/
theorem Tallied.sum_below {M : Type} [AddCommMonoid M] (tallied : Tallied look t seen standing) (f : Nat × R → M)
    (sees : ∀ {x y}, view look x = view look y → f x = f y) (zero : f (0, 0) = 0) (s : Str) :
    ∑ p ∈ below t.nodes.keys.toFinset s, f (t.ownAt p) = ∑ p ∈ below seen.keys.toFinset s, f (numbers seen p) := by
  have inside (p : Str) (member : p ∈ below t.nodes.keys.toFinset s) : f (t.ownAt p) = f (numbers seen p) := by
    obtain ⟨r, live⟩ := mem_nodes.mp (mem_below.mp member).1
    rw [ownAt_live live]
    exact sees (tallied.own live)
  have outside {p : Str} {subjects : Finset Str} (member : p ∈ below (t.nodes.keys.toFinset ∪ seen.keys.toFinset) s)
      (absent : p ∉ below subjects s) : p ∉ subjects :=
    fun there => absent (mem_below.mpr ⟨there, (mem_below.mp member).2⟩)
  have wider {subjects : Finset Str} (part : subjects ⊆ t.nodes.keys.toFinset ∪ seen.keys.toFinset) :
      below subjects s ⊆ below (t.nodes.keys.toFinset ∪ seen.keys.toFinset) s := Finset.filter_subset_filter _ part
  rw [Finset.sum_congr rfl inside, Finset.sum_subset (wider Finset.subset_union_left) fun p member absent => ?_]
  · refine (Finset.sum_subset (wider Finset.subset_union_right) fun p member absent => ?_).symm
    have unseen : seen.lookup p = none := AList.lookup_eq_none.mpr fun listed => outside member absent (List.mem_toFinset.mpr listed)
    rw [numbers, unseen, Option.getD_none, zero]
  · rw [← zero]
    exact sees (tallied.gone fun r live => outside member absent (mem_nodes.mpr ⟨r, live⟩))

omit [AddCommMonoid R] in
/-- Below every node there is one for a subject that was asked for. -/
theorem standing_below (leaf : ∀ {s r}, t.Live s r → Leaf t s → s ∈ standing) (live : t.Live s r) :
    ∃ u ∈ standing, Under s u ∧ ¬ t.Absent u := by
  induction size : (below t.nodes.keys.toFinset s).card using Nat.strongRecOn generalizing s r with
  | ind m ih =>
    by_cases last : Leaf t s
    · exact ⟨s, leaf live last, .refl s, fun none => none r live⟩
    · simp only [Leaf, not_forall, not_not] at last
      obtain ⟨p, c, above, there⟩ := last
      have under := under_parent above
      have longer := parentSubject_length above
      have smaller : (below t.nodes.keys.toFinset p).card < m := by
        rw [← size]
        refine Finset.card_lt_card ⟨fun q member => ?_, fun all => ?_⟩
        · obtain ⟨node, further⟩ := mem_below.mp member
          exact mem_below.mpr ⟨node, under.trans further⟩
        · have back := (mem_below.mp (all (mem_below.mpr ⟨mem_nodes.mpr ⟨r, live⟩, .refl s⟩))).2
          have length := back.isPrefix.length_le
          omega
      obtain ⟨u, member, further, there⟩ := ih _ smaller there rfl
      exact ⟨u, member, under.trans further, there⟩

theorem run_linked (ops : List (TreeOp R)) :
    (Transition.run apply (newTree : Tree R) ops).Linked ∧ (Transition.run apply (newTree : Tree R) ops).Marked := by
  have tallied := tallied_run (fun _ : R => ()) ops fun op _ => by cases op <;> first | trivial | exact fun _ => rfl
  exact ⟨tallied.linked, tallied.marked⟩

/-- What one operation flags. -/
theorem apply_flags (op : TreeOp R) (linked : Linked t) (marked : Marked t) (live : (t.apply op).Live s r) :
    ((t.apply op).heap r).dirty = true ↔
      t.Touches s op ∨ (∀ rt, op ≠ .tick rt) ∧ t.Live s r ∧ (t.heap r).dirty = true := by
  cases op with
  | observe u count rate last =>
    have flag := (observe_observed u count rate last linked marked).flag live
    refine flag.trans (or_comm.trans (or_congr_right (and_iff_right ?_).symm))
    nofun
  | remove u =>
    have effect := remove_removed u linked marked
    refine (effect.flag live).trans (or_comm.trans (or_congr_right ?_))
    exact ⟨fun flag => ⟨nofun, effect.old live, flag⟩, fun all => all.2.2⟩
  | get u =>
    have effect := get_planted u linked marked
    rcases live_or_absent t s with ⟨r', before⟩ | absent
    · obtain ⟨after, -, flag⟩ := effect.old before
      cases after.unique live
      refine flag.trans (or_comm.trans (or_congr_right ?_))
      exact ⟨fun flag => ⟨nofun, before, flag⟩, fun all => all.2.2⟩
    · obtain ⟨under, -, flag⟩ := effect.new live absent
      have none : t.Absent u := fun q there => by
        obtain ⟨r', above⟩ := linked.above there under
        exact absent r' above
      exact iff_of_true flag (.inl ⟨under, none⟩)
  | tick rt =>
    have refreshed := refresh_spec rt t
    have clean := (clearDirty_spec (t.refresh rt)).unflagged (refreshed.marked marked) live
    refine iff_of_false (by rw [apply, clean]; nofun) ?_
    rintro (none | ⟨other, -⟩)
    · exact none
    · exact other rt rfl

theorem touched_append (ops : List (TreeOp R)) (op : TreeOp R) :
    Touched (ops ++ [op]) s ↔ (Transition.run apply (newTree : Tree R) ops).Touches s op ∨ (∀ rt, op ≠ .tick rt) ∧ Touched ops s := by
  constructor
  · rintro ⟨before, first, after, split, untouched, touches⟩
    rcases List.eq_nil_or_concat after with rfl | ⟨after, last, rfl⟩
    · obtain ⟨rfl, same⟩ := List.append_inj' split rfl
      cases same
      exact .inl touches
    · rw [List.concat_eq_append, ← List.cons_append, ← List.append_assoc] at split
      obtain ⟨rfl, same⟩ := List.append_inj' split rfl
      cases same
      rw [List.concat_eq_append] at untouched
      refine .inr ⟨fun rt same => untouched rt (same ▸ List.mem_append_right _ List.mem_cons_self), before, first, after, rfl, ?_, touches⟩
      exact fun rt member => untouched rt (List.mem_append_left _ member)
  · rintro (touches | ⟨other, before, first, after, rfl, untouched, touches⟩)
    · exact ⟨ops, op, [], rfl, nofun, touches⟩
    · refine ⟨before, first, after ++ [op], by simp, fun rt member => ?_, touches⟩
      rcases List.mem_append.mp member with member | member
      · exact untouched rt member
      · exact other rt (List.mem_singleton.mp member).symm

/-- A new node lies on the path of the operation that makes it. -/
theorem apply_new (op : TreeOp R) (linked : Linked t) (marked : Marked t) (live : (t.apply op).Live s r) (absent : ¬ t.Live s r) :
    t.Touches s op := by
  have none (q : Ref) (keep : t.Live s q → (t.apply op).Live s q) : ¬ t.Live s q :=
    fun there => absent ((keep there).unique live ▸ there)
  cases op with
  | observe u count rate last =>
    have effect := observe_observed u count rate last linked marked
    exact effect.absent live fun q => none q effect.old
  | remove u => exact absurd ((remove_removed u linked marked).old live) absent
  | get u =>
    have effect := get_planted u linked marked
    have fresh : t.Absent s := fun q => none q fun there => (effect.old there).1
    obtain ⟨under, -, -⟩ := effect.new live fresh
    refine ⟨under, fun q there => ?_⟩
    obtain ⟨r', above⟩ := linked.above there under
    exact fresh r' above
  | tick rt =>
    exact absurd ((refresh_spec rt t).live.mp ((clearDirty_spec (t.refresh rt)).live.mp live)) absent

/-- A node is flagged exactly if its path was touched since the last tick. -/
theorem flagged_iff (ops : List (TreeOp R)) (live : (Transition.run apply (newTree : Tree R) ops).Live s r) :
    ((Transition.run apply (newTree : Tree R) ops).heap r).dirty = true ↔ Touched ops s := by
  induction ops using List.reverseRecOn with
  | nil => exact absurd live newTree_empty
  | append_singleton ops op ih =>
    obtain ⟨linked, marked⟩ := run_linked ops
    rw [touched_append]
    rw [Transition.run_append] at live ⊢
    refine (apply_flags op linked marked live).trans ⟨?_, ?_⟩
    · rintro (touches | ⟨other, before, flag⟩)
      · exact .inl touches
      · exact .inr ⟨other, (ih before).mp flag⟩
    · rintro (touches | ⟨other, touched⟩)
      · exact .inl touches
      · by_cases before : (Transition.run apply (newTree : Tree R) ops).Live s r
        · exact .inr ⟨other, before, (ih before).mpr touched⟩
        · exact .inl (apply_new op linked marked live before)

/-- Without a tick, a node that is not flagged is the one it was. -/
theorem run_shrunk (after : List (TreeOp R)) (linked : Linked t) (marked : Marked t) (unticked : ∀ rt, .tick rt ∉ after) :
    Shrunk t (Transition.run apply t after) := by
  induction after generalizing t with
  | nil => exact .refl t
  | cons op after ih =>
    have step : Linked (t.apply op) ∧ Marked (t.apply op) ∧ Shrunk t (t.apply op) := by
      cases op with
      | observe u count rate last =>
        obtain ⟨linked, marked, grew⟩ := observe_spec u count rate last linked marked
        exact ⟨linked, marked, grew.shrunk⟩
      | remove u => exact remove_spec u linked marked
      | get u =>
        have got := get_spec u linked marked
        exact ⟨got.linked, got.marked, got.grew.shrunk⟩
      | tick rt => exact absurd List.mem_cons_self (unticked rt)
    exact step.2.2.trans (ih step.1 step.2.1 fun rt member => unticked rt (List.mem_cons_of_mem _ member))

/-- The observed subjects at or below one. -/
def seenBelow (ops : List (TreeOp R)) (s : Str) : Finset Str := below (observations ops).keys.toFinset s

/-- After a refresh the tree shows the sums of the observations, hangs together, holds no node that nobody
asked for, and has returned those of its nodes whose path was touched since the last tick. -/
theorem aggregates_exact (ops : List (TreeOp R)) (rt : Runtime) :
    let t := (Transition.run apply (newTree : Tree R) ops).refresh rt
    t.Linked ∧ ∀ s r, t.Live s r →
      (t.heap r).total = ∑ u ∈ seenBelow ops s, (numbers (observations ops) u).1 ∧
      (t.heap r).subjects = ((seenBelow ops s).filter fun u => 0 < (numbers (observations ops) u).1).card ∧
      ((∀ op ∈ ops, op.Idle id) → (t.heap r).totalRate = ∑ u ∈ seenBelow ops s, (numbers (observations ops) u).2) ∧
      (∃ u ∈ TreeOp.standing ops, Under s u ∧ ¬ t.Absent u) ∧
      (r ∈ t.dirty ↔ Touched ops s) ∧
      ∀ before after, ops = before ++ after → (∀ rt, .tick rt ∉ after) → r ∉ t.dirty →
        (Transition.run apply (newTree : Tree R) before).Live s r ∧
          t.heap r = (Transition.run apply (newTree : Tree R) before).heap r := by
  intro t
  have refreshed := refresh_spec rt (Transition.run apply (newTree : Tree R) ops)
  have run {A : Type} (look : R → A) (idle : ∀ op ∈ ops, op.Idle look) : Tallied look t (observations ops) (TreeOp.standing ops) :=
    (tallied_run look ops idle).refresh rt
  have counts := run (fun _ => ()) fun op _ => by cases op <;> first | trivial | exact fun _ => rfl
  obtain ⟨linked, marked⟩ := run_linked ops
  have sums {s : Str} {r : Ref} (live : t.Live s r) : t.Local r :=
    refresh_local rt linked marked (tallied_run (fun _ : R => ()) ops
      fun op _ => by cases op <;> first | trivial | exact fun _ => rfl).sums (refreshed.live.mp live)
  refine ⟨counts.linked, fun s r live => ?_⟩
  have all := local_sum counts.linked sums (fun p => weigh (t.ownAt p)) (fun live => by rw [ownAt_live live]) live
  have before := refreshed.live.mp live
  have flag : r ∈ t.dirty ↔ ((Transition.run apply (newTree : Tree R) ops).heap r).dirty = true := by
    refine (refreshed.dirty r).trans ⟨fun listed => ?_, marked.listed before⟩
    exact marked.flagged listed (linked.subject before ▸ before)
  refine ⟨?_, ?_, fun idle => ?_, standing_below counts.leaf live, flag.trans (flagged_iff ops before), ?_⟩
  · have total := congrArg Prod.fst all
    rw [Prod.fst_sum] at total
    exact total.trans (counts.sum_below Prod.fst view_count rfl s)
  · have subjects := congrArg (·.2.2) all
    simp only [Prod.snd_sum] at subjects
    rw [Finset.card_filter]
    refine subjects.trans (counts.sum_below (fun own => (if 0 < own.1 then 1 else 0 : Nat)) (fun same => ?_) rfl s)
    rw [view_count same]
  · have rates := congrArg (·.2.1) all
    simp only [Prod.fst_sum, Prod.snd_sum] at rates
    exact rates.trans ((run id idle).sum_below Prod.snd view_id rfl s)
  · intro first after split unticked absent
    have clean : ((Transition.run apply (newTree : Tree R) ops).heap r).dirty = false :=
      Bool.eq_false_iff.mpr fun dirty => absent (flag.mpr dirty)
    have same : t.heap r = (Transition.run apply (newTree : Tree R) ops).heap r :=
      refreshed.same fun listed => absent ((refreshed.dirty r).mpr listed)
    rw [same]
    subst split
    rw [Transition.run_append] at clean before ⊢
    obtain ⟨linked, marked⟩ := run_linked first
    exact (run_shrunk after linked marked unticked).clean before clean

end Runs

section Sample

/-- A subject with a rate and no messages, and beside it one that keeps the branch. -/
def idleOps : List (TreeOp ℚ) :=
  [.observe "x.a".toList 0 5 none, .observe "x.a.b".toList 1 0 none, .observe "x.c".toList 1 0 none, .remove "x.a.b".toList]

/-- A placeholder stands for nothing observed, a refresh returns a node that is gone, and a subject without
messages goes with the last one below it. -/
theorem aggregates_apart :
    ((Transition.run apply (newTree : Tree ℚ) [.get ['a']]).nodes.keys = [['a']] ∧
      (observations ([.get ['a']] : List (TreeOp ℚ))).keys = []) ∧
    (((Transition.run apply (newTree : Tree ℚ) [.observe ['a'] 1 0 none, .remove ['a']]).refresh .plain).dirty = [0] ∧
      ((Transition.run apply (newTree : Tree ℚ) [.observe ['a'] 1 0 none, .remove ['a']]).refresh .plain).nodes.keys = []) ∧
    (((Transition.run apply (newTree : Tree ℚ) idleOps).refresh .plain).Live ['x'] 0 ∧
      (((Transition.run apply (newTree : Tree ℚ) idleOps).refresh .plain).heap 0).totalRate = 0 ∧
      ∑ u ∈ seenBelow idleOps ['x'], (numbers (observations idleOps) u).2 = 5) := by
  refine ⟨⟨by decide, by decide⟩, ⟨by decide, by decide⟩, ?_, ?_, ?_⟩
  · exact AList.mem_lookup_iff.mpr (by decide)
  · decide +kernel
  · decide +kernel

end Sample
end Tree
end NatsExplorer.Subscription
