import NatsExplorer.Subscription.View
import NatsExplorer.Subscription.TreeInvariant

/-! What a view shows, said without walks: a node is shown when it or something
below it stands for itself. `collect` computes exactly this set, and `visible`
decides whether a node stands for itself. -/
namespace NatsExplorer.Subscription
open Go
section Walks
variable {R : Type} {t : Tree R} {s : Str} {r n : Ref}

theorem le_foldr_max {l : List Nat} {a : Nat} (member : a ∈ l) : a ≤ l.foldr max 0 := by
  induction l with
  | nil => cases member
  | cons b l ih =>
    rw [List.foldr_cons]
    rcases List.mem_cons.mp member with rfl | member
    · exact le_max_left ..
    · exact (ih member).trans (le_max_right ..)

theorem Tree.depth_lt_height (live : t.Live s r) : (t.heap r).depth < t.height :=
  Nat.lt_succ_of_le (le_foldr_max (List.mem_map.mpr ⟨r, Map.mem_values.mpr ⟨s, live⟩, rfl⟩))

/-- The children of a live node, as the walks visit them. -/
theorem Tree.mem_children (rt : Runtime) (linked : t.Linked) (live : t.Live s n) {c : Ref} :
    c ∈ rt.range (t.heap n).children.values ↔ ∃ seg, '.' ∉ seg ∧ t.Live (child s seg) c := by
  rw [rt.mem_range, Map.mem_values]
  simp only [linked.children live]

theorem Tree.child_depth (linked : t.Linked) (live : t.Live s n) {seg : Str} {c : Ref}
    (dotless : '.' ∉ seg) (liveC : t.Live (child s seg) c) :
    (t.heap c).depth = (t.heap n).depth + 1 :=
  linked.depthChild liveC (parentSubject_child dotless) live

/-- Folding a walk over the nodes of a level, when each answers for itself. -/
theorem fold_walk {walk : Ref → KeySet Str → Bool × KeySet Str} {shown : Ref → Prop}
    {found : Ref → Str → Prop} (l : List Ref)
    (answers : ∀ c ∈ l, ∀ out, ((walk c out).1 = true ↔ shown c) ∧
      ∀ x, x ∈ (walk c out).2 ↔ x ∈ out ∨ found c x) (below : Bool) (out : KeySet Str) :
    let result := l.foldl (fun (below, out) c =>
      let (shown, out) := walk c out
      (shown || below, out)) (below, out)
    (result.1 = true ↔ below = true ∨ ∃ c ∈ l, shown c) ∧
      ∀ x, x ∈ result.2 ↔ x ∈ out ∨ ∃ c ∈ l, found c x := by
  induction l generalizing below out with
  | nil => simp
  | cons c l ih =>
    obtain ⟨first, members⟩ := answers c List.mem_cons_self out
    obtain ⟨rest, others⟩ := ih (fun c' member => answers c' (List.mem_cons_of_mem _ member))
      ((walk c out).1 || below) (walk c out).2
    simp only [List.foldl_cons]
    constructor
    · rw [rest, Bool.or_eq_true, first, or_assoc, or_left_comm]
      simp only [List.mem_cons, exists_eq_or_imp]
    · intro x
      rw [others, members, or_assoc]
      simp only [List.mem_cons, exists_eq_or_imp]

theorem fold_level {walk : Ref → KeySet Str → KeySet Str} {found : Ref → Str → Prop} (l : List Ref)
    (answers : ∀ c ∈ l, ∀ out x, x ∈ walk c out ↔ x ∈ out ∨ found c x) (out : KeySet Str) (x : Str) :
    x ∈ l.foldl (fun out c => walk c out) out ↔ x ∈ out ∨ ∃ c ∈ l, found c x := by
  induction l generalizing out with
  | nil => simp
  | cons c l ih =>
    rw [List.foldl_cons, ih fun c' member => answers c' (List.mem_cons_of_mem _ member),
      answers c List.mem_cons_self]
    simp only [List.mem_cons, exists_eq_or_imp, or_assoc]

end Walks

namespace ClientView
variable {R : Type} [Tables]

/-- Stands for itself: by matching, or with every branch above it open. -/
def Own (v : ClientView) (t : Tree R) (s : Str) (r : Ref) : Prop :=
  if v.filtering then v.matchesNode (t.heap r) = true
  else ∀ p, Under p s → p ≠ s → v.expanded p = true

def Shown (v : ClientView) (t : Tree R) (s : Str) : Prop :=
  ∃ d r, t.Live d r ∧ Under s d ∧ v.Own t d r

variable {v : ClientView} {t : Tree R} {s p x : Str} {r n : Ref} {fuel : Nat}

theorem Shown.live (linked : t.Linked) (shown : v.Shown t s) : ∃ r, t.Live s r := by
  obtain ⟨d, r, live, under, _⟩ := shown
  exact linked.above live under

theorem Shown.above (shown : v.Shown t s) (under : Under p s) : v.Shown t p := by
  obtain ⟨d, r, live, below, own⟩ := shown
  exact ⟨d, r, live, under.trans below, own⟩

theorem matches_mono (under : Under p s) (found : v.matches p = true) : v.matches s = true := by
  simp only [«matches», List.all_eq_true] at *
  exact fun term member =>
    strings.contains_mono (found term member) (strings.toLower_prefix under.isPrefix)

/-- Something at or below `s` matches. -/
def MatchBelow (v : ClientView) (t : Tree R) (s : Str) : Prop :=
  ∃ d r, t.Live d r ∧ Under s d ∧ v.matchesNode (t.heap r) = true

theorem matchBelow_iff (linked : t.Linked) (live : t.Live s n) :
    v.MatchBelow t s ↔ v.matchesNode (t.heap n) = true ∨
      ∃ seg, '.' ∉ seg ∧ (∃ c, t.Live (child s seg) c) ∧ v.MatchBelow t (child s seg) := by
  constructor
  · rintro ⟨d, r, liveD, under, found⟩
    rcases under.cases with rfl | ⟨seg, dotless, below⟩
    · exact Or.inl (liveD.unique live ▸ found)
    · exact Or.inr ⟨seg, dotless, linked.above liveD below, d, r, liveD, below, found⟩
  · rintro (found | ⟨seg, _, _, d, r, liveD, below, found⟩)
    · exact ⟨s, n, live, .refl s, found⟩
    · exact ⟨d, r, liveD, (Under.child s seg).trans below, found⟩

/-- A branch that matches by its terms makes its children match, so handing the
answer down changes nothing. -/
theorem self_eq (linked : t.Linked) (live : t.Live s n) {above : Bool}
    (inherited : above = true → v.prg = none → v.matches s = true) :
    ((above && v.prg.isNone) || v.matchesNode (t.heap n)) = v.matchesNode (t.heap n) := by
  cases flag : above && v.prg.isNone with
  | false => rfl
  | true =>
    simp only [Bool.and_eq_true, Option.isNone_iff_eq_none] at flag
    simp only [matchesNode, flag.2, linked.subject live, inherited flag.1 flag.2, Bool.true_or,
      Bool.and_true]

theorem walkMatching_spec (rt : Runtime) (linked : t.Linked) (live : t.Live s n)
    (enough : t.height ≤ (t.heap n).depth + fuel) {above : Bool}
    (inherited : above = true → v.prg = none → v.matches s = true) (out : KeySet Str) :
    ((walkMatching rt v t fuel above n out).1 = true ↔ v.MatchBelow t s) ∧
      ∀ x, x ∈ (walkMatching rt v t fuel above n out).2 ↔
        x ∈ out ∨ (Under s x ∧ v.MatchBelow t x) := by
  induction fuel generalizing s n above out with
  | zero =>
    have := Tree.depth_lt_height live
    omega
  | succ fuel ih =>
    have self := self_eq linked live inherited
    have answers : ∀ c ∈ rt.range (t.heap n).children.values, ∀ out,
        ((walkMatching rt v t fuel (v.matchesNode (t.heap n)) c out).1 = true ↔
          ∃ seg, '.' ∉ seg ∧ t.Live (child s seg) c ∧ v.MatchBelow t (child s seg)) ∧
        ∀ x, x ∈ (walkMatching rt v t fuel (v.matchesNode (t.heap n)) c out).2 ↔
          x ∈ out ∨ (∃ seg, '.' ∉ seg ∧ t.Live (child s seg) c ∧ Under (child s seg) x) ∧
            v.MatchBelow t x := by
      intro c member out
      obtain ⟨seg, dotless, liveC⟩ := (Tree.mem_children rt linked live).mp member
      have depth := Tree.child_depth linked live dotless liveC
      have inherits : v.matchesNode (t.heap n) = true → v.prg = none →
          v.matches (child s seg) = true := by
        intro found _
        simp only [matchesNode, Bool.and_eq_true, linked.subject live] at found
        exact matches_mono (.child s seg) found.1
      obtain ⟨shown, members⟩ := ih liveC (by omega) inherits out
      have only : ∀ q : Str → Prop, (∃ seg, '.' ∉ seg ∧ t.Live (child s seg) c ∧ q (child s seg)) ↔
          q (child s seg) := by
        intro q
        constructor
        · rintro ⟨seg', _, liveC', holds⟩
          rwa [linked.inj liveC liveC']
        · exact fun holds => ⟨seg, dotless, liveC, holds⟩
      refine ⟨shown.trans (only (v.MatchBelow t)).symm, fun x => ?_⟩
      rw [members, only (Under · x)]
    obtain ⟨below, members⟩ := fold_walk _ answers false out
    simp only [walkMatching, self]
    generalize (rt.range (t.heap n).children.values).foldl _ (false, out) = level at below members ⊢
    obtain ⟨shown, out'⟩ := level
    simp only [Bool.false_eq_true, false_or] at below
    have whole : (v.matchesNode (t.heap n) || shown) = true ↔ v.MatchBelow t s := by
      rw [matchBelow_iff linked live, Bool.or_eq_true, below]
      refine or_congr_right ⟨?_, ?_⟩
      · rintro ⟨c, _, seg, dotless, liveC, found⟩
        exact ⟨seg, dotless, ⟨c, liveC⟩, found⟩
      · rintro ⟨seg, dotless, ⟨c, liveC⟩, found⟩
        exact ⟨c, (Tree.mem_children rt linked live).mpr ⟨seg, dotless, liveC⟩, seg, dotless, liveC,
          found⟩
    have deeper : ∀ x, x ∈ out' ↔ x ∈ out ∨
        (∃ seg, '.' ∉ seg ∧ Under (child s seg) x) ∧ v.MatchBelow t x := by
      intro x
      rw [members]
      refine or_congr_right ⟨?_, ?_⟩
      · rintro ⟨c, _, ⟨seg, dotless, _, under⟩, found⟩
        exact ⟨⟨seg, dotless, under⟩, found⟩
      · rintro ⟨⟨seg, dotless, under⟩, d, r, liveD, below, found⟩
        obtain ⟨c, liveC⟩ := linked.above liveD (under.trans below)
        exact ⟨c, (Tree.mem_children rt linked live).mpr ⟨seg, dotless, liveC⟩,
          ⟨seg, dotless, liveC, under⟩, d, r, liveD, below, found⟩
    have split : ∀ x, Under s x ↔ x = s ∨ ∃ seg, '.' ∉ seg ∧ Under (child s seg) x := by
      refine fun x => ⟨Under.cases, ?_⟩
      rintro (rfl | ⟨seg, _, under⟩)
      · exact .refl x
      · exact (Under.child s seg).trans under
    cases found : v.matchesNode (t.heap n) || shown with
    | true =>
      refine ⟨by simpa only [↓reduceIte, true_iff] using whole.mp found, fun x => ?_⟩
      have here := whole.mp found
      simp only [↓reduceIte, AList.mem_insert, linked.subject live, deeper, split]
      constructor
      · rintro (rfl | member | ⟨under, found⟩)
        · exact Or.inr ⟨Or.inl rfl, here⟩
        · exact Or.inl member
        · exact Or.inr ⟨Or.inr under, found⟩
      · rintro (member | ⟨rfl | under, found⟩)
        · exact Or.inr (Or.inl member)
        · exact Or.inl rfl
        · exact Or.inr (Or.inr ⟨under, found⟩)
    | false =>
      have none : ¬ v.MatchBelow t s := fun below => by
        rw [whole.mpr below] at found
        contradiction
      refine ⟨by simpa only [Bool.false_eq_true, ↓reduceIte, false_iff] using none, fun x => ?_⟩
      simp only [Bool.false_eq_true, ↓reduceIte, deeper, split]
      refine or_congr_right (and_congr_left fun below => ?_)
      refine ⟨Or.inr, fun under => under.resolve_left fun same => none (same ▸ below)⟩

/-- Every branch from `s` down to `x` is open. -/
def OpenBetween (v : ClientView) (s x : Str) : Prop :=
  ∀ p, Under s p → Under p x → p ≠ x → v.expanded p = true

omit [Tables] in
theorem walkExpanded_spec (rt : Runtime) (linked : t.Linked) (live : t.Live s n)
    (enough : t.height ≤ (t.heap n).depth + fuel) (out : KeySet Str) (x : Str) :
    x ∈ walkExpanded rt v t fuel n out ↔
      x ∈ out ∨ (Under s x ∧ (∃ r, t.Live x r) ∧ v.OpenBetween s x) := by
  induction fuel generalizing s n out x with
  | zero =>
    have := Tree.depth_lt_height live
    omega
  | succ fuel ih =>
    have answers : ∀ c ∈ rt.range (t.heap n).children.values, ∀ out x,
        x ∈ walkExpanded rt v t fuel c out ↔ x ∈ out ∨ ∃ seg, '.' ∉ seg ∧ t.Live (child s seg) c ∧
          Under (child s seg) x ∧ (∃ r, t.Live x r) ∧ v.OpenBetween (child s seg) x := by
      intro c member out x
      obtain ⟨seg, dotless, liveC⟩ := (Tree.mem_children rt linked live).mp member
      have depth := Tree.child_depth linked live dotless liveC
      rw [ih liveC (by omega)]
      refine or_congr_right ⟨fun reached => ⟨seg, dotless, liveC, reached⟩, ?_⟩
      rintro ⟨seg', _, liveC', reached⟩
      rwa [linked.inj liveC liveC']
    simp only [walkExpanded, linked.subject live]
    split
    · rename_i opened
      rw [fold_level _ answers, AList.mem_insert]
      constructor
      · rintro ((rfl | member) | ⟨c, _, seg, dotless, liveC, under, liveX, opens⟩)
        · refine Or.inr ⟨.refl x, ⟨n, live⟩, fun p above below ne => ?_⟩
          exact absurd (above.antisymm below) ne
        · exact Or.inl member
        · refine Or.inr ⟨(Under.child s seg).trans under, liveX, fun p above below ne => ?_⟩
          rcases above.between dotless below under with rfl | inside
          · exact opened
          · exact opens p inside below ne
      · rintro (member | ⟨under, liveX, opens⟩)
        · exact Or.inl (Or.inr member)
        · rcases under.cases with rfl | ⟨seg, dotless, under⟩
          · exact Or.inl (Or.inl rfl)
          · obtain ⟨r, live'⟩ := liveX
            obtain ⟨c, liveC⟩ := linked.above live' under
            refine Or.inr ⟨c, (Tree.mem_children rt linked live).mpr ⟨seg, dotless, liveC⟩, seg,
              dotless, liveC, under, ⟨r, live'⟩, fun p above below ne => ?_⟩
            exact opens p ((Under.child s seg).trans above) below ne
    · rename_i closed
      rw [AList.mem_insert]
      constructor
      · rintro (rfl | member)
        · refine Or.inr ⟨.refl x, ⟨n, live⟩, fun p above below ne => ?_⟩
          exact absurd (above.antisymm below) ne
        · exact Or.inl member
      · rintro (member | ⟨under, _, opens⟩)
        · exact Or.inr member
        · refine Or.inl ?_
          by_contra ne
          exact closed (opens s (.refl s) under (Ne.symm ne))

omit [Tables] in
/-- The walks start at the roots, none of which lies above another. -/
theorem mem_roots (rt : Runtime) (linked : t.Linked) {c : Ref} :
    c ∈ rt.range t.roots.values ↔ ∃ seg, '.' ∉ seg ∧ t.Live seg c := by
  rw [rt.mem_range, Map.mem_values]
  simp only [linked.roots]

omit [Tables] in
/-- Each of them finds something of what is under its root. -/
theorem fold_roots (rt : Runtime) (linked : t.Linked) {walk : Ref → KeySet Str → KeySet Str} {found : Str → Str → Prop}
    (answers : ∀ {seg c}, t.Live seg c → ∀ out x, x ∈ walk c out ↔ x ∈ out ∨ (Under seg x ∧ found seg x)) :
    s ∈ (rt.range t.roots.values).foldl (fun out c => walk c out) ∅ ↔
      ∃ seg c, '.' ∉ seg ∧ t.Live seg c ∧ Under seg s ∧ found seg s := by
  have each : ∀ c ∈ rt.range t.roots.values, ∀ out x,
      x ∈ walk c out ↔ x ∈ out ∨ ∃ seg, '.' ∉ seg ∧ t.Live seg c ∧ Under seg x ∧ found seg x := by
    intro c member out x
    obtain ⟨seg, dotless, live⟩ := (mem_roots rt linked).mp member
    rw [answers live]
    refine or_congr_right ⟨fun reached => ⟨seg, dotless, live, reached⟩, ?_⟩
    rintro ⟨seg', _, live', reached⟩
    rwa [linked.inj live live']
  rw [fold_level _ each]
  constructor
  · rintro (none | ⟨c, _, seg, dotless, live, reached⟩)
    · exact absurd none (AList.notMem_empty _)
    · exact ⟨seg, c, dotless, live, reached⟩
  · rintro ⟨seg, c, dotless, live, reached⟩
    exact Or.inr ⟨c, (mem_roots rt linked).mpr ⟨seg, dotless, live⟩, seg, dotless, live, reached⟩

theorem collect_matching (rt : Runtime) (linked : t.Linked) (mode : v.filtering = true) :
    s ∈ v.collect rt t ↔ v.MatchBelow t s := by
  unfold collect
  rw [mode, if_pos rfl, fold_roots rt linked fun live out => (walkMatching_spec rt linked live (Nat.le_add_left ..) (by simp) out).2]
  constructor
  · rintro ⟨seg, c, _, _, _, found⟩
    exact found
  · rintro ⟨d, r, live, below, found⟩
    obtain ⟨seg, dotless, under⟩ := Under.from_root s
    obtain ⟨c, liveC⟩ := linked.above live (under.trans below)
    exact ⟨seg, c, dotless, liveC, under, d, r, live, below, found⟩

omit [Tables] in
theorem open_from_root {seg : Str} (dotless : '.' ∉ seg) (under : Under seg s) :
    v.OpenBetween seg s ↔ ∀ p, Under p s → p ≠ s → v.expanded p = true := by
  refine ⟨fun opens p above ne => ?_, fun opens p _ => opens p⟩
  rcases under.chain above with below | atop
  · exact opens p below above ne
  · exact opens p (atop.root (parentSubject_root dotless) ▸ .refl seg) above ne

theorem collect_expanded (rt : Runtime) (linked : t.Linked) (mode : v.filtering = false) :
    s ∈ v.collect rt t ↔ (∃ r, t.Live s r) ∧ ∀ p, Under p s → p ≠ s → v.expanded p = true := by
  unfold collect
  rw [mode, if_neg (by simp), fold_roots rt linked fun live => walkExpanded_spec rt linked live (Nat.le_add_left ..)]
  constructor
  · rintro ⟨seg, c, dotless, _, under, live, opens⟩
    exact ⟨live, (open_from_root dotless under).mp opens⟩
  · rintro ⟨⟨r, live⟩, opens⟩
    obtain ⟨seg, dotless, under⟩ := Under.from_root s
    obtain ⟨c, liveC⟩ := linked.above live under
    exact ⟨seg, c, dotless, liveC, under, ⟨r, live⟩, (open_from_root dotless under).mpr opens⟩

/-- `collect` computes what the view shows. -/
theorem mem_collect (rt : Runtime) (linked : t.Linked) : s ∈ v.collect rt t ↔ v.Shown t s := by
  unfold Shown Own
  cases mode : v.filtering with
  | true =>
    rw [collect_matching rt linked mode]
    simp only [↓reduceIte, MatchBelow]
  | false =>
    rw [collect_expanded rt linked mode]
    simp only [Bool.false_eq_true, ↓reduceIte]
    constructor
    · rintro ⟨⟨r, live⟩, opens⟩
      exact ⟨s, r, live, .refl s, opens⟩
    · rintro ⟨d, r, live, below, opens⟩
      refine ⟨linked.above live below, fun p above ne => opens p (above.trans below) ?_⟩
      rintro rfl
      exact ne (above.antisymm below).symm

omit [Tables] in
theorem expandedAbove_spec (linked : t.Linked) (live : t.Live s n)
    (enough : (t.heap n).depth < fuel) :
    v.expandedAbove t fuel (some n) = true ↔ ∀ p, Under p s → v.expanded p = true := by
  induction fuel generalizing s n with
  | zero => omega
  | succ fuel ih =>
    simp only [expandedAbove, Bool.and_eq_true, linked.subject live, linked.parent live]
    cases above : parentSubject s with
    | none =>
      cases fuel <;> simp only [Option.bind_none, expandedAbove, and_true] <;>
        exact ⟨fun opened p under => under.root above ▸ opened, fun opens => opens s (.refl s)⟩
    | some m =>
      obtain ⟨q, liveQ⟩ := linked.closed live above
      have depth := linked.depthChild live above liveQ
      simp only [Option.bind_some, show t.nodes.lookup m = some q from liveQ]
      rw [ih liveQ (by omega)]
      constructor
      · rintro ⟨opened, opens⟩ p under
        rcases under.parent above with rfl | under
        · exact opened
        · exact opens p under
      · exact fun opens => ⟨opens s (.refl s), fun p under => opens p (.of_parent above under)⟩

omit [Tables] in
theorem visibleByExpansion_spec (linked : t.Linked) (live : t.Live s n) :
    v.visibleByExpansion t n = true ↔ ∀ p, Under p s → p ≠ s → v.expanded p = true := by
  simp only [visibleByExpansion, linked.parent live]
  cases above : parentSubject s with
  | none =>
    simp only [Option.bind_none, expandedAbove, true_iff]
    exact fun p under ne => absurd (under.root above) (Ne.symm ne)
  | some m =>
    obtain ⟨q, liveQ⟩ := linked.closed live above
    have depth := linked.depthChild live above liveQ
    simp only [Option.bind_some, show t.nodes.lookup m = some q from liveQ]
    rw [expandedAbove_spec linked liveQ (by omega)]
    refine ⟨fun opens p under ne => opens p ?_, fun opens p under => opens p (.of_parent above under) ?_⟩
    · exact (under.parent above).resolve_left (Ne.symm ne)
    · rintro rfl
      have := parentSubject_length above
      have := under.isPrefix.length_le
      omega

/-- A changed node that stands for itself is visible, and what is visible stands
for itself unless its terms let a sent branch through. -/
theorem visible_of_own (linked : t.Linked) (live : t.Live s n) (own : v.Own t s n) :
    v.visible t n = true := by
  unfold Own filtering at own
  unfold visible
  split
  · rename_i prg
    rwa [if_pos (by rw [prg, Bool.or_true])] at own
  · rename_i prg
    split
    · rename_i terms
      rw [if_pos (by rw [decide_eq_true terms, Bool.true_or])] at own
      simp only [matchesNode, Bool.and_eq_true] at own
      simp only [own.1, ite_self]
    · rename_i terms
      rw [if_neg (by simp [terms, prg])] at own
      exact (visibleByExpansion_spec linked live).mpr own

theorem own_of_visible (linked : t.Linked) (live : t.Live s n) (seen : v.visible t n = true) :
    v.Own t s n ∨ s ∈ v.sent := by
  unfold visible at seen
  unfold Own filtering
  split at seen
  · rename_i prg
    rw [if_pos (by rw [prg, Bool.or_true])]
    exact Or.inl seen
  · rename_i prg
    split at seen
    · rename_i terms
      rw [if_pos (by rw [decide_eq_true terms, Bool.true_or])]
      rw [linked.subject live] at seen
      split at seen
      · exact Or.inr ‹_›
      · refine Or.inl ?_
        have none : v.prg = none := by simpa using prg
        simp only [matchesNode, linked.subject live, seen, none, Bool.and_self]
    · rename_i terms
      rw [if_neg (by simp [terms, prg])]
      exact Or.inl ((visibleByExpansion_spec linked live).mp seen)

end ClientView
end NatsExplorer.Subscription
