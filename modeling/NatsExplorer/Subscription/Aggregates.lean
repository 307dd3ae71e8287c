import NatsExplorer.Library.Transition
import NatsExplorer.Subscription.TreeEffects
import Mathlib.Algebra.BigOperators.Group.Finset.Basic
import Mathlib.Algebra.BigOperators.Ring.Finset
import Mathlib.Algebra.Group.Prod

/-! The aggregates of the tree. A node that is not flagged already shows the sum of its own numbers and its
children's, whatever happened since the last tick, and deepest first a refresh makes it so for the others. -/
namespace NatsExplorer.Subscription
open Go

/-- Messages, their rate, and whether there is one. -/
def weigh {R : Type} (own : Nat × R) : Nat × R × Nat := (own.1, own.2, if 0 < own.1 then 1 else 0)

/-- What a node shows of its subtree. -/
def Node.aggregate {R : Type} (n : Node R) : Nat × R × Nat := (n.total, n.totalRate, n.subjects)

namespace Tree
variable {R : Type} {t t' : Tree R} {s p : Str} {r n : Ref}

section Below

/-- The subjects of a list that lie at or below one. -/
def below (subjects : Finset Str) (s : Str) : Finset Str := subjects.filter (Under s)

theorem mem_below {subjects : Finset Str} : p ∈ below subjects s ↔ p ∈ subjects ∧ Under s p := Finset.mem_filter

theorem mem_nodes : p ∈ t.nodes.keys.toFinset ↔ ∃ r, t.Live p r := by
  rw [List.mem_toFinset]
  exact AList.lookup_isSome.symm.trans Option.isSome_iff_exists

theorem under_child (s seg : Str) (under : Under (child s seg) p) : Under s p := (Under.child s seg).trans under

/-- What is at or below a node: itself, and what is at or below its children. -/
theorem below_children (linked : Linked t) (live : t.Live s r) :
    below t.nodes.keys.toFinset s =
      insert s ((t.heap r).children.keys.toFinset.biUnion fun seg => below t.nodes.keys.toFinset (child s seg)) := by
  ext p
  simp only [mem_below, Finset.mem_insert, Finset.mem_biUnion, mem_nodes]
  constructor
  · rintro ⟨⟨q, there⟩, under⟩
    rcases under.cases with rfl | ⟨seg, dotless, further⟩
    · exact .inl rfl
    · obtain ⟨c, child⟩ := linked.above there further
      have listed := AList.lookup_isSome.mp (Option.isSome_of_eq_some ((linked.children live).mpr ⟨dotless, child⟩))
      exact .inr ⟨seg, List.mem_toFinset.mpr listed, ⟨q, there⟩, further⟩
  · rintro (rfl | ⟨seg, -, there, further⟩)
    · exact ⟨⟨r, live⟩, .refl p⟩
    · exact ⟨there, under_child s seg further⟩

theorem not_under_above (s seg : Str) : ¬ Under (child s seg) s := by
  intro under
  have length := under.isPrefix.length_le
  simp only [child, List.length_append, List.length_cons] at length
  omega

theorem children_disjoint {a b : Str} (first : '.' ∉ a) (second : '.' ∉ b) (other : a ≠ b) (along : Under (child s a) p)
    (beside : Under (child s b) p) : False := by
  have apart {a b : Str} (first : '.' ∉ a) (second : '.' ∉ b) (other : a ≠ b) : ¬ Under (child s a) (child s b) := by
    intro under
    rcases under.parent (parentSubject_child second) with same | above
    · exact other (child_inj second first same).2.symm
    · exact not_under_above s a above
  rcases along.chain beside with under | under
  · exact apart first second other under
  · exact apart second first (Ne.symm other) under

theorem child_live (linked : Linked t) (live : t.Live s r) {c : Ref} (member : c ∈ (t.heap r).children.values) :
    ∃ seg, '.' ∉ seg ∧ t.Live (child s seg) c := by
  obtain ⟨seg, found⟩ := Map.mem_values.mp member
  exact ⟨seg, (linked.children live).mp found⟩

theorem child_deeper (linked : Linked t) (live : t.Live s r) {c : Ref} (member : c ∈ (t.heap r).children.values) :
    (t.heap c).depth = (t.heap r).depth + 1 := by
  obtain ⟨seg, dotless, there⟩ := child_live linked live member
  exact linked.depthChild there (parentSubject_child dotless) live

end Below

section Sums
variable [AddCommMonoid R]

/-- A node shows the sum of its own numbers and its children's. -/
def Local (t : Tree R) (r : Ref) : Prop :=
  (t.heap r).aggregate = weigh (t.heap r).own + ((t.heap r).children.values.map fun c => (t.heap c).aggregate).sum

theorem Local.congr (here : t.Local r) (self : t'.heap r = t.heap r)
    (children : ∀ c ∈ (t.heap r).children.values, t'.heap c = t.heap c) : t'.Local r := by
  unfold Local at here ⊢
  rw [self, here]
  refine congrArg (fun l => _ + List.sum l) (List.map_congr_left fun c member => ?_)
  rw [children c member]

/-- What a step leaves unflagged shows what it showed. -/
theorem Shrunk.local_kept (shrunk : Shrunk t t') (linked : Linked t') (marked : Marked t')
    (sums : ∀ {s r}, t.Live s r → (t.heap r).dirty = false → t.Local r) (live : t'.Live s r)
    (clean : (t'.heap r).dirty = false) : t'.Local r := by
  obtain ⟨before, same⟩ := shrunk.clean live clean
  refine (sums before (same ▸ clean)).congr same fun c member => ?_
  rw [← same] at member
  obtain ⟨seg, dotless, there⟩ := child_live linked live member
  have unflagged : (t'.heap c).dirty = false := by
    cases flag : (t'.heap c).dirty with
    | false => rfl
    | true =>
      rw [marked.upward there (parentSubject_child dotless) live flag] at clean
      cases clean
  exact (shrunk.clean there unflagged).2

/-- The new aggregate of a node, in whatever order its children come. -/
theorem recompute_aggregate (rt : Runtime) (t : Tree R) (n : Ref) :
    ((t.recompute rt n).heap n).aggregate =
      weigh (t.heap n).own + ((t.heap n).children.values.map fun c => (t.heap c).aggregate).sum := by
  have fold {M : Type} [AddCommMonoid M] (f : Node R → M) (start : M) (l : List (Node R)) :
      l.foldl (fun sum c => sum + f c) start = start + (l.map f).sum := by
    induction l generalizing start with
    | nil => exact (add_zero start).symm
    | cons c l ih => rw [List.foldl_cons, ih, List.map_cons, List.sum_cons, add_assoc]
  have parts (l : List Ref) : (l.map fun c => (t.heap c).aggregate).sum =
      (((l.map t.heap).map fun c => c.total).sum, ((l.map t.heap).map fun c => c.totalRate).sum,
        ((l.map t.heap).map fun c => c.subjects).sum) := by
    induction l with
    | nil => rfl
    | cons c l ih =>
      simp only [List.map_cons, List.sum_cons, ih]
      rfl
  rw [← ((rt.range_perm (t.heap n).children.values).map fun c => (t.heap c).aggregate).sum_eq, parts]
  rw [show (t.recompute rt n).heap n = _ from Function.update_self ..]
  simp only [Node.aggregate, fold]
  rfl

/-- Deepest first, no child of a node that is done is recomputed any more. -/
theorem recompute_local (rt : Runtime) (l : List Ref) (linked : Linked t)
    (sorted : l.Pairwise fun a b => (t.heap b).depth ≤ (t.heap a).depth)
    (done : ∀ {s r}, t.Live s r → r ∉ l → t.Local r ∧ ∀ c ∈ (t.heap r).children.values, c ∉ l)
    (live : t.Live s r) : (l.foldl (recompute rt) t).Local r := by
  induction l generalizing t with
  | nil => exact (done live List.not_mem_nil).1
  | cons n l ih =>
    obtain ⟨nodes, roots, next, -, heap, same⟩ := recompute_fold rt [n] t
    simp only [List.foldl_cons, List.foldl_nil, List.mem_singleton] at nodes roots next heap same
    have aggregate := recompute_aggregate rt t n
    have parts (r : Ref) : ((t.recompute rt n).heap r).depth = (t.heap r).depth ∧
        ((t.recompute rt n).heap r).children = (t.heap r).children ∧ ((t.recompute rt n).heap r).own = (t.heap r).own ∧
        ((t.recompute rt n).heap r).subject = (t.heap r).subject ∧ ((t.recompute rt n).heap r).parent = (t.heap r).parent := by
      obtain ⟨_, _, _, heap⟩ := heap r
      rw [heap]
      exact ⟨rfl, rfl, rfl, rfl, rfl⟩
    have linked₁ : Linked (t.recompute rt n) := linked.transport nodes roots next.ge fun s r _ =>
      ⟨(parts r).2.2.2.1, (parts r).2.2.2.2, (parts r).1, (parts r).2.1⟩
    have live₁ {s : Str} {r : Ref} : (t.recompute rt n).Live s r ↔ t.Live s r := by
      rw [Live, Live, nodes]
    rw [List.pairwise_cons] at sorted
    rw [List.foldl_cons]
    refine ih linked₁ ?_ ?_ (live₁.mpr live)
    · refine sorted.2.imp fun {a b} deeper => ?_
      rwa [(parts a).1, (parts b).1]
    · intro s r live absent
      rw [live₁] at live
      rw [(parts r).2.1]
      by_cases here : r = n
      · subst here
        refine ⟨?_, fun c member listed => ?_⟩
        · unfold Local
          rw [aggregate, (parts r).2.2.1, (parts r).2.1]
          refine congrArg (fun l => _ + List.sum l) (List.map_congr_left fun c member => ?_)
          have deeper := child_deeper linked live member
          rw [same c (by rintro rfl; omega)]
        · have deeper := child_deeper linked live member
          have shallower := sorted.1 c listed
          omega
      · have outside : r ∉ n :: l := by
          rw [List.mem_cons, not_or]
          exact ⟨here, absent⟩
        obtain ⟨shown, free⟩ := done live outside
        refine ⟨shown.congr (same r here) fun c member => ?_, fun c member listed => free c member (List.mem_cons_of_mem _ listed)⟩
        refine same c ?_
        rintro rfl
        exact free c member List.mem_cons_self

omit [AddCommMonoid R] in
theorem deeper_weak (t : Tree R) : StrictWeak fun i j => decide ((t.heap i).depth > (t.heap j).depth) where
  asymm a b deeper := by
    simp only [decide_eq_true_eq, decide_eq_false_iff_not] at deeper ⊢
    omega
  trans a b c first second := by
    simp only [decide_eq_false_iff_not] at first second ⊢
    omega

/-- After a refresh every node shows its sum. -/
theorem refresh_local (rt : Runtime) (linked : Linked t) (marked : Marked t)
    (sums : ∀ {s r}, t.Live s r → (t.heap r).dirty = false → t.Local r) (live : t.Live s r) : (t.refresh rt).Local r := by
  have sorted : (t.deepestFirst rt).Pairwise fun a b => (t.heap b).depth ≤ (t.heap a).depth := by
    refine (rt.sortSlice_sorted t.dirty (deeper_weak t)).imp fun {a b} deeper => ?_
    simp only [decide_eq_false_iff_not] at deeper
    omega
  have linked₁ : Linked { t with dirty := t.deepestFirst rt } :=
    linked.transport rfl rfl le_rfl fun _ _ _ => ⟨rfl, rfl, rfl, rfl⟩
  refine recompute_local rt _ linked₁ sorted (fun {s r} live absent => ?_) live
  rw [mem_deepestFirst] at absent
  have clean : (t.heap r).dirty = false := Bool.eq_false_iff.mpr fun flag => absent (marked.listed live flag)
  refine ⟨sums live clean, fun c member listed => ?_⟩
  rw [mem_deepestFirst] at listed
  obtain ⟨seg, dotless, there⟩ := child_live linked live member
  have flag := marked.flagged listed (linked.subject there ▸ there)
  rw [marked.upward there (parentSubject_child dotless) live flag] at clean
  cases clean

/-- Where every node shows its sum, each shows the sum over what is at or below it. -/
theorem local_sum (linked : Linked t) (sums : ∀ {s r}, t.Live s r → t.Local r) (weight : Str → Nat × R × Nat)
    (weighs : ∀ {s r}, t.Live s r → weight s = weigh (t.heap r).own) (live : t.Live s r) :
    (t.heap r).aggregate = ∑ p ∈ below t.nodes.keys.toFinset s, weight p := by
  induction size : (below t.nodes.keys.toFinset s).card using Nat.strongRecOn generalizing s r with
  | ind m ih =>
    have split := below_children linked live
    have dotless {seg : Str} (member : seg ∈ (t.heap r).children.keys.toFinset) :
        '.' ∉ seg ∧ ∃ c, (t.heap r).children.lookup seg = some c ∧ t.Live (child s seg) c := by
      obtain ⟨c, found⟩ := Option.isSome_iff_exists.mp (AList.lookup_isSome.mpr (List.mem_toFinset.mp member))
      obtain ⟨free, there⟩ := (linked.children live).mp found
      exact ⟨free, c, found, there⟩
    have itself : s ∉ (t.heap r).children.keys.toFinset.biUnion fun seg => below t.nodes.keys.toFinset (child s seg) := by
      rw [Finset.mem_biUnion]
      rintro ⟨seg, -, inside⟩
      exact not_under_above s seg (mem_below.mp inside).2
    have apart : Set.PairwiseDisjoint (↑(t.heap r).children.keys.toFinset : Set Str)
        fun seg => below t.nodes.keys.toFinset (child s seg) := by
      intro a first b second other
      refine Finset.disjoint_left.mpr fun p along beside => ?_
      exact children_disjoint (dotless first).1 (dotless second).1 other (mem_below.mp along).2 (mem_below.mp beside).2
    rw [sums live, split, Finset.sum_insert itself, Finset.sum_biUnion apart, ← weighs live]
    refine congrArg (weight s + ·) ?_
    have smaller {seg : Str} (member : seg ∈ (t.heap r).children.keys.toFinset) :
        (below t.nodes.keys.toFinset (child s seg)).card < m := by
      rw [← size]
      refine Finset.card_lt_card ⟨fun p inside => ?_, fun all => ?_⟩
      · obtain ⟨there, under⟩ := mem_below.mp inside
        exact mem_below.mpr ⟨there, under_child s seg under⟩
      · exact not_under_above s seg (mem_below.mp (all (mem_below.mpr ⟨mem_nodes.mpr ⟨r, live⟩, .refl s⟩))).2
    have each (entry : Sigma fun _ : Str => Ref) (member : entry ∈ (t.heap r).children.entries) :
        (t.heap entry.2).aggregate = ∑ p ∈ below t.nodes.keys.toFinset (child s entry.1), weight p := by
      have found : (t.heap r).children.lookup entry.1 = some entry.2 := AList.mem_lookup_iff.mpr member
      have listed := AList.lookup_isSome.mp (Option.isSome_of_eq_some found)
      exact ih _ (smaller (List.mem_toFinset.mpr listed)) ((linked.children live).mp found).2 rfl
    have entries : (t.heap r).children.keys = (t.heap r).children.entries.map Sigma.fst := rfl
    rw [List.sum_toFinset _ (t.heap r).children.keys_nodup, entries, List.map_map, Map.values, List.map_map]
    exact congrArg List.sum (List.map_congr_left each)

end Sums

end Tree
end NatsExplorer.Subscription
