import Mathlib.Order.Lattice
import Mathlib.Data.List.Pairwise
import Mathlib.Data.List.Perm.Basic

/-! Lists in descending order of a key, read from the top. The key of the last
thing read says where to go on. -/
namespace Paging
variable {A B K : Type*} {key : A → K} {l l' page : List A} {a : A} {k : K} {c : Option K}

/-- The cursor a page leaves behind. -/
def next (key : A → K) (c : Option K) (page : List A) : Option K :=
  match page.getLast? with
  | none => c
  | some a => some (key a)

theorem next_nil (c : Option K) : next key c [] = c := rfl

theorem next_append (c : Option K) (l : List A) (a : A) : next key c (l ++ [a]) = some (key a) := by
  simp [next]

/-- A page that is not empty leaves the key of one of its own. -/
theorem next_mem (key : A → K) (c : Option K) (filled : page ≠ []) :
    ∃ a ∈ page, next key c page = some (key a) := by
  refine ⟨page.getLast filled, List.getLast_mem filled, ?_⟩
  simp only [next, List.getLast?_eq_getLast_of_ne_nil filled]

theorem next_map (f : B → A) (c : Option K) (l : List B) : next key c (l.map f) = next (fun b => key (f b)) c l := by
  unfold next
  rw [List.getLast?_map]
  cases l.getLast? <;> rfl

variable [LinearOrder K]

def Descending (key : A → K) (l : List A) : Prop := l.Pairwise fun a b => key b < key a

/-- What follows a cursor; without one, everything. -/
def after (key : A → K) (l : List A) : Option K → List A
  | none => l
  | some k => l.filter fun a => key a < k

theorem mem_after : a ∈ after key l c ↔ a ∈ l ∧ ∀ k ∈ c, key a < k := by
  cases c with
  | none => simp [after]
  | some k => simp [after]

theorem after_sublist (key : A → K) (l : List A) (c : Option K) : (after key l c).Sublist l := by
  cases c with
  | none => exact List.Sublist.refl l
  | some k => exact List.filter_sublist

theorem after_filter (keep : A → Bool) (l : List A) (c : Option K) :
    (after key l c).filter keep = after key (l.filter keep) c := by
  cases c with
  | none => rfl
  | some k => simp only [after, List.filter_filter, Bool.and_comm]

theorem after_append (l l' : List A) (c : Option K) :
    after key (l ++ l') c = after key l c ++ after key l' c := by
  cases c with
  | none => rfl
  | some k => exact List.filter_append ..

theorem after_reverse (l : List A) (c : Option K) : after key l.reverse c = (after key l c).reverse := by
  cases c with
  | none => rfl
  | some k => exact List.filter_reverse

theorem after_map (f : B → A) (l : List B) (c : Option K) :
    after key (l.map f) c = (after (fun b => key (f b)) l c).map f := by
  cases c with
  | none => rfl
  | some k => exact List.filter_map

/-- A later cursor makes up for an earlier one. -/
theorem after_after (later : ∀ k' ∈ c, k ≤ k') :
    after key (after key l c) (some k) = after key l (some k) := by
  cases c with
  | none => rfl
  | some k' =>
    simp only [after, List.filter_filter]
    apply List.filter_congr
    intro a _
    rw [← Bool.decide_and, decide_eq_decide]
    exact and_iff_left_of_imp fun below => below.trans_le (later k' rfl)

namespace Descending

theorem nil : Descending key ([] : List A) := List.Pairwise.nil

theorem sublist (sub : l'.Sublist l) (desc : Descending key l) : Descending key l' :=
  List.Pairwise.sublist sub desc

theorem filter (keep : A → Bool) (desc : Descending key l) : Descending key (l.filter keep) :=
  desc.sublist List.filter_sublist

theorem past (desc : Descending key l) (c : Option K) : Descending key (after key l c) :=
  desc.sublist (after_sublist key l c)

theorem append (first : Descending key l) (second : Descending key l')
    (between : ∀ a ∈ l, ∀ b ∈ l', key b < key a) : Descending key (l ++ l') :=
  List.pairwise_append.mpr ⟨first, second, between⟩

theorem map {f : B → A} {l : List B} (desc : Descending (fun b => key (f b)) l) :
    Descending key (l.map f) :=
  List.pairwise_map.mpr desc

/-- A key names one thing of the list. -/
theorem inj (desc : Descending key l) {b : A} (first : a ∈ l) (second : b ∈ l) (same : key a = key b) : a = b := by
  have : Std.Symm fun a b : A => key a ≠ key b := ⟨fun _ _ => Ne.symm⟩
  have distinct : l.Pairwise fun a b => key a ≠ key b := desc.imp fun below => below.ne'
  by_contra apart
  exact distinct.forall first second apart same

/-- The keys of a part say what is in it. -/
theorem filter_inj (desc : Descending key l) {p q : A → Bool}
    (same : (l.filter p).map key = (l.filter q).map key) (member : a ∈ l) : p a = q a := by
  have part {p q : A → Bool} (same : (l.filter p).map key = (l.filter q).map key) (here : p a = true) : q a = true := by
    have listed : key a ∈ (l.filter p).map key := List.mem_map_of_mem (List.mem_filter.mpr ⟨member, here⟩)
    rw [same] at listed
    obtain ⟨b, listed, alike⟩ := List.mem_map.mp listed
    obtain ⟨other, there⟩ := List.mem_filter.mp listed
    exact desc.inj other member alike ▸ there
  exact Bool.eq_iff_iff.mpr ⟨part same, part same.symm⟩

/-- There is one such order, also where only `≤` is asked of it. -/
theorem eq_of_perm (desc : Descending key l) (order : l'.Pairwise fun a b => key b ≤ key a) (perm : l.Perm l') :
    l = l' := by
  refine List.Perm.eq_of_pairwise (fun a b member _ below above => ?_) (desc.imp le_of_lt) order perm
  exact desc.inj member (perm.mem_iff.mpr ‹_›) (le_antisymm above below)

theorem nodup (desc : Descending key l) : l.Nodup := desc.imp fun {_ _} below same => below.ne (congrArg key same).symm

/-- Descending lists of the same things are the same. -/
theorem ext (desc : Descending key l) (desc' : Descending key l') (same : ∀ a, a ∈ l ↔ a ∈ l') : l = l' :=
  desc.eq_of_perm (desc'.imp le_of_lt) ((List.perm_ext_iff_of_nodup desc.nodup desc'.nodup).mpr same)

/-- What a page leaves is what follows its last. -/
theorem after_next (desc : Descending key l) (pre : page <+: after key l c) :
    after key l c = page ++ after key l (next key c page) := by
  obtain ⟨rest, split⟩ := pre
  rcases List.eq_nil_or_concat page with rfl | ⟨init, a, rfl⟩
  · rfl
  · rw [List.concat_eq_append] at split ⊢
    rw [next_append, ← split]
    have order := desc.past c
    rw [← split] at order
    obtain ⟨own, _, across⟩ := List.pairwise_append.mp order
    have last : a ∈ init ++ [a] := List.mem_append_right _ List.mem_cons_self
    have below : ∀ k ∈ c, key a ≤ k := fun k here =>
      ((mem_after.mp (split ▸ List.mem_append_left rest last)).2 k here).le
    rw [← after_after below, ← split, after, List.filter_append]
    have read : (init ++ [a]).filter (fun b => key b < key a) = [] := by
      apply List.filter_eq_nil_iff.mpr
      intro b member
      rw [decide_eq_true_eq, not_lt]
      rcases List.mem_append.mp member with old | same
      · exact ((List.pairwise_append.mp own).2.2 b old a List.mem_cons_self).le
      · exact (congrArg key (List.mem_singleton.mp same)).ge
    have left : rest.filter (fun b => key b < key a) = rest :=
      List.filter_eq_self.mpr fun b member => decide_eq_true (across a last b member)
    rw [read, left, List.nil_append]

end Descending

/-- The key a list leaves is its smallest. -/
theorem Descending.next_le (desc : Descending key l) (c : Option K) (member : a ∈ l) :
    ∃ k, next key c l = some k ∧ k ≤ key a := by
  rcases List.eq_nil_or_concat l with rfl | ⟨init, last, rfl⟩
  · cases member
  · rw [List.concat_eq_append] at desc member ⊢
    refine ⟨key last, next_append c init last, ?_⟩
    rcases List.mem_append.mp member with old | same
    · exact ((List.pairwise_append.mp desc).2.2 a old last List.mem_cons_self).le
    · exact (congrArg key (List.mem_singleton.mp same)).ge

/-- A list that goes on in another one below its last. -/
def continued (key : A → K) (l l' : List A) : List A := l ++ after key l' (next key none l)

theorem Descending.continued (desc : Descending key l) (desc' : Descending key l') :
    Descending key (continued key l l') := by
  refine desc.append (desc'.past _) fun a first b second => ?_
  obtain ⟨k, cursor, least⟩ := desc.next_le none first
  exact ((mem_after.mp second).2 k cursor).trans_le least

theorem mem_continued (desc : Descending key l) :
    a ∈ continued key l l' ↔ a ∈ l ∨ a ∈ l' ∧ ∀ b ∈ l, key a < key b := by
  rw [Paging.continued, List.mem_append, mem_after]
  refine or_congr_right (and_congr_right fun _ => ⟨fun below b member => ?_, fun below k cursor => ?_⟩)
  · obtain ⟨k, cursor, least⟩ := desc.next_le none member
    exact (below k cursor).trans_le least
  · by_cases empty : l = []
    · rw [empty, next_nil] at cursor
      cases cursor
    · obtain ⟨b, member, same⟩ := next_mem key none empty
      rw [same, Option.mem_some_iff] at cursor
      exact cursor ▸ below b member

theorem after_continued (desc : Descending key l) (c : Option K) :
    after key (continued key l l') c = after key l c ++ after key l' (next key c (after key l c)) := by
  rw [Paging.continued, after_append]
  congr 1
  rcases List.eq_nil_or_concat l with rfl | ⟨init, a, rfl⟩
  · cases c <;> rfl
  · rw [List.concat_eq_append] at desc ⊢
    rw [next_append]
    cases c with
    | none => rw [after, after, next_append]
    | some k =>
      by_cases below : key a < k
      · have kept : after key (init ++ [a]) (some k) = after key init (some k) ++ [a] := by
          rw [after_append]
          simp only [after, List.filter_cons, below, decide_true, if_true, List.filter_nil]
        rw [kept, next_append]
        exact List.filter_eq_self.mpr fun b member => decide_eq_true (((mem_after.mp member).2 _ rfl).trans below)
      · have passed : after key (init ++ [a]) (some k) = [] :=
          List.filter_eq_nil_iff.mpr fun b member => by
            obtain ⟨_, cursor, least⟩ := desc.next_le none member
            rw [next_append, Option.some.injEq] at cursor
            rw [decide_eq_true_eq, not_lt]
            exact (not_lt.mp below).trans (cursor ▸ least)
        rw [passed, next_nil]
        exact after_after fun k' same => Option.some.inj same ▸ not_lt.mp below

end Paging
