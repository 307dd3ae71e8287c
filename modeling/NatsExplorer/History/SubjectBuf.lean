import NatsExplorer.Library.Circular

/-! The ring of one subject's messages (`subjectBuf` in
`internal/history/history.go`): pushes and pops move indexes only; it grows by
doubling and shrinks when it is mostly empty. Every cell in use holds an entry. -/
namespace NatsExplorer.History

structure SubjectBuf (α : Type) where
  items : List (Option α)
  head : Nat
  n : Nat
  fits : n ≤ items.length
  inside : 0 < items.length → head < items.length
  filled : ∀ i < n, (items[(head + i) % items.length]?.join).isSome = true

namespace SubjectBuf
variable {α : Type}

def empty : SubjectBuf α where
  items := []
  head := 0
  n := 0
  fits := le_rfl
  inside none := absurd none (Nat.lt_irrefl 0)
  filled _ none := absurd none (Nat.not_lt_zero _)

/-- The i-th entry, oldest first. -/
def entryAt (b : SubjectBuf α) (i : Nat) : Option α :=
  b.items[(b.head + i) % b.items.length]?.join

/-- What the ring holds, oldest first. -/
def toList (b : SubjectBuf α) : List α := (List.range b.n).filterMap b.entryAt

theorem length_toList (b : SubjectBuf α) : b.toList.length = b.n :=
  (Circular.filterMap_range b.n b.filled).1

theorem n_eq {b : SubjectBuf α} {l : List α} (holds : b.toList = l) : b.n = l.length := by
  rw [← b.length_toList, holds]

theorem entryAt_eq (b : SubjectBuf α) {i : Nat} (below : i < b.n) : b.entryAt i = b.toList[i]? :=
  ((Circular.filterMap_range b.n b.filled).2 i below).symm

theorem toList_eq {b : SubjectBuf α} {l : List α} (length : b.n = l.length)
    (each : ∀ i < l.length, b.entryAt i = l[i]?) : b.toList = l := by
  rw [toList, length]
  exact Circular.filterMap_range_eq each

theorem entryAt_resized {l : List α} {capacity i : Nat} (enough : l.length ≤ capacity)
    (below : i < l.length) :
    (l.map some ++ List.replicate (capacity - l.length) none)[(0 + i) %
      (l.map some ++ List.replicate (capacity - l.length) none).length]?.join = l[i]? := by
  have size : (l.map some ++ List.replicate (capacity - l.length) (none : Option α)).length =
      capacity := by
    simp
    omega
  rw [size, Nat.zero_add, Nat.mod_eq_of_lt (by omega), List.getElem?_append_left (by simpa),
    List.getElem?_map]
  cases l[i]? <;> rfl

def resize (b : SubjectBuf α) (capacity : Nat) (enough : b.n ≤ capacity) : SubjectBuf α where
  items := b.toList.map some ++ List.replicate (capacity - b.toList.length) none
  head := 0
  n := b.n
  fits := by
    simp only [List.length_append, List.length_map, List.length_replicate, length_toList]
    omega
  inside := id
  filled i below := by
    rw [← length_toList] at below enough
    rw [entryAt_resized enough below, List.getElem?_eq_getElem below]
    rfl

theorem toList_resize (b : SubjectBuf α) {capacity : Nat} (enough : b.n ≤ capacity) :
    (b.resize capacity enough).toList = b.toList := by
  refine toList_eq b.length_toList.symm fun i below => ?_
  exact entryAt_resized (b.length_toList.symm ▸ enough) below

/-- Room for one more entry. -/
def grow (b : SubjectBuf α) : SubjectBuf α :=
  if b.n = b.items.length then b.resize (max 8 (2 * b.items.length)) (by have := b.fits; omega)
  else b

theorem toList_grow (b : SubjectBuf α) : b.grow.toList = b.toList := by
  unfold grow
  split
  · exact b.toList_resize _
  · rfl

theorem grow_room (b : SubjectBuf α) : b.grow.n < b.grow.items.length := by
  unfold grow
  split
  · rename_i full
    simp only [resize, List.length_append, List.length_map, List.length_replicate, length_toList]
    omega
  · have := b.fits
    omega

theorem slot_set {items : List (Option α)} {head n i : Nat} (a : α) (room : n < items.length)
    (below : i < n + 1) :
    (items.set ((head + n) % items.length) (some a))[(head + i) % items.length]?.join =
      if i = n then some a else items[(head + i) % items.length]?.join := by
  have cell : (head + n) % items.length < items.length := Nat.mod_lt _ (by omega)
  by_cases last : i = n
  · subst last
    rw [List.getElem?_set_self cell, if_pos rfl]
    rfl
  · have apart : (head + n) % items.length ≠ (head + i) % items.length := fun same =>
      last (Circular.cell_inj room (by omega) same).symm
    rw [List.getElem?_set_ne apart, if_neg last]

/-- The entry at the end of a ring with room. -/
def place (b : SubjectBuf α) (a : α) (room : b.n < b.items.length) : SubjectBuf α where
  items := b.items.set ((b.head + b.n) % b.items.length) (some a)
  head := b.head
  n := b.n + 1
  fits := by rwa [List.length_set]
  inside _ := by
    rw [List.length_set]
    exact b.inside (by omega)
  filled i below := by
    rw [List.length_set, slot_set a room below]
    split
    · rfl
    · exact b.filled i (by omega)

def push (b : SubjectBuf α) (a : α) : SubjectBuf α := b.grow.place a b.grow_room

theorem toList_place (b : SubjectBuf α) (a : α) (room : b.n < b.items.length) :
    (b.place a room).toList = b.toList ++ [a] := by
  have size := b.length_toList
  refine toList_eq (by simp [place, size]) fun i below => ?_
  rw [List.length_append, List.length_singleton, size] at below
  simp only [entryAt, place, List.length_set]
  rw [slot_set a room below]
  split
  · rename_i last
    rw [last, List.getElem?_append_right size.le, size, Nat.sub_self]
    rfl
  · rename_i other
    rw [List.getElem?_append_left (by omega)]
    exact b.entryAt_eq (by omega)

theorem toList_push (b : SubjectBuf α) (a : α) : (b.push a).toList = b.toList ++ [a] := by
  rw [push, toList_place, toList_grow]

/-- What is left of the head: its cell is emptied and the head moves on. -/
def advance (b : SubjectBuf α) (some : 0 < b.n) : SubjectBuf α where
  items := b.items.set b.head none
  head := (b.head + 1) % b.items.length
  n := b.n - 1
  fits := by
    rw [List.length_set]
    exact (Nat.sub_le ..).trans b.fits
  inside room := by
    rw [List.length_set] at room ⊢
    exact Nat.mod_lt _ room
  filled i below := by
    have fits := b.fits
    have inside := b.inside (by omega)
    rw [List.length_set, Circular.cell_advance, List.getElem?_set_ne]
    · exact b.filled (i + 1) (by omega)
    · intro same
      have first : (b.head + 0) % b.items.length = (b.head + (i + 1)) % b.items.length := by
        rw [← same, Nat.add_zero, Nat.mod_eq_of_lt inside]
      have := Circular.cell_inj (by omega) (by omega) first
      omega

theorem toList_advance (b : SubjectBuf α) (some : 0 < b.n) : (b.advance some).toList = b.toList.tail := by
  have size := b.length_toList
  refine toList_eq (by simp [advance, size]) fun i below => ?_
  rw [List.length_tail, size] at below
  rw [List.getElem?_tail, ← b.entryAt_eq (by omega)]
  have fits := b.fits
  have inside := b.inside (by omega)
  simp only [entryAt, advance, List.length_set, Circular.cell_advance]
  rw [List.getElem?_set_ne]
  intro same
  have first : (b.head + 0) % b.items.length = (b.head + (i + 1)) % b.items.length := by
    rw [← same, Nat.add_zero, Nat.mod_eq_of_lt inside]
  have := Circular.cell_inj (by omega) (by omega) first
  omega

/-- A ring that is mostly empty gives half of its cells back. -/
def shrink (b : SubjectBuf α) : SubjectBuf α :=
  if sparse : 64 < b.items.length ∧ b.n < b.items.length / 4 then
    b.resize (b.items.length / 2) (by omega)
  else b

theorem toList_shrink (b : SubjectBuf α) : b.shrink.toList = b.toList := by
  unfold shrink
  split
  · exact b.toList_resize _
  · rfl

/-- The oldest entry and what is left; popping an empty ring is a run-time error. -/
def popHead (b : SubjectBuf α) : Option (α × SubjectBuf α) :=
  if some : 0 < b.n then (b.entryAt 0).map fun a => (a, (b.advance some).shrink) else none

theorem popHead_spec {b : SubjectBuf α} {a : α} {rest : List α} (holds : b.toList = a :: rest) :
    ∃ b', b.popHead = some (a, b') ∧ b'.toList = rest := by
  have size := b.length_toList
  rw [holds, List.length_cons] at size
  have some : 0 < b.n := by omega
  refine ⟨(b.advance some).shrink, ?_, ?_⟩
  · rw [popHead, dif_pos some, b.entryAt_eq some, holds]
    rfl
  · rw [toList_shrink, toList_advance, holds, List.tail_cons]

theorem popHead_suffix {b b' : SubjectBuf α} {a : α} (popped : b.popHead = some (a, b')) :
    b'.toList <:+ b.toList := by
  cases holds : b.toList with
  | nil =>
    have none := n_eq holds
    rw [List.length_nil] at none
    rw [popHead, dif_neg (by omega)] at popped
    cases popped
  | cons first rest =>
    obtain ⟨b'', same, left⟩ := popHead_spec holds
    rw [popped] at same
    cases same
    rw [left]
    exact List.suffix_cons _ _

end SubjectBuf

/-- The ring as the code has it, with nothing known of it. -/
structure Ring (α : Type) where
  items : List (Option α)
  head : Nat
  n : Nat
  deriving DecidableEq

namespace Ring
variable {α : Type}

def empty : Ring α := ⟨[], 0, 0⟩

/-- `at`; nothing is a division by zero or an index that is out of range. -/
def entryAt (b : Ring α) (i : Nat) : Option (Option α) :=
  if b.items.length = 0 then none else b.items[(b.head + i) % b.items.length]?

/-- The loop of `resize`, with the number of entries left to copy. -/
def copy (b : Ring α) : Nat → Nat → List (Option α) → Option (List (Option α))
  | 0, _, items => some items
  | left + 1, i, items =>
    match b.entryAt i with
    | none => none
    | some e => if i < items.length then copy b left (i + 1) (items.set i e) else none

def resize (b : Ring α) (capacity : Nat) : Option (Ring α) :=
  (b.copy b.n 0 (List.replicate capacity none)).map fun items => { b with items := items, head := 0 }

def push (b : Ring α) (e : α) : Option (Ring α) :=
  match if b.n = b.items.length then b.resize (max 8 (2 * b.items.length)) else some b with
  | none => none
  | some b =>
    if b.items.length = 0 then none
    else some { b with items := b.items.set ((b.head + b.n) % b.items.length) (some e), n := b.n + 1 }

def popHead (b : Ring α) : Option (Option α × Ring α) :=
  match b.items[b.head]? with
  | none => none
  | some e =>
    let b := { b with items := b.items.set b.head none, head := (b.head + 1) % b.items.length, n := b.n - 1 }
    if b.items.length > 64 ∧ b.n < b.items.length / 4 then (b.resize (b.items.length / 2)).map fun b => (e, b)
    else some (e, b)

end Ring

namespace SubjectBuf
variable {α : Type}

/-- A ring without what is known of it. -/
def ring (b : SubjectBuf α) : Ring α := ⟨b.items, b.head, b.n⟩

/-- Every entry in use can be read. -/
theorem ring_entryAt (b : SubjectBuf α) {i : Nat} (below : i < b.n) : b.ring.entryAt i = some b.toList[i]? := by
  have fits := b.fits
  have cell : (b.head + i) % b.items.length < b.items.length := Nat.mod_lt _ (by omega)
  have some_ : b.ring.items.length ≠ 0 := by
    change b.items.length ≠ 0
    omega
  rw [Ring.entryAt, if_neg some_, ← b.entryAt_eq below, entryAt]
  change b.items[(b.head + i) % b.items.length]? = _
  rw [List.getElem?_eq_getElem cell]
  rfl

/-- The loop copies the entries one after the other. -/
theorem ring_copy (b : SubjectBuf α) {capacity : Nat} (enough : b.n ≤ capacity) {left i : Nat} (whole : i + left = b.n) :
    b.ring.copy left i ((b.toList.take i).map some ++ List.replicate (capacity - i) none) =
      some (b.toList.map some ++ List.replicate (capacity - b.n) none) := by
  have size := b.length_toList
  induction left generalizing i with
  | zero =>
    obtain rfl : i = b.n := whole
    rw [Ring.copy, List.take_of_length_le size.le]
  | succ left ih =>
    have below : i < b.toList.length := by omega
    have length : ((b.toList.take i).map some ++ List.replicate (capacity - i) (none : Option α)).length = capacity := by
      rw [List.length_append, List.length_map, List.length_take, List.length_replicate]
      omega
    have next : ((b.toList.take i).map some ++ List.replicate (capacity - i) none).set i b.toList[i]? =
        (b.toList.take (i + 1)).map some ++ List.replicate (capacity - (i + 1)) none := by
      have front : ((b.toList.take i).map some).length = i := by
        rw [List.length_map, List.length_take]
        omega
      rw [List.set_append_right _ _ front.le, front, Nat.sub_self, List.getElem?_eq_getElem below,
        show capacity - i = capacity - (i + 1) + 1 by omega, List.replicate_succ, List.set_cons_zero, List.take_add_one,
        List.getElem?_eq_getElem below, List.map_append, List.append_assoc]
      rfl
    rw [Ring.copy, b.ring_entryAt (by omega)]
    dsimp only
    rw [if_pos (by omega), next, ih (by omega)]

theorem ring_resize (b : SubjectBuf α) {capacity : Nat} (enough : b.n ≤ capacity) :
    b.ring.resize capacity = some (b.resize capacity enough).ring := by
  have copied := b.ring_copy enough (Nat.zero_add b.n)
  rw [List.take_zero, List.map_nil, List.nil_append, Nat.sub_zero] at copied
  change (b.ring.copy b.n 0 (List.replicate capacity none)).map _ = _
  rw [copied]
  simp only [ring, resize, Option.map_some, length_toList]

/-- A push neither divides by zero nor leaves the ring. -/
theorem ring_push (b : SubjectBuf α) (a : α) : b.ring.push a = some (b.push a).ring := by
  have grown : (if b.n = b.items.length then b.ring.resize (max 8 (2 * b.items.length)) else some b.ring) =
      some b.grow.ring := by
    unfold grow
    split
    · exact b.ring_resize _
    · rfl
  have room := b.grow_room
  have some_ : b.grow.ring.items.length ≠ 0 := by
    change b.grow.items.length ≠ 0
    omega
  unfold Ring.push
  change (match (if b.n = b.items.length then b.ring.resize (max 8 (2 * b.items.length)) else some b.ring) with
    | none => none | some b => _) = _
  rw [grown]
  exact if_neg some_

theorem ring_popHead (b : SubjectBuf α) (some_ : 0 < b.n) :
    b.ring.popHead = b.popHead.map fun popped => (some popped.1, popped.2.ring) := by
  have fits := b.fits
  have inside := b.inside (by omega)
  obtain ⟨a, first⟩ := Option.isSome_iff_exists.mp (b.filled 0 some_)
  have read : b.items[b.head]? = some (some a) := by
    rw [Nat.add_zero, Nat.mod_eq_of_lt inside] at first
    rw [List.getElem?_eq_getElem inside] at first ⊢
    exact congrArg some first
  have shrunk : (if (b.advance some_).items.length > 64 ∧ (b.advance some_).n < (b.advance some_).items.length / 4 then
      ((b.advance some_).ring.resize ((b.advance some_).items.length / 2)).map fun b => (some a, b)
      else some (some a, (b.advance some_).ring)) = some (some a, (b.advance some_).shrink.ring) := by
    unfold shrink
    split
    · rw [ring_resize]
      rfl
    · rfl
  rw [popHead, dif_pos some_, entryAt, first, Option.map_some, Option.map_some, ← shrunk]
  unfold Ring.popHead
  change (match b.items[b.head]? with | none => none | some e => _) = _
  rw [read]
  rfl

end SubjectBuf

/-- A call on the ring; `push` answers nothing. -/
inductive RingCall (α : Type) where
  | push (a : α)
  | popHead
  | at (i : Nat)

namespace Ring
variable {α : Type}

/-- What a call answers and leaves. -/
def step (b : Ring α) : RingCall α → Option (List (Option α) × Ring α)
  | .push a => (b.push a).map fun b => ([], b)
  | .popHead => b.popHead.map fun (e, b) => ([e], b)
  | .at i => (b.entryAt i).map fun e => ([e], b)

def run : Ring α → List (RingCall α) → Option (List (Option α) × Ring α)
  | b, [] => some ([], b)
  | b, call :: calls =>
    match b.step call with
    | none => none
    | some (e, b) => (run b calls).map fun (answers, b) => (e ++ answers, b)

end Ring

/-- The same call on a queue, oldest first; nothing where the call is not allowed. -/
def queueStep {α : Type} (l : List α) : RingCall α → Option (List α × List α)
  | .push a => some ([], l ++ [a])
  | .popHead =>
    match l with
    | [] => none
    | a :: rest => some ([a], rest)
  | .at i => if below : i < l.length then some ([l[i]], l) else none

def queueRun {α : Type} : List α → List (RingCall α) → Option (List α × List α)
  | l, [] => some ([], l)
  | l, call :: calls =>
    match queueStep l call with
    | none => none
    | some (a, l) => (queueRun l calls).map fun (answers, l) => (a ++ answers, l)

/-- The sizes a ring goes through: doubled from 8, and not much larger than what it holds. -/
structure Sized (capacity n : Nat) : Prop where
  doubled : capacity = 0 ∨ ∃ k, capacity = 8 * 2 ^ k
  small : capacity ≤ max 64 (4 * n)

namespace Sized
variable {capacity n : Nat}

theorem more (sized : Sized capacity n) : Sized capacity (n + 1) where
  doubled := sized.doubled
  small := by
    have := sized.small
    omega

theorem grown (sized : Sized capacity n) (full : n = capacity) : Sized (max 8 (2 * capacity)) (n + 1) where
  doubled := by
    right
    rcases sized.doubled with rfl | ⟨k, rfl⟩
    · exact ⟨0, rfl⟩
    · have := Nat.one_le_two_pow (n := k)
      exact ⟨k + 1, by rw [Nat.pow_succ]; omega⟩
  small := by omega

theorem halved (sized : Sized capacity n) (large : 64 < capacity) (sparse : n - 1 < capacity / 4) :
    Sized (capacity / 2) (n - 1) := by
  have small := sized.small
  rcases sized.doubled with rfl | ⟨k, rfl⟩
  · contradiction
  · obtain ⟨j, rfl⟩ : ∃ j, k = j + 4 := by
      refine Nat.exists_eq_add_of_le' (not_lt.mp fun low => ?_)
      have := Nat.pow_le_pow_right (show 0 < 2 by decide) (Nat.le_of_lt_succ low)
      omega
    rw [Nat.pow_add] at *
    exact ⟨Or.inr ⟨j + 3, by rw [Nat.pow_add]; omega⟩, by omega⟩

theorem kept (sized : Sized capacity n) (dense : ¬ (64 < capacity ∧ n - 1 < capacity / 4)) : Sized capacity (n - 1) := by
  refine ⟨sized.doubled, ?_⟩
  have small := sized.small
  rcases sized.doubled with rfl | ⟨k, rfl⟩
  · exact Nat.zero_le _
  · by_cases low : k < 4
    · have := Nat.pow_le_pow_right (show 0 < 2 by decide) (Nat.le_of_lt_succ low)
      omega
    · obtain ⟨j, rfl⟩ := Nat.exists_eq_add_of_le' (not_lt.mp low)
      rw [Nat.pow_add] at *
      omega

end Sized

namespace SubjectBuf
variable {α : Type} {b : SubjectBuf α}

theorem length_resize (b : SubjectBuf α) {capacity : Nat} (enough : b.n ≤ capacity) :
    (b.resize capacity enough).items.length = capacity := by
  simp only [resize, List.length_append, List.length_map, List.length_replicate, length_toList]
  omega

theorem sized_push (sized : Sized b.items.length b.n) (a : α) : Sized (b.push a).items.length (b.push a).n := by
  simp only [push, place, List.length_set]
  unfold grow
  split
  · next full =>
    rw [length_resize]
    exact sized.grown full
  · exact sized.more

theorem sized_popHead (sized : Sized b.items.length b.n) (some_ : 0 < b.n) :
    Sized (b.advance some_).shrink.items.length (b.advance some_).shrink.n := by
  have cells : (b.advance some_).items.length = b.items.length := List.length_set
  have left : (b.advance some_).n = b.n - 1 := rfl
  unfold shrink
  split
  · next sparse =>
    rw [length_resize]
    change Sized ((b.advance some_).items.length / 2) (b.advance some_).n
    rw [cells, left] at *
    exact sized.halved sparse.1 sparse.2
  · next dense =>
    rw [cells, left] at *
    exact sized.kept dense

/-- A ring that holds a queue. -/
def Holds (b : Ring α) (l : List α) : Prop :=
  ∃ sb : SubjectBuf α, sb.ring = b ∧ sb.toList = l ∧ Sized sb.items.length sb.n

theorem holds_empty : Holds (Ring.empty : Ring α) [] := ⟨empty, rfl, rfl, ⟨Or.inl rfl, Nat.zero_le _⟩⟩

/-- A call the queue allows succeeds on the ring, answers the same and leaves the same. -/
theorem Holds.step {b : Ring α} {l l' : List α} {call : RingCall α} {answer : List α} (holds : Holds b l)
    (queue : queueStep l call = some (answer, l')) : ∃ b', b.step call = some (answer.map some, b') ∧ Holds b' l' := by
  obtain ⟨sb, rfl, rfl, sized⟩ := holds
  cases call with
  | push a =>
    simp only [queueStep, Option.some.injEq, Prod.mk.injEq] at queue
    obtain ⟨rfl, rfl⟩ := queue
    refine ⟨(sb.push a).ring, ?_, sb.push a, rfl, sb.toList_push a, sized_push sized a⟩
    rw [Ring.step, ring_push]
    rfl
  | popHead =>
    cases contents : sb.toList with
    | nil =>
      rw [contents] at queue
      contradiction
    | cons a rest =>
      rw [contents] at queue
      simp only [queueStep, Option.some.injEq, Prod.mk.injEq] at queue
      obtain ⟨rfl, rfl⟩ := queue
      have some_ : 0 < sb.n := by
        rw [n_eq contents]
        exact Nat.succ_pos _
      obtain ⟨sb', popped, left⟩ := popHead_spec contents
      refine ⟨sb'.ring, ?_, sb', rfl, left, ?_⟩
      · rw [Ring.step, ring_popHead sb some_, popped]
        rfl
      · rw [popHead, dif_pos some_, Option.map_eq_some_iff] at popped
        obtain ⟨_, -, same⟩ := popped
        rw [← (Prod.mk.inj same).2]
        exact sized_popHead sized some_
  | «at» i =>
    simp only [queueStep] at queue
    split at queue
    · next below =>
      simp only [Option.some.injEq, Prod.mk.injEq] at queue
      obtain ⟨rfl, rfl⟩ := queue
      refine ⟨sb.ring, ?_, sb, rfl, rfl, sized⟩
      rw [Ring.step, sb.ring_entryAt (sb.length_toList ▸ below), List.getElem?_eq_getElem below]
      rfl
    · contradiction

/-- So does every run. -/
theorem Holds.run {b : Ring α} {l l' : List α} {calls : List (RingCall α)} {answers : List α} (holds : Holds b l)
    (queue : queueRun l calls = some (answers, l')) : ∃ b', b.run calls = some (answers.map some, b') ∧ Holds b' l' := by
  induction calls generalizing b l answers with
  | nil =>
    simp only [queueRun, Option.some.injEq, Prod.mk.injEq] at queue
    obtain ⟨rfl, rfl⟩ := queue
    exact ⟨b, rfl, holds⟩
  | cons call calls ih =>
    rw [queueRun] at queue
    cases step : queueStep l call with
    | none =>
      rw [step] at queue
      contradiction
    | some first =>
      rw [step] at queue
      obtain ⟨⟨later, left⟩, rest, same⟩ := Option.map_eq_some_iff.mp queue
      obtain ⟨rfl, rfl⟩ := Prod.mk.inj same
      obtain ⟨b', called, holds'⟩ := holds.step step
      obtain ⟨b'', ran, holds''⟩ := ih holds' rest
      refine ⟨b'', ?_, holds''⟩
      rw [Ring.run, called]
      simp only [ran, Option.map_some, List.map_append]

end SubjectBuf

/-- From the empty ring, every run of calls that a queue allows answers what the queue answers and leaves what it holds;
nothing divides by zero or is out of range, and the ring is as large as it has to be and not much larger. -/
theorem subjectBuf_queue {α : Type} (calls : List (RingCall α)) {answers l : List α}
    (queue : queueRun [] calls = some (answers, l)) :
    ∃ b, Ring.empty.run calls = some (answers.map some, b) ∧ b.n = l.length ∧
      (∀ i < l.length, b.entryAt i = some l[i]?) ∧ b.n ≤ b.items.length ∧ b.items.length ≤ max 64 (4 * b.n) := by
  obtain ⟨_, ran, sb, rfl, rfl, sized⟩ := SubjectBuf.holds_empty.run queue
  refine ⟨sb.ring, ran, sb.length_toList.symm, fun i below => ?_, sb.fits, sized.small⟩
  exact sb.ring_entryAt (sb.length_toList ▸ below)

/-- A run over the first growth. -/
theorem subjectBuf_queue_nine :
    let calls := (List.range 9).map RingCall.push ++ [.popHead, .at 7]
    queueRun [] calls = some ([0, 8], [1, 2, 3, 4, 5, 6, 7, 8]) ∧
      ∃ b, Ring.empty.run calls = some ([some 0, some 8], b) ∧ b.n = 8 ∧
        (∀ i < 8, b.entryAt i = some [1, 2, 3, 4, 5, 6, 7, 8][i]?) ∧ b.n ≤ b.items.length ∧ b.items.length ≤ max 64 (4 * b.n) := by
  intro calls
  have queue : queueRun [] calls = some ([0, 8], [1, 2, 3, 4, 5, 6, 7, 8]) := by decide
  exact ⟨queue, subjectBuf_queue calls queue⟩

end NatsExplorer.History
