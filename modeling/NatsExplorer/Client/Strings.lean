import NatsExplorer.Go.Text
import Mathlib.Algebra.Order.Field.Rat
import Mathlib.Data.Rat.Floor
import Mathlib.Data.List.Basic
import Mathlib.Data.List.Nodup

/-! What browsers make of strings and numbers: strings are sorted by their UTF-16 code units. -/
namespace NatsExplorer.Client
open Go

namespace js

/-- The UTF-16 code units of a string, which strings are sorted by. -/
def codeUnits (s : Str) : List ℕ :=
  s.flatMap fun c => if c.toNat < 0x10000 then [c.toNat] else [0xD800 + (c.toNat - 0x10000) / 0x400, 0xDC00 + (c.toNat - 0x10000) % 0x400]

def sorted (l : List Str) : List Str := l.mergeSort fun a b => decide (codeUnits a ≤ codeUnits b)

theorem codeUnits_cons (c : Char) (s : Str) : codeUnits (c :: s) =
    (if c.toNat < 0x10000 then [c.toNat] else [0xD800 + (c.toNat - 0x10000) / 0x400, 0xDC00 + (c.toNat - 0x10000) % 0x400]) ++ codeUnits s :=
  List.flatMap_cons

/-- Strings of the same code units are the same. -/
theorem codeUnits_inj {a b : Str} (same : codeUnits a = codeUnits b) : a = b := by
  have scalar (c : Char) : c.toNat < 0xD800 ∨ 0xDFFF < c.toNat ∧ c.toNat < 0x110000 := c.valid
  have some_ (c : Char) (s : Str) : codeUnits (c :: s) ≠ [] := by
    rw [codeUnits_cons]
    split <;> exact List.cons_ne_nil _ _
  induction a generalizing b with
  | nil =>
    cases b with
    | nil => rfl
    | cons d b => exact absurd same.symm (some_ d b)
  | cons c a ih =>
    cases b with
    | nil => exact absurd same (some_ c a)
    | cons d b =>
      have first := scalar c
      have second := scalar d
      suffices c.toNat = d.toNat ∧ codeUnits a = codeUnits b by
        rw [ih this.2, Char.toNat_inj.mp this.1]
      rw [codeUnits_cons, codeUnits_cons] at same
      split at same <;> split at same <;> simp only [List.cons_append, List.nil_append, List.cons.injEq] at same
      · exact same
      · omega
      · omega
      · exact ⟨by omega, same.2.2⟩

theorem sorted_perm (l : List Str) : (sorted l).Perm l := List.mergeSort_perm _ _

/-- What is in order is what sorting makes of it. -/
theorem sorted_eq {l ordered : List Str} (same : l.Perm ordered) (inOrder : ordered.Pairwise fun a b => codeUnits a ≤ codeUnits b) :
    sorted l = ordered := by
  have left : (sorted l).Pairwise fun a b => codeUnits a ≤ codeUnits b := by
    have pairs := @List.pairwise_mergeSort _ (fun a b : Str => decide (codeUnits a ≤ codeUnits b))
      (fun _ _ _ first second => decide_eq_true ((of_decide_eq_true first).trans (of_decide_eq_true second)))
      (fun a b => (Bool.or_eq_true _ _).mpr ((le_total (codeUnits a) (codeUnits b)).imp decide_eq_true decide_eq_true)) l
    exact pairs.imp of_decide_eq_true
  exact ((sorted_perm l).trans same).eq_of_pairwise (fun _ _ _ _ first second => codeUnits_inj (first.antisymm second)) left inOrder

instance (priority := high) twoAtLeast : Nat.AtLeastTwo 2 := inferInstance

/-- `toFixed(1)`: the nearest tenth, of two the larger away from zero. -/
def tenths {K : Type} [Field K] [LinearOrder K] [FloorRing K] (x : K) : Str :=
  let n := ⌊|x| * 10 + 1 / 2⌋.toNat
  (if x < 0 then ['-'] else []) ++ (toString (n / 10)).toList ++ '.' :: (toString (n % 10)).toList

/-- Names compared by their first letters that differ. -/
def byLetters (a b : Str) : ℤ :=
  ((a.zip b).map fun (x, y) => (x.toNat : ℤ) - y.toNat).find? (· ≠ 0) |>.getD (a.length - b.length)

end js
end NatsExplorer.Client

/-! JSON documents as a browser has them. What reads and writes their text stays a parameter. -/
namespace NatsExplorer.Client
open Go

inductive Json (N : Type) where
  | null
  | bool (b : Bool)
  | number (n : N)
  | string (s : Str)
  | array (items : List (Json N))
  | object (members : List (Str × Json N))

namespace Json
variable {N : Type}

/-- What keeps its members and their order through a text: no key twice, and none of digits alone, which is moved to the front. -/
inductive Regular : Json N → Prop where
  | null : Regular .null
  | bool (b : Bool) : Regular (.bool b)
  | number (n : N) : Regular (.number n)
  | string (s : Str) : Regular (.string s)
  | array {items : List (Json N)} (each : ∀ v ∈ items, Regular v) : Regular (.array items)
  | object {members : List (Str × Json N)} (once : (members.map Prod.fst).Nodup) (named : ∀ k ∈ members.map Prod.fst, ¬ k.all Char.isDigit)
      (each : ∀ m ∈ members, Regular m.2) : Regular (.object members)

/-- The members an object literal has: those that are not undefined. -/
def defined (members : List (Str × Option (Json N))) : List (Str × Json N) := members.filterMap fun (k, v) => v.map fun v => (k, v)

theorem defined_keys (members : List (Str × Option (Json N))) : ((defined members).map Prod.fst).Sublist (members.map Prod.fst) := by
  induction members with
  | nil => exact .slnil
  | cons m members ih =>
    obtain ⟨k, v⟩ := m
    cases v with
    | none => exact ih.cons k
    | some v => exact ih.cons_cons k

theorem lookup_defined {members : List (Str × Option (Json N))} (once : (members.map Prod.fst).Nodup) (k : Str) :
    (defined members).lookup k = (members.lookup k).join := by
  induction members with
  | nil => rfl
  | cons m members ih =>
    obtain ⟨k', v⟩ := m
    obtain ⟨fresh, later⟩ := List.nodup_cons.mp once
    rw [List.lookup_cons]
    cases v with
    | none =>
      refine (ih later).trans ?_
      cases same : k == k' with
      | false => rfl
      | true =>
        obtain rfl := eq_of_beq same
        have absent : members.lookup k = none := by
          rw [List.lookup_eq_none_iff]
          intro m member
          exact bne_iff_ne.mpr fun same => fresh (List.mem_map.mpr ⟨m, member, same.symm⟩)
        rw [absent]
        rfl
    | some v =>
      change ((k', v) :: defined members).lookup k = _
      rw [List.lookup_cons]
      cases k == k' with
      | false => exact ih later
      | true => rfl

end Json
end NatsExplorer.Client
