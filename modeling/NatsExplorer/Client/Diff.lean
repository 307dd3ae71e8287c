import NatsExplorer.Go.Text
import NatsExplorer.Library.Subsequence

/-! The line diff of two payloads (`client/src/lib/diff.ts`). -/
namespace NatsExplorer.Client
open Go Subsequence

/-- `MAX_LCS_LINES` -/
def maxLcsLines : ℕ := 600

inductive DiffOp where
  | same (line : Str)
  | add (line : Str)
  | del (line : Str)
  deriving DecidableEq, Repr

/-- `split('\n')` -/
def textLines (text : Str) : List Str := text.splitOn '\n'

/-- What a `Uint16Array` stores. -/
def uint16 (n : ℕ) : ℕ := n % 2 ^ 16

/-- One row of the table, from its right end, above the row that is filled already. -/
def fillRow (x : Str) : List Str → List ℕ → List ℕ
  | [], _ => [0]
  | y :: b, below =>
    let right := fillRow x b below.tail
    uint16 (if x = y then below.tail.headD 0 + 1 else max (below.headD 0) (right.headD 0)) :: right

/-- `dp`, row by row from the last. -/
def table (a b : List Str) : List (List ℕ) :=
  a.foldr (fun x rows => fillRow x b (rows.headD []) :: rows) [List.replicate (b.length + 1) 0]

def entry (dp : List (List ℕ)) (i j : ℕ) : ℕ := (dp.getD i []).getD j 0

/-- The walk over the table from its beginning, with the lines from `i` and from `j` on. -/
def walk (dp : List (List ℕ)) : List Str → List Str → ℕ → ℕ → List DiffOp
  | x :: a, y :: b, i, j =>
    if x = y then .same x :: walk dp a b (i + 1) (j + 1)
    else if entry dp i (j + 1) ≤ entry dp (i + 1) j then .del x :: walk dp a (y :: b) (i + 1) j
    else .add y :: walk dp (x :: a) b i (j + 1)
  | a, b, _, _ => a.map .del ++ b.map .add
termination_by a b => a.length + b.length

/-- The lines at one position. -/
def position (x y : Option Str) : List DiffOp :=
  if x = y then [.same (y.getD [])] else (x.map .del).toList ++ (y.map .add).toList

def diffLines (prev curr : Str) : List DiffOp :=
  let a := textLines prev
  let b := textLines curr
  if maxLcsLines < a.length ∨ maxLcsLines < b.length then
    (List.range (max a.length b.length)).flatMap fun i => position a[i]? b[i]?
  else walk (table a b) a b 0 0

namespace DiffOp

/-- The line of the old text. -/
def old : DiffOp → Option Str
  | same line => some line
  | del line => some line
  | add _ => none

/-- The line of the new text. -/
def new : DiffOp → Option Str
  | same line => some line
  | add line => some line
  | del _ => none

def kept : DiffOp → Option Str
  | same line => some line
  | _ => none

end DiffOp

/-! ### Both texts -/

theorem dels_old (a : List Str) : (a.map DiffOp.del).filterMap DiffOp.old = a := by
  rw [List.filterMap_map]
  exact List.filterMap_some

theorem dels_new (a : List Str) : (a.map DiffOp.del).filterMap DiffOp.new = [] := by
  rw [List.filterMap_map]
  exact List.filterMap_eq_nil_iff.mpr fun _ _ => rfl

theorem adds_old (b : List Str) : (b.map DiffOp.add).filterMap DiffOp.old = [] := by
  rw [List.filterMap_map]
  exact List.filterMap_eq_nil_iff.mpr fun _ _ => rfl

theorem adds_new (b : List Str) : (b.map DiffOp.add).filterMap DiffOp.new = b := by
  rw [List.filterMap_map]
  exact List.filterMap_some

/-- The walk goes along both texts. -/
theorem walk_texts (dp : List (List ℕ)) (a b : List Str) (i j : ℕ) :
    (walk dp a b i j).filterMap DiffOp.old = a ∧ (walk dp a b i j).filterMap DiffOp.new = b := by
  induction a, b, i, j using walk.induct dp with
  | case1 a y b i j ih =>
    rw [walk, if_pos rfl, List.filterMap_cons, List.filterMap_cons, ih.1, ih.2]
    exact ⟨rfl, rfl⟩
  | case2 x a y b i j other le ih =>
    rw [walk, if_neg other, if_pos le, List.filterMap_cons, List.filterMap_cons, ih.1, ih.2]
    exact ⟨rfl, rfl⟩
  | case3 x a y b i j other more ih =>
    rw [walk, if_neg other, if_neg more, List.filterMap_cons, List.filterMap_cons, ih.1, ih.2]
    exact ⟨rfl, rfl⟩
  | case4 a b i j short =>
    rw [walk, List.filterMap_append, dels_old, adds_old, List.append_nil, List.filterMap_append, dels_new, adds_new, List.nil_append]
    · exact ⟨rfl, rfl⟩
    · exact short

/-- Without the lines at the positions past its end, a text. -/
theorem range_lines (a : List Str) (n : ℕ) (whole : a.length ≤ n) : (List.range n).flatMap (fun i => a[i]?.toList) = a := by
  induction a generalizing n with
  | nil => exact List.flatMap_eq_nil_iff.mpr fun _ _ => rfl
  | cons x a ih =>
    obtain ⟨n, rfl⟩ : ∃ m, n = m + 1 := ⟨n - 1, by rw [List.length_cons] at whole; omega⟩
    rw [List.range_succ_eq_map, List.flatMap_cons, List.flatMap_map]
    exact congrArg (x :: ·) (ih n (Nat.le_of_succ_le_succ whole))

theorem position_lines {x y : Option Str} (some_ : x ≠ none ∨ y ≠ none) :
    (position x y).filterMap DiffOp.old = x.toList ∧ (position x y).filterMap DiffOp.new = y.toList := by
  unfold position
  by_cases same : x = y
  · subst same
    obtain ⟨line, rfl⟩ := Option.ne_none_iff_exists'.mp (some_.elim id id)
    rw [if_pos rfl]
    exact ⟨rfl, rfl⟩
  · rw [if_neg same]
    cases x <;> cases y <;> exact ⟨rfl, rfl⟩

theorem positions_lines (a b : List Str) :
    let out := (List.range (max a.length b.length)).flatMap fun i => position a[i]? b[i]?
    out.filterMap DiffOp.old = a ∧ out.filterMap DiffOp.new = b := by
  have some_ (i : ℕ) (inside : i ∈ List.range (max a.length b.length)) : a[i]? ≠ none ∨ b[i]? ≠ none := by
    rw [ne_eq, ne_eq, List.getElem?_eq_none_iff, List.getElem?_eq_none_iff]
    have bound := List.mem_range.mp inside
    omega
  constructor
  · refine Eq.trans ?_ (range_lines a (max a.length b.length) (Nat.le_max_left _ _))
    rw [List.filterMap_flatMap]
    exact List.flatMap_congr fun i inside => (position_lines (some_ i inside)).1
  · refine Eq.trans ?_ (range_lines b (max a.length b.length) (Nat.le_max_right _ _))
    rw [List.filterMap_flatMap]
    exact List.flatMap_congr fun i inside => (position_lines (some_ i inside)).2

theorem diff_lines (prev curr : Str) :
    (diffLines prev curr).filterMap DiffOp.old = textLines prev ∧ (diffLines prev curr).filterMap DiffOp.new = textLines curr := by
  unfold diffLines
  simp only
  split
  · exact positions_lines _ _
  · exact walk_texts _ _ _ _ _

/-! ### The fewest changes -/

theorem fillRow_spec (x : Str) (a b : List Str) (fits : a.length < maxLcsLines) :
    fillRow x b (b.tails.map (longest a)) = b.tails.map (longest (x :: a)) := by
  induction b with
  | nil => simp [fillRow]
  | cons y b ih =>
    rw [List.tails_cons, List.map_cons, fillRow, List.tail_cons, ih, List.map_cons]
    have first (a : List Str) : (b.tails.map (longest a)).headD 0 = longest a b := by
      cases b <;> rfl
    have stored {n : ℕ} (small : n ≤ maxLcsLines) : uint16 n = n := Nat.mod_eq_of_lt (Nat.lt_of_le_of_lt small (by decide))
    have bounded : longest (x :: a) (y :: b) ≤ maxLcsLines :=
      (longest_le_left _ _).trans (by rw [List.length_cons]; omega)
    refine congrArg (· :: _) ?_
    rw [first, first, List.headD_cons]
    by_cases same : x = y
    · subst same
      rw [if_pos rfl, ← longest_same]
      exact stored bounded
    · rw [if_neg same, ← longest_other same]
      exact stored bounded

/-- The table has the lengths of the longest common subsequences of all the ends. -/
theorem table_spec (a b : List Str) (fits : a.length ≤ maxLcsLines) :
    table a b = a.tails.map fun left => b.tails.map (longest left) := by
  unfold table
  induction a with
  | nil =>
    have zeros : b.tails.map (longest ([] : List Str)) = List.replicate (b.length + 1) 0 := by
      rw [← List.length_tails, ← List.map_const']
      exact List.map_congr_left fun right _ => longest_nil_left right
    rw [List.foldr_nil, ← zeros]
    rfl
  | cons x a ih =>
    rw [List.foldr_cons, ih (Nat.le_of_succ_le fits), List.tails_cons, List.map_cons]
    have row : (a.tails.map fun left => b.tails.map (longest left)).headD [] = b.tails.map (longest a) := by
      cases a <;> rfl
    rw [row, fillRow_spec x a b fits]

theorem entry_spec (a b : List Str) (fits : a.length ≤ maxLcsLines) {i j : ℕ} (row : i ≤ a.length) (column : j ≤ b.length) :
    entry (table a b) i j = longest (a.drop i) (b.drop j) := by
  have at_ {B : Type} (l : List Str) (f : List Str → B) (d : B) {k : ℕ} (inside : k ≤ l.length) :
      (l.tails.map f).getD k d = f (l.drop k) := by
    have bound : k < l.tails.length := by rw [List.length_tails]; omega
    rw [List.getD_eq_getElem?_getD, List.getElem?_map, List.getElem?_eq_getElem bound, List.getElem_tails]
    rfl
  rw [entry, table_spec a b fits, at_ a _ [] row, at_ b _ 0 column]

/-- The walk keeps a longest common subsequence. -/
theorem walk_kept (A B : List Str) (fits : A.length ≤ maxLcsLines) (a b : List Str) (i j : ℕ) (left : a = A.drop i)
    (right : b = B.drop j) : ((walk (table A B) a b i j).filterMap DiffOp.kept).length = longest a b := by
  have next {X : List Str} {x : Str} {l : List Str} {k : ℕ} (here : x :: l = X.drop k) : l = X.drop (k + 1) ∧ k + 1 ≤ X.length := by
    refine ⟨by rw [← List.tail_drop, ← here, List.tail_cons], ?_⟩
    have long := congrArg List.length here
    rw [List.length_cons, List.length_drop] at long
    omega
  induction a, b, i, j using walk.induct (table A B) with
  | case1 a y b i j ih =>
    rw [walk, if_pos rfl, List.filterMap_cons, longest_same, ← ih (next left).1 (next right).1]
    rfl
  | case2 x a y b i j other le ih =>
    obtain ⟨left', row⟩ := next left
    obtain ⟨right', column⟩ := next right
    rw [walk, if_neg other, if_pos le, List.filterMap_cons, longest_other other]
    rw [entry_spec A B fits (by omega) column, entry_spec A B fits row (by omega), ← left, ← right, ← left', ← right'] at le
    rw [Nat.max_eq_left le]
    exact ih left' right
  | case3 x a y b i j other more ih =>
    obtain ⟨left', row⟩ := next left
    obtain ⟨right', column⟩ := next right
    rw [walk, if_neg other, if_neg more, List.filterMap_cons, longest_other other]
    rw [entry_spec A B fits (by omega) column, entry_spec A B fits row (by omega), ← left, ← right, ← left', ← right'] at more
    rw [Nat.max_eq_right (Nat.le_of_not_le more)]
    exact ih left right'
  | case4 a b i j short =>
    have none : longest a b = 0 := by
      cases a with
      | nil => exact longest_nil_left b
      | cons x a =>
        cases b with
        | nil => exact longest_nil_right _
        | cons y b => exact absurd rfl (short x a y b rfl)
    rw [walk, none, List.length_eq_zero_iff, List.filterMap_append, List.append_eq_nil_iff]
    · constructor <;> rw [List.filterMap_map] <;> exact List.filterMap_eq_nil_iff.mpr fun _ _ => rfl
    · exact short

/-- The lines that change. -/
def changes (script : List DiffOp) : ℕ := script.countP fun op => op.kept.isNone

theorem kept_sublist (script : List DiffOp) : (script.filterMap DiffOp.kept).Sublist (script.filterMap DiffOp.old) ∧
    (script.filterMap DiffOp.kept).Sublist (script.filterMap DiffOp.new) ∧
    (script.filterMap DiffOp.old).length + (script.filterMap DiffOp.new).length =
      2 * (script.filterMap DiffOp.kept).length + changes script := by
  induction script with
  | nil => exact ⟨.refl _, .refl _, rfl⟩
  | cons op script ih =>
    obtain ⟨left, right, count⟩ := ih
    have more : changes (op :: script) = changes script + if op.kept.isNone then 1 else 0 := List.countP_cons
    rw [List.filterMap_cons, List.filterMap_cons, List.filterMap_cons, more]
    cases op with
    | same line =>
      refine ⟨left.cons_cons line, right.cons_cons line, ?_⟩
      simp only [DiffOp.old, DiffOp.new, DiffOp.kept, List.length_cons, Option.isNone_some, Bool.false_eq_true, if_false]
      omega
    | add line =>
      refine ⟨left, right.cons line, ?_⟩
      simp only [DiffOp.old, DiffOp.new, DiffOp.kept, List.length_cons, Option.isNone_none, if_true]
      omega
    | del line =>
      refine ⟨left.cons line, right, ?_⟩
      simp only [DiffOp.old, DiffOp.new, DiffOp.kept, List.length_cons, Option.isNone_none, if_true]
      omega

/-- A diff rebuilds both texts, and where neither side is too long no script between them changes fewer lines. -/
theorem diff_rebuilds (prev curr : Str) :
    let out := diffLines prev curr
    (out.filterMap DiffOp.old = textLines prev ∧ ['\n'].intercalate (out.filterMap DiffOp.old) = prev) ∧
      (out.filterMap DiffOp.new = textLines curr ∧ ['\n'].intercalate (out.filterMap DiffOp.new) = curr) ∧
      ((textLines prev).length ≤ maxLcsLines → (textLines curr).length ≤ maxLcsLines →
        (∃ zs : List Str, zs.Sublist (textLines prev) ∧ zs.Sublist (textLines curr) ∧ zs.length = (out.filterMap DiffOp.kept).length) ∧
        (∀ zs : List Str, zs.Sublist (textLines prev) → zs.Sublist (textLines curr) → zs.length ≤ (out.filterMap DiffOp.kept).length) ∧
        ∀ script : List DiffOp, script.filterMap DiffOp.old = textLines prev → script.filterMap DiffOp.new = textLines curr →
          changes out ≤ changes script) := by
  intro out
  obtain ⟨old, new⟩ := diff_lines prev curr
  have joined (text : Str) : ['\n'].intercalate (textLines text) = text := List.intercalate_splitOn '\n'
  refine ⟨⟨old, old ▸ joined prev⟩, ⟨new, new ▸ joined curr⟩, fun short short' => ?_⟩
  have kept : (out.filterMap DiffOp.kept).length = longest (textLines prev) (textLines curr) := by
    have small : ¬ (maxLcsLines < (textLines prev).length ∨ maxLcsLines < (textLines curr).length) :=
      not_or.mpr ⟨Nat.not_lt_of_le short, Nat.not_lt_of_le short'⟩
    have walked : out = walk (table (textLines prev) (textLines curr)) (textLines prev) (textLines curr) 0 0 := if_neg small
    rw [walked]
    exact walk_kept _ _ short _ _ 0 0 rfl rfl
  obtain ⟨left, right, count⟩ := kept_sublist out
  rw [old] at left count
  rw [new] at right count
  refine ⟨⟨_, left, right, rfl⟩, fun zs left right => kept ▸ length_le_longest _ _ zs left right, fun script old' new' => ?_⟩
  obtain ⟨left', right', count'⟩ := kept_sublist script
  rw [old'] at left' count'
  rw [new'] at right' count'
  have longer := length_le_longest _ _ _ left' right'
  omega

end NatsExplorer.Client
