import Mathlib.Data.List.GetD
import Mathlib.Data.Prod.Lex
import Mathlib.Data.Sum.Order
import Mathlib.Logic.Relation
import Mathlib.Order.PiLex
import NatsExplorer.Connection.Saved
import NatsExplorer.Update.Release

/-! The order of versions, on the server (`internal/update/update.go`) and in the browser (`lib/updateCheck.ts`), against
that of semantic versions. -/
namespace NatsExplorer.Update
open Go

section Order
variable {N : Type*} [Zero N] [LinearOrder N]

/-- The loop of both sides, over their own numbers. -/
def newerBy (a b : List N) : Bool :=
  match (List.range (max a.length b.length)).find? fun i => a.getD i 0 ≠ b.getD i 0 with
  | some i => b.getD i 0 < a.getD i 0
  | none => false

/-- The numbers of a version, zero where there is none. -/
def padded (l : List N) : Lex (ℕ → N) := toLex fun i => l.getD i 0

theorem padded_lt (a b : List N) :
    padded b < padded a ↔ ∃ i, (∀ j < i, b.getD j 0 = a.getD j 0) ∧ b.getD i 0 < a.getD i 0 := Iff.rfl

theorem newerBy_iff (a b : List N) : newerBy a b = true ↔ padded b < padded a := by
  rw [padded_lt, newerBy]
  constructor
  · intro newer
    split at newer
    · next i found =>
      obtain ⟨-, -, before⟩ := List.find?_range_eq_some.mp found
      refine ⟨i, fun j below => ?_, of_decide_eq_true newer⟩
      have := before j below
      simpa [eq_comm] using this
    · contradiction
  · rintro ⟨i, before, below⟩
    have inside : i < max a.length b.length := by
      by_contra outside
      rw [List.getD_eq_default _ _ (by omega), List.getD_eq_default _ _ (by omega)] at below
      exact lt_irrefl _ below
    have found : (List.range (max a.length b.length)).find? (fun i => a.getD i 0 ≠ b.getD i 0) = some i := by
      refine List.find?_range_eq_some.mpr ⟨?_, List.mem_range.mpr inside, fun j early => ?_⟩
      · simpa using below.ne'
      · simpa using (before j early).symm
    rw [found]
    exact decide_eq_true below

theorem newerBy_cons (x y : N) (a b : List N) :
    newerBy (x :: a) (y :: b) = if x = y then newerBy a b else decide (y < x) := by
  rw [Bool.eq_iff_iff, newerBy_iff, padded_lt]
  split
  · next same =>
    subst same
    rw [newerBy_iff, padded_lt]
    constructor
    · rintro ⟨i, before, below⟩
      cases i with
      | zero => exact absurd below (lt_irrefl x)
      | succ i => exact ⟨i, fun j early => before (j + 1) (Nat.succ_lt_succ early), below⟩
    · rintro ⟨i, before, below⟩
      refine ⟨i + 1, fun j early => ?_, below⟩
      cases j with
      | zero => rfl
      | succ j => exact before j (Nat.lt_of_succ_lt_succ early)
  · next differ =>
    rw [decide_eq_true_eq]
    constructor
    · rintro ⟨i, before, below⟩
      cases i with
      | zero => exact below
      | succ i => exact absurd (before 0 (Nat.succ_pos i)).symm differ
    · exact fun below => ⟨0, fun j early => absurd early (Nat.not_lt_zero j), below⟩

/-- A list that follows another one, and then ends with a number of its own. -/
theorem newerBy_raised {l w : List N} {i : ℕ} (before : ∀ j < i, l.getD j 0 = w.getD j 0) (after : ∀ j, i < j → l.getD j 0 = 0)
    (positive : ∀ j, 0 ≤ w.getD j 0) : newerBy l w = true ↔ w.getD i 0 < l.getD i 0 := by
  rw [newerBy_iff, padded_lt]
  constructor
  · rintro ⟨k, -, below⟩
    rcases Nat.lt_trichotomy k i with early | rfl | late
    · rw [before k early] at below
      exact absurd below (lt_irrefl _)
    · exact below
    · rw [after k late] at below
      exact absurd below (positive k).not_gt
  · exact fun below => ⟨i, fun j early => (before j early).symm, below⟩

end Order

theorem newerParts_eq (a b : List ℕ) : newerParts a b = newerBy a b := rfl

theorem newer_iff (a b : Str) : newer a b = true ↔ padded (versionParts b) < padded (versionParts a) := by
  rw [newer, newerParts_eq, newerBy_iff]

/-- What a numeral is as a number of the browser: nothing where it is not finite. -/
structure Doubles where
  nearest : ℕ → Option ℕ
  exact : ∀ n ≤ 2 ^ 53, nearest n = some n

def isSeparator (c : Char) : Bool := c = '.' || c = '-'

/-! ### Reading -/

/-- `versionParts` without the leading v. -/
def numbersOf (v : Str) : List ℕ := ((v.splitOnP isSeparator).filter (· ≠ [])).map fun p => atoi (p.takeWhile isDigit)

theorem versionParts_eq (v : Str) : versionParts v = numbersOf (strings.trimPrefix v ['v']) := rfl

def cut (n : ℕ) : ℕ := min n (2 ^ 63 - 1)

theorem digits_all (n : ℕ) : ∀ c ∈ Nat.toDigits 10 n, isDigit c = true := by
  intro c member
  have digit := Nat.isDigit_of_mem_toDigits (by decide) (le_refl 10) member
  simp only [Char.isDigit, Bool.and_eq_true, decide_eq_true_eq] at digit
  simp only [isDigit, Bool.and_eq_true, decide_eq_true_eq]
  exact digit

theorem digits_whole (n : ℕ) : (Nat.toDigits 10 n).takeWhile isDigit = Nat.toDigits 10 n :=
  List.takeWhile_eq_self_iff.mpr (digits_all n)

theorem digit_range {c : Char} (digit : isDigit c = true) : 48 ≤ c.toNat ∧ c.toNat ≤ 57 := by
  simp only [isDigit, Bool.and_eq_true, decide_eq_true_eq] at digit
  exact digit

theorem digits_apart (n : ℕ) : ∀ c ∈ Nat.toDigits 10 n, isSeparator c = false := by
  intro c member
  have range := digit_range (digits_all n c member)
  simp only [isSeparator, Bool.or_eq_false_iff, decide_eq_false_iff_not]
  constructor
  · rintro rfl
    exact absurd range (by decide)
  · rintro rfl
    exact absurd range (by decide)

theorem atoi_digits (n : ℕ) : atoi (Nat.toDigits 10 n) = cut n := by
  have value : (Nat.toDigits 10 n).foldl (fun n c => 10 * n + (c.toNat - '0'.toNat)) 0 = n := Nat.ofDigitChars_ten_toDigits
  rw [atoi, value, cut]

/-- A number up to a separator is the first. -/
theorem numbersOf_cons (n : ℕ) {c : Char} (separator : isSeparator c = true) (rest : Str) :
    numbersOf (Nat.toDigits 10 n ++ c :: rest) = cut n :: numbersOf rest := by
  have some_ : Nat.toDigits 10 n ≠ [] := Nat.toDigits_ne_nil
  rw [numbersOf, List.splitOnP_append_cons_of_forall_mem (digits_apart n) c separator, List.filter_cons,
    if_pos (decide_eq_true some_), List.map_cons, digits_whole, atoi_digits]
  rfl

theorem numbersOf_single (n : ℕ) : numbersOf (Nat.toDigits 10 n) = [cut n] := by
  have some_ : Nat.toDigits 10 n ≠ [] := Nat.toDigits_ne_nil
  rw [numbersOf, List.splitOnP_eq_singleton (digits_apart n), List.filter_cons, if_pos (decide_eq_true some_), List.filter_nil,
    List.map_singleton, digits_whole, atoi_digits]

/-- Parts have no separators. -/
theorem splitOnP_apart {A : Type*} (p : A → Bool) (l : List A) : ∀ part ∈ l.splitOnP p, ∀ a ∈ part, p a = false := by
  induction l with
  | nil => simp
  | cons a l ih =>
    rw [List.splitOnP_cons_eq_if_modifyHead]
    split
    · intro part member
      rcases List.mem_cons.mp member with rfl | later
      · simp
      · exact ih part later
    · next other =>
      obtain ⟨first, rest, split⟩ := List.exists_cons_of_ne_nil (List.splitOnP_ne_nil p l)
      rw [split] at ih ⊢
      intro part member
      rcases List.mem_cons.mp member with rfl | later
      · intro b inside
        rcases List.mem_cons.mp inside with rfl | inside
        · exact Bool.eq_false_iff.mpr other
        · exact ih first List.mem_cons_self b inside
      · exact ih part (List.mem_cons_of_mem _ later)

theorem trimPrefix_v (s : Str) : strings.trimPrefix ('v' :: s) ['v'] = s := by
  have starts : ['v'] <+: 'v' :: s := ⟨s, rfl⟩
  simp [strings.trimPrefix, strings.cutPrefix, strings.hasPrefix, starts]

/-- A version that starts with a number has no v. -/
theorem trimPrefix_digits (n : ℕ) (rest : Str) :
    strings.trimPrefix (Nat.toDigits 10 n ++ rest) ['v'] = Nat.toDigits 10 n ++ rest := by
  obtain ⟨c, digits, split⟩ := List.exists_cons_of_ne_nil (Nat.toDigits_ne_nil (n := n) (b := 10))
  have range := digit_range (digits_all n c (split ▸ List.mem_cons_self))
  have other : ¬ ['v'] <+: c :: (digits ++ rest) := by
    rw [List.cons_prefix_cons]
    rintro ⟨rfl, -⟩
    exact absurd range (by decide)
  rw [split, List.cons_append, strings.trimPrefix, strings.cutPrefix, strings.hasPrefix, decide_eq_false other]
  rfl

/-- Numbers with dots between them. -/
def plain (l : List ℕ) : Str := List.intercalate ['.'] (l.map (Nat.toDigits 10))

theorem plain_cons (n m : ℕ) (l : List ℕ) : plain (n :: m :: l) = Nat.toDigits 10 n ++ '.' :: plain (m :: l) := by
  simp [plain, List.intercalate]

theorem plain_starts (n : ℕ) (l : List ℕ) : ∃ rest, plain (n :: l) = Nat.toDigits 10 n ++ rest := by
  cases l with
  | nil => exact ⟨[], by simp [plain, List.intercalate]⟩
  | cons m l => exact ⟨_, plain_cons n m l⟩

theorem plain_single (n : ℕ) : plain [n] = Nat.toDigits 10 n := by simp [plain, List.intercalate]

theorem numbersOf_plain (n : ℕ) (l : List ℕ) : numbersOf (plain (n :: l)) = (n :: l).map cut := by
  induction l generalizing n with
  | nil => rw [plain_single, numbersOf_single, List.map_singleton]
  | cons m l ih => rw [plain_cons, numbersOf_cons n rfl, ih m, List.map_cons (l := m :: l)]

theorem versionParts_plain (l : List ℕ) : versionParts (plain l) = l.map cut := by
  cases l with
  | nil => rfl
  | cons n l =>
    obtain ⟨rest, starts⟩ := plain_starts n l
    rw [versionParts_eq, starts, trimPrefix_digits, ← starts, numbersOf_plain]

section Browser
variable (D : Doubles)

/-- A sign is read off a text. -/
def signed : Str → Bool × Str
  | '-' :: rest => (true, rest)
  | '+' :: rest => (false, rest)
  | rest => (false, rest)

/-- `Number.parseInt(p, 10)`; nothing is `NaN`, or what is not finite. -/
def parseInt10 (p : Str) : Option Int :=
  let (negative, p) := signed (p.dropWhile Connection.trimmed)
  let digits := p.takeWhile isDigit
  if digits = [] then none
  else (D.nearest (Nat.ofDigitChars 10 digits 0)).map fun n => if negative then -(n : Int) else n

/-- `parse` without the leading v. -/
def partsOf (v : Str) : List Int := (v.splitOnP isSeparator).map fun p => (parseInt10 D p).getD 0

/-- `parse` of `isNewer` -/
def parse (v : Str) : List Int := partsOf D (strings.trimPrefix v ['v'])

def isNewer (candidate current : Str) : Bool := newerBy (parse D candidate) (parse D current)

/-- Both sides read the same numbers. -/
def ReadAlike (v : Str) : Prop := ∀ i, ((versionParts v).getD i 0 : Int) = (parse D v).getD i 0

/-- Strings that both sides read alike they order alike. -/
theorem newer_eq {a b : Str} (alike : ReadAlike D a) (alike' : ReadAlike D b) : newer a b = isNewer D a b := by
  rw [Bool.eq_iff_iff, newer_iff, isNewer, newerBy_iff, padded_lt, padded_lt]
  simp only [← alike _, ← alike' _, Int.natCast_inj, Int.ofNat_lt]

theorem parseInt10_digits (n : ℕ) : parseInt10 D (Nat.toDigits 10 n) = (D.nearest n).map fun n => (n : Int) := by
  obtain ⟨c, digits, split⟩ := List.exists_cons_of_ne_nil (Nat.toDigits_ne_nil (n := n) (b := 10))
  have range := digit_range (digits_all n c (split ▸ List.mem_cons_self))
  have solid : Connection.trimmed c = false := by
    simp only [Connection.trimmed, Bool.or_eq_false_iff, Bool.and_eq_false_iff, decide_eq_false_iff_not]
    omega
  have minus : c ≠ '-' := by
    rintro rfl
    exact absurd range (by decide)
  have plus : c ≠ '+' := by
    rintro rfl
    exact absurd range (by decide)
  have whole := digits_whole n
  have value := Nat.ofDigitChars_ten_toDigits (n := n)
  rw [split] at whole value ⊢
  have unsigned : signed (c :: digits) = (false, c :: digits) := by
    simp [signed, minus, plus]
  rw [parseInt10, List.dropWhile_cons, solid, if_neg Bool.false_ne_true, unsigned]
  simp [whole, value]

theorem partsOf_cons (n : ℕ) {c : Char} (separator : isSeparator c = true) (rest : Str) :
    partsOf D (Nat.toDigits 10 n ++ c :: rest) = (((D.nearest n).getD 0 : ℕ) : Int) :: partsOf D rest := by
  rw [partsOf, List.splitOnP_append_cons_of_forall_mem (digits_apart n) c separator, List.map_cons, parseInt10_digits]
  cases D.nearest n <;> rfl

theorem partsOf_single (n : ℕ) : partsOf D (Nat.toDigits 10 n) = [(((D.nearest n).getD 0 : ℕ) : Int)] := by
  rw [partsOf, List.splitOnP_eq_singleton (digits_apart n), List.map_singleton, parseInt10_digits]
  cases D.nearest n <;> rfl

theorem partsOf_plain (n : ℕ) (l : List ℕ) : partsOf D (plain (n :: l)) = (n :: l).map fun n => (((D.nearest n).getD 0 : ℕ) : Int) := by
  induction l generalizing n with
  | nil => rw [plain_single, partsOf_single, List.map_singleton]
  | cons m l ih => rw [plain_cons, partsOf_cons D n rfl, ih m, List.map_cons (l := m :: l)]

theorem parse_plain (n : ℕ) (l : List ℕ) :
    parse D (plain (n :: l)) = (n :: l).map fun n => (((D.nearest n).getD 0 : ℕ) : Int) := by
  obtain ⟨rest, starts⟩ := plain_starts n l
  rw [parse, starts, trimPrefix_digits, ← starts, partsOf_plain]

/-- Small numbers with dots between them are read alike. -/
theorem plain_read {l : List ℕ} (small : ∀ n ∈ l, n ≤ 2 ^ 53) (i : ℕ) :
    (versionParts (plain l)).getD i 0 = l.getD i 0 ∧ (parse D (plain l)).getD i 0 = (l.getD i 0 : ℕ) := by
  constructor
  · have whole : l.map cut = l := by
      refine (List.map_congr_left fun n member => ?_).trans (List.map_id l)
      have := small n member
      exact min_eq_left (by omega)
    rw [versionParts_plain, whole]
  · cases l with
    | nil => cases i <;> rfl
    | cons n l =>
      have whole : ((n :: l).map fun n => (((D.nearest n).getD 0 : ℕ) : Int)) = (n :: l).map Nat.cast := by
        refine List.map_congr_left fun m member => ?_
        rw [D.exact m (small m member), Option.getD_some]
      rw [parse_plain, whole]
      exact List.getD_map (n :: l) 0 fun n : ℕ => (n : Int)

theorem plain_alike {l : List ℕ} (small : ∀ n ∈ l, n ≤ 2 ^ 53) : ReadAlike D (plain l) := fun i => by
  rw [(plain_read D small i).1, (plain_read D small i).2]

theorem signed_positive {p : Str} (apart : ∀ c ∈ p, c ≠ '-') : (signed p).1 = false := by
  unfold signed
  split
  · exact absurd rfl (apart '-' List.mem_cons_self)
  · rfl
  · rfl

theorem parseInt10_nonneg {p : Str} (apart : ∀ c ∈ p, isSeparator c = false) : 0 ≤ (parseInt10 D p).getD 0 := by
  have positive : (signed (p.dropWhile Connection.trimmed)).1 = false := by
    refine signed_positive fun c member => ?_
    rintro rfl
    have := apart '-' ((List.dropWhile_suffix _).subset member)
    contradiction
  unfold parseInt10
  simp only [positive]
  split
  · exact le_refl (0 : Int)
  · cases D.nearest _ with
    | none => exact le_refl (0 : Int)
    | some n => exact Int.natCast_nonneg n

/-- The browser reads no negative number. -/
theorem parse_nonneg (v : Str) (i : ℕ) : 0 ≤ (parse D v).getD i 0 := by
  by_cases inside : i < (parse D v).length
  · rw [List.getD_eq_getElem _ _ inside]
    obtain ⟨p, part, same⟩ := List.mem_map.mp (List.getElem_mem inside)
    rw [← same]
    exact parseInt10_nonneg D (splitOnP_apart _ _ p part)
  · exact (List.getD_eq_default _ _ (by omega)).ge

/-- Wherever the two readings of a string differ, one of them is small. -/
def Small (v : Str) : Prop := ∀ i, (versionParts v).getD i 0 < 2 ^ 53 ∨ (parse D v).getD i 0 < 2 ^ 53

/-- The two sides say the same of a string and a plain version. -/
def Agrees (v : Str) (l : List ℕ) : Prop :=
  newer v (plain l) = isNewer D v (plain l) ∧ newer (plain l) v = isNewer D (plain l) v

/-- The first numbers of a version, and one for the next. -/
def raised (v : Str) (i n : ℕ) : List ℕ := (List.range i).map (fun j => (versionParts v).getD j 0) ++ [n]

theorem raised_before (v : Str) {i j : ℕ} (n : ℕ) (below : j < i) : (raised v i n).getD j 0 = (versionParts v).getD j 0 := by
  have inside : j < ((List.range i).map fun j => (versionParts v).getD j 0).length := by simpa using below
  rw [raised, List.getD_append _ _ _ _ inside, List.getD_eq_getElem _ _ inside]
  simp

theorem raised_at (v : Str) (i n : ℕ) : (raised v i n).getD i 0 = n := by
  have size : ((List.range i).map fun j => (versionParts v).getD j 0).length = i := by simp
  rw [raised, List.getD_append_right _ _ _ _ size.le, size, Nat.sub_self]
  rfl

theorem raised_after (v : Str) {i j : ℕ} (n : ℕ) (above : i < j) : (raised v i n).getD j 0 = 0 := by
  refine List.getD_eq_default _ _ ?_
  rw [raised, List.length_append, List.length_map, List.length_range, List.length_singleton]
  exact above

/-- A string that is not read alike is told apart by a plain version. -/
theorem alike_of_agrees {v : Str} (small : Small D v) (agrees : ∀ l, (∀ n ∈ l, n ≤ 2 ^ 53) → Agrees D v l) : ReadAlike D v := by
  intro i
  induction i using Nat.strongRecOn with
  | ind i before =>
    by_contra differ
    obtain ⟨y, browser⟩ := Int.eq_ofNat_of_zero_le (parse_nonneg D v i)
    generalize server : (versionParts v).getD i 0 = x at differ
    rw [browser, Int.natCast_inj] at differ
    have low : min x y < 2 ^ 53 := by
      have := small i
      rw [server, browser] at this
      omega
    have fits : ∀ n ∈ raised v i (min x y + 1), n ≤ 2 ^ 53 := by
      intro n member
      rcases List.mem_append.mp member with early | last
      · obtain ⟨j, below, rfl⟩ := List.mem_map.mp early
        have alike := before j (List.mem_range.mp below)
        have := small j
        omega
      · have := List.mem_singleton.mp last
        omega
    have read := plain_read D fits
    have told := (agrees _ fits).2
    -- each side finds the plain version newer when its own number is the smaller one
    rw [Bool.eq_iff_iff, newer, newerParts_eq, isNewer] at told
    have left := newerBy_raised (l := versionParts (plain (raised v i (min x y + 1)))) (w := versionParts v) (i := i)
      (fun j below => by rw [(read j).1, raised_before v _ below]) (fun j above => by rw [(read j).1, raised_after v _ above])
      (fun j => Nat.zero_le _)
    have right := newerBy_raised (l := parse D (plain (raised v i (min x y + 1)))) (w := parse D v) (i := i)
      (fun j below => by rw [(read j).2, raised_before v _ below, before j below])
      (fun j above => by rw [(read j).2, raised_after v _ above, Int.ofNat_zero]) (parse_nonneg D v)
    have both := left.symm.trans (told.trans right)
    rw [(read i).1, (read i).2, raised_at, server, browser] at both
    omega

end Browser

/-! ### Semantic versions -/

/-- A pre-release identifier that is not a number. -/
structure Alphanumeric where
  text : Str
  written : ∀ c ∈ text, (c.isAlphanum || c = '-') = true
  mixed : ∃ c ∈ text, isDigit c = false

inductive Identifier where
  | numeric (n : ℕ)
  | alphanumeric (s : Alphanumeric)

namespace Identifier

def written : Identifier → Str
  | numeric n => Nat.toDigits 10 n
  | alphanumeric s => s.text

/-- Numbers come before texts, and texts go by their characters. -/
def key : Identifier → ℕ ⊕ₗ Str
  | numeric n => toLex (Sum.inl n)
  | alphanumeric s => toLex (Sum.inr s.text)

end Identifier

/-- A semantic version; without identifiers it is a release. -/
structure SemVer where
  v : Bool
  major : ℕ
  minor : ℕ
  patch : ℕ
  pre : List Identifier

namespace SemVer

/-- The identifiers with dots between them. -/
def suffix (pre : List Identifier) : Str := List.intercalate ['.'] (pre.map Identifier.written)

/-- What stands behind the three numbers. -/
def tail (pre : List Identifier) : Str := if pre = [] then [] else '-' :: suffix pre

def written (a : SemVer) : Str :=
  (if a.v then ['v'] else []) ++
    (Nat.toDigits 10 a.major ++ '.' :: (Nat.toDigits 10 a.minor ++ '.' :: (Nat.toDigits 10 a.patch ++ tail a.pre)))

/-- A release comes after its pre-releases; of two pre-releases the first identifier that differs decides, and a longer
one comes after its beginning. -/
def preKey (pre : List Identifier) : WithTop (List (ℕ ⊕ₗ Str)) := if pre = [] then ⊤ else (pre.map Identifier.key : List _)

def precedence (a : SemVer) : ℕ ×ₗ ℕ ×ₗ ℕ ×ₗ WithTop (List (ℕ ⊕ₗ Str)) :=
  toLex (a.major, toLex (a.minor, toLex (a.patch, preKey a.pre)))

def core (a : SemVer) : List ℕ := [a.major, a.minor, a.patch]

/-- The numbers the comparison reads behind the first three. -/
def suffixNumbers (pre : List Identifier) : List ℕ := if pre = [] then [] else numbersOf (suffix pre)

theorem versionParts_written (a : SemVer) : versionParts a.written = a.core.map cut ++ suffixNumbers a.pre := by
  have start (s : Str) : strings.trimPrefix ((if a.v then ['v'] else []) ++ (Nat.toDigits 10 a.major ++ s)) ['v'] =
      Nat.toDigits 10 a.major ++ s := by
    cases a.v with
    | true => exact trimPrefix_v _
    | false => exact trimPrefix_digits _ _
  rw [versionParts_eq, written, start, numbersOf_cons _ rfl, numbersOf_cons _ rfl, tail, suffixNumbers]
  split
  · rw [List.append_nil, numbersOf_single]
    rfl
  · rw [numbersOf_cons _ rfl]
    rfl

/-- The first number that differs is smaller, or none does and what follows comes before. -/
def Below (rest : Prop) : List ℕ → List ℕ → Prop
  | x :: xs, y :: ys => x < y ∨ x = y ∧ Below rest xs ys
  | _, _ => rest

theorem precedence_lt (a b : SemVer) : b.precedence < a.precedence ↔ Below (preKey b.pre < preKey a.pre) b.core a.core := by
  simp only [precedence, Prod.Lex.toLex_lt_toLex, core, Below]

/-- The numbers that stand for two suffixes compare as the suffixes do. -/
def SuffixAgrees : List Identifier → List Identifier → Prop
  | [], [] => True
  | a@(_ :: _), [] => ∀ n ∈ suffixNumbers a, n = 0
  | [], _ :: _ => False
  | a, b => newerBy (suffixNumbers a) (suffixNumbers b) = true ↔ preKey b < preKey a

/-- Of the first numbers that differ one is below `2^63 - 1`, or what follows them happens to decide alike. -/
def CoreAgrees (s t : List ℕ) (rest : Prop) : List ℕ → List ℕ → Prop
  | x :: xs, y :: ys =>
    if x = y then CoreAgrees s t rest xs ys
    else cut x ≠ cut y ∨ (newerBy (xs.map cut ++ s) (ys.map cut ++ t) = true ↔ y < x)
  | _, _ => rest

def Agrees (a b : SemVer) : Prop :=
  CoreAgrees (suffixNumbers a.pre) (suffixNumbers b.pre) (SuffixAgrees a.pre b.pre) a.core b.core

theorem newerBy_nil (s : List ℕ) : newerBy s [] = true ↔ ∃ n ∈ s, n ≠ 0 := by
  induction s with
  | nil => simp [newerBy]
  | cons n s ih =>
    have padding : padded ([] : List ℕ) = padded [0] := by
      funext i
      cases i <;> rfl
    have longer : newerBy (n :: s) [] = newerBy (n :: s) [0] := by
      rw [Bool.eq_iff_iff, newerBy_iff, newerBy_iff, padding]
    rw [longer, newerBy_cons, List.exists_mem_cons_iff]
    split
    · next zero =>
      rw [ih, zero]
      exact (or_iff_right fun none => none rfl).symm
    · next some_ => exact iff_of_true (decide_eq_true (Nat.pos_of_ne_zero some_)) (Or.inl some_)

theorem not_newerBy_nil (s : List ℕ) : newerBy [] s = false := by
  rw [Bool.eq_false_iff, ne_eq, newerBy_iff, padded_lt]
  rintro ⟨i, -, below⟩
  exact absurd below (Nat.not_lt_zero _)

theorem suffix_iff (p q : List Identifier) :
    (newerBy (suffixNumbers p) (suffixNumbers q) = true ↔ preKey q < preKey p) ↔ SuffixAgrees p q := by
  have release : suffixNumbers [] = [] := rfl
  have top : preKey [] = ⊤ := rfl
  have below (i : Identifier) (p : List Identifier) : preKey (i :: p) < ⊤ := WithTop.coe_lt_top _
  cases p with
  | nil =>
    cases q with
    | nil => simp [release, newerBy_nil, top, SuffixAgrees]
    | cons j q => simp [release, not_newerBy_nil, top, below, SuffixAgrees]
  | cons i p =>
    cases q with
    | nil => simp [release, newerBy_nil, top, SuffixAgrees]
    | cons j q => rfl

theorem core_iff {s t : List ℕ} {later below : Prop} (rest : (newerBy s t = true ↔ below) ↔ later) {xs ys : List ℕ}
    (size : xs.length = ys.length) :
    (newerBy (xs.map cut ++ s) (ys.map cut ++ t) = true ↔ Below below ys xs) ↔ CoreAgrees s t later xs ys := by
  induction xs generalizing ys with
  | nil =>
    obtain rfl : ys = [] := List.length_eq_zero_iff.mp size.symm
    exact rest
  | cons x xs ih =>
    obtain ⟨y, ys, rfl⟩ := List.exists_cons_of_length_eq_add_one size.symm
    rw [List.map_cons, List.map_cons, List.cons_append, List.cons_append, newerBy_cons, Below, CoreAgrees]
    by_cases same : x = y
    · subst same
      rw [if_pos rfl, if_pos rfl, ← ih (Nat.succ.inj size)]
      simp
    · have order : y < x ∨ y = x ∧ Below below ys xs ↔ y < x := or_iff_left fun equal => same equal.1.symm
      rw [if_neg same, order]
      by_cases cutAlike : cut x = cut y
      · rw [if_pos cutAlike]
        exact (or_iff_right fun differ => differ cutAlike).symm
      · rw [if_neg cutAlike, decide_eq_true_eq]
        refine iff_of_true ?_ (Or.inl cutAlike)
        simp only [cut] at cutAlike ⊢
        omega

/-- The server's order is that of semantic versions exactly there. -/
theorem newer_written (a b : SemVer) :
    (newer a.written b.written = true ↔ b.precedence < a.precedence) ↔ a.Agrees b := by
  rw [newer, newerParts_eq, versionParts_written, versionParts_written, precedence_lt]
  exact core_iff (suffix_iff a.pre b.pre) rfl

end SemVer

/-! ### The order -/

theorem newer_irrefl (a : Str) : newer a a = false := by
  rw [Bool.eq_false_iff, ne_eq, newer_iff]
  exact lt_irrefl _

theorem newer_asymm {a b : Str} (above : newer a b = true) : newer b a = false := by
  rw [Bool.eq_false_iff, ne_eq, newer_iff]
  exact lt_asymm ((newer_iff a b).mp above)

theorem newer_trans {a b c : Str} (above : newer a b = true) (next : newer b c = true) : newer a c = true := by
  rw [newer_iff] at *
  exact next.trans above

/-- Updates to newer versions do not come back. -/
theorem no_cycle (a : Str) : ¬ Relation.TransGen (fun old new => newer new old = true) a a := by
  intro cycle
  have chain : ∀ {b c : Str}, Relation.TransGen (fun old new => newer new old = true) b c → newer c b = true := by
    intro b c updates
    induction updates with
    | single update => exact update
    | tail _ update ih => exact newer_trans update ih
  have := chain cycle
  rw [newer_irrefl] at this
  contradiction

/-- Numerals that are exact. -/
def exactDoubles : Doubles where
  nearest := some
  exact _ _ := rfl

/-- The text of a pre-release. -/
def rc : Alphanumeric where
  text := "rc".toList
  written := List.all_eq_true.mp (by decide)
  mixed := ⟨'r', by decide, by decide⟩

def candidate : SemVer := ⟨false, 1, 2, 3, [.alphanumeric rc, .numeric 1]⟩

def released : SemVer := ⟨false, 1, 2, 3, []⟩

end NatsExplorer.Update
