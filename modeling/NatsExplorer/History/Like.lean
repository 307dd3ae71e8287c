import NatsExplorer.Go.Text

/-! `LIKE` with the escape character the queries use, as SQLite compares without
case in ASCII, and the escaping of `likePrefix` (`internal/history/sqlite.go`). -/
namespace NatsExplorer.History
open Go

def likeEscape : Char := '\\'

def sameFold (a b : Char) : Bool := asciiLower a = asciiLower b

/-- `text LIKE pattern ESCAPE '\'`; an escape at the end matches nothing. -/
def like : Str → Str → Bool
  | [], text => text = []
  | '%' :: pattern, text => text.tails.any fun rest => like pattern rest
  | '_' :: pattern, text => text ≠ [] && like pattern text.tail
  | ['\\'], _ => false
  | '\\' :: c :: pattern, text => text.head?.any (sameFold c) && like pattern text.tail
  | c :: pattern, text => text.head?.any (sameFold c) && like pattern text.tail

def escapeChar (c : Char) : Str := if c = '\\' ∨ c = '%' ∨ c = '_' then ['\\', c] else [c]

def likePrefix (s : Str) : Str := s.flatMap escapeChar

theorem like_escapeChar (c : Char) (pattern text : Str) :
    like (escapeChar c ++ pattern) text = (text.head?.any (sameFold c) && like pattern text.tail) := by
  unfold escapeChar
  split
  · rw [List.cons_append, List.cons_append, List.nil_append, like]
  · rename_i plain
    simp only [not_or] at plain
    rw [List.cons_append, List.nil_append, like]
    · exact fun same => plain.2.1 same
    · exact fun same => plain.2.2 same
    · exact fun same _ => plain.1 same
    · exact fun _ _ same _ => plain.1 same

/-- An escaped text matches itself up to case. -/
theorem like_likePrefix (s pattern text : Str) :
    like (likePrefix s ++ pattern) text = true ↔
      ∃ head rest, text = head ++ rest ∧ head.map asciiLower = s.map asciiLower ∧
        like pattern rest = true := by
  induction s generalizing text with
  | nil => simp [likePrefix]
  | cons c s ih =>
    have step : likePrefix (c :: s) ++ pattern = escapeChar c ++ (likePrefix s ++ pattern) := by
      simp only [likePrefix, List.flatMap_cons, List.append_assoc]
    rw [step, like_escapeChar]
    cases text with
    | nil => simp
    | cons x text =>
      simp only [List.head?_cons, Option.any_some, List.tail_cons, Bool.and_eq_true, ih text,
        sameFold, decide_eq_true_eq]
      constructor
      · rintro ⟨same, head, rest, rfl, folded, matched⟩
        exact ⟨x :: head, rest, rfl, by simp [same, folded], matched⟩
      · rintro ⟨head, rest, split, folded, matched⟩
        cases head with
        | nil => simp at folded
        | cons y head =>
          simp only [List.cons_append, List.cons.injEq, List.map_cons] at split folded
          obtain ⟨rfl, rfl⟩ := split
          exact ⟨folded.1.symm, head, rest, rfl, folded.2, matched⟩

theorem like_any (text : Str) : like ['%'] text = true := by
  simp only [like, List.any_eq_true, List.mem_tails, decide_eq_true_eq]
  exact ⟨[], List.nil_suffix, rfl⟩

theorem toNat_ofNat {n : Nat} (small : n < 128) : (Char.ofNat n).toNat = n := by
  have valid : n.isValidChar := Or.inl (by omega)
  rw [Char.ofNat, dif_pos valid]
  rfl

/-- What comes before the letters is what it folds to. -/
theorem asciiLower_before {c x : Char} (before : x.toNat < 65) : asciiLower c = x ↔ c = x := by
  constructor
  · intro folded
    unfold asciiLower at folded
    split at folded
    · rename_i upper
      have low : 65 ≤ c.toNat := upper.1
      have high : c.toNat ≤ 90 := upper.2
      have value := congrArg Char.toNat folded
      rw [toNat_ofNat (by omega)] at value
      omega
    · exact folded
  · rintro rfl
    refine if_neg fun upper => ?_
    have low : 65 ≤ c.toNat := upper.1
    omega

theorem asciiLower_dot {c : Char} : asciiLower c = '.' ↔ c = '.' := asciiLower_before (by decide)

theorem like_dot_any (text : Str) : like ['.', '%'] text = true ↔ text.head? = some '.' := by
  rw [like]
  · cases text with
    | nil => simp
    | cons c text =>
      simp only [List.head?_cons, Option.any_some, List.tail_cons, like_any, Bool.and_true, sameFold,
        decide_eq_true_eq, Option.some.injEq]
      rw [eq_comm, show asciiLower '.' = '.' from rfl, asciiLower_dot]
  · exact fun same => absurd same (by decide)
  · exact fun same => absurd same (by decide)
  · exact fun same _ => absurd same (by decide)
  · exact fun _ _ same _ => absurd same (by decide)

/-- `LIKE likePrefix(subject) || '.%'`: below the subject, up to case. -/
theorem like_below (subject text : Str) :
    like (likePrefix subject ++ ['.', '%']) text = true ↔
      ∃ head rest, text = head ++ '.' :: rest ∧
        head.map asciiLower = subject.map asciiLower := by
  simp only [like_likePrefix, like_dot_any]
  constructor
  · rintro ⟨head, rest, rfl, folded, dot⟩
    cases rest with
    | nil => cases dot
    | cons c rest =>
      cases dot
      exact ⟨head, rest, rfl, folded⟩
  · rintro ⟨head, rest, rfl, folded⟩
    exact ⟨head, '.' :: rest, rfl, folded, rfl⟩

/-- What lies below a subject matches. -/
theorem like_of_below {subject text : Str} (below : (subject ++ ['.']) <+: text) :
    like (likePrefix subject ++ ['.', '%']) text = true := by
  obtain ⟨rest, rfl⟩ := below
  exact (like_below _ _).mpr ⟨subject, rest, by simp, rfl⟩

end NatsExplorer.History
