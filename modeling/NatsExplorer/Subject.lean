import NatsExplorer.Go.Text
import Mathlib.Data.List.Induction
import Mathlib.Data.List.TakeWhile

/-! Subjects as paths: segments between dots, a branch above every segment but
the first. `Under` is the order of the tree, `HasPrefix(s, p + ".")` its strict
part. -/
namespace NatsExplorer
open Go

/-- `lastSegment` scans from the right to the last dot. -/
def lastSegment (subject : Str) : Str := (subject.reverse.takeWhile (· ≠ '.')).reverse

/-- What is left of the last dot; a root has none. -/
def parentSubject (subject : Str) : Option Str :=
  match subject.reverse.dropWhile (· ≠ '.') with
  | [] => none
  | _ :: rest => some rest.reverse

/-- The child of `p` along `seg`. -/
def child (p seg : Str) : Str := p ++ '.' :: seg

theorem dotless_reverse {seg : Str} (dotless : '.' ∉ seg) :
    ∀ c ∈ seg.reverse, decide (c ≠ '.') = true := by
  intro c member
  simp only [decide_eq_true_eq]
  rintro rfl
  exact dotless (List.mem_reverse.mp member)

theorem takeWhile_segment {seg : Str} (dotless : '.' ∉ seg) (rest : Str) :
    (seg.reverse ++ '.' :: rest).takeWhile (· ≠ '.') = seg.reverse := by
  rw [List.takeWhile_append_of_pos (dotless_reverse dotless)]
  simp

theorem dropWhile_segment {seg : Str} (dotless : '.' ∉ seg) (rest : Str) :
    (seg.reverse ++ '.' :: rest).dropWhile (· ≠ '.') = '.' :: rest := by
  rw [List.dropWhile_append_of_pos (dotless_reverse dotless)]
  simp

theorem parentSubject_child {p seg : Str} (dotless : '.' ∉ seg) :
    parentSubject (child p seg) = some p := by
  simp only [parentSubject, child, List.reverse_append, List.reverse_cons, List.append_assoc,
    List.singleton_append, dropWhile_segment dotless, List.reverse_reverse]

theorem lastSegment_child {p seg : Str} (dotless : '.' ∉ seg) :
    lastSegment (child p seg) = seg := by
  simp only [lastSegment, child, List.reverse_append, List.reverse_cons, List.append_assoc,
    List.singleton_append, takeWhile_segment dotless, List.reverse_reverse]

theorem takeWhile_dotless {s : Str} (dotless : '.' ∉ s) :
    s.reverse.takeWhile (· ≠ '.') = s.reverse :=
  List.takeWhile_eq_self_iff.mpr (dotless_reverse dotless)

theorem parentSubject_root {s : Str} (dotless : '.' ∉ s) : parentSubject s = none := by
  have drop : s.reverse.dropWhile (· ≠ '.') = [] := by
    have whole := List.takeWhile_append_dropWhile (p := (· ≠ '.')) (l := s.reverse)
    rw [takeWhile_dotless dotless] at whole
    simpa using whole
  simp only [parentSubject, drop]

/-- Every subject is a root or a child. -/
theorem root_or_child (s : Str) :
    '.' ∉ s ∨ ∃ p seg, s = child p seg ∧ '.' ∉ seg := by
  induction s using List.reverseRecOn with
  | nil => exact Or.inl (by simp)
  | append_singleton s c ih =>
    by_cases dot : c = '.'
    · subst dot
      exact Or.inr ⟨s, [], rfl, by simp⟩
    · rcases ih with root | ⟨p, seg, rfl, dotless⟩
      · exact Or.inl (by simp [root, Ne.symm dot])
      · refine Or.inr ⟨p, seg ++ [c], by simp [child], by simp [dotless, Ne.symm dot]⟩

theorem parentSubject_eq_none {s : Str} : parentSubject s = none ↔ '.' ∉ s := by
  refine ⟨fun none => ?_, parentSubject_root⟩
  rcases root_or_child s with root | ⟨p, seg, rfl, dotless⟩
  · exact root
  · rw [parentSubject_child dotless] at none
    contradiction

theorem parentSubject_eq_some {s p : Str} :
    parentSubject s = some p ↔ ∃ seg, s = child p seg ∧ '.' ∉ seg := by
  constructor
  · intro found
    rcases root_or_child s with root | ⟨q, seg, rfl, dotless⟩
    · rw [parentSubject_root root] at found
      contradiction
    · rw [parentSubject_child dotless] at found
      cases found
      exact ⟨seg, rfl, dotless⟩
  · rintro ⟨seg, rfl, dotless⟩
    exact parentSubject_child dotless

theorem parentSubject_length {s p : Str} (found : parentSubject s = some p) :
    p.length < s.length := by
  obtain ⟨seg, rfl, _⟩ := parentSubject_eq_some.mp found
  simp only [child, List.length_append, List.length_cons]
  omega

theorem child_inj {p q a b : Str} (da : '.' ∉ a) (db : '.' ∉ b)
    (same : child p a = child q b) : p = q ∧ a = b := by
  have parents := congrArg parentSubject same
  have segments := congrArg lastSegment same
  rw [parentSubject_child da, parentSubject_child db] at parents
  rw [lastSegment_child da, lastSegment_child db] at segments
  exact ⟨Option.some.inj parents, segments⟩

theorem splitOn_root {s : Str} (dotless : '.' ∉ s) : s.splitOn '.' = [s] :=
  List.splitOnP_eq_singleton fun c member => by
    simp only [beq_eq_false_iff_ne]
    rintro rfl
    exact dotless member

theorem splitOn_child {p seg : Str} (dotless : '.' ∉ seg) : (child p seg).splitOn '.' = p.splitOn '.' ++ [seg] := by
  rw [← splitOn_root dotless]
  exact List.splitOnP_append_cons (p := (· == '.')) p seg (by simp)

theorem splitOn_dotless {s t : Str} (token : t ∈ s.splitOn '.') : '.' ∉ t := by
  induction hn : s.length using Nat.strongRecOn generalizing s with
  | ind n ih =>
    rcases root_or_child s with root | ⟨p, seg, rfl, dotless⟩
    · rw [splitOn_root root] at token
      rwa [List.mem_singleton.mp token]
    · rw [splitOn_child dotless] at token
      rcases List.mem_append.mp token with above | last
      · exact ih p.length (hn ▸ parentSubject_length (parentSubject_child dotless)) above rfl
      · rwa [List.mem_singleton.mp last]

theorem splitOn_length {s t : Str} (token : t ∈ s.splitOn '.') : t.length ≤ s.length := by
  induction hn : s.length using Nat.strongRecOn generalizing s with
  | ind n ih =>
    rcases root_or_child s with root | ⟨p, seg, rfl, dotless⟩
    · rw [splitOn_root root] at token
      rw [List.mem_singleton.mp token, hn]
    · have length : (child p seg).length = p.length + (seg.length + 1) := by simp [child]
      rw [splitOn_child dotless] at token
      rcases List.mem_append.mp token with above | last
      · have := ih p.length (by omega) above rfl
        omega
      · rw [List.mem_singleton.mp last]
        omega

/-- `s` is `p` or lies below it. -/
def Under (p s : Str) : Prop := s = p ∨ (p ++ ['.']) <+: s

instance (p s : Str) : Decidable (Under p s) := inferInstanceAs (Decidable (_ ∨ _))

namespace Under

theorem refl (s : Str) : Under s s := Or.inl rfl

theorem child (p seg : Str) : Under p (child p seg) :=
  Or.inr ⟨seg, by simp [NatsExplorer.child]⟩

theorem isPrefix {p s : Str} (under : Under p s) : p <+: s := by
  rcases under with rfl | below
  · exact List.prefix_refl _
  · exact (List.prefix_append _ _).trans below

theorem trans {p s t : Str} (first : Under p s) (second : Under s t) : Under p t := by
  rcases first with rfl | below
  · exact second
  · exact Or.inr (below.trans second.isPrefix)

theorem parent {p s q : Str} (under : Under p s) (above : parentSubject s = some q) :
    s = p ∨ Under p q := by
  obtain ⟨seg, rfl, dotless⟩ := parentSubject_eq_some.mp above
  rcases under with same | below
  · exact Or.inl same
  · refine Or.inr ?_
    obtain ⟨rest, same⟩ := below
    have split : p ++ '.' :: rest = q ++ '.' :: seg := by
      simpa only [List.append_assoc, List.singleton_append, NatsExplorer.child] using same
    rcases List.append_eq_append_iff.mp split with ⟨mid, qEq, restEq⟩ | ⟨mid, pEq, segEq⟩
    · cases mid with
      | nil => exact Or.inl (by simpa using qEq)
      | cons c mid =>
        simp only [List.cons_append, List.cons.injEq] at restEq
        obtain ⟨rfl, -⟩ := restEq
        exact Or.inr ⟨mid, by simp [qEq]⟩
    · cases mid with
      | nil => exact Or.inl (by simpa using pEq.symm)
      | cons c mid =>
        simp only [List.cons_append, List.cons.injEq] at segEq
        exact absurd (segEq.2 ▸ List.mem_append_right mid List.mem_cons_self) dotless

theorem of_parent {p s q : Str} (above : parentSubject s = some q) (under : Under p q) :
    Under p s := by
  obtain ⟨seg, rfl, _⟩ := parentSubject_eq_some.mp above
  exact under.trans (.child q seg)

theorem root {p s : Str} (under : Under p s) (root : parentSubject s = none) : s = p := by
  have dotless := parentSubject_eq_none.mp root
  rcases under with same | ⟨rest, rfl⟩
  · exact same
  · simp at dotless

/-- Below `p` is below one of its children. -/
theorem cases {p s : Str} (under : Under p s) :
    s = p ∨ ∃ seg, '.' ∉ seg ∧ Under (NatsExplorer.child p seg) s := by
  induction hn : s.length using Nat.strongRecOn generalizing s with
  | ind n ih =>
    cases above : parentSubject s with
    | none => exact Or.inl (under.root above)
    | some q =>
      rcases under.parent above with same | below
      · exact Or.inl same
      · obtain ⟨seg, rfl, dotless⟩ := parentSubject_eq_some.mp above
        have shorter := parentSubject_length above
        rcases ih q.length (by omega) below rfl with rfl | ⟨seg', dotless', under'⟩
        · exact Or.inr ⟨seg, dotless, .refl _⟩
        · exact Or.inr ⟨seg', dotless', under'.trans (.child q seg)⟩

theorem antisymm {p s : Str} (under : Under p s) (back : Under s p) : s = p :=
  back.isPrefix.eq_of_length_le under.isPrefix.length_le

/-- What lies above one subject is a path. -/
theorem chain {p q s : Str} (first : Under p s) (second : Under q s) : Under p q ∨ Under q p := by
  induction hn : s.length using Nat.strongRecOn generalizing s with
  | ind n ih =>
    cases above : parentSubject s with
    | none =>
      cases first.root above
      exact Or.inr second
    | some m =>
      rcases first.parent above with rfl | first
      · exact Or.inr second
      · rcases second.parent above with rfl | second
        · exact Or.inl (first.trans (of_parent above (.refl m)))
        · exact ih m.length (hn ▸ parentSubject_length above) first second rfl

theorem between {s p x seg : Str} (dotless : '.' ∉ seg) (first : Under s p) (second : Under p x)
    (along : Under (NatsExplorer.child s seg) x) : p = s ∨ Under (NatsExplorer.child s seg) p := by
  rcases chain second along with above | below
  · rcases above.parent (parentSubject_child dotless) with same | above
    · exact Or.inr (same ▸ .refl _)
    · exact Or.inl (first.antisymm above)
  · exact Or.inr below

/-- Every subject lies under a root. -/
theorem from_root (s : Str) : ∃ seg, '.' ∉ seg ∧ Under seg s := by
  induction hn : s.length using Nat.strongRecOn generalizing s with
  | ind n ih =>
    cases above : parentSubject s with
    | none => exact ⟨s, parentSubject_eq_none.mp above, .refl s⟩
    | some m =>
      obtain ⟨seg, dotless, under⟩ := ih m.length (hn ▸ parentSubject_length above) m rfl
      exact ⟨seg, dotless, of_parent above under⟩

end Under

section Pattern

def matchTokens : List Str → List Str → Bool
  | [], tokens => tokens = []
  | p :: pattern, tokens =>
    if p = ['>'] then pattern = [] && tokens ≠ []
    else
      match tokens with
      | [] => false
      | t :: tokens => (p = ['*'] || p = t) && matchTokens pattern tokens

/-- `subject.Match` -/
def matchSubject (pattern subj : Str) : Bool := matchTokens (pattern.splitOn '.') (subj.splitOn '.')

end Pattern
end NatsExplorer
