import NatsExplorer.Go.Runtime

/-! `path.Match`: shell patterns over names that slashes divide. A pattern is a
sequence of chunks, each after a star or not; a chunk is matched where it first
fits, and a star does not skip slashes. -/
namespace Go.path

inductive Item where
  | oneOf (negated : Bool) (ranges : List (Char × Char))
  | any
  | lit (c : Char)
  deriving DecidableEq

structure Chunk where
  star : Bool
  items : List Item
  deriving DecidableEq

/-- A possibly escaped character of a class, which may not end the pattern. -/
def getEsc : Str → Option (Char × Str)
  | [] | '-' :: _ | ']' :: _ | ['\\'] => none
  | '\\' :: c :: rest => if rest = [] then none else some (c, rest)
  | c :: rest => if rest = [] then none else some (c, rest)

/-- The ranges of a class up to its bracket; `fuel` is the length of what is left. -/
def getRanges : Nat → Bool → Str → Option (List (Char × Char) × Str)
  | 0, _, _ => none
  | fuel + 1, seen, s =>
    if seen && s.head? = some ']' then some ([], s.tail)
    else
      match getEsc s with
      | none => none
      | some (lo, '-' :: s) =>
        match getEsc s with
        | none => none
        | some (hi, s) => (getRanges fuel true s).map fun (rs, s) => ((lo, hi) :: rs, s)
      | some (lo, s) => (getRanges fuel true s).map fun (rs, s) => ((lo, lo) :: rs, s)

/-- The items of a pattern, `none` for a star; a malformed pattern is an error. -/
def parse : Nat → Str → Option (List (Option Item))
  | _, [] => some []
  | 0, _ => none
  | fuel + 1, '*' :: s => (parse fuel s).map (none :: ·)
  | fuel + 1, '?' :: s => (parse fuel s).map (some .any :: ·)
  | fuel + 1, '[' :: s =>
    let negated := s.head? = some '^'
    match getRanges s.length false (if negated then s.tail else s) with
    | none => none
    | some (ranges, s) => (parse fuel s).map (some (.oneOf negated ranges) :: ·)
  | _, ['\\'] => none
  | fuel + 1, '\\' :: c :: s => (parse fuel s).map (some (.lit c) :: ·)
  | fuel + 1, c :: s => (parse fuel s).map (some (.lit c) :: ·)

/-- Stars in a row are one, and start a chunk. -/
def scanChunks : List (Option Item) → List Chunk
  | [] => []
  | none :: rest =>
    match scanChunks rest with
    | ⟨false, items⟩ :: chunks => ⟨true, items⟩ :: chunks
    | [] => [⟨true, []⟩]
    | chunks => chunks
  | some i :: rest =>
    match scanChunks rest with
    | ⟨false, items⟩ :: chunks => ⟨false, i :: items⟩ :: chunks
    | chunks => ⟨false, [i]⟩ :: chunks

def Item.accepts : Item → Char → Bool
  | oneOf negated ranges, c => (ranges.any fun (lo, hi) => lo ≤ c && c ≤ hi) != negated
  | any, c => c ≠ '/'
  | lit x, c => x = c

/-- What is left of the name after a chunk at its start. -/
def matchChunk : List Item → Str → Option Str
  | [], s => some s
  | _ :: _, [] => none
  | i :: items, c :: s => if i.accepts c then matchChunk items s else none

/-- Where a chunk may start: a star skips up to the next slash. -/
def starts (star : Bool) : Str → List Str
  | [] => [[]]
  | c :: s => (c :: s) :: if star && c ≠ '/' then starts star s else []

def matchChunks : List Chunk → Str → Bool
  | [], name => name = []
  | ⟨star, items⟩ :: rest, name =>
    if star && items = [] then '/' ∉ name
    else
      match (starts star name).findSome? fun s =>
        (matchChunk items s).filter fun t => t = [] || rest ≠ [] with
      | none => false
      | some t => matchChunks rest t

/-- `path.Match`; a malformed pattern is an error and matches nothing. -/
def Match (pattern name : Str) : Bool :=
  match parse pattern.length pattern with
  | none => false
  | some items => matchChunks (scanChunks items) name

theorem matchChunk_count {items : List Item} {s t : Str} (matched : matchChunk items s = some t) :
    s.count '/' ≤ items.length + t.count '/' := by
  induction items generalizing s with
  | nil =>
    cases matched
    simp
  | cons i items ih =>
    cases s with
    | nil => cases matched
    | cons c s =>
      simp only [matchChunk] at matched
      split at matched
      · have rest := ih matched
        have head := List.count_cons (a := '/') (b := c) (l := s)
        simp only [List.length_cons]
        split at head <;> omega
      · cases matched

/-- A star skips no slash. -/
theorem starts_count {star : Bool} {name s : Str} (start : s ∈ starts star name) :
    name.count '/' = s.count '/' := by
  induction name with
  | nil =>
    rw [starts, List.mem_singleton] at start
    rw [start]
  | cons c name ih =>
    rw [starts, List.mem_cons] at start
    rcases start with rfl | start
    · rfl
    · split at start
      · rename_i skips
        simp only [Bool.and_eq_true, decide_eq_true_eq] at skips
        rw [List.count_cons_of_ne skips.2, ih start]
      · cases start

theorem matchChunks_count {chunks : List Chunk} {name : Str} (matched : matchChunks chunks name = true) :
    name.count '/' ≤ (chunks.map fun c => c.items.length).sum := by
  induction chunks generalizing name with
  | nil =>
    simp only [matchChunks, decide_eq_true_eq] at matched
    simp [matched]
  | cons c rest ih =>
    obtain ⟨star, items⟩ := c
    simp only [matchChunks] at matched
    split at matched
    · rw [List.count_eq_zero_of_not_mem (decide_eq_true_eq.mp matched)]
      exact Nat.zero_le _
    · split at matched
      · cases matched
      · rename_i t found
        obtain ⟨s, start, here⟩ := List.exists_of_findSome?_eq_some found
        have fits := matchChunk_count (Option.filter_eq_some_iff.mp here).1
        have skipped := starts_count start
        have more := ih matched
        simp only [List.map_cons, List.sum_cons]
        omega

/-- However many patterns there are, some name matches none of them. -/
theorem exists_unmatched (patterns : List Str) : ∃ name, ∀ p ∈ patterns, Match p name = false := by
  suffices ∃ bound, ∀ p ∈ patterns, ∀ name, Match p name = true → name.count '/' ≤ bound by
    obtain ⟨bound, below⟩ := this
    refine ⟨List.replicate (bound + 1) '/', fun p member => ?_⟩
    by_contra matched
    have := below p member _ (Bool.of_not_eq_false matched)
    rw [List.count_replicate_self] at this
    omega
  induction patterns with
  | nil => exact ⟨0, fun p member => absurd member List.not_mem_nil⟩
  | cons p patterns ih =>
    obtain ⟨bound, below⟩ := ih
    obtain ⟨own, here⟩ : ∃ own, ∀ name, Match p name = true → name.count '/' ≤ own := by
      unfold Match
      split
      · exact ⟨0, fun _ matched => by cases matched⟩
      · exact ⟨_, fun _ matched => matchChunks_count matched⟩
    refine ⟨max own bound, fun q member name matched => ?_⟩
    rcases List.mem_cons.mp member with rfl | member
    · exact (here name matched).trans (le_max_left ..)
    · exact (below q member name matched).trans (le_max_right ..)

example : Match ['a', '*', '[', 'b', '-', 'd', ']'] ['a', 'x', 'c'] = true := by decide

end Go.path
