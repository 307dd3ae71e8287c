import Mathlib.Logic.Function.Basic

/-! A file system as a map from names to what they hold. Every operation is atomic; it
may be made to fail, and then changes nothing. -/
namespace Files
variable {N D : Type}

inductive Operation (N : Type) where
  | write (name : N)
  | read (name : N)
  | remove (name : N)
  | removeAll (name : N)
  | link (source target : N)
  | rename (source target : N)
  deriving DecidableEq

abbrev FS (N D : Type) := N → Option D

/-- Which operations fail, and with what. -/
abbrev Faults (N : Type) := Operation N → Option String

def AtMostOne (fails : Faults N) : Prop := ∀ a b, fails a ≠ none → fails b ≠ none → a = b

/-- The result of an operation unless it is made to fail. -/
def guarded {α : Type} (fails : Faults N) (op : Operation N) (result : Except String α) : Except String α :=
  match fails op with
  | some e => .error e
  | none => result

variable [DecidableEq N] (fails : Faults N)

def write (name : N) (data : D) (fs : FS N D) : Except String (FS N D) :=
  guarded fails (.write name) (.ok (Function.update fs name (some data)))

def read (name : N) (fs : FS N D) : Except String D :=
  guarded fails (.read name)
    (match fs name with
    | some data => .ok data
    | none => .error "no such file or directory")

def remove (name : N) (fs : FS N D) : Except String (FS N D) :=
  guarded fails (.remove name)
    (match fs name with
    | some _ => .ok (Function.update fs name none)
    | none => .error "no such file or directory")

/-- Nothing to remove is no error. -/
def removeAll (name : N) (fs : FS N D) : Except String (FS N D) :=
  guarded fails (.removeAll name) (.ok (Function.update fs name none))

def link (source target : N) (fs : FS N D) : Except String (FS N D) :=
  guarded fails (.link source target)
    (match fs source, fs target with
    | some data, none => .ok (Function.update fs target (some data))
    | some _, some _ => .error "file exists"
    | none, _ => .error "no such file or directory")

/-- A directory does not replace another. -/
def rename (directory : Bool) (source target : N) (fs : FS N D) : Except String (FS N D) :=
  guarded fails (.rename source target)
    (match fs source with
    | some data =>
      if directory ∧ (fs target).isSome then .error "file exists"
      else .ok (Function.update (Function.update fs source none) target (some data))
    | none => .error "no such file or directory")

omit [DecidableEq N] in
/-- An operation whose error is not looked at. -/
def attempt (result : Except String (FS N D)) (fs : FS N D) : FS N D :=
  match result with
  | .ok fs => fs
  | .error _ => fs

variable {fails} {source target name other : N} {data : D} {fs fs' : FS N D} {directory : Bool}

omit [DecidableEq N] in
theorem guarded_ok {α : Type} {op : Operation N} {result : Except String α} {a : α}
    (done : guarded fails op result = .ok a) : fails op = none ∧ result = .ok a := by
  unfold guarded at done
  cases failure : fails op with
  | some e =>
    rw [failure] at done
    cases done
  | none =>
    rw [failure] at done
    exact ⟨rfl, done⟩

omit [DecidableEq N] in
theorem guarded_none {α : Type} {op : Operation N} (quiet : fails op = none) (result : Except String α) :
    guarded fails op result = result := by
  unfold guarded
  rw [quiet]

theorem write_ok (done : write fails name data fs = .ok fs') : fs' = Function.update fs name (some data) :=
  (Except.ok.inj (guarded_ok done).2).symm

omit [DecidableEq N] in
theorem read_ok (done : read fails name fs = .ok data) : fs name = some data := by
  have result := (guarded_ok done).2
  split at result
  · rename_i held present
    rw [present, Except.ok.inj result]
  · cases result

theorem remove_ok (done : remove fails name fs = .ok fs') : fs' = Function.update fs name none := by
  have result := (guarded_ok done).2
  split at result
  · exact (Except.ok.inj result).symm
  · cases result

theorem removeAll_ok (done : removeAll fails name fs = .ok fs') : fs' = Function.update fs name none :=
  (Except.ok.inj (guarded_ok done).2).symm

theorem link_ok (done : link fails source target fs = .ok fs') : fs' = Function.update fs target (fs source) := by
  have result := (guarded_ok done).2
  split at result
  · rename_i data present _
    rw [present]
    exact (Except.ok.inj result).symm
  · cases result
  · cases result

theorem rename_ok (done : rename fails directory source target fs = .ok fs') :
    (fs source).isSome = true ∧ fs' = Function.update (Function.update fs source none) target (fs source) := by
  have result := (guarded_ok done).2
  split at result
  · rename_i data present
    split at result
    · cases result
    · rw [present]
      exact ⟨rfl, (Except.ok.inj result).symm⟩
  · cases result

/-- What a rename leaves at the two names, and at the others. -/
structure Moved (source target : N) (fs fs' : FS N D) : Prop where
  there : fs' target = fs source
  gone : fs' source = none
  others : ∀ other, other ≠ source → other ≠ target → fs' other = fs other

theorem rename_moved (apart : source ≠ target) (done : rename fails directory source target fs = .ok fs') : Moved source target fs fs' := by
  rw [(rename_ok done).2]
  refine ⟨Function.update_self .., ?_, fun other first second => ?_⟩
  · exact (Function.update_of_ne apart _ _).trans (Function.update_self ..)
  · exact (Function.update_of_ne second _ _).trans (Function.update_of_ne first _ _)

theorem rename_done (quiet : fails (.rename source target) = none) (present : (fs source).isSome = true)
    (free : directory = false ∨ fs target = none) : rename fails directory source target fs =
      .ok (Function.update (Function.update fs source none) target (fs source)) := by
  obtain ⟨data, held⟩ := Option.isSome_iff_exists.mp present
  unfold rename
  rw [guarded_none quiet, held]
  dsimp only
  rw [if_neg]
  rintro ⟨is, taken⟩
  rcases free with not | none
  · rw [not] at is
    cases is
  · rw [none] at taken
    cases taken

/-- What an attempted removal leaves at the name. -/
theorem attempt_remove_self (name : N) (fs : FS N D) :
    attempt (remove fails name fs) fs name = none ∨ attempt (remove fails name fs) fs name = fs name := by
  cases result : remove fails name fs with
  | error e => exact Or.inr rfl
  | ok fs' =>
    rw [remove_ok result]
    exact Or.inl (Function.update_self ..)

theorem attempt_remove (name : N) (fs : FS N D) (different : other ≠ name) :
    attempt (remove fails name fs) fs other = fs other := by
  cases result : remove fails name fs with
  | error e => rfl
  | ok fs' =>
    rw [remove_ok result]
    exact Function.update_of_ne different _ _

theorem attempt_removeAll (name : N) (fs : FS N D) (different : other ≠ name) :
    attempt (removeAll fails name fs) fs other = fs other := by
  cases result : removeAll fails name fs with
  | error e => rfl
  | ok fs' =>
    rw [removeAll_ok result]
    exact Function.update_of_ne different _ _

theorem attempt_rename (source target : N) (fs : FS N D) (first : other ≠ source) (second : other ≠ target) :
    attempt (rename fails directory source target fs) fs other = fs other := by
  cases result : rename fails directory source target fs with
  | error e => rfl
  | ok fs' =>
    rw [(rename_ok result).2]
    exact (Function.update_of_ne second _ _).trans (Function.update_of_ne first _ _)

theorem attempt_rename_source (directory : Bool) (fs : FS N D) (different : source ≠ target) :
    attempt (rename fails directory source target fs) fs source = none ∨
      attempt (rename fails directory source target fs) fs source = fs source := by
  cases result : rename fails directory source target fs with
  | error e => exact Or.inr rfl
  | ok fs' =>
    rw [(rename_ok result).2]
    exact Or.inl ((Function.update_of_ne different _ _).trans (Function.update_self ..))

theorem attempt_rename_target (directory : Bool) (source target : N) (fs : FS N D) :
    attempt (rename fails directory source target fs) fs target = fs source ∨
      attempt (rename fails directory source target fs) fs target = fs target := by
  cases result : rename fails directory source target fs with
  | error e => exact Or.inr rfl
  | ok fs' =>
    rw [(rename_ok result).2]
    exact Or.inl (Function.update_self ..)

end Files
