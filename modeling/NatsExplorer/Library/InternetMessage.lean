import Mathlib.Data.List.Basic

/-! Internet messages: header fields on lines that end in CR LF, an empty line, the body. A line that begins with white space
continues the one before; a CR or LF that ends no line makes the header unreadable. -/
namespace InternetMessage

abbrev Bytes := List UInt8

/-- Without a CR or LF. -/
def Unbroken (b : Bytes) : Prop := 13 ∉ b ∧ 10 ∉ b

instance (b : Bytes) : Decidable (Unbroken b) := inferInstanceAs (Decidable (_ ∧ _))

def crlf : Bytes := [13, 10]

def blank (c : UInt8) : Bool := c = 32 || c = 9

/-- The lines of the header and the body, with what is read of the current line. -/
def split (line : Bytes) : Bytes → Option (List Bytes × Bytes)
  | [] => if line = [] then some ([], []) else none
  | c :: rest =>
    if c = 13 then
      match rest with
      | 10 :: rest =>
        if line = [] then some ([], rest) else (split [] rest).map fun (lines, body) => (line :: lines, body)
      | _ => none
    else if c = 10 then none
    else split (line ++ [c]) rest

/-- A line in front of unfolded ones. -/
def fold (line : Bytes) : List Bytes → List Bytes
  | [] => [line]
  | next :: more => if next.head?.any blank then (line ++ next) :: more else line :: next :: more

def unfolded (lines : List Bytes) : List Bytes := lines.foldr fold []

/-- A name of printable characters up to the colon, and the value. -/
def field (line : Bytes) : Option (Bytes × Bytes) :=
  let name := line.takeWhile (· ≠ 58)
  match line.dropWhile (· ≠ 58) with
  | [] => none
  | _ :: value => if name ≠ [] ∧ name.all (fun c => 33 ≤ c ∧ c ≤ 126) then some (name, value.dropWhile blank) else none

def fields : List Bytes → Option (List (Bytes × Bytes))
  | [] => some []
  | line :: lines => do
    let first ← field line
    let later ← fields lines
    some (first :: later)

def read (text : Bytes) : Option (List (Bytes × Bytes) × Bytes) := do
  let (lines, body) ← split [] text
  let read ← fields (unfolded lines)
  some (read, body)

theorem unbroken_append {a b : Bytes} : Unbroken (a ++ b) ↔ Unbroken a ∧ Unbroken b := by
  simp only [Unbroken, List.mem_append, not_or]
  exact and_and_and_comm

section Reading
variable {line text body : Bytes} {lines : List Bytes}

/-- The header read has no CR and no LF in its lines. -/
theorem split_unbroken (fine : Unbroken line) (done : split line text = some (lines, body)) : ∀ l ∈ lines, Unbroken l := by
  fun_induction split line text generalizing lines body with
  | case1 =>
    cases done
    exact fun _ member => absurd member List.not_mem_nil
  | case2 => cases done
  | case3 rest =>
    cases done
    exact fun _ member => absurd member List.not_mem_nil
  | case4 line rest some ih =>
    obtain ⟨⟨later, body'⟩, read, same⟩ := Option.map_eq_some_iff.mp done
    cases same
    exact List.forall_mem_cons.mpr ⟨fine, ih ⟨List.not_mem_nil, List.not_mem_nil⟩ read⟩
  | case5 => cases done
  | case6 => cases done
  | case7 line c rest notCR notLF ih =>
    have char : Unbroken [c] := ⟨fun member => notCR (List.mem_singleton.mp member).symm, fun member => notLF (List.mem_singleton.mp member).symm⟩
    exact ih (unbroken_append.mpr ⟨fine, char⟩) done

theorem fold_unbroken (fine : Unbroken line) (rest : ∀ l ∈ lines, Unbroken l) : ∀ l ∈ fold line lines, Unbroken l := by
  cases lines with
  | nil => exact List.forall_mem_cons.mpr ⟨fine, rest⟩
  | cons next more =>
    obtain ⟨first, later⟩ := List.forall_mem_cons.mp rest
    rw [fold]
    split
    · exact List.forall_mem_cons.mpr ⟨unbroken_append.mpr ⟨fine, first⟩, later⟩
    · exact List.forall_mem_cons.mpr ⟨fine, rest⟩

theorem unfolded_unbroken (fine : ∀ l ∈ lines, Unbroken l) : ∀ l ∈ unfolded lines, Unbroken l := by
  induction lines with
  | nil => exact fine
  | cons l lines ih =>
    obtain ⟨first, later⟩ := List.forall_mem_cons.mp fine
    exact fold_unbroken first (ih later)

theorem field_unbroken {f : Bytes × Bytes} (fine : Unbroken line) (done : field line = some f) : Unbroken f.2 := by
  unfold field at done
  simp only at done
  split at done
  · cases done
  · next c value rest =>
    split at done
    · cases done
      have inside : value.dropWhile blank <:+ line :=
        (List.dropWhile_suffix _).trans ((List.suffix_cons c value).trans (rest ▸ List.dropWhile_suffix _))
      exact ⟨fun member => fine.1 (inside.subset member), fun member => fine.2 (inside.subset member)⟩
    · cases done

theorem fields_unbroken {out : List (Bytes × Bytes)} (fine : ∀ l ∈ lines, Unbroken l) (done : fields lines = some out) :
    ∀ f ∈ out, Unbroken f.2 := by
  induction lines generalizing out with
  | nil =>
    cases done
    exact fun _ member => absurd member List.not_mem_nil
  | cons l lines ih =>
    simp only [fields, Option.bind_eq_bind, Option.bind_eq_some_iff, Option.some.injEq] at done
    obtain ⟨f, here, later, rest, rfl⟩ := done
    obtain ⟨first, others⟩ := List.forall_mem_cons.mp fine
    exact List.forall_mem_cons.mpr ⟨field_unbroken first here, ih others rest⟩

/-- No value of a message that can be read has a CR or LF. -/
theorem read_unbroken {out : List (Bytes × Bytes)} (done : read text = some (out, body)) : ∀ f ∈ out, Unbroken f.2 := by
  simp only [read, Option.bind_eq_bind, Option.bind_eq_some_iff, Option.some.injEq] at done
  obtain ⟨⟨lines, body'⟩, header, out', each, same⟩ := done
  cases same
  exact fields_unbroken (unfolded_unbroken (split_unbroken ⟨List.not_mem_nil, List.not_mem_nil⟩ header)) each

theorem split_line (fine : Unbroken text) (rest : Bytes) : split line (text ++ crlf ++ rest) = split (line ++ text) (crlf ++ rest) := by
  induction text generalizing line with
  | nil => rw [List.append_nil, List.nil_append]
  | cons c text ih =>
    obtain ⟨notCR, notLF⟩ := fine
    rw [List.mem_cons, not_or] at notCR notLF
    rw [List.cons_append, List.cons_append, split.eq_def]
    simp only [if_neg fun same => notCR.1 (Eq.symm same), if_neg fun same => notLF.1 (Eq.symm same)]
    rw [ih ⟨notCR.2, notLF.2⟩, List.append_assoc, List.singleton_append]

end Reading

section Writing

/-- A name of a header field. -/
structure Named (name : Bytes) : Prop where
  some : name ≠ []
  printable : ∀ c ∈ name, 33 ≤ c ∧ c ≤ 126
  colon : 58 ∉ name

def lineOf (f : Bytes × Bytes) : Bytes := f.1 ++ 58 :: 32 :: f.2

/-- The text of a message. -/
def compose (fields : List (Bytes × Bytes)) (body : Bytes) : Bytes := fields.flatMap (fun f => lineOf f ++ crlf) ++ (crlf ++ body)

variable {f : Bytes × Bytes} {out : List (Bytes × Bytes)} {body : Bytes}

theorem Named.unbroken {name : Bytes} (named : Named name) : Unbroken name :=
  ⟨fun member => absurd (named.printable _ member).1 (by decide), fun member => absurd (named.printable _ member).1 (by decide)⟩

theorem lineOf_unbroken (named : Named f.1) (fine : Unbroken f.2) : Unbroken (lineOf f) := by
  have middle : Unbroken [58, 32] := by decide
  exact unbroken_append.mpr ⟨named.unbroken, unbroken_append (a := [58, 32]).mpr ⟨middle, fine⟩⟩

theorem split_compose (named : ∀ f ∈ out, Named f.1) (fine : ∀ f ∈ out, Unbroken f.2) :
    split [] (compose out body) = some (out.map lineOf, body) := by
  induction out with
  | nil => rfl
  | cons f out ih =>
    obtain ⟨first, names⟩ := List.forall_mem_cons.mp named
    obtain ⟨value, values⟩ := List.forall_mem_cons.mp fine
    have text : compose (f :: out) body = lineOf f ++ crlf ++ compose out body := by
      simp only [compose, List.flatMap_cons, List.append_assoc]
    have content : lineOf f ≠ [] := List.append_ne_nil_of_left_ne_nil first.some _
    rw [text, split_line (lineOf_unbroken first value), List.nil_append]
    simp only [crlf, List.cons_append, List.nil_append, split, if_true, if_neg content]
    rw [ih names values]
    rfl

theorem unfolded_lines (named : ∀ f ∈ out, Named f.1) : unfolded (out.map lineOf) = out.map lineOf := by
  induction out with
  | nil => rfl
  | cons f out ih =>
    obtain ⟨-, names⟩ := List.forall_mem_cons.mp named
    have step : unfolded ((f :: out).map lineOf) = fold (lineOf f) (unfolded (out.map lineOf)) := rfl
    rw [step, ih names]
    cases out with
    | nil => rfl
    | cons g out =>
      have second := named g (List.mem_cons_of_mem f List.mem_cons_self)
      obtain ⟨c, rest, name⟩ := List.exists_cons_of_ne_nil second.some
      have visible : blank c = false := by
        have least := (second.printable c (name ▸ List.mem_cons_self)).1
        unfold blank
        rw [Bool.or_eq_false_iff, decide_eq_false_iff_not, decide_eq_false_iff_not]
        constructor <;> rintro rfl <;> exact absurd least (by decide)
      have start : (lineOf g).head?.any blank = false := by
        unfold lineOf
        rw [name]
        exact visible
      rw [List.map_cons, List.map_cons, fold, if_neg (by rw [start]; exact Bool.false_ne_true), List.map_cons]

theorem field_lineOf (named : Named f.1) : field (lineOf f) = some (f.1, f.2.dropWhile blank) := by
  have plain : ∀ c ∈ f.1, decide (c ≠ 58) = true := fun c member => decide_eq_true fun same => named.colon (same ▸ member)
  have name : (lineOf f).takeWhile (· ≠ 58) = f.1 := by
    unfold lineOf
    rw [List.takeWhile_append_of_pos plain]
    simp
  have rest : (lineOf f).dropWhile (· ≠ 58) = 58 :: 32 :: f.2 := by
    unfold lineOf
    rw [List.dropWhile_append_of_pos plain]
    simp
  have printable : f.1.all (fun c => 33 ≤ c ∧ c ≤ 126) = true :=
    List.all_eq_true.mpr fun c member => decide_eq_true (named.printable c member)
  unfold field
  rw [name, rest]
  simp only
  rw [if_pos ⟨named.some, printable⟩]
  rfl

theorem fields_lines (named : ∀ f ∈ out, Named f.1) :
    fields (out.map lineOf) = some (out.map fun f => (f.1, f.2.dropWhile blank)) := by
  induction out with
  | nil => rfl
  | cons f out ih =>
    obtain ⟨first, names⟩ := List.forall_mem_cons.mp named
    rw [List.map_cons, fields, field_lineOf first, ih names]
    rfl

/-- A message whose values have no CR or LF reads back. -/
theorem read_compose (named : ∀ f ∈ out, Named f.1) (fine : ∀ f ∈ out, Unbroken f.2) :
    read (compose out body) = some (out.map fun f => (f.1, f.2.dropWhile blank), body) := by
  unfold read
  rw [split_compose named fine]
  simp only [Option.bind_eq_bind, Option.bind_some]
  rw [unfolded_lines named, fields_lines named]
  rfl

end Writing

end InternetMessage
