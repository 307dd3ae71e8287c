import Mathlib.Algebra.Order.Ring.Nat
import Mathlib.Data.List.Basic

/-! Messages as fields one after the other: a tag with the number of the field and the shape of its content, and the content.
Numbers are in base 128, the low digits first, and every byte but the last says that there is more. -/
namespace Wire

/-- A number has at most so many bytes, and is below a bound; so is the number of a field. -/
structure Limits where
  len : ℕ
  value : ℕ
  field : ℕ

def Limits.Within (lim lim' : Limits) : Prop := lim.len ≤ lim'.len ∧ lim.value ≤ lim'.value ∧ lim.field ≤ lim'.field

/-- The number that some digits are. -/
def number : List UInt8 → ℕ
  | [] => 0
  | b :: bs => b.toNat % 128 + 128 * number bs

/-- The last byte, and only it, says that there is no more. -/
def Closed : List UInt8 → Prop
  | [] => False
  | b :: bs => if b.toNat < 128 then bs = [] else Closed bs

structure Varint (lim : Limits) (n : ℕ) (bs : List UInt8) : Prop where
  closed : Closed bs
  short : bs.length ≤ lim.len
  low : n < lim.value
  same : number bs = n

inductive Content where
  | varint (n : ℕ)
  | fixed64 (bs : List UInt8)
  | delimited (bs : List UInt8)
  | fixed32 (bs : List UInt8)

def Content.wire : Content → ℕ
  | .varint _ => 0
  | .fixed64 _ => 1
  | .delimited _ => 2
  | .fixed32 _ => 5

structure Occurrence where
  field : ℕ
  content : Content

/-- The bytes of a content. -/
def Body (lim : Limits) : Content → List UInt8 → Prop
  | .varint n, bs => Varint lim n bs
  | .fixed64 v, bs => bs = v ∧ v.length = 8
  | .delimited v, bs => ∃ length, Varint lim v.length length ∧ bs = length ++ v
  | .fixed32 v, bs => bs = v ∧ v.length = 4

/-- The bytes of a field. -/
structure Field (lim : Limits) (o : Occurrence) (bs : List UInt8) : Prop where
  positive : 1 ≤ o.field
  low : o.field < lim.field
  split : ∃ tag body, Varint lim (o.field * 8 + o.content.wire) tag ∧ Body lim o.content body ∧ bs = tag ++ body

/-- The bytes of a message. -/
inductive Encoded (lim : Limits) : List Occurrence → List UInt8 → Prop where
  | nil : Encoded lim [] []
  | cons {o : Occurrence} {os : List Occurrence} {b bs : List UInt8} (first : Field lim o b) (rest : Encoded lim os bs) :
    Encoded lim (o :: os) (b ++ bs)

variable {lim lim' : Limits}

theorem number_lt (bs : List UInt8) : number bs < 128 ^ bs.length := by
  induction bs with
  | nil => exact Nat.one_pos
  | cons b bs ih =>
    rw [number, List.length_cons, Nat.pow_succ]
    omega

theorem Closed.ne_nil {bs : List UInt8} (closed : Closed bs) : bs ≠ [] := by
  rintro rfl
  exact closed

/-- Where a number ends is seen from its bytes. -/
theorem Closed.split {c c' r r' : List UInt8} (closed : Closed c) (closed' : Closed c') (same : c ++ r = c' ++ r') : c = c' ∧ r = r' := by
  induction c generalizing c' with
  | nil => cases closed
  | cons b c ih =>
    cases c' with
    | nil => cases closed'
    | cons b' c' =>
      obtain ⟨rfl, rest⟩ := List.cons.inj same
      unfold Closed at closed closed'
      split_ifs at closed closed' with last
      · subst closed closed'
        exact ⟨rfl, rest⟩
      · obtain ⟨rfl, left⟩ := ih closed closed' rest
        exact ⟨rfl, left⟩

theorem Varint.within {n : ℕ} {bs : List UInt8} (varint : Varint lim n bs) (within : lim.Within lim') : Varint lim' n bs :=
  ⟨varint.closed, Nat.le_trans varint.short within.1, Nat.lt_of_lt_of_le varint.low within.2.1, varint.same⟩

theorem Body.within {c : Content} {bs : List UInt8} (body : Body lim c bs) (within : lim.Within lim') : Body lim' c bs := by
  cases c with
  | varint n => exact Varint.within body within
  | fixed64 v => exact body
  | delimited v =>
    obtain ⟨length, varint, same⟩ := body
    exact ⟨length, varint.within within, same⟩
  | fixed32 v => exact body

theorem Field.within {o : Occurrence} {bs : List UInt8} (field : Field lim o bs) (within : lim.Within lim') : Field lim' o bs := by
  obtain ⟨tag, body, varint, content, same⟩ := field.split
  exact ⟨field.positive, Nat.lt_of_lt_of_le field.low within.2.2, tag, body, varint.within within, content.within within, same⟩

theorem Encoded.within {os : List Occurrence} {bs : List UInt8} (encoded : Encoded lim os bs) (within : lim.Within lim') :
    Encoded lim' os bs := by
  induction encoded with
  | nil => exact .nil
  | cons first rest ih => exact .cons (first.within within) ih

theorem Field.ne_nil {o : Occurrence} {bs : List UInt8} (field : Field lim o bs) : bs ≠ [] := by
  obtain ⟨tag, body, varint, -, rfl⟩ := field.split
  exact List.append_ne_nil_of_left_ne_nil varint.closed.ne_nil body

theorem Body.unique {c c' : Content} {b b' r r' : List UInt8} (wire : c.wire = c'.wire) (body : Body lim c b) (body' : Body lim c' b')
    (same : b ++ r = b' ++ r') : c = c' ∧ r = r' := by
  cases c <;> cases c' <;> simp only [Content.wire] at wire <;> try omega
  case varint.varint n n' =>
    obtain ⟨rfl, rest⟩ := body.closed.split body'.closed same
    exact ⟨congrArg _ (body.same.symm.trans body'.same), rest⟩
  case fixed64.fixed64 v v' =>
    obtain ⟨rfl, long⟩ := body
    obtain ⟨rfl, long'⟩ := body'
    obtain ⟨rfl, rest⟩ := List.append_inj same (long.trans long'.symm)
    exact ⟨rfl, rest⟩
  case delimited.delimited v v' =>
    obtain ⟨length, varint, rfl⟩ := body
    obtain ⟨length', varint', rfl⟩ := body'
    rw [List.append_assoc, List.append_assoc] at same
    obtain ⟨lengths, after⟩ := varint.closed.split varint'.closed same
    rw [← lengths] at varint'
    obtain ⟨rfl, rest⟩ := List.append_inj after (varint.same.symm.trans varint'.same)
    exact ⟨rfl, rest⟩
  case fixed32.fixed32 v v' =>
    obtain ⟨rfl, long⟩ := body
    obtain ⟨rfl, long'⟩ := body'
    obtain ⟨rfl, rest⟩ := List.append_inj same (long.trans long'.symm)
    exact ⟨rfl, rest⟩

theorem Content.wire_lt (c : Content) : c.wire < 8 := by
  cases c <;> simp [Content.wire]

/-- The first field of some bytes is seen from them. -/
theorem Field.unique {o o' : Occurrence} {b b' r r' : List UInt8} (field : Field lim o b) (field' : Field lim o' b')
    (same : b ++ r = b' ++ r') : o = o' ∧ r = r' := by
  obtain ⟨tag, body, varint, content, rfl⟩ := field.split
  obtain ⟨tag', body', varint', content', rfl⟩ := field'.split
  rw [List.append_assoc, List.append_assoc] at same
  obtain ⟨rfl, after⟩ := varint.closed.split varint'.closed same
  have tagged : o.field * 8 + o.content.wire = o'.field * 8 + o'.content.wire := varint.same.symm.trans varint'.same
  have low := o.content.wire_lt
  have low' := o'.content.wire_lt
  obtain ⟨contents, rest⟩ := content.unique (by omega) content' after
  refine ⟨?_, rest⟩
  cases o
  cases o'
  cases contents
  congr 1
  dsimp only at tagged
  omega

/-- Bytes are those of one message at most. -/
theorem Encoded.unique {os os' : List Occurrence} {bs : List UInt8} (encoded : Encoded lim os bs) (encoded' : Encoded lim os' bs) : os = os' := by
  induction encoded generalizing os' with
  | nil =>
    generalize none : ([] : List UInt8) = bs at encoded'
    cases encoded' with
    | nil => rfl
    | cons first rest => exact absurd (List.append_eq_nil_iff.mp none.symm).1 first.ne_nil
  | @cons o os b bs first rest ih =>
    generalize all : b ++ bs = whole at encoded'
    cases encoded' with
    | nil => exact absurd (List.append_eq_nil_iff.mp all).1 first.ne_nil
    | @cons o' os' b' bs' first' rest' =>
      obtain ⟨rfl, rfl⟩ := first.unique first' all
      rw [ih rest']

end Wire
