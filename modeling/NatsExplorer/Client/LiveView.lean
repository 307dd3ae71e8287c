import NatsExplorer.Message

/-! What a browser tab holds of one watched subject (`client/src/store/index.ts`,
`client/src/lib/messages.ts`). The feed, the history and the older pages each have
their own way into the list. -/
namespace NatsExplorer.Client
open Go

def maxSubjectMessages : Nat := 1000
def maxLoadedMessages : Nat := 10000
def maxBranchMessages : Nat := 200

def decimal (n : Int) : Str :=
  if n < 0 then '-' :: Nat.toDigits 10 n.natAbs else Nat.toDigits 10 n.natAbs

/-- A sequence of zero is not on the wire. -/
def sequenceText (n : Nat) : Str := if n = 0 then [] else decimal n

/-- Identity of a message: connection, subject, time and arrival number. -/
def messageKey (m : NatsMessage) : Str :=
  m.connID ++ ':' :: (m.subject ++ ':' :: (decimal m.timestamp ++ ':' :: sequenceText m.sequence))

/-- Oldest first, by time and then arrival number. -/
def byArrival (a b : NatsMessage) : Int :=
  if a.timestamp - b.timestamp ≠ 0 then a.timestamp - b.timestamp else a.sequence - b.sequence

/-- `sort` of an array, which is stable. -/
def sort (order : NatsMessage → NatsMessage → Int) (msgs : List NatsMessage) : List NatsMessage :=
  msgs.insertionSort fun a b => order a b ≤ 0

structure LiveView where
  subject : Str
  /-- On exactly the subject, oldest first. -/
  messages : List NatsMessage
  /-- On subjects below it, newest first. -/
  branch : List NatsMessage
  loading : Bool
  error : Option Str
  cap : Nat
  loadingOlder : Bool
  atOldest : Bool
  branchCap : Nat
  loadingOlderBranch : Bool
  branchAtOldest : Bool

def emptyView (subject : Str) : LiveView where
  subject := subject
  messages := []
  branch := []
  loading := true
  error := none
  cap := maxSubjectMessages
  loadingOlder := false
  atOldest := false
  branchCap := maxBranchMessages
  loadingOlderBranch := false
  branchAtOldest := false

structure HistoryResponse where
  messages : List NatsMessage
  branch : List NatsMessage

/-- The last `n`, all of them when there are fewer. -/
def newest (n : Nat) (msgs : List NatsMessage) : List NatsMessage := msgs.drop (msgs.length - n)

/-- What is not in the list yet. -/
def unseen (seen msgs : List NatsMessage) : List NatsMessage :=
  msgs.filter fun m => messageKey m ∉ seen.map messageKey

namespace LiveView

def exact (v : LiveView) (m : NatsMessage) : Bool := m.subject = v.subject
def below (v : LiveView) (m : NatsMessage) : Bool :=
  m.subject ≠ v.subject && strings.hasPrefix m.subject (v.subject ++ ['.'])

def ingestFeed (v : LiveView) (msgs : List NatsMessage) : LiveView :=
  let exact := msgs.filter v.exact
  let below := msgs.filter v.below
  { v with
    messages := if exact = [] then v.messages else newest v.cap (v.messages ++ exact)
    branch := if below = [] then v.branch else (below.reverse ++ v.branch).take v.branchCap }

/-- The feed may have delivered messages while the request was in flight; they are
kept unless the answer replaces the view. -/
def applyHistory (v : LiveView) (res : HistoryResponse) (replace : Bool) : LiveView :=
  let extra := if replace then [] else unseen res.messages v.messages
  let messages := if extra = [] then res.messages else sort byArrival (res.messages ++ extra)
  let branch := if replace then res.branch else unseen res.branch v.branch ++ res.branch
  let branch := if branch.length ≠ res.branch.length then sort (fun a b => byArrival b a) branch
    else branch
  { subject := v.subject
    messages := newest maxSubjectMessages messages
    branch := branch.take maxBranchMessages
    loading := false
    error := none
    cap := maxSubjectMessages
    loadingOlder := false
    atOldest := false
    branchCap := maxBranchMessages
    loadingOlderBranch := false
    branchAtOldest := false }

def prependOlder (v : LiveView) (msgs : List NatsMessage) (atOldest : Bool) : LiveView :=
  let older := unseen v.messages msgs
  let messages := if older = [] then v.messages else sort byArrival (older ++ v.messages)
  let cap := min maxLoadedMessages (max v.cap (messages.length + maxSubjectMessages))
  { v with
    messages := newest cap messages
    cap := cap
    loadingOlder := false
    atOldest := atOldest || maxLoadedMessages ≤ messages.length }

end LiveView

/-- `byArrival` below zero. -/
def Before (a b : NatsMessage) : Prop := byArrival a b < 0

theorem before_iff {a b : NatsMessage} :
    Before a b ↔ a.timestamp < b.timestamp ∨ (a.timestamp = b.timestamp ∧ a.sequence < b.sequence) := by
  unfold Before byArrival
  split <;> omega

theorem byArrival_le {a b : NatsMessage} : byArrival a b ≤ 0 ↔ ¬ Before b a := by
  unfold Before byArrival
  split <;> split <;> omega

theorem Before.trans {a b c : NatsMessage} (first : Before a b) (second : Before b c) : Before a c := by
  rw [before_iff] at *
  omega

theorem Before.irrefl (a : NatsMessage) : ¬ Before a a := by
  rw [before_iff]
  omega

theorem Before.ne {a b : NatsMessage} (before : Before a b) : a ≠ b := by
  rintro rfl
  exact Before.irrefl a before

section Decimal

theorem toDigits_injective {m n : Nat} (same : Nat.toDigits 10 m = Nat.toDigits 10 n) : m = n := by
  have value := congrArg (fun l => Nat.ofDigitChars 10 l 0) same
  simpa only [Nat.ofDigitChars_toDigits (by decide : 1 < 10) (le_refl 10)] using value

theorem not_digit {c : Char} {n : Nat} (other : c.isDigit = false) : c ∉ Nat.toDigits 10 n := by
  intro member
  have digit := Nat.isDigit_of_mem_toDigits (by decide) (le_refl 10) member
  rw [other] at digit
  cases digit

theorem decimal_injective {m n : Int} (same : decimal m = decimal n) : m = n := by
  have minus {k : Nat} {rest : Str} : '-' :: rest ≠ Nat.toDigits 10 k := fun here =>
    not_digit (by decide : '-'.isDigit = false) (here ▸ List.mem_cons_self)
  unfold decimal at same
  split at same <;> split at same
  · have := toDigits_injective (List.cons.inj same).2
    omega
  · exact absurd same minus
  · exact absurd same.symm minus
  · have := toDigits_injective same
    omega

theorem colon_decimal (n : Int) : ':' ∉ decimal n := by
  unfold decimal
  split
  · exact List.not_mem_cons_of_ne_of_not_mem (by decide) (not_digit (by decide))
  · exact not_digit (by decide)

theorem sequenceText_injective {m n : Nat} (same : sequenceText m = sequenceText n) : m = n := by
  have some {k : Int} : decimal k ≠ [] := by
    unfold decimal
    split
    · exact List.cons_ne_nil _ _
    · exact Nat.toDigits_ne_nil
  unfold sequenceText at same
  split at same <;> split at same
  · omega
  · exact absurd same.symm some
  · exact absurd same some
  · exact Int.ofNat_inj.mp (decimal_injective same)

/-- A text up to its first colon. -/
theorem append_colon {a b s t : Str} (first : ':' ∉ a) (second : ':' ∉ b)
    (same : a ++ ':' :: s = b ++ ':' :: t) : a = b ∧ s = t := by
  induction a generalizing b with
  | nil =>
    cases b with
    | nil => exact ⟨rfl, (List.cons.inj same).2⟩
    | cons c b =>
      rw [List.nil_append, List.cons_append, List.cons.injEq] at same
      exact absurd (same.1 ▸ List.mem_cons_self) second
  | cons c a ih =>
    cases b with
    | nil =>
      rw [List.nil_append, List.cons_append, List.cons.injEq] at same
      exact absurd (same.1 ▸ List.mem_cons_self) first
    | cons d b =>
      rw [List.cons_append, List.cons_append, List.cons.injEq] at same
      rw [List.mem_cons, not_or] at first second
      obtain ⟨rest, tail⟩ := ih first.2 second.2 same.2
      exact ⟨by rw [same.1, rest], tail⟩

end Decimal

/-- On one subject of one connection the key says when a message arrived. -/
theorem messageKey_arrival {a b : NatsMessage} (conn : a.connID = b.connID)
    (subject : a.subject = b.subject) (same : messageKey a = messageKey b) :
    a.timestamp = b.timestamp ∧ a.sequence = b.sequence := by
  unfold messageKey at same
  rw [conn, subject] at same
  have tail := List.append_cancel_left same
  obtain ⟨time, arrival⟩ := append_colon (colon_decimal _) (colon_decimal _)
    (List.append_cancel_left (List.cons.inj tail).2 |> List.cons.inj |>.2)
  exact ⟨decimal_injective time, sequenceText_injective arrival⟩

theorem Before.key_ne {a b : NatsMessage} (conn : a.connID = b.connID)
    (subject : a.subject = b.subject) (before : Before a b) : messageKey a ≠ messageKey b := by
  intro same
  have := messageKey_arrival conn subject same
  rw [before_iff] at before
  omega

section Lists

theorem newest_sublist (n : Nat) (msgs : List NatsMessage) : (newest n msgs).Sublist msgs :=
  List.drop_sublist _ _

theorem sort_perm (order : NatsMessage → NatsMessage → Int) (msgs : List NatsMessage) :
    (sort order msgs).Perm msgs :=
  List.perm_insertionSort _ _

theorem sort_sorted (msgs : List NatsMessage) :
    (sort byArrival msgs).Pairwise fun a b => byArrival a b ≤ 0 := by
  have : Std.Total fun a b : NatsMessage => byArrival a b ≤ 0 := ⟨fun a b => by
    rw [byArrival_le, byArrival_le, before_iff, before_iff]
    omega⟩
  have : IsTrans NatsMessage fun a b => byArrival a b ≤ 0 := ⟨fun a b c first second => by
    rw [byArrival_le, before_iff] at *
    omega⟩
  exact List.pairwise_insertionSort _ _

theorem unseen_sublist (seen msgs : List NatsMessage) : (unseen seen msgs).Sublist msgs :=
  List.filter_sublist

theorem mem_unseen {seen msgs : List NatsMessage} {m : NatsMessage} (member : m ∈ unseen seen msgs) :
    m ∈ msgs ∧ m ∉ seen := by
  obtain ⟨here, new⟩ := List.mem_filter.mp member
  exact ⟨here, fun old => of_decide_eq_true new (List.mem_map_of_mem old)⟩

end Lists
end NatsExplorer.Client
