import NatsExplorer.Library.Transition
import NatsExplorer.Subscription.Clients

/-! The budgets of one tab's feed in a second (`admit` in `internal/subscription/manager.go`): messages, messages of one
subject, bytes, and of the first and the last no more than half for what repeats a subject. -/
namespace NatsExplorer.Subscription.Budget
open Go Transition Clients

/-- A message by its subject and its size. -/
abbrev Offer := Str × ℕ

/-- A tab and what was admitted to its feed since the second began. -/
structure Second where
  client : Client
  admitted : List Offer

/-- The messages whose subject came before them. -/
def repeats : List Str → List Offer → List Offer
  | _, [] => []
  | seen, m :: l => if m.1 ∈ seen then m :: repeats seen l else repeats (m.1 :: seen) l

/-- The first messages of their subjects. -/
def firsts : List Str → List Offer → List Offer
  | _, [] => []
  | seen, m :: l => if m.1 ∈ seen then firsts seen l else m :: firsts (m.1 :: seen) l

def size (l : List Offer) : ℕ := (l.map Prod.snd).sum

namespace Second

def begin (c : Client) : Second where
  client := c.resetSecond
  admitted := []

def offer (s : Second) (m : Offer) : Second :=
  match s.client.admits m.1 m.2 with
  | (c, true) => { client := c, admitted := s.admitted ++ [m] }
  | (c, false) => { client := c, admitted := s.admitted }

def repeated (s : Second) : List Offer := repeats [] s.admitted

def first (s : Second) : List Offer := firsts [] s.admitted

end Second

/-- What a feed takes in a second. -/
structure Within (s : Second) : Prop where
  messages : s.admitted.length ≤ maxMsgsPerSecondPerClient
  subject : ∀ subject, s.admitted.countP (fun m => m.1 = subject) ≤ maxMsgsPerSecondPerSubject
  bytes : size s.admitted ≤ maxBytesPerSecondPerClient ∨ s.admitted.length = 1
  repeats : s.repeated.length ≤ maxMsgsPerSecondPerClient / 2
  repeatedBytes : size s.repeated ≤ maxBytesPerSecondPerClient / 2
  /-- What is refused though it is the first of its subject would with the other first ones be beyond half a budget. -/
  fresh : ∀ m : Offer, m.1 ∉ s.admitted.map Prod.fst → (s.client.admits m.1 m.2).2 = false →
    maxMsgsPerSecondPerClient / 2 ≤ s.first.length ∨ maxBytesPerSecondPerClient / 2 < size s.first + m.2

/-- A repeat that the guards let through has room in the half that repeats may take. -/
def Fits (s : Second) (m : Offer) : Prop :=
  m.1 ∈ s.admitted.map Prod.fst → s.admitted.countP (fun a => a.1 = m.1) < maxMsgsPerSecondPerSubject →
    s.admitted.length < maxMsgsPerSecondPerClient / 2 → size s.admitted < maxBytesPerSecondPerClient / 2 →
    size s.admitted + m.2 ≤ maxBytesPerSecondPerClient → size s.repeated + m.2 ≤ maxBytesPerSecondPerClient / 2

/-- The counters are those of what was admitted. -/
structure Charged (s : Second) : Prop where
  sent : s.client.sent = s.admitted.length
  sentBytes : s.client.sentBytes = size s.admitted
  perSubject : ∀ subject, (s.client.perSubject.lookup subject).getD 0 = s.admitted.countP fun m => m.1 = subject

section Lists
variable {seen : List Str} {l : List Offer} {m : Offer}

theorem size_append (m : Offer) : size (l ++ [m]) = size l + m.2 := by
  simp [size]

theorem repeats_append : repeats seen (l ++ [m]) = repeats seen l ++ if m.1 ∈ seen ∨ m.1 ∈ l.map Prod.fst then [m] else [] := by
  induction l generalizing seen with
  | nil => by_cases again : m.1 ∈ seen <;> simp [repeats, again]
  | cons a l ih =>
    rw [List.cons_append, repeats, repeats]
    split
    · next again =>
      rw [ih, List.cons_append]
      have same : (m.1 ∈ seen ∨ m.1 ∈ (a :: l).map Prod.fst) ↔ m.1 ∈ seen ∨ m.1 ∈ l.map Prod.fst := by
        rw [List.map_cons, List.mem_cons]
        exact ⟨fun either => either.elim Or.inl fun later => later.elim (fun here => Or.inl (here ▸ again)) Or.inr,
          fun either => either.imp_right Or.inr⟩
      simp only [same]
    · rw [ih]
      simp only [List.map_cons, List.mem_cons, or_assoc, or_left_comm]

/-- Every message is a first one or a repeat. -/
theorem length_eq : l.length = (firsts seen l).length + (repeats seen l).length := by
  induction l generalizing seen with
  | nil => rfl
  | cons a l ih =>
    rw [firsts, repeats]
    split
    · rw [List.length_cons, List.length_cons, @ih seen]
      omega
    · rw [List.length_cons, List.length_cons, @ih (a.1 :: seen)]
      omega

theorem size_eq : size l = size (firsts seen l) + size (repeats seen l) := by
  induction l generalizing seen with
  | nil => rfl
  | cons a l ih =>
    have one (l : List Offer) : size (a :: l) = a.2 + size l := List.sum_cons
    rw [firsts, repeats]
    split
    · rw [one, one, @ih seen]
      omega
    · rw [one, one, @ih (a.1 :: seen)]
      omega

end Lists

section Step
variable {s : Second} {m : Offer}

/-- What the guards let through. -/
structure Let (s : Second) (m : Offer) : Prop where
  subject : s.admitted.countP (fun a => a.1 = m.1) < maxMsgsPerSecondPerSubject
  messages : s.admitted.length < maxMsgsPerSecondPerClient
  bytes : 0 < s.admitted.length → size s.admitted + m.2 ≤ maxBytesPerSecondPerClient
  again : m.1 ∈ s.admitted.map Prod.fst →
    s.admitted.length < maxMsgsPerSecondPerClient / 2 ∧ size s.admitted < maxBytesPerSecondPerClient / 2

theorem countP_pos_iff : 0 < s.admitted.countP (fun a => a.1 = m.1) ↔ m.1 ∈ s.admitted.map Prod.fst := by
  rw [List.countP_pos_iff, List.mem_map]
  simp only [decide_eq_true_eq]

theorem admits_let (charged : Charged s) (through : Let s m) : s.client.admits m.1 m.2 = ({ s.client with
    perSubject := s.client.perSubject.insert m.1 ((s.client.perSubject.lookup m.1).getD 0 + 1)
    sent := s.client.sent + 1
    sentBytes := s.client.sentBytes + m.2 }, true) := by
  have room : ¬ (maxMsgsPerSecondPerSubject ≤ (s.client.perSubject.lookup m.1).getD 0 ∨ maxMsgsPerSecondPerClient ≤ s.client.sent) := by
    rw [charged.perSubject, charged.sent]
    exact not_or.mpr ⟨not_le.mpr through.subject, not_le.mpr through.messages⟩
  have light : ¬ (0 < s.client.sent ∧ maxBytesPerSecondPerClient < s.client.sentBytes + m.2) := by
    rw [charged.sent, charged.sentBytes]
    exact fun heavy => absurd (through.bytes heavy.1) heavy.2.not_ge
  have clear : ¬ (0 < (s.client.perSubject.lookup m.1).getD 0 ∧
      (maxMsgsPerSecondPerClient / 2 ≤ s.client.sent ∨ maxBytesPerSecondPerClient / 2 ≤ s.client.sentBytes)) := by
    rw [charged.perSubject, charged.sent, charged.sentBytes, countP_pos_iff]
    rintro ⟨again, half⟩
    obtain ⟨few, small⟩ := through.again again
    exact half.elim (fun many => absurd few many.not_gt) fun large => absurd small large.not_gt
  simp only [Client.admits, if_neg room, if_neg light, if_neg clear]

theorem admits_refused (charged : Charged s) (refused : ¬ Let s m) : s.client.admits m.1 m.2 = (s.client, false) := by
  simp only [Client.admits, charged.sent, charged.sentBytes, charged.perSubject, countP_pos_iff]
  split_ifs with full heavy half
  · rfl
  · rfl
  · rfl
  · refine absurd ?_ refused
    obtain ⟨subject, messages⟩ := not_or.mp full
    refine ⟨not_le.mp subject, not_le.mp messages, fun some => not_lt.mp fun beyond => heavy ⟨some, beyond⟩, fun again => ?_⟩
    obtain ⟨few, small⟩ := not_or.mp fun either => half ⟨again, either⟩
    exact ⟨not_le.mp few, not_le.mp small⟩

/-- A message joins the feed and is charged, or nothing changes. -/
theorem offer_cases (charged : Charged s) (m : Offer) :
    (Let s m ∧ (s.offer m).admitted = s.admitted ++ [m] ∧ Charged (s.offer m)) ∨ (¬ Let s m ∧ s.offer m = s) := by
  by_cases through : Let s m
  · refine Or.inl ⟨through, ?_⟩
    rw [Second.offer, admits_let charged through]
    refine ⟨rfl, ?_, ?_, fun subject => ?_⟩
    · rw [List.length_append, ← charged.sent]
      rfl
    · rw [size_append, ← charged.sentBytes]
    · by_cases same : subject = m.1
      · subst same
        simp [charged.perSubject]
      · simp [AList.lookup_insert_ne same, charged.perSubject, Ne.symm same]
  · refine Or.inr ⟨through, ?_⟩
    rw [Second.offer, admits_refused charged through]

theorem charged_begin (c : Client) : Charged (.begin c) where
  sent := rfl
  sentBytes := rfl
  perSubject _ := rfl

/-- What repeats do not take is there for first messages. -/
theorem fresh_of (charged : Charged s) (repeats : s.repeated.length ≤ maxMsgsPerSecondPerClient / 2)
    (repeatedBytes : size s.repeated ≤ maxBytesPerSecondPerClient / 2) (new : m.1 ∉ s.admitted.map Prod.fst)
    (refused : (s.client.admits m.1 m.2).2 = false) :
    maxMsgsPerSecondPerClient / 2 ≤ s.first.length ∨ maxBytesPerSecondPerClient / 2 < size s.first + m.2 := by
  have messages : s.admitted.length = s.first.length + s.repeated.length := length_eq
  have bytes : size s.admitted = size s.first + size s.repeated := size_eq
  have halves : maxMsgsPerSecondPerClient = 2000 ∧ maxBytesPerSecondPerClient = 2097152 := ⟨rfl, rfl⟩
  by_contra room
  obtain ⟨few, light⟩ := not_or.mp room
  rw [halves.1] at repeats few
  rw [halves.2] at repeatedBytes light
  have through : Let s m := {
    subject := by
      rw [Nat.eq_zero_of_not_pos fun some => new (countP_pos_iff.mp some)]
      decide
    messages := by
      rw [halves.1]
      omega
    bytes := fun _ => by
      rw [halves.2]
      omega
    again := fun there => absurd there new }
  rw [admits_let charged through] at refused
  cases refused

theorem within_begin (c : Client) : Within (.begin c) where
  messages := Nat.zero_le _
  subject _ := Nat.zero_le _
  bytes := Or.inl (Nat.zero_le _)
  repeats := Nat.zero_le _
  repeatedBytes := Nat.zero_le _
  fresh _ new refused := fresh_of (charged_begin c) (Nat.zero_le _) (Nat.zero_le _) new refused

/-- A message that fits keeps the budgets. -/
theorem within_offer (charged : Charged s) (within : Within s) (fits : Fits s m) : Charged (s.offer m) ∧ Within (s.offer m) := by
  rcases offer_cases charged m with ⟨through, admitted, charged'⟩ | ⟨-, same⟩
  · have repeated : (s.offer m).repeated = s.repeated ++ if m.1 ∈ s.admitted.map Prod.fst then [m] else [] := by
      rw [Second.repeated, admitted, repeats_append]
      simp only [List.not_mem_nil, false_or]
      rfl
    have some {l : List Offer} {a : Offer} (there : a.1 ∈ l.map Prod.fst) : 0 < l.length := by
      cases l with
      | nil => cases there
      | cons _ _ => exact Nat.succ_pos _
    have parts : s.admitted.length = s.first.length + s.repeated.length := length_eq
    have repeats : (s.offer m).repeated.length ≤ maxMsgsPerSecondPerClient / 2 := by
      rw [repeated, List.length_append]
      split
      · next again =>
        have := (through.again again).1
        rw [List.length_singleton]
        omega
      · exact within.repeats
    have repeatedBytes : size (s.offer m).repeated ≤ maxBytesPerSecondPerClient / 2 := by
      rw [repeated]
      split
      · next again =>
        obtain ⟨few, small⟩ := through.again again
        rw [size_append]
        exact fits again through.subject few small (through.bytes (some again))
      · rw [List.append_nil]
        exact within.repeatedBytes
    refine ⟨charged', ?_, fun subject => ?_, ?_, repeats, repeatedBytes, fun a => fresh_of charged' repeats repeatedBytes⟩
    · rw [admitted, List.length_append]
      exact through.messages
    · rw [admitted, List.countP_append, List.countP_singleton]
      split
      · next same =>
        rw [← of_decide_eq_true same]
        exact through.subject
      · exact within.subject subject
    · rw [admitted, size_append]
      rcases s.admitted.length.eq_zero_or_pos with none | more
      · exact Or.inr (by rw [List.length_append, none, List.length_singleton])
      · exact Or.inl (through.bytes more)
  · rw [same]
    exact ⟨charged, within⟩

/-- What does not fit is admitted, and seen to be too much. -/
theorem fits_of_within (charged : Charged s) (within : Within (s.offer m)) : Fits s m := by
  intro again subject few small light
  have through : Let s m := ⟨subject, few.trans_le (by decide), fun _ => light, fun _ => ⟨few, small⟩⟩
  rcases offer_cases charged m with ⟨-, admitted, -⟩ | ⟨refused, -⟩
  · have repeated : (s.offer m).repeated = s.repeated ++ [m] := by
      rw [Second.repeated, admitted, repeats_append, if_pos (Or.inr again)]
      rfl
    have := within.repeatedBytes
    rwa [repeated, size_append] at this
  · exact absurd through refused

end Step

/-- A repeat of almost all the bytes follows a message of one. -/
def largeRepeat : List Offer := [(['a'], 1), (['a'], 2 * 2 ^ 20 - 1)]

end NatsExplorer.Subscription.Budget
