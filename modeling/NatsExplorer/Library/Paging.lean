import NatsExplorer.Library.Descending

/-! Clients that read a list page by page. Every answer is a page and whether
there is more; the last thing of a page asks for the next one. A page may be what
a filter leaves of a longer stretch of some list: then what the client ends up
with depends on how many of each stretch the filter keeps. -/
namespace Paging
variable {A K : Type*} {key : A → K}

structure Answer (A : Type*) where
  page : List A
  more : Bool
  deriving DecidableEq, Repr

/-- The pages from a cursor to the answer that says there is no more. -/
inductive Follow (key : A → K) (answer : Option K → Answer A) : Option K → List (List A) → Prop
  | last {c : Option K} : (answer c).more = false → Follow key answer c [(answer c).page]
  | more {c : Option K} {pages : List (List A)} : (answer c).more = true →
      Follow key answer (next key c (answer c).page) pages →
      Follow key answer c ((answer c).page :: pages)

/-- The pages from a cursor to an empty one, where each request has its own limit. -/
inductive Lists (key : A → K) (answer : Option K → Nat → List A) :
    (Nat → Nat) → Option K → List A → Prop
  | done {limits : Nat → Nat} {c : Option K} : answer c (limits 0) = [] →
      Lists key answer limits c []
  | more {limits : Nat → Nat} {c : Option K} {listed : List A} : answer c (limits 0) ≠ [] →
      Lists key answer (fun i => limits (i + 1)) (next key c (answer c (limits 0))) listed →
      Lists key answer limits c (answer c (limits 0) ++ listed)

variable {answer : Option K → Answer A} {paged : Option K → Nat → List A} {c : Option K}
  {limits : Nat → Nat}

theorem Follow.unique {pages pages' : List (List A)} (first : Follow key answer c pages)
    (second : Follow key answer c pages') : pages = pages' := by
  induction first generalizing pages' with
  | last none =>
    cases second with
    | last _ => rfl
    | more there _ =>
      rw [none] at there
      cases there
  | more there _ ih =>
    cases second with
    | last none =>
      rw [there] at none
      cases none
    | more _ rest => rw [ih rest]

/-- A client that reaches the end was never sent back with an empty page. -/
theorem Follow.productive {pages : List (List A)} (follow : Follow key answer c pages)
    (more : (answer c).more = true) : (answer c).page ≠ [] := by
  induction follow with
  | last none =>
    rw [none] at more
    cases more
  | @more c pages there _ ih =>
    intro empty
    rw [empty, next_nil] at ih
    exact ih there empty

theorem Lists.unique {l l' : List A} (first : Lists key paged limits c l)
    (second : Lists key paged limits c l') : l = l' := by
  induction first generalizing l' with
  | done none =>
    cases second with
    | done _ => rfl
    | more there _ => exact absurd none there
  | more there _ ih =>
    cases second with
    | done none => exact absurd none there
    | more _ rest => rw [ih rest]

variable [LinearOrder K] {wanted scanned : List A} {valid : Option K → Prop}

/-- Whatever the limits are, the pages of a list are the list. -/
theorem lists_after (valid : Option K → Prop) {l : List A} (desc : Descending key l) (closed : ∀ a ∈ l, valid (some (key a)))
    (answers : ∀ c n, valid c → paged c n = (after key l c).take n) (room : ∀ i, 0 < limits i) (ok : valid c) :
    Lists key paged limits c (after key l c) := by
  induction size : (after key l c).length using Nat.strongRecOn generalizing c limits with
  | ind n ih =>
    have page := answers c (limits 0) ok
    by_cases empty : after key l c = []
    · rw [empty] at page ⊢
      exact .done (page.trans List.take_nil)
    · have pre : paged c (limits 0) <+: after key l c := page ▸ List.take_prefix _ _
      have filled : paged c (limits 0) ≠ [] := by
        rw [page, ne_eq, List.take_eq_nil_iff, not_or]
        exact ⟨(room 0).ne', empty⟩
      have split := desc.after_next pre
      have fewer := congrArg List.length split
      have grown := List.length_pos_of_ne_nil filled
      rw [List.length_append] at fewer
      obtain ⟨a, member, cursor⟩ := next_mem key c filled
      have known := closed a ((after_sublist key l c).subset (pre.subset member))
      rw [← cursor] at known
      rw [split]
      exact .more filled (ih _ (by omega) (fun i => room (i + 1)) known rfl)

/-- Read one at a time, what is listed descends. -/
theorem Lists.descending (valid : Option K → Prop) {l : List A} (lists : Lists key paged limits c l)
    (single : ∀ c i, valid c → (paged c (limits i)).length ≤ 1)
    (closed : ∀ c n, valid c → ∀ a ∈ paged c n, valid (some (key a)))
    (below : ∀ k n, valid (some k) → ∀ a ∈ paged (some k) n, key a < k) (ok : valid c) :
    Descending key l ∧ ∀ k ∈ c, ∀ a ∈ l, key a < k := by
  induction lists with
  | done _ => exact ⟨Descending.nil, fun _ _ _ none => absurd none List.not_mem_nil⟩
  | @more limits c listed filled _ ih =>
    obtain ⟨a, page⟩ := List.length_eq_one_iff.mp
      (le_antisymm (single c 0 ok) (List.length_pos_of_ne_nil filled))
    have left : next key c (paged c (limits 0)) = some (key a) := by rw [page]; rfl
    obtain ⟨desc, less⟩ := ih (fun c i => single c (i + 1))
      (left ▸ closed c _ ok a (page ▸ List.mem_cons_self))
    have later : ∀ b ∈ listed, key b < key a := less (key a) left
    rw [page]
    refine ⟨List.pairwise_cons.mpr ⟨later, desc⟩, fun k here b member => ?_⟩
    have first : key a < k := by
      rw [Option.mem_def.mp here] at page ok
      exact below k _ ok a (page ▸ List.mem_cons_self)
    rcases List.mem_cons.mp member with rfl | rest
    · exact first
    · exact (later b rest).trans first

/-- From every cursor a client gets what it wants, newest first and once, and an
answer without more leaves nothing. -/
def Complete (key : A → K) (answer : Option K → Answer A) (wanted : List A)
    (valid : Option K → Prop) : Prop :=
  ∀ c, valid c →
    ((answer c).more = false → after key wanted (next key c (answer c).page) = []) ∧
      ∃ pages, Follow key answer c pages ∧ pages.flatten = after key wanted c

/-- What completeness asks of one answer. -/
def Meets (key : A → K) (wanted : List A) (c : Option K) (a : Answer A) : Prop :=
  if a.more then a.page ≠ [] ∧ a.page <+: after key wanted c else a.page = after key wanted c

theorem follow_of_meets (desc : Descending key wanted)
    (closed : ∀ a ∈ wanted, valid (some (key a)))
    (meets : ∀ c, valid c → Meets key wanted c (answer c)) (ok : valid c) :
    ∃ pages, Follow key answer c pages ∧ pages.flatten = after key wanted c := by
  induction size : (after key wanted c).length using Nat.strongRecOn generalizing c with
  | ind n ih =>
    have here := meets c ok
    cases more : (answer c).more with
    | false =>
      rw [Meets, more, if_neg Bool.false_ne_true] at here
      exact ⟨_, .last more, by simpa using here⟩
    | true =>
      rw [Meets, more, if_pos rfl] at here
      obtain ⟨filled, pre⟩ := here
      have split := desc.after_next pre
      have fewer := congrArg List.length split
      have grown := List.length_pos_of_ne_nil filled
      rw [List.length_append] at fewer
      have ok' : valid (next key c (answer c).page) := by
        obtain ⟨a, member, cursor⟩ := next_mem key c filled
        rw [cursor]
        exact closed a ((after_sublist key wanted c).subset (pre.subset member))
      obtain ⟨pages, follow, rest⟩ := ih _ (by omega) ok' rfl
      exact ⟨_, .more more follow, by rw [List.flatten_cons, rest, ← split]⟩

/-- Completeness is a matter of one answer at a time. -/
theorem complete_iff (desc : Descending key wanted)
    (closed : ∀ a ∈ wanted, valid (some (key a))) :
    Complete key answer wanted valid ↔ ∀ c, valid c → Meets key wanted c (answer c) := by
  constructor
  · intro complete c ok
    obtain ⟨_, pages, follow, all⟩ := complete c ok
    cases more : (answer c).more with
    | false =>
      rw [Meets, more, if_neg Bool.false_ne_true, ← all]
      cases follow with
      | last _ => simp
      | more there _ =>
        rw [more] at there
        cases there
    | true =>
      rw [Meets, more, if_pos rfl, ← all]
      refine ⟨follow.productive more, ?_⟩
      cases follow with
      | last none =>
        rw [more] at none
        cases none
      | more _ _ => exact List.prefix_append _ _
  · intro meets c ok
    refine ⟨fun none => ?_, follow_of_meets desc closed meets ok⟩
    have here := meets c ok
    rw [Meets, none, if_neg Bool.false_ne_true] at here
    have split := desc.after_next (here ▸ List.prefix_rfl : (answer c).page <+: after key wanted c)
    have sizes := congrArg List.length split
    rw [List.length_append, ← here] at sizes
    exact List.length_eq_zero_iff.mp (by omega)

section Scans

/-- An answer read off the first `scan` things of a list: what `keep` leaves of
them, at most `limit`. -/
def scanAnswer (scanned : List A) (keep : A → Bool) (scan limit : Nat) (full : Bool) : Answer A where
  page := ((scanned.take scan).filter keep).take limit
  more := full

/-- A full scan saw as much as it may, another one saw everything. -/
def Measured (scanned : List A) (scan : Nat) (full : Bool) : Prop :=
  if full then scan ≤ scanned.length else scanned.length ≤ scan

/-- A full scan kept something, another one did not keep too much. -/
def Enough (scanned : List A) (keep : A → Bool) (scan limit : Nat) (full : Bool) : Prop :=
  if full then ∃ a ∈ scanned.take scan, keep a = true else (scanned.filter keep).length ≤ limit

instance (scanned : List A) (keep : A → Bool) (scan limit : Nat) (full : Bool) :
    Decidable (Enough scanned keep scan limit full) :=
  inferInstanceAs (Decidable (if full then ∃ a ∈ scanned.take scan, keep a = true else _))

/-- Reads on in a second list, below where the first one ends. -/
def readOn (key : A → K) (l l' : List A) (c : Option K) (n : Nat) : List A × Bool :=
  let page := (after key l c).take n
  if page.length = n then (page, true)
  else
    let rest := after key l' (next key c page)
    (page ++ rest.take (n - page.length), n - page.length < rest.length)

/-- Whether there is more to read: the first list fills the page, or both have more. -/
def isFull (key : A → K) (l l' : List A) (n : Nat) (c : Option K) : Bool :=
  decide (n ≤ (after key l c).length ∨ n < (after key (continued key l l') c).length)

/-- That is to read one list. -/
theorem readOn_eq {l : List A} (desc : Descending key l) (l' : List A) (c : Option K) (n : Nat) :
    readOn key l l' c n = ((after key (continued key l l') c).take n, isFull key l l' n c) := by
  have sized := List.length_take (i := n) (l := after key l c)
  rw [isFull, after_continued desc]
  simp only [readOn, List.length_append]
  split
  · rename_i filled
    rw [List.take_append_of_le_length (by omega), decide_eq_true (Or.inl (by omega))]
  · rename_i short
    have whole : (after key l c).take n = after key l c := List.take_of_length_le (by omega)
    rw [whole] at short sized ⊢
    rw [List.take_append, whole, Prod.mk.injEq, decide_eq_decide]
    refine ⟨rfl, ?_⟩
    omega

theorem isFull_measured {l : List A} (desc : Descending key l) (l' : List A) (n : Nat) (c : Option K) :
    Measured (after key (continued key l l') c) n (isFull key l l' n c) := by
  rw [Measured, isFull, after_continued desc, List.length_append]
  simp only [decide_eq_true_eq]
  split <;> omega

variable {keep : A → Bool} {scan limit : Nat} {full : Bool}

theorem scan_prefix (scanned : List A) (keep : A → Bool) (scan limit : Nat) :
    ((scanned.take scan).filter keep).take limit <+: scanned.filter keep :=
  (List.take_prefix _ _).trans ((List.take_prefix scan scanned).filter keep)

theorem meets_of_enough (room : 0 < limit) (measured : Measured scanned scan full)
    (agree : scanned.filter keep = after key wanted c)
    (enough : Enough scanned keep scan limit full) :
    Meets key wanted c (scanAnswer scanned keep scan limit full) := by
  cases full with
  | true =>
    obtain ⟨a, member, kept⟩ := enough
    refine ⟨?_, agree ▸ scan_prefix scanned keep scan limit⟩
    have here : a ∈ (scanned.take scan).filter keep := List.mem_filter.mpr ⟨member, kept⟩
    simp only [scanAnswer, ne_eq, List.take_eq_nil_iff, not_or]
    exact ⟨by omega, List.ne_nil_of_mem here⟩
  | false =>
    have whole : scanned.length ≤ scan := measured
    have few : (scanned.filter keep).length ≤ limit := enough
    simp only [Meets, scanAnswer, List.take_of_length_le whole, List.take_of_length_le few]
    exact agree

/-- Where nothing is filtered out, the pages are the list. -/
theorem follow_scans (limit : Nat) {full : Option K → Bool} (order : Descending key scanned) (room : 0 < limit)
    (every : ∀ a, keep a = true) (closed : ∀ a ∈ scanned, valid (some (key a)))
    (measured : ∀ c, valid c → Measured (after key scanned c) limit (full c))
    (answers : ∀ c, valid c → answer c = scanAnswer (after key scanned c) keep limit limit (full c)) (ok : valid c) :
    ∃ pages, Follow key answer c pages ∧ pages.flatten = after key scanned c := by
  have same (l : List A) : l.filter keep = l := List.filter_eq_self.mpr fun a _ => every a
  refine follow_of_meets order closed (fun c ok => ?_) ok
  rw [answers c ok]
  refine meets_of_enough room (measured c ok) (same _) ?_
  have sized := measured c ok
  cases flag : full c with
  | true =>
    rw [flag, Measured, if_pos rfl] at sized
    obtain ⟨a, member⟩ := List.exists_mem_of_length_pos (l := (after key scanned c).take limit) (by
      rw [List.length_take]
      omega)
    exact ⟨a, member, every a⟩
  | false =>
    rw [flag, Measured, if_neg Bool.false_ne_true] at sized
    rw [Enough, if_neg Bool.false_ne_true, same]
    exact sized

/-- Where the answers come from scans of one list, completeness says that the
list and the wanted one have the same matches, and that every scan kept enough. -/
theorem scans_iff (scans : Option K → Prop) {full : Option K → Bool}
    (desc : Descending key wanted) (order : Descending key scanned) (room : 0 < limit)
    (closed : ∀ a ∈ wanted, valid (some (key a))) (later : ∀ k, scans (some k))
    (measured : ∀ c, valid c → scans c → Measured (after key scanned c) scan (full c))
    (answers : ∀ c, valid c → scans c →
      answer c = scanAnswer (after key scanned c) keep scan limit (full c)) :
    (∀ c, valid c → scans c → Meets key wanted c (answer c)) ↔
      ∀ c, valid c → scans c → (after key scanned c).filter keep = after key wanted c ∧
        Enough (after key scanned c) keep scan limit (full c) := by
  constructor
  · intro meets c
    induction size : (after key wanted c).length using Nat.strongRecOn generalizing c with
    | ind n ih =>
      intro ok scanning
      have here := meets c ok scanning
      rw [answers c ok scanning] at here
      have sized := measured c ok scanning
      have pre := scan_prefix (after key scanned c) keep scan limit
      -- What is left behind a page that is not empty is settled by the next answer.
      have rest (filled : (answer c).page ≠ []) (part : (answer c).page <+: after key wanted c) :
          (after key scanned c).filter keep = after key wanted c := by
        have split := desc.after_next part
        have fewer := congrArg List.length split
        have grown := List.length_pos_of_ne_nil filled
        rw [List.length_append] at fewer
        obtain ⟨a, member, cursor⟩ := next_mem key c filled
        have ok' := closed a ((after_sublist key wanted c).subset (part.subset member))
        rw [← cursor] at ok'
        have left := (ih _ (by omega) _ rfl ok' (cursor ▸ later (key a))).1
        rw [answers c ok scanning] at split left filled
        rw [after_filter] at pre left ⊢
        rw [split, (order.filter keep).after_next pre, ← left]
        rfl
      rw [← answers c ok scanning] at here
      cases flag : full c with
      | true =>
        have same : (answer c).more = true := by rw [answers c ok scanning]; exact flag
        rw [Meets, same, if_pos rfl] at here
        refine ⟨rest here.1 here.2, ?_⟩
        obtain ⟨a, member⟩ := List.exists_mem_of_ne_nil _ here.1
        rw [answers c ok scanning] at member
        obtain ⟨seen, kept⟩ := List.mem_filter.mp (List.mem_of_mem_take member)
        exact ⟨a, seen, kept⟩
      | false =>
        have same : (answer c).more = false := by rw [answers c ok scanning]; exact flag
        rw [Meets, same, if_neg Bool.false_ne_true] at here
        have whole : (after key scanned c).length ≤ scan := by rwa [flag] at sized
        have page : (answer c).page = ((after key scanned c).filter keep).take limit := by
          rw [answers c ok scanning, scanAnswer, List.take_of_length_le whole]
        have agree : (after key scanned c).filter keep = after key wanted c := by
          by_cases empty : (answer c).page = []
          · rw [← here, empty]
            rw [page, List.take_eq_nil_iff] at empty
            exact empty.resolve_left (by omega)
          · exact rest empty (here ▸ List.prefix_rfl)
        refine ⟨agree, ?_⟩
        rw [Enough, if_neg Bool.false_ne_true, agree, ← here, page]
        exact List.length_take_le ..
  · intro agree c ok scanning
    rw [answers c ok scanning]
    exact meets_of_enough room (measured c ok scanning) (agree c ok scanning).1
      (agree c ok scanning).2

/-- Where every answer comes from a scan, the first cursor settles the matches. -/
theorem complete_scans_iff {full : Option K → Bool} (desc : Descending key wanted) (order : Descending key scanned)
    (room : 0 < limit) (closed : ∀ a ∈ wanted, valid (some (key a))) (start : valid none)
    (measured : ∀ c, valid c → Measured (after key scanned c) scan (full c))
    (answers : ∀ c, valid c → answer c = scanAnswer (after key scanned c) keep scan limit (full c)) :
    Complete key answer wanted valid ↔ scanned.filter keep = wanted ∧
      ∀ c, valid c → Enough (after key scanned c) keep scan limit (full c) := by
  have each := scans_iff (fun _ => True) desc order room closed (fun _ => trivial)
    (fun c ok _ => measured c ok) (fun c ok _ => answers c ok)
  rw [complete_iff desc closed]
  constructor
  · intro meets
    have settled := each.mp fun c ok _ => meets c ok
    exact ⟨(settled none start trivial).1, fun c ok => (settled c ok trivial).2⟩
  · rintro ⟨agree, enough⟩ c ok
    refine each.mpr (fun c ok _ => ⟨?_, enough c ok⟩) c ok trivial
    rw [after_filter, agree]

end Scans
end Paging
