import NatsExplorer.Client.ExportRange
import NatsExplorer.Client.LiveView
import NatsExplorer.Connection.Saved
import NatsExplorer.Library.Rereading

/-! The search field of the browser (`client/src/components/subjects/HistorySearch.tsx`): a first page of hits over all
connections, and older ones below the last hit shown. The database pages by time and sequence, memory by sequence alone. -/
namespace NatsExplorer.Client
open Go History Handler Paging Streams

/-- `SEARCH_PAGE` -/
def searchPage : Nat := 200

structure SearchState where
  q : Str
  results : Option (List NatsMessage)
  loading : Bool
  error : Option Str
  /-- `false` searches every subject instead of the selected one. -/
  scoped_ : Bool
  more : Bool
  loadingMore : Bool

/-- The parameters of `api.searchHistory`; `range` and the cursor are optional. -/
def searchHistory (subject q : Str) (range : Option (Int × Int)) (before : Option (Int × Nat)) : SearchQuery where
  subject := subject
  q := q
  connID := []
  expr := []
  fromTs := (range.map Prod.fst).getD 0
  toTs := (range.map Prod.snd).getD 0
  limit := some searchPage
  beforeTs := (before.map Prod.fst).getD 0
  beforeSeq := (before.map Prod.snd).getD 0

namespace SearchState
variable (api : SearchQuery → Except Error SearchResponse) (subject : Option Str) (range : Option (Int × Int))

def empty (s : SearchState) : SearchState :=
  { s with results := none, loading := false, error := none, more := false, loadingMore := false }

/-- An empty subject searches every subject of every connection. -/
def searched (scoped_ : Bool) : Str := if scoped_ then subject.getD [] else []

/-- `run`, with the answer to its request. -/
def run (s : SearchState) (next : Str) (inScope : Bool) : SearchState :=
  let s := { s with q := next }
  if Connection.trim next = [] ∨ (inScope ∧ subject.getD [] = []) then s.empty
  else
    match api (searchHistory (searched subject inScope) (Connection.trim next) range none) with
    | .ok res => { s with results := some res.messages, loading := false, error := none, more := res.more, loadingMore := false }
    | .error err => { s with results := some [], loading := false, error := some err.message, more := false, loadingMore := false }

def setQuery (s : SearchState) (next : Str) : SearchState := s.run api subject range next s.scoped_

def setScoped (s : SearchState) (b : Bool) : SearchState := { s with scoped_ := b }.run api subject range s.q b

/-- `loadMore`, with the answer to its request. Hits are newest first, so the last one is the cursor. -/
def loadMore (s : SearchState) : SearchState :=
  match s.results.bind List.getLast? with
  | none => s
  | some oldest =>
    if Connection.trim s.q = [] ∨ s.more = false ∨ s.loadingMore then s
    else
      match api (searchHistory (searched subject s.scoped_) (Connection.trim s.q) range
        (some (oldest.timestamp, oldest.sequence))) with
      | .ok res =>
        let shown := s.results.getD []
        { s with results := some (shown ++ unseen shown res.messages), more := res.more, loadingMore := false }
      | .error err => { s with loadingMore := false, error := some err.message }

end SearchState

section Hits
variable [Tables] [Filter.Compiler] [Tokenizer] {h : HistoryHandler} {visible : List Str} {all : Str → List Record}

/-- What one search without a limit would find. -/
def unlimited (rt : Runtime) (h : HistoryHandler) (now : Int) (visible : List Str) (q : SearchQuery) (n : Nat) :
    List NatsMessage :=
  newestFirst (visible.flatMap (searchOne rt h now q n))

/-- What comes below a hit: for memory only its sequence counts. -/
def cutAt (h : HistoryHandler) (k m : NatsMessage) : Bool :=
  match h.db with
  | none => m.sequence < k.sequence
  | some _ => m.mark < k.mark

/-- What a cursor leaves of a connection. -/
def restOf (h : HistoryHandler) (lists : Str → List NatsMessage) (c : Option NatsMessage) (id : Str) : List NatsMessage :=
  match c with
  | none => lists id
  | some k => (lists id).filter (cutAt h k)

/-- The hits as they are paged: what one search without a limit finds, read below the last hit shown. -/
def paged (h : HistoryHandler) (found : List NatsMessage) : Rereading.Source NatsMessage where
  all := found
  cut := cutAt h
  n := searchPage

def goesOn (h : HistoryHandler) (visible : List Str) (lists : Str → List NatsMessage) (c : Option NatsMessage) : Bool :=
  moreOf visible (restOf h lists c) searchPage

/-- The hits of several connections in one list. -/
def merged (visible : List Str) (lists : Str → List NatsMessage) : List NatsMessage := newestFirst (visible.flatMap lists)

/-- What the connections have for a search. -/
structure Hits (h : HistoryHandler) (visible : List Str) (lists : Str → List NatsMessage) : Prop where
  listed : Listed visible lists
  dated : ∀ id, ∀ m ∈ lists id, 0 < m.timestamp
  numbered : ∀ id, ∀ m ∈ lists id, 0 < m.sequence
  /-- Within a connection time and sequence agree. -/
  agree : ∀ id, ∀ m ∈ lists id, ∀ k ∈ lists id, cutAt h k m = true → m.mark < k.mark

omit [Tables] [Filter.Compiler] [Tokenizer]

variable {lists : Str → List NatsMessage}

theorem cutAt_trans {a b c : NatsMessage} (first : cutAt h a b = true) (second : cutAt h b c = true) : cutAt h a c = true := by
  revert first second
  unfold cutAt
  cases h.db with
  | none => exact fun first second => decide_eq_true ((of_decide_eq_true second).trans (of_decide_eq_true first))
  | some _ => exact fun first second => decide_eq_true ((of_decide_eq_true second).trans (of_decide_eq_true first))

/-- A hit of the same place is not below it. -/
theorem cutAt_same {k m : NatsMessage} (same : k.mark = m.mark) : cutAt h k m = false := by
  unfold cutAt
  split
  · have number : k.sequence = m.sequence := congrArg (fun mark : Mark => (ofLex mark).2) same
    rw [number]
    exact decide_eq_false (lt_irrefl _)
  · rw [same]
    exact decide_eq_false (lt_irrefl _)

/-- Two messages of one key came at the same time with the same number. -/
theorem messageKey_mark {a b : NatsMessage} (same : messageKey a = messageKey b) : a.mark = b.mark := by
  have colon (n : Nat) : ':' ∉ sequenceText n := by
    unfold sequenceText
    split
    · exact List.not_mem_nil
    · exact colon_decimal _
  have turned := congrArg List.reverse same
  simp only [messageKey, List.reverse_append, List.reverse_cons, List.append_assoc, List.singleton_append] at turned
  obtain ⟨number, rest⟩ := append_colon (mt List.mem_reverse.mp (colon _)) (mt List.mem_reverse.mp (colon _)) turned
  obtain ⟨time, _⟩ := append_colon (mt List.mem_reverse.mp (colon_decimal _)) (mt List.mem_reverse.mp (colon_decimal _)) rest
  have times := decimal_injective (List.reverse_injective time)
  have numbers := sequenceText_injective (List.reverse_injective number)
  unfold NatsMessage.mark
  rw [times, numbers]

theorem Hits.rest_listed (hits : Hits h visible lists) (c : Option NatsMessage) : Listed visible (restOf h lists c) := by
  cases c with
  | none => exact hits.listed
  | some k => exact ⟨hits.listed.distinct, fun id m member => hits.listed.own id m (List.mem_of_mem_filter member),
      fun id => (hits.listed.desc id).filter _⟩

theorem paged_rest (c : Option NatsMessage) :
    (paged h (merged visible lists)).rest c = newestFirst (visible.flatMap (restOf h lists c)) := by
  cases c with
  | none => rfl
  | some k =>
    change (newestFirst (visible.flatMap lists)).filter (cutAt h k) = _
    rw [newestFirst_eq, insertionSort_filter, List.filter_flatMap]
    rfl

variable (h visible lists) in
theorem rest_size (c : Option NatsMessage) :
    ((paged h (merged visible lists)).rest c).length = (visible.flatMap (restOf h lists c)).length := by
  rw [paged_rest]
  exact (Runtime.insertion_perm _ _).length_eq

theorem mark_le_of_last {l : List NatsMessage} {k m : NatsMessage} (order : l.Pairwise fun a b => older a b = false)
    (at_ : l.getLast? = some k) (member : m ∈ l) : k.mark ≤ m.mark := by
  obtain ⟨front, rfl⟩ := List.getLast?_eq_some_iff.mp at_
  rcases List.mem_append.mp member with before | last
  · exact older_eq_false.mp ((List.pairwise_append.mp order).2.2 m before k List.mem_cons_self)
  · rw [List.mem_singleton.mp last]

theorem paged_sorted {j : Nat} {a b : NatsMessage}
    (first : a ∈ (paged h (merged visible lists)).all.take j) (second : b ∈ (paged h (merged visible lists)).all.drop j) : b.mark ≤ a.mark := by
  have order : (newestFirst (visible.flatMap lists)).Pairwise fun a b => older a b = false := List.pairwise_insertionSort _ _
  rw [← List.take_append_drop j (newestFirst _)] at order
  exact older_eq_false.mp ((List.pairwise_append.mp order).2.2 a first b second)

/-- Where an answer is short but says that there is more, it is all of one connection. -/
theorem Hits.one_connection (hits : Hits h visible lists) {c : Option NatsMessage}
    (few : ((paged h (merged visible lists)).rest c).length ≤ searchPage) (more : goesOn h visible lists c = true) :
    ∃ id, ∀ m ∈ (paged h (merged visible lists)).rest c, m.connID = id := by
  rw [rest_size] at few
  have listed := hits.rest_listed c
  rcases Bool.or_eq_true_iff.mp more with many | many
  · exact absurd (of_decide_eq_true many) (not_lt.mpr few)
  · obtain ⟨id, there, full⟩ := List.any_eq_true.mp many
    have own := listed.part_newestFirst id
    rw [if_pos there] at own
    refine ⟨id, fun m member => ?_⟩
    rw [paged_rest] at member
    have size : (newestFirst (visible.flatMap (restOf h lists c))).length ≤ (restOf h lists c id).length := by
      rw [← paged_rest, rest_size]
      exact few.trans (of_decide_eq_true full)
    rw [← own] at size
    have whole := (List.filter_sublist (p := fun m : NatsMessage => decide (m.connID = id))).eq_of_length_le size
    rw [← whole] at member
    exact of_decide_eq_true (List.mem_filter.mp member).2

theorem Hits.sound (hits : Hits h visible lists) : (paged h (merged visible lists)).Sound (goesOn h visible lists) messageKey where
  room := (by decide : 0 < searchPage)
  nodup := by
    have every := (hits.listed.reading (visible.flatMap lists).length).nodup
    rw [Handler.newest, List.take_of_length_le (by rw [newestFirst, (Runtime.insertion_perm _ _).length_eq])] at every
    exact every
  trans _ _ _ := cutAt_trans
  full c many := by
    rw [rest_size] at many
    exact Bool.or_eq_true_iff.mpr (Or.inl (decide_eq_true many))
  empty c none := by
    have size := rest_size h visible lists c
    rw [none, List.length_nil] at size
    have each : ∀ id ∈ visible, restOf h lists c id = [] := fun id there =>
      List.flatMap_eq_nil_iff.mp (List.length_eq_zero_iff.mp size.symm) id there
    refine Bool.or_eq_false_iff.mpr ⟨decide_eq_false (by rw [← size]; exact Nat.not_lt_zero _), ?_⟩
    exact List.any_eq_false.mpr fun id there => by rw [each id there]; decide
  last c l few more at_ within := by
    obtain ⟨id, own⟩ := hits.one_connection few more
    refine List.filter_eq_nil_iff.mpr fun m member below => ?_
    have here : m ∈ (paged h (merged visible lists)).rest c := by
      cases c with
      | none => exact member
      | some k => exact List.mem_filter.mpr ⟨member, cutAt_trans (List.mem_filter.mp within).2 below⟩
    have order : (newestFirst (visible.flatMap lists)).Pairwise fun a b => older a b = false := List.pairwise_insertionSort _ _
    have of_id {m : NatsMessage} (member : m ∈ (paged h (merged visible lists)).all) (own : m.connID = id) : m ∈ lists id := by
      obtain ⟨id', _, listed⟩ := List.mem_flatMap.mp ((Runtime.insertion_perm _ _).mem_iff.mp member)
      rwa [← own, hits.listed.own id' m listed]
    have lower := hits.agree id m (of_id member (own m here)) l (of_id (List.mem_of_getLast? at_) (own l within)) below
    exact lower.not_ge (mark_le_of_last order at_ member)
  apart j k at_ a first b second same := by
    refine cutAt_same (le_antisymm ?_ (paged_sorted (List.mem_of_getLast? at_) second))
    rw [← messageKey_mark same]
    have order : (newestFirst (visible.flatMap lists)).Pairwise fun a b => older a b = false := List.pairwise_insertionSort _ _
    exact mark_le_of_last (order.sublist (List.take_sublist j _)) at_ first

end Hits

section Answers
variable [Tables] [Filter.Compiler] [Tokenizer] {h : HistoryHandler} {visible : List Str} {all : Str → List Record}
  {q : SearchQuery}

/-- A page of the search for every connection. -/
def Pages (rt : SearchQuery → Runtime) (h : HistoryHandler) (now : SearchQuery → Int) (visible : List Str) (q : SearchQuery)
    (lists : Str → List NatsMessage) : Prop :=
  ∀ c : Option NatsMessage, (∀ k ∈ c, 0 < k.timestamp ∧ 0 < k.sequence) → ∀ n, ∀ id ∈ visible,
    let q := q.page (c.map NatsMessage.mark)
    searchOne (rt q) h (now q) q n id = (restOf h lists c id).take n

/-- The first page is not from the word index. -/
def Scanned (h : HistoryHandler) (now : SearchQuery → Int) (visible : List Str) (q : SearchQuery) : Prop :=
  ∀ db, h.db = some db → ∀ id ∈ visible, SearchQuery.indexed { q with connID := id } db (now (q.page none)) = false

omit [Filter.Compiler] in
theorem Recording.memory_hits (recording : Recording h visible all) (rt : SearchQuery → Runtime) (now : SearchQuery → Int)
    (closed : h.db = none) : ∃ lists, Hits h visible lists ∧ Pages rt h now visible q lists := by
  choose! earlier current mem same rec_ using recording.recorded
  have known {id : Str} {m : NatsMessage} (member : m ∈ if id ∈ visible then held id (mem id) q.finds else []) :
      id ∈ visible ∧ ∃ r ∈ mem id, r.wire id = m := by
    split at member
    · exact ⟨‹_›, mem_picked member⟩
    · cases member
  refine ⟨fun id => if id ∈ visible then held id (mem id) q.finds else [], ⟨⟨recording.distinct, ?_, ?_⟩, ?_, ?_, ?_⟩, ?_⟩
  · intro id m member
    obtain ⟨_, r, _, rfl⟩ := known member
    rfl
  · intro id
    split
    · exact picked_desc (rec_ id ‹_›).distinct fun _ => rfl
    · exact Descending.nil
  · intro id m member
    obtain ⟨there, r, inside, rfl⟩ := known member
    exact ((rec_ id there).numbered r (List.mem_append_right _ ((rec_ id there).part.subset inside))).1
  · intro id m member
    obtain ⟨there, r, inside, rfl⟩ := known member
    exact ((rec_ id there).numbered r (List.mem_append_right _ ((rec_ id there).part.subset inside))).2
  · intro id m member k member' below
    obtain ⟨there, r, inside, rfl⟩ := known member
    obtain ⟨_, r', inside', rfl⟩ := known member'
    rw [cutAt, closed] at below
    exact ((rec_ id there).sequence_lt ((rec_ id there).part.subset inside) ((rec_ id there).part.subset inside')).mp
      (of_decide_eq_true below)
  · intro c positive n id there
    have page := (rec_ id there).found_page (q := { q with connID := id }) (c := c.map NatsMessage.mark)
      (rt (q.page (c.map NatsMessage.mark))) (now (q.page (c.map NatsMessage.mark))) closed n
    rw [List.map_take] at page
    refine page.trans (congrArg (List.take n) ?_)
    cases c with
    | none =>
      rw [restOf, if_pos there]
      have every (l : List Record) : l.filter (olderSeq 0) = l := List.filter_eq_self.mpr fun r _ => rfl
      exact congrArg (List.map fun r : Record => r.wire id) (every _)
    | some k =>
      rw [restOf, if_pos there, held, picked, List.filter_map]
      refine congrArg (List.map fun r : Record => r.wire id) (List.filter_congr fun r _ => ?_)
      rw [Function.comp_apply, cutAt, closed, olderSeq]
      change (decide (k.sequence = 0) || decide (r.sequence < k.sequence)) = decide (r.sequence < k.sequence)
      rw [decide_eq_false (positive k rfl).2.ne', Bool.false_or]

/-- What the database has of a search. -/
def onDisk (visible : List Str) (all : Str → List Record) (q : SearchQuery) (id : Str) : List NatsMessage :=
  if id ∈ visible then stored id (all id) q.reads else []

omit [Filter.Compiler] in
theorem Recording.disk_hits (recording : Recording h visible all) (rt : SearchQuery → Runtime) (now : SearchQuery → Int)
    (past : ∀ q, ∀ id ∈ visible, ∀ r ∈ all id, r.timestamp ≤ now q) {db : DB} (open_ : h.db = some db)
    (scanned : Scanned h now visible q) :
    Hits h visible (onDisk visible all q) ∧ Pages rt h now visible q (onDisk visible all q) := by
  choose! earlier current mem same rec_ using recording.recorded
  have known {id : Str} {m : NatsMessage} (member : m ∈ onDisk visible all q id) :
      id ∈ visible ∧ ∃ r ∈ all id, r.stored.wire id = m := by
    unfold onDisk at member
    split at member
    · exact ⟨‹_›, mem_picked member⟩
    · cases member
  refine ⟨⟨⟨recording.distinct, ?_, ?_⟩, ?_, ?_, ?_⟩, ?_⟩
  · intro id m member
    obtain ⟨_, r, _, rfl⟩ := known member
    rfl
  · intro id
    unfold onDisk
    split
    · next there =>
      rw [same id there]
      exact (rec_ id there).stored_desc _
    · exact Descending.nil
  · intro id m member
    obtain ⟨there, r, inside, rfl⟩ := known member
    exact ((rec_ id there).numbered r (same id there ▸ inside)).1
  · intro id m member
    obtain ⟨there, r, inside, rfl⟩ := known member
    exact ((rec_ id there).numbered r (same id there ▸ inside)).2
  · intro id m member k member' below
    rw [cutAt, open_] at below
    exact of_decide_eq_true below
  · intro c positive n id there
    have date : Dated (c.map NatsMessage.mark) := by
      intro k here
      obtain ⟨m, from_, rfl⟩ := Option.map_eq_some_iff.mp here
      exact (positive m from_).1
    have page := (rec_ id there).scanned_page (q := { q with connID := id }) (c := c.map NatsMessage.mark)
      (rt (q.page (c.map NatsMessage.mark))) date (fun r inside => past (q.page (c.map NatsMessage.mark)) id there r (same id there ▸ inside)) open_
      (fun none => by rw [Option.map_eq_none_iff.mp none]; exact scanned db open_ id there) n
    refine page.trans (congrArg (List.take n) ?_)
    rw [← same id there]
    cases c with
    | none => exact (if_pos there).symm
    | some k =>
      rw [restOf, onDisk, if_pos there]
      refine List.filter_congr fun m _ => ?_
      rw [cutAt, open_]

variable (rt : SearchQuery → Runtime) (now : SearchQuery → Int) {lists : Str → List NatsMessage} {subject : Option Str}
  {range : Option (Int × Int)} {next : Str} {inScope : Bool}

variable (h visible) in
/-- The server, as the browser asks it. -/
def finds (q : SearchQuery) : Except Error SearchResponse := search (rt q) h (now q) visible q

variable {rt now}

theorem Hits.answer (hits : Hits h visible lists) (pages : Pages rt h now visible q lists) (every : q.connID = [])
    (plain : q.expr = []) (lines : q.lines = searchPage) {c : Option NatsMessage}
    (positive : ∀ k ∈ c, 0 < k.timestamp ∧ 0 < k.sequence) :
    finds h visible rt now (q.page (c.map NatsMessage.mark)) = .ok ⟨q.subject, q.q, [],
      ((paged h (merged visible lists)).rest c).take searchPage, goesOn h visible lists c⟩ := by
  have ids : connIDs visible (q.page (c.map NatsMessage.mark)).connID = visible := if_neg (not_not.mpr every)
  have listed := hits.rest_listed c
  rw [← ids] at listed
  have asked := search_plain (q := q.page (c.map NatsMessage.mark)) (rt (q.page (c.map NatsMessage.mark)))
    (now (q.page (c.map NatsMessage.mark))) visible plain listed fun id there => pages c positive _ id (ids ▸ there)
  rw [ids] at asked
  rw [paged_rest]
  refine asked.trans ?_
  change Except.ok (SearchResponse.mk q.subject q.q [] (Handler.newest visible (restOf h lists c) q.lines)
    (moreOf visible (restOf h lists c) q.lines)) = _
  rw [lines]
  rfl

/-- What the search shows, while it goes on. -/
structure Tracks (h : HistoryHandler) (visible : List Str) (lists : Str → List NatsMessage) (next : Str) (inScope : Bool)
    (s : SearchState) (shown : Rereading.Shown NatsMessage) : Prop where
  q : s.q = next
  within : s.scoped_ = inScope
  results : s.results = some shown.list
  more : s.more = shown.more
  idle : s.loadingMore = false
  known : shown.list ⊆ merged visible lists

theorem Hits.run_first (hits : Hits h visible lists)
    (pages : Pages rt h now visible (searchHistory (SearchState.searched subject inScope) (Connection.trim next) range none) lists)
    (searched : Connection.trim next ≠ [] ∧ ¬ (inScope ∧ subject.getD [] = [])) (s : SearchState) (same : s.scoped_ = inScope) :
    Tracks h visible lists next inScope (s.run (finds h visible rt now) subject range next inScope)
      (Rereading.first (paged h (merged visible lists)) (goesOn h visible lists)) := by
  have answer : finds h visible rt now (searchHistory (SearchState.searched subject inScope) (Connection.trim next) range none) =
      .ok ⟨SearchState.searched subject inScope, Connection.trim next, [], (merged visible lists).take searchPage,
        goesOn h visible lists none⟩ :=
    hits.answer (c := none) pages rfl rfl rfl fun _ here => absurd here (Option.not_mem_none _)
  have state : s.run (finds h visible rt now) subject range next inScope =
      { s with
        q := next
        results := some ((merged visible lists).take searchPage)
        loading := false
        error := none
        more := goesOn h visible lists none
        loadingMore := false } := by
    simp only [SearchState.run, if_neg (not_or.mpr searched), answer]
  rw [state]
  exact ⟨rfl, same, rfl, rfl, rfl, List.take_subset _ _⟩

theorem Hits.load_next (hits : Hits h visible lists)
    (pages : Pages rt h now visible (searchHistory (SearchState.searched subject inScope) (Connection.trim next) range none) lists)
    (searched : Connection.trim next ≠ []) {s : SearchState} {shown : Rereading.Shown NatsMessage}
    (follows : Tracks h visible lists next inScope s shown) :
    Tracks h visible lists next inScope (s.loadMore (finds h visible rt now) subject range)
      (Rereading.next (paged h (merged visible lists)) (goesOn h visible lists) messageKey shown) := by
  have known := Rereading.next_subset (s := paged h (merged visible lists)) (goesOn h visible lists) messageKey follows.known
  obtain ⟨q, within, results, more, idle, inside⟩ := follows
  have last : s.results.bind List.getLast? = shown.list.getLast? := by rw [results]; rfl
  unfold SearchState.loadMore
  rw [last]
  cases at_ : shown.list.getLast? with
  | none =>
    have same : Rereading.next (paged h (merged visible lists)) (goesOn h visible lists) messageKey shown = shown := by
      unfold Rereading.next
      rw [at_]
      cases shown.more <;> rfl
    rw [same]
    exact ⟨q, within, results, more, idle, inside⟩
  | some oldest =>
    cases goes : shown.more with
    | false =>
      rw [goes] at more
      have still : Connection.trim s.q = [] ∨ s.more = false ∨ s.loadingMore = true := Or.inr (Or.inl more)
      rw [Rereading.next_stopped goes]
      simp only [if_pos still]
      exact ⟨q, within, results, more.trans goes.symm, idle, inside⟩
    | true =>
      rw [goes] at more
      have member : oldest ∈ merged visible lists := inside (List.mem_of_getLast? at_)
      obtain ⟨id, _, listed⟩ := List.mem_flatMap.mp ((Runtime.insertion_perm _ _).mem_iff.mp member)
      have answer : finds h visible rt now (searchHistory (SearchState.searched subject inScope) (Connection.trim next) range
          (some (oldest.timestamp, oldest.sequence))) =
          .ok ⟨SearchState.searched subject inScope, Connection.trim next, [],
            ((paged h (merged visible lists)).rest (some oldest)).take searchPage, goesOn h visible lists (some oldest)⟩ := by
        refine hits.answer (c := some oldest) pages rfl rfl rfl ?_
        rintro _ ⟨⟩
        exact ⟨hits.dated id oldest listed, hits.numbered id oldest listed⟩
      have going : ¬ (Connection.trim s.q = [] ∨ s.more = false ∨ s.loadingMore = true) := by
        rw [q, more, idle]
        simpa using searched
      have step : Rereading.next (paged h (merged visible lists)) (goesOn h visible lists) messageKey shown =
          ⟨shown.list ++ unseen shown.list (((paged h (merged visible lists)).rest (some oldest)).take searchPage),
            goesOn h visible lists (some oldest)⟩ := by
        unfold Rereading.next
        rw [goes, at_]
        refine congrArg (fun new => Rereading.Shown.mk (shown.list ++ new) (goesOn h visible lists (some oldest))) ?_
        exact List.filter_congr fun m _ => decide_eq_decide.mpr Iff.rfl
      rw [step] at known ⊢
      simp only [if_neg going]
      simp only [q, within, answer, results, Option.getD_some]
      exact ⟨rfl, rfl, rfl, rfl, rfl, known⟩

/-- Older hits are loaded until there are no more, and then all of them are shown, each once. -/
def AllShown (load : SearchState → SearchState) (s : SearchState) (found : List NatsMessage) : Prop :=
  ∃ n, (load^[n] s).more = false ∧ ∃ shown, (load^[n] s).results = some shown ∧ shown.Perm found

omit [Filter.Compiler] in
theorem unlimited_eq (pages : Pages rt h now visible q lists) {n : Nat} (enough : (merged visible lists).length ≤ n) :
    unlimited (rt (q.page none)) h (now (q.page none)) visible (q.page none) n = merged visible lists := by
  have page (id : Str) (there : id ∈ visible) :
      searchOne (rt (q.page none)) h (now (q.page none)) (q.page none) n id = lists id := by
    have first := pages none (fun _ here => absurd here (Option.not_mem_none _)) n id there
    refine first.trans (List.take_of_length_le (le_trans ?_ enough))
    rw [merged, newestFirst, (Runtime.insertion_perm _ _).length_eq]
    exact (List.sublist_flatten_of_mem (List.mem_map_of_mem there)).length_le
  rw [unlimited, List.flatMap_congr page]
  rfl

theorem Hits.allShown_iff (hits : Hits h visible lists) (s : SearchState)
    (searched : Connection.trim next ≠ [] ∧ ¬ (s.scoped_ ∧ subject.getD [] = []))
    (pages : Pages rt h now visible (searchHistory (SearchState.searched subject s.scoped_) (Connection.trim next) range none) lists) :
    AllShown (SearchState.loadMore (finds h visible rt now) subject range)
        (s.setQuery (finds h visible rt now) subject range next) (merged visible lists) ↔
      ∀ j, (paged h (merged visible lists)).Turn j → j < (merged visible lists).length →
        (paged h (merged visible lists)).Clean j := by
  have run (n : Nat) : Tracks h visible lists next s.scoped_
      ((SearchState.loadMore (finds h visible rt now) subject range)^[n]
        (s.setQuery (finds h visible rt now) subject range next))
      ((Rereading.next (paged h (merged visible lists)) (goesOn h visible lists) messageKey)^[n]
        (Rereading.first (paged h (merged visible lists)) (goesOn h visible lists))) := by
    induction n with
    | zero => exact hits.run_first pages searched s rfl
    | succ n ih =>
      rw [Function.iterate_succ_apply', Function.iterate_succ_apply']
      exact hits.load_next pages searched.1 ih
  refine Iff.trans ?_ hits.sound.complete_iff
  refine exists_congr fun n => ?_
  rw [(run n).more]
  refine and_congr_right fun _ => ?_
  constructor
  · rintro ⟨shown, results, perm⟩
    rw [(run n).results] at results
    exact Option.some.inj results ▸ perm
  · exact fun perm => ⟨_, (run n).results, perm⟩

/-- A search shows all it finds just where every page that leaves hits to come ends at a hit that all of those are
below, and fewer than a page of those shown. -/
theorem search_whole_iff (rt : SearchQuery → Runtime) (now : SearchQuery → Int) (recording : Recording h visible all)
    (past : ∀ q, ∀ id ∈ visible, ∀ r ∈ all id, r.timestamp ≤ now q) (s : SearchState)
    (searched : Connection.trim next ≠ [] ∧ ¬ (s.scoped_ ∧ subject.getD [] = []))
    (scanned : Scanned h now visible (searchHistory (SearchState.searched subject s.scoped_) (Connection.trim next) range none)) :
    let q := searchHistory (SearchState.searched subject s.scoped_) (Connection.trim next) range none
    ∃ found, (∀ n, found.length ≤ n → unlimited (rt q) h (now q) visible q n = found) ∧
      (AllShown (SearchState.loadMore (finds h visible rt now) subject range)
          (s.setQuery (finds h visible rt now) subject range next) found ↔
        ∀ j, (paged h found).Turn j → j < found.length → (paged h found).Clean j) := by
  intro q
  obtain ⟨lists, hits, pages⟩ : ∃ lists, Hits h visible lists ∧ Pages rt h now visible q lists := by
    cases open_ : h.db with
    | none => exact recording.memory_hits rt now open_
    | some db => exact ⟨_, recording.disk_hits rt now past open_ scanned⟩
  exact ⟨merged visible lists, fun n enough => unlimited_eq pages enough, hits.allShown_iff s searched pages⟩

end Answers

section Sample

/-- The search field of a subject, before anything is typed. -/
def idle : SearchState where
  q := []
  results := none
  loading := false
  error := none
  scoped_ := true
  more := false
  loadingMore := false

/-- The search for `1` on the subject `s`. -/
def oneSearch : SearchQuery := searchHistory (SearchState.searched (some ['s']) true) (Connection.trim ['1']) none none

theorem twoHandler_scanned (t n : Nat) : let _ := asciiTables; let _ := Persistence.oneToken
    Scanned (twoHandler t n) (fun _ => n + 1) [['a'], ['b']] oneSearch := by
  rintro _ _ db ⟨⟩ id _
  exact List.any_eq_false.mpr fun r _ => by simp [Asked.hits]

theorem oneSearch_reads {t n : Nat} : let _ := asciiTables
    ∀ id, ∀ r ∈ recordsOf t n id, oneSearch.reads r = true := by
  intro _ id r known
  obtain ⟨k, rfl⟩ : ∃ k, r = pairRecord k := by
    unfold recordsOf at known
    split at known
    · exact ⟨t, List.mem_singleton.mp known⟩
    · obtain ⟨i, _, rfl⟩ := List.mem_map.mp known
      exact ⟨i + 2, rfl⟩
  refine Bool.and_eq_true_iff.mpr ⟨Bool.and_eq_true_iff.mpr ⟨Bool.and_eq_true_iff.mpr ⟨?_, rfl⟩, rfl⟩, ?_⟩
  · exact decide_eq_true (Int.natCast_nonneg k)
  · rfl

theorem merged_two {t : Nat} (early : t ≤ 2) (n : Nat) : let _ := asciiTables
    merged [['a'], ['b']] (onDisk [['a'], ['b']] (recordsOf t n) oneSearch) =
      stored ['a'] (recordsOf t n ['a']) oneSearch.reads ++ stored ['b'] (recordsOf t n ['b']) oneSearch.reads := by
  intro _
  exact newestFirst_two early n oneSearch.reads

theorem merged_length {t : Nat} (early : t ≤ 2) (n : Nat) : let _ := asciiTables
    (merged [['a'], ['b']] (onDisk [['a'], ['b']] (recordsOf t n) oneSearch)).length = n + 1 := by
  intro _
  rw [merged_two early, List.length_append, stored_length (oneSearch_reads _), stored_length (oneSearch_reads _), recordsOf_newer]
  rfl

/-- Two hits are on one page. -/
theorem shown_two : let _ := asciiTables; let _ := allMatch; let _ := Persistence.oneToken
    let api := finds (twoHandler 1 1) [['a'], ['b']] (fun _ => .plain) fun _ => 2
    ∃ found, (∀ n, found.length ≤ n → unlimited .plain (twoHandler 1 1) 2 [['a'], ['b']] oneSearch n = found) ∧
      AllShown (SearchState.loadMore api (some ['s']) none) (idle.setQuery api (some ['s']) none ['1']) found := by
  let _ := asciiTables
  let _ := allMatch
  let _ := Persistence.oneToken
  intro _ _ _ api
  have past : ∀ q : SearchQuery, ∀ id ∈ [['a'], ['b']], ∀ r ∈ recordsOf 1 1 id, r.timestamp ≤ (fun _ => 2 : SearchQuery → Int) q :=
    fun _ => twoHandler_past (by decide)
  have recording := twoHandler_recording Nat.one_pos 1
  obtain ⟨found, whole, shown⟩ := search_whole_iff (fun _ => .plain) (fun _ => 2) recording past idle
    (by decide : Connection.trim ['1'] ≠ [] ∧ ¬ (idle.scoped_ ∧ (some ['s']).getD [] = [])) (twoHandler_scanned 1 1)
  refine ⟨found, whole, shown.mpr fun j turn before => ?_⟩
  have pages := (recording.disk_hits (fun _ => .plain) (fun _ => 2) past rfl (twoHandler_scanned 1 1)).2
  have size := merged_length (by decide : 1 ≤ 2) 1
  have same := (whole (found.length + 2) (by omega)).symm.trans (unlimited_eq pages (by rw [size]; omega))
  rw [same, size] at before
  exact absurd (turn.le.trans_lt before) (by change ¬ 200 < 2; decide)

/-- A page ends between two hits of one time and one sequence, and the second is never shown. -/
theorem tied {n : Nat} (page : n = searchPage) : let _ := asciiTables; let _ := allMatch; let _ := Persistence.oneToken
    let api := finds (twoHandler 2 n) [['a'], ['b']] (fun _ => .plain) fun _ => n + 1
    ∃ found, (∀ m, found.length ≤ m → unlimited .plain (twoHandler 2 n) (n + 1) [['a'], ['b']] oneSearch m = found) ∧
      ¬ AllShown (SearchState.loadMore api (some ['s']) none) (idle.setQuery api (some ['s']) none ['1']) found := by
  let _ := asciiTables
  let _ := allMatch
  let _ := Persistence.oneToken
  intro _ _ _ api
  have past : ∀ q : SearchQuery, ∀ id ∈ [['a'], ['b']], ∀ r ∈ recordsOf 2 n id,
      r.timestamp ≤ (fun _ => n + 1 : SearchQuery → Int) q := fun _ => twoHandler_past (by rw [page]; decide)
  obtain ⟨hits, pages⟩ := (twoHandler_recording Nat.two_pos n).disk_hits (fun _ => .plain) (fun _ => n + 1) past rfl
    (twoHandler_scanned 2 n)
  have size := merged_length (le_refl 2) n
  refine ⟨_, fun m enough => unlimited_eq pages enough, ?_⟩
  rw [hits.allShown_iff idle (by decide) pages]
  intro clean
  have first := clean searchPage .first (by rw [size, page]; exact Nat.lt_succ_self _)
  rw [← page] at first
  have length : (stored ['a'] (recordsOf 2 n ['a']) oneSearch.reads).length = n := by
    rw [stored_length (oneSearch_reads _), recordsOf_newer]
  have last : (stored ['a'] (recordsOf 2 n ['a']) oneSearch.reads).getLast? = some ((pairRecord 2).stored.wire ['a']) := by
    have some_ : n ≠ 0 := by rw [page]; decide
    rw [stored, picked, List.filter_eq_self.mpr (oneSearch_reads _), recordsOf, if_neg (by decide), List.getLast?_map,
      List.getLast?_reverse, List.head?_map, List.head?_range, if_neg some_]
    rfl
  have split := merged_two (le_refl 2) n
  obtain ⟨below, _⟩ := first ((pairRecord 2).stored.wire ['a']) (by
    change (List.take n (merged _ _)).getLast? = _
    rw [split, List.take_append_of_le_length (by rw [length]), List.take_of_length_le (by rw [length]), last])
  have other : (pairRecord 2).stored.wire ['b'] ∈ List.drop n (merged [['a'], ['b']] (onDisk [['a'], ['b']] (recordsOf 2 n) oneSearch)) := by
    rw [split, List.drop_append_of_le_length (by rw [length]), List.drop_of_length_le (by rw [length]), List.nil_append, stored,
      picked, List.filter_eq_self.mpr (oneSearch_reads _)]
    exact List.mem_cons_self
  have place : ((pairRecord 2).stored.wire ['a']).mark = ((pairRecord 2).stored.wire ['b']).mark := rfl
  have out : cutAt (twoHandler 2 n) ((pairRecord 2).stored.wire ['a']) ((pairRecord 2).stored.wire ['b']) = false := cutAt_same place
  exact Bool.noConfusion ((below _ other).symm.trans out)

theorem tied_out : let _ := asciiTables; let _ := allMatch; let _ := Persistence.oneToken
    let api := finds (twoHandler 2 200) [['a'], ['b']] (fun _ => .plain) fun _ => 200 + 1
    ∃ found, (∀ m, found.length ≤ m → unlimited .plain (twoHandler 2 200) (200 + 1) [['a'], ['b']] oneSearch m = found) ∧
      ¬ AllShown (SearchState.loadMore api (some ['s']) none) (idle.setQuery api (some ['s']) none ['1']) found := tied rfl

end Sample
end NatsExplorer.Client
