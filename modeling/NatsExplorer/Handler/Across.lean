import NatsExplorer.Handler.Filtered
import NatsExplorer.Library.Streams
import Mathlib.Algebra.Order.BigOperators.Group.List
import Mathlib.Algebra.Order.Group.Nat

/-! An answer over several connections: a page of each, merged by time and cut back. -/
namespace NatsExplorer.Handler
open Go History Paging Streams

theorem older_iff {a b : NatsMessage} : older a b = true ↔ a.mark < b.mark := by
  have place : a.mark < b.mark ↔ a.timestamp < b.timestamp ∨ a.timestamp = b.timestamp ∧ a.sequence < b.sequence :=
    Prod.Lex.toLex_lt_toLex (x := (a.timestamp, a.sequence)) (y := (b.timestamp, b.sequence))
  rw [place, older]
  by_cases same : a.timestamp = b.timestamp
  · rw [if_neg (not_not.mpr same), decide_eq_true_eq]
    omega
  · rw [if_pos same, decide_eq_true_eq]
    omega

theorem older_eq_false {a b : NatsMessage} : older a b = false ↔ b.mark ≤ a.mark := by
  rw [← Bool.not_eq_true, older_iff, not_lt]

instance : Std.Total fun a b : NatsMessage => older a b = false where
  total a b := by
    simp only [older_eq_false]
    exact le_total b.mark a.mark

instance : IsTrans NatsMessage fun a b : NatsMessage => older a b = false where
  trans _ _ _ first second := older_eq_false.mpr ((older_eq_false.mp second).trans (older_eq_false.mp first))

/-- Newest first, those of one connection and one moment in the order of their own. -/
def newestFirst (l : List NatsMessage) : List NatsMessage := Runtime.insertion (fun a b => older b a) l

theorem newestFirst_eq (l : List NatsMessage) : newestFirst l = l.insertionSort fun a b => older a b = false := rfl

theorem sorted_of_desc {l : List NatsMessage} (desc : Descending NatsMessage.mark l) :
    l.Pairwise fun a b => older a b = false :=
  desc.imp fun below => older_eq_false.mpr below.le

section Lists
variable {ids : List Str} {lists : Str → List NatsMessage} {limit : Nat}

/-- The connections have lists of their own, each newest first. -/
structure Listed (ids : List Str) (lists : Str → List NatsMessage) : Prop where
  distinct : ids.Nodup
  own : ∀ id, ∀ m ∈ lists id, m.connID = id
  desc : ∀ id, Descending NatsMessage.mark (lists id)

def newest (ids : List Str) (lists : Str → List NatsMessage) (limit : Nat) : List NatsMessage :=
  (newestFirst (ids.flatMap lists)).take limit

/-- Whether an answer says that there is more. -/
def moreOf (ids : List Str) (lists : Str → List NatsMessage) (limit : Nat) : Bool :=
  limit < (ids.flatMap lists).length || ids.any fun id => limit ≤ (lists id).length

theorem Listed.cut_early (listed : Listed ids lists) (limit : Nat) :
    (newestFirst (ids.flatMap fun id => (lists id).take limit)).take limit = newest ids lists limit :=
  Streams.cut_early listed.own listed.distinct (fun id => (listed.desc id).nodup) (fun id => sorted_of_desc (listed.desc id)) limit

/-- What the pages add up to, before they are merged. -/
theorem takePages_eq (lists : Str → List NatsMessage) (limit : Nat) (ids : List Str) (out : List NatsMessage) (more : Bool) :
    (ids.map fun id => (lists id).take limit).foldl (takePage none limit limit) (out, more) =
      (out ++ ids.flatMap fun id => (lists id).take limit, more || ids.any fun id => limit ≤ (lists id).length) := by
  have page (id : Str) (out : List NatsMessage) (more : Bool) : takePage none limit limit (out, more) ((lists id).take limit) =
      (out ++ (lists id).take limit, more || decide (limit ≤ (lists id).length)) := by
    have short : ((lists id).take limit).length ≤ limit := List.length_take_le ..
    have full : ((lists id).take limit).length = limit ↔ limit ≤ (lists id).length := by
      rw [List.length_take, min_eq_left_iff]
    have kept : Filter.keep none ((lists id).take limit) limit = (lists id).take limit := if_neg (by omega)
    simp only [takePage, kept, full]
  induction ids generalizing out more with
  | nil => simp only [List.map_nil, List.foldl_nil, List.flatMap_nil, List.append_nil, List.any_nil, Bool.or_false]
  | cons id ids ih =>
    rw [List.map_cons, List.foldl_cons, page, ih, List.flatMap_cons, List.any_cons, List.append_assoc, Bool.or_assoc]

/-- Of one connection it is the page itself. -/
theorem Listed.newest_one (listed : Listed ids lists) (id : Str) (limit : Nat) :
    newest [id] lists limit = (lists id).take limit := by
  rw [newest, newestFirst_eq, List.flatMap_singleton, (sorted_of_desc (listed.desc id)).insertionSort_eq]

theorem moreOf_one (id : Str) : moreOf [id] lists limit = decide (limit ≤ (lists id).length) := by
  simp only [moreOf, List.flatMap_singleton, List.any_cons, List.any_nil, Bool.or_false, ← Bool.decide_or, decide_eq_decide]
  omega

/-- The answer over all connections is the newest of what they have. -/
theorem Listed.merged_eq (listed : Listed ids lists) (limit : Nat) :
    mergePages ids limit (ids.flatMap fun id => (lists id).take limit) (ids.any fun id => limit ≤ (lists id).length) =
      (newest ids lists limit, moreOf ids lists limit) := by
  by_cases several : 1 < ids.length
  · have cut := listed.cut_early limit
    have size : (newestFirst (ids.flatMap fun id => (lists id).take limit)).length =
        (ids.flatMap fun id => (lists id).take limit).length := (Runtime.insertion_perm _ _).length_eq
    have fewer : (ids.flatMap fun id => (lists id).take limit).length ≤ (ids.flatMap lists).length := by
      rw [List.length_flatMap, List.length_flatMap]
      exact List.sum_le_sum fun id _ => List.length_take_le' ..
    rw [mergePages, if_pos several]
    change (if limit < (newestFirst _).length then ((newestFirst _).take limit, true) else (newestFirst _, _)) = _
    split
    · next over_ => rw [cut, moreOf, decide_eq_true (by omega), Bool.true_or]
    · next few =>
      rw [List.take_of_length_le (not_lt.mp few)] at cut
      rw [cut, moreOf, Prod.mk.injEq, eq_comm (a := List.any _ _), Bool.or_eq_right_iff_imp, decide_eq_true_eq]
      refine ⟨rfl, fun many => ?_⟩
      by_contra short
      have every : (ids.flatMap fun id => (lists id).take limit) = ids.flatMap lists := by
        refine List.flatMap_congr fun id member => List.take_of_length_le (le_of_not_ge fun long => short ?_)
        exact List.any_eq_true.mpr ⟨id, member, decide_eq_true long⟩
      rw [every] at size few
      omega
  · rw [mergePages, if_neg several]
    match ids with
    | [] => simp [newest, moreOf, newestFirst_eq]
    | [id] => rw [listed.newest_one, moreOf_one, List.flatMap_singleton, List.any_cons, List.any_nil, Bool.or_false]
    | _ :: _ :: _ => exact absurd (by simp) several

/-- Nothing is left out unless the answer says so. -/
theorem newest_all (last : moreOf ids lists limit = false) : newest ids lists limit = newestFirst (ids.flatMap lists) := by
  have few := of_decide_eq_false (Bool.or_eq_false_iff.mp last).1
  refine List.take_of_length_le ?_
  rw [newestFirst, (Runtime.insertion_perm _ _).length_eq]
  exact not_lt.mp few

theorem Listed.part_newestFirst (listed : Listed ids lists) (id : Str) :
    part NatsMessage.connID id (newestFirst (ids.flatMap lists)) = if id ∈ ids then lists id else [] := by
  have mine := part_flatMap listed.own listed.distinct id
  have sorted : (part NatsMessage.connID id (ids.flatMap lists)).Pairwise fun a b => older a b = false := by
    rw [mine]
    split
    · exact sorted_of_desc (listed.desc id)
    · exact List.Pairwise.nil
  rw [newestFirst_eq, part_insertionSort sorted]
  convert mine

/-- The first answer has of each connection what is on top of its list. -/
theorem Listed.reading (listed : Listed ids lists) (limit : Nat) :
    Reading NatsMessage.connID NatsMessage.mark lists (newest ids lists limit) where
  own := listed.own
  desc := listed.desc
  top id := by
    refine (part_take limit).trans ?_
    rw [listed.part_newestFirst]
    split
    · exact List.prefix_rfl
    · exact List.nil_prefix

end Lists

section Range
variable [Tables] [Filter.Compiler] {h : HistoryHandler} {q : RangeQuery} {lists : Str → List NatsMessage}

theorem exprParam_empty : exprParam [] = .ok none := rfl

/-- A range without an expression. -/
theorem range_plain (rt : Runtime) {now : Int} (visible : List Str) {db : DB} (open_ : h.db = some db)
    (named : q.subject ≠ []) (ranged : q.fromTs ≠ 0 ∨ q.toTs ≠ 0) (plain : q.expr = [])
    (listed : Listed (connIDs visible q.connID) lists)
    (pages : ∀ id ∈ connIDs visible q.connID, db.rangePage rt id q.subject q.scope q.fromTs
      (if q.toTs = 0 then now else q.toTs) q.beforeTs q.beforeSeq q.lines = (lists id).take q.lines) :
    ∃ total, range rt h now visible q = .ok ⟨q.subject, q.fromTs, if q.toTs = 0 then now else q.toTs,
      newest (connIDs visible q.connID) lists q.lines, moreOf (connIDs visible q.connID) lists q.lines, [], total⟩ := by
  have times : timeRange q.fromTs q.toTs now = some (q.fromTs, if q.toTs = 0 then now else q.toTs) :=
    if_neg (by omega)
  have read := List.map_congr_left pages
  have merged := listed.merged_eq q.lines
  have added := takePages_eq lists q.lines (connIDs visible q.connID) [] false
  rw [List.nil_append, Bool.false_or] at added
  unfold RangeQuery.lines RangeQuery.scope at *
  simp only [range, open_, times, if_neg named, plain, exprParam_empty, scanLimit, pure, bind, Except.bind, Except.pure]
  rw [read, added]
  dsimp only
  rw [merged]
  exact ⟨_, rfl⟩

/-- What a range that is answered was asked of. -/
theorem accepted_of_range {rt : Runtime} {now : Int} {visible : List Str} {resp : RangeResponse}
    (answered : range rt h now visible q = .ok resp) :
    ∃ db, h.db = some db ∧ q.subject ≠ [] ∧ (q.fromTs ≠ 0 ∨ q.toTs ≠ 0) := by
  unfold range at answered
  split at answered
  · cases answered
  · next db open_ =>
    refine ⟨db, open_, ?_⟩
    cases times : timeRange q.fromTs q.toTs now with
    | none => simp [times] at answered
    | some range =>
      rw [times] at answered
      constructor
      · intro unnamed
        simp only [if_pos unnamed] at answered
        cases answered
      · by_contra unranged
        rw [timeRange, if_pos (by omega)] at times
        cases times

end Range

section Search
variable [Tables] [Filter.Compiler] [Tokenizer] {h : HistoryHandler} {q : SearchQuery} {lists : Str → List NatsMessage}

/-- A search without an expression. -/
theorem search_plain (rt : Runtime) (now : Int) (visible : List Str) (plain : q.expr = [])
    (listed : Listed (connIDs visible q.connID) lists)
    (pages : ∀ id ∈ connIDs visible q.connID, searchOne rt h now q q.lines id = (lists id).take q.lines) :
    search rt h now visible q = .ok ⟨q.subject, q.q, [], newest (connIDs visible q.connID) lists q.lines,
      moreOf (connIDs visible q.connID) lists q.lines⟩ := by
  have read := List.map_congr_left pages
  have merged := listed.merged_eq q.lines
  have added := takePages_eq lists q.lines (connIDs visible q.connID) [] false
  rw [List.nil_append, Bool.false_or] at added
  unfold SearchQuery.lines at *
  simp only [search, plain, exprParam_empty, scanLimit, pure, bind, Except.bind, Except.pure]
  rw [read, added]
  dsimp only
  rw [merged]

end Search

end NatsExplorer.Handler
