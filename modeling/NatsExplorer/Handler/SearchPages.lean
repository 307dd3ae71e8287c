import NatsExplorer.Handler.Recorded

/-! The pages of a search in the database (`SearchPage`). The first one comes from the
word index where that knows the words, the others from a scan. -/
namespace NatsExplorer

def History.Row.mark (r : History.Row) : Mark := r.record.mark

namespace Handler
open Go History Paging

/-- What a search asks for. -/
structure Asked where
  connID : Str
  subject : Str
  q : Str
  fromTs : Int
  toTs : Int

def Asked.covers (a : Asked) (r : Row) : Bool :=
  r.conn = a.connID && between a.fromTs a.toTs r.ts && withBelow a.subject r

section Pages
variable [Tables]

def Asked.scans (a : Asked) (r : Row) : Bool := a.covers r && scanMatches a.q r.record

variable [Tokenizer]

/-- What the index answers with, where it is asked. -/
def Asked.hits (a : Asked) (d : DB) (r : Row) : Bool :=
  d.fullText && strings.trimSpace a.q ≠ [] && ftsQuery a.q ≠ [] && a.covers r &&
    (ftsQuery a.q).all (d.file.index.holds r.id)

/-- What is still to come for a cursor. -/
def Asked.left (a : Asked) (d : DB) (c : Option Mark) (r : Row) : Bool :=
  match c with
  | none => if d.file.rows.any (a.hits d) then a.hits d r else a.scans r
  | some k => a.scans r && r.mark < k

def Asked.listed (a : Asked) (rt : Runtime) (d : DB) (c : Option Mark) : List Row :=
  rt.sortSlice newerRow (d.file.rows.filter (a.left d c))

/-- The pages of the search. -/
def Asked.page (a : Asked) (rt : Runtime) (d : DB) (c : Option Mark) (n : Nat) : List NatsMessage :=
  d.searchPage rt a.connID a.subject a.q a.fromTs a.toTs (cursorTs c) (cursorSeq c) n

variable {a : Asked} {rt : Runtime} {d : DB} {c : Option Mark} {n : Nat} {r s : Row} {k : Mark}

/-- A cursor of a message with a date. -/
def Dated (c : Option Mark) : Prop := ∀ k ∈ c, 0 < (ofLex k).1

omit [Tables] [Tokenizer] in
theorem dated_none : Dated none := fun _ here => absurd here (Option.not_mem_none _)

omit [Tokenizer] in
theorem scanPage_eq (a : Asked) (rt : Runtime) (d : DB) (dated : Dated c) (n : Nat) :
    d.scanPage rt a.connID a.subject a.q a.fromTs a.toTs (cursorTs c) (cursorSeq c) n =
      ((rt.sortSlice newerRow (d.file.rows.filter fun r => a.scans r && (c.all fun k => r.mark < k))).take n).map
        fun r => r.record.wire a.connID := by
  rw [DB.scanPage, DB.select, List.map_map]
  congr 3
  refine List.filter_congr fun r _ => ?_
  have cursor : beforeCursor (cursorTs c) (cursorSeq c) r.record = c.all fun k => r.mark < k := by
    cases c with
    | none => rfl
    | some k =>
      rw [beforeCursor, decide_eq_true (show 0 < cursorTs (some k) from dated k rfl), Bool.not_true, Bool.false_or]
      exact lt_cursor
  rw [cursor, Asked.scans, Asked.covers]
  simp only [withBelow, RangeScope.covers, Row.record, Bool.and_assoc, Bool.and_comm, Bool.and_left_comm, Bool.or_assoc]
  rfl

/-- The index is asked where the query is one. -/
theorem searchFTS_eq (a : Asked) (rt : Runtime) (d : DB) (n : Nat)
    (asked : (d.fullText && strings.trimSpace a.q ≠ [] && ftsQuery a.q ≠ []) = true) :
    d.searchFTS rt a.connID a.subject a.q a.fromTs a.toTs n =
      some ((rt.sortSlice newerRow (d.file.rows.filter (a.hits d))).take n) := by
  have hits : d.file.rows.filter (fun r => (ftsQuery a.q).all (d.file.index.holds r.id) && r.conn = a.connID &&
      (a.fromTs ≤ r.ts && r.ts ≤ a.toTs) && withBelow a.subject r) = d.file.rows.filter (a.hits d) := by
    refine List.filter_congr fun r _ => ?_
    rw [Asked.hits, asked, Asked.covers]
    simp only [between, Bool.true_and, Bool.and_assoc, Bool.and_comm, Bool.and_left_comm]
  have usable : ftsQuery a.q ≠ [] := of_decide_eq_true (Bool.and_eq_true_iff.mp asked).2
  rw [DB.searchFTS, if_neg usable, DB.matchRows, hits]

theorem Asked.page_eq (a : Asked) (rt : Runtime) (d : DB) (dated : Dated c) (n : Nat) :
    a.page rt d c n = ((a.listed rt d c).take n).map fun r => r.record.wire a.connID := by
  have scan := scanPage_eq a rt d dated n
  rw [page, DB.searchPage, scan]
  cases c with
  | some k =>
    have dated : cursorTs (some k) ≠ 0 := (dated k rfl).ne'
    rw [decide_eq_false dated]
    simp only [Bool.and_false, Bool.false_and, Bool.false_eq_true, if_false]
    rfl
  | none =>
    have start : decide (cursorTs none = 0) = true := rfl
    have scans : d.file.rows.filter (fun r => a.scans r && Option.all (fun k => decide (r.mark < k)) none) =
        d.file.rows.filter a.scans := List.filter_congr fun r _ => by rw [Option.all_none, Bool.and_true]
    rw [scans, listed, start, Bool.and_true]
    by_cases found : d.file.rows.any (a.hits d)
    · obtain ⟨r, member, hit⟩ := List.any_eq_true.mp found
      have asked : (d.fullText && strings.trimSpace a.q ≠ [] && ftsQuery a.q ≠ []) = true := by
        rw [Asked.hits, Bool.and_assoc, Bool.and_eq_true] at hit
        exact hit.1
      have first : d.file.rows.filter (a.left d none) = d.file.rows.filter (a.hits d) :=
        List.filter_congr fun r _ => by simp only [left, found, if_true]
      have filled : rt.sortSlice newerRow (d.file.rows.filter (a.hits d)) ≠ [] :=
        List.ne_nil_of_mem (rt.mem_sortSlice.mpr (List.mem_filter.mpr ⟨member, hit⟩))
      rw [if_pos (Bool.and_eq_true_iff.mp asked).1, searchFTS_eq a rt d n asked, first]
      cases page : (rt.sortSlice newerRow (d.file.rows.filter (a.hits d))).take n with
      | nil =>
        have none : n = 0 := (List.take_eq_nil_iff.mp page).resolve_right filled
        rw [none]
        rfl
      | cons r rest => rfl
    · have first : d.file.rows.filter (a.left d none) = d.file.rows.filter a.scans :=
        List.filter_congr fun r _ => by simp only [left, found, if_false, Bool.false_eq_true]
      have empty : d.file.rows.filter (a.hits d) = [] := List.filter_eq_nil_iff.mpr fun r member hit =>
        found (List.any_eq_true.mpr ⟨r, member, hit⟩)
      rw [first]
      split
      · rename_i typed
        by_cases asked : (d.fullText && strings.trimSpace a.q ≠ [] && ftsQuery a.q ≠ []) = true
        · rw [searchFTS_eq a rt d n asked, empty, (rt.sortSlice_perm newerRow []).eq_nil, List.take_nil]
        · have unusable : ftsQuery a.q = [] := by
            rw [typed, Bool.true_and, decide_eq_true_eq, not_not] at asked
            exact asked
          rw [DB.searchFTS, if_pos unusable]
      · rfl

theorem Asked.listed_order (a : Asked) (rt : Runtime) (d : DB) (c : Option Mark) :
    (a.listed rt d c).Pairwise fun r s => s.mark ≤ r.mark :=
  (rt.sortSlice_sorted _ newerRow_weak).imp newerRow_eq_false.mp

theorem Asked.mem_listed : r ∈ a.listed rt d c ↔ r ∈ d.file.rows ∧ a.left d c r = true := by
  rw [listed, rt.mem_sortSlice, List.mem_filter]

/-- What the pages show: the hits, and what the scan finds below them. -/
def Asked.Shown (a : Asked) (d : DB) (r : Row) : Prop :=
  a.hits d r = true ∨ a.scans r = true ∧ ∀ h ∈ d.file.rows, a.hits d h = true → r.mark < h.mark

instance (a : Asked) (d : DB) : DecidablePred (a.Shown d) := fun r => by
  unfold Asked.Shown
  infer_instance

/-- The index and the scan agree where both are read. -/
structure Asked.Agrees (a : Asked) (d : DB) : Prop where
  apart : ∀ r ∈ d.file.rows, ∀ s ∈ d.file.rows, a.Shown d r → a.Shown d s → r.mark = s.mark → r = s
  between : ∀ r ∈ d.file.rows, a.covers r = true → (∃ h ∈ d.file.rows, a.hits d h = true ∧ r.mark < h.mark) →
    (∃ h ∈ d.file.rows, a.hits d h = true ∧ h.mark ≤ r.mark) → (a.hits d r = true ↔ scanMatches a.q r.record = true)

theorem Asked.hits_covers (hit : a.hits d r = true) : a.covers r = true := by
  simp only [hits, Bool.and_eq_true] at hit
  exact hit.1.2

theorem Asked.left_none (found : d.file.rows.any (a.hits d) = true) : a.left d none r = a.hits d r := by
  simp only [left, found, if_true]

theorem Asked.left_some (k : Mark) : a.left d (some k) r = true ↔ a.scans r = true ∧ r.mark < k := by
  simp only [left, Bool.and_eq_true, decide_eq_true_eq]

/-- Everything the search can show, newest first. -/
def Asked.all (a : Asked) (rt : Runtime) (d : DB) : List Row :=
  rt.sortSlice newerRow (d.file.rows.filter fun r => a.Shown d r)

theorem Asked.mem_all : r ∈ a.all rt d ↔ r ∈ d.file.rows ∧ a.Shown d r := by
  rw [all, rt.mem_sortSlice, List.mem_filter, decide_eq_true_eq]

theorem Asked.listed_nodup (a : Asked) (rt : Runtime) (d : DB) (c : Option Mark) : (a.listed rt d c).Nodup :=
  (rt.sortSlice_perm _ _).nodup_iff.mpr (d.file.ids.of_map.filter _)

section Agree
variable (agrees : a.Agrees d)
include agrees

theorem Asked.Agrees.all_desc (rt : Runtime) : Descending Row.mark (a.all rt d) := by
  have order : (a.all rt d).Pairwise fun r s => s.mark ≤ r.mark :=
    (rt.sortSlice_sorted _ newerRow_weak).imp newerRow_eq_false.mp
  have distinct : (a.all rt d).Nodup := (rt.sortSlice_perm _ _).nodup_iff.mpr (d.file.ids.of_map.filter _)
  refine (List.pairwise_iff_forall_sublist.mpr fun {r s} sub => ?_)
  have below := List.pairwise_iff_forall_sublist.mp order sub
  refine lt_of_le_of_ne below fun same => ?_
  obtain ⟨here, shown⟩ := mem_all.mp (sub.subset List.mem_cons_self)
  obtain ⟨there, shown'⟩ := mem_all.mp (sub.subset (List.mem_cons_of_mem _ List.mem_cons_self))
  exact List.pairwise_iff_forall_sublist.mp distinct sub (agrees.apart r here s there shown shown' same.symm)

/-- Below a message that is shown, the scan finds what is to be shown. -/
theorem Asked.Agrees.left_iff (known : r ∈ d.file.rows) (shown : a.Shown d r) (member : s ∈ d.file.rows) :
    a.left d (some r.mark) s = true ↔ a.Shown d s ∧ s.mark < r.mark := by
  rw [left_some]
  refine and_congr_left fun below => ?_
  constructor
  · intro scanned
    by_cases older : ∀ h ∈ d.file.rows, a.hits d h = true → s.mark < h.mark
    · exact Or.inr ⟨scanned, older⟩
    · push Not at older
      obtain ⟨h, there, hit, least⟩ := older
      obtain ⟨covered, found⟩ := Bool.and_eq_true_iff.mp scanned
      refine Or.inl ((agrees.between s member covered ?_ ⟨h, there, hit, least⟩).mpr found)
      rcases shown with hit' | lower
      · exact ⟨r, known, hit', below⟩
      · exact ⟨h, there, hit, below.trans (lower.2 h there hit)⟩
  · rintro (hit | ⟨scanned, _⟩)
    · refine Bool.and_eq_true_iff.mpr ⟨hits_covers hit, ?_⟩
      refine (agrees.between s member (hits_covers hit) ?_ ⟨s, member, hit, le_rfl⟩).mp hit
      rcases shown with hit' | lower
      · exact ⟨r, known, hit', below⟩
      · exact absurd (below.trans (lower.2 s member hit)) (lt_irrefl _)
    · exact scanned

/-- The pages below a message are those of everything shown. -/
theorem Asked.Agrees.listed_some (known : r ∈ d.file.rows) (shown : a.Shown d r) :
    a.listed rt d (some r.mark) = after Row.mark (a.all rt d) (some r.mark) := by
  have desc := agrees.all_desc rt
  refine ((desc.past _).eq_of_perm (a.listed_order rt d _) ?_).symm
  refine (List.perm_ext_iff_of_nodup (desc.past _).nodup (a.listed_nodup rt d _)).mpr fun s => ?_
  rw [mem_after, mem_all, mem_listed, and_assoc]
  refine and_congr_right fun member => ?_
  rw [agrees.left_iff known shown member]
  exact and_congr_right fun _ => ⟨fun below => below _ rfl, fun below k same => Option.some.inj same ▸ below⟩

/-- The first page starts the list of everything shown. -/
theorem Asked.Agrees.listed_none : a.listed rt d none <+: a.all rt d := by
  have desc := agrees.all_desc rt
  by_cases found : d.file.rows.any (a.hits d) = true
  · have split : a.all rt d = (a.all rt d).filter (a.hits d) ++ (a.all rt d).filter fun r => !a.hits d r := by
      refine desc.eq_of_perm ?_ (List.filter_append_perm _ _).symm
      refine ((desc.filter _).append (desc.filter _) fun r first s second => ?_).imp le_of_lt
      obtain ⟨here, hit⟩ := List.mem_filter.mp first
      obtain ⟨there, missed⟩ := List.mem_filter.mp second
      rcases (mem_all.mp there).2 with hit' | lower
      · rw [hit'] at missed
        cases missed
      · exact lower.2 r (mem_all.mp here).1 hit
    have first : (a.all rt d).filter (a.hits d) = a.listed rt d none := by
      refine (desc.filter _).eq_of_perm (a.listed_order rt d _) ?_
      refine (List.perm_ext_iff_of_nodup (desc.filter _).nodup (a.listed_nodup rt d _)).mpr fun s => ?_
      rw [List.mem_filter, mem_all, mem_listed, left_none found]
      exact ⟨fun ⟨⟨member, _⟩, hit⟩ => ⟨member, hit⟩, fun ⟨member, hit⟩ => ⟨⟨member, Or.inl hit⟩, hit⟩⟩
    rw [← first]
    exact ⟨_, split.symm⟩
  · have same : a.all rt d = a.listed rt d none := by
      refine desc.eq_of_perm (a.listed_order rt d _) ?_
      refine (List.perm_ext_iff_of_nodup desc.nodup (a.listed_nodup rt d _)).mpr fun s => ?_
      rw [mem_all, mem_listed]
      refine and_congr_right fun member => ?_
      have unhit (h : Row) (there : h ∈ d.file.rows) : ¬ a.hits d h = true := fun hit =>
        found (List.any_eq_true.mpr ⟨h, there, hit⟩)
      simp only [left, found, if_false, Bool.false_eq_true]
      exact ⟨fun shown => (shown.resolve_left (unhit s member)).1,
        fun scanned => Or.inr ⟨scanned, fun h there hit => absurd hit (unhit h there)⟩⟩
    rw [same]

end Agree

/-- A first page is only empty where nothing is shown. -/
theorem Asked.all_nil (empty : a.listed rt d none = []) : a.all rt d = [] := by
  have nothing (s : Row) (member : s ∈ d.file.rows) : ¬ a.left d none s = true := fun here =>
    List.not_mem_nil (empty ▸ mem_listed.mpr ⟨member, here⟩)
  have unfound : ¬ d.file.rows.any (a.hits d) = true := fun found => by
    obtain ⟨h, there, hit⟩ := List.any_eq_true.mp found
    exact nothing h there ((left_none found).trans hit)
  refine List.eq_nil_iff_forall_not_mem.mpr fun r member => ?_
  obtain ⟨here, shown⟩ := mem_all.mp member
  have missed := nothing r here
  simp only [left, unfound, if_false, Bool.false_eq_true] at missed
  rcases shown with hit | lower
  · exact unfound (List.any_eq_true.mpr ⟨r, here, hit⟩)
  · exact missed lower.1

section Listing
variable (dated : ∀ r ∈ d.file.rows, 0 < r.ts)
include dated

omit [Tables] [Tokenizer] in
theorem dated_row (member : r ∈ d.file.rows) : Dated (some r.mark) := by
  rintro _ ⟨⟩
  exact dated r member

theorem Asked.Agrees.lists (agrees : a.Agrees d) (rt : Runtime) {limits : Nat → Nat} (room : ∀ i, 0 < limits i) :
    Lists NatsMessage.mark (a.page rt d) limits none ((a.all rt d).map fun r => r.record.wire a.connID) := by
  let wire (r : Row) : NatsMessage := r.record.wire a.connID
  have desc : Descending NatsMessage.mark ((a.all rt d).map wire) :=
    Descending.map (f := wire) (agrees.all_desc rt)
  have below {c : Option Mark} (valid : ∃ r ∈ a.all rt d, c = some r.mark) (n : Nat) :
      a.page rt d c n = (after NatsMessage.mark ((a.all rt d).map wire) c).take n := by
    obtain ⟨r, member, rfl⟩ := valid
    obtain ⟨known, shown⟩ := mem_all.mp member
    rw [a.page_eq rt d (dated_row dated known), agrees.listed_some known shown, after_map, List.map_take]
    rfl
  have first : a.page rt d none (limits 0) = ((a.listed rt d none).take (limits 0)).map wire :=
    a.page_eq rt d dated_none _
  by_cases empty : a.listed rt d none = []
  · rw [all_nil empty]
    refine .done ?_
    rw [first, empty, List.take_nil, List.map_nil]
  · have pre : a.page rt d none (limits 0) <+: after NatsMessage.mark ((a.all rt d).map wire) none := by
      rw [first]
      exact ((List.take_prefix _ _).trans agrees.listed_none).map wire
    have filled : a.page rt d none (limits 0) ≠ [] := by
      rw [first, ne_eq, List.map_eq_nil_iff, List.take_eq_nil_iff, not_or]
      exact ⟨(room 0).ne', empty⟩
    have start : ∃ r ∈ a.all rt d, next NatsMessage.mark none (a.page rt d none (limits 0)) = some r.mark := by
      obtain ⟨m, member, cursor⟩ := next_mem NatsMessage.mark none filled
      obtain ⟨r, listed, rfl⟩ := List.mem_map.mp (pre.subset member)
      exact ⟨r, listed, cursor⟩
    have split : (a.all rt d).map wire = _ := desc.after_next pre
    rw [split]
    refine .more filled (lists_after (fun c => ∃ r ∈ a.all rt d, c = some r.mark) desc (fun m member => ?_)
      (fun c n valid => below valid n) (fun i => room (i + 1)) start)
    obtain ⟨r, listed, rfl⟩ := List.mem_map.mp member
    exact ⟨r, listed, rfl⟩

/-- The rest of the search in one page. -/
theorem Asked.lists_rest {k : Mark} (date : Dated (some k)) (rt : Runtime) :
    Lists NatsMessage.mark (a.page rt d) (fun _ => d.file.rows.length + 1) (some k)
      ((a.listed rt d (some k)).map fun r => r.record.wire a.connID) := by
  have size (c : Option Mark) : (a.listed rt d c).length ≤ d.file.rows.length + 1 :=
    ((rt.sortSlice_perm _ _).length_eq.trans_le (List.length_filter_le _ _)).trans (Nat.le_succ _)
  have whole {c : Option Mark} (date : Dated c) :
      a.page rt d c (d.file.rows.length + 1) = (a.listed rt d c).map fun r => r.record.wire a.connID := by
    rw [a.page_eq rt d date, List.take_of_length_le (size c)]
  by_cases empty : a.listed rt d (some k) = []
  · rw [empty]
    exact .done ((whole date).trans (by rw [empty]; rfl))
  · have page := whole date
    rw [← page]
    rcases List.eq_nil_or_concat (a.listed rt d (some k)) with none | ⟨init, last, split⟩
    · exact absurd none empty
    rw [List.concat_eq_append] at split
    have cursor : next NatsMessage.mark (some k) (a.page rt d (some k) (d.file.rows.length + 1)) = some last.mark := by
      rw [page, next_map, split, next_append]
      rfl
    have known : last ∈ a.listed rt d (some k) := split ▸ List.mem_append_right _ List.mem_cons_self
    have inside := (mem_listed.mp known).1
    have least (r : Row) (member : r ∈ a.listed rt d (some k)) : last.mark ≤ r.mark := by
      have order := a.listed_order rt d (some k)
      rw [split] at order member
      rcases List.mem_append.mp member with old | same
      · exact (List.pairwise_append.mp order).2.2 r old last List.mem_cons_self
      · exact (congrArg Row.mark (List.mem_singleton.mp same)).ge
    have done : a.listed rt d (some last.mark) = [] := by
      refine List.eq_nil_iff_forall_not_mem.mpr fun r member => ?_
      obtain ⟨here, left⟩ := mem_listed.mp member
      obtain ⟨scanned, below⟩ := (left_some _).mp left
      have upper := ((left_some _).mp (mem_listed.mp known).2).2
      exact (least r (mem_listed.mpr ⟨here, (left_some _).mpr ⟨scanned, below.trans upper⟩⟩)).not_gt below
    have rest : Lists NatsMessage.mark (a.page rt d) (fun _ => d.file.rows.length + 1) (some last.mark) [] :=
      .done ((whole (dated_row dated inside)).trans (by rw [done]; rfl))
    have filled : a.page rt d (some k) (d.file.rows.length + 1) ≠ [] := by
      rw [page, ne_eq, List.map_eq_nil_iff]
      exact empty
    rw [← cursor] at rest
    have both : Lists NatsMessage.mark (a.page rt d) (fun _ => d.file.rows.length + 1) (some k)
        (a.page rt d (some k) (d.file.rows.length + 1) ++ []) := .more filled rest
    rwa [List.append_nil] at both

/-- Rows that are listed one at a time have places of their own. -/
theorem Asked.single_desc {rows : List Row}
    (lists : Lists NatsMessage.mark (a.page rt d) (fun _ => 1) none (rows.map fun r => r.record.wire a.connID)) :
    Descending Row.mark rows := by
  have known {c : Option Mark} (date : Dated c) {n : Nat} {m : NatsMessage} (member : m ∈ a.page rt d c n) :
      ∃ r ∈ d.file.rows, m.mark = r.mark ∧ a.left d c r = true := by
    rw [a.page_eq rt d date] at member
    obtain ⟨r, listed, rfl⟩ := List.mem_map.mp member
    obtain ⟨here, left⟩ := mem_listed.mp (List.mem_of_mem_take listed)
    exact ⟨r, here, rfl, left⟩
  refine List.pairwise_map.mp (lists.descending Dated (fun c _ date => ?_) (fun c n date m member => ?_)
    (fun k n date m member => ?_) dated_none).1
  · rw [a.page_eq rt d date, List.length_map]
    exact List.length_take_le ..
  · obtain ⟨r, here, same, _⟩ := known date member
    rw [same]
    exact dated_row dated here
  · obtain ⟨r, _, same, left⟩ := known date member
    rw [same]
    exact ((left_some k).mp left).2

/-- The whole listing where the first page has `n` rows. -/
theorem Asked.lists_first (rt : Runtime) (n : Nat) (init : List Row) (last : Row)
    (page : (a.listed rt d none).take n = init ++ [last]) :
    Lists NatsMessage.mark (a.page rt d) (fun i => if i = 0 then n else d.file.rows.length + 1) none
      ((init ++ last :: a.listed rt d (some last.mark)).map fun r => r.record.wire a.connID) := by
  have first : a.page rt d none n = (init ++ [last]).map fun r => r.record.wire a.connID := by
    rw [a.page_eq rt d dated_none, page]
  have cursor : next NatsMessage.mark none (a.page rt d none n) = some last.mark := by
    rw [first, next_map, next_append]
    rfl
  have known : last ∈ (a.listed rt d none).take n := page ▸ List.mem_append_right _ List.mem_cons_self
  have date := dated_row dated (mem_listed.mp (List.mem_of_mem_take known)).1
  have rest := a.lists_rest dated date rt
  have filled : a.page rt d none n ≠ [] := by
    rw [first, ne_eq, List.map_eq_nil_iff]
    exact List.append_ne_nil_of_right_ne_nil _ (List.cons_ne_nil _ _)
  rw [← cursor] at rest
  have both : Lists NatsMessage.mark (a.page rt d) (fun i => if i = 0 then n else d.file.rows.length + 1) none
      (a.page rt d none n ++ _) := .more filled rest
  rw [cursor, first] at both
  simpa only [List.map_append, List.append_assoc, List.map_cons, List.map_nil, List.singleton_append] using both

/-- The list of what the pages show, read in one page and then in small ones. -/
theorem Asked.two_readings {rows : List Row} (rt : Runtime) (filled : a.listed rt d none ≠ [])
    (lists : ∀ limits : Nat → Nat, (∀ i, 0 < limits i) →
      Lists NatsMessage.mark (a.page rt d) limits none (rows.map fun r => r.record.wire a.connID)) :
    ∃ first last, first ∈ a.listed rt d none ∧ last ∈ a.listed rt d none ∧
      (∀ r ∈ a.listed rt d none, r.mark ≤ first.mark ∧ last.mark ≤ r.mark) ∧
      rows.map (fun r => r.record.wire a.connID) =
        (a.listed rt d none ++ a.listed rt d (some last.mark)).map (fun r => r.record.wire a.connID) ∧
      rows.map (fun r => r.record.wire a.connID) =
        (first :: a.listed rt d (some first.mark)).map (fun r => r.record.wire a.connID) := by
  have order := a.listed_order rt d none
  have size : (a.listed rt d none).length ≤ d.file.rows.length + 1 :=
    ((rt.sortSlice_perm _ _).length_eq.trans_le (List.length_filter_le _ _)).trans (Nat.le_succ _)
  have room (n : Nat) (some : 0 < n) (i : Nat) : 0 < if i = 0 then n else d.file.rows.length + 1 := by
    split <;> omega
  obtain ⟨first, tail, split⟩ := List.exists_cons_of_ne_nil filled
  rcases List.eq_nil_or_concat (a.listed rt d none) with none | ⟨init, last, split'⟩
  · exact absurd none filled
  rw [List.concat_eq_append] at split'
  refine ⟨first, last, split ▸ List.mem_cons_self, split' ▸ List.mem_append_right _ List.mem_cons_self,
    fun r member => ⟨?_, ?_⟩, ?_, ?_⟩
  · rw [split] at order member
    rcases List.mem_cons.mp member with rfl | rest
    · exact le_rfl
    · exact (List.pairwise_cons.mp order).1 r rest
  · rw [split'] at order member
    rcases List.mem_append.mp member with old | same
    · exact (List.pairwise_append.mp order).2.2 r old last List.mem_cons_self
    · exact (congrArg Row.mark (List.mem_singleton.mp same)).ge
  · have one := a.lists_first dated rt (d.file.rows.length + 1) init last
      ((List.take_of_length_le size).trans split')
    rw [(lists _ (room _ (Nat.succ_pos _))).unique one, split', List.append_assoc, List.singleton_append]
  · have one := a.lists_first dated rt 1 [] first (by rw [split]; rfl)
    exact (lists _ (room 1 one_pos)).unique one

omit [Tokenizer] dated in
/-- Messages that are the same on the wire contain the same. -/
theorem scanMatches_wire {r s : Record} {connID q : Str} (same : r.wire connID = s.wire connID) :
    scanMatches q r = scanMatches q s := by
  have subject : r.subject = s.subject := congrArg NatsMessage.subject same
  have payload : r.text = s.text := congrArg NatsMessage.payload same
  have kind : r.kind = s.kind := congrArg NatsMessage.payloadType same
  unfold scanMatches
  rw [subject]
  unfold Record.text at payload
  unfold Record.kind at kind
  cases first : r.data with
  | text runes =>
    cases second : s.data with
    | text runes' =>
      rw [first, second] at payload
      rw [show runes = runes' from payload]
    | binary bytes =>
      simp only [first, second] at kind
      split at kind <;> cases kind
  | binary bytes =>
    cases second : s.data with
    | text runes =>
      simp only [first, second] at kind
      split at kind <;> cases kind
    | binary bytes' => rfl

/-- If the pages show the same whatever their size is, index and scan agree. -/
theorem Asked.agrees_of_lists {rows : List Row} (rt : Runtime) (desc : Descending Row.mark rows)
    (lists : ∀ limits : Nat → Nat, (∀ i, 0 < limits i) →
      Lists NatsMessage.mark (a.page rt d) limits none (rows.map fun r => r.record.wire a.connID)) : a.Agrees d := by
  by_cases empty : a.listed rt d none = []
  · have nothing := all_nil empty
    have unshown (r : Row) (known : r ∈ d.file.rows) : ¬ a.Shown d r := fun shown =>
      List.not_mem_nil (nothing ▸ mem_all.mpr ⟨known, shown⟩ : r ∈ [])
    refine ⟨fun r known _ _ shown => absurd shown (unshown r known), fun r known covered newer => ?_⟩
    obtain ⟨h, there, hit, _⟩ := newer
    exact absurd (Or.inl hit) (unshown h there)
  obtain ⟨first, last, in_, in', bounds, whole, small⟩ := two_readings dated rt empty lists
  have places {l : List Row} (same : rows.map (fun r => r.record.wire a.connID) =
      l.map fun r => r.record.wire a.connID) : Descending Row.mark l := by
    have marks := congrArg (List.map NatsMessage.mark) same
    rw [List.map_map, List.map_map] at marks
    have order : (rows.map Row.mark).Pairwise fun k k' => k' < k := List.pairwise_map.mpr desc
    rw [show rows.map Row.mark = l.map Row.mark from marks] at order
    exact List.pairwise_map.mp order
  have large := places whole
  have little := places small
  have found {h : Row} (there : h ∈ d.file.rows) (hit : a.hits d h = true) : d.file.rows.any (a.hits d) = true :=
    List.any_eq_true.mpr ⟨h, there, hit⟩
  have top {h : Row} (there : h ∈ d.file.rows) (hit : a.hits d h = true) : h ∈ a.listed rt d none :=
    mem_listed.mpr ⟨there, (left_none (found there hit)).trans hit⟩
  have newest {h : Row} (there : h ∈ d.file.rows) (hit : a.hits d h = true) : h.mark ≤ first.mark :=
    (bounds h (top there hit)).1
  -- A hit below the newest one is read by the scan, when the first page is that one.
  have scanned {r h : Row} (known : r ∈ d.file.rows) (hit : a.hits d r = true) (there : h ∈ d.file.rows)
      (hit' : a.hits d h = true) (below : r.mark < h.mark) : scanMatches a.q r.record = true := by
    have listed : r.record.wire a.connID ∈ rows.map fun r => r.record.wire a.connID := by
      rw [whole]
      exact List.mem_map_of_mem (List.mem_append_left _ (top known hit))
    rw [small] at listed
    obtain ⟨s, member, same⟩ := List.mem_map.mp listed
    have place : s.mark = r.mark := congrArg NatsMessage.mark same
    rcases List.mem_cons.mp member with rfl | rest
    · exact absurd (below.trans_le (newest there hit')) (place ▸ lt_irrefl _)
    · have scan := ((left_some _).mp (mem_listed.mp rest).2).1
      rw [← scanMatches_wire same]
      exact (Bool.and_eq_true_iff.mp scan).2
  refine ⟨fun r known s known' shown shown' same => ?_, fun r known covered newer older => ?_⟩
  · have listed {r : Row} (known : r ∈ d.file.rows) (shown : a.Shown d r) :
        r ∈ a.listed rt d none ++ a.listed rt d (some last.mark) := by
      rcases shown with hit | ⟨scan, lower⟩
      · exact List.mem_append_left _ (top known hit)
      · by_cases any : d.file.rows.any (a.hits d) = true
        · have oldest : a.hits d last = true := (left_none any).symm.trans (mem_listed.mp in').2
          exact List.mem_append_right _ (mem_listed.mpr
            ⟨known, (left_some _).mpr ⟨scan, lower last (mem_listed.mp in').1 oldest⟩⟩)
        · refine List.mem_append_left _ (mem_listed.mpr ⟨known, ?_⟩)
          simp only [left, any, if_false, Bool.false_eq_true]
          exact scan
    exact large.inj (listed known shown) (listed known' shown') same
  · obtain ⟨h, there, hit, below⟩ := newer
    obtain ⟨h', there', hit', above⟩ := older
    refine ⟨fun hit => scanned known hit there ‹_› below, fun scan => ?_⟩
    have here : r ∈ a.listed rt d (some first.mark) := mem_listed.mpr
      ⟨known, (left_some _).mpr ⟨Bool.and_eq_true_iff.mpr ⟨covered, scan⟩, below.trans_le (newest there hit)⟩⟩
    have listed : r.record.wire a.connID ∈ rows.map fun r => r.record.wire a.connID := by
      rw [small]
      exact List.mem_map_of_mem (List.mem_cons_of_mem _ here)
    rw [whole] at listed
    obtain ⟨s, member, same⟩ := List.mem_map.mp listed
    have place : s.mark = r.mark := congrArg NatsMessage.mark same
    rcases List.mem_append.mp member with shown | rest
    · have known' := (mem_listed.mp shown).1
      have hit'' : a.hits d s = true := (left_none (found there hit)).symm.trans (mem_listed.mp shown).2
      have there'' : s ∈ a.listed rt d (some first.mark) := mem_listed.mpr ⟨known', (left_some _).mpr
        ⟨Bool.and_eq_true_iff.mpr ⟨hits_covers hit'', scanned known' hit'' there hit (place ▸ below)⟩,
          place ▸ below.trans_le (newest there hit)⟩⟩
      have same := little.inj (List.mem_cons_of_mem _ here) (List.mem_cons_of_mem _ there'') place.symm
      exact same ▸ hit''
    · have under := ((left_some _).mp (mem_listed.mp rest).2).2
      rw [place] at under
      exact absurd (under.trans_le ((bounds h' (top there' hit')).2.trans above)) (lt_irrefl _)

/-- The pages of the search are those of one predicate, whatever their sizes are. -/
def Asked.OneMeaning (a : Asked) (rt : Runtime) (d : DB) : Prop :=
  ∃ P : Row → Bool, ∀ limits : Nat → Nat, (∀ i, 0 < limits i) → ∃ rows : List Row,
    rows.Perm (d.file.rows.filter P) ∧ (rows.Pairwise fun r s => s.mark ≤ r.mark) ∧
      Lists NatsMessage.mark (a.page rt d) limits none (rows.map fun r => r.record.wire a.connID)

theorem Asked.OneMeaning.agrees (meaning : a.OneMeaning rt d) : a.Agrees d := by
  obtain ⟨P, listing⟩ := meaning
  obtain ⟨rows, perm, _, lists⟩ := listing (fun _ => 1) fun _ => one_pos
  have desc := single_desc dated lists
  refine agrees_of_lists dated rt desc fun limits room => ?_
  obtain ⟨rows', perm', order, lists'⟩ := listing limits room
  rwa [desc.eq_of_perm order (perm.trans perm'.symm)]

/-- They are exactly if the index and the scan agree where both are read. -/
theorem Asked.oneMeaning_iff (rt : Runtime) : a.OneMeaning rt d ↔ a.Agrees d := by
  refine ⟨fun meaning => meaning.agrees dated, fun agrees => ?_⟩
  refine ⟨fun r => a.Shown d r, fun limits room => ⟨a.all rt d, rt.sortSlice_perm _ _, ?_, agrees.lists dated rt room⟩⟩
  exact (agrees.all_desc rt).imp le_of_lt

end Listing

end Pages
section Sample

/-- A message with a text that is one word. -/
def wordRow (id : Nat) (word : Str) : Row where
  id := id
  conn := ['c']
  subject := ['s']
  ts := id
  seq := id
  kind := .string
  data := .text word
  headers := none

/-- `temp`, `temperature` and `temp` again, indexed. -/
def wordRows : List Row := [wordRow 1 "temp".toList, wordRow 2 "temperature".toList, wordRow 3 "temp".toList]

def wordDB [Tokenizer] : DB where
  file := {
    version := ftsSchemaVersion
    rows := wordRows
    triggers := true
    index := .rebuild wordRows
    ids := by decide }
  fullText := true

def wordSearch (word : Str) : Asked where
  connID := ['c']
  subject := []
  q := word
  fromTs := 0
  toTs := 9

/-- A search for the longer word means one thing. -/
theorem oneMeaning_longer :
    let _ := asciiTables; let _ := Persistence.oneToken
    (wordSearch "temperature".toList).OneMeaning .plain wordDB := by
  let _ := asciiTables
  let _ := Persistence.oneToken
  refine (Asked.oneMeaning_iff (by decide) .plain).mpr ⟨?_, ?_⟩
  · decide
  · decide

/-- A search for the shorter one shows the longer word on a second page only. -/
theorem meanings_shorter : ¬ ∀ (_ : Tables) (_ : Tokenizer) (a : Asked) (rt : Runtime) (d : DB),
    d.fullText = true → (∀ r ∈ d.file.rows, 0 < r.ts) → a.OneMeaning rt d := by
  intro claim
  let _ := asciiTables
  let _ := Persistence.oneToken
  have meaning := claim asciiTables Persistence.oneToken (wordSearch "temp".toList) .plain wordDB rfl (by decide)
  have agrees := (meaning.agrees (by decide)).between (wordRow 2 "temperature".toList) (by decide) (by decide)
    (by decide) (by decide)
  exact absurd agrees (by decide)

end Sample
end Handler
end NatsExplorer
