import NatsExplorer.Go.Utf8
import NatsExplorer.History.CursorHeap
import NatsExplorer.History.Like
import NatsExplorer.Message.Payload

/-! The search of the in-memory history (`MemStore.Search`): the query is lowered as Unicode lowers, the messages byte by byte
as ASCII. -/
namespace NatsExplorer.History.MemSearch
open Go CursorHeap
open Go.utf8 (code lowerByte)

/-- The inner loop of `containsFold`. -/
def sameFrom : List UInt8 → List UInt8 → Bool
  | _, [] => true
  | [], _ :: _ => false
  | c :: hay, n :: needle => if lowerByte c ≠ n then false else sameFrom hay needle

/-- The outer loop, for a needle of `first` and `rest`. -/
def containsFrom (first : UInt8) (rest : List UInt8) : List UInt8 → Bool
  | [] => false
  | c :: hay =>
    if hay.length < rest.length then false
    else if lowerByte c ≠ first then containsFrom first rest hay
    else if sameFrom hay rest then true
    else containsFrom first rest hay

def containsFold (hay needle : List UInt8) : Bool :=
  match needle with
  | [] => true
  | first :: rest => if hay.length < rest.length + 1 then false else containsFrom first rest hay

theorem sameFrom_iff {hay needle : List UInt8} : sameFrom hay needle = true ↔ needle <+: hay.map lowerByte := by
  fun_induction sameFrom hay needle with
  | case1 => simp only [List.nil_prefix]
  | case2 => simp only [List.map_nil, List.prefix_nil, reduceCtorEq]
  | case3 c hay n needle other =>
    rw [List.map_cons, List.cons_prefix_cons]
    exact iff_of_false Bool.false_ne_true fun both => other both.1.symm
  | case4 c hay n needle same ih =>
    rw [ne_eq, not_not] at same
    rw [List.map_cons, List.cons_prefix_cons, ih, same, eq_self, true_and]

theorem containsFrom_iff {first : UInt8} {rest hay : List UInt8} :
    containsFrom first rest hay = true ↔ first :: rest <:+: hay.map lowerByte := by
  fun_induction containsFrom first rest hay with
  | case1 => simp only [Bool.false_eq_true, List.map_nil, List.infix_nil, reduceCtorEq]
  | case2 c hay short =>
    refine iff_of_false Bool.false_ne_true fun inside => ?_
    have := inside.length_le
    simp only [List.length_cons, List.length_map] at this
    omega
  | case3 c hay _ other ih =>
    rw [ih, List.map_cons, List.infix_cons_iff, List.cons_prefix_cons]
    exact ⟨.inr, fun either => either.resolve_left fun both => other both.1.symm⟩
  | case4 c hay _ same begins =>
    rw [ne_eq, not_not] at same
    rw [List.map_cons, List.infix_cons_iff, List.cons_prefix_cons]
    exact iff_of_true rfl (.inl ⟨same.symm, sameFrom_iff.mp begins⟩)
  | case5 c hay _ _ begins ih =>
    rw [ih, List.map_cons, List.infix_cons_iff, List.cons_prefix_cons]
    exact ⟨.inr, fun either => either.resolve_left fun both => begins (sameFrom_iff.mpr both.2)⟩

/-- The test finds the needle in the bytes as they are folded. -/
theorem containsFold_iff {hay needle : List UInt8} : containsFold hay needle = true ↔ needle <:+: hay.map lowerByte := by
  unfold containsFold
  cases needle with
  | nil => exact iff_of_true rfl List.nil_infix
  | cons first rest =>
    dsimp only
    split
    · next short =>
      refine iff_of_false Bool.false_ne_true fun inside => ?_
      have := inside.length_le
      rw [List.length_map, List.length_cons] at this
      omega
    · exact containsFrom_iff

section Search
variable [Tables]

def mentions (needle : List UInt8) (r : Record) : Bool :=
  containsFold (utf8 r.subject) needle || (r.kind ≠ .binary && containsFold r.data.toBytes needle)

def search (rt : Runtime) (s : MemStore) (connID subject q : Str) (limit : Int) (beforeSeq : ℕ) : List NatsMessage :=
  if limit ≤ 0 then []
  else
    let needle := utf8 (strings.toLower (strings.trimSuffix q ['*']))
    (walk (mentions needle) limit (s.cursors rt connID (inScope subject) beforeSeq)).map fun r => r.wire connID

end Search

/-- What a search looks at in a message: the subject, and the payload of a kind that is not binary. -/
def texts (r : Record) : List Str :=
  r.subject :: match r.data with
    | .text runes => [runes]
    | .binary _ => []

/-- The message contains the query byte for byte. -/
def Has (q : Str) (r : Record) : Prop := ∃ text ∈ texts r, utf8 q <:+: utf8 text

/-- The message contains the text, up to a folding of runes. -/
def HasFolded (fold : Char → Str) (t : Str) (r : Record) : Prop :=
  ∃ text ∈ texts r, ∃ part, part <:+: text ∧ part.flatMap fold = t.flatMap fold

/-- The answer has what is there, and nothing else. -/
structure Finds [Tables] (fold : Char → Str) (s : MemStore) (connID subject q : Str) (limit : Int) (beforeSeq : ℕ)
    (answer : List NatsMessage) : Prop where
  complete : (messages s connID (inScope subject)).length ≤ limit →
    ∀ r ∈ messages s connID (inScope subject), olderSeq beforeSeq r → Has q r → r.wire connID ∈ answer
  sound : ∀ m ∈ answer, ∃ r ∈ messages s connID (inScope subject),
    m = r.wire connID ∧ HasFolded fold (strings.trimSuffix q ['*']) r

/-- Bytes are found in bytes as the runes are in the runes. -/
theorem containsFold_utf8 {text needle : Str} :
    containsFold (utf8 text) (utf8 needle) = true ↔ needle <:+: text.map asciiLower := by
  rw [containsFold_iff]
  change code.encode needle <:+: (code.encode text).map lowerByte ↔ _
  rw [utf8.map_lowerByte, code.encode_infix]

section Mentions
variable [Tables]

theorem mentions_iff {needle : Str} {r : Record} :
    mentions (utf8 needle) r = true ↔ ∃ text ∈ texts r, needle <:+: text.map asciiLower := by
  rw [mentions, Bool.or_eq_true, containsFold_utf8, texts, List.exists_mem_cons_iff]
  refine or_congr_right ?_
  cases data : r.data with
  | text runes =>
    have kind : r.kind ≠ .binary := by
      unfold Record.kind
      rw [data]
      dsimp only
      split <;> nofun
    simp only [decide_eq_true kind, Bool.true_and, List.mem_singleton, exists_eq_left, Data.toBytes, containsFold_utf8]
  | binary bytes =>
    have kind : r.kind = .binary := by rw [Record.kind, data]
    rw [decide_eq_false (not_not.mpr kind), Bool.false_and]
    simp only [Bool.false_eq_true, List.not_mem_nil, false_and, exists_false]

omit [Tables] in
theorem fold_iff {text needle : Str} : History.containsFold text needle = true ↔ needle <:+: text.map asciiLower := by
  rw [History.containsFold, Bool.or_eq_true, decide_eq_true_eq, List.any_eq_true]
  constructor
  · rintro (rfl | ⟨rest, member, begins⟩)
    · exact List.nil_infix
    · exact (of_decide_eq_true begins).isInfix.trans (((List.mem_tails _ _).mp member).isInfix.map asciiLower)
  · rintro ⟨before, after, whole⟩
    rw [List.append_assoc] at whole
    obtain ⟨first, rest, rfl, rfl, later⟩ := List.map_eq_append_iff.mp whole.symm
    exact .inr ⟨rest, (List.mem_tails _ _).mpr (List.suffix_append _ _), decide_eq_true ⟨after, later.symm⟩⟩

/-- The test on bytes is the one on runes. -/
theorem mentions_utf8 (needle : Str) : mentions (utf8 needle) = History.mentions needle := by
  funext r
  rw [Bool.eq_iff_iff, mentions_iff, History.mentions, Bool.or_eq_true, fold_iff, texts, List.exists_mem_cons_iff]
  refine or_congr_right ?_
  cases r.data with
  | text runes => simp only [List.mem_singleton, exists_eq_left, fold_iff]
  | binary bytes => simp only [Bool.false_eq_true, List.not_mem_nil, false_and, exists_false]

theorem search_eq (rt : Runtime) (s : MemStore) (connID subject q : Str) (limit : Int) (beforeSeq : ℕ) :
    search rt s connID subject q limit beforeSeq = CursorHeap.search rt s connID subject q limit beforeSeq := by
  rw [search, CursorHeap.search]
  simp only [mentions_utf8, needleOf]

end Mentions

theorem asciiLower_asciiLower (c : Char) : asciiLower (asciiLower c) = asciiLower c := by
  by_cases upper : 'A' ≤ c ∧ c ≤ 'Z'
  · have low : 65 ≤ c.toNat := upper.1
    have high : c.toNat ≤ 90 := upper.2
    have value : (asciiLower c).toNat = c.toNat + 32 := by
      rw [asciiLower, if_pos upper, toNat_ofNat (by omega)]
    refine if_neg fun letter => ?_
    have last : (asciiLower c).toNat ≤ 90 := letter.2
    omega
  · have same : asciiLower c = c := if_neg upper
    rw [same, same]

theorem trimSuffix_star (q : Str) : ∃ rest, q = strings.trimSuffix q ['*'] ++ rest ∧ (rest = [] ∨ rest = ['*']) := by
  unfold strings.trimSuffix strings.hasSuffix
  split
  · next ends =>
    obtain ⟨t, rfl⟩ := of_decide_eq_true ends
    rw [List.length_append, Nat.add_sub_cancel, List.take_left]
    exact ⟨['*'], rfl, .inr rfl⟩
  · exact ⟨[], (List.append_nil q).symm, .inl rfl⟩

section Found
variable [Tables] {fold : Char → Str} {q : Str}

/-- The needle is lowered as the messages are. -/
def Agrees (q : Str) : Prop := ∀ c ∈ strings.trimSuffix q ['*'], Tables.toLower c = asciiLower c

/-- A query that is lowered as the messages are is found where it stands. -/
theorem Agrees.finds (agrees : Agrees q) (letters : ∀ c, fold (asciiLower c) = fold c) {s : MemStore} {connID : Str} {beforeSeq : ℕ}
    (given : beforeSeq = 0 ∨ Increasing s connID) (rt : Runtime) (subject : Str) (limit : Int) :
    Finds fold s connID subject q limit beforeSeq (search rt s connID subject q limit beforeSeq) := by
  have needle : strings.toLower (strings.trimSuffix q ['*']) = (strings.trimSuffix q ['*']).map asciiLower :=
    List.map_congr_left agrees
  have perm : (drained (s.cursors rt connID (inScope subject) beforeSeq)).Perm
      ((messages s connID (inScope subject)).filter (olderSeq beforeSeq)) :=
    (drained_perm _).trans (cursors_perm given rt _)
  have folded (r : Record) : mentions (utf8 ((strings.trimSuffix q ['*']).map asciiLower)) r = true ↔
      ∃ text ∈ texts r, (strings.trimSuffix q ['*']).map asciiLower <:+: text.map asciiLower := mentions_iff
  rw [search]
  simp only [needle, walk_eq]
  constructor
  · intro room r listed older has
    have positive : ¬ limit ≤ 0 := by
      have := List.length_pos_of_mem listed
      omega
    have fits : ((drained (s.cursors rt connID (inScope subject) beforeSeq)).filter
        (mentions (utf8 ((strings.trimSuffix q ['*']).map asciiLower)))).length ≤ limit.toNat := by
      have all := (List.length_filter_le (mentions (utf8 ((strings.trimSuffix q ['*']).map asciiLower)))
        (drained (s.cursors rt connID (inScope subject) beforeSeq))).trans (perm.length_eq.le.trans (List.length_filter_le _ _))
      omega
    rw [if_neg positive, List.take_of_length_le fits]
    refine List.mem_map_of_mem (List.mem_filter.mpr ⟨perm.mem_iff.mpr (List.mem_filter.mpr ⟨listed, older⟩), (folded r).mpr ?_⟩)
    obtain ⟨text, within, inside⟩ := has
    have part : q <:+: text := code.encode_infix.mp inside
    obtain ⟨rest, whole, -⟩ := trimSuffix_star q
    exact ⟨text, within, List.IsInfix.map asciiLower (.trans ⟨[], rest, whole.symm⟩ part)⟩
  · intro m member
    split at member
    · cases member
    · obtain ⟨r, kept, rfl⟩ := List.mem_map.mp member
      obtain ⟨come, mentioned⟩ := List.mem_filter.mp (List.mem_of_mem_take kept)
      obtain ⟨text, within, before, after, whole⟩ := (folded r).mp mentioned
      refine ⟨r, (List.mem_filter.mp (perm.mem_iff.mp come)).1, rfl, text, within, ?_⟩
      obtain ⟨first, last, rfl, begins, -⟩ := List.map_eq_append_iff.mp whole.symm
      obtain ⟨first, part, rfl, -, same⟩ := List.map_eq_append_iff.mp begins
      refine ⟨part, ⟨first, last, rfl⟩, ?_⟩
      have lowered := congrArg (List.flatMap fold) same
      simpa only [List.flatMap_map, letters] using lowered

/-- A store with one message. -/
def single (r : Record) : MemStore :=
  { shards := [{ Shard.newShard 1000000 10 with
      conns := ({} : Map Str Ref).insert ['c'] 0
      hists := fun _ => { subjects := ({} : Map Str Ref).insert r.subject 0, count := 1, bytes := 0 }
      bufs := fun _ => SubjectBuf.empty.push 0
      entries := fun _ => { record := some r, size := 0, dead := false, buf := 0, conn := 0 } }]
    hash := fun _ => 0 }

omit [Tables] in
theorem single_messages (r : Record) : messages (single r) ['c'] (inScope []) = [r] := rfl

theorem search_single (r : Record) (needed : mentions (utf8 (strings.toLower (strings.trimSuffix q ['*']))) r = false) :
    search .plain (single r) ['c'] [] q 1 0 = [] := by
  have perm : (drained ((single r).cursors .plain ['c'] (inScope []) 0)).Perm [r] :=
    (drained_perm _).trans (cursors_perm (.inl rfl) .plain _)
  rw [search, if_neg (by decide)]
  simp only [walk_eq, List.perm_singleton.mp perm, List.filter_cons, needed, Bool.false_eq_true, if_false,
    List.filter_nil, List.take_nil, List.map_nil]

/-- A needle that ends in the star the query does not need is of stars alone. -/
theorem shifted_star (star : ∀ c, Tables.toLower c = '*' → c = '*') {c : Char} {t : Str}
    (shifted : Tables.toLower c :: t.map Tables.toLower = t.map asciiLower ++ ['*']) :
    ∀ d ∈ c :: t, d = '*' ∧ Tables.toLower d = '*' := by
  induction t generalizing c with
  | nil =>
    have last : Tables.toLower c = '*' := (List.cons.inj shifted).1
    exact List.forall_mem_singleton.mpr ⟨star c last, last⟩
  | cons d t ih =>
    rw [List.map_cons, List.map_cons, List.cons_append] at shifted
    obtain ⟨next, rest⟩ := List.cons.inj shifted
    have others := ih rest
    rw [(others d List.mem_cons_self).1, (asciiLower_before (by decide)).mpr rfl] at next
    exact List.forall_mem_cons.mpr ⟨⟨star c next, next⟩, others⟩

/-- Where the query itself is the message, the needle is in it only if it is lowered as the message is. -/
theorem agrees_of_within (star : ∀ c, Tables.toLower c = '*' → c = '*')
    (inside : strings.toLower (strings.trimSuffix q ['*']) <:+: q.map asciiLower) : Agrees q := by
  obtain ⟨rest, whole, ending⟩ := trimSuffix_star q
  unfold Agrees
  generalize strings.trimSuffix q ['*'] = t at *
  subst whole
  obtain ⟨before, after, split⟩ := inside
  have sizes := congrArg List.length split
  rw [List.map_append] at split
  simp only [strings.toLower, List.length_append, List.length_map] at sizes
  cases before with
  | nil =>
    have same := List.append_inj_left split (by rw [List.nil_append, strings.toLower, List.length_map, List.length_map])
    exact List.map_inj_left.mp same
  | cons x before =>
    rcases ending with rfl | rfl
    · simp only [List.length_cons, List.length_nil] at sizes
      omega
    · cases t with
      | nil => exact fun c there => nomatch there
      | cons c t =>
        simp only [List.length_cons, List.length_nil] at sizes
        obtain rfl : before = [] := List.eq_nil_of_length_eq_zero (by omega)
        obtain rfl : after = [] := List.eq_nil_of_length_eq_zero (by omega)
        rw [List.append_nil] at split
        intro d there
        obtain ⟨rfl, lower⟩ := shifted_star star (List.cons.inj split).2 d there
        exact lower

omit [Tables] in
/-- There is a subject the needle is not part of. -/
theorem subject_without {needle : Str} (some : needle ≠ []) : ∃ x : Char, ¬ needle <:+: [asciiLower x] := by
  by_cases a : needle <:+: ['a']
  · refine ⟨'b', fun b => ?_⟩
    cases needle with
    | nil => exact some rfl
    | cons c rest =>
      have inA : c ∈ ['a'] := a.subset List.mem_cons_self
      have inB : c ∈ ['b'] := b.subset List.mem_cons_self
      rw [List.mem_singleton] at inA
      subst inA
      exact absurd inB (by decide)
  · exact ⟨'a', a⟩

/-- Every search finds what is there exactly if the query's runes are lowered by Unicode as they are in ASCII. -/
theorem finds_iff (letters : ∀ c, fold (asciiLower c) = fold c) (star : ∀ c, Tables.toLower c = '*' → c = '*') (q : Str) :
    (∀ (rt : Runtime) (s : MemStore) (connID subject : Str) (limit : Int) (beforeSeq : ℕ),
      beforeSeq = 0 ∨ Increasing s connID →
        Finds fold s connID subject q limit beforeSeq (search rt s connID subject q limit beforeSeq)) ↔
    ∀ c ∈ strings.trimSuffix q ['*'], Tables.toLower c = asciiLower c := by
  constructor
  · intro finds
    by_contra differ
    have some : strings.toLower (strings.trimSuffix q ['*']) ≠ [] := by
      intro none
      rw [strings.toLower, List.map_eq_nil_iff] at none
      rw [none] at differ
      exact differ fun c there => nomatch there
    obtain ⟨x, without⟩ := subject_without some
    let r : Record := { subject := [x], data := .text q, timestamp := 0, sequence := 1 }
    have lost : mentions (utf8 (strings.toLower (strings.trimSuffix q ['*']))) r = false := by
      rw [← Bool.not_eq_true, mentions_iff]
      rintro ⟨text, within, inside⟩
      rcases List.mem_cons.mp within with rfl | payload
      · exact without inside
      · rw [List.mem_singleton.mp payload] at inside
        exact differ (agrees_of_within star inside)
    have found := (finds .plain (single r) ['c'] [] 1 0 (.inl rfl)).complete (by rw [single_messages]; exact le_refl 1) r
      (by rw [single_messages]; exact List.mem_singleton_self r) (olderSeq_zero r)
      ⟨q, List.mem_cons_of_mem _ (List.mem_singleton_self q), List.infix_rfl⟩
    rw [search_single r lost] at found
    cases found
  · intro agrees rt s connID subject limit beforeSeq given
    exact Agrees.finds agrees letters given rt subject limit

end Found

section Sample

/-- A query of ASCII letters is found in any case. -/
theorem finds_iff_ascii : @Finds asciiTables (fun c => [asciiLower c]) sampleStore ['c'] [] ['A', '.', 'X', '*'] 5 3
    (@search asciiTables .plain sampleStore ['c'] [] ['A', '.', 'X', '*'] 5 3) :=
  (@finds_iff asciiTables (fun c => [asciiLower c]) (fun c => congrArg (fun c => [c]) (asciiLower_asciiLower c))
    (fun _ => (asciiLower_before (by decide)).mp) ['A', '.', 'X', '*']).mpr (fun _ _ => rfl) .plain sampleStore ['c'] [] 5 3
    (.inr (Rising.increasing (by decide)))

/-- Unicode tables, as far as one more letter. -/
@[reducible] def umlautTables : Tables := { asciiTables with toLower := fun c => if c = 'Ä' then 'ä' else asciiLower c }

/-- A message that is the query itself. -/
def umlaut : Record := { subject := ['a'], data := .text ['Ä'], timestamp := 0, sequence := 1 }

theorem umlaut_lost : ¬ @Finds umlautTables (fun c => [umlautTables.toLower c]) (single umlaut) ['c'] [] ['Ä'] 1 0
    (@search umlautTables .plain (single umlaut) ['c'] [] ['Ä'] 1 0) := by
  let _ := umlautTables
  intro finds
  have found := finds.complete (le_refl 1) umlaut (List.mem_singleton_self _) rfl
    ⟨['Ä'], List.mem_cons_of_mem _ (List.mem_singleton_self _), List.infix_rfl⟩
  rw [search_single umlaut (by decide)] at found
  cases found

end Sample

end NatsExplorer.History.MemSearch
