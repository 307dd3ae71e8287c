import NatsExplorer.Client.Strings
import NatsExplorer.Library.Levels
import Mathlib.Tactic.Linarith
import Mathlib.Tactic.Positivity

/-! Where the boxes of the relations picture go (`client/src/components/jetstream/relationsLayout.ts`): streams stand in
columns by how far they are from where data comes in, and the subjects they store and the streams that are not listed
stand left of everything. Lengths are exact. -/
namespace NatsExplorer.Client
open Go js

namespace relations

def cardW : ℚ := 232
def colGap : ℚ := 120
def rowGap : ℚ := 22
def chipW : ℚ := 180
def chipH : ℚ := 22
def chipGap : ℚ := 6
def margin : ℚ := 20
def headerH : ℚ := 50
def consumerRowH : ℚ := 20
def maxConsumerRows : ℕ := 5
def maxSubjectChips : ℕ := 4

/-- What the browser brings: `sort` orders by the sign of what the comparison returns, and for a comparison that is no order
the result is some permutation. -/
class Browser where
  localeCompare : Str → Str → ℚ
  sort {α : Type} : (α → α → ℚ) → List α → List α
  sort_perm {α : Type} (compare : α → α → ℚ) (l : List α) : (sort compare l).Perm l
  toFixed : ℚ → Str

inductive StreamKind where
  | stream
  | kv
  | objects
  deriving DecidableEq, Repr

def streamKind (name : Str) : StreamKind :=
  if "KV_".toList.isPrefixOf name then .kv else if "OBJ_".toList.isPrefixOf name then .objects else .stream

/-- A mirror or a source; `domain` and `externalApi` are empty where there is none. -/
structure StreamSource where
  name : Str
  domain : Str := []
  externalApi : Str := []
  lag : Option ℕ := none
  deriving DecidableEq, Repr

structure StreamInfo where
  name : Str
  subjects : List Str := []
  mirror : Option StreamSource := none
  sources : List StreamSource := []
  republish : Bool := false
  deriving DecidableEq, Repr

structure LaidCard (C : Type) where
  name : Str
  kind : StreamKind
  level : ℕ
  x : ℚ
  y : ℚ
  h : ℚ
  stream : StreamInfo
  consumers : List C

inductive ChipKind where
  | subject
  | external
  | more
  deriving DecidableEq, Repr

structure LaidChip where
  /-- `subject:<pattern>`, `external:<name>` or `more:<stream>` -/
  id : Str
  kind : ChipKind
  label : Str
  /-- The stream a subject chip feeds, or the domain or API of an external. -/
  detail : Str
  x : ℚ
  y : ℚ
  deriving DecidableEq, Repr

inductive LinkKind where
  | subject
  | mirror
  | source
  deriving DecidableEq, Repr

def LinkKind.name : LinkKind → Str
  | .subject => "subject".toList
  | .mirror => "mirror".toList
  | .source => "source".toList

structure LaidLink where
  key : Str
  kind : LinkKind
  from_ : Str
  to_ : Str
  d : Str
  /-- Messages behind, for a mirror or a source. -/
  lag : Option ℕ
  mx : ℚ
  my : ℚ
  deriving DecidableEq, Repr

structure RelationsLayout (C : Type) where
  width : ℚ
  height : ℚ
  cards : List (LaidCard C)
  chips : List LaidChip
  links : List LaidLink

structure Upstream where
  name : Str
  kind : LinkKind
  /-- Set for a stream that is not in this listing: another domain or account. -/
  external : Option Str
  lag : Option ℕ
  deriving DecidableEq, Repr

def upstreamsOf (s : StreamInfo) (known : List Str) : List Upstream :=
  let add (kind : LinkKind) (src : StreamSource) : Upstream :=
    let foreign := if src.domain ≠ [] then src.domain else src.externalApi
    { name := src.name
      kind := kind
      external :=
        if foreign ≠ [] ∨ src.name ∉ known then some (if foreign ≠ [] then foreign else "not listed".toList) else none
      lag := src.lag }
  s.mirror.toList.map (add .mirror) ++ s.sources.map (add .source)

def cardHeight (consumers : ℕ) (republish : Bool) : ℚ :=
  let rows := min consumers maxConsumerRows + if maxConsumerRows < consumers then 1 else 0
  headerH + (if rows ≠ 0 then rows * consumerRowH + 8 else 0) + if republish then consumerRowH else 0

def curve [Browser] (x1 y1 x2 y2 : ℚ) : Str :=
  let dx := max 30 ((x2 - x1) / 2)
  let at_ (x y : ℚ) := Browser.toFixed x ++ ',' :: Browser.toFixed y
  'M' :: at_ x1 y1 ++ " C".toList ++ at_ (x1 + dx) y1 ++ ' ' :: at_ (x2 - dx) y2 ++ ' ' :: at_ x2 y2

section Layout
variable [Browser] {C : Type} (streams : List StreamInfo) (consumers : Str → List C)

/-- `byName`; the last stream of a name. -/
def byName (name : Str) : Option StreamInfo := streams.reverse.find? (·.name = name)

def ups (name : Str) : List Upstream :=
  ((byName streams name).map fun s => upstreamsOf s (streams.map StreamInfo.name)).getD []

/-- The upstreams that are in the listing. -/
def listed (name : Str) : List Str := ((ups streams name).filter (·.external = none)).map Upstream.name

def left (subjects : Bool) : ℚ :=
  margin + if subjects ∨ ∃ s ∈ streams, ∃ u ∈ ups streams s.name, u.external ≠ none then chipW + colGap else 0

def colX (subjects : Bool) (l : ℕ) : ℚ := left streams subjects + ((l : ℚ) - 1) * (cardW + colGap)

/-- The card of a stream, once it is placed. -/
def cardOf (cards : List (LaidCard C)) (name : Str) : Option (LaidCard C) := cards.reverse.find? (·.name = name)

/-- The middle of what feeds a stream, of the cards that are placed; none is an infinite one. -/
def center (cards : List (LaidCard C)) (name : Str) : Option ℚ :=
  let ys := (ups streams name).filterMap fun u => (cardOf cards u.name).map fun c => c.y + c.h / 2
  if ys = [] then none else some (ys.sum / ys.length)

/-- How the streams of a column are compared. -/
def nearer (cards : List (LaidCard C)) (a b : Str) : ℚ :=
  match center streams cards a, center streams cards b with
  | some x, some y => if x - y ≠ 0 then x - y else Browser.localeCompare a b
  | _, _ => Browser.localeCompare a b

structure Placing (C : Type) where
  cards : List (LaidCard C) := []
  bottom : ℚ := margin

/-- One card of a column, at `y` or further down. -/
def place (subjects : Bool) (l : ℕ) (p : Placing C × ℚ) (name : Str) : Placing C × ℚ :=
  match byName streams name with
  | none => p
  | some s =>
    let cs := consumers name
    let h := cardHeight cs.length s.republish
    let y := match center streams p.1.cards name with
      | some want => max p.2 (want - h / 2)
      | none => p.2
    let card : LaidCard C :=
      { name := name, kind := streamKind name, level := l, x := colX streams subjects l, y := y, h := h, stream := s, consumers := cs }
    ({ cards := p.1.cards ++ [card], bottom := max p.1.bottom (y + h) }, y + h + rowGap)

/-- The streams of a column, in order. -/
def column (level : Levels.Found Str) (l : ℕ) (cards : List (LaidCard C)) : List Str :=
  Browser.sort (nearer streams cards) ((streams.filter fun s => level.lookup s.name = some l).map StreamInfo.name)

def placeColumn (subjects : Bool) (level : Levels.Found Str) (p : Placing C) (l : ℕ) : Placing C :=
  ((column streams level l p.cards).foldl (place streams consumers subjects l) (p, margin)).1

def maxLevel (level : Levels.Found Str) : ℕ := (level.entries.map Sigma.snd).foldl max 1

/-- The cards, column by column. -/
def placing (subjects : Bool) (level : Levels.Found Str) : Placing C :=
  ((List.range (maxLevel level)).map (· + 1)).foldl (placeColumn streams consumers subjects level) {}

def anchorY (c : LaidCard C) : ℚ := c.y + 18

def chipX : ℚ := margin

def subjectId (subj : Str) : Str := "subject:".toList ++ subj
def moreId (name : Str) : Str := "more:".toList ++ name
def externalId (name external : Str) : Str := "external:".toList ++ name ++ ':' :: external

/-- The chips that feed a card. -/
def itemsOf (subjects : Bool) (card : LaidCard C) : List LaidChip :=
  let own := if subjects then
      (card.stream.subjects.take maxSubjectChips).map (fun subj =>
        { id := subjectId subj, kind := .subject, label := subj, detail := card.name, x := chipX, y := 0 }) ++
      if maxSubjectChips < card.stream.subjects.length then
        [{ id := moreId card.name, kind := .more, x := chipX, y := 0, detail := card.name,
           label := '+' :: (toString (card.stream.subjects.length - maxSubjectChips)).toList ++ " more".toList }]
      else []
    else []
  own ++ (ups streams card.name).filterMap fun u => u.external.map fun external =>
    { id := externalId u.name external, kind := .external, label := u.name, detail := external, x := chipX, y := 0 }

structure Chips where
  chips : List LaidChip := []
  free : ℚ := margin
  bottom : ℚ

/-- One chip, unless it is there. -/
def addChip (s : List LaidChip × ℚ) (item : LaidChip) : List LaidChip × ℚ :=
  if s.1.any (·.id = item.id) then s else (s.1 ++ [{ item with y := s.2 }], s.2 + (chipH + chipGap))

def addChips (subjects : Bool) (s : Chips) (card : LaidCard C) : Chips :=
  let items := itemsOf streams subjects card
  if items = [] then s
  else
    let y := max s.free (anchorY card - chipH / 2)
    let (chips, y) := items.foldl addChip (s.chips, y)
    { chips := chips, free := y + rowGap / 2, bottom := max s.bottom y }

/-- The cards from top to bottom. -/
def fromTop (cards : List (LaidCard C)) : List (LaidCard C) :=
  Browser.sort (fun a b => if a.y - b.y ≠ 0 then a.y - b.y else a.x - b.x) cards

def chipById (chips : List LaidChip) (id : Str) : Option LaidChip := chips.reverse.find? (·.id = id)

/-- The links from the subjects of a card. -/
def subjectLinks (subjects : Bool) (chips : List LaidChip) (card : LaidCard C) : List LaidLink :=
  let incoming := if subjects then
      (card.stream.subjects.take maxSubjectChips).map subjectId ++
        if maxSubjectChips < card.stream.subjects.length then [moreId card.name] else []
    else []
  incoming.filterMap fun id => (chipById chips id).map fun chip =>
    let x1 := chip.x + chipW
    let y1 := chip.y + chipH / 2
    let x2 := card.x
    let y2 := anchorY card
    { key := id ++ "->".toList ++ card.name, kind := .subject, from_ := id, to_ := card.name, d := curve x1 y1 x2 y2, lag := none
      mx := (x1 + x2) / 2, my := (y1 + y2) / 2 }

/-- The links from the upstreams of a card. -/
def upstreamLinks (cards : List (LaidCard C)) (chips : List LaidChip) (card : LaidCard C) : List LaidLink :=
  (ups streams card.name).zipIdx.filterMap fun (u, i) =>
    let start : Option (Str × ℚ × ℚ) := match u.external with
      | none => (cardOf cards u.name).map fun c => (u.name, c.x + cardW, anchorY c)
      | some external => (chipById chips (externalId u.name external)).map fun c => (c.id, c.x + chipW, c.y + chipH / 2)
    start.map fun (from_, x1, y1) =>
      let x2 := card.x
      let y2 := anchorY card + i * 6
      { key := u.kind.name ++ ':' :: u.name ++ "->".toList ++ card.name, kind := u.kind, from_ := from_, to_ := card.name
        d := curve x1 y1 x2 y2, lag := u.lag, mx := (x1 + x2) / 2, my := (y1 + y2) / 2 }

/-- The picture; none where the search for the levels is cut off. -/
def layoutRelations (subjects : Bool) (fuel : ℕ) : Option (RelationsLayout C) :=
  (Levels.levels (listed streams) fuel (streams.map StreamInfo.name)).map fun level =>
    let placed := placing streams consumers subjects level
    let chips := (fromTop placed.cards).foldl (addChips streams subjects) { bottom := placed.bottom }
    { width := max (colX streams subjects (maxLevel level) + cardW + margin) 360
      height := chips.bottom + margin
      cards := placed.cards
      chips := chips.chips
      links := placed.cards.flatMap fun card =>
        subjectLinks subjects chips.chips card ++ upstreamLinks streams placed.cards chips.chips card }

/-! ### Cards -/

section Cards
variable {streams} {consumers}

omit [Browser] in
theorem cardHeight_pos (n : ℕ) (republish : Bool) : 0 < cardHeight n republish := by
  have all (rows : ℕ) : 0 < headerH + (if rows ≠ 0 then rows * consumerRowH + 8 else 0) + if republish then consumerRowH else 0 := by
    have some_ : (0 : ℚ) ≤ rows * 20 + 8 := by positivity
    unfold headerH consumerRowH
    cases republish <;> split <;> simp only [if_true, Bool.false_eq_true, if_false] <;> linarith
  exact all _

omit [Browser] in
theorem byName_mem {name : Str} (there : name ∈ streams.map StreamInfo.name) :
    ∃ s ∈ streams, s.name = name ∧ byName streams name = some s := by
  obtain ⟨s, member, rfl⟩ := List.mem_map.mp there
  have some_ : (byName streams s.name).isSome := List.find?_isSome.mpr ⟨s, List.mem_reverse.mpr member, decide_eq_true rfl⟩
  obtain ⟨s', found⟩ := Option.isSome_iff_exists.mp some_
  exact ⟨s', List.mem_reverse.mp (List.mem_of_find?_eq_some found), of_decide_eq_true (List.find?_some found :), found⟩

/-- The cards of a column, one below the other. -/
structure Stacked (subjects : Bool) (l : ℕ) (y : ℚ) (names : List Str) (cards : List (LaidCard C)) (y' : ℚ) : Prop where
  named : cards.map LaidCard.name = names
  column : ∀ c ∈ cards, c.level = l ∧ c.x = colX streams subjects l ∧ c.stream ∈ streams ∧ c.stream.name = c.name
  room : ∀ c ∈ cards, y ≤ c.y ∧ c.y + c.h ≤ y'
  further : y ≤ y'
  apart : cards.Pairwise fun a b => a.y + a.h ≤ b.y

omit [Browser] in
theorem place_stacked (subjects : Bool) (l : ℕ) (names : List Str) (known : names ⊆ streams.map StreamInfo.name)
    (p : Placing C × ℚ) :
    ∃ cards, (names.foldl (place streams consumers subjects l) p).1.cards = p.1.cards ++ cards ∧
      @Stacked _ streams subjects l p.2 names cards (names.foldl (place streams consumers subjects l) p).2 := by
  induction names generalizing p with
  | nil => exact ⟨[], (List.append_nil _).symm, rfl, nofun, nofun, le_rfl, .nil⟩
  | cons name names ih =>
    obtain ⟨s, member, same, found⟩ := byName_mem (known List.mem_cons_self)
    let y := match center streams p.1.cards name with
      | some want => max p.2 (want - cardHeight (consumers name).length s.republish / 2)
      | none => p.2
    have lower : p.2 ≤ y := by
      unfold y
      split
      · exact le_max_left _ _
      · exact le_rfl
    let card : LaidCard C :=
      { name := name, kind := streamKind name, level := l, x := colX streams subjects l, y := y
        h := cardHeight (consumers name).length s.republish, stream := s, consumers := consumers name }
    have placed : place streams consumers subjects l p name =
        ({ cards := p.1.cards ++ [card], bottom := max p.1.bottom (y + card.h) }, y + card.h + rowGap) := by
      unfold place
      rw [found]
    have high : 0 < card.h := cardHeight_pos _ _
    have gap : (0 : ℚ) < rowGap := by norm_num [rowGap]
    obtain ⟨cards, all, stacked⟩ := ih (fun _ there => known (List.mem_cons_of_mem _ there)) (place streams consumers subjects l p name)
    rw [List.foldl_cons]
    generalize (names.foldl (place streams consumers subjects l) (place streams consumers subjects l p name)) = r at all stacked
    rw [placed] at all stacked
    have further : y + card.h + rowGap ≤ r.2 := stacked.further
    refine ⟨card :: cards, ?_, congrArg (name :: ·) stacked.named, List.forall_mem_cons.mpr ⟨⟨rfl, rfl, member, same⟩, stacked.column⟩,
      List.forall_mem_cons.mpr ⟨⟨lower, ?_⟩, fun c there => ⟨?_, (stacked.room c there).2⟩⟩, ?_, List.pairwise_cons.mpr ⟨fun c there => ?_, stacked.apart⟩⟩
    · rw [all, List.append_assoc, List.singleton_append]
    · change y + card.h ≤ r.2
      linarith
    · have below : y + card.h + rowGap ≤ c.y := (stacked.room c there).1
      linarith
    · linarith
    · have below : y + card.h + rowGap ≤ c.y := (stacked.room c there).1
      change y + card.h ≤ c.y
      linarith

/-- The columns placed so far. -/
structure Placed (subjects : Bool) (level : Levels.Found Str) (n : ℕ) (p : Placing C) : Prop where
  named : (p.cards.map LaidCard.name).Perm ((streams.filter fun s => (level.lookup s.name).getD 0 ≤ n).map StreamInfo.name)
  column : ∀ c ∈ p.cards, level.lookup c.name = some c.level ∧ c.level ≤ n ∧ c.x = colX streams subjects c.level ∧
    c.stream ∈ streams ∧ c.stream.name = c.name
  apart : p.cards.Pairwise fun a b => a.level = b.level → a.y + a.h ≤ b.y

omit [Browser] in
/-- What is at most one more is at most that or just one more. -/
theorem filter_succ {A : Type} (f : A → ℕ) (n : ℕ) (l : List A) :
    (l.filter (f · ≤ n) ++ l.filter (f · = n + 1)).Perm (l.filter (f · ≤ n + 1)) := by
  have split := List.filter_append_perm (fun a => decide (f a ≤ n)) (l.filter (f · ≤ n + 1))
  rw [List.filter_filter, List.filter_filter] at split
  refine .trans (.of_eq (congrArg₂ (· ++ ·) ?_ ?_)) split <;> refine List.filter_congr fun a _ => ?_
  · rw [Bool.eq_iff_iff, Bool.and_eq_true]
    simp only [decide_eq_true_eq]
    omega
  · rw [Bool.eq_iff_iff, Bool.and_eq_true]
    simp only [decide_eq_true_eq, Bool.not_eq_true', decide_eq_false_iff_not]
    omega

theorem placing_placed (subjects : Bool) {level : Levels.Found Str} (positive : ∀ s ∈ streams, ∃ l, level.lookup s.name = some l ∧ 1 ≤ l)
    (n : ℕ) : @Placed _ streams subjects level n
      (((List.range n).map (· + 1)).foldl (placeColumn streams consumers subjects level) {}) := by
  induction n with
  | zero =>
    have none : streams.filter (fun s => (level.lookup s.name).getD 0 ≤ 0) = [] := by
      refine List.filter_eq_nil_iff.mpr fun s member low => ?_
      obtain ⟨l, known, high⟩ := positive s member
      have low : (level.lookup s.name).getD 0 ≤ 0 := of_decide_eq_true low
      rw [known, Option.getD_some] at low
      omega
    exact ⟨by rw [none]; exact .refl _, nofun, .nil⟩
  | succ n ih =>
    rw [List.range_succ, List.map_append, List.foldl_append]
    generalize ((List.range n).map (· + 1)).foldl (placeColumn streams consumers subjects level) {} = p at ih ⊢
    change Placed subjects level (n + 1) (placeColumn streams consumers subjects level p (n + 1))
    let names := column streams level (n + 1) p.cards
    have own : names.Perm ((streams.filter fun s => level.lookup s.name = some (n + 1)).map StreamInfo.name) := Browser.sort_perm _ _
    have at_ {name : Str} (there : name ∈ names) : ∃ s ∈ streams, s.name = name ∧ level.lookup name = some (n + 1) := by
      obtain ⟨s, member, rfl⟩ := List.mem_map.mp (own.mem_iff.mp there)
      obtain ⟨member, here⟩ := List.mem_filter.mp member
      exact ⟨s, member, rfl, of_decide_eq_true here⟩
    have known : names ⊆ streams.map StreamInfo.name := fun name there => by
      obtain ⟨s, member, rfl, -⟩ := at_ there
      exact List.mem_map_of_mem member
    obtain ⟨cards, all, stacked⟩ := @place_stacked _ _ consumers subjects (n + 1) names known (p, margin)
    have all : (placeColumn streams consumers subjects level p (n + 1)).cards = p.cards ++ cards := all
    have levels : (streams.filter fun s => level.lookup s.name = some (n + 1)) =
        streams.filter fun s => (level.lookup s.name).getD 0 = n + 1 := by
      refine List.filter_congr fun s member => decide_eq_decide.mpr ?_
      obtain ⟨l, known, -⟩ := positive s member
      rw [known, Option.getD_some, Option.some.injEq]
    refine ⟨?_, fun c there => ?_, ?_⟩
    · rw [all, List.map_append, stacked.named]
      refine (ih.named.append own).trans ?_
      rw [levels, ← List.map_append]
      exact (filter_succ (fun s : StreamInfo => (level.lookup s.name).getD 0) n streams).map _
    · rw [all] at there
      rcases List.mem_append.mp there with before | new
      · obtain ⟨known, low, rest⟩ := ih.column c before
        exact ⟨known, by omega, rest⟩
      · obtain ⟨same, x, member, named⟩ := stacked.column c new
        have listed : c.name ∈ names := stacked.named ▸ List.mem_map_of_mem new
        obtain ⟨-, -, -, known⟩ := at_ listed
        exact ⟨same ▸ known, same.le, same ▸ x, member, named⟩
    · rw [all, List.pairwise_append]
      refine ⟨ih.apart, List.Pairwise.imp (fun {a b} (apart : a.y + a.h ≤ b.y) (_ : a.level = b.level) => apart) stacked.apart,
        fun a before b new same => ?_⟩
      have low := (ih.column a before).2.1
      have high := (stacked.column b new).1
      omega

omit [Browser] in
theorem maxLevel_bounds {level : Levels.Found Str} {name : Str} {l : ℕ} (known : level.lookup name = some l) : l ≤ maxLevel level := by
  have grows (ls : List ℕ) (m : ℕ) : m ≤ ls.foldl max m ∧ ∀ l ∈ ls, l ≤ ls.foldl max m := by
    induction ls generalizing m with
    | nil => exact ⟨le_rfl, nofun⟩
    | cons k ls ih =>
      obtain ⟨first, rest⟩ := ih (max m k)
      exact ⟨(le_max_left m k).trans first, List.forall_mem_cons.mpr ⟨(le_max_right m k).trans first, rest⟩⟩
  exact (grows _ 1).2 l (List.mem_map_of_mem (AList.mem_lookup_iff.mp known))

/-- Every stream is in a column. -/
theorem placing_all (subjects : Bool) {level : Levels.Found Str} (positive : ∀ s ∈ streams, ∃ l, level.lookup s.name = some l ∧ 1 ≤ l) :
    ((placing streams consumers subjects level).cards.map LaidCard.name).Perm (streams.map StreamInfo.name) := by
  refine (placing_placed subjects positive (maxLevel level)).named.trans (.of_eq (congrArg _ ?_))
  refine List.filter_eq_self.mpr fun s member => decide_eq_true ?_
  obtain ⟨l, known, -⟩ := positive s member
  rw [known]
  exact maxLevel_bounds known

omit [Browser] in
theorem listed_known (s : Str) (u : Str) (edge : u ∈ listed streams s) : u ∈ streams.map StreamInfo.name := by
  obtain ⟨up, member, rfl⟩ := List.mem_map.mp edge
  obtain ⟨member, own⟩ := List.mem_filter.mp member
  have own : up.external = none := of_decide_eq_true own
  unfold ups at member
  cases found : byName streams s with
  | none =>
    rw [found] at member
    cases member
  | some info =>
    rw [found] at member
    have known (kind : LinkKind) (src : StreamSource) (foreign : Str)
        (inside : (if foreign ≠ [] ∨ src.name ∉ streams.map StreamInfo.name then
          some (if foreign ≠ [] then foreign else "not listed".toList) else none) = none) : src.name ∈ streams.map StreamInfo.name := by
      split at inside
      · cases inside
      · rename_i here
        exact not_not.mp fun absent => here (.inr absent)
    rcases List.mem_append.mp member with mirror | source
    · obtain ⟨src, -, rfl⟩ := List.mem_map.mp mirror
      exact known .mirror src _ own
    · obtain ⟨src, -, rfl⟩ := List.mem_map.mp source
      exact known .source src _ own

end Cards

/-! ### Chips -/

section Chips
variable {streams}

/-- Chips one below the other, all above `y`. -/
structure Lined (chips : List LaidChip) (y : ℚ) : Prop where
  above : ∀ c ∈ chips, c.y + chipH ≤ y
  apart : chips.Pairwise fun a b => a.y + chipH ≤ b.y

omit [Browser] in
theorem Lined.further {chips : List LaidChip} {y y' : ℚ} (lined : Lined chips y) (further : y ≤ y') : Lined chips y' :=
  ⟨fun c there => (lined.above c there).trans further, lined.apart⟩

omit [Browser] in
theorem addChip_lined {s : List LaidChip × ℚ} (lined : Lined s.1 s.2) (item : LaidChip) :
    Lined (addChip s item).1 (addChip s item).2 := by
  have gap : (0 : ℚ) < chipGap := by norm_num [chipGap]
  unfold addChip
  split
  · exact lined
  · refine ⟨fun c there => ?_, List.pairwise_append.mpr ⟨lined.apart, List.pairwise_singleton _ _, fun a there b last => ?_⟩⟩
    · rcases List.mem_append.mp there with before | last
      · have above := lined.above c before
        have room : (0 : ℚ) < chipH := by norm_num [chipH]
        change c.y + chipH ≤ s.2 + (chipH + chipGap)
        linarith
      · obtain rfl := List.mem_singleton.mp last
        change s.2 + chipH ≤ s.2 + (chipH + chipGap)
        linarith
    · obtain rfl := List.mem_singleton.mp last
      exact lined.above a there

omit [Browser] in
theorem addChips_lined (subjects : Bool) {s : Chips} (lined : Lined s.chips s.free) (card : LaidCard C) :
    Lined (addChips streams subjects s card).chips (addChips streams subjects s card).free := by
  unfold addChips
  dsimp only
  split
  · exact lined
  · have all (items : List LaidChip) (p : List LaidChip × ℚ) (lined : Lined p.1 p.2) :
        Lined (items.foldl addChip p).1 (items.foldl addChip p).2 := by
      induction items generalizing p with
      | nil => exact lined
      | cons item items ih => exact ih (addChip p item) (addChip_lined lined item)
    have gap : (0 : ℚ) ≤ rowGap / 2 := by norm_num [rowGap]
    exact (all _ _ (lined.further (le_max_left _ _))).further (le_add_of_nonneg_right gap)

omit [Browser] in
theorem chips_lined (subjects : Bool) (cards : List (LaidCard C)) (s : Chips) (lined : Lined s.chips s.free) :
    Lined (cards.foldl (addChips streams subjects) s).chips (cards.foldl (addChips streams subjects) s).free := by
  induction cards generalizing s with
  | nil => exact lined
  | cons card cards ih => exact ih _ (addChips_lined subjects lined card)

end Chips

/-! ### The picture -/

/-- What a picture of streams shows. -/
structure Follows (r : RelationsLayout C) : Prop where
  /-- One card a stream. -/
  cards : (r.cards.map LaidCard.stream).Perm streams
  named : ∀ c ∈ r.cards, c.name = c.stream.name
  columns : r.cards.Pairwise fun a b => a.level = b.level → a.y + a.h ≤ b.y
  chips : r.chips.Pairwise fun a b => a.y + chipH ≤ b.y
  later : ∀ s ∈ r.cards, ∀ u ∈ r.cards, u.name ∈ listed streams s.name →
    u.level < s.level ∧ u.x + cardW + colGap ≤ s.x ∨ Levels.Reaches (listed streams) u.name s.name
  longest : Levels.Acyclic (listed streams) → ∀ s ∈ r.cards,
    (∃ chain, Levels.Chain (listed streams) s.name chain ∧ chain.length + 1 = s.level) ∧
      ∀ chain, Levels.Chain (listed streams) s.name chain → chain.length + 1 ≤ s.level

variable {streams}

omit [Browser] in
theorem cards_once (distinct : (streams.map StreamInfo.name).Nodup) {cards : List (LaidCard C)}
    (named : (cards.map LaidCard.name).Perm (streams.map StreamInfo.name))
    (own : ∀ c ∈ cards, c.stream ∈ streams ∧ c.stream.name = c.name) : (cards.map LaidCard.stream).Perm streams := by
  have again : (cards.map LaidCard.stream).map StreamInfo.name = cards.map LaidCard.name := by
    rw [List.map_map]
    exact List.map_congr_left fun c there => (own c there).2
  have once : (cards.map LaidCard.stream).Nodup := .of_map StreamInfo.name (again ▸ named.nodup_iff.mpr distinct)
  refine (List.perm_ext_iff_of_nodup once (.of_map StreamInfo.name distinct)).mpr fun s => ⟨fun there => ?_, fun there => ?_⟩
  · obtain ⟨c, member, rfl⟩ := List.mem_map.mp there
    exact (own c member).1
  · obtain ⟨c, member, same⟩ := List.mem_map.mp (named.mem_iff.mpr (List.mem_map_of_mem there))
    obtain ⟨known, name⟩ := own c member
    have same : c.stream = s := List.inj_on_of_nodup_map distinct known there (name.trans same)
    exact same ▸ List.mem_map_of_mem member

omit [Browser] in
theorem colX_later (subjects : Bool) {l l' : ℕ} (lower : l' < l) :
    colX streams subjects l' + cardW + colGap ≤ colX streams subjects l := by
  have lower : (l' : ℚ) + 1 ≤ l := by exact_mod_cast lower
  unfold colX
  have width : (0 : ℚ) ≤ cardW + colGap := by norm_num [cardW, colGap]
  linarith [mul_le_mul_of_nonneg_right lower width]

/-- The picture is drawn whatever the relations are, and follows them. -/
theorem picture_follows (consumers : Str → List C) (subjects : Bool) (distinct : (streams.map StreamInfo.name).Nodup) :
    ∃ r, (∀ fuel ≥ streams.length, layoutRelations streams consumers subjects fuel = some r) ∧ Follows streams r := by
  obtain ⟨level, found, fits, positive⟩ := @Levels.levels_spec _ _ (listed streams) (streams.map StreamInfo.name)
    (fun s _ => listed_known s) streams.length (List.length_map _).le
  have positive : ∀ s ∈ streams, ∃ l, level.lookup s.name = some l ∧ 1 ≤ l := fun s there => positive s.name (List.mem_map_of_mem there)
  have placed := @placing_placed _ _ _ consumers subjects _ positive (maxLevel level)
  have column := placed.column
  have start : Lined [] margin := ⟨fun _ there => absurd there List.not_mem_nil, .nil⟩
  refine ⟨_, fun fuel enough => congrArg _ (Levels.levels_more enough found), ?_⟩
  refine ⟨cards_once distinct (placing_all subjects positive) fun c there => (column c there).2.2.2, fun c there => (column c there).2.2.2.2.symm,
    placed.apart, (chips_lined subjects _ { bottom := _ } start).apart, fun s there u there' edge => ?_, fun acyclic s there => ?_⟩
  · obtain ⟨known, -, x, -⟩ := column s there
    obtain ⟨known', -, x', -⟩ := column u there'
    refine (fits.above known edge).imp_left fun ⟨k, below, lower⟩ => ?_
    obtain rfl : u.level = k := Option.some.inj (known'.symm.trans below)
    exact ⟨lower, x ▸ x' ▸ colX_later subjects lower⟩
  · exact fits.longest acyclic (column s there).1

end Layout

/-- A browser that compares names by their first letters that differ. -/
@[reducible] def browser : Browser where
  localeCompare a b := byLetters a b
  sort compare l := l.mergeSort fun a b => decide (compare a b ≤ 0)
  sort_perm _ _ := List.mergeSort_perm _ _
  toFixed := tenths

/-- A stream, its mirror, and two streams that source from each other. -/
def looped : List StreamInfo :=
  [{ name := "ORDERS".toList, subjects := ["orders.>".toList] },
    { name := "COPY".toList, mirror := some { name := "ORDERS".toList } },
    { name := "EAST".toList, sources := [{ name := "WEST".toList }] },
    { name := "WEST".toList, sources := [{ name := "EAST".toList }, { name := "AWAY".toList, domain := "hub".toList }] }]

theorem picture_follows_looped :
    ∃ r, (∀ fuel ≥ 4, @layoutRelations browser Unit looped (fun _ => []) true fuel = some r) ∧ Follows looped r :=
  @picture_follows browser Unit looped (fun _ => []) true (by decide)

end relations
end NatsExplorer.Client
