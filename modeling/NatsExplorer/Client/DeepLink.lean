import NatsExplorer.Client.UrlSync
import NatsExplorer.Go.JsonText
import NatsExplorer.Go.Url
import NatsExplorer.Message.Payload

/-! A copied address and whoever opens it (`client/src/lib/deepLink.ts`, `urlSync.ts`): what a link says goes through `URLSearchParams`
and back. -/
namespace NatsExplorer.Client
open Go

namespace URLSearchParams

/-- The bytes that go as they are. -/
def plain (b : UInt8) : Bool :=
  decide (b < 128) && (url.letterOrDigit (Char.ofNat b.toNat) || decide (Char.ofNat b.toNat ∈ "*-._".toList))

def escapeByte (b : UInt8) : Str :=
  if b = 32 then ['+']
  else if plain b then [Char.ofNat b.toNat]
  else ['%', url.upperhex (b / 16), url.upperhex (b % 16)]

def escape (s : Str) : Str := (utf8 s).flatMap escapeByte

/-- A percent sign without two digits behind it stands for itself. -/
def unescape : Str → List UInt8
  | '%' :: a :: b :: t =>
    match url.unhex a, url.unhex b with
    | some x, some y => (16 * x + y) :: unescape t
    | _, _ => 37 :: unescape (a :: b :: t)
  | '+' :: t => 32 :: unescape t
  | c :: t => String.utf8EncodeChar c ++ unescape t
  | [] => []

/-- `toString` -/
def text (pairs : List (Str × Str)) : Str := ['&'].intercalate (pairs.map fun (k, v) => escape k ++ '=' :: escape v)

/-- The constructor; `decode` is the UTF-8 decoder. -/
def pairs (decode : List UInt8 → Str) (text : Str) : List (Str × Str) :=
  (((urlSync.stripped '?' text).splitOn '&').filter (· ≠ [])).map fun pair =>
    (decode (unescape (pair.takeWhile (· ≠ '='))), decode (unescape ((pair.dropWhile (· ≠ '=')).drop 1)))

theorem plain_byte : ∀ n < 256, plain (UInt8.ofNat n) → Char.ofNat n ≠ '%' ∧ Char.ofNat n ≠ '+' ∧
    String.utf8EncodeChar (Char.ofNat n) = [UInt8.ofNat n] := by decide +kernel

theorem unhex_upperhex : ∀ n < 256, url.unhex (url.upperhex (UInt8.ofNat n / 16)) = some (UInt8.ofNat n / 16) ∧
    url.unhex (url.upperhex (UInt8.ofNat n % 16)) = some (UInt8.ofNat n % 16) ∧
    16 * (UInt8.ofNat n / 16) + UInt8.ofNat n % 16 = UInt8.ofNat n := by decide +kernel

theorem free_byte : ∀ n < 256, (escapeByte (UInt8.ofNat n)).all (· ∉ "&=?".toList) := by decide +kernel

/-- What is written for a byte is read as that byte. -/
theorem unescape_byte (b : UInt8) (t : Str) : unescape (escapeByte b ++ t) = b :: unescape t := by
  unfold escapeByte
  split
  · rename_i space
    rw [space]
    rfl
  · split
    · rename_i asIs
      rw [← UInt8.ofNat_toNat (x := b)] at asIs
      obtain ⟨percent, plus, byte⟩ := plain_byte b.toNat b.toNat_lt asIs
      rw [UInt8.ofNat_toNat] at byte
      rw [List.singleton_append, unescape.eq_3 _ t (fun _ _ _ same _ => percent same) plus, byte, List.singleton_append]
    · have digits := unhex_upperhex b.toNat b.toNat_lt
      rw [UInt8.ofNat_toNat] at digits
      obtain ⟨high, low, back⟩ := digits
      rw [List.cons_append, List.cons_append, List.singleton_append, unescape, high, low]
      exact congrArg (· :: unescape t) back

theorem unescape_escape (s : Str) : unescape (escape s) = utf8 s := by
  unfold escape
  induction utf8 s with
  | nil => rfl
  | cons b bytes ih => rw [List.flatMap_cons, unescape_byte, ih]

theorem free {c : Char} {s : Str} (member : c ∈ escape s) : c ∉ "&=?".toList := by
  obtain ⟨b, -, member⟩ := List.mem_flatMap.mp member
  have all := free_byte b.toNat b.toNat_lt
  rw [UInt8.ofNat_toNat] at all
  exact of_decide_eq_true (List.all_eq_true.mp all c member)

theorem splits (k : Str) (v : Str) :
    (escape k ++ '=' :: v).takeWhile (· ≠ '=') = escape k ∧ ((escape k ++ '=' :: v).dropWhile (· ≠ '=')).drop 1 = v := by
  have name : ∀ c ∈ escape k, decide (c ≠ '=') = true := by
    intro c member
    refine decide_eq_true ?_
    rintro rfl
    exact free member (by decide)
  constructor
  · rw [List.takeWhile_append_of_pos name]
    exact List.append_nil _
  · rw [List.dropWhile_append_of_pos name]
    rfl

/-- Pairs are read back as written. -/
theorem pairs_text {decode : List UInt8 → Str} (faithful : ∀ s, decode (utf8 s) = s) (l : List (Str × Str)) : pairs decode (text l) = l := by
  have said (s : Str) : decode (unescape (escape s)) = s := (congrArg decode (unescape_escape s)).trans (faithful s)
  cases l with
  | nil => rfl
  | cons first rest =>
    have begins : ∃ t, text (first :: rest) = escape first.1 ++ '=' :: t := by
      unfold text
      rw [List.map_cons]
      cases rest with
      | nil => exact ⟨escape first.2, List.intercalate_singleton⟩
      | cons second rest => exact ⟨_, List.intercalate_cons_cons.trans (by rw [List.append_assoc, List.append_assoc, List.cons_append])⟩
    have unasked : urlSync.stripped '?' (text (first :: rest)) = text (first :: rest) := by
      obtain ⟨t, begins⟩ := begins
      refine if_neg fun asks => ?_
      rw [begins, List.head?_append, Option.or_eq_some_iff] at asks
      rcases asks with named | ⟨-, other⟩
      · exact free (List.mem_of_mem_head? named) (by decide)
      · cases other
    have one : ∀ pair ∈ (first :: rest).map fun (k, v) => escape k ++ '=' :: escape v, '&' ∉ pair := by
      intro pair member there
      obtain ⟨⟨k, v⟩, -, rfl⟩ := List.mem_map.mp member
      rcases List.mem_append.mp there with there | there
      · exact free there (by decide)
      · rcases List.mem_cons.mp there with there | there
        · exact absurd there (by decide)
        · exact free there (by decide)
    rw [pairs, unasked, text, List.splitOn_intercalate '&' one (by simp), List.filter_eq_self.mpr, List.map_map]
    · refine (List.map_congr_left fun pair _ => ?_).trans (List.map_id _)
      obtain ⟨k, v⟩ := pair
      obtain ⟨before, behind⟩ := splits k (escape v)
      dsimp only [Function.comp, id]
      rw [before, behind, said, said]
    · intro pair member
      obtain ⟨⟨k, v⟩, -, rfl⟩ := List.mem_map.mp member
      exact decide_eq_true (List.append_ne_nil_of_right_ne_nil _ (List.cons_ne_nil _ _))

end URLSearchParams

namespace urlSync

/-- The browser's own: bytes that are no UTF-8, and numerals that are not those of a safe integer, are left open. -/
class Platform where
  /-- UTF-8, which keeps a byte order mark. -/
  decode : List UInt8 → Str
  decode_utf8 : ∀ s, decode (utf8 s) = s
  /-- `Number`, where it is finite -/
  number : Option Str → Option ℚ
  number_null : number none = some 0
  number_toString : ∀ n : ℤ, |n| ≤ 2 ^ 53 → number (some (toString n).toList) = some n

/-- The ends of a window are safe integers. -/
def DeepLink.Safe (link : DeepLink) : Prop := ∀ n, link.from_ = some n ∨ link.to_ = some n → |n| ≤ 2 ^ 53

/-- Both ends of a window in order. -/
def DeepLink.window (link : DeepLink) : Option (ℤ × ℤ) := do
  let from_ ← link.from_
  let to_ ← link.to_
  if 0 < from_ ∧ from_ < to_ then some (from_, to_) else none

/-- What is left of a link once it is written: texts that say something, and a window that is one. -/
def DeepLink.said (link : DeepLink) : DeepLink where
  module := link.module
  conn := given link.conn
  subject := given link.subject
  from_ := link.window.map Prod.fst
  to_ := link.window.map Prod.snd
  stream := given link.stream
  bucket := given link.bucket
  key := given link.key
  store := given link.store
  service := given link.service
  template := given link.template

theorem lookup_said {l : List (String × Option Str)} (once : (l.map Prod.fst).Nodup) (w : List (Str × Str)) (key : String) :
    (l.filterMap (fun (k, v) => (given v).map fun v => (k.toList, v)) ++ w).lookup key.toList =
      ((l.lookup key).bind given).or (w.lookup key.toList) := by
  induction l with
  | nil => rfl
  | cons entry l ih =>
    obtain ⟨k, v⟩ := entry
    obtain ⟨fresh, later⟩ := List.nodup_cons.mp once
    have letters : (key.toList == k.toList) = (key == k) := by
      rw [Bool.eq_iff_iff, beq_iff_eq, beq_iff_eq, String.toList_inj]
    rw [List.lookup_cons]
    cases value : given v with
    | none =>
      rw [List.filterMap_cons_none (by dsimp only; rw [value, Option.map_none]), ih later]
      cases same : key == k with
      | false => rfl
      | true =>
        have absent : l.lookup key = none := by
          rw [List.lookup_eq_none_iff]
          intro other member
          refine bne_iff_ne.mpr fun again => fresh (List.mem_map.mpr ⟨other, member, ?_⟩)
          rw [← again, eq_of_beq same]
        rw [absent, Option.bind_some, value]
        rfl
    | some text =>
      rw [List.filterMap_cons_some (b := (k.toList, text)) (by dsimp only; rw [value, Option.map_some]), List.cons_append, List.lookup_cons, letters]
      cases key == k with
      | false => exact ih later
      | true => exact congrArg (Option.or · (w.lookup key.toList)) value.symm

theorem given_given (s : Option Str) : given (given s) = given s := by
  unfold given
  rw [Option.filter_filter]
  simp only [Bool.and_self]

theorem round_intCast (n : ℤ) : round n = n := by
  unfold round
  rw [Int.floor_intCast_add]
  norm_num

theorem cut_query {name : Str} (free : '?' ∉ name) (query : Str) :
    (name ++ if query ≠ [] then '?' :: query else []).takeWhile (· ≠ '?') = name ∧
      ((name ++ if query ≠ [] then '?' :: query else []).dropWhile (· ≠ '?')).drop 1 = query := by
  have name_ : ∀ c ∈ name, decide (c ≠ '?') = true := fun c member => decide_eq_true fun asks => free (asks ▸ member)
  rw [List.takeWhile_append_of_pos name_, List.dropWhile_append_of_pos name_]
  by_cases empty : query = []
  · rw [if_neg (not_not.mpr empty), empty]
    exact ⟨List.append_nil _, rfl⟩
  · rw [if_pos empty]
    exact ⟨List.append_nil _, rfl⟩

def DeepLink.strings (link : DeepLink) : List (String × Option Str) :=
  [("conn", link.conn), ("subject", link.subject), ("stream", link.stream), ("bucket", link.bucket), ("key", link.key),
    ("store", link.store), ("service", link.service), ("template", link.template)]

def DeepLink.ends (link : DeepLink) : List (Str × Str) :=
  match link.from_, link.to_ with
  | some a, some b => [("from".toList, (toString a).toList), ("to".toList, (toString b).toList)]
  | _, _ => []

def DeepLink.query (link : DeepLink) : Str :=
  URLSearchParams.text (link.strings.filterMap (fun (k, v) => (given v).map fun v => (k.toList, v)) ++ link.ends)

theorem lookup_ends (link : DeepLink) {k : String} (other : k ∉ ["from", "to"]) : link.ends.lookup k.toList = none := by
  rw [List.lookup_eq_none_iff]
  intro entry member
  unfold DeepLink.ends at member
  split at member
  · refine bne_iff_ne.mpr fun same => other ?_
    rcases List.mem_pair.mp member with rfl | rfl
    · exact String.toList_inj.mp same ▸ List.mem_cons_self
    · exact String.toList_inj.mp same ▸ List.mem_cons_of_mem _ List.mem_cons_self
  · cases member

/-- The range that stays when a link without one leads to the subject. -/
def View.rangeAt (v : View) (subject : Str) : Option (ℤ × ℤ) :=
  if v.selectedSubject = some subject ∧ v.selectedSubjects.length ≤ 1 then v.range else none

/-- The same address, at one selection, is the same range under a subject. -/
theorem linkFromState_eq {v w : View} (active : given w.activeConnId = given v.activeConnId) (module : w.module = v.module)
    (selected : Selected (linkFromState v).said w v.module) :
    linkFromState w = linkFromState v ↔ (v.module = .subjects → (given v.selectedSubject).isSome → w.range = v.range) := by
  have again {s : Option Str} {name : Str} (named : given s = some name) : given (some name) = some name := named ▸ given_given s
  have bounds : w.range.map Prod.fst = v.range.map Prod.fst ∧ w.range.map Prod.snd = v.range.map Prod.snd ↔ w.range = v.range := by
    cases w.range <;> cases v.range <;> simp [Prod.ext_iff]
  unfold linkFromState at selected ⊢
  rw [active, module]
  cases at_ : v.module <;> simp only [at_, Selected, DeepLink.said, given_given] at selected ⊢
  case subjects =>
    rw [selected]
    cases subject : given v.selectedSubject with
    | none => simp [given]
    | some name => simp [again subject, bounds]
  case kv =>
    rw [selected.1]
    cases bucket : given v.selectedKvBucket with
    | none => simp [given]
    | some name =>
      rw [bucket] at selected
      simp [again bucket, selected.2, given_given]
  all_goals simp [selected, given_given]

/-- The range after a link to a subject is followed. -/
theorem applySelection_range {link : DeepLink} (w : View) {subject : Str} (module : link.module = some .subjects)
    (named : given link.subject = some subject) : (applySelection link.said w).range = link.window.or (w.rangeAt subject) := by
  have again : given (given link.subject) = some subject := (given_given _).trans named
  have stays : ((w.setModule .subjects).setSelectedSubject (some subject)).range = w.rangeAt subject := by
    unfold View.setSelectedSubject View.rangeAt
    split <;> rename_i at_
    · exact (if_pos at_).symm
    · exact (if_neg at_).symm
  unfold applySelection DeepLink.said
  rw [module]
  dsimp only
  rw [again]
  cases window : link.window with
  | none => exact stays
  | some ends =>
    obtain ⟨a, b⟩ := ends
    simp only [DeepLink.window, Option.bind_eq_bind, Option.bind_eq_some_iff, Option.ite_none_right_eq_some] at window
    obtain ⟨_, _, _, _, ⟨positive, _⟩, same⟩ := window
    obtain ⟨rfl, rfl⟩ := Prod.mk.inj (Option.some.inj same)
    exact congrArg (fun a => some (a, _)) (max_eq_right positive.le)

theorem linkFromState_parts (v : View) : (linkFromState v).module = some v.module ∧ (linkFromState v).conn = given v.activeConnId := by
  unfold linkFromState
  cases module : v.module <;> dsimp only
  case subjects => split <;> exact ⟨rfl, rfl⟩
  case kv => split <;> exact ⟨rfl, rfl⟩
  all_goals exact ⟨rfl, rfl⟩

theorem linkFromState_window {v : View} (module : v.module = .subjects) {subject : Str} (selected : given v.selectedSubject = some subject) :
    given (linkFromState v).subject = some subject ∧
      (linkFromState v).window = v.range.filter (fun r => 0 < r.1 ∧ r.1 < r.2) := by
  unfold linkFromState DeepLink.window
  rw [module]
  dsimp only
  rw [selected]
  refine ⟨(congrArg given selected.symm).trans ((given_given _).trans selected), ?_⟩
  cases v.range with
  | none => rfl
  | some r => simp [Option.filter]

/-- The page is on the connection of the view, or on none. -/
def Reaches (s : App) (v : View) : Prop :=
  match given v.activeConnId with
  | none => given s.view.activeConnId = none
  | some conn => s.connectionsLoaded ∧ s.connections.any (·.id = conn)

section
variable [Platform]

instance browser : Browser where
  query := URLSearchParams.text
  params text k := (URLSearchParams.pairs Platform.decode text).lookup k
  number := Platform.number

theorem params_query (link : DeepLink) (k : String) :
    Browser.params link.query k.toList = ((link.strings.lookup k).bind given).or (link.ends.lookup k.toList) := by
  rw [← lookup_said (show (link.strings.map Prod.fst).Nodup from by simp [DeepLink.strings])]
  exact congrArg (List.lookup k.toList) (URLSearchParams.pairs_text Platform.decode_utf8 _)

theorem window_query {link : DeepLink} (safe : link.Safe) :
    ((do
      let from_ ← Browser.number (Browser.params link.query "from".toList)
      let to_ ← Browser.number (Browser.params link.query "to".toList)
      if 0 < from_ ∧ from_ < to_ then some (from_, to_) else none : Option (ℚ × ℚ))).map (Prod.map round round) = link.window := by
  have ends (k : String) (absent : link.strings.lookup k = none) : Browser.params link.query k.toList = link.ends.lookup k.toList := by
    rw [params_query, absent]
    rfl
  rw [ends "from" rfl, ends "to" rfl]
  have null : Browser.number none = some 0 := Platform.number_null
  unfold DeepLink.window DeepLink.ends
  cases start : link.from_ with
  | none => cases link.to_ <;> simp [null]
  | some a =>
    cases stop : link.to_ with
    | none => simp [null]
    | some b =>
      have first : Browser.number (some (toString a).toList) = some (a : ℚ) := Platform.number_toString a (safe a (.inl start))
      have second : Browser.number (some (toString b).toList) = some (b : ℚ) := Platform.number_toString b (safe b (.inr stop))
      have later : ("to".toList == "from".toList) = false := by decide
      simp only [List.lookup_cons, beq_self_eq_true, later, first, second, Option.bind_eq_bind, Option.bind_some, Int.cast_pos, Int.cast_lt]
      by_cases proper : 0 < a ∧ a < b
      · rw [if_pos proper, if_pos proper, Option.map_some, Prod.map_apply, round_intCast, round_intCast]
      · rw [if_neg proper, if_neg proper, Option.map_none]

/-- What a link says is read back, as far as it is written. -/
theorem parseLink_formatLink {link : DeepLink} {m : Module} (module : link.module = some m) (safe : link.Safe) : parseLink (formatLink link) = link.said := by
  have known : '?' ∉ m.name ∧ modules.find? (·.name = m.name) = some m := by
    cases m <;> decide +kernel
  have written : formatLink link = "#/".toList ++ m.name ++ if link.query ≠ [] then '?' :: link.query else [] := by
    unfold formatLink
    rw [module]
    rfl
  have bare : stripped '/' (stripped '#' (formatLink link)) = m.name ++ if link.query ≠ [] then '?' :: link.query else [] := by
    rw [written, List.append_assoc]
    rfl
  obtain ⟨path, rest⟩ := cut_query known.1 link.query
  have string (k : String) (other : k ∉ ["from", "to"]) : given (Browser.params link.query k.toList) = (link.strings.lookup k).bind given := by
    rw [params_query, lookup_ends link other, Option.or_none]
    cases link.strings.lookup k with
    | none => rfl
    | some v => exact given_given v
  unfold parseLink DeepLink.said
  dsimp only
  rw [bare, path, rest, known.2, module, ← window_query safe, Option.map_map, Option.map_map]
  rw [string "conn" (by decide), string "subject" (by decide), string "stream" (by decide), string "bucket" (by decide),
    string "key" (by decide), string "store" (by decide), string "service" (by decide), string "template" (by decide)]
  rfl

/-- The page applies what was written, on the connection of the view. -/
theorem onPop_view {s : App} {v : View} (reaches : Reaches s v) (safe : (linkFromState v).Safe) :
    ∃ w, (onPop (formatLink (linkFromState v)) s).view = applySelection (linkFromState v).said w ∧
      given w.activeConnId = given v.activeConnId ∧ w.rangeAt = s.view.rangeAt := by
  obtain ⟨module, conn⟩ := linkFromState_parts v
  have bound : given (linkFromState v).said.conn = given v.activeConnId := by
    rw [DeepLink.said, conn, given_given, given_given]
  have some_ : ¬ ((linkFromState v).said.module = none ∧ (linkFromState v).said.conn = none) := by
    rintro ⟨absent, -⟩
    rw [DeepLink.said, module] at absent
    cases absent
  unfold onPop
  dsimp only
  rw [parseLink_formatLink module safe, if_neg some_]
  unfold follow resolvePending
  dsimp only
  unfold Reaches at reaches
  rw [bound]
  cases active : given v.activeConnId with
  | none =>
    rw [active] at reaches
    exact ⟨s.view, rfl, reaches, rfl⟩
  | some conn =>
    rw [active] at reaches
    obtain ⟨loaded, known⟩ := reaches
    dsimp only
    rw [if_neg (not_not.mpr loaded), if_pos known]
    refine ⟨s.view.setActiveConnId conn, rfl, ?_, ?_⟩
    · rw [View.setActiveConnId, activate_active, ← active, given_given]
    · unfold View.setActiveConnId View.activate
      split <;> rfl

/-- Whoever opens the address of a view sees the same, unless the range in it is none, or the page is at that subject already, in a range
that the address does not say. -/
theorem onPop_address {s : App} {v : View} (reaches : Reaches s v) (safe : (linkFromState v).Safe) :
    linkFromState (onPop (formatLink (linkFromState v)) s).view = linkFromState v ↔
      (v.module = .subjects → ∀ subject, given v.selectedSubject = some subject →
        (∃ r, v.range = some r ∧ 0 < r.1 ∧ r.1 < r.2) ∨ v.range = s.view.rangeAt subject) := by
  obtain ⟨w, opened, active, at_⟩ := onPop_view reaches safe
  obtain ⟨module, conn⟩ := linkFromState_parts v
  have shown : Shows (linkFromState v).said (applySelection (linkFromState v).said w) := by
    refine applySelection_shows fun id named => ?_
    rw [DeepLink.said, conn, given_given, given_given, ← active] at named
    exact (Option.filter_eq_some_iff.mp named).1
  obtain ⟨same, selected⟩ := shown.1 v.module module
  rw [opened, linkFromState_eq ((congrArg given (applySelection_active _ w)).trans active) same selected]
  refine forall_congr' fun subjects => ?_
  rw [Option.isSome_iff_exists, forall_exists_index]
  refine forall_congr' fun subject => forall_congr' fun selected => ?_
  obtain ⟨named, window⟩ := linkFromState_window subjects selected
  rw [applySelection_range w (module.trans (congrArg some subjects)) named, window, at_]
  cases v.range with
  | none => simp [eq_comm]
  | some r =>
    by_cases proper : 0 < r.1 ∧ r.1 < r.2
    · rw [Option.filter_some, if_pos (decide_eq_true proper)]
      exact ⟨fun _ => .inl ⟨r, rfl, proper⟩, fun _ => rfl⟩
    · rw [Option.filter_some, if_neg (ne_true_of_eq_false (decide_eq_false proper)), Option.none_or]
      refine ⟨fun same => .inr same.symm, fun here => ?_⟩
      rcases here with ⟨_, same, ordered⟩ | same
      · exact absurd (Option.some.inj same ▸ ordered) proper
      · exact same.symm

end

theorem toString_decimal (n : ℤ) : (toString n).toList = json.decimal n := by
  unfold json.decimal
  cases n with
  | ofNat n => exact Nat.toList_repr.trans (if_neg (Int.not_lt.mpr (Int.natCast_nonneg n))).symm
  | negSucc n =>
    rw [if_pos (Int.negSucc_lt_zero n)]
    change ("-" ++ (n + 1).repr).toList = _
    rw [String.toList_append, Nat.toList_repr]
    rfl

def plainText (bytes : List UInt8) : Str :=
  match Data.ofBytes bytes with
  | .text s => s
  | .binary _ => []

theorem plainText_utf8 (s : Str) : plainText (utf8 s) = s := by rw [plainText, Data.ofBytes_utf8]

def plainNumber (text : Option Str) : Option ℚ := text.elim (some 0) fun text => (json.parseInt text).map fun n => (n : ℚ)

theorem plainNumber_toString (n : ℤ) (safe : |n| ≤ 2 ^ 53) : plainNumber (some (toString n).toList) = some n := by
  obtain ⟨low, high⟩ := abs_le.mp safe
  rw [toString_decimal, plainNumber, Option.elim_some, json.parseInt_decimal (by omega) (by omega)]
  rfl

@[reducible] def plainPlatform : Platform := ⟨plainText, plainText_utf8, plainNumber, rfl, plainNumber_toString⟩

/-- Opened where a bucket of another connection is on the screen. -/
theorem onPop_address_boiler :
    let v : View := { activeConnId := some "c1".toList, selectedSubject := some "hall.boiler 1".toList, range := some (1000, 61000) }
    let s : App := { atLine with view := { module := .kv, activeConnId := some "line".toList, selectedKvBucket := some "config".toList } }
    linkFromState (@onPop (@browser plainPlatform) (@formatLink (@browser plainPlatform) (linkFromState v)) s).view = linkFromState v := by
  intro v s
  refine (@onPop_address plainPlatform s v ⟨rfl, by decide⟩ ?_).mpr ?_
  · rintro n (end_ | end_) <;> obtain rfl := Option.some.inj end_ <;> decide
  · intro _ _ _
    exact .inl ⟨_, rfl, by decide⟩

end urlSync
end NatsExplorer.Client
