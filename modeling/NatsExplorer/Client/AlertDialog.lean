import NatsExplorer.Alerts.Rule
import NatsExplorer.Client.Covering
import NatsExplorer.Connection.Saved

/-! The rule dialog (`client/src/lib/alerts.ts`) checks a rule before it is sent, and the server checks it again. Both
ask the same of the numbers, and of the texts as each of them trims; they differ in the pattern and the recipients. -/
namespace NatsExplorer.Client.AlertDialog
open Go Alerts

/-- `unicode.IsSpace` -/
def unicodeSpace (c : Char) : Bool :=
  (9 ≤ c.toNat && c.toNat ≤ 13) || c.toNat = 0x20 || c.toNat = 0x85 || c.toNat = 0xa0 || c.toNat = 0x1680 ||
    (0x2000 ≤ c.toNat && c.toNat ≤ 0x200a) || c.toNat = 0x2028 || c.toNat = 0x2029 || c.toNat = 0x202f ||
    c.toNat = 0x205f || c.toNat = 0x3000

/-- The white space of Go; the rest of the tables is not asked for here. -/
@[reducible] def goTables : Tables where
  toLower := id
  isSpace := unicodeSpace
  jsonValid _ := true

attribute [local instance] goTables

/-- What `json.Unmarshal` makes, in an `int`, of a whole number as `JSON.stringify` writes it: nothing where it does not
fit. A whole number is exact up to 2^53 and never passes another on the way. -/
class JsonNumbers where
  int : Int → Option Int
  exact (n : Int) : -2 ^ 53 ≤ n → n ≤ 2 ^ 53 → int n = some n
  mono (n n' m m' : Int) : int n = some m → int n' = some m' → n ≤ n' → m ≤ m'

inductive AlertSeverity where
  | info
  | warning
  | critical

inductive WebhookFormat where
  | json
  | slack
  | teams

inductive AlertAgg where
  | avg
  | min
  | max

def AlertSeverity.text : AlertSeverity → Str
  | .info => "info".toList
  | .warning => "warning".toList
  | .critical => "critical".toList

def WebhookFormat.text : WebhookFormat → Str
  | .json => "json".toList
  | .slack => "slack".toList
  | .teams => "teams".toList

def AlertAgg.text : AlertAgg → Str
  | .avg => "avg".toList
  | .min => "min".toList
  | .max => "max".toList

/-- A rule as the form holds it; its optional numbers are finite. -/
structure AlertRule (F : Type) where
  id : Str
  name : Str
  pattern : Str
  expr : Option Str := none
  staleAfter : Option Int := none
  staleAuto : Option Bool := none
  severity : AlertSeverity
  webhook : Option Str := none
  webhookFormat : Option WebhookFormat := none
  email : Option Str := none
  enabled : Bool
  window : Option Int := none
  minCount : Option Int := none
  maxCount : Option Int := none
  field : Option Str := none
  agg : Option AlertAgg := none
  above : Option F := none
  below : Option F := none
  unchangedFor : Option Int := none
  mutedUntil : Option Int := none

/-- `^https?:\/\/` -/
def isHttp (s : Str) : Bool := strings.hasPrefix s "http://".toList || strings.hasPrefix s "https://".toList

namespace AlertRule
variable {F : Type}

def counts (r : AlertRule F) : Bool := r.minCount.isSome || r.maxCount.isSome

def threshold (r : AlertRule F) : Bool := r.above.isSome || r.below.isSome

/-- What `validateRule` finds wrong, in the order in which it looks; the pieces of an address list that are empty are
passed over, so that it does not matter how many separators stand together. -/
def checks (r : AlertRule F) : List (Bool × Str) :=
  let pattern := Connection.trim r.pattern
  let tokens := pattern.splitOn '.'
  let window := r.window.getD 0
  let expr := Connection.trim (r.expr.getD [])
  let webhook := Connection.trim (r.webhook.getD [])
  let email := r.email.getD []
  [(Connection.trim r.name = [], "A rule needs a name.".toList),
   (pattern = [], "A rule needs a subject pattern.".toList),
   (pattern.any Connection.trimmed, "A subject pattern cannot contain spaces.".toList),
   ([] ∈ tokens, "A subject pattern cannot have empty tokens.".toList),
   (['>'] ∈ tokens.dropLast, "The > wildcard is only allowed as the last token.".toList),
   ((r.counts || r.threshold) && window ≤ 0, "A count or a threshold over time needs a window.".toList),
   (expr = [] && !(0 < r.staleAfter.getD 0) && !r.staleAuto.getD false &&
      !(0 < window && (r.counts || r.threshold)) && !(0 < r.unchangedFor.getD 0),
    "A rule needs a condition: an expression, a silence, a count or a threshold over a window, or an unchanged value.".toList),
   (r.staleAfter.getD 0 < 0, "The silence timeout cannot be negative.".toList),
   (window < 0 || 24 * 3600 < window, "The window must be between 1 s and 24 h.".toList),
   (r.minCount.getD 0 < 0 || r.maxCount.getD 0 < 0, "A message count cannot be negative.".toList),
   (r.threshold && Connection.trim (r.field.getD []) = [], "A threshold over time needs a field.".toList),
   (r.unchangedFor.getD 0 < 0, "The unchanged time cannot be negative.".toList),
   (webhook ≠ [] && !isHttp webhook, "The webhook must be an http:// or https:// URL.".toList),
   (Connection.trim email ≠ [] && (recipients email).any fun a => !strings.contains a ['@'],
    "Every recipient needs an email address.".toList)]

def validateRule (r : AlertRule F) : Option Str := (r.checks.find? (·.1)).map (·.2)

variable [JsonNumbers]

/-- An `int` of the JSON; what is absent is zero. -/
def int (n : Option Int) : Option Int :=
  match n with
  | none => some 0
  | some n => JsonNumbers.int n

/-- A `*int` of the JSON. -/
def intPtr (n : Option Int) : Option (Option Int) :=
  match n with
  | none => some none
  | some n => (JsonNumbers.int n).map some

/-- The rule of the JSON, unless a number of it does not fit. -/
def decoded (r : AlertRule F) : Option (Rule F) := do
  let staleAfter ← int r.staleAfter
  let window ← int r.window
  let minCount ← intPtr r.minCount
  let maxCount ← intPtr r.maxCount
  let unchangedFor ← int r.unchangedFor
  let mutedUntil ← int r.mutedUntil
  some {
    id := r.id, name := r.name, pattern := r.pattern, expr := r.expr.getD [], staleAfter := staleAfter,
    staleAuto := r.staleAuto.getD false, severity := r.severity.text, webhook := r.webhook.getD [],
    webhookFormat := (r.webhookFormat.map WebhookFormat.text).getD [], email := r.email.getD [], enabled := r.enabled,
    window := window, minCount := minCount, maxCount := maxCount, field := r.field.getD [],
    agg := (r.agg.map AlertAgg.text).getD [], above := r.above, below := r.below, unchangedFor := unchangedFor,
    mutedUntil := mutedUntil }

/-- What the server stores of a rule, if it takes it. -/
def stored [Filter.Compiler] [Payloads F] (r : AlertRule F) : Option (Rule F) :=
  r.decoded.bind fun rule => rule.validate.toOption

end AlertRule

section Asked
variable {F : Type}

/-- What both ask of the numbers. -/
structure Sound (r : AlertRule F) : Prop where
  silence : 0 ≤ r.staleAfter.getD 0
  window : 0 ≤ r.window.getD 0 ∧ r.window.getD 0 ≤ maxWindow
  least : 0 ≤ r.minCount.getD 0
  most : 0 ≤ r.maxCount.getD 0
  unchanged : 0 ≤ r.unchangedFor.getD 0
  windowed : r.counts = true ∨ r.threshold = true → 0 < r.window.getD 0

/-- What both ask of the texts, each with its own trim. -/
structure Reads (trim : Str → Str) (r : AlertRule F) : Prop where
  name : trim r.name ≠ []
  condition : trim (r.expr.getD []) ≠ [] ∨ 0 < r.staleAfter.getD 0 ∨ r.staleAuto = some true ∨
    (0 < r.window.getD 0 ∧ (r.counts = true ∨ r.threshold = true)) ∨ 0 < r.unchangedFor.getD 0
  field : r.threshold = true → trim (r.field.getD []) ≠ []
  webhook : trim (r.webhook.getD []) = [] ∨ isHttp (trim (r.webhook.getD [])) = true

/-- What the dialog asks of the pattern. -/
def PatternTyped (pattern : Str) : Prop :=
  (∀ c ∈ Connection.trim pattern, Connection.trimmed c = false) ∧ WellFormed (Connection.trim pattern)

/-- What the server asks of the pattern. -/
def PatternTaken (pattern : Str) : Prop := strings.trimSpace pattern ≠ [] ∧ spaced (strings.trimSpace pattern) = false

def Addressed (list : List Str) : Prop := ∀ a ∈ list, strings.contains a ['@'] = true

def MailTyped (email : Str) : Prop := Connection.trim email = [] ∨ Addressed (recipients email)

def MailTaken (email : Str) : Prop := Addressed (recipients (strings.trimSpace email))

theorem find?_none {l : List (Bool × Str)} : (l.find? (·.1)).map (·.2) = none ↔ ∀ c ∈ l, c.1 = false := by
  rw [Option.map_eq_none_iff, List.find?_eq_none]
  simp

theorem someCondition {expr : Str} {stale window unchanged : Int} {auto : Option Bool} {counts threshold : Bool} :
    (expr = [] && !(0 < stale) && !auto.getD false && !(0 < window && (counts || threshold)) && !(0 < unchanged)) = false ↔
      expr ≠ [] ∨ 0 < stale ∨ auto = some true ∨ (0 < window ∧ (counts = true ∨ threshold = true)) ∨ 0 < unchanged := by
  have learns : auto.getD false = true ↔ auto = some true := by
    cases auto <;> simp
  simp only [Bool.and_eq_false_iff, Bool.not_eq_eq_eq_not, Bool.not_false, decide_eq_false_iff_not, decide_eq_true_eq,
    Bool.and_eq_true, Bool.or_eq_true, learns, or_assoc, ne_eq]

/-- What is asked where something is on. -/
theorem off_or {on : Bool} {p : Prop} : on = false ∨ p ↔ (on = true → p) := by
  cases on <;> simp

theorem off_both_or {one other : Bool} {p : Prop} : one = false ∧ other = false ∨ p ↔ (one = true ∨ other = true → p) := by
  cases one <;> cases other <;> simp

theorem typed_iff (r : AlertRule F) : r.validateRule = none ↔
    Sound r ∧ Reads Connection.trim r ∧ PatternTyped r.pattern ∧ MailTyped (r.email.getD []) := by
  rw [AlertRule.validateRule, find?_none]
  simp only [AlertRule.checks, List.forall_mem_cons, List.not_mem_nil, false_imp_iff, forall_const, and_true, someCondition]
  simp only [decide_eq_false_iff_not, Bool.and_eq_false_iff, Bool.or_eq_false_iff, Bool.not_eq_eq_eq_not, Bool.not_false,
    List.any_eq_false, not_lt, not_le]
  constructor
  · rintro ⟨name, some, plain, tokens, last, windowed, condition, silence, window, counted, field, unchanged, webhook, email⟩
    refine ⟨⟨silence, window, counted.1, counted.2, unchanged, off_both_or.mp windowed⟩, ⟨name, condition, off_or.mp field, ?_⟩,
      ⟨fun c member => Bool.not_eq_true _ ▸ plain c member, tokens, last⟩, ?_⟩
    · exact webhook.imp_left not_not.mp
    · refine email.imp not_not.mp fun all a member => ?_
      simpa using all a member
  · rintro ⟨sound, reads, ⟨plain, tokens, last⟩, email⟩
    refine ⟨reads.name, fun none => ?_, fun c member => ?_, tokens, last, off_both_or.mpr sound.windowed, reads.condition, sound.silence,
      sound.window, ⟨sound.least, sound.most⟩, off_or.mpr reads.field, sound.unchanged, ?_, ?_⟩
    · rw [none] at tokens
      exact tokens List.mem_cons_self
    · rw [plain c member]
      exact Bool.false_ne_true
    · exact reads.webhook.imp_left not_not.mpr
    · refine email.imp not_not.mpr fun all a member => ?_
      simpa using all a member

end Asked

section Server
variable {F : Type} [JsonNumbers]

/-- A whole number that fits has the sign it had, and is as far past a bound. -/
theorem int_bound {n m : Int} (fits : JsonNumbers.int n = some m) (k : Int) (small : -2 ^ 53 ≤ k) (small' : k < 2 ^ 53) :
    k < n ↔ k < m := by
  constructor
  · intro above
    have := JsonNumbers.mono (k + 1) n (k + 1) m (JsonNumbers.exact _ (by omega) (by omega)) fits (by omega)
    omega
  · intro above
    by_contra below
    have := JsonNumbers.mono n k m k fits (JsonNumbers.exact _ small (by omega)) (by omega)
    omega

theorem absent_bound {n : Option Int} {m : Int} (fits : AlertRule.int n = some m) (k : Int) (small : -2 ^ 53 ≤ k)
    (small' : k < 2 ^ 53) : k < n.getD 0 ↔ k < m := by
  cases n with
  | none =>
    cases fits
    exact Iff.rfl
  | some n => exact int_bound fits k small small'

theorem ptr_bound {n n' : Option Int} (fits : AlertRule.intPtr n = some n') :
    n'.isSome = n.isSome ∧ (n'.any (· < 0) = false ↔ 0 ≤ n.getD 0) := by
  cases n with
  | none =>
    cases fits
    simp
  | some n =>
    obtain ⟨m, found, rfl⟩ := Option.map_eq_some_iff.mp fits
    have := int_bound found (-1) (by decide) (by decide)
    refine ⟨rfl, ?_⟩
    simp only [Option.any_some, decide_eq_false_iff_not, Option.getD_some]
    omega

/-- What the numbers of a rule have become. -/
structure Carried (r : AlertRule F) (rule : Rule F) : Prop where
  texts : rule.name = r.name ∧ rule.pattern = r.pattern ∧ rule.expr = r.expr.getD [] ∧ rule.webhook = r.webhook.getD [] ∧
    rule.email = r.email.getD [] ∧ rule.field = r.field.getD []
  choices : rule.severity = r.severity.text ∧ rule.webhookFormat = (r.webhookFormat.map WebhookFormat.text).getD [] ∧
    rule.agg = (r.agg.map AlertAgg.text).getD [] ∧ rule.staleAuto = r.staleAuto.getD false
  thresholds : rule.above = r.above ∧ rule.below = r.below
  ints : AlertRule.int r.staleAfter = some rule.staleAfter ∧ AlertRule.int r.window = some rule.window ∧
    AlertRule.int r.unchangedFor = some rule.unchangedFor
  counts : AlertRule.intPtr r.minCount = some rule.minCount ∧ AlertRule.intPtr r.maxCount = some rule.maxCount

theorem decoded_carried {r : AlertRule F} {rule : Rule F} (decoded : r.decoded = some rule) : Carried r rule := by
  simp only [AlertRule.decoded, Option.bind_eq_bind, Option.bind_eq_some_iff, Option.some.injEq] at decoded
  obtain ⟨staleAfter, hs, window, hw, minCount, hmin, maxCount, hmax, unchangedFor, hu, mutedUntil, -, rfl⟩ := decoded
  exact ⟨⟨rfl, rfl, rfl, rfl, rfl, rfl⟩, ⟨rfl, rfl, rfl, rfl⟩, ⟨rfl, rfl⟩, ⟨hs, hw, hu⟩, ⟨hmin, hmax⟩⟩

omit [JsonNumbers] in
theorem trimSpace_agg (agg : AlertAgg) : strings.trimSpace agg.text = agg.text := by
  cases agg <;> decide

variable [Filter.Compiler] [Payloads F]

omit [JsonNumbers] [Filter.Compiler] [Payloads F] in
/-- There is a condition, with the field as it was sent. -/
theorem trimmed_condition (rule : Rule F) : rule.trimmed.hasCondition = true ↔
    strings.trimSpace rule.expr ≠ [] ∨ 0 < rule.staleAfter ∨ rule.staleAuto = true ∨
      (0 < rule.window ∧ (rule.minCount.isSome = true ∨ rule.maxCount.isSome = true ∨
        (rule.field ≠ [] ∧ (rule.above.isSome = true ∨ rule.below.isSome = true)))) ∨ 0 < rule.unchangedFor := by
  simp only [Rule.hasCondition, Rule.hasWindow, Rule.hasAggregate, Bool.or_eq_true, Bool.and_eq_true, decide_eq_true_eq, or_assoc]
  exact Iff.rfl

theorem validate_iff {r : AlertRule F} {rule : Rule F} (carried : Carried r rule)
    (compiles : ∃ prg, Filter.Compiler.compile (strings.trimSpace (r.expr.getD [])) = .ok prg) :
    (∀ c ∈ rule.checks, c.1 = false) ↔
      Sound r ∧ Reads strings.trimSpace r ∧ PatternTaken r.pattern ∧ MailTaken (r.email.getD []) := by
  obtain ⟨prg, compiles⟩ := compiles
  obtain ⟨⟨name, pattern, expr, webhook, email, field⟩, ⟨severity, format, agg, auto⟩, ⟨above, below⟩, ⟨hs, hw, hu⟩, hmin, hmax⟩ := carried
  have compiled : Filter.Compiler.compile rule.completed.expr = .ok prg :=
    (congrArg (fun e => Filter.Compiler.compile (strings.trimSpace e)) expr).trans compiles
  simp only [Rule.checks, List.forall_mem_append, List.forall_mem_cons, List.not_mem_nil, false_imp_iff, forall_const, and_true,
    Bool.not_eq_eq_eq_not, Bool.not_false, trimmed_condition, List.forall_mem_map, compiled, true_and, decide_eq_false_iff_not,
    Bool.and_eq_false_iff, Bool.or_eq_false_iff, not_lt, not_le, not_not]
  simp only [Rule.completed, Rule.trimmed, name, pattern, expr, webhook, email, field, severity, format, agg, auto, above, below,
    Bool.or_eq_true, Bool.and_eq_true, decide_eq_true_eq]
  have severities : (if r.severity.text = [] then "warning".toList else r.severity.text) ∈
      ["info".toList, "warning".toList, "critical".toList] := by
    cases r.severity <;> decide
  have formats : (r.webhookFormat.map WebhookFormat.text).getD [] ∈ [[], "json".toList, "slack".toList, "teams".toList] := by
    rcases r.webhookFormat with _ | _ | _ | _ <;> decide
  have aggs (asked : r.above.isSome = true ∨ r.below.isSome = true) :
      (if (r.above.isSome = true ∨ r.below.isSome = true) ∧ strings.trimSpace ((r.agg.map AlertAgg.text).getD []) = [] then "avg".toList
        else strings.trimSpace ((r.agg.map AlertAgg.text).getD [])) ∈ ["avg".toList, "min".toList, "max".toList] := by
    rcases r.agg with _ | agg
    · rw [if_pos ⟨asked, rfl⟩]
      exact List.mem_cons_self
    · simp only [Option.map_some, Option.getD_some, trimSpace_agg]
      cases agg <;> simp [AlertAgg.text]
  have learns : r.staleAuto.getD false = true ↔ r.staleAuto = some true := by
    cases r.staleAuto <;> simp
  have asked : r.threshold = true ↔ r.above.isSome = true ∨ r.below.isSome = true := by
    rw [AlertRule.threshold, Bool.or_eq_true]
  have counted : r.counts = true ↔ rule.minCount.isSome = true ∨ rule.maxCount.isSome = true := by
    rw [AlertRule.counts, Bool.or_eq_true, (ptr_bound hmin).1, (ptr_bound hmax).1]
  have silent := absent_bound hs 0 (by decide) (by decide)
  have silence := absent_bound hs (-1) (by decide) (by decide)
  have open_ := absent_bound hw 0 (by decide) (by decide)
  have starts := absent_bound hw (-1) (by decide) (by decide)
  have day := absent_bound hw maxWindow (by decide) (by decide)
  have still := absent_bound hu 0 (by decide) (by decide)
  have unchanged := absent_bound hu (-1) (by decide) (by decide)
  have quiet : r.above.isSome = false ∧ r.below.isSome = false ↔ r.threshold = false := by
    rw [AlertRule.threshold, Bool.or_eq_false_iff]
  have uncounted : rule.minCount.isSome = false ∧ rule.maxCount.isSome = false ↔ r.counts = false := by
    rw [AlertRule.counts, Bool.or_eq_false_iff, (ptr_bound hmin).1, (ptr_bound hmax).1]
  rw [(ptr_bound hmin).2, (ptr_bound hmax).2, ← silent, ← open_, ← still, learns, quiet, uncounted]
  constructor
  · rintro ⟨⟨⟨hname, hpattern, condition, hsilence, -, hwebhook, -⟩, mail⟩, hwindow, hunchanged, windowed, least, hfield, -⟩
    refine ⟨⟨by omega, by omega, least.1, least.2, by omega, off_both_or.mp windowed⟩, ⟨hname, ?_, off_or.mp hfield, ?_⟩, hpattern, mail⟩
    · refine condition.imp_right (Or.imp_right (Or.imp_right (Or.imp_left (And.imp_right fun watched => ?_))))
      rcases watched with least | most | level
      · exact Or.inl (counted.mpr (Or.inl least))
      · exact Or.inl (counted.mpr (Or.inr most))
      · exact Or.inr (asked.mpr level.2)
    · rw [isHttp, Bool.or_eq_true, ← or_assoc]
      exact hwebhook
  · rintro ⟨sound, reads, hpattern, mail⟩
    have hsilence := sound.silence
    have hwindow := sound.window
    have hunchanged := sound.unchanged
    refine ⟨⟨⟨reads.name, hpattern, ?_, by omega, severities, ?_, formats⟩, mail⟩, by omega, by omega, off_both_or.mpr sound.windowed,
      ⟨sound.least, sound.most⟩, off_or.mpr reads.field, off_or.mpr fun threshold => aggs (asked.mp threshold)⟩
    · refine reads.condition.imp_right (Or.imp_right (Or.imp_right (Or.imp_left (And.imp_right fun watched => ?_))))
      rcases watched with some | some
      · rcases counted.mp some with least | most
        · exact Or.inl least
        · exact Or.inr (Or.inl most)
      · refine Or.inr (Or.inr ⟨fun blank => reads.field some ?_, asked.mp some⟩)
        rw [blank]
        rfl
    · have http := reads.webhook
      rw [isHttp, Bool.or_eq_true, ← or_assoc] at http
      exact http

theorem stored_eq {r : AlertRule F} {rule : Rule F} (decoded : r.decoded = some rule)
    (compiles : ∃ prg, Filter.Compiler.compile (strings.trimSpace (r.expr.getD [])) = .ok prg) (stored : Rule F) :
    r.stored = some stored ↔ stored = rule.completed ∧
      Sound r ∧ Reads strings.trimSpace r ∧ PatternTaken r.pattern ∧ MailTaken (r.email.getD []) := by
  rw [← validate_iff (decoded_carried decoded) compiles, AlertRule.stored, decoded, Option.bind_some, Rule.validate]
  cases wrong : rule.checks.find? (·.1) with
  | none =>
    have all : ∀ c ∈ rule.checks, c.1 = false := by simpa using wrong
    simp only [Except.toOption, Option.some.injEq]
    exact ⟨fun same => ⟨same.symm, all⟩, fun both => both.1.symm⟩
  | some c =>
    have member := List.mem_of_find?_eq_some wrong
    have holds := List.find?_some wrong
    refine iff_of_false (fun same => by cases same) fun both => ?_
    rw [both.2 c member] at holds
    cases holds

end Server

section Matchable

/-- Some subject that can be published matches the pattern. -/
def Matchable (pattern : Str) : Prop := ∃ s, Published s ∧ matchSubject pattern s = true

theorem covers_wellFormed {pattern tokens : List Str} (covers : Covers pattern tokens) (tokensSome : [] ∉ tokens) :
    [] ∉ pattern ∧ ['>'] ∉ pattern.dropLast := by
  induction covers with
  | nil => simp
  | @one p t pattern tokens stands covers ih =>
    obtain ⟨empty, last⟩ := ih fun member => tokensSome (List.mem_cons_of_mem _ member)
    have first : p ≠ [] := by
      rintro rfl
      rcases stands.2 with any | same
      · cases any
      · exact tokensSome (same ▸ List.mem_cons_self)
    refine ⟨fun member => (List.mem_cons.mp member).elim (fun same => first same.symm) empty, fun member => ?_⟩
    cases pattern with
    | nil => exact absurd member List.not_mem_nil
    | cons q pattern =>
      rw [List.dropLast_cons_cons] at member
      exact (List.mem_cons.mp member).elim (fun same => stands.1 same.symm) last
  | rest => simp

/-- A pattern can match exactly if it is well formed. -/
theorem matchable_iff (pattern : Str) : Matchable pattern ↔ WellFormed pattern := by
  constructor
  · rintro ⟨s, published, matched⟩
    exact covers_wellFormed (matchTokens_iff.mp matched) fun empty => (published [] empty).1 rfl
  · intro wellFormed
    obtain ⟨s, split, published, -⟩ := published_sample [] wellFormed 0
    refine ⟨s, published, ?_⟩
    rw [matchSubject, matchTokens_iff, split]
    exact covers_sample wellFormed.2 0

end Matchable

section Agreement
variable {F : Type} [JsonNumbers] [Filter.Compiler] [Payloads F]

/-- The dialog takes a rule if the server stores it, and what the server stores can match. -/
structure Agrees (r : AlertRule F) : Prop where
  same : r.validateRule = none ↔ ∃ rule, r.stored = some rule
  matching : ∀ rule, r.stored = some rule → Matchable rule.pattern

/-- What the dialog asks beyond the numbers, of the texts as the browser reads them. -/
def Typed (r : AlertRule F) : Prop := Reads Connection.trim r ∧ PatternTyped r.pattern ∧ MailTyped (r.email.getD [])

/-- What the server asks beyond that, with numbers that fit. -/
def Taken (r : AlertRule F) : Prop :=
  (∃ rule, r.decoded = some rule) ∧ Reads strings.trimSpace r ∧ PatternTaken r.pattern ∧ MailTaken (r.email.getD [])

/-- Where the numbers are right, the texts pass both readings or neither, and none passes that of the server with an
empty token or a `>` before the end. -/
def Alike (r : AlertRule F) : Prop :=
  Sound r → (Typed r ↔ Taken r) ∧ (Taken r → WellFormed (strings.trimSpace r.pattern))

end Agreement

/-! The two sets of white space differ in U+0085, which only Go has, and U+FEFF, which only the browser has. -/
section Plain
variable {F : Type}

def Plain (s : Str) : Prop := ∀ c ∈ s, c.toNat ≠ 0x85 ∧ c.toNat ≠ 0xfeff

theorem spaces_same {c : Char} (plain : c.toNat ≠ 0x85 ∧ c.toNat ≠ 0xfeff) : Connection.trimmed c = unicodeSpace c := by
  simp only [Connection.trimmed, unicodeSpace, plain.1, plain.2, decide_false, Bool.or_false]

theorem dropWhile_same {s : Str} (plain : Plain s) : s.dropWhile Connection.trimmed = s.dropWhile unicodeSpace := by
  induction s with
  | nil => rfl
  | cons c s ih =>
    rw [List.dropWhile_cons, List.dropWhile_cons, spaces_same (plain c List.mem_cons_self)]
    split
    · exact ih fun d member => plain d (List.mem_cons_of_mem _ member)
    · rfl

theorem trim_same {s : Str} (plain : Plain s) : Connection.trim s = strings.trimSpace s := by
  have inside : Plain (s.dropWhile unicodeSpace).reverse := fun c member =>
    plain c ((List.dropWhile_sublist _).subset (List.mem_reverse.mp member))
  rw [Connection.trim, strings.trimSpace, dropWhile_same plain]
  exact congrArg _ (dropWhile_same inside)

variable [JsonNumbers]

/-- Without these two characters, and with numbers that fit, only the pattern and the recipients are left to differ. -/
theorem alike_plain {r : AlertRule F} (name : Plain r.name) (pattern : Plain r.pattern) (expr : Plain (r.expr.getD []))
    (field : Plain (r.field.getD [])) (webhook : Plain (r.webhook.getD [])) (fits : ∃ rule, r.decoded = some rule) :
    Alike r ↔ (Sound r → Reads strings.trimSpace r →
      (PatternTyped r.pattern ∧ MailTyped (r.email.getD []) ↔ PatternTaken r.pattern ∧ MailTaken (r.email.getD []))) := by
  have reads : Reads Connection.trim r ↔ Reads strings.trimSpace r := by
    constructor <;> rintro ⟨hname, condition, hfield, hwebhook⟩
    · rw [trim_same name] at hname
      rw [trim_same expr] at condition
      rw [trim_same field] at hfield
      rw [trim_same webhook] at hwebhook
      exact ⟨hname, condition, hfield, hwebhook⟩
    · rw [← trim_same name] at hname
      rw [← trim_same expr] at condition
      rw [← trim_same field] at hfield
      rw [← trim_same webhook] at hwebhook
      exact ⟨hname, condition, hfield, hwebhook⟩
  rw [Alike, Typed, Taken, reads]
  refine forall_congr' fun _ => ?_
  constructor
  · rintro ⟨same, -⟩ read
    constructor
    · exact fun typed => (same.mp ⟨read, typed⟩).2.2
    · exact fun taken => (same.mpr ⟨fits, read, taken⟩).2
  · intro same
    refine ⟨⟨fun typed => ⟨fits, typed.1, (same typed.1).mp typed.2⟩, fun taken => ⟨taken.2.1, (same taken.2.1).mpr taken.2.2⟩⟩, ?_⟩
    rintro ⟨-, read, taken⟩
    rw [← trim_same pattern]
    exact ((same read).mpr taken).1.2

end Plain

section Example

@[reducible] def smallNumbers : JsonNumbers where
  int n := some n
  exact _ _ _ := rfl
  mono n n' m m' first second order := by
    cases first
    cases second
    exact order

@[reducible] def anyExpression : Filter.Compiler where
  compile _ := .ok ⟨fun _ => true, fun _ => true⟩

@[reducible] def plainPayloads : Payloads Unit where
  payload _ := .null
  sprint _ := []
  quote s := s

/-- The pattern of the tests, `>` before the end. -/
def misplaced : AlertRule Unit :=
  { id := "1".toList, name := "Hot".toList, pattern := "a.>.b".toList, staleAfter := some 30, severity := .warning, enabled := true }

end Example
end NatsExplorer.Client.AlertDialog
