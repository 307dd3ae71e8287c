import NatsExplorer.Alerts.Active
import NatsExplorer.Feature.Schemas

/-! Alert rules (`feature_alerts.go`): PUT and DELETE of one rule copy the list, edit the
copy, hand it to the engine, and store it as they handed it over. -/
namespace NatsExplorer.Alerts
open Go

section Completed
variable {F : Type} [Tables]

/-- No letter is a space. -/
def Letters : Prop := strings.trimSpace "avg".toList = "avg".toList

theorem Rule.completed_id (r : Rule F) : r.completed.id = r.id := rfl

/-- A rule with its defaults has them. -/
theorem Rule.completed_completed (letters : Letters) (r : Rule F) : r.completed.completed = r.completed := by
  have severity : (if r.completed.severity = [] then "warning".toList else r.completed.severity) = r.completed.severity := by
    change (if (if r.severity = [] then "warning".toList else r.severity) = [] then _ else _) = _
    by_cases none : r.severity = []
    · simp [none, completed]
    · simp [none, completed]
  have agg : (if (r.above.isSome || r.below.isSome) && strings.trimSpace r.completed.agg = [] then "avg".toList
      else strings.trimSpace r.completed.agg) = r.completed.agg := by
    change (if (r.above.isSome || r.below.isSome) && strings.trimSpace (if (r.above.isSome || r.below.isSome) &&
      strings.trimSpace r.agg = [] then "avg".toList else strings.trimSpace r.agg) = [] then "avg".toList
        else strings.trimSpace (if (r.above.isSome || r.below.isSome) && strings.trimSpace r.agg = [] then "avg".toList
          else strings.trimSpace r.agg)) = (if (r.above.isSome || r.below.isSome) &&
            strings.trimSpace r.agg = [] then "avg".toList else strings.trimSpace r.agg)
    unfold Letters at letters
    split
    · rw [letters]
      simp
    · rename_i given
      rw [strings.trimSpace_trimSpace, if_neg given]
  unfold completed trimmed at severity agg ⊢
  dsimp only at severity agg ⊢
  rw [severity, agg]
  simp only [strings.trimSpace_trimSpace]

variable [Filter.Compiler] [Payloads F] {rules : List (Rule F)} {byID byID' : Map Str (Compiled F)} {cs : List (Compiled F)}

namespace Engine

/-- The rules come out with their defaults, and no two share an id. -/
theorem compile_rules (compiled : compile rules byID = .ok (cs, byID')) :
    cs.map (·.toRule) = rules.map Rule.completed ∧ (rules.map Rule.id).Nodup ∧
      ∀ rule ∈ rules, byID.lookup rule.id = none := by
  induction rules generalizing byID byID' cs with
  | nil =>
    simp only [compile, Except.ok.injEq, Prod.mk.injEq] at compiled
    obtain ⟨rfl, -⟩ := compiled
    exact ⟨rfl, List.nodup_nil, fun _ none => absurd none List.not_mem_nil⟩
  | cons rule rules ih =>
    obtain ⟨c, cs, valid, fresh, -, rfl, compiledRest⟩ := compile_cons compiled
    have own := Rule.validate_completed valid
    have id : c.id = rule.id := by rw [own, Rule.completed_id]
    obtain ⟨same, nodup, absent⟩ := ih compiledRest
    have others : ∀ other ∈ rules, other.id ≠ rule.id ∧ byID.lookup other.id = none := by
      intro other member
      have absent := absent other member
      rw [id] at absent
      have differ : other.id ≠ rule.id := by
        intro equal
        rw [equal, AList.lookup_insert] at absent
        cases absent
      rw [AList.lookup_insert_ne differ] at absent
      exact ⟨differ, absent⟩
    refine ⟨?_, ?_, ?_⟩
    · rw [List.map_cons, List.map_cons, same, own]
    · refine List.nodup_cons.mpr ⟨fun member => ?_, nodup⟩
      obtain ⟨other, listed, equal⟩ := List.mem_map.mp member
      exact (others other listed).1 equal
    · intro other member
      rcases List.mem_cons.mp member with rfl | member
      · exact id ▸ fresh
      · exact (others other member).2

/-- What `SetRules` leaves in force is what its rules compile to. -/
theorem setRules_rules [DecidableEq F] {e e' : Engine F} {rt : Runtime} {now : Int}
    (set : e.setRules rules rt now = .ok e') : ∃ byID, compile rules ∅ = .ok (e'.rules, byID) := by
  unfold setRules at set
  simp only [bind, Except.bind, pure, Except.pure] at set
  split at set
  · cases set
  · rename_i compiled compiledRules
    obtain ⟨cs, byID⟩ := compiled
    simp only [Except.ok.injEq] at set
    subst set
    refine ⟨byID, ?_⟩
    rw [(refreshMuted_same rt now).2.2.1, compiledRules]
    refine congrArg (fun cs => Except.ok (cs, byID)) ?_
    refine (List.foldlRecOn (motive := fun e : Engine F => e.rules = cs) _ _ rfl fun e same k _ => ?_).symm
    split
    · exact same
    · split
      · exact same
      · exact same

end Engine
end Completed
end NatsExplorer.Alerts

namespace NatsExplorer.Feature
open Go Overwriting Alerts

inductive RuleRequest (F : Type) where
  | put (id : Str) (rule : Rule F)
  | delete (id : Str)

namespace RuleRequest
variable {F : Type}

/-- The first rule with the id is replaced, else the rule comes last. -/
def putRule (rule : Rule F) : List (Rule F) → List (Rule F)
  | [] => [rule]
  | r :: rules => if r.id = rule.id then rule :: rules else r :: putRule rule rules

/-- What a request makes of its copy, or why it is turned down. -/
def edit : RuleRequest F → List (Rule F) → Except String (List (Rule F))
  | .put id rule, rules => .ok (putRule { rule with id := id } rules)
  | .delete id, rules =>
    let out := rules.filter (·.id ≠ id)
    if out.length = rules.length then .error "no such rule" else .ok out

section Save
variable [Tables] [Filter.Compiler] [Payloads F]

/-- What `SetRules` puts in force of a list; the list itself is stored. -/
def save (r : RuleRequest F) (rules : List (Rule F)) : Option (List (Rule F) × Option (List (Rule F))) :=
  match r.edit rules with
  | .error _ => none
  | .ok edited =>
    match Engine.compile edited ∅ with
    | .error _ => none
    | .ok (cs, _) => some (cs.map (·.toRule), some edited)

end Save

def change [Tables] : RuleRequest F → Change Str (Rule F)
  | .put id rule => .put { rule with id := id }.completed
  | .delete id => .delete id

section Spec
variable {r : RuleRequest F} {rules rules' : List (Rule F)} {rule e : Rule F} {own : Option (List (Rule F))}

theorem mem_putRule (nodup : (rules.map Rule.id).Nodup) :
    e ∈ putRule rule rules ↔ (e ∈ rules ∧ e.id ≠ rule.id) ∨ e = rule := by
  induction rules with
  | nil => simp [putRule]
  | cons first rules ih =>
    rw [List.map_cons, List.nodup_cons] at nodup
    rw [putRule]
    split
    · rename_i same
      have others : ∀ e ∈ rules, e.id ≠ rule.id := by
        intro e member equal
        exact nodup.1 (List.mem_map.mpr ⟨e, member, equal.trans same.symm⟩)
      simp only [List.mem_cons]
      constructor
      · rintro (rfl | member)
        · exact Or.inr rfl
        · exact Or.inl ⟨Or.inr member, others e member⟩
      · rintro (⟨rfl | member, other⟩ | rfl)
        · exact absurd same other
        · exact Or.inr member
        · exact Or.inl rfl
    · rename_i other
      rw [List.mem_cons, List.mem_cons, ih nodup.2]
      constructor
      · rintro (rfl | ⟨member, differ⟩ | rfl)
        · exact Or.inl ⟨Or.inl rfl, other⟩
        · exact Or.inl ⟨Or.inr member, differ⟩
        · exact Or.inr rfl
      · rintro (⟨rfl | member, differ⟩ | rfl)
        · exact Or.inl rfl
        · exact Or.inr (Or.inl ⟨member, differ⟩)
        · exact Or.inr (Or.inr rfl)

/-- A list the engine has in force. -/
structure InForce [Tables] (rules : List (Rule F)) : Prop where
  nodup : (rules.map Rule.id).Nodup
  complete : ∀ rule ∈ rules, rule.completed = rule

variable [Tables]

theorem mem_completed (rules : List (Rule F)) (complete : ∀ rule ∈ rules, rule.completed = rule) (rule : Rule F) (e : Rule F) :
    e ∈ (putRule rule rules).map Rule.completed ↔ e ∈ putRule rule.completed rules := by
  induction rules with
  | nil => simp [putRule]
  | cons first rules ih =>
    have rest : rules.map Rule.completed = rules := by
      refine (List.map_congr_left fun r member => ?_).trans (List.map_id _)
      exact complete r (List.mem_cons_of_mem _ member)
    rw [putRule, putRule, Rule.completed_id]
    split
    · rw [List.map_cons, rest]
    · rw [List.map_cons, complete first List.mem_cons_self, List.mem_cons, List.mem_cons,
        ih fun r member => complete r (List.mem_cons_of_mem _ member)]

variable [Filter.Compiler] [Payloads F]

theorem InForce.set [DecidableEq F] (letters : Letters) {e e' : Engine F} {rt : Runtime} {now : Int}
    (set : e.setRules rules rt now = .ok e') : InForce (e'.rules.map (·.toRule)) := by
  obtain ⟨byID, compiled⟩ := Engine.setRules_rules set
  obtain ⟨same, nodup, -⟩ := Engine.compile_rules compiled
  rw [same]
  refine ⟨by rwa [List.map_map], fun rule member => ?_⟩
  obtain ⟨r, -, rfl⟩ := List.mem_map.mp member
  exact Rule.completed_completed letters r

theorem save_spec (letters : Letters) (force : InForce rules) (saved : r.save rules = some (rules', own)) :
    InForce rules' ∧
      ∀ e, e ∈ rules' ↔ (e ∈ rules ∧ r.change.target Rule.id ≠ e.id) ∨ r.change = .put e := by
  unfold save at saved
  split at saved
  · cases saved
  · rename_i edited isEdited
    split at saved
    · cases saved
    · rename_i cs byID compiled
      cases saved
      obtain ⟨same, nodup, -⟩ := Engine.compile_rules compiled
      rw [same]
      refine ⟨⟨?_, ?_⟩, fun e => ?_⟩
      · rw [List.map_map]
        exact nodup
      · intro rule member
        obtain ⟨r, -, rfl⟩ := List.mem_map.mp member
        exact Rule.completed_completed letters r
      · cases r with
        | put id rule =>
          cases isEdited
          rw [mem_completed rules force.complete, mem_putRule force.nodup]
          simp only [change, Change.target, Change.put.injEq]
          refine or_congr (and_congr_right fun _ => ?_) eq_comm
          exact ne_comm
        | delete id =>
          unfold edit at isEdited
          dsimp only at isEdited
          split_ifs at isEdited
          cases isEdited
          have kept : (rules.filter (·.id ≠ id)).map Rule.completed = rules.filter (·.id ≠ id) := by
            refine (List.map_congr_left fun r member => ?_).trans (List.map_id _)
            exact force.complete r (List.mem_of_mem_filter member)
          rw [kept, List.mem_filter, decide_eq_true_eq]
          simp [change, Change.target, eq_comm]

end Spec
end RuleRequest

section Kept
variable {ι : Type}

/-- What is in force is what was there before, edited, and it is what is stored. -/
def Kept {E : Type} (key : E → Str) (before : List E) (changes : ι → Change Str E) (s : System ι (List E)) : Prop :=
  (∀ e, e ∈ s.force ↔ (e ∈ before ∧ ∀ i, (changes i).target key ≠ key e) ∨ ∃ i, changes i = .put e) ∧ s.file = s.force

theorem Kept.of_changed {E : Type} {key : E → Str} {before : List E} {changes : ι → Change Str E} {s : System ι (List E)}
    (changed : Changed key before changes Set.univ s.force) (stored : s.file = s.force) : Kept key before changes s := by
  refine ⟨fun e => ?_, stored⟩
  rw [changed e]
  simp

variable [DecidableEq ι]

theorem schemas_kept {requests : ι → SchemaRequest} {before file : List PinnedSchema} {acts : List (Act ι)}
    {s : System ι (List PinnedSchema)} (distinct : Function.Injective fun i => (requests i).change.target PinnedSchema.pattern)
    (loaded : file = before ∨ Nonempty ι)
    (run : Transition.Reaches (fun s act t => System.Step (fun i => (requests i).save) s act t ∧ s.InTurn act)
      (.start before file) acts s)
    (returned : s.Returned) : Kept PinnedSchema.pattern before (fun i => (requests i).change) s := by
  refine Kept.of_changed ?_ (System.stored_force loaded run returned)
  refine System.reflects_all (P := Changed _ before fun i => (requests i).change) Changed.none ?_ run returned
  intro D i list list' own changed fresh saved
  exact changed.next distinct fresh fun e => SchemaRequest.mem_save saved e

theorem rules_kept {F : Type} [Tables] [Filter.Compiler] [Payloads F] (letters : Letters) {requests : ι → RuleRequest F}
    {before file : List (Rule F)} {acts : List (Act ι)} {s : System ι (List (Rule F))}
    (distinct : Function.Injective fun i => (requests i).change.target Rule.id)
    (force : RuleRequest.InForce before) (loaded : file = before ∨ Nonempty ι)
    (run : Transition.Reaches (fun s act t => System.Step (fun i => (requests i).save) s act t ∧ s.InTurn act)
      (.start before file) acts s)
    (returned : s.Returned) : Kept Rule.id before (fun i => (requests i).change) s := by
  refine Kept.of_changed ?_ (System.stored_force loaded run returned)
  have reflects := System.reflects_all (P := fun D rules => RuleRequest.InForce rules ∧
    Changed Rule.id before (fun i => (requests i).change) D rules) ⟨force, Changed.none⟩ ?_ run returned
  · exact reflects.2
  · rintro D i list list' own ⟨force, changed⟩ fresh saved
    obtain ⟨force', members⟩ := RuleRequest.save_spec letters force saved
    exact ⟨force', changed.next distinct fresh members⟩

end Kept

section Sample

def samplePin (b : Bool) : PinnedSchema where
  id := []
  pattern := if b then ['b'] else ['a']
  pinnedAt := 0
  samples := 1
  fields := [{ path := ['v'] }]

def pins (b : Bool) : SchemaRequest := .put (samplePin b) 1

/-- With a severity, or without. -/
def sampleRule (bare : Bool) : RuleRequest Int :=
  .put ['r'] (if bare then Engine.always else { Engine.always with severity := "warning".toList })

def completeRule : Rule Int := { Engine.always with severity := "warning".toList }

theorem save_pin (b : Bool) : (pins b).save [] = some ([(samplePin b).taken 1], none) := by
  have edited : (pins b).edit [] = .ok [(samplePin b).taken 1] := by
    cases b <;> rfl
  unfold SchemaRequest.save SchemaRequest.sorted
  rw [edited]
  simp [Except.toOption]

theorem pins_distinct : Function.Injective fun b => (pins b).change.target PinnedSchema.pattern := by
  intro a b same
  cases a <;> cases b <;> first | rfl | cases same

end Sample
end NatsExplorer.Feature
