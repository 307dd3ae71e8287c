import NatsExplorer.Library.Transition
import Mathlib.Data.Set.Insert
import Mathlib.Logic.Function.Basic

/-! Requests that copy what is in force, replace it by an edited copy and store what they
leave, each in steps of its own. What they do together is what they do one after the
other, as long as no request replaces anything but what it copied. -/
namespace Overwriting
variable {ι L : Type*}

inductive Stage (L : Type*) where
  | asked
  | copied (copy : L)
  | replaced
  | saving (raw : L)
  | returned

structure System (ι L : Type*) where
  force : L
  file : L
  stage : ι → Stage L

inductive Act (ι : Type*) where
  | read (i : ι)
  | replace (i : ι)
  | reread (i : ι)
  | store (i : ι)

namespace System

def start (force file : L) : System ι L where
  force := force
  file := file
  stage := fun _ => .asked

def Returned (s : System ι L) : Prop := ∀ i, s.stage i = .returned

/-- The request has replaced what is in force. -/
def Done (s : System ι L) (i : ι) : Prop := s.stage i ≠ .asked ∧ ∀ copy, s.stage i ≠ .copied copy

/-- A request replaces what it copied; the last one to store stores what is in force. -/
def InTurn (s : System ι L) : Act ι → Prop
  | .replace i => ∀ copy, s.stage i = .copied copy → copy = s.force
  | .store i => ∀ raw, s.stage i = .saving raw → (∀ j ≠ i, s.stage j = .returned) → raw = s.force
  | _ => True

variable [DecidableEq ι]

def goto (s : System ι L) (i : ι) (stage : Stage L) : System ι L :=
  { s with stage := Function.update s.stage i stage }

variable (replace : ι → L → Option (L × Option L))

/-- From its copy a request makes what is in force next, and what it stores if it does not
read again what is in force then. -/
inductive Step : System ι L → Act ι → System ι L → Prop where
  | read {s i} (asked : s.stage i = .asked) : Step s (.read i) (s.goto i (.copied s.force))
  | replace {s i copy force own} (copied : s.stage i = .copied copy) (accepted : replace i copy = some (force, own)) :
      Step s (.replace i) ({ s with force := force }.goto i (own.elim .replaced .saving))
  | reread {s i} (replaced : s.stage i = .replaced) : Step s (.reread i) (s.goto i (.saving s.force))
  | store {s i raw} (saving : s.stage i = .saving raw) :
      Step s (.store i) ({ s with file := raw }.goto i .returned)

variable {replace} {s t : System ι L} {acts : List (Act ι)} {i j : ι} {stage : Stage L} {force file : L}

theorem goto_self : (s.goto i stage).stage i = stage := Function.update_self ..

theorem goto_other (other : j ≠ i) : (s.goto i stage).stage j = s.stage j := Function.update_of_ne other ..

theorem done_goto (other : j ≠ i) : (s.goto i stage).Done j ↔ s.Done j := by
  unfold Done
  rw [goto_other other]

/-- A step towards a replacement, or after it. -/
theorem done_moved (kept : (s.goto i stage).Done i ↔ s.Done i) : {j | (s.goto i stage).Done j} = {j | s.Done j} := by
  ext j
  by_cases same : j = i
  · rw [same]
    exact kept
  · exact done_goto same

section Spec
variable {P : Set ι → L → Prop}

/-- What is in force reflects the requests that have replaced it. -/
theorem reflects (starts : P ∅ force)
    (edits : ∀ {D i l l' own}, P D l → i ∉ D → replace i l = some (l', own) → P (insert i D) l')
    (run : Transition.Reaches (fun s act t => Step replace s act t ∧ s.InTurn act) (start force file) acts s) :
    P {i | s.Done i} s.force := by
  refine run.invariant (P := fun s => P {i | s.Done i} s.force) ?_ ?_
  · rintro s act t holds ⟨moved, turn⟩
    cases moved with
    | read asked =>
      rw [done_moved]
      · exact holds
      · simp [Done, goto_self, asked]
    | @replace i copy force own copied accepted =>
      have current : copy = s.force := turn copy copied
      subst current
      have fresh : i ∉ {j | s.Done j} := fun done => done.2 _ copied
      have now : {j | ({ s with force := force }.goto i (own.elim .replaced .saving)).Done j} = insert i {j | s.Done j} := by
        ext j
        by_cases same : j = i
        · subst same
          cases own <;> simp [Done, goto_self]
        · rw [Set.mem_insert_iff, or_iff_right same]
          exact done_goto (s := { s with force := force }) same
      rw [now]
      exact edits holds fresh accepted
    | reread replaced =>
      rw [done_moved]
      · exact holds
      · simp [Done, goto_self, replaced]
    | @store i raw saving =>
      have same : {j | ({ s with file := raw }.goto i .returned).Done j} = {j | s.Done j} := by
        refine (done_moved (s := { s with file := raw }) ?_).trans rfl
        simp [Done, goto_self, saving]
      rw [same]
      exact holds
  · have none : {i | (start force file : System ι L).Done i} = ∅ := by
      ext i
      simp [Done, start]
    rw [none]
    exact starts

theorem reflects_all (starts : P ∅ force)
    (edits : ∀ {D i l l' own}, P D l → i ∉ D → replace i l = some (l', own) → P (insert i D) l')
    (run : Transition.Reaches (fun s act t => Step replace s act t ∧ s.InTurn act) (start force file) acts s)
    (returned : s.Returned) : P Set.univ s.force := by
  have all : {i | s.Done i} = Set.univ := by
    ext i
    simp [Done, returned i]
  rw [← all]
  exact reflects starts edits run

end Spec

/-- What is stored in the end is what is in force. -/
theorem stored_force (loaded : file = force ∨ Nonempty ι)
    (run : Transition.Reaches (fun s act t => Step replace s act t ∧ s.InTurn act) (start force file) acts s)
    (returned : s.Returned) : s.file = s.force := by
  refine run.invariant (P := fun s => s.Returned → s.file = s.force) ?_ ?_ returned
  · rintro s act t holds ⟨moved, turn⟩ returned
    cases moved with
    | @store i raw saving =>
      refine turn raw saving fun j other => ?_
      rw [← returned j]
      exact (goto_other (s := { s with file := raw }) other).symm
    | read asked =>
      cases goto_self.symm.trans (returned _)
    | reread replaced =>
      cases goto_self.symm.trans (returned _)
    | @replace i copy force own copied accepted =>
      cases own <;> cases goto_self.symm.trans (returned i)
  · intro returned
    rcases loaded with same | ⟨⟨i⟩⟩
    · exact same
    · cases returned i

end System

/-! Lists of entries with a key, and requests that put one or take one away. -/

inductive Change (K E : Type*) where
  | put (entry : E)
  | delete (k : K)

section Changes
variable {K E : Type*} (key : E → K)

def Change.target : Change K E → K
  | .put entry => key entry
  | .delete k => k

/-- The entries that were there and are in no change's place, and those that were put. -/
def Changed (before : List E) (changes : ι → Change K E) (D : Set ι) (l : List E) : Prop :=
  ∀ e, e ∈ l ↔ (e ∈ before ∧ ∀ i ∈ D, (changes i).target key ≠ key e) ∨ ∃ i ∈ D, changes i = .put e

variable {key} {before l l' : List E} {changes : ι → Change K E} {D : Set ι} {i : ι}

theorem Changed.none : Changed key before changes ∅ before := by
  intro e
  simp

/-- A change in the place of its own key, which no other has. -/
theorem Changed.next (changed : Changed key before changes D l) (distinct : Function.Injective fun i => (changes i).target key)
    (fresh : i ∉ D) (edited : ∀ e, e ∈ l' ↔ (e ∈ l ∧ (changes i).target key ≠ key e) ∨ changes i = .put e) :
    Changed key before changes (insert i D) l' := by
  intro e
  rw [edited, changed]
  constructor
  · rintro (⟨⟨there, others⟩ | ⟨j, done, put⟩, own⟩ | put)
    · refine Or.inl ⟨there, fun j member => ?_⟩
      rcases Set.mem_insert_iff.mp member with rfl | member
      · exact own
      · exact others j member
    · exact Or.inr ⟨j, Set.mem_insert_of_mem _ done, put⟩
    · exact Or.inr ⟨i, Set.mem_insert _ _, put⟩
  · rintro (⟨there, others⟩ | ⟨j, member, put⟩)
    · refine Or.inl ⟨Or.inl ⟨there, fun j done => others j (Set.mem_insert_of_mem _ done)⟩, ?_⟩
      exact others i (Set.mem_insert _ _)
    · rcases Set.mem_insert_iff.mp member with rfl | done
      · exact Or.inr put
      · refine Or.inl ⟨Or.inr ⟨j, done, put⟩, fun same => ?_⟩
        have keys : (changes i).target key = (changes j).target key := by
          rw [put]
          exact same
        exact fresh (distinct keys ▸ done)

end Changes
end Overwriting
