import NatsExplorer.Library.Transition
import Mathlib.Data.Multiset.AddSub

/-! Requests handled side by side. A call is what it still has to do, one operation after the other;
an operation acts on the state all calls share and may put others in front of what its call does
next. An invariant relates the state to the operations that are still pending. -/
namespace Calls
variable {S Op Out : Type*}

structure System (S Op : Type*) where
  state : S
  calls : Multiset (List Op)

/-- `out` is what the outside answers to an operation. -/
inductive Act (Op Out : Type*) where
  | arrive (ops : List Op)
  | run (op : Op) (out : Out)
  | respond

namespace System

def Pending (s : System S Op) (o : Op) : Prop := ∃ c ∈ s.calls, o ∈ c

variable (exec : S → Op → Out → S × List Op) (request : List Op → Prop)

inductive Step : System S Op → Act Op Out → System S Op → Prop where
  | arrive {s ops} : request ops → Step s (.arrive ops) { s with calls := ops ::ₘ s.calls }
  | run {s op more rest} (out) : s.calls = (op :: more) ::ₘ rest → Step s (.run op out)
      ⟨(exec s.state op out).1, ((exec s.state op out).2 ++ more) ::ₘ rest⟩
  | respond {s rest} : s.calls = [] ::ₘ rest → Step s .respond { s with calls := rest }

/-- A condition on an operation, the state it starts in and what is pending then. -/
def Meets (ok : S → (Op → Prop) → Op → Out → Prop) (s : System S Op) : Act Op Out → Prop
  | .run op out => ok s.state s.Pending op out
  | _ => True

/-- What is pending once an operation has run. -/
structure Next (P Q : Op → Prop) (op : Op) (pushed : List Op) : Prop where
  kept : ∀ {o}, P o → o ≠ op → Q o
  added : ∀ {o}, o ∈ pushed → Q o
  only : ∀ {o}, Q o → P o ∨ o ∈ pushed

theorem Next.run {s : System S Op} {op : Op} {more pushed : List Op} {rest : Multiset (List Op)} {x : S}
    (calls : s.calls = (op :: more) ::ₘ rest) :
    Next s.Pending (System.Pending ⟨x, (pushed ++ more) ::ₘ rest⟩) op pushed where
  kept := by
    rintro o ⟨c, member, listed⟩ other
    rw [calls, Multiset.mem_cons] at member
    rcases member with rfl | member
    · have still : o ∈ more := (List.mem_cons.mp listed).resolve_left other
      exact ⟨_, Multiset.mem_cons_self _ _, List.mem_append_right _ still⟩
    · exact ⟨c, Multiset.mem_cons_of_mem member, listed⟩
  added := fun listed => ⟨_, Multiset.mem_cons_self _ _, List.mem_append_left _ listed⟩
  only := by
    rintro o ⟨c, member, listed⟩
    rcases Multiset.mem_cons.mp member with rfl | member
    · refine (List.mem_append.mp listed).symm.imp_left fun still => ⟨op :: more, ?_, List.mem_cons_of_mem _ still⟩
      rw [calls]
      exact Multiset.mem_cons_self _ _
    · refine Or.inl ⟨c, ?_, listed⟩
      rw [calls]
      exact Multiset.mem_cons_of_mem member

theorem pending_head {s : System S Op} {op : Op} {more : List Op} {rest : Multiset (List Op)}
    (calls : s.calls = (op :: more) ::ₘ rest) : s.Pending op :=
  ⟨op :: more, calls ▸ Multiset.mem_cons_self _ _, List.mem_cons_self⟩

theorem pending_cons {s : System S Op} {ops : List Op} :
    System.Pending { s with calls := ops ::ₘ s.calls } = fun o => s.Pending o ∨ o ∈ ops := by
  funext o
  simp only [Pending, Multiset.mem_cons, exists_eq_or_imp]
  exact propext or_comm

theorem pending_respond {s : System S Op} {rest : Multiset (List Op)} (calls : s.calls = [] ::ₘ rest) :
    System.Pending { s with calls := rest } = s.Pending := by
  funext o
  simp only [Pending, calls, Multiset.mem_cons, exists_eq_or_imp, List.not_mem_nil, false_or]

variable {exec request} {ok : S → (Op → Prop) → Op → Out → Prop} {I : S → (Op → Prop) → Prop}

theorem invariant {s t : System S Op} {labels : List (Act Op Out)}
    (arrives : ∀ {x P ops}, request ops → I x P → I x fun o => P o ∨ o ∈ ops)
    (runs : ∀ {x P Q op out}, I x P → P op → ok x P op out → Next P Q op (exec x op out).2 → I (exec x op out).1 Q)
    (run : Transition.Reaches (fun s l t => Step exec request s l t ∧ Meets ok s l) s labels t)
    (initial : I s.state s.Pending) : I t.state t.Pending := by
  refine run.invariant (P := fun s => I s.state s.Pending) ?_ initial
  rintro s l t inv ⟨step, meets⟩
  cases step with
  | arrive asked =>
    rw [pending_cons]
    exact arrives asked inv
  | run out calls => exact runs inv (pending_head calls) meets (Next.run calls)
  | respond calls =>
    rw [pending_respond calls]
    exact inv

variable (exec ok)

/-- One call goes on while the others wait. -/
def drive : S → List Op → List Out → S × List Op
  | x, op :: more, out :: outs => drive (exec x op out).1 ((exec x op out).2 ++ more) outs
  | x, c, _ => (x, c)

def DriveMeets (others : Multiset (List Op)) : S → List Op → List Out → Prop
  | x, op :: more, out :: outs => ok x (System.Pending ⟨x, (op :: more) ::ₘ others⟩) op out ∧
      DriveMeets others (exec x op out).1 ((exec x op out).2 ++ more) outs
  | _, _, _ => True

variable {exec ok}

theorem exists_drive (outs : List Out) {others : Multiset (List Op)} {x : S} {c : List Op} {s : System S Op}
    {before : List (Act Op Out)}
    (run : Transition.Reaches (fun s l t => Step exec request s l t ∧ Meets ok s l) s before ⟨x, c ::ₘ others⟩)
    (meets : DriveMeets exec ok others x c outs) :
    ∃ labels, Transition.Reaches (fun s l t => Step exec request s l t ∧ Meets ok s l) s labels
      ⟨(drive exec x c outs).1, (drive exec x c outs).2 ::ₘ others⟩ := by
  induction outs generalizing x c before with
  | nil =>
    cases c with
    | nil => exact ⟨before, run⟩
    | cons op more => exact ⟨before, run⟩
  | cons out outs ih =>
    cases c with
    | nil => exact ⟨before, run⟩
    | cons op more =>
      obtain ⟨first, later⟩ := meets
      exact ih (run.next ⟨.run out rfl, first⟩) later

/-- A call that runs to its end. -/
theorem exists_return (outs : List Out) {others : Multiset (List Op)} {x : S} {c : List Op} {s : System S Op}
    {before : List (Act Op Out)}
    (run : Transition.Reaches (fun s l t => Step exec request s l t ∧ Meets ok s l) s before ⟨x, c ::ₘ others⟩)
    (meets : DriveMeets exec ok others x c outs) (done : (drive exec x c outs).2 = []) :
    ∃ labels, Transition.Reaches (fun s l t => Step exec request s l t ∧ Meets ok s l) s labels
      ⟨(drive exec x c outs).1, others⟩ := by
  obtain ⟨labels, driven⟩ := exists_drive outs run meets
  rw [done] at driven
  exact ⟨_, driven.next ⟨.respond rfl, trivial⟩⟩

end System
end Calls
