/-! Programs that ask for values by name, in an order of their own, and a resolver
with a state that answers them. Where the state only remembers what was asked, a
program cannot tell it from a fixed assignment. -/
namespace Asking

inductive Program (N V R : Type) where
  | answer (result : R)
  | ask (name : N) (next : V → Program N V R)

variable {N V R S : Type}

/-- The program on a resolver with a state. -/
def run (resolve : N → S → V × S) : Program N V R → S → R
  | .answer result, _ => result
  | .ask name next, s => run resolve (next (resolve name s).1) (resolve name s).2

/-- The program on fixed values. -/
def eval (meaning : N → V) : Program N V R → R
  | .answer result => result
  | .ask name next => eval meaning (next (meaning name))

/-- A resolver that gives what the names mean and keeps an invariant that makes it do so. -/
def Resolves (resolve : N → S → V × S) (meaning : N → V) (inv : S → Prop) : Prop :=
  ∀ name s, inv s → (resolve name s).1 = meaning name ∧ inv (resolve name s).2

theorem run_eq_eval {resolve : N → S → V × S} {meaning : N → V} {inv : S → Prop}
    (resolves : Resolves resolve meaning inv) (p : Program N V R) {s : S} (start : inv s) :
    run resolve p s = eval meaning p := by
  induction p generalizing s with
  | answer result => rfl
  | ask name next ih =>
    obtain ⟨value, kept⟩ := resolves name s start
    rw [run, eval, ← value]
    exact ih _ kept

end Asking
