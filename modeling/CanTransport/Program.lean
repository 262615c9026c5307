/-! # Programs that ask

A program either is done or asks its surroundings one question and goes on with the answer. What the
answers are, and what else happens before they come, is up to whoever runs it: the same program runs
against a simulated bus, or against surroundings of which nothing is known.
-/
namespace CanTransport

inductive Program (Query : Type) (Answer : Query → Type) (α : Type) : Type
  | done (value : α)
  | ask (query : Query) (next : Answer query → Program Query Answer α)

namespace Program
variable {Query : Type} {Answer : Query → Type} {α β γ σ : Type}

def bind : Program Query Answer α → (α → Program Query Answer β) → Program Query Answer β
  | done a, f => f a
  | ask q next, f => ask q fun a => (next a).bind f

instance : Monad (Program Query Answer) where
  pure := done
  bind := bind

/-- Runs a program, answering each question and moving the state along. -/
def run (answer : (q : Query) → σ → Answer q × σ) : Program Query Answer α → σ → α × σ
  | done a, s => (a, s)
  | ask q next, s =>
    let (a, s) := answer q s
    (next a).run answer s

@[simp] theorem pure_eq (a : α) : (pure a : Program Query Answer α) = done a := rfl

@[simp] theorem bind_eq (p : Program Query Answer α) (f : α → Program Query Answer β) :
    p >>= f = p.bind f := rfl

theorem bind_done (p : Program Query Answer α) : p.bind done = p := by
  induction p with
  | done a => rfl
  | ask q next ih => simp [bind, ih]

theorem bind_assoc (p : Program Query Answer α) (f : α → Program Query Answer β)
    (g : β → Program Query Answer γ) : (p.bind f).bind g = p.bind fun a => (f a).bind g := by
  induction p with
  | done a => rfl
  | ask q next ih => simp [bind, ih]

instance : LawfulMonad (Program Query Answer) := LawfulMonad.mk' _
  (fun p => by simpa [Functor.map] using bind_done p) (fun _ _ => rfl)
  (fun p f g => by simpa using bind_assoc p f g)

@[simp] theorem run_done (answer : (q : Query) → σ → Answer q × σ) (a : α) (s : σ) :
    (done a : Program Query Answer α).run answer s = (a, s) := rfl

/-- Running a sequence is running its parts one after the other. -/
theorem run_bind (answer : (q : Query) → σ → Answer q × σ) (p : Program Query Answer α)
    (f : α → Program Query Answer β) (s : σ) :
    (p.bind f).run answer s = (f (p.run answer s).1).run answer (p.run answer s).2 := by
  induction p generalizing s with
  | done a => rfl
  | ask q next ih => simp [bind, run, ih]

end Program
end CanTransport
