import CanTransport.Proofs.Ticking

/-! # Rounds of two stations

Two stations on one bus, with controllers that take every frame and report its success at once, tick
in turn.
-/
namespace CanTransport.Bench
open Station

def pair (x y : NodeView) (i : Nat) : NodeView := if i = 0 then x else y

/-- A tick of the first station and one of the second, who has the frames of the first by then. -/
def NodeView.exchange (x y : NodeView) (clock : Micros) : NodeView × NodeView :=
  let (x, forth) := x.run tickIfDue clock
  let (y, back) := { y with inbox := y.inbox ++ forth }.run tickIfDue clock
  ({ x with inbox := x.inbox ++ back }, y)

namespace Bus
variable {b : Bus} {i : Nat} {clock : Micros} {view : Nat → NodeView} {x y : NodeView}

theorem around_self (view : Nat → NodeView) (i : Nat) (clock : Micros) :
    around view i { view i with clock } = view := by
  funext j
  by_cases hj : j = i
  · simp [around, hj]
  · simp [around, hj]

theorem clock_run {α : Type} (p : Action α) (d : NodeRun) :
    (p.run NodeRun.answer d).2.clock = d.clock := by
  induction p generalizing d with
  | done a => rfl
  | ask q next ih =>
    rw [Program.run, ih]
    cases q <;> rfl

theorem responder_hookless (h : b.hooks = []) (i : Nat) : b.responder i = hookless i := by
  rw [responder, h]
  rfl

/-- A program that ends without locks, at one of the stations. -/
theorem Shows.runAt {α : Type} {p : Action α} (h : b.Shows clock (fun _ => []) view)
    (hi : i < b.nodes.length) (hp : p.Disciplined [] []) :
    (b.run i p).2.Shows clock (fun _ => [])
        (around view i { ((view i).run p clock).1 with clock, sent := ((view i).run p clock).2 }) ∧
      (b.run i p).2.nodes.length = b.nodes.length := by
  have hfree : holding i [] = fun _ => [] := by
    funext j
    exact ite_self _
  have hd : b.Shows clock (holding i []) (around view i { view i with clock }) := by
    rwa [around_self, hfree]
  obtain ⟨-, hs, hn⟩ := Shows.run (d := { view i with clock }) hp hd hi
  rw [clock_run, hfree] at hs
  have hrun : b.run i p = p.run (hookless i) b :=
    congrArg (fun r => p.run r b) (responder_hookless h.hooks i)
  rw [hrun]
  exact ⟨hs, hn⟩

theorem Shows.congr {held : Nat → List Lock} {view' : Nat → NodeView} (h : b.Shows clock held view)
    (hs : ∀ i, i < b.nodes.length → view i = view' i) : b.Shows clock held view' := by
  refine ⟨h.clock, h.hooks, fun i hi => ?_, fun i hi => ?_⟩
  · exact hs i hi ▸ h.node i hi
  · exact hs i hi ▸ h.notices i hi

theorem Shows.advance {held : Nat → List Lock} (h : b.Shows clock held view) (span : Micros) :
    (b.advance span).Shows (clock + span) held view :=
  ⟨congrArg (· + span) h.clock, h.hooks, h.node, h.notices⟩

theorem Shows.round {span : Micros} (h : b.Shows clock (fun _ => []) (pair x y))
    (hn : b.nodes.length = 2) :
    (b.round [0, 1] span).Shows (clock + span) (fun _ => [])
      (pair (x.exchange y clock).1 (x.exchange y clock).2) ∧
      (b.round [0, 1] span).nodes.length = 2 := by
  obtain ⟨h₁, hn₁⟩ := h.runAt (i := 0) (by omega) tickIfDue_disciplined
  obtain ⟨h₂, hn₂⟩ := h₁.runAt (i := 1) (by omega) tickIfDue_disciplined
  have hround : b.round [0, 1] span = ((b.run 0 tickIfDue).2.run 1 tickIfDue).2.advance span := rfl
  have hlength : ((b.run 0 tickIfDue).2.run 1 tickIfDue).2.nodes.length = 2 := by omega
  refine hround ▸ ⟨(h₂.congr fun i hi => ?_).advance span, hlength⟩
  rw [hlength] at hi
  match i, hi with
  | 0, _ => rfl
  | 1, _ => rfl

end Bus
end CanTransport.Bench
