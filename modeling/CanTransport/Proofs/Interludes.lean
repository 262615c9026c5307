import CanTransport.Proofs.Conformance
import CanTransport.Proofs.Finishing
import CanTransport.Proofs.Outstanding

/-! # Calls made from within a tick

Who has the gate has the running conversations to itself. What is called from within a tick begins
none and ends none, and it lists none as finished. What is on record stays on record, and what is
over stays as it is.
-/
namespace CanTransport

/-- From `c` to `c'` conversations are left alone, but for what is listed as finished. -/
structure Interlude (marked : List Handle) (c c' : Scene) : Prop where
  gate : .gate ∈ c'.held
  active : c'.station.active = c.station.active
  opened : c'.opened = c.opened
  listed : ∀ h ∈ c'.station.finished, h ∈ c.station.finished ∨ h ∈ marked
  recorded : c.events <+: c'.events

/-- The endpoint of this number, if it is still there, has ended as `r` has. -/
structure Stage.Concluded (id : EndpointId) (r : Endpoint) (x : Stage) : Prop where
  given : id < x.scene.station.fresh
  stored : ∀ r', x.scene.station.endpoint? id = some r' → r'.final = r.final
  begun : ∀ b, .step b ∈ x.hand.tasks → b.id ≠ id
  tidy : x.Holds Endpoint.Tidy

variable {α : Type} {invariant : Scene → Prop} {R inner : Scene → Scene → Prop}
  {P : Query → Prop} {c c₁ c' : Scene} {marked : List Handle} {told : EndpointId → Prop}

namespace Station
open CanTransport.Action

theorem throughGate_refused {body : Action Unit} {a : Unit} (hgate : .gate ∈ c.held)
    (h : (throughGate body).Ends inner c a c') : c' = c := by
  obtain ⟨b, c₁, h₁, -, rfl⟩ := ends_bind.mp h
  rcases ends_withLock.mp h₁ with ⟨-, same⟩ | ⟨hfree, -⟩
  · exact same
  · exact absurd hgate hfree

theorem call_spans {call : Call} (hR : Scene.Spans invariant R (Query.Usual [] True False told))
    (hgate : ∀ {c}, invariant c → .gate ∈ c.held)
    (hi : ∀ c c', inner c c' → invariant c → R c c')
    (hsettle : ∀ c a c', invariant c → settle.Ends inner c a c' → R c c') (hc : invariant c)
    (h : call.Ends inner c c') :
    R c c' := by
  cases call with
  | request target type message kind =>
    obtain ⟨answer, c₁, h, rfl⟩ := h
    have hasked := hR.ends (fun _ => hi) hc (request_usual _ _ _ _) h
    cases answer with
    | ok id => exact hR.trans hasked (hR.note (hR.keeps hc hasked) _)
    | error e =>
      change R c { c₁ with events := c₁.events ++ [] }
      rwa [List.append_nil]
  | tickIfDue =>
    obtain ⟨_, h⟩ := h
    obtain ⟨active, c₁, h₁, h₂⟩ := ends_bind.mp h
    obtain ⟨_, -, hin⟩ := ends_ask.mp h₁
    have hasked := hi c c₁ hin hc
    cases active with
    | false =>
      obtain ⟨-, rfl⟩ := h₂
      exact hasked
    | true => exact throughGate_refused (hgate (hR.keeps hc hasked)) h₂ ▸ hasked
  | pacedTick =>
    obtain ⟨_, h⟩ := h
    rw [throughGate_refused (hgate hc) h]
    exact hR.refl hc
  | settle =>
    obtain ⟨_, h⟩ := h
    exact hsettle c _ c' hc h
  | setSource source =>
    obtain ⟨_, h⟩ := h
    exact hR.ends (fun _ => hi) hc (changeSettings_usual _) h
  | addGroup group =>
    obtain ⟨_, h⟩ := h
    exact hR.ends (fun _ => hi) hc (addGroup_usual _) h
  | removeGroup group =>
    obtain ⟨_, h⟩ := h
    exact hR.ends (fun _ => hi) hc (removeGroup_usual _) h
  | setBlockSize blockSize =>
    obtain ⟨_, h⟩ := h
    exact hR.ends (fun _ => hi) hc (setBlockSize_usual _) h
  | setSeparation separation =>
    obtain ⟨_, h⟩ := h
    exact hR.ends (fun _ => hi) hc (setSeparation_usual _) h

theorem episode_spans (hR : Scene.Spans invariant R (Query.Usual [] True False told))
    (hgate : ∀ {c}, invariant c → .gate ∈ c.held)
    (hsettle : ∀ inner, (∀ c c', inner c c' → invariant c → R c c') →
      ∀ c a c', invariant c → settle.Ends inner c a c' → R c c') (depth : Nat) :
    ∀ c c', Episode depth c c' → invariant c → R c c' := by
  induction depth with
  | zero =>
    rintro c c' rfl hc
    exact hR.refl hc
  | succ depth ih =>
    rintro c c' ⟨calls, h⟩ hc
    induction calls generalizing c with
    | nil =>
      obtain rfl : c' = c := h
      exact hR.refl hc
    | cons call rest ihr =>
      obtain ⟨c₁, h₁, h₂⟩ := h
      have hcall := call_spans hR hgate ih (hsettle _ ih) hc h₁
      exact hR.trans hcall (ihr c₁ h₂ (hR.keeps hc hcall))

end Station

namespace Interlude

theorem refl (hgate : .gate ∈ c.held) :
    Interlude marked c c := ⟨hgate, rfl, rfl, fun _ => .inl, List.prefix_rfl⟩

theorem trans (h : Interlude marked c c₁) (h' : Interlude marked c₁ c') :
    Interlude marked c c' where
  gate := h'.gate
  active := h'.active.trans h.active
  opened := h'.opened.trans h.opened
  listed g hg := (h'.listed g hg).elim (h.listed g) .inr
  recorded := h.recorded.trans h'.recorded

theorem weaken (h : Interlude [] c c') : Interlude marked c c' :=
  ⟨h.gate, h.active, h.opened, fun g hg => .inl ((h.listed g hg).resolve_right List.not_mem_nil),
    h.recorded⟩

end Interlude

open Station in
theorem Query.Usual.active {change : Station → Station} {outside : Prop} {told : EndpointId → Prop}
    (hq : (Query.access change).Usual marked outside False told) (s : Station) :
    (change s).active = s.active := by
  cases hq with
  | look | configure | stamp | enqueue | adjust | acknowledge | finish | push | mark | deliver
  | forget => rfl
  | adopt => exact s.addSender_active _ _ _ _
  | start h | openReception h => exact h.elim
  | drop => exact s.drop_active _
  | dropAll => exact s.dropAll_active _
  | begin => exact s.beginStep_active _ _ _
  | record ack =>
    change (s.record ack).2.active = s.active
    rw [record_outbox]

theorem spans_interlude :
    Scene.Spans (.gate ∈ ·.held) (Interlude marked) (Query.Usual marked True False told) where
  keeps _ h := h.gate
  refl := .refl
  trans := .trans
  note hgate _ := ⟨hgate, rfl, rfl, fun _ => .inl, List.prefix_append _ _⟩
  lock hgate _ := ⟨List.mem_cons_of_mem _ hgate, rfl, rfl, fun _ => .inl, List.prefix_rfl⟩
  unlock hgate hq :=
    ⟨(List.mem_erase_of_ne (Ne.symm hq.mild)).mpr hgate, rfl, rfl, fun _ => .inl, List.prefix_rfl⟩
  access {c _} hgate hq :=
    have hactive := hq.active c.station
    ⟨hgate, hactive, Scene.opened_of_active hactive, (hq.mild c.station).2, List.prefix_rfl⟩

namespace Station
open CanTransport.Action

theorem interlude_of_usual {p : Action α} {a : α}
    (hi : ∀ c c', inner c c' → .gate ∈ c.held → Interlude [] c c') (hgate : .gate ∈ c.held)
    (hp : p.Usual marked True False fun _ => True) (h : p.Ends inner c a c') :
    Interlude marked c c' :=
  spans_interlude.ends (fun _ c c' hin hg => (hi c c' hin hg).weaken) hgate hp h

/-- While the gate is held calls leave the running conversations alone, however deep they are
nested. -/
theorem episode_interlude (depth : Nat) :
    ∀ c c', Episode depth c c' → .gate ∈ c.held → Interlude [] c c' :=
  episode_spans (@spans_interlude [] fun _ => True) id
    (fun _ hi _ _ _ hgate h => interlude_of_usual hi hgate (settle_usual trivial fun _ => trivial)
      h) depth

end Station

section Concluded
variable {x y : Stage} {id : EndpointId} {r : Endpoint} {result : TransferResult}

theorem Transition.begun (t : Transition x y) {b : Begun} (hb : .step b ∈ y.hand.tasks) :
    (∃ b', .step b' ∈ x.hand.tasks ∧ b'.id = b.id) ∨
    x.scene.station.endpoint? b.id = some b.origin := by
  have continued (h : x.hand.Continues y.hand) :
      (∃ b', .step b' ∈ x.hand.tasks ∧ b'.id = b.id) ∨
      x.scene.station.endpoint? b.id = some b.origin := by
    obtain ⟨b', hb', hid, -⟩ := h b hb
    exact .inl ⟨b', hb', hid⟩
  cases t with
  | begin b' idle found =>
    rcases List.mem_cons.mp hb with hb | hb
    · cases hb
      exact .inr found
    · exact .inl ⟨b, hb, rfl⟩
  | collect => exact continued (Hand.continues_collect _ _ _)
  | accept address under => exact continued (Hand.continues_accept under)
  | acknowledge now under | finish after under =>
    exact continued (.of_subset fun b hb => under ▸ List.mem_cons_of_mem _ hb)
  | _ => exact .inl ⟨b, hb, rfl⟩

namespace Stage.Concluded

theorem step (hx : x.Concluded id r) (hover : r.result = some result) (ho : Orderly x)
    (t : Transition x y) :
    y.Concluded id r where
  given := Nat.lt_of_lt_of_le hx.given (t.follows ho).descends.1
  stored r' hr := by
    have closed {r₀ : Endpoint} (found : x.scene.station.endpoint? id = some r₀) :
        r₀.result = some result :=
      (congrArg (·.2.1) (hx.stored r₀ found)).trans hover
    cases (Dealing.call t).evolves ho hr with
    | stays found => exact hx.stored r' found
    | new number => exact absurd hx.given (number ▸ Nat.lt_irrefl _)
    | @set r₀ change found setter next =>
      refine Eq.trans ?_ (hx.stored r₀ found)
      rw [next]
      cases setter <;> cases r₀ <;> rfl
    | @steps r₀ now frame outcome idle found rests =>
      rw [Endpoint.step_latched (closed found)] at rests
      cases rests
      exact hx.stored _ found
    | @ends b under own => exact absurd own (hx.begun b (under ▸ List.mem_cons_self))
    | @learns r₀ ack under found now next =>
      rw [next]
      exact ((hx.tidy.stored id r₀ found).final_react (closed found) (.outcome now ack)).trans
        (hx.stored r₀ found)
  begun b hb hid := by
    rcases t.begun hb with ⟨b', hb', hid'⟩ | found
    · exact hx.begun b' hb' (hid'.trans hid)
    · have hr : b.origin.result = some result :=
        (congrArg (·.2.1) (hx.stored _ (hid ▸ found))).trans hover
      have hwrites := b.writes
      rw [Endpoint.step_latched hr] at hwrites
      cases hwrites
  tidy := hx.tidy.step Endpoint.kept_tidy t ho

end Stage.Concluded

/-- What is over stays as it is, but for what setters change. -/
theorem Path.concluded (h : Path x y) (ho : Orderly x) (hx : x.Concluded id r)
    (hover : r.result = some result) :
    y.Concluded id r := h.maintains ho hx fun _ _ t ho hx => hx.step hover ho t

end Concluded

end CanTransport
