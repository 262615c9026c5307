import CanTransport.Proofs.Stepping

/-! # Ticks proceed by transitions

What is over is taken off its identifier, reported and dropped before the tick lets go of the gate.
-/
namespace CanTransport.Station
open CanTransport.Action

variable {inner : Scene → Scene → Prop} {g : Hand} {c c' c₁ c₂ : Scene}

theorem receiveFrame_proceeds {settings : Settings} {a : Option Frame}
    (hi : Sound inner) (hg : Fits g c) (h : (receiveFrame settings).Ends inner c a c') :
    Proceeds g c c' := by
  obtain ⟨count, c₁, h₁, h⟩ := ends_bind.mp h
  obtain ⟨_, -, h₁⟩ := ends_ask.mp h₁
  have p := hi g c c₁ hg h₁
  split at h
  · obtain ⟨-, rfl⟩ := h
    exact p
  · obtain ⟨frame, c₂, h₂, -, rfl⟩ := ends_bind.mp h
    obtain ⟨_, -, h₂⟩ := ends_ask.mp h₂
    exact p.trans (hi g c₁ c' (hg.proceed p) h₂)

theorem startWaiting_proceeds {a : Unit} (hg : Fits g c) (h : startWaiting.Ends inner c a c') :
    Proceeds g c c' := by
  obtain ⟨b, c₁, h₁, -, rfl⟩ := ends_bind.mp h
  apply proceeds_withLock hg h₁
  intro b c₁ _ hl hb
  apply proceeds_withLock hl hb
  intro b c₁ _ _ hb
  rw [ends_modify.mp hb]
  exact .single .start rfl

theorem passOn_proceeds {h' : Handle} {outcome : StepOutcome} {a : Unit} (hg : Fits g c)
    (hh : c.station.Genuine h') (hs : ∀ length, outcome ≠ .firstFrame length)
    (h : (passOn h' outcome).Ends inner c a c') : Proceeds g c c' := by
  cases outcome with
  | inProgress =>
    obtain ⟨-, rfl⟩ := h
    exact .refl g c'
  | firstFrame length => exact absurd rfl (hs length)
  | finished result =>
    obtain ⟨b, c₁, h₁, -, rfl⟩ := ends_bind.mp h
    apply proceeds_withLock hg h₁
    intro b c₁ _ hl hb
    rw [ends_modify.mp hb]
    exact .single (.mark hh) rfl

/-- A message that a step announces is passed on before anything else happens. -/
theorem Announces.proceeds {h' : Handle} {length : Nat} (ha : Announces g h'.id length c c₁)
    (hg : Fits g c) (hh : c.station.Genuine h') (hu : g.untold = []) (ht : g.told = []) :
    Proceeds g c (c₁.note (.told h'.id (.firstFrame h'.address length h'.kind))) := by
  obtain ⟨hidle, c₂, r, next, frame, clock, budget, p, hr, hm, rfl⟩ := ha
  have hdescends := p.path.descends (hg.lock _).orderly
  have hhandle : r.handle h'.id = h' := (hh.descend hdescends).2 r hr
  have t := Transition.announce hidle hr hm hu ht
  rw [← hhandle]
  exact (p.trans (.single t rfl)).under

theorem stepAndPassOn_proceeds {h' : Handle} {frame : Option Frame} {a : Unit}
    (hi : Sound inner) (hg : Fits g c) (hh : c.station.Genuine h') (hu : g.untold = [])
    (ht : g.told = [])
    (h : (stepEndpoint h'.id frame >>= fun outcome => passOn h' outcome).Ends inner c a c') :
    Proceeds g c c' := by
  obtain ⟨outcome, c₁, h₁, h⟩ := ends_bind.mp h
  rcases stepEndpoint_proceeds hi hg h₁ with ⟨p, hs⟩ | ⟨length, rfl, ha⟩
  · exact p.trans (passOn_proceeds (hg.proceed p) (hh.descend (p.path.descends hg.orderly)) hs h)
  · obtain ⟨_, -, h⟩ := ends_ask.mp h
    have p := ha.proceeds hg hh hu ht
    exact p.trans (hi g _ c' (hg.proceed p) h)

theorem dispatchOne_proceeds {tickAt : Micros} {frame a : Option Frame}
    {h' : Handle} (hi : Sound inner) (hg : Fits g c) (hh : c.station.Genuine h')
    (hu : g.untold = []) (ht : g.told = []) (h : (dispatchOne tickAt frame h').Ends inner c a c') :
    Proceeds g c c' := by
  rw [dispatchOne_eq] at h
  obtain ⟨claims, c₁, h₁, h₂⟩ := ends_bind.mp h
  have hc : c₁ = c := by
    split at h₁
    · split at h₁
      · exact inspect_eq h₁
      · exact h₁.2
    · exact h₁.2
  rw [hc] at h₂
  split at h₂
  · obtain ⟨_, c₃, h₃, -, rfl⟩ := ends_bind.mp h₂
    exact stepAndPassOn_proceeds hi hg hh hu ht h₃
  · obtain ⟨due, c₂, h₃, h₄⟩ := ends_bind.mp h₂
    rw [inspect_eq h₃] at h₄
    split at h₄
    · obtain ⟨_, c₄, h₅, -, rfl⟩ := ends_bind.mp h₄
      exact stepAndPassOn_proceeds hi hg hh hu ht h₅
    · obtain ⟨-, rfl⟩ := h₄
      exact .refl g c'

theorem dispatch_proceeds {tickAt : Micros} {frame a : Option Frame} {handles : List Handle}
    (hi : Sound inner) (hg : Fits g c) (hh : ∀ h' ∈ handles, c.station.Genuine h')
    (hu : g.untold = []) (ht : g.told = [])
    (h : (dispatch tickAt frame handles).Ends inner c a c') : Proceeds g c c' := by
  induction handles generalizing c frame with
  | nil =>
    obtain ⟨-, rfl⟩ := h
    exact .refl g c'
  | cons h' rest ih =>
    obtain ⟨frame', c₁, h₁, h₂⟩ := ends_bind.mp h
    have p := dispatchOne_proceeds hi hg (hh h' List.mem_cons_self) hu ht h₁
    have hd := p.path.descends hg.orderly
    exact p.trans (ih (hg.proceed p) (fun x hx => (hh x (List.mem_cons_of_mem _ hx)).descend hd) h₂)

theorem addReceiver_ok {s s' : Station} {address : Address} {blockSize : UInt8}
    {separation : SeparationTime} {h : Handle}
    (hs : s.addReceiver address blockSize separation = (.ok h, s')) :
    ∃ receiver rest, Receiver.create address blockSize separation s.budget = .ok (receiver, rest) ∧
      h = (Endpoint.receiver receiver).handle s.fresh ∧
      s' = (s.adopt (.receiver receiver) rest).2 := by
  unfold addReceiver at hs
  split at hs
  · cases hs
  · next receiver rest hc =>
    cases hs
    exact ⟨receiver, rest, hc, rfl, rfl⟩

theorem addReceiver_error {s s' : Station} {address : Address} {blockSize : UInt8}
    {separation : SeparationTime} {e : BudgetError}
    (hs : s.addReceiver address blockSize separation = (.error e, s')) : s' = s := by
  unfold addReceiver at hs
  split at hs
  · cases hs
    rfl
  · cases hs

theorem openReception_some {s s' : Station} {address : Address} {settings : Settings} {h : Handle}
    (hs : s.openReception address settings = (some h, s')) :
    ∃ receiver rest, s.active.find? address = none ∧
      Receiver.create address settings.blockSize settings.separation s.budget =
      .ok (receiver, rest) ∧ h = (Endpoint.receiver receiver).handle s.fresh ∧
      s' = { (s.adopt (.receiver receiver) rest).2 with active := s.active.insert address h } := by
  unfold openReception at hs
  split at hs
  · cases hs
  · next hq =>
    split at hs
    · cases hs
    · next ha =>
      obtain ⟨receiver, rest, hc, rfl, rfl⟩ := addReceiver_ok ha
      cases hs
      exact ⟨receiver, rest, by simpa using hq, hc, rfl, rfl⟩

theorem openReception_none {s s' : Station} {address : Address} {settings : Settings}
    (hs : s.openReception address settings = (none, s')) : s' = s := by
  unfold openReception at hs
  split at hs
  · cases hs
    rfl
  · split at hs
    · next ha =>
      cases hs
      exact addReceiver_error ha
    · cases hs

theorem openReceiver_proceeds {frame : Frame} {settings : Settings} {a : Unit}
    (hi : Sound inner) (hg : Fits g c) (hu : g.untold = []) (ht : g.told = [])
    (h : (openReceiver frame settings).Ends inner c a c') : Proceeds g c c' := by
  obtain ⟨opened, c₁, h₁, h₂⟩ := ends_bind.mp h
  rcases ends_withLock.mp h₁ with ⟨rfl, rfl⟩ | ⟨-, opened, c₂, hb, rfl, rfl⟩
  · obtain ⟨-, rfl⟩ := h₂
    exact .refl g c'
  · obtain ⟨rfl, rfl⟩ := ends_modifyGet.mp hb
    rw [unlock_access_lock] at h₂
    cases ho : c.station.openReception frame.id settings with
    | mk opened s' =>
      have hlocked : (c.lock .conversations).station.openReception frame.id settings =
          (opened, s') := ho
      rw [hlocked] at h₂
      cases opened with
      | none =>
        obtain ⟨-, rfl⟩ := h₂
        rw [access_eq_self (by rw [ho, openReception_none ho])]
        exact .refl g c
      | some h' =>
        obtain ⟨receiver, rest, hq, hc, rfl, rfl⟩ := openReception_some ho
        have p : Proceeds g c (c.access fun s => (s.openReception frame.id settings).2) := by
          rw [access_congr (fun s =>
            { (s.adopt (.receiver receiver) rest).2 with
              active := s.active.insert frame.id ((Endpoint.receiver receiver).handle s.fresh) })
                (by rw [ho])]
          exact .single (.openReception hq hc hu ht) rfl
        refine p.trans (stepAndPassOn_proceeds hi (hg.proceed p) ?_ hu ht h₂)
        have hnew := Genuine.adopt hg.orderly.numbered (.receiver receiver) rest
        rw [access_station, ho]
        exact hnew.descend (.of_eq rfl rfl)

theorem reportEnd_path {h' : Handle} {untold : List Handle} {a : Unit} (hi : Sound inner)
    (hg : Fits { g with untold := h' :: untold } c) (hgate : .gate ∈ c.held)
    (h : (reportEnd h').Ends inner c a c') :
    Path ⟨c, { g with untold := h' :: untold }⟩ ⟨c', { g with untold, told := g.told ++ [h'] }⟩ ∧
      c'.held = c.held := by
  obtain ⟨told, c₁, h₁, h₂⟩ := ends_bind.mp h
  rcases ends_withLock.mp h₁ with ⟨rfl, rfl⟩ | ⟨hfree, told, c₂, hb, rfl, rfl⟩
  · obtain ⟨_, -, hin⟩ := ends_ask.mp h₂
    have path :=
      Path.single (@Transition.tell c₁ { g with untold := h' :: untold } _ _ none rfl (.inl rfl))
    have p := hi _ _ _ (hg.turn hgate path rfl rfl) hin
    exact ⟨path.trans p.path, p.held⟩
  · obtain ⟨-, rfl⟩ := h₂
    obtain ⟨s, c₃, hs, hb⟩ := ends_bind.mp hb
    obtain ⟨rfl, rfl⟩ := ends_get.mp hs
    obtain ⟨_, -, hin⟩ := ends_ask.mp hb
    have path := Path.single (.tell (c := c.lock (.endpoint h'.id))
        (g := { g with untold := h' :: untold }) rfl
      (.inr ⟨rfl, hg.idle hfree⟩))
    have p := hi _ _ _ ((hg.lock _).turn (List.mem_cons_of_mem _ hgate) path rfl rfl) hin
    refine ⟨((Path.single (.locks _)).trans (path.trans p.path)).tail (.locks _), ?_⟩
    change c₂.held.erase _ = c.held
    rw [p.held]
    exact List.erase_cons_head _ _

theorem report_path {handles : List Handle} {a : Unit} (hi : Sound inner)
    (hg : Fits { g with untold := handles } c) (hgate : .gate ∈ c.held)
    (h : (report handles).Ends inner c a c') :
    Path ⟨c, { g with untold := handles }⟩
      ⟨c', { g with untold := [], told := g.told ++ handles }⟩ ∧ c'.held = c.held := by
  induction handles generalizing c g with
  | nil =>
    obtain ⟨-, rfl⟩ := h
    rw [List.append_nil]
    exact ⟨.refl _, rfl⟩
  | cons h' rest ih =>
    rw [report] at h
    obtain ⟨released, c₁, h₁, h₂⟩ := ends_bind.mp h
    obtain ⟨_, c₂, h₃, h₄⟩ := ends_bind.mp h₂
    have p := forget_proceeds hi hg h₁
    have hgate₁ : .gate ∈ c₁.held := p.held ▸ hgate
    obtain ⟨path, hheld⟩ := reportEnd_path hi (hg.proceed p) hgate₁ h₃
    have hg₂ : Fits { g with untold := rest, told := g.told ++ [h'] } c₂ :=
      (hg.proceed p).turn hgate₁ path rfl hheld
    obtain ⟨path', hheld'⟩ := ih (g := { g with told := g.told ++ [h'] }) hg₂ (hheld ▸ hgate₁) h₄
    rw [List.append_assoc] at path'
    exact ⟨(p.path.trans path).trans path', (hheld'.trans hheld).trans p.held⟩

theorem retire_proceeds {tasks : List Task} {a : Unit} (hi : Sound inner) (hg : Fits { tasks } c)
    (hgate : .gate ∈ c.held) (h : retire.Ends inner c a c') : Proceeds { tasks } c c' := by
  obtain ⟨taken, c₁, h₁, h₂⟩ := ends_bind.mp h
  rcases ends_withLock.mp h₁ with ⟨rfl, rfl⟩ | ⟨-, retired, c₂, hb, rfl, rfl⟩
  · obtain ⟨-, rfl⟩ := h₂
    exact .refl _ c'
  · obtain ⟨rfl, rfl⟩ := ends_modifyGet.mp hb
    rw [unlock_access_lock] at h₂
    obtain ⟨_, c₂, h₃, h₄⟩ := ends_bind.mp h₂
    have path := Path.single (.retire (c := c) (g := { tasks }) rfl rfl)
    obtain ⟨path', hheld⟩ := report_path (g := { tasks }) hi (hg.turn hgate path rfl rfl) hgate h₃
    rw [ends_modify.mp h₄]
    exact ⟨(path.trans path').tail (.drop rfl), hheld⟩

/-- A tick up to where it retires what is over; false if it is given up before. -/
def conduct : Action Bool := do
  match ← withLock .settings get with
  | .error _ => return false
  | .ok s =>
    let settings := s.settings
    let _ ← settle
    startWaiting
    let frame ← receiveFrame settings
    match ← withLock .conversations get with
    | .error _ => return false
    | .ok s =>
      let tickAt ← now
      match ← dispatch tickAt frame s.active.handles with
      | some frame => openReceiver frame settings
      | none => pure ()
      return true

theorem tick_eq_conduct : tick = conduct >>= fun whole => if whole then retire else pure () := by
  unfold tick conduct
  simp only [bind_assoc]
  refine congrArg _ (funext fun seen => ?_)
  cases seen with
  | error e => rfl
  | ok s =>
    simp only [bind_assoc]
    refine congrArg _
      (funext fun _ => congrArg _ (funext fun _ => congrArg _ (funext fun frame => ?_)))
    refine congrArg _ (funext fun running => ?_)
    cases running with
    | error e => rfl
    | ok running =>
      simp only [bind_assoc]
      refine congrArg _ (funext fun tickAt => congrArg _ (funext fun left => ?_))
      cases left with
      | none => rfl
      | some frame =>
        exact (Program.bind_assoc (openReceiver frame s.settings) (fun _ => .done true) fun whole =>
          if whole then retire else .done ()).symm

theorem conduct_proceeds {tasks : List Task} {whole : Bool} (hi : Sound inner)
    (hg : Fits { tasks } c) (h : conduct.Ends inner c whole c') : Proceeds { tasks } c c' := by
  obtain ⟨seen, c₁, h₁, h₂⟩ := ends_bind.mp h
  rw [(ends_look h₁).1] at h₂
  cases seen with
  | error e =>
    obtain ⟨-, rfl⟩ := h₂
    exact .refl _ c'
  | ok s =>
    obtain ⟨_, c₂, h₃, h₄⟩ := ends_bind.mp h₂
    have p₂ := settle_proceeds hi hg h₃
    have hg₂ := hg.proceed p₂
    obtain ⟨_, c₃, h₅, h₆⟩ := ends_bind.mp h₄
    have p₃ := startWaiting_proceeds hg₂ h₅
    have hg₃ := hg₂.proceed p₃
    obtain ⟨frame, c₄, h₇, h₈⟩ := ends_bind.mp h₆
    have p₄ := receiveFrame_proceeds hi hg₃ h₇
    have hg₄ := hg₃.proceed p₄
    apply ((p₂.trans p₃).trans p₄).trans
    obtain ⟨running, c₅, h₉, h₁₀⟩ := ends_bind.mp h₈
    obtain ⟨hc₅, hrunning⟩ := ends_look h₉
    rw [hc₅] at h₁₀
    cases running with
    | error e =>
      obtain ⟨-, rfl⟩ := h₁₀
      exact .refl _ c'
    | ok running =>
      rw [hrunning running rfl] at h₁₀
      obtain ⟨tickAt, c₆, h₁₁, h₁₂⟩ := ends_bind.mp h₁₀
      have p₆ := hi.now hg₄ h₁₁
      have hg₆ := hg₄.proceed p₆
      obtain ⟨left, c₇, h₁₃, h₁₄⟩ := ends_bind.mp h₁₂
      have hgenuine : ∀ h' ∈ c₄.station.active.handles, c₆.station.Genuine h' := fun h' hmem =>
        (hg₄.orderly.genuine h' (Stage.mem_handles.mpr (.inr (.inl hmem)))).descend
          (p₆.path.descends hg₄.orderly)
      have p₇ := dispatch_proceeds hi hg₆ hgenuine rfl rfl h₁₃
      have hg₇ := hg₆.proceed p₇
      apply (p₆.trans p₇).trans
      cases left with
      | none =>
        obtain ⟨-, rfl⟩ := h₁₄
        exact .refl _ c'
      | some f =>
        obtain ⟨_, c₈, h₁₅, -, rfl⟩ := ends_bind.mp h₁₄
        exact openReceiver_proceeds hi hg₇ rfl rfl h₁₅

theorem tick_proceeds {tasks : List Task} {a : Unit} (hi : Sound inner) (hg : Fits { tasks } c)
    (hgate : .gate ∈ c.held) (h : tick.Ends inner c a c') : Proceeds { tasks } c c' := by
  rw [tick_eq_conduct] at h
  obtain ⟨whole, c₁, h₁, h₂⟩ := ends_bind.mp h
  have p := conduct_proceeds hi hg h₁
  cases whole with
  | false =>
    obtain ⟨-, rfl⟩ := h₂
    exact p
  | true => exact p.trans (retire_proceeds hi (hg.proceed p) (p.held ▸ hgate) h₂)

/-- Only one tick at a time has the gate, and it starts with nothing that is over in hand. -/
theorem throughGate_proceeds {body : Action Unit} {a : Unit} (hg : Fits g c)
    (h : (throughGate body).Ends inner c a c')
    (hbody : ∀ tasks a c₁, Fits { tasks } (c.lock .gate) → body.Ends inner (c.lock .gate) a c₁ →
      Proceeds { tasks } (c.lock .gate) c₁) : Proceeds g c c' := by
  obtain ⟨b, c₁, h₁, -, rfl⟩ := ends_bind.mp h
  apply proceeds_withLock hg h₁
  intro b c₂ hfree hl hb
  obtain ⟨hu, ht⟩ := hg.gated.resolve_left hfree
  obtain ⟨tasks, untold, told⟩ := g
  cases hu
  cases ht
  exact hbody tasks b c₂ hl hb

theorem stamp_proceeds (g : Hand) (c : Scene) (clock : Micros) :
    Proceeds g c (c.access fun s => { s with lastTick := some clock }) := by
  have ha : (c.access fun s => { s with lastTick := some clock }) =
      c.access fun s => { s with settings := c.station.settings, lastTick := some clock } :=
      access_congr _ rfl
  rw [ha]
  exact .single (.configure c.station.settings (some clock)) rfl

theorem pacedTick_proceeds {a : Unit} (hi : Sound inner) (hg : Fits g c)
    (h : pacedTick.Ends inner c a c') :
    Proceeds g c c' := by
  apply throughGate_proceeds hg h
  intro tasks a c₁ hl hb
  obtain ⟨clock, c₂, h₁, h₂⟩ := ends_bind.mp hb
  have p := hi.now hl h₁
  obtain ⟨_, c₃, h₃, h₄⟩ := ends_bind.mp h₂
  rw [ends_modify.mp h₃] at h₄
  have q := p.trans (stamp_proceeds _ _ clock)
  exact q.trans (tick_proceeds hi (hl.proceed q) (q.held ▸ List.mem_cons_self) h₄)

theorem tickIfDue_proceeds {a : Unit} (hi : Sound inner) (hg : Fits g c)
    (h : tickIfDue.Ends inner c a c') :
    Proceeds g c c' := by
  obtain ⟨active, c₁, h₁, h₂⟩ := ends_bind.mp h
  obtain ⟨_, -, hin⟩ := ends_ask.mp h₁
  have p := hi g c c₁ hg hin
  apply p.trans
  cases active with
  | false =>
    obtain ⟨-, rfl⟩ := h₂
    exact .refl g c'
  | true =>
    apply throughGate_proceeds (hg.proceed p) h₂
    intro tasks a c₂ hl hb
    obtain ⟨clock, c₃, h₃, h₄⟩ := ends_bind.mp hb
    have p₃ := hi.now hl h₃
    obtain ⟨s, c₄, h₅, h₆⟩ := ends_bind.mp h₄
    obtain ⟨rfl, rfl⟩ := ends_get.mp h₅
    split at h₆
    · obtain ⟨-, rfl⟩ := h₆
      exact p₃
    · obtain ⟨_, c₅, h₇, h₈⟩ := ends_bind.mp h₆
      rw [ends_modify.mp h₇] at h₈
      have q := p₃.trans (stamp_proceeds _ _ clock)
      exact q.trans (tick_proceeds hi (hl.proceed q) (q.held ▸ List.mem_cons_self) h₈)

end CanTransport.Station
