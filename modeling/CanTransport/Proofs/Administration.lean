import CanTransport.Proofs.Proceeding

/-! # Requests and settings proceed by transitions -/
namespace CanTransport.Station
open CanTransport.Action

variable {inner : Scene → Scene → Prop} {g : Hand} {c c' c₁ c₂ : Scene}

theorem proceeds_configure {f : Station → Station}
    (hf : ∃ settings, f c.station = { c.station with settings }) : Proceeds g c (c.access f) := by
  obtain ⟨settings, hf⟩ := hf
  have ha : c.access f = c.access fun s => { s with settings, lastTick := c.station.lastTick } :=
    access_congr _ hf
  rw [ha]
  exact .single (.configure settings c.station.lastTick) rfl

theorem changeSettings_proceeds {change : Settings → Settings} {a : Except LockTimeout Unit}
    (hg : Fits g c) (h : (changeSettings change).Ends inner c a c') : Proceeds g c c' := by
  apply proceeds_withLock hg h
  intro b c₁ _ _ hb
  rw [ends_modify.mp hb]
  exact proceeds_configure ⟨_, rfl⟩

theorem addGroup_proceeds {group : UInt8} {a : Except LockTimeout Bool} (hg : Fits g c)
    (h : (addGroup group).Ends inner c a c') : Proceeds g c c' := by
  apply proceeds_withLock hg h
  intro b c₁ _ _ hb
  rw [(ends_modifyGet.mp hb).2]
  exact proceeds_configure ⟨_, rfl⟩

theorem removeGroup_proceeds {group : UInt8} {a : Except LockTimeout Bool} (hg : Fits g c)
    (h : (removeGroup group).Ends inner c a c') : Proceeds g c c' := by
  apply proceeds_withLock hg h
  intro b c₁ _ _ hb
  rw [(ends_modifyGet.mp hb).2]
  exact proceeds_configure ⟨_, rfl⟩

theorem changeEach_proceeds {change : Endpoint → Endpoint} (hs : Endpoint.Setter change)
    {handles : List Handle} {a : Except LockTimeout Unit} (hg : Fits g c)
    (h : (changeEach change handles).Ends inner c a c') :
    Proceeds g c c' := by
  induction handles generalizing c with
  | nil =>
    obtain ⟨-, rfl⟩ := h
    exact .refl g c'
  | cons h' rest ih =>
    obtain ⟨a₁, c₁, h₁, h₂⟩ := ends_bind.mp h
    have p₁ : Proceeds g c c₁ := by
      apply proceeds_withLock hg h₁
      intro b c₂ hfree _ hb
      rw [ends_modify.mp hb]
      exact .single (.adjust (hg.idle hfree) hs) rfl
    cases a₁ with
    | error e =>
      obtain ⟨-, rfl⟩ := h₂
      exact p₁
    | ok _ => exact p₁.trans (ih (hg.proceed p₁) h₂)

theorem changeAll_proceeds {change : Endpoint → Endpoint} (hs : Endpoint.Setter change)
    {a : Except LockTimeout Unit} (hg : Fits g c) (h : (changeAll change).Ends inner c a c') :
    Proceeds g c c' := by
  obtain ⟨waiting, c₁, h₁, h⟩ := ends_bind.mp h
  obtain ⟨rfl, -⟩ := ends_look h₁
  cases waiting with
  | error e =>
    obtain ⟨-, rfl⟩ := h
    exact .refl g c'
  | ok waiting =>
    obtain ⟨running, c₂, h₂, h⟩ := ends_bind.mp h
    obtain ⟨rfl, -⟩ := ends_look h₂
    cases running with
    | error e =>
      obtain ⟨-, rfl⟩ := h
      exact .refl g c'
    | ok running => exact changeEach_proceeds hs hg h

theorem setBlockSize_proceeds {value : UInt8} {a : Except LockTimeout Unit} (hg : Fits g c)
    (h : (setBlockSize value).Ends inner c a c') : Proceeds g c c' := by
  obtain ⟨a₁, c₁, h₁, h⟩ := ends_bind.mp h
  have p₁ := changeSettings_proceeds hg h₁
  cases a₁ with
  | error e =>
    obtain ⟨-, rfl⟩ := h
    exact p₁
  | ok _ => exact p₁.trans (changeAll_proceeds (.blockSize value) (hg.proceed p₁) h)

theorem setSeparation_proceeds {value : SeparationTime} {a : Except ConfigError Unit}
    (hg : Fits g c) (h : (setSeparation value).Ends inner c a c') : Proceeds g c c' := by
  unfold setSeparation at h
  split at h
  · obtain ⟨-, rfl⟩ := h
    exact .refl g c'
  · obtain ⟨a₁, c₁, h₁, h⟩ := ends_bind.mp h
    have p₁ := changeSettings_proceeds hg h₁
    cases a₁ with
    | error e =>
      obtain ⟨-, rfl⟩ := h
      exact p₁
    | ok _ =>
      obtain ⟨a₂, c₂, h₂, h⟩ := ends_bind.mp h
      have p₂ := changeAll_proceeds (.separation value) (hg.proceed p₁) h₂
      cases a₂ <;>
      · obtain ⟨-, rfl⟩ := h
        exact p₁.trans p₂

theorem addSender_ok {s s' : Station} {address : Address} {message : List UInt8}
    {kind : MessageType} {waitLimit : Option UInt8} {h : Handle}
    (hs : s.addSender address message kind waitLimit = (.ok h, s')) :
    ∃ sender rest, Sender.create address message kind waitLimit s.budget = .ok (sender, rest) ∧
      h = (Endpoint.sender sender).handle s.fresh ∧ s' = (s.adopt (.sender sender) rest).2 := by
  unfold addSender at hs
  split at hs
  · cases hs
  · next sender rest hc =>
    cases hs
    exact ⟨sender, rest, hc, rfl, rfl⟩

theorem addSender_error {s s' : Station} {address : Address} {message : List UInt8}
    {kind : MessageType} {waitLimit : Option UInt8} {e : RequestError}
    (hs : s.addSender address message kind waitLimit = (.error e, s')) :
    s' = s := by
  unfold addSender at hs
  split at hs
  · cases hs
    rfl
  · cases hs

/-- A request leaves its sender in the queue and is on record, or leaves nothing. -/
theorem request_proceeds {target : UInt8} {type : TargetType} {message : List UInt8}
    {kind : MessageType} {answer : Except RequestError EndpointId} (hg : Fits g c)
    (h : (request target type message kind).Ends inner c answer c₁) :
    Proceeds g c
      { c₁ with events := c₁.events ++ c.station.admission target type message kind answer } := by
  have refused : ∀ e, answer = .error e →
      { c₁ with events := c₁.events ++ c.station.admission target type message kind answer } =
      c₁ := by
    rintro e rfl
    simp [admission]
  obtain ⟨seen, c₂, h₁, h⟩ := ends_bind.mp h
  obtain ⟨rfl, hseen⟩ := ends_look h₁
  cases seen with
  | error e =>
    obtain ⟨rfl, rfl⟩ := h
    rw [refused _ rfl]
    exact .refl g c₁
  | ok s =>
    cases hseen s rfl
    obtain ⟨added, c₃, h₂, h⟩ := ends_bind.mp h
    obtain ⟨rfl, rfl⟩ := ends_modifyGet.mp h₂
    cases ha : c₂.station.addSender (.ofParts type target c₂.station.settings.source) message kind
        c₂.station.waitLimit with
    | mk added s' =>
      rw [ha] at h
      cases added with
      | error e =>
        obtain ⟨rfl, rfl⟩ := h
        rw [refused _ rfl, access_eq_self (by rw [ha, addSender_error ha])]
        exact .refl g c₂
      | ok h' =>
        obtain ⟨sender, rest, hs, rfl, rfl⟩ := addSender_ok ha
        rw [access_congr (fun s => (s.adopt (.sender sender) rest).2) (by rw [ha])] at h
        obtain ⟨queued, c₄, h₃, h⟩ := ends_bind.mp h
        rcases ends_withLock.mp h₃ with ⟨rfl, rfl⟩ | ⟨-, _, c₅, hq, rfl, rfl⟩
        · obtain ⟨_, c₅, h₄, rfl, rfl⟩ := ends_bind.mp h
          rw [refused _ rfl, ends_modify.mp h₄]
          exact .single (.turnDown sender rest hs) rfl
        · obtain ⟨rfl, rfl⟩ := h
          rw [ends_modify.mp hq, unlock_access_lock]
          exact .single (.request hs) rfl

end CanTransport.Station
